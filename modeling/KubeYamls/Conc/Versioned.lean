import KubeYamls.Conc.Machine
import KubeYamls.Data.Table

/-! # Versioned cells

A remote store gives every value a revision, a new one at each write, and lets a
write name the revision it expects to replace. In every run a revision of a cell
stands for one value for good (`Cells.same_value`), so a write that finds the
revision it was given finds the value that was read with it. -/
namespace KubeYamls.Conc
open Data Function Nat

variable {S : Sig} {M : Machine S} {Init : M.World → Prop}

/-! ## Cells with revisions -/

section
variable {W K : Type} {V : K → Type}

/-- What one step may do to the cells: leave one as it is, empty it, or write it
under a revision that was not in use. -/
structure Advance (cell : W → (k : K) → Option (V k × Nat)) (rev : W → Nat) (w w' : W) : Prop where
  rev_le : rev w ≤ rev w'
  cell : ∀ k, cell w' k = cell w k ∨ cell w' k = none ∨
    ∃ v n, cell w' k = some (v, n) ∧ rev w < n ∧ n ≤ rev w'

theorem Advance.refl {cell : W → (k : K) → Option (V k × Nat)} {rev} (w : W) : Advance cell rev w w :=
  ⟨le_refl _, fun _ => .inl rfl⟩

/-- The revisions in use are positive and not ahead of the counter. -/
def Numbered (cell : W → (k : K) → Option (V k × Nat)) (rev : W → Nat) (w : W) : Prop :=
  ∀ k v n, cell w k = some (v, n) → 0 < n ∧ n ≤ rev w

theorem Numbered.advance {cell : W → (k : K) → Option (V k × Nat)} {rev w w'}
    (h : Numbered cell rev w) (ha : Advance cell rev w w') : Numbered cell rev w' := by
  intro k v n hc
  rcases ha.cell k with he | he | ⟨v', n', he, hlt, hle⟩
  · have := h k v n (he ▸ hc)
    exact ⟨this.1, le_trans this.2 ha.rev_le⟩
  · rw [he] at hc
    cases hc
  · rw [he] at hc
    cases hc
    exact ⟨by omega, hle⟩

end

structure Cells (M : Machine S) (K : Type) (V : K → Type) where
  cell : M.World → (k : K) → Option (V k × Nat)
  rev : M.World → Nat
  exec_advance : ∀ {req o ans w r w'}, M.exec req o ans w = some (r, w') → Advance cell rev w w'
  move_advance : ∀ {m w w'}, M.move m w = some w' → Advance cell rev w w'

namespace Cells
variable {K : Type} {V : K → Type} (C : Cells M K V)

theorem numbered (hI : ∀ w, Init w → Numbered C.cell C.rev w) {s : Sys M} (h : Reach Init s) :
    Numbered C.cell C.rev s.world :=
  Reach.induct' (I := fun s => Numbered C.cell C.rev s.world) hI (fun _ _ _ ih => ih)
    (fun _ _ _ _ _ _ _ _ _ ih _ hx => ih.advance (C.exec_advance hx))
    (fun _ _ _ _ ih hm => ih.advance (C.move_advance hm)) h

/-- What was seen under a revision is what stands under it now, if anything does. -/
def Faithful (seen now : M.World) : Prop :=
  ∀ k v n, C.cell seen k = some (v, n) → n ≤ C.rev now ∧ ∀ v', C.cell now k = some (v', n) → v' = v

theorem Faithful.advance {seen w w'} (h : C.Faithful seen w)
    (ha : Advance C.cell C.rev w w') : C.Faithful seen w' := by
  intro k v n hc
  obtain ⟨hle, hv⟩ := h k v n hc
  refine ⟨le_trans hle ha.rev_le, fun v' hc' => ?_⟩
  rcases ha.cell k with he | he | ⟨v'', n', he, hlt, _⟩
  · exact hv v' (he ▸ hc')
  · rw [he] at hc'
    cases hc'
  · rw [he] at hc'
    cases hc'
    omega

theorem Numbered.faithful {w} (h : Numbered C.cell C.rev w) : C.Faithful w w := by
  intro k v n hc
  refine ⟨(h k v n hc).2, fun v' hc' => ?_⟩
  rw [hc] at hc'
  cases hc'
  rfl

/-- A revision of a cell stands for one value in the whole run. -/
theorem same_value (hI : ∀ w, Init w → Numbered C.cell C.rev w) {s : Sys M} (h : Reach Init s)
    {w} (hw : Saw s.hist w) : C.Faithful w s.world := by
  refine Reach.induct' (I := fun s => ∀ w, Saw s.hist w → C.Faithful w s.world) ?_ ?_ ?_ ?_ h w hw
  · intro w _ w' hw'
    cases hw' with
    | pre h => cases h
    | post h => cases h
  · intro s req _ ih w' hw'
    exact ih w' hw'.of_start
  · intro s tid req o k ans r w hr ih _ hx w' hw'
    have hn := C.numbered hI hr
    have ha := C.exec_advance hx
    rcases hw'.of_cons with rfl | rfl | hw'
    · exact (Numbered.faithful C hn).advance C ha
    · exact Numbered.faithful C (hn.advance ha)
    · exact (ih w' hw').advance C ha
  · intro s m w _ ih hm w' hw'
    exact (ih w' hw'.of_move).advance C (C.move_advance hm)

end Cells

/-! ## A store with revisions -/

/-- Tables of values by name, one for each kind, with the revision of each value's
last write and the highest revision given out. -/
structure Versioned (K : Type) (V : K → Type) where
  tables : (k : K) → Table String (V k × Nat)
  revision : Nat
  numbered : ∀ k name v n, (tables k).lookup name = some (v, n) → 0 < n ∧ n ≤ revision

namespace Versioned
variable {K : Type} [DecidableEq K] {V : K → Type}

def empty : Versioned K V := ⟨fun _ => ∅, 1, fun _ _ _ _ h => by cases h⟩

def lookup (d : Versioned K V) (k : K) (name : String) : Option (V k × Nat) := (d.tables k).lookup name

theorem numbered_update {tables rev}
    (h : ∀ k name v n, (tables k).lookup name = some (v, n) → 0 < n ∧ n ≤ rev) {k} {t : Table String (V k × Nat)}
    (ht : ∀ name v n, t.lookup name = some (v, n) → 0 < n ∧ n ≤ rev + 1) (k' : K) (name : String)
    (v : V k') (n : Nat) (hl : (update tables k t k').lookup name = some (v, n)) : 0 < n ∧ n ≤ rev + 1 := by
  by_cases hk : k' = k
  · subst hk
    rw [update_self] at hl
    exact ht name v n hl
  · rw [update_of_ne hk] at hl
    exact (h k' name v n hl).imp_right le_succ_of_le

def write (d : Versioned K V) (k : K) (name : String) (v : V k) : Versioned K V where
  tables := update d.tables k ((d.tables k).insert name (v, d.revision + 1))
  revision := d.revision + 1
  numbered := numbered_update d.numbered fun name' v' n h => by
    rcases Table.lookup_insert_iff.mp h with ⟨_, he⟩ | ⟨_, he⟩
    · cases he
      exact ⟨succ_pos _, le_refl _⟩
    · exact (d.numbered k name' v' n he).imp_right le_succ_of_le

def remove (d : Versioned K V) (k : K) (name : String) : Versioned K V where
  tables := update d.tables k ((d.tables k).erase name)
  revision := d.revision + 1
  numbered := numbered_update d.numbered fun name' v' n h =>
    (d.numbered k name' v' n (Table.lookup_erase_iff.mp h).2).imp_right le_succ_of_le

variable {d : Versioned K V} {k : K} {name : String}

@[simp] theorem lookup_write_self (v : V k) : (d.write k name v).lookup k name = some (v, d.revision + 1) := by
  simp [write, lookup]

theorem lookup_write_ne (v : V k) {k' name'} (h : (k', name') ≠ (k, name)) :
    (d.write k name v).lookup k' name' = d.lookup k' name' := by
  by_cases hk : k' = k
  · subst hk
    have hname : name' ≠ name := fun he => h (by rw [he])
    simp [write, lookup, AList.lookup_insert_ne hname]
  · simp [write, lookup, update_of_ne hk]

@[simp] theorem lookup_remove_self : (d.remove k name).lookup k name = none := by
  simp [remove, lookup]

theorem lookup_remove_ne {k' name'} (h : (k', name') ≠ (k, name)) :
    (d.remove k name).lookup k' name' = d.lookup k' name' := by
  by_cases hk : k' = k
  · subst hk
    have hname : name' ≠ name := fun he => h (by rw [he])
    simp [remove, lookup, AList.lookup_erase_ne hname]
  · simp [remove, lookup, update_of_ne hk]

abbrev cell (d : Versioned K V) (k : K × String) : Option (V k.1 × Nat) := d.lookup k.1 k.2

theorem write_advance (v : V k) : Advance cell revision d (d.write k name v) := by
  refine ⟨le_succ _, fun ⟨k', name'⟩ => ?_⟩
  by_cases h : (k', name') = (k, name)
  · cases h
    exact .inr (.inr ⟨v, d.revision + 1, lookup_write_self v, lt_succ_self _, le_refl _⟩)
  · exact .inl (lookup_write_ne v h)

theorem remove_advance : Advance cell revision d (d.remove k name) := by
  refine ⟨le_succ _, fun ⟨k', name'⟩ => ?_⟩
  by_cases h : (k', name') = (k, name)
  · cases h
    exact .inr (.inl lookup_remove_self)
  · exact .inl (lookup_remove_ne h)

end Versioned

end KubeYamls.Conc
