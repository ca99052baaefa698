import Mathlib.Data.List.AList

/-! Finite tables, the value of a map at one moment. Iteration order is not part
of the value's meaning: every operation here is about lookups. -/
namespace KubeYamls.Data
open List Option Function

abbrev Table (K V : Type) := AList (fun _ : K => V)

namespace Table
variable {K V W : Type} [DecidableEq K]

/-- Keep the entries whose value satisfies `p`. -/
def sweep (p : V → Bool) (t : Table K V) : Table K V :=
  ⟨t.entries.filter fun e => p e.2, (filter_sublist.map _).nodup t.nodupKeys⟩

private theorem dlookup_filter (p : V → Bool) (k : K) : ∀ l : List (Sigma fun _ : K => V), l.NodupKeys →
      List.dlookup k (l.filter fun e => p e.2) = (List.dlookup k l).filter p
  | [], _ => rfl
  | ⟨a, b⟩ :: l, hn => by
    have hl := dlookup_filter p k l (nodupKeys_cons.mp hn).2
    by_cases hk : k = a
    · subst hk
      cases hp : p b with
      | true => simp [hp, Option.filter]
      | false =>
        have hnone : List.dlookup k l = none :=
          dlookup_eq_none.mpr (nodupKeys_cons.mp hn).1
        simp [hp, hl, hnone, Option.filter]
    · have hne : ∀ l', List.dlookup k (⟨a, b⟩ :: l' : List (Sigma fun _ : K => V)) =
          List.dlookup k l' := fun l' => dlookup_cons_ne l' ⟨a, b⟩ hk
      cases hp : p b <;> simp [hp, hl, hne]

@[simp] theorem lookup_sweep (p : V → Bool) (k : K) (t : Table K V) :
    (t.sweep p).lookup k = (t.lookup k).filter p :=
  dlookup_filter p k t.entries t.nodupKeys

theorem lookup_insert_eq_update (k : K) (v : V) (t : Table K V) :
    (t.insert k v).lookup = update t.lookup k (some v) := by
  funext k'
  by_cases h : k' = k
  · subst h
    simp
  · simp [AList.lookup_insert_ne h, h]

theorem lookup_erase_eq_update (k : K) (t : Table K V) : (t.erase k).lookup = update t.lookup k none := by
  funext k'
  by_cases h : k' = k
  · subst h
    simp
  · simp [AList.lookup_erase_ne h, h]

theorem map_lookup_insert (g : K → V → W) (k : K) (v : V) (t : Table K V) :
    (fun k' => ((t.insert k v).lookup k').map (g k')) =
      update (fun k' => (t.lookup k').map (g k')) k (some (g k v)) := by
  funext k'
  rw [congrFun (lookup_insert_eq_update k v t) k']
  exact apply_update (fun k' (x : Option V) => x.map (g k')) t.lookup k (some v) k'

theorem map_lookup_erase (g : K → V → W) (k : K) (t : Table K V) :
    (fun k' => ((t.erase k).lookup k').map (g k')) = update (fun k' => (t.lookup k').map (g k')) k none := by
  funext k'
  rw [congrFun (lookup_erase_eq_update k t) k']
  exact apply_update (fun k' (x : Option V) => x.map (g k')) t.lookup k none k'

theorem lookup_insert_iff {k k' v v'} {t : Table K V} :
    (t.insert k v).lookup k' = some v' ↔ (k' = k ∧ v' = v) ∨ (k' ≠ k ∧ t.lookup k' = some v') := by
  by_cases h : k' = k
  · subst h
    simp [eq_comm]
  · simp [AList.lookup_insert_ne h, h]

theorem lookup_erase_iff {k k' v'} {t : Table K V} :
    (t.erase k).lookup k' = some v' ↔ k' ≠ k ∧ t.lookup k' = some v' := by
  by_cases h : k' = k
  · subst h
    simp
  · simp [AList.lookup_erase_ne h, h]

theorem lookup_sweep_iff {p k v} {t : Table K V} :
    (t.sweep p).lookup k = some v ↔ t.lookup k = some v ∧ p v = true := by
  simp [filter_eq_some_iff]

/-- An entry that is there already is kept. -/
def insertNew (k : K) (v : V) (t : Table K V) : Table K V :=
  if (t.lookup k).isSome then t else t.insert k v

theorem lookup_insertNew (k : K) (v : V) (t : Table K V) (k' : K) :
    (t.insertNew k v).lookup k' = if k' = k then some ((t.lookup k).getD v) else t.lookup k' := by
  unfold insertNew
  by_cases h : k' = k
  · subst h
    cases hk : t.lookup k' <;> simp [hk]
  · cases hk : t.lookup k <;> simp [AList.lookup_insert_ne h, h]

section folds
variable {α : Type} (key : α → K) (val : α → V)

theorem lookup_foldl_insert_eq (as : List α) (t : Table K V) (k : K) :
    (as.foldl (fun t a => t.insert (key a) (val a)) t).lookup k =
      ((as.reverse.find? (key · = k)).map val).or (t.lookup k) := by
  induction as generalizing t with
  | nil => simp
  | cons a as ih =>
    rw [foldl_cons, ih, reverse_cons, find?_append]
    cases hlast : as.reverse.find? (key · = k) with
    | some b => simp
    | none =>
      by_cases hk : key a = k
      · subst hk
        simp
      · simp [hk, AList.lookup_insert_ne (Ne.symm hk)]

theorem lookup_foldl_insert (as : List α) (t : Table K V) (k : K) : (∃ a ∈ as, key a = k ∧
      (as.foldl (fun t a => t.insert (key a) (val a)) t).lookup k = some (val a)) ∨ ((∀ a ∈ as, key a ≠ k) ∧
      (as.foldl (fun t a => t.insert (key a) (val a)) t).lookup k = t.lookup k) := by
  rw [lookup_foldl_insert_eq]
  cases hlast : as.reverse.find? (key · = k) with
  | some a =>
    have ha : key a = k := by simpa using find?_some hlast
    exact .inl ⟨a, mem_reverse.mp (mem_of_find?_eq_some hlast), ha, by simp⟩
  | none => exact .inr ⟨by simpa using find?_eq_none.mp hlast, by simp⟩

theorem lookup_foldl_insertNew_eq (as : List α) (t : Table K V) (k : K) :
    (as.foldl (fun t a => t.insertNew (key a) (val a)) t).lookup k =
      (t.lookup k).or ((as.find? (key · = k)).map val) := by
  induction as generalizing t with
  | nil => simp
  | cons a as ih =>
    rw [foldl_cons, ih, lookup_insertNew]
    by_cases hk : k = key a
    · subst hk
      cases t.lookup (key a) <;> simp
    · rw [if_neg hk, find?_cons_of_neg (by simpa using Ne.symm hk)]

theorem lookup_foldl_insertNew_of_some (as : List α) {t : Table K V} {k v} (h : t.lookup k = some v) :
    (as.foldl (fun t a => t.insertNew (key a) (val a)) t).lookup k = some v := by
  rw [lookup_foldl_insertNew_eq, h, some_or]

theorem lookup_foldl_insertNew (as : List α) (t : Table K V) {k} (hnone : t.lookup k = none)
    (hk : ∃ a ∈ as, key a = k) : ∃ a ∈ as, key a = k ∧
      (as.foldl (fun t a => t.insertNew (key a) (val a)) t).lookup k = some (val a) := by
  obtain ⟨b, hb, hbk⟩ := hk
  have hsome : (as.find? (key · = k)).isSome := find?_isSome.mpr ⟨b, hb, decide_eq_true hbk⟩
  obtain ⟨a, ha⟩ := isSome_iff_exists.mp hsome
  have hak : key a = k := by simpa using find?_some ha
  refine ⟨a, mem_of_find?_eq_some ha, hak, ?_⟩
  rw [lookup_foldl_insertNew_eq, hnone, ha]
  rfl

/-- Two tables with the same keys whose values look the same. -/
def Alike (f : V → W) (t t' : Table K V) : Prop :=
  t.keys = t'.keys ∧ ∀ k, (t.lookup k).map f = (t'.lookup k).map f

theorem Alike.insertNew {f : V → W} {t t'} (h : Alike f t t') (k : K) {v v'}
    (hv : f v = f v') : Alike f (t.insertNew k v) (t'.insertNew k v') := by
  have hsome : (t.lookup k).isSome = (t'.lookup k).isSome := by
    simpa using congrArg Option.isSome (h.2 k)
  constructor
  · unfold Table.insertNew
    rw [← hsome]
    split
    · exact h.1
    · simp [h.1]
  · intro k'
    rw [lookup_insertNew, lookup_insertNew]
    split
    · have hk := h.2 k
      cases ht : t.lookup k <;> cases ht' : t'.lookup k <;> simp_all
    · exact h.2 k'

theorem Alike.foldl_insertNew {f : V → W} {val' : α → V} {as : List α}
    (hval : ∀ a ∈ as, f (val a) = f (val' a)) {t t'} (h : Alike f t t') :
    Alike f (as.foldl (fun t a => t.insertNew (key a) (val a)) t)
      (as.foldl (fun t a => t.insertNew (key a) (val' a)) t') := by
  induction as generalizing t t' with
  | nil => exact h
  | cons a as ih =>
    exact ih (fun b hb => hval b (mem_cons_of_mem a hb)) (h.insertNew (key a) (hval a mem_cons_self))

end folds

end Table

end KubeYamls.Data
