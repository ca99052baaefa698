import KubeYamls.Store.Passwords
import Mathlib.Data.List.Induction

/-! # Static entries over the memory storage

`dex/storage/static.go`: clients, passwords and connectors from the configuration
file are put over a storage as read-only entries. Reading one entry, listing all of
them and guarding the writes are separate code over two sources of truth; over any
run of writes they tell the same story. -/
namespace KubeYamls.Store.Static
open Data List
open Dex (Error Outcome CaseTable Client StorageConnector asciiCase)

/-! ## Filtering a slice in place -/

section
variable {α : Type}

/-- One turn of the loop of the `List` methods. The slice that the loop runs over is
the one it writes to, `st.2` entries of which have been filled. -/
def moveKept (isStatic : α → Bool) (st : List α × Nat) (i : Nat) : List α × Nat :=
  match st.1[i]? with
  | none => st
  | some x => if isStatic x then st else (st.1.set st.2 x, st.2 + 1)

def dropStatic (isStatic : α → Bool) (found : List α) : List α :=
  let st := (List.range found.length).foldl (moveKept isStatic) (found, 0)
  st.1.take st.2

/-- After `i` turns the front of the slice holds what is kept of the first `i`
entries, and the entries not looked at yet are still in place. -/
theorem moveKept_turns (isStatic : α → Bool) (found : List α) (i : Nat) (hi : i ≤ found.length) :
    let st := (List.range i).foldl (moveKept isStatic) (found, 0)
    st.1.take st.2 = (found.take i).filter (fun x => !isStatic x) ∧ st.2 ≤ i ∧
      st.1.length = found.length ∧ st.1.drop i = found.drop i := by
  induction i with
  | zero => simp
  | succ i ih =>
    obtain ⟨hfront, hn, hlen, hrest⟩ := ih (by omega)
    simp only [range_succ, foldl_append, foldl_cons, foldl_nil]
    generalize (List.range i).foldl (moveKept isStatic) (found, 0) = st at hfront hn hlen hrest ⊢
    obtain ⟨x, hx⟩ : ∃ x, found[i]? = some x := ⟨_, getElem?_eq_getElem (by omega)⟩
    have hread : st.1[i]? = some x := by
      rw [← hx, ← head?_drop, ← head?_drop, hrest]
    have hnext : st.1.drop (i + 1) = found.drop (i + 1) := by
      rw [← drop_drop, ← drop_drop, hrest]
    have htake : found.take (i + 1) = found.take i ++ [x] := by
      rw [take_add_one, hx, Option.toList_some]
    cases hs : isStatic x with
    | true =>
      simp only [moveKept, hread, hs, if_true, htake, filter_append]
      exact ⟨by simpa [hs] using hfront, by omega, hlen, hnext⟩
    | false =>
      simp only [moveKept, hread, hs, Bool.false_eq_true, if_false, htake, filter_append]
      refine ⟨?_, by omega, by simpa using hlen, ?_⟩
      · rw [take_add_one, take_set_of_le (Nat.le_refl _), hfront, getElem?_set_self (by omega)]
        simp [hs]
      · rw [drop_set_of_lt (by omega), hnext]

theorem dropStatic_eq_filter (isStatic : α → Bool) (found : List α) :
    dropStatic isStatic found = found.filter fun x => !isStatic x := by
  have h := (moveKept_turns isStatic found found.length (Nat.le_refl _)).1
  rwa [take_length] at h

end

/-! ## The overlay -/

/-- What the three overlays differ in: the field an entry is known by, how two such
fields are compared, and the word for an entry in the errors. -/
structure Overlay (α : Type) where
  field : α → String
  fold : String → String
  noun : String

structure Statics (α : Type) where
  entries : List α
  index : Table String α

inductive Write (α : Type) where
  | create (x : α)
  | update (key : String) (updater : α → Except Error α)
  | delete (key : String)

namespace Overlay
variable {α : Type} (o : Overlay α)

def key (x : α) : String := o.fold (o.field x)

/-! The memory storage below. -/

def memoryGet (key : String) (t : Table String α) : Except Error α := Dex.get (o.fold key) t

def memoryWrite : Write α → Table String α → Outcome Unit × Table String α
  | .create x, t => Prod.map .ofExcept id (Dex.create (o.key x) x t)
  | .update k updater, t =>
    Prod.map (fun r => r.map fun _ => ()) id (Dex.update (o.fold k) (fun x => .ofExcept (updater x)) t)
  | .delete k, t => Prod.map .ofExcept id (Dex.delete (o.fold k) t)

/-! The overlay. -/

def index (entries : List α) : Table String α :=
  entries.foldl (fun index x => index.insert (o.key x) x) ∅

def withStatic (entries : List α) : Statics α := ⟨entries, o.index entries⟩

variable (s : Statics α)

def isStatic (key : String) : Bool := (s.index.lookup (o.fold key)).isSome

def get (key : String) (t : Table String α) : Except Error α :=
  match s.index.lookup (o.fold key) with
  | some x => .ok x
  | none => o.memoryGet (o.fold key) t

/-- What is listed when the storage below has returned `found`. -/
def list (found : List α) : List α := dropStatic (fun x => o.isStatic s (o.field x)) found ++ s.entries

def refusal (verb : String) : Error :=
  .other ("static " ++ o.noun ++ "s: read-only cannot " ++ verb ++ " " ++ o.noun)

def write : Write α → Table String α → Outcome Unit × Table String α
  | .create x, t =>
    if o.isStatic s (o.field x) then (.error (o.refusal "create"), t) else o.memoryWrite (.create x) t
  | .update k updater, t =>
    if o.isStatic s k then (.error (o.refusal "update"), t) else o.memoryWrite (.update k updater) t
  | .delete k, t =>
    if o.isStatic s k then (.error (o.refusal "delete"), t) else o.memoryWrite (.delete k) t

end Overlay

def run {α : Type} (step : Write α → Table String α → Outcome Unit × Table String α)
    (calls : List (Write α)) (t : Table String α) : Table String α :=
  calls.foldl (fun t c => (step c t).2) t

/-- The memory storage returns its entries in whatever order the map is walked. -/
def Listing {α : Type} (t : Table String α) (found : List α) : Prop :=
  found.Perm (t.entries.map fun e => e.2)

/-! ## The three overlays -/

def staticClientsStorage : Overlay Client where
  field c := c.id
  fold := id
  noun := "client"

def staticPasswordsStorage (u : CaseTable) : Overlay Dex.Password where
  field p := p.email
  fold := u.lower
  noun := "password"

def staticConnectorsStorage : Overlay StorageConnector where
  field c := c.id
  fold := id
  noun := "connector"

/-- The resources that can be given in the configuration file. -/
inductive Resource where
  | client
  | password
  | connector

@[reducible] def Resource.Entry : Resource → Type
  | .client => Client
  | .password => Dex.Password
  | .connector => StorageConnector

def Resource.overlay (u : CaseTable) : (r : Resource) → Overlay r.Entry
  | .client => staticClientsStorage
  | .password => staticPasswordsStorage u
  | .connector => staticConnectorsStorage

/-! ## Consistency -/

section
variable {α : Type} {o : Overlay α}

def OwnKeys (o : Overlay α) (t : Table String α) : Prop :=
  ∀ k x, t.lookup k = some x → k = o.key x

def Write.KeepsKey (o : Overlay α) : Write α → Prop
  | .update _ updater => ∀ old new, updater old = .ok new → o.key new = o.key old
  | _ => True

variable {t : Table String α}

theorem OwnKeys.insert (h : OwnKeys o t) (x : α) : OwnKeys o (t.insert (o.key x) x) := by
  intro k y hy
  rcases Table.lookup_insert_iff.mp hy with ⟨hk, hx⟩ | ⟨_, hl⟩
  · rw [hk, hx]
  · exact h k y hl

theorem OwnKeys.memoryWrite (h : OwnKeys o t) {c} (hc : c.KeepsKey o) : OwnKeys o (o.memoryWrite c t).2 := by
  cases c with
  | create x =>
    cases hw : Dex.create (o.key x) x t with
    | mk r t' =>
      simp only [Overlay.memoryWrite, hw, Prod.map, id]
      obtain ⟨_, _, rfl⟩ | ⟨_, _, rfl⟩ := Dex.create_cases hw
      · exact h.insert x
      · exact h
  | update k updater =>
    cases hw : Dex.update (o.fold k) (fun x => .ofExcept (updater x)) t with
    | mk r t' =>
      simp only [Overlay.memoryWrite, hw, Prod.map, id]
      obtain ⟨old, new, _, hl, hf, rfl⟩ | ⟨rfl, _⟩ := Dex.update_cases hw
      · rw [(h _ old hl).trans (hc old new (Outcome.ofExcept_eq_ok.mp hf)).symm]
        exact h.insert new
      · exact h
  | delete k =>
    cases hw : Dex.delete (o.fold k) t with
    | mk r t' =>
      simp only [Overlay.memoryWrite, hw, Prod.map, id]
      obtain ⟨_, _, _, rfl⟩ | ⟨_, _, rfl⟩ := Dex.delete_cases hw
      · exact fun k' x hx => h k' x (Table.lookup_erase_iff.mp hx).2
      · exact h

theorem write_cases (o : Overlay α) (s : Statics α) (c : Write α) (t : Table String α) :
    (o.write s c t).2 = t ∨ o.write s c t = o.memoryWrite c t := by
  cases c <;> simp only [Overlay.write] <;> split <;> simp

theorem OwnKeys.write (h : OwnKeys o t) (s : Statics α) {c} (hc : c.KeepsKey o) :
    OwnKeys o (o.write s c t).2 := by
  rcases write_cases o s c t with hw | hw
  · rwa [hw]
  · rw [hw]
    exact h.memoryWrite hc

theorem OwnKeys.run {step} (hstep : ∀ c t, c.KeepsKey o → OwnKeys o t → OwnKeys o (step c t).2) {calls}
    (hc : ∀ c ∈ calls, c.KeepsKey o) (h : OwnKeys o t) : OwnKeys o (run step calls t) := by
  induction calls generalizing t with
  | nil => exact h
  | cons c calls ih =>
    exact ih (fun c' hc' => hc c' (mem_cons_of_mem _ hc'))
      (hstep c t (hc c mem_cons_self) h)

theorem OwnKeys.empty : OwnKeys o (∅ : Table String α) := by
  intro k x hx
  simp at hx

theorem lookup_index {entries} (hd : (entries.map o.key).Nodup) (k : String) (x : α) :
    (o.index entries).lookup k = some x ↔ x ∈ entries ∧ k = o.key x := by
  induction entries using List.reverseRecOn with
  | nil => simp [Overlay.index]
  | append_singleton l y ih =>
    simp only [map_append, map_cons, map_nil] at hd
    obtain ⟨hl, hy⟩ := nodup_append_comm.mp hd |> nodup_cons.mp |> And.symm
    simp only [Overlay.index, foldl_append, foldl_cons, foldl_nil] at ih ⊢
    rw [Table.lookup_insert_iff, ih hl, mem_append, mem_singleton]
    constructor
    · rintro (⟨hk, rfl⟩ | ⟨_, hm, hk⟩)
      · exact ⟨.inr rfl, hk⟩
      · exact ⟨.inl hm, hk⟩
    · rintro ⟨hm | rfl, hk⟩
      · refine .inr ⟨fun hne => hy ?_, hm, hk⟩
        rw [← hne, hk]
        exact mem_map_of_mem hm
      · exact .inl ⟨hk, rfl⟩

section
variable {entries : List α} {t : Table String α} {found : List α}

theorem Listing.mem (hl : Listing t found) (ht : OwnKeys o t) (x : α) :
    x ∈ found ↔ t.lookup (o.key x) = some x := by
  rw [hl.mem_iff, mem_map]
  constructor
  · rintro ⟨⟨k, y⟩, he, rfl⟩
    have hy := AList.mem_lookup_iff.mpr he
    rwa [ht k y hy] at hy
  · intro hx
    exact ⟨⟨o.key x, x⟩, AList.mem_lookup_iff.mp hx, rfl⟩

theorem Listing.nodup (hl : Listing t found) (ht : OwnKeys o t) : (found.map o.key).Nodup := by
  have hkeys : (t.entries.map fun e => e.2).map o.key = t.keys := by
    rw [map_map]
    exact map_congr_left fun e he => (ht e.1 e.2 (AList.mem_lookup_iff.mpr he)).symm
  rw [(hl.map o.key).nodup_iff, hkeys]
  exact t.keys_nodup

variable (hd : (entries.map o.key).Nodup)
include hd

theorem isStatic_iff (k : String) :
    o.isStatic (o.withStatic entries) k = true ↔ o.fold k ∈ entries.map o.key := by
  simp only [Overlay.isStatic, Overlay.withStatic, Option.isSome_iff_exists, lookup_index hd, mem_map]
  exact exists_congr fun x => and_congr_right fun _ => eq_comm

theorem mem_list (hl : Listing t found) (ht : OwnKeys o t) (x : α) : x ∈ o.list (o.withStatic entries) found ↔
      (t.lookup (o.key x) = some x ∧ o.key x ∉ entries.map o.key) ∨ x ∈ entries := by
  rw [Overlay.list, dropStatic_eq_filter, mem_append, mem_filter, hl.mem ht,
    Bool.not_eq_true', Bool.eq_false_iff, Ne, isStatic_iff hd]
  exact Iff.rfl

theorem get_eq_ok (hfold : ∀ k, o.fold (o.fold k) = o.fold k) (k : String) (x : α) :
    o.get (o.withStatic entries) k t = .ok x ↔ (t.lookup (o.fold k) = some x ∧ o.fold k ∉ entries.map o.key) ∨
        (x ∈ entries ∧ o.fold k = o.key x) := by
  have hi := lookup_index hd (o.fold k)
  unfold Overlay.get Overlay.withStatic
  cases hk : (o.index entries).lookup (o.fold k) with
  | some y =>
    have hy := (hi y).mp hk
    have hmem : o.fold k ∈ entries.map o.key := hy.2 ▸ mem_map_of_mem hy.1
    simp only [Except.ok.injEq, hmem, not_true_eq_false, and_false, false_or, ← hi x, hk, Option.some.injEq]
  | none =>
    have hmem : o.fold k ∉ entries.map o.key := by
      intro hm
      obtain ⟨y, hy, he⟩ := mem_map.mp hm
      rw [(hi y).mpr ⟨hy, he.symm⟩] at hk
      cases hk
    simp only [Overlay.memoryGet, hfold, Dex.get_ok, hmem, not_false_eq_true, and_true, ← hi x, hk,
      reduceCtorEq, or_false]

theorem list_keys_nodup (hl : Listing t found) (ht : OwnKeys o t) :
    ((o.list (o.withStatic entries) found).map o.key).Nodup := by
  rw [Overlay.list, dropStatic_eq_filter, map_append]
  refine nodup_append.mpr ⟨(filter_sublist.map _).nodup (hl.nodup ht), hd, ?_⟩
  rintro k hk _ hk' rfl
  obtain ⟨x, hx, rfl⟩ := mem_map.mp hk
  have hs := (isStatic_iff hd (o.field x)).mpr hk'
  simp [hs] at hx

end

end

/-- Reading, listing and the static entries agree, whatever was in the memory storage
before the overlay was put over it and whatever was written through it since. -/
theorem static_consistent (u : CaseTable) (r : Resource) (entries : List r.Entry)
    (hd : (entries.map (r.overlay u).key).Nodup) (before calls : List (Write r.Entry))
    (hbefore : ∀ c ∈ before, c.KeepsKey (r.overlay u)) (hcalls : ∀ c ∈ calls, c.KeepsKey (r.overlay u))
    (found : List r.Entry) : let o := r.overlay u
    let s := o.withStatic entries
    let t := run (o.write s) calls (run o.memoryWrite before ∅)
    Listing t found →
      (∀ x, x ∈ o.list s found ↔ o.get s (o.field x) t = .ok x) ∧ ((o.list s found).map o.key).Nodup ∧
      ∀ x ∈ entries, o.get s (o.field x) t = .ok x ∧ x ∈ o.list s found := by
  intro o s t hl
  have hfold : ∀ k, o.fold (o.fold k) = o.fold k := by
    cases r with
    | client => exact fun _ => rfl
    | password => exact u.lower_lower
    | connector => exact fun _ => rfl
  have ht : OwnKeys o t := by
    refine OwnKeys.run (fun c t hc ht => ht.write s hc) hcalls ?_
    exact OwnKeys.run (fun c t hc ht => ht.memoryWrite hc) hbefore OwnKeys.empty
  have hiff : ∀ x, x ∈ o.list s found ↔ o.get s (o.field x) t = .ok x := by
    intro x
    rw [mem_list hd hl ht, get_eq_ok hd hfold]
    exact or_congr_right (and_iff_left rfl).symm
  refine ⟨hiff, list_keys_nodup hd hl ht, fun x hx => ?_⟩
  have hx' := (mem_list hd hl ht x).mpr (.inr hx)
  exact ⟨(hiff x).mp hx', hx'⟩

/-- The administrator of the configuration file hides an entry of the same email. -/
def admin : Dex.Password := ⟨"Admin@example.com", [3], "admin", "0"⟩

def shadowed : List (Write Dex.Password) :=
  [.create ⟨"admin@EXAMPLE.com", [4], "other", "2"⟩, .create alice]

def rehashes : List (Write Dex.Password) :=
  [.update "ALICE@example.com" rehash, .delete "admin@example.com"]

theorem static_consistent_admin : let o := staticPasswordsStorage asciiCase
    let s := o.withStatic [admin]
    let t := run (o.write s) rehashes (run o.memoryWrite shadowed ∅)
    o.get s "Admin@example.com" t = .ok admin ∧ admin ∈ o.list s (t.entries.map fun e => e.2) := by
  have hkeeps : ∀ c ∈ shadowed ++ rehashes, c.KeepsKey (staticPasswordsStorage asciiCase) := by
    have hrehash : (Write.update "ALICE@example.com" rehash).KeepsKey
        (staticPasswordsStorage asciiCase) := by
      intro old new h
      cases h
      rfl
    simp only [shadowed, rehashes, cons_append, nil_append, forall_mem_cons]
    exact ⟨trivial, trivial, hrehash, trivial, forall_mem_nil _⟩
  exact (static_consistent asciiCase .password [admin] (nodup_singleton _) shadowed rehashes
    (fun c hc => hkeeps c (mem_append_left _ hc))
    (fun c hc => hkeeps c (mem_append_right _ hc)) _ (List.Perm.refl _)).2.2 admin
    mem_cons_self

end KubeYamls.Store.Static
