import KubeYamls.Data.Table
import Mathlib.Data.Set.List

/-! # Operations on one entry of a keyed store

A store is looked at through the value under each key. An operation that acts on
one key is a function of the entry there, whatever the store is made of: it
returns the same wherever the entry is the same, and leaves the other entries. A
store whose keys are made from other ones holds the entries of those, and lists
the same values. -/
namespace KubeYamls.Data
open List Function

variable {σ κ ν ρ τ ι : Type}

section
variable [DecidableEq κ]

/-- `f` reads and writes the entry of `k` only, and does there what `φ` says. -/
def ActsOn (look : σ → κ → Option ν) (f : σ → ρ × σ) (k : κ) (φ : Option ν → ρ × Option ν) : Prop :=
  ∀ s, (f s).1 = (φ (look s k)).1 ∧ look (f s).2 = update (look s) k (φ (look s k)).2

namespace ActsOn
variable {look : σ → κ → Option ν} {f : σ → ρ × σ} {g : σ → τ × σ} {k k' : κ}
  {φ : Option ν → ρ × Option ν} {ψ : Option ν → τ × Option ν}

theorem result_congr (h : ActsOn look f k φ) {s s'} (hs : look s k = look s' k) : (f s).1 = (f s').1 := by
  rw [(h s).1, (h s').1, hs]

theorem look_self (h : ActsOn look f k φ) (s : σ) : look (f s).2 k = (φ (look s k)).2 := by
  rw [(h s).2, update_self]

theorem look_ne (h : ActsOn look f k φ) (hne : k' ≠ k) (s : σ) : look (f s).2 k' = look s k' := by
  rw [(h s).2, update_of_ne hne]

theorem frame (hf : ActsOn look f k φ) (hg : ActsOn look g k' ψ) (hne : k' ≠ k) (s : σ) :
    (g (f s).2).1 = (g s).1 :=
  hg.result_congr (hf.look_ne hne s)

theorem congr {h} (hf : ActsOn look f k φ) (he : ∀ s, h s = f s) : ActsOn look h k φ :=
  fun s => he s ▸ hf s

theorem map (h : ActsOn look f k φ) (reading : ρ → τ) :
    ActsOn look (fun s => Prod.map reading id (f s)) k fun x => Prod.map reading id (φ x) :=
  fun s => ⟨congrArg reading (h s).1, (h s).2⟩

/-- An operation that finds its entry as it leaves it changes nothing. -/
theorem look_same (h : ActsOn look f k φ) {s} (hs : (φ (look s k)).2 = look s k) : look (f s).2 = look s := by
  rw [(h s).2, hs, update_eq_self]

end ActsOn

end

/-! ## Listing -/

/-- The values of a store, one for each key, in some order. -/
def Lists (look : κ → Option ν) (values : List ν) : Prop :=
  ∃ keys : List κ, keys.Nodup ∧ (∀ k, k ∈ keys ↔ (look k).isSome) ∧ values = keys.filterMap look

theorem Lists.perm {look : κ → Option ν} {values values'} (h : Lists look values)
    (h' : Lists look values') : values.Perm values' := by
  obtain ⟨keys, hn, hk, rfl⟩ := h
  obtain ⟨keys', hn', hk', rfl⟩ := h'
  have hp : keys.Perm keys' :=
    (perm_ext_iff_of_nodup hn hn').mpr fun k => (hk k).trans (hk' k).symm
  exact hp.filterMap look

theorem Table.lists [DecidableEq κ] (t : Table κ τ) (g : κ → τ → ν) :
    Lists (fun k => (t.lookup k).map (g k)) (t.entries.map fun e => g e.1 e.2) := by
  refine ⟨t.keys, t.keys_nodup, fun k => ?_, ?_⟩
  · rw [Option.isSome_map, AList.lookup_isSome]
    exact Iff.rfl
  · have hg : ∀ e ∈ t.entries, (t.lookup e.1).map (g e.1) = some (g e.1 e.2) := by
      intro e he
      rw [AList.mem_lookup_iff.mpr he]
      rfl
    rw [AList.keys, List.keys, filterMap_map, ← filterMap_eq_map]
    exact (filterMap_congr hg).symm

/-! ## Keys made from other keys -/

/-- The entries of `x` stand under the keys that `key` makes of theirs, and there
are no others. -/
structure Filed (key : ι → κ) (x : ι → Option ν) (look : κ → Option ν) : Prop where
  entry : ∀ i, look (key i) = x i
  only : ∀ k, (look k).isSome → ∃ i, k = key i

namespace Filed
variable {key : ι → κ} {x : ι → Option ν}

theorem empty (key : ι → κ) : Filed key (fun _ => (none : Option ν)) fun _ => none :=
  ⟨fun _ => rfl, fun _ h => by cases h⟩

theorem lists {look values} (h : Filed key x look)
    (hkey : Function.Injective key) (hl : Lists look values) : Lists x values := by
  obtain ⟨keys, hn, hk, rfl⟩ := hl
  obtain ⟨made, rfl⟩ : keys ∈ Set.range (List.map key) := by
    rw [Set.range_list_map]
    exact fun k hm => (h.only k ((hk k).mp hm)).imp fun _ => Eq.symm
  refine ⟨made, hn.of_map, fun i => ?_, ?_⟩
  · rw [← h.entry i, ← hk (key i), mem_map_of_injective hkey]
  · rw [filterMap_map]
    exact filterMap_congr fun i _ => h.entry i

theorem acts [DecidableEq κ] [DecidableEq ι] {look f i}
    {φ : Option ν → ρ × Option ν} {s : σ} (h : Filed key x (look s))
    (hkey : Function.Injective key) (hf : ActsOn look f (key i) φ) :
    (f s).1 = (φ (x i)).1 ∧ Filed key (update x i (φ (x i)).2) (look (f s).2) := by
  refine ⟨by rw [(hf s).1, h.entry i], fun j => ?_, fun k hk => ?_⟩
  · by_cases hj : j = i
    · subst hj
      rw [hf.look_self, h.entry j, update_self]
    · rw [hf.look_ne (fun he => hj (hkey he)), h.entry j, update_of_ne hj]
  · by_cases hi : k = key i
    · exact ⟨i, hi⟩
    · exact h.only k (hf.look_ne hi s ▸ hk)

end Filed

end KubeYamls.Data
