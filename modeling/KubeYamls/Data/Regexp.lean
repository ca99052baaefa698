import Mathlib.Computability.RegularExpressions

/-! Regular expressions as `regexp` writes them: classes of characters, parts that may be
missing and parts that are repeated, in terms of Mathlib's. -/
namespace KubeYamls.Data
open RegularExpression List

variable {α : Type} {r r' : RegularExpression α} {w : List α}

/-- `[...]` -/
def charClass : List α → RegularExpression α
  | [] => 0
  | a :: as => char a + charClass as

/-- `r?`, which is `r{0,1}` -/
def zeroOrOne (r : RegularExpression α) : RegularExpression α := 1 + r

/-- `r+` -/
def oneOrMore (r : RegularExpression α) : RegularExpression α := r * star r

theorem mem_charClass {as} : w ∈ (charClass as).matches' ↔ ∃ a ∈ as, w = [a] := by
  induction as with
  | nil => simp [charClass, Language.notMem_zero]
  | cons a as ih =>
    have hcons : w ∈ (charClass (a :: as)).matches' ↔ w = [a] ∨ w ∈ (charClass as).matches' := Iff.rfl
    rw [hcons, ih, exists_mem_cons_iff]

theorem mem_zeroOrOne : w ∈ (zeroOrOne r).matches' ↔ w = [] ∨ w ∈ r.matches' := Iff.rfl

theorem mem_comp : w ∈ (r * r').matches' ↔ ∃ v ∈ r.matches', ∃ v' ∈ r'.matches', v ++ v' = w := Language.mem_mul

theorem mem_star : w ∈ (star r).matches' ↔ ∃ ws : List (List α), w = ws.flatten ∧ ∀ v ∈ ws, v ∈ r.matches' :=
  Language.mem_kstar

theorem mem_oneOrMore :
    w ∈ (oneOrMore r).matches' ↔ ∃ ws : List (List α), ws ≠ [] ∧ w = ws.flatten ∧ ∀ v ∈ ws, v ∈ r.matches' := by
  rw [oneOrMore, mem_comp]
  constructor
  · intro ⟨v, hv, w', hw', heq⟩
    obtain ⟨ws, hws, hall⟩ := mem_star.mp hw'
    exact ⟨v :: ws, cons_ne_nil v ws, by rw [← heq, hws]; rfl, forall_mem_cons.mpr ⟨hv, hall⟩⟩
  · intro ⟨ws, hne, hw, hall⟩
    obtain ⟨v, ws, rfl⟩ := exists_cons_of_ne_nil hne
    obtain ⟨hv, hws⟩ := forall_mem_cons.mp hall
    exact ⟨v, hv, ws.flatten, mem_star.mpr ⟨ws, rfl, hws⟩, hw.symm⟩

theorem mem_star_charClass {as} : w ∈ (star (charClass as)).matches' ↔ ∀ a ∈ w, a ∈ as := by
  rw [mem_star]
  constructor
  · intro ⟨ws, hw, hall⟩ a ha
    rw [hw] at ha
    obtain ⟨v, hv, ha⟩ := mem_flatten.mp ha
    obtain ⟨b, hb, rfl⟩ := mem_charClass.mp (hall v hv)
    rwa [mem_singleton.mp ha]
  · intro h
    refine ⟨w.map ([·]), by rw [← flatMap_def, flatMap_singleton'], fun v hv => ?_⟩
    obtain ⟨a, ha, rfl⟩ := mem_map.mp hv
    exact mem_charClass.mpr ⟨a, h a ha, rfl⟩

theorem mem_oneOrMore_charClass {as} : w ∈ (oneOrMore (charClass as)).matches' ↔ w ≠ [] ∧ ∀ a ∈ w, a ∈ as := by
  rw [oneOrMore, mem_comp]
  constructor
  · intro ⟨v, hv, w', hw', heq⟩
    obtain ⟨a, ha, rfl⟩ := mem_charClass.mp hv
    rw [← heq]
    exact ⟨cons_ne_nil a w', forall_mem_cons.mpr ⟨ha, mem_star_charClass.mp hw'⟩⟩
  · intro ⟨hne, h⟩
    obtain ⟨a, w, rfl⟩ := exists_cons_of_ne_nil hne
    obtain ⟨ha, hw⟩ := forall_mem_cons.mp h
    exact ⟨[a], mem_charClass.mpr ⟨a, ha, rfl⟩, w, mem_star_charClass.mpr hw, rfl⟩

end KubeYamls.Data
