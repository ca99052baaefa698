import KubeYamls.Jenkins.Plugins

/-! # The order of versions

`versionLT` compares what `echo` prints of two versions, so it is an order whatever the
versions are. Two versions are equal in it if their parts are the same, unless `echo` takes
one of them for its options and prints nothing. -/
namespace KubeYamls.Jenkins
open Data

def Version.IsBlank (v : Version) : Prop := number v.text = "" ∧ qualifier v.text = ""

/-- Two versions with different parts of which `echo` prints the same nothing. -/
def Swallowed (a b : Version) : Prop :=
  a ≠ b ∧ (a.isOption = true ∧ (b.isOption = true ∨ b.IsBlank) ∨ b.isOption = true ∧ a.IsBlank)

section parts
variable {a b : Version}

theorem number_of_isOption (h : a.isOption = true) : number a.text = "" := by
  unfold Version.isOption at h
  split at h
  · next c cs htext => simp [number, htext]
  · cases h

theorem qualifier_of_isOption (h : a.isOption = true) : qualifier a.text ≠ "" := by
  unfold Version.isOption at h
  split at h
  · next c cs htext => simp [qualifier, htext]
  · cases h

theorem text_eq_of_number {s} (hnumber : number s = "") (hqualifier : qualifier s ≠ "") :
    s = "-" ++ qualifier s := by
  cases htext : s.toList with
  | nil => exact absurd (by simp [qualifier, htext]) hqualifier
  | cons c cs =>
    obtain rfl : c = '-' := by
      by_contra hc
      simp [number, htext, hc] at hnumber
    apply String.toList_inj.mp
    simp [qualifier, htext]

theorem eq_of_qualifier (ha : number a.text = "") (hb : number b.text = "") (hqualifier : qualifier a.text ≠ "")
    (heq : qualifier a.text = qualifier b.text) : a = b := by
  have htext : a.text = b.text := by
    rw [text_eq_of_number ha hqualifier, text_eq_of_number hb (heq ▸ hqualifier), heq]
  obtain ⟨text, plain⟩ := a
  obtain ⟨text', plain'⟩ := b
  cases htext
  rfl

def SameParts (a b : Version) : Prop := number a.text = number b.text ∧ qualifier a.text = qualifier b.text

def SamePrinted (a b : Version) : Prop := number a.echoed = number b.echoed ∧ qualifier a.echoed = qualifier b.echoed

theorem SameParts.symm (h : SameParts a b) : SameParts b a := ⟨h.1.symm, h.2.symm⟩

theorem SamePrinted.symm (h : SamePrinted a b) : SamePrinted b a := ⟨h.1.symm, h.2.symm⟩

theorem Swallowed.symm (h : Swallowed a b) : Swallowed b a := by
  obtain ⟨hne, ⟨ha, hb | hb⟩ | ⟨hb, ha⟩⟩ := h
  · exact ⟨hne.symm, .inl ⟨hb, .inl ha⟩⟩
  · exact ⟨hne.symm, .inr ⟨ha, hb⟩⟩
  · exact ⟨hne.symm, .inl ⟨hb, .inr ha⟩⟩

theorem samePrinted_of_isOption (h : a.isOption = true) : SamePrinted a b ↔ b.isOption = true ∨ b.IsBlank := by
  have hecho : a.echoed = "" := if_pos h
  have hempty : number "" = "" ∧ qualifier "" = "" := by decide
  unfold SamePrinted Version.IsBlank
  rw [hecho, hempty.1, hempty.2]
  refine (and_congr eq_comm eq_comm).trans ?_
  cases hb : b.isOption with
  | true =>
    have hecho' : b.echoed = "" := if_pos hb
    simp [hecho', hempty]
  | false =>
    have hecho' : b.echoed = b.text := if_neg (by simp [hb])
    simp [hecho']

theorem sameParts_of_isOption (h : a.isOption = true) : SameParts a b ↔ a = b := by
  constructor
  · intro ⟨hnumber, hqualifier⟩
    have ha := number_of_isOption h
    exact eq_of_qualifier ha (hnumber ▸ ha) (qualifier_of_isOption h) hqualifier
  · intro hab
    exact hab ▸ ⟨rfl, rfl⟩

theorem samePrinted_iff_of_isOption (h : a.isOption = true) : (SamePrinted a b ↔ SameParts a b) ↔ ¬Swallowed a b := by
  rw [samePrinted_of_isOption h, sameParts_of_isOption h]
  constructor
  · intro hiff ⟨hne, hswallowed⟩
    refine hne (hiff.mp ?_)
    obtain ⟨-, hb⟩ | ⟨hb, -⟩ := hswallowed
    · exact hb
    · exact .inl hb
  · intro hnot
    constructor
    · intro hb
      by_contra hne
      exact hnot ⟨hne, .inl ⟨h, hb⟩⟩
    · intro hab
      exact .inl (hab ▸ h)

theorem samePrinted_iff : (SamePrinted a b ↔ SameParts a b) ↔ ¬Swallowed a b := by
  by_cases ha : a.isOption = true
  · exact samePrinted_iff_of_isOption ha
  by_cases hb : b.isOption = true
  · have hsymm := samePrinted_iff_of_isOption (b := a) hb
    have hprinted : SamePrinted b a ↔ SamePrinted a b := ⟨.symm, .symm⟩
    have hparts : SameParts b a ↔ SameParts a b := ⟨.symm, .symm⟩
    have hswallowed : Swallowed b a ↔ Swallowed a b := ⟨.symm, .symm⟩
    rwa [hprinted, hparts, hswallowed] at hsymm
  · have hecho : a.echoed = a.text := if_neg ha
    have hecho' : b.echoed = b.text := if_neg hb
    unfold SamePrinted SameParts Swallowed
    rw [hecho, hecho']
    simp [ha, hb]

end parts

section order
variable {S : Type} {sortV : String ↪ S} {a b : Version}

theorem versionKey_eq_iff : versionKey sortV a = versionKey sortV b ↔ SamePrinted a b := by
  unfold versionKey SamePrinted
  rw [toLex_inj, Prod.mk.injEq, sortV.injective.eq_iff]
  refine and_congr_right fun _ => ?_
  by_cases ha : qualifier a.echoed = ""
  · by_cases hb : qualifier b.echoed = ""
    · simp [ha, hb]
    · simp [ha, hb, Ne.symm hb]
  · by_cases hb : qualifier b.echoed = ""
    · simp [ha, hb]
    · simp [ha, hb]

variable [LinearOrder S]

theorem incomparable_iff : versionLT sortV a b = false ∧ versionLT sortV b a = false ↔ SamePrinted a b := by
  have hkey : versionKey sortV a = versionKey sortV b ↔ SamePrinted a b := versionKey_eq_iff
  rw [not_versionLT_iff, not_versionLT_iff, ← hkey]
  exact ⟨fun h => le_antisymm h.2 h.1, fun h => ⟨h.ge, h.le⟩⟩

theorem versionLT_of_qualifier (h : ¬Swallowed a b) (hnumber : number a.text = number b.text)
    (ha : qualifier a.text ≠ "") (hb : qualifier b.text = "") : versionLT sortV a b = true := by
  have hb' : b.isOption ≠ true := fun hoption => qualifier_of_isOption hoption hb
  have ha' : a.isOption ≠ true := by
    intro hoption
    have hblank : b.IsBlank := ⟨hnumber ▸ number_of_isOption hoption, hb⟩
    exact h ⟨fun hab => ha (hab ▸ hb), .inl ⟨hoption, .inr hblank⟩⟩
  have hecho : a.echoed = a.text := if_neg ha'
  have hecho' : b.echoed = b.text := if_neg hb'
  unfold versionLT
  rw [hecho, hecho']
  simp [hnumber, ha, hb]

end order

/-- `versionLT` is a strict order. Which versions are equal in it, and that a qualifier goes below none, is as
the parts say exactly if `echo` swallows neither version. -/
theorem versionLT_weak_order_iff {S : Type} [LinearOrder S] (sortV : String ↪ S) (a b : Version) :
    (versionLT sortV a a = false ∧ (versionLT sortV a b = true → versionLT sortV b a = false) ∧
      ∀ c, versionLT sortV a b = true → versionLT sortV b c = true → versionLT sortV a c = true) ∧
    (((versionLT sortV a b = false ∧ versionLT sortV b a = false ↔
        number a.text = number b.text ∧ qualifier a.text = qualifier b.text) ∧
      (number a.text = number b.text → qualifier a.text ≠ "" → qualifier b.text = "" → versionLT sortV a b = true)) ↔
      ¬Swallowed a b) := by
  refine ⟨⟨?_, ?_, ?_⟩, ?_⟩
  · exact not_versionLT_iff.mpr le_rfl
  · intro h
    exact not_versionLT_iff.mpr (versionLT_iff.mp h).le
  · intro c hab hbc
    exact versionLT_iff.mpr ((versionLT_iff.mp hab).trans (versionLT_iff.mp hbc))
  · rw [incomparable_iff]
    constructor
    · intro ⟨hiff, _⟩
      exact samePrinted_iff.mp hiff
    · intro h
      exact ⟨samePrinted_iff.mpr h, versionLT_of_qualifier h⟩

/-- Nothing is printed of "-n". -/
theorem option_is_swallowed :
    versionLT (Function.Embedding.refl String) ⟨"-n", by decide⟩ ⟨"", by decide⟩ = false ∧
    versionLT (Function.Embedding.refl String) ⟨"", by decide⟩ ⟨"-n", by decide⟩ = false ∧
    number "-n" = number "" ∧ qualifier "-n" = "n" ∧ qualifier "" = "" := by
  decide

end KubeYamls.Jenkins
