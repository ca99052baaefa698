import KubeYamls.Nginx.Generate

/-! # The annotations of a merge

`generateNginxCfgForMergeableIngresses` changes the maps of the ingresses it is given. It
goes over the map of the master to filter it, and for each minion over the same map to
merge it into that of the minion, which is then filtered as well. Here the maps are in a
heap, and each loop goes over its map in an order of its own. What comes of it depends on
the two maps only, and it is what the configuration of a minion is generated with. -/
namespace KubeYamls.Nginx
open Data List Function

abbrev Annotations := Table String String

/-- The maps by their addresses. -/
abbrev Heap := Nat → Annotations

/-- One turn of the loops of `filterMasterAnnotations` and `filterMinionAnnotations`. -/
def dropKey (blacklist : List String) (t : Annotations) (key : String) : Annotations :=
  if key ∈ blacklist then t.erase key else t

/-- One turn of the loop of `mergeMasterAnnotationsIntoMinion`. -/
def inheritKey (master t : Annotations) (key : String) : Annotations :=
  match master.lookup key with
  | none => t
  | some val => if (t.lookup key).isNone ∧ key ∈ minionInheritanceList then t.insert key val else t

/-- A loop over a map, in some order of its keys. -/
def Ranges (t : Annotations) (turn : Annotations → String → Annotations) (start done : Annotations) : Prop :=
  ∃ keys : List String, keys.Perm t.keys ∧ done = keys.foldl turn start

/-- The loop over the minions, with the maps that their configurations are generated with. -/
inductive MinionsMerged (master : Nat) : List Nat → Heap → List Annotations → Heap → Prop where
  | nil {h : Heap} : MinionsMerged master [] h [] h
  | cons {a : Nat} {as : List Nat} {h h' : Heap} {merged filtered : Annotations} {used : List Annotations} :
      Ranges (h master) (inheritKey (h master)) (h a) merged →
      Ranges merged (dropKey minionBlacklist) merged filtered →
      MinionsMerged master as (update h a filtered) used h' →
      MinionsMerged master (a :: as) h (filtered :: used) h'

def AnnotationsMerged (master : Nat) (minions : List Nat) (h : Heap) (used : List Annotations) (h' : Heap) :
    Prop :=
  ∃ filtered, Ranges (h master) (dropKey masterBlacklist) (h master) filtered ∧
    MinionsMerged master minions (update h master filtered) used h'

/-- What a minion with the annotations `N` has for a key, under a master with the annotations `M`. -/
def effective (M N : String → Option String) (k : String) : Option String :=
  if (N k).isSome then if k ∈ minionBlacklist then none else N k
  else if k ∈ minionInheritanceList ∧ k ∉ masterBlacklist then M k else none

def allowed (M : String → Option String) (k : String) : Option String := if k ∈ masterBlacklist then none else M k

theorem notMem_of_inherited {k} (h : k ∈ minionInheritanceList) : k ∉ minionBlacklist ∧ k ∉ masterBlacklist := by
  have hall : ∀ k ∈ minionInheritanceList, k ∉ minionBlacklist ∧ k ∉ masterBlacklist := by decide +kernel
  exact hall k h

theorem allowed_allowed (M : String → Option String) : allowed (allowed M) = allowed M := by
  funext k
  by_cases hk : k ∈ masterBlacklist <;> simp [allowed, hk]

theorem effective_allowed (M N : String → Option String) : effective (allowed M) N = effective M N := by
  funext k
  by_cases hk : k ∈ masterBlacklist <;> simp [effective, allowed, hk]

theorem effective_effective (M N : String → Option String) : effective M (effective M N) = effective M N := by
  funext k
  by_cases hk : k ∈ minionInheritanceList
  · -- what can be inherited is on no blacklist
    obtain ⟨hminion, hmaster⟩ := notMem_of_inherited hk
    cases hN : N k with
    | some v => simp [effective, hN, hminion]
    | none => cases hM : M k <;> simp [effective, hN, hM, hk, hminion, hmaster]
  · cases hN : N k with
    | none => simp [effective, hN, hk]
    | some v => by_cases hminion : k ∈ minionBlacklist <;> simp [effective, hN, hk, hminion]

theorem effective_eq (M N : String → Option String) (k : String) :
    effective M N k = if k ∈ minionBlacklist then none
      else (N k).or (if k ∈ minionInheritanceList then allowed M k else none) := by
  rw [effective, allowed]
  cases hN : N k with
  | some v => simp
  | none =>
    by_cases hk : k ∈ minionInheritanceList
    · simp [hk, notMem_of_inherited hk]
    · simp [hk]

section loops
variable {t done : Annotations} {k : String}

theorem lookup_eq_none_of_perm {keys : List String} (hkeys : keys.Perm t.keys) (hk : k ∉ keys) :
    t.lookup k = none := by
  apply AList.lookup_eq_none.mpr
  intro hmem
  exact hk (hkeys.mem_iff.mpr (AList.mem_keys.mp hmem))

theorem lookup_foldl_dropKey (blacklist keys : List String) (t : Annotations) (k : String) :
    (keys.foldl (dropKey blacklist) t).lookup k = if k ∈ blacklist ∧ k ∈ keys then none else t.lookup k := by
  induction keys generalizing t with
  | nil => simp
  | cons key keys ih =>
    rw [foldl_cons, ih, dropKey]
    by_cases hk : k = key
    · subst hk
      by_cases hb : k ∈ blacklist <;> simp [hb]
    · by_cases hb : key ∈ blacklist
      · simp [hb, hk, AList.lookup_erase_ne hk]
      · simp [hb, hk]

theorem Ranges.lookup_dropKey {blacklist : List String} (h : Ranges t (dropKey blacklist) t done) :
    done.lookup k = if k ∈ blacklist then none else t.lookup k := by
  obtain ⟨keys, hkeys, rfl⟩ := h
  rw [lookup_foldl_dropKey]
  by_cases hk : k ∈ keys
  · simp [hk]
  · simp [hk, lookup_eq_none_of_perm hkeys hk]

theorem lookup_foldl_inheritKey (master : Annotations) (keys : List String) (t : Annotations) (k : String) :
    (keys.foldl (inheritKey master) t).lookup k =
      (t.lookup k).or (if k ∈ keys ∧ k ∈ minionInheritanceList then master.lookup k else none) := by
  induction keys generalizing t with
  | nil => simp
  | cons key keys ih =>
    rw [foldl_cons, ih, inheritKey]
    by_cases hk : k = key
    · subst hk
      cases hM : master.lookup k with
      | none => simp
      | some val =>
        by_cases hi : k ∈ minionInheritanceList
        · cases ht : t.lookup k <;> simp [hi, ht]
        · simp [hi]
    · have hturn : ∀ t' : Annotations, t'.lookup k = t.lookup k →
          (t'.lookup k).or (if k ∈ keys ∧ k ∈ minionInheritanceList then master.lookup k else none) =
          (t.lookup k).or (if k ∈ key :: keys ∧ k ∈ minionInheritanceList then master.lookup k else none) :=
        fun t' ht' => by simp [ht', hk]
      apply hturn
      split
      · rfl
      · split
        · rw [AList.lookup_insert_ne hk]
        · rfl

theorem Ranges.lookup_inheritKey {master : Annotations} (h : Ranges master (inheritKey master) t done) :
    done.lookup k = (t.lookup k).or (if k ∈ minionInheritanceList then master.lookup k else none) := by
  obtain ⟨keys, hkeys, rfl⟩ := h
  rw [lookup_foldl_inheritKey]
  by_cases hk : k ∈ keys
  · simp [hk]
  · simp [hk, lookup_eq_none_of_perm hkeys hk]

theorem lookup_merged {M master minion merged}
    (hM : master.lookup = allowed M) (hmerge : Ranges master (inheritKey master) minion merged)
    (hfilter : Ranges merged (dropKey minionBlacklist) merged done) :
    done.lookup = effective M minion.lookup := by
  funext k
  rw [hfilter.lookup_dropKey, hmerge.lookup_inheritKey, congrFun hM k, effective_eq]

end loops

section heap
variable {master : Nat} {minions : List Nat} {h h' : Heap} {used : List Annotations}

theorem Ranges.exists (t : Annotations) (turn : Annotations → String → Annotations) (start : Annotations) :
    ∃ done, Ranges t turn start done := ⟨_, t.keys, .refl _, rfl⟩

theorem MinionsMerged.exists (master : Nat) (minions : List Nat) (h : Heap) :
    ∃ used h', MinionsMerged master minions h used h' := by
  induction minions generalizing h with
  | nil => exact ⟨[], h, .nil⟩
  | cons a as ih =>
    obtain ⟨merged, hmerge⟩ := Ranges.exists (h master) (inheritKey (h master)) (h a)
    obtain ⟨filtered, hfilter⟩ := Ranges.exists merged (dropKey minionBlacklist) merged
    obtain ⟨used, h', hrun⟩ := ih (update h a filtered)
    exact ⟨_, h', .cons hmerge hfilter hrun⟩

theorem AnnotationsMerged.exists (master : Nat) (minions : List Nat) (h : Heap) :
    ∃ used h', AnnotationsMerged master minions h used h' := by
  obtain ⟨filtered, hfilter⟩ := Ranges.exists (h master) (dropKey masterBlacklist) (h master)
  obtain ⟨used, h', hrun⟩ := MinionsMerged.exists master minions (update h master filtered)
  exact ⟨used, h', filtered, hfilter, hrun⟩

/-- A map can be that of several minions: to merge into it again changes nothing. -/
theorem MinionsMerged.lookups {M} (hrun : MinionsMerged master minions h used h')
    (hmaster : master ∉ minions) (hM : (h master).lookup = allowed M) :
    (used.map fun t k => t.lookup k) = minions.map (fun a => effective M (h a).lookup) ∧
      (∀ a ∈ minions, (h' a).lookup = effective M (h a).lookup) ∧ ∀ b ∉ minions, h' b = h b := by
  induction hrun with
  | nil => exact ⟨rfl, by simp, by simp⟩
  | @cons a as h h' merged filtered used hmerge hfilter _ ih =>
    obtain ⟨hne, hmaster⟩ := not_or.mp (mt mem_cons.mpr hmaster)
    have hfiltered : filtered.lookup = effective M (h a).lookup := lookup_merged hM hmerge hfilter
    obtain ⟨hused, hminions, hothers⟩ := ih hmaster (by rwa [update_of_ne hne])
    have hturn : ∀ b, effective M (update h a filtered b).lookup = effective M (h b).lookup := fun b => by
      obtain rfl | hb := eq_or_ne b a
      · rw [update_self, hfiltered, effective_effective]
      · rw [update_of_ne hb]
    simp only [hturn] at hused hminions
    refine ⟨by rw [map_cons, map_cons, hused, hfiltered], fun b hb => ?_, fun b hb => ?_⟩
    · by_cases hlater : b ∈ as
      · exact hminions b hlater
      · obtain rfl : b = a := (mem_cons.mp hb).resolve_right hlater
        rw [hothers b hlater, update_self, hfiltered]
    · obtain ⟨hba, hb⟩ := not_or.mp (mt mem_cons.mpr hb)
      rw [hothers b hb, update_of_ne hba]

/-- What the configurations of the minions are generated with, and what the maps are in the end. -/
structure Settled (master : Nat) (minions : List Nat) (h : Heap) (used : List Annotations) (h' : Heap) :
    Prop where
  generated : (used.map fun t k => t.lookup k) = minions.map fun a => effective (h master).lookup (h a).lookup
  ofMinion : ∀ a ∈ minions, (h' a).lookup = effective (h master).lookup (h a).lookup
  ofMaster : (h' master).lookup = allowed (h master).lookup
  ofOthers : ∀ b, b ≠ master → b ∉ minions → h' b = h b

theorem AnnotationsMerged.settled (hrun : AnnotationsMerged master minions h used h') (hmaster : master ∉ minions) :
    Settled master minions h used h' := by
  obtain ⟨filtered, hfilter, hrun⟩ := hrun
  have hfiltered : filtered.lookup = allowed (h master).lookup := funext fun _ => hfilter.lookup_dropKey
  obtain ⟨hused, hminions, hothers⟩ := hrun.lookups hmaster (by rw [update_self, hfiltered])
  have hminion : ∀ a ∈ minions, update h master filtered a = h a := fun a ha =>
    update_of_ne (ne_of_mem_of_not_mem ha hmaster) ..
  constructor
  case generated =>
    rw [hused]
    exact map_congr_left fun a ha => by rw [hminion a ha]
  case ofMinion =>
    intro a ha
    rw [hminions a ha, hminion a ha]
  case ofMaster => rw [hothers master hmaster, update_self, hfiltered]
  case ofOthers =>
    intro b hb hmem
    rw [hothers b hmem, update_of_ne hb]

/-- A merge of what is merged already leaves every map as it is. -/
theorem Settled.again {used' h''} (hfirst : Settled master minions h used h')
    (hsecond : Settled master minions h' used' h'') (b : Nat) : (h'' b).lookup = (h' b).lookup := by
  by_cases hb : b ∈ minions
  · rw [hsecond.ofMinion b hb, hfirst.ofMinion b hb, hfirst.ofMaster, effective_allowed, effective_effective]
  · obtain rfl | hne := eq_or_ne b master
    · rw [hsecond.ofMaster, hfirst.ofMaster, allowed_allowed]
    · rw [hsecond.ofOthers b hne hb]

end heap

section generated

theorem lookup_filterAnnotations (blacklist : List String) (annotations : List (String × String)) (k : String) :
    (filterAnnotations blacklist annotations).lookup k = if k ∈ blacklist then none else annotations.lookup k := by
  induction annotations with
  | nil => simp [filterAnnotations]
  | cons e annotations ih =>
    obtain ⟨key, val⟩ := e
    rw [filterAnnotations, filter_cons]
    rw [filterAnnotations] at ih
    by_cases hkey : key ∈ blacklist
    · rw [if_neg (by simpa using hkey), ih]
      by_cases hk : k = key
      · rw [hk, if_pos hkey, if_pos hkey]
      · simp [lookup_cons, beq_false_of_ne hk]
    · rw [if_pos (by simpa using hkey), lookup_cons, lookup_cons, ih]
      by_cases hk : k = key
      · simp [hk, hkey]
      · simp [beq_false_of_ne hk]

theorem lookup_mergeMasterAnnotationsIntoMinion (minionAnnotations masterAnnotations : List (String × String))
    (k : String) : (mergeMasterAnnotationsIntoMinion minionAnnotations masterAnnotations).lookup k =
      (minionAnnotations.lookup k).or
        (if k ∈ minionInheritanceList then masterAnnotations.lookup k else none) := by
  rw [mergeMasterAnnotationsIntoMinion]
  induction masterAnnotations generalizing minionAnnotations with
  | nil => simp
  | cons e masterAnnotations ih =>
    obtain ⟨key, val⟩ := e
    rw [foldl_cons, ih]
    by_cases hk : k = key
    · subst hk
      by_cases hi : k ∈ minionInheritanceList
      · cases hN : minionAnnotations.lookup k <;> simp [lookup_append, hi, hN]
      · simp [hi]
    · split <;> simp [lookup_cons, lookup_append, beq_false_of_ne hk]

theorem annotated_mergedMinion (m : MergeableIngresses) (minion : IngressEx) :
    (m.mergedMinion minion).ingress.annotated = effective m.master.ingress.annotated minion.ingress.annotated := by
  funext k
  simp only [Ingress.annotated, MergeableIngresses.mergedMinion, MergeableIngresses.filteredMaster,
    lookup_filterAnnotations, lookup_mergeMasterAnnotationsIntoMinion, effective_eq, allowed]

end generated

/-- Whatever the orders of the loops are, a merge ends. Each minion has its own annotations
without those a minion cannot have, and those of the master that it lacks and inherits; its
configuration is generated with the same. What the other minions have does not matter, and
to merge again what is merged changes no map. -/
theorem effective_annotations {master : Nat} {minions : List Nat} (hmaster : master ∉ minions) (h : Heap) :
    (∃ used h', AnnotationsMerged master minions h used h') ∧
    (∀ used h', AnnotationsMerged master minions h used h' → Settled master minions h used h' ∧
      (∀ used' h'', AnnotationsMerged master minions h' used' h'' → ∀ b, (h'' b).lookup = (h' b).lookup) ∧
      ∀ a ∈ minions, ∀ g used' g', g master = h master → g a = h a →
        AnnotationsMerged master minions g used' g' → (g' a).lookup = (h' a).lookup) ∧
    ∀ (m : MergeableIngresses) (minion : IngressEx), (m.mergedMinion minion).ingress.annotated =
      effective m.master.ingress.annotated minion.ingress.annotated := by
  refine ⟨AnnotationsMerged.exists master minions h, fun used h' hrun => ?_, annotated_mergedMinion⟩
  have hsettled := hrun.settled hmaster
  refine ⟨hsettled, fun used' h'' hagain => hsettled.again (hagain.settled hmaster), ?_⟩
  intro a ha g used' g' hsame hsame' hother
  rw [(hother.settled hmaster).ofMinion a ha, hsettled.ofMinion a ha, hsame, hsame']

/-- A master with two minions. One has an annotation of its own where the other inherits. -/
def shopAnnotations (a : Nat) : Annotations :=
  if a = 0 then ((∅ : Annotations).insert "nginx.org/lb-method" "least_conn").insert "nginx.org/rewrites" "/"
  else if a = 1 then (∅ : Annotations).insert "nginx.org/hsts" "True"
  else if a = 2 then (∅ : Annotations).insert "nginx.org/lb-method" "ip_hash"
  else ∅

theorem effective_annotations_shop : ∃ used h', AnnotationsMerged 0 [1, 2] shopAnnotations used h' ∧
    (h' 1).lookup "nginx.org/lb-method" = some "least_conn" ∧ (h' 1).lookup "nginx.org/hsts" = none ∧
    (h' 1).lookup "nginx.org/rewrites" = none ∧ (h' 2).lookup "nginx.org/lb-method" = some "ip_hash" := by
  obtain ⟨⟨used, h', hrun⟩, hall, -⟩ := effective_annotations (by decide : 0 ∉ [1, 2]) shopAnnotations
  have hminion := (hall used h' hrun).1.ofMinion
  have hfirst := congrFun (hminion 1 (by decide))
  have hsecond := congrFun (hminion 2 (by decide))
  exact ⟨used, h', hrun, by rw [hfirst]; rfl, by rw [hfirst]; rfl, by rw [hfirst]; rfl, by rw [hsecond]; rfl⟩

end KubeYamls.Nginx
