import KubeYamls.Nginx.Merging
import KubeYamls.Data.FirstWins

/-! # Which minion gets which path

`getMinionsForMaster` goes through the minions for a host, the oldest first, and
gives each path to the first that has it. What comes of it does not depend on
the order in which the store lists the ingresses, exactly if minions of the same
age do not compete; and a minion finds the same master in every order, exactly
if there are not two for its host. -/
namespace KubeYamls.Nginx
open Data Conc List

section candidates
variable (lbc : LBC) (l : Listers) (host : String)

def minionPaths (ing : Ingress) : Option (List HTTPPath) :=
  if lbc.isNginxIngress ing && ing.isMinion then
    match ing.rules with
    | [rule] => if rule.host = host then rule.http else none
    | _ => none
  else none

def candidates (ings : List Ingress) : List (Ingress × List HTTPPath) :=
  ings.filterMap fun ing => (minionPaths lbc host ing).map (ing, ·)

def sortedMinions (o : Order) (m : ObjectMeta) : List (Ingress × List HTTPPath) :=
  candidates lbc host ((o.list (.minionsOf m) l.ingresses.items).insertionSort Ingress.OlderEq)

/-- Does a minion end up in the merge? One with a TLS secret that is there does not. -/
def accepts (ing : Ingress) : Bool := host ≠ "" ∧ (tlsSecretsOf l ing).keys = []

/-- The minions that end up in the merge, the oldest first. -/
def acceptedMinions (o : Order) (m : ObjectMeta) : List (Ingress × List HTTPPath) :=
  (sortedMinions lbc l host o m).filter (accepts l host ·.1)

def minionEx (c : Ingress × List HTTPPath) : IngressEx :=
  ingressEx lbc l { c.1 with rules := [⟨host, some c.2⟩] }

variable {lbc l host}

theorem mem_candidates {ings c} :
    c ∈ candidates lbc host ings ↔ c.1 ∈ ings ∧ minionPaths lbc host c.1 = some c.2 := by
  simp only [candidates, mem_filterMap, Option.map_eq_some_iff]
  constructor
  · rintro ⟨ing, hing, paths, hpaths, rfl⟩
    exact ⟨hing, hpaths⟩
  · rintro ⟨hing, hpaths⟩
    exact ⟨c.1, hing, c.2, hpaths, rfl⟩

theorem eq_of_fst_eq {ings c d} (hc : c ∈ candidates lbc host ings)
    (hd : d ∈ candidates lbc host ings) (h : c.1 = d.1) : c = d := by
  have hpaths := (mem_candidates.mp hc).2
  rw [h, (mem_candidates.mp hd).2] at hpaths
  exact Prod.ext h (Option.some.inj hpaths).symm

theorem candidates_perm {ings ings'} (h : ings.Perm ings') :
    (candidates lbc host ings).Perm (candidates lbc host ings') := h.filterMap _

theorem nodup_candidates {ings} (h : ings.Nodup) : (candidates lbc host ings).Nodup := by
  refine h.filterMap fun a b c hc hc' => ?_
  obtain ⟨_, _, rfl⟩ := Option.map_eq_some_iff.mp hc
  obtain ⟨_, _, he⟩ := Option.map_eq_some_iff.mp hc'
  exact (Prod.ext_iff.mp he).1.symm

theorem sorted_candidates {ings} (h : ings.Pairwise Ingress.OlderEq) :
    (candidates lbc host ings).Pairwise fun c d => c.1.OlderEq d.1 := by
  refine pairwise_filterMap.mpr (h.imp fun hab c hc d hd => ?_)
  obtain ⟨_, _, rfl⟩ := Option.map_eq_some_iff.mp hc
  obtain ⟨_, _, rfl⟩ := Option.map_eq_some_iff.mp hd
  exact hab

end candidates

variable {minions : List IngressEx}

section collecting
variable {lbc : LBC} {l : Listers} {host : String}

theorem uniquePaths_eq (taken : List String) (paths : List HTTPPath) : uniquePaths taken paths =
    (taken ++ (firsts HTTPPath.path taken paths).map HTTPPath.path, firsts HTTPPath.path taken paths) := by
  fun_induction firsts HTTPPath.path taken paths with
  | case1 => simp [uniquePaths]
  | case2 _ _ _ hp ih => rw [uniquePaths, if_pos hp, ih]
  | case3 _ _ _ hp ih => simp [uniquePaths, if_neg hp, ih]

theorem createIngress_minion (c : Ingress × List HTTPPath) :
    createIngress lbc l { c.1 with rules := [⟨host, some c.2⟩] } =
      if host = "" then .error "Ingress rule contains empty host" else .ok (minionEx lbc l host c) := by
  by_cases hhost : host = "" <;> simp [createIngress, validateRules, hhost, Except.map, minionEx]

theorem collectMinion_eq (st : Collected) (ing : Ingress) (paths : List HTTPPath) :
    collectMinion lbc l st ing host paths =
      ⟨st.minions ++ ([(ing, firsts HTTPPath.path st.minionPaths paths)].filter (accepts l host ·.1)).map
          (minionEx lbc l host),
        st.minionPaths ++ (firsts HTTPPath.path st.minionPaths paths).map HTTPPath.path⟩ := by
  have hsecrets : ∀ c : Ingress × List HTTPPath, (minionEx lbc l host c).tlsSecrets = tlsSecretsOf l c.1 :=
    fun _ => rfl
  simp only [collectMinion, uniquePaths_eq, createIngress_minion (ing, firsts HTTPPath.path st.minionPaths paths)]
  by_cases hhost : host = ""
  · simp [hhost, accepts]
  · by_cases hkeys : (tlsSecretsOf l ing).keys = []
    · simp [hhost, hsecrets, hkeys, accepts]
    · simp [hhost, hsecrets, hkeys, accepts]

theorem addMinion_eq {st st' ing} (h : addMinion lbc l host st ing = some st') :
    st' = (minionPaths lbc host ing).elim st (collectMinion lbc l st ing host) := by
  unfold addMinion at h
  unfold minionPaths
  split at h
  · rename_i hmin
    rw [if_pos hmin]
    split at h
    · cases h
    · rename_i rule rest hrules
      rw [hrules]
      split at h
      · rename_i hno
        obtain rfl := Option.some.inj h
        cases rest with
        | nil => simp [show rule.host ≠ host by simpa using hno]
        | cons => rfl
      · rename_i hyes
        obtain ⟨rfl, rfl⟩ : rule.host = host ∧ rest = [] := by simpa using hyes
        simp only [if_true]
        split at h
        · rename_i hhttp
          simp [hhttp, Option.some.inj h]
        · rename_i paths hhttp
          simp [hhttp, Option.some.inj h]
  · rename_i hno
    rw [if_neg hno]
    exact (Option.some.inj h).symm

theorem collected_eq {ings st st' taken}
    (htaken : ∀ k, k ∈ st.minionPaths ↔ k ∈ taken) (h : ings.foldlM (addMinion lbc l host) st = some st') :
    st'.minions = st.minions ++ ((shares HTTPPath.path taken (candidates lbc host ings)).filter
      (accepts l host ·.1)).map (minionEx lbc l host) := by
  induction ings generalizing st taken with
  | nil =>
    obtain rfl := Option.some.inj h
    simp [candidates, shares]
  | cons ing ings ih =>
    rw [foldlM_cons] at h
    obtain ⟨st1, hadd, hings⟩ := Option.bind_eq_some_iff.mp h
    have h1 := addMinion_eq hadd
    cases hpaths : minionPaths lbc host ing with
    | none =>
      obtain rfl : st1 = st := by simpa [hpaths] using h1
      simpa [candidates, hpaths] using ih htaken hings
    | some paths =>
      have hsame : firsts HTTPPath.path st.minionPaths paths = firsts HTTPPath.path taken paths := by
        rw [firsts_eq_filter]
        simp only [htaken]
        exact firsts_eq_filter.symm
      obtain rfl : st1 = collectMinion lbc l st ing host paths := by simpa [hpaths] using h1
      rw [collectMinion_eq, hsame] at hings
      have htaken' : ∀ k, k ∈ st.minionPaths ++ (firsts HTTPPath.path taken paths).map HTTPPath.path ↔
          k ∈ taken ++ paths.map HTTPPath.path := by
        intro k
        simp only [mem_append, htaken, mem_map_firsts]
        by_cases hk : k ∈ taken <;> simp [hk]
      have hrest := ih htaken' hings
      simp only [candidates, filterMap_cons, hpaths, Option.map_some, shares] at hrest ⊢
      rw [hrest, append_assoc, ← map_append, ← filter_append, singleton_append]

theorem getMinionsForMaster_shares {o m} (h : getMinionsForMaster lbc l o m host = some minions) :
    minions = ((shares HTTPPath.path [] (sortedMinions lbc l host o m)).filter (accepts l host ·.1)).map
      (minionEx lbc l host) := by
  obtain ⟨st, hst, rfl⟩ := Option.map_eq_some_iff.mp h
  have hcollected := collected_eq (fun k => Iff.rfl) hst
  rwa [nil_append] at hcollected

theorem mem_getMinions {o m part}
    (h : getMinionsForMaster lbc l o m host = some minions) (hpart : part ∈ minions) :
    ∃ c, c.1 ∈ l.ingresses.items ∧ (∃ paths, minionPaths lbc host c.1 = some paths) ∧ accepts l host c.1 = true ∧
      part = minionEx lbc l host c := by
  rw [getMinionsForMaster_shares h] at hpart
  obtain ⟨c, hc, rfl⟩ := mem_map.mp hpart
  obtain ⟨hshare, haccepts⟩ := mem_filter.mp hc
  have hclaimant : c.1 ∈ (sortedMinions lbc l host o m).map Prod.fst := by
    have hmem := mem_map_of_mem (f := Prod.fst) hshare
    rwa [shares_claimants] at hmem
  obtain ⟨d, hd, heq⟩ := mem_map.mp hclaimant
  obtain ⟨hitem, hpaths⟩ := mem_candidates.mp hd
  rw [heq] at hitem hpaths
  exact ⟨c, (o.perm _ _).mem_iff.mp ((mem_insertionSort _).mp hitem), ⟨d.2, hpaths⟩, haccepts, rfl⟩

theorem getMinionsForMaster_isSome {o} (m : ObjectMeta)
    (h : ∀ ing ∈ l.ingresses.items, lbc.isNginxIngress ing = true → ing.isMinion = true → ing.rules ≠ []) :
    (getMinionsForMaster lbc l o m host).isSome = true := by
  rw [getMinionsForMaster, Option.isSome_map]
  refine isSome_foldlM fun st ing hing => ?_
  have hmem := (o.perm _ _).mem_iff.mp ((mem_insertionSort _).mp hing)
  unfold addMinion
  split
  · rename_i hmin
    obtain ⟨hn, hm⟩ := Bool.and_eq_true_iff.mp hmin
    split
    · rename_i hrules
      exact absurd hrules (h ing hmem hn hm)
    · split
      · rfl
      · split <;> rfl
  · rfl

end collecting

section order
variable (lbc : LBC) (l : Listers) (host : String)

def minionsFor : List (Ingress × List HTTPPath) := candidates lbc host l.ingresses.items

def TakenBefore (c : Ingress × List HTTPPath) (path : String) : Prop :=
  ∃ b ∈ minionsFor lbc l host, b.1.creationTimestamp < c.1.creationTimestamp ∧ path ∈ b.2.map HTTPPath.path

instance (c : Ingress × List HTTPPath) : DecidablePred (TakenBefore lbc l host c) := fun _ =>
  inferInstanceAs (Decidable (∃ b ∈ minionsFor lbc l host, _))

/-- The paths of a minion that no older minion has. -/
def ownPaths (c : Ingress × List HTTPPath) : List HTTPPath :=
  firsts HTTPPath.path [] (c.2.filter fun p => ¬TakenBefore lbc l host c p.path)

/-- Minions of the same age do not compete: only one of them is merged, and it shares no path with
another that an older minion has not taken from both. -/
def DoNotCompete : Prop :=
  ∀ a ∈ minionsFor lbc l host, accepts l host a.1 = true →
    ∀ b ∈ minionsFor lbc l host, b.1 ≠ a.1 → b.1.creationTimestamp = a.1.creationTimestamp →
      accepts l host b.1 = false ∧
      ∀ path ∈ a.2.map HTTPPath.path, path ∈ b.2.map HTTPPath.path → TakenBefore lbc l host a path

instance : Decidable (DoNotCompete lbc l host) :=
  inferInstanceAs (Decidable (∀ a ∈ minionsFor lbc l host, _ → ∀ b ∈ minionsFor lbc l host, _))

variable {lbc l host} {o o' : Order} {m : ObjectMeta}

theorem sortedMinions_perm : (sortedMinions lbc l host o m).Perm (minionsFor lbc l host) :=
  candidates_perm ((perm_insertionSort _ _).trans (o.perm _ _))

theorem pairwise_sortedMinions : (sortedMinions lbc l host o m).Pairwise fun c d => c.1.OlderEq d.1 :=
  sorted_candidates (pairwise_insertionSort _ _)

theorem nodup_sortedMinions : (sortedMinions lbc l host o m).Nodup :=
  sortedMinions_perm.nodup_iff.mpr (nodup_candidates l.ingresses.nodup_items)

theorem taken_iff (h : DoNotCompete lbc l host) {before after c} (hcs : sortedMinions lbc l host o m = before ++ c :: after)
    (hc : accepts l host c.1 = true) {path} (hpath : path ∈ c.2.map HTTPPath.path) :
    path ∈ before.flatMap (·.2.map HTTPPath.path) ↔ TakenBefore lbc l host c path := by
  have hsorted : (before ++ c :: after).Pairwise fun c d => c.1.OlderEq d.1 := hcs ▸ pairwise_sortedMinions
  have hnodup : (before ++ c :: after).Nodup := hcs ▸ nodup_sortedMinions
  have hmem : ∀ {d}, d ∈ before ++ c :: after ↔ d ∈ minionsFor lbc l host := fun {d} =>
    hcs ▸ sortedMinions_perm.mem_iff
  obtain ⟨_, hafter, hbefore⟩ := pairwise_append.mp hsorted
  have hcm : c ∈ minionsFor lbc l host := hmem.mp (by simp)
  rw [mem_flatMap]
  constructor
  · rintro ⟨b, hb, hp⟩
    have hbm : b ∈ minionsFor lbc l host := hmem.mp (mem_append_left _ hb)
    have hle : b.1.creationTimestamp ≤ c.1.creationTimestamp := hbefore b hb c mem_cons_self
    rcases lt_or_eq_of_le hle with hlt | heq
    · exact ⟨b, hbm, hlt, hp⟩
    · -- one of the same age: an older one has taken the path from both
      have hne : b.1 ≠ c.1 := fun he =>
        (nodup_append.mp hnodup).2.2 b hb c mem_cons_self (eq_of_fst_eq hbm hcm he)
      exact (h c hcm hc b hbm hne heq).2 path hpath hp
  · rintro ⟨b, hb, hlt, hp⟩
    refine ⟨b, ?_, hp⟩
    rcases mem_append.mp (hmem.mpr hb) with hb | hb
    · exact hb
    · rcases mem_cons.mp hb with rfl | hb
      · exact absurd hlt (lt_irrefl _)
      · exact absurd hlt (not_lt.mpr ((pairwise_cons.mp hafter).1 b hb))

theorem getMinionsForMaster_ownPaths (h : DoNotCompete lbc l host)
    (hm : getMinionsForMaster lbc l o m host = some minions) :
    minions = (acceptedMinions lbc l host o m).map fun c => minionEx lbc l host (c.1, ownPaths lbc l host c) := by
  have hshares : (shares HTTPPath.path [] (sortedMinions lbc l host o m)).filter (accepts l host ·.1) =
      (acceptedMinions lbc l host o m).map fun c => (c.1, ownPaths lbc l host c) := by
    refine shares_filter fun before c after hcs hc => ?_
    rw [nil_append, firsts_eq_filter, ownPaths]
    congr 1
    refine filter_congr fun p hp => ?_
    simp [taken_iff h hcs hc (mem_map_of_mem hp)]
  rw [getMinionsForMaster_shares hm, hshares, map_map]
  rfl

theorem accepted_eq (h : DoNotCompete lbc l host) :
    acceptedMinions lbc l host o m = acceptedMinions lbc l host o' m := by
  refine List.Perm.eq_of_pairwise (fun c d hc hd hcd hdc => ?_)
    (pairwise_sortedMinions.filter _) (pairwise_sortedMinions.filter _)
    ((sortedMinions_perm.trans sortedMinions_perm.symm).filter _)
  obtain ⟨hc, hcacc⟩ := mem_filter.mp hc
  obtain ⟨hd, hdacc⟩ := mem_filter.mp hd
  have hc := sortedMinions_perm.mem_iff.mp hc
  have hd := sortedMinions_perm.mem_iff.mp hd
  by_contra hne
  have hrefused := (h c hc hcacc d hd (fun he => hne (eq_of_fst_eq hd hc he).symm) (le_antisymm hdc hcd)).1
  simp [hdacc] at hrefused

variable {c : Ingress × List HTTPPath}

theorem exists_first (hc : c ∈ minionsFor lbc l host) (m : ObjectMeta) :
    ∃ o before after, sortedMinions lbc l host o m = before ++ c :: after ∧
      ∀ b ∈ before, b.1.creationTimestamp < c.1.creationTimestamp := by
  obtain ⟨hmem, hpaths⟩ := mem_candidates.mp hc
  have hperm : (c.1 :: l.ingresses.items.erase c.1).Perm (l.ingresses.items.filter fun _ => true) := by
    simpa using (perm_cons_erase hmem).symm
  obtain ⟨o, ho⟩ := exists_order (.minionsOf m) (fun _ => true) hperm
  rw [filter_true] at ho
  obtain ⟨before, after, hsplit, hbefore⟩ :=
    insertionSort_cons_split Ingress.OlderEq c.1 (l.ingresses.items.erase c.1)
  refine ⟨o, candidates lbc host before, candidates lbc host after, ?_, fun b hb => ?_⟩
  · rw [sortedMinions, ho, hsplit, candidates, filterMap_append, filterMap_cons, hpaths]
    rfl
  · exact not_le.mp (hbefore b.1 (mem_candidates.mp hb).1)

theorem find?_merged {before after} (hcs : sortedMinions lbc l host o m = before ++ c :: after)
    (hbefore : ∀ b ∈ before, b.1.creationTimestamp < c.1.creationTimestamp)
    (hc : accepts l host c.1 = true) (hm : getMinionsForMaster lbc l o m host = some minions) :
    (minions.find? fun ex => ex.ingress.creationTimestamp = c.1.creationTimestamp).map (·.ingress.objectMeta) =
      some c.1.objectMeta := by
  have hclaimants : ((sortedMinions lbc l host o m).map Prod.fst).find? (fun ing => decide
      (accepts l host ing = true ∧ decide (ing.creationTimestamp = c.1.creationTimestamp) = true)) = some c.1 := by
    rw [hcs, map_append, find?_append, map_cons, find?_cons_of_pos (by simp [hc])]
    refine Option.or_eq_some_iff.mpr (.inr ⟨find?_eq_none.mpr fun ing hing => ?_, rfl⟩)
    obtain ⟨b, hb, rfl⟩ := mem_map.mp hing
    simp [(hbefore b hb).ne]
  have hsame : (shares HTTPPath.path [] (sortedMinions lbc l host o m)).map Prod.fst = _ := shares_claimants
  rw [← hsame, find?_map] at hclaimants
  rw [getMinionsForMaster_shares hm, find?_map, find?_filter, Option.map_map]
  have hmetas := congrArg (Option.map Ingress.objectMeta) hclaimants
  rw [Option.map_map] at hmetas
  exact hmetas

theorem notMem_before {paths}
    (hm : getMinionsForMaster lbc l o m host = some minions) (hc : c ∈ minionsFor lbc l host)
    (hex : minionEx lbc l host (c.1, paths) ∈ minions) {path} (hpath : path ∈ paths.map HTTPPath.path) :
    ∃ before after, sortedMinions lbc l host o m = before ++ c :: after ∧
      path ∉ before.flatMap (·.2.map HTTPPath.path) := by
  rw [getMinionsForMaster_shares hm] at hex
  obtain ⟨d, hd, hdex⟩ := mem_map.mp hex
  obtain ⟨before, as, after, hcs, hshare⟩ := mem_shares.mp (mem_filter.mp hd).1
  have hmeta : d.1.objectMeta = c.1.objectMeta := congrArg (·.ingress.objectMeta) hdex
  have hrules : [(⟨host, some d.2⟩ : Rule)] = [⟨host, some paths⟩] := congrArg (·.ingress.rules) hdex
  have hdm : (d.1, as) ∈ minionsFor lbc l host := (sortedMinions_perm (o := o) (m := m)).mem_iff.mp (by simp [hcs])
  have hdc : d.1 = c.1 := l.ingresses.eq_of_key (mem_candidates.mp hdm).1 (mem_candidates.mp hc).1 (by rw [hmeta])
  refine ⟨before, after, by rw [hcs, eq_of_fst_eq hdm hc hdc], fun hbefore => ?_⟩
  have hpaths : d.2 = paths := by simpa using hrules
  rw [← hpaths, hshare, mem_map_firsts] at hpath
  exact hpath.2 (by simpa using hbefore)

theorem doNotCompete_of_same (hsome : ∀ o, (getMinionsForMaster lbc l o m host).isSome = true)
    (h : ∀ o o', getMinionsForMaster lbc l o m host = getMinionsForMaster lbc l o' m host) :
    DoNotCompete lbc l host := by
  intro a ha hacc b hb hne hage
  -- the one or the other goes first
  obtain ⟨o, before, after, hcs, hbefore⟩ := exists_first ha m
  obtain ⟨o', before', after', hcs', hbefore'⟩ := exists_first hb m
  obtain ⟨minions, hm⟩ := Option.isSome_iff_exists.mp (hsome o)
  have hm' := (h o' o).trans hm
  constructor
  · by_contra hno
    have hfirst := find?_merged hcs hbefore hacc hm
    have hfirst' := find?_merged hcs' hbefore' (by simpa using hno) hm'
    rw [hage, hfirst] at hfirst'
    have hkey : a.1.objectMeta.key = b.1.objectMeta.key := by rw [Option.some.inj hfirst']
    exact hne (l.ingresses.eq_of_key (mem_candidates.mp ha).1 (mem_candidates.mp hb).1 hkey).symm
  · intro path hpath hpath'
    by_contra hfree
    have hleft : path ∉ before.flatMap (·.2.map HTTPPath.path) := by
      intro hmem
      obtain ⟨d, hd, hp⟩ := mem_flatMap.mp hmem
      exact hfree ⟨d, (sortedMinions_perm (o := o) (m := m)).mem_iff.mp (by simp [hcs, hd]), hbefore d hd, hp⟩
    have hex : minionEx lbc l host (a.1, firsts HTTPPath.path (before.flatMap (·.2.map HTTPPath.path)) a.2) ∈
        minions := by
      rw [getMinionsForMaster_shares hm]
      refine mem_map_of_mem (mem_filter.mpr ⟨mem_shares.mpr ⟨before, a.2, after, hcs, rfl⟩, hacc⟩)
    obtain ⟨before2, after2, hcs2, hfree2⟩ := notMem_before hm' ha hex (mem_map_firsts.mpr ⟨hpath, hleft⟩)
    -- the other is the first of its age, so it is before this one
    have hfind : (sortedMinions lbc l host o' m).find? (fun d => d.1.creationTimestamp = b.1.creationTimestamp) =
        some b := by
      rw [hcs', find?_append, find?_cons_of_pos (by simp)]
      refine Option.or_eq_some_iff.mpr (.inr ⟨find?_eq_none.mpr fun d hd => ?_, rfl⟩)
      simp [(hbefore' d hd).ne]
    rw [hcs2, find?_append, find?_cons_of_pos (by simp [hage])] at hfind
    rcases Option.or_eq_some_iff.mp hfind with hfind | ⟨_, he⟩
    · exact hfree2 (mem_flatMap.mpr ⟨b, mem_of_find?_eq_some hfind, hpath'⟩)
    · exact hne (congrArg Prod.fst (Option.some.inj he)).symm

end order

section masters
variable (lbc : LBC) (cnf : Configurator)

def isMasterFor (host : String) (ing : Ingress) : Bool :=
  lbc.isNginxIngress ing && cnf.hasIngress ing && ing.isMaster && ing.host = host

def noMaster (minion : Ingress) : String :=
  "Could not find a Master for Minion: '" ++ minion.objectMeta.ns ++ "/" ++ minion.objectMeta.name ++ "'"

variable {lbc cnf}

theorem findMaster_eq {minion} (hminion : minion.rules ≠ []) {ings}
    (h : ∀ ing ∈ ings, lbc.isNginxIngress ing = true → ing.isMaster = true → ing.rules ≠ []) :
    findMaster lbc cnf minion ings =
      some ((ings.find? (isMasterFor lbc cnf minion.host)).elim (.error (noMaster minion)) .ok) := by
  obtain ⟨rule', rest', hrules'⟩ := exists_cons_of_ne_nil hminion
  induction ings with
  | nil => rfl
  | cons ing ings ih =>
    have ih := ih fun ing hing => h ing (mem_cons_of_mem _ hing)
    unfold findMaster
    by_cases hc : (lbc.isNginxIngress ing && cnf.hasIngress ing && ing.isMaster) = true
    · obtain ⟨⟨hn, _⟩, hm⟩ := by simpa only [Bool.and_eq_true] using hc
      obtain ⟨rule, rest, hrules⟩ := exists_cons_of_ne_nil (h ing mem_cons_self hn hm)
      have hhost : isMasterFor lbc cnf minion.host ing = decide (rule.host = rule'.host) := by
        simp [isMasterFor, hc, Ingress.host, hrules, hrules']
      rw [if_pos hc, hrules, hrules']
      by_cases heq : rule.host = rule'.host
      · simp [heq, hhost]
      · simp [heq, hhost, ih]
    · have hno : isMasterFor lbc cnf minion.host ing = false := by
        simp [isMasterFor, Bool.eq_false_of_not_eq_true hc]
      rw [if_neg hc, ih, find?_cons_of_neg (by simp [hno])]

end masters

section alike
variable (lbc : LBC) (l : Listers) (cnf : Configurator)

structure MergesAlike (o o' : Order) : Prop where
  minions : ∀ master ∈ l.ingresses.items, master.isMaster = true →
    getMinionsForMaster lbc l o master.objectMeta master.host =
      getMinionsForMaster lbc l o' master.objectMeta master.host
  masters : ∀ minion ∈ l.ingresses.items, minion.isMinion = true →
    findMasterForMinion lbc l o cnf minion = findMasterForMinion lbc l o' cnf minion

def OneMaster (host : String) : Prop :=
  ∀ a ∈ l.ingresses.items, isMasterFor lbc cnf host a = true →
    ∀ b ∈ l.ingresses.items, isMasterFor lbc cnf host b = true → a = b

instance (host : String) : Decidable (OneMaster lbc l cnf host) :=
  inferInstanceAs (Decidable (∀ a ∈ l.ingresses.items, _ → ∀ b ∈ l.ingresses.items, _))

variable {lbc l cnf}

theorem findMasterForMinion_eq (hrules : ∀ ing ∈ l.ingresses.items, ing.rules ≠ []) (o : Order)
    {minion} (hminion : minion ∈ l.ingresses.items) : findMasterForMinion lbc l o cnf minion =
      some (((o.list (.masterOf minion.objectMeta) l.ingresses.items).find?
        (isMasterFor lbc cnf minion.host)).elim (.error (noMaster minion)) .ok) :=
  findMaster_eq (hrules minion hminion) fun ing hing _ _ => hrules ing ((o.perm _ _).mem_iff.mp hing)

theorem oneMaster_of_same (hrules : ∀ ing ∈ l.ingresses.items, ing.rules ≠ []) {minion}
    (hminion : minion ∈ l.ingresses.items)
    (h : ∀ o o', findMasterForMinion lbc l o cnf minion = findMasterForMinion lbc l o' cnf minion) :
    OneMaster lbc l cnf minion.host := by
  -- a master that is listed first is found
  have hfirst : ∀ a ∈ l.ingresses.items, isMasterFor lbc cnf minion.host a = true →
      ∃ o, findMasterForMinion lbc l o cnf minion = some (.ok a) := by
    intro a ha hfor
    have hperm : (a :: l.ingresses.items.erase a).Perm (l.ingresses.items.filter fun _ => true) := by
      simpa using (perm_cons_erase ha).symm
    obtain ⟨o, ho⟩ := exists_order (.masterOf minion.objectMeta) (fun _ => true) hperm
    rw [filter_true] at ho
    exact ⟨o, by rw [findMasterForMinion_eq hrules o hminion, ho, find?_cons_of_pos hfor]; rfl⟩
  intro a ha hfor b hb hfor'
  obtain ⟨o, ho⟩ := hfirst a ha hfor
  obtain ⟨o', ho'⟩ := hfirst b hb hfor'
  exact Except.ok.inj (Option.some.inj (ho.symm.trans ((h o o').trans ho')))

/-- The order of the store does not matter, exactly if minions of one age do not compete and no
minion has two masters to choose from. -/
theorem mergesAlike_iff (lbc : LBC) (l : Listers) (cnf : Configurator)
    (hone : ∀ ing ∈ l.ingresses.items, ing.rules.length = 1) : (∀ o o', MergesAlike lbc l cnf o o') ↔
      (∀ master ∈ l.ingresses.items, master.isMaster = true → DoNotCompete lbc l master.host) ∧
      ∀ minion ∈ l.ingresses.items, minion.isMinion = true → OneMaster lbc l cnf minion.host := by
  have hrules : ∀ ing ∈ l.ingresses.items, ing.rules ≠ [] := fun ing hing hnil => by
    simpa [hnil] using hone ing hing
  have hsome : ∀ (o : Order) m host, (getMinionsForMaster lbc l o m host).isSome = true := fun o m host =>
    getMinionsForMaster_isSome m fun ing hing _ _ => hrules ing hing
  constructor
  · intro h
    refine ⟨fun master hmem hm => ?_, fun minion hmem hm => ?_⟩
    · exact doNotCompete_of_same (hsome · _ _) fun o o' => (h o o').minions master hmem hm
    · exact oneMaster_of_same hrules hmem fun o o' => (h o o').masters minion hmem hm
  · rintro ⟨hminions, hmasters⟩ o o'
    refine ⟨fun master hmem hm => ?_, fun minion hmem hm => ?_⟩
    · obtain ⟨minions, hm1⟩ := Option.isSome_iff_exists.mp (hsome o master.objectMeta master.host)
      obtain ⟨minions', hm2⟩ := Option.isSome_iff_exists.mp (hsome o' master.objectMeta master.host)
      have hapart := hminions master hmem hm
      rw [hm1, hm2, getMinionsForMaster_ownPaths hapart hm1, getMinionsForMaster_ownPaths hapart hm2,
        accepted_eq hapart]
    · have hperm := (o.perm (.masterOf minion.objectMeta) l.ingresses.items).trans
        (o'.perm (.masterOf minion.objectMeta) l.ingresses.items).symm
      rw [findMasterForMinion_eq hrules o hmem, findMasterForMinion_eq hrules o' hmem,
        find?_eq_of_perm hperm fun a ha b hb hfor hfor' =>
          hmasters minion hmem hm a ((o.perm _ _).mem_iff.mp ha) hfor b ((o.perm _ _).mem_iff.mp hb) hfor']

end alike

section samples

def payMinion (created : Int) : Ingress :=
  { mergeableIngress ⟨"default", "pay", legal_default, by decide⟩ "minion" "shop.example.com"
      (some [⟨"/cart", "pay-svc", .int 80⟩, ⟨"/pay", "pay-svc", .int 80⟩]) with creationTimestamp := created }

def mallMaster : Ingress :=
  mergeableIngress ⟨"default", "mall", legal_default, by decide⟩ "master" "shop.example.com" none

def shopListers : Listers := { noListers with ingresses := .ofList [shopMaster, shopMinion, payMinion 1] }

theorem mergesAlike_shop : (∀ ing ∈ shopListers.ingresses.items, ing.rules.length = 1) ∧
    ∀ o o', MergesAlike (plainLBC false) shopListers started.cnf o o' := by
  have hone : ∀ ing ∈ shopListers.ingresses.items, ing.rules.length = 1 := by decide +kernel
  exact ⟨hone, (mergesAlike_iff (plainLBC false) shopListers started.cnf hone).mpr
    ⟨by decide +kernel, by decide +kernel⟩⟩

/-- The store gives its objects the other way round. -/
def Order.reversed : Order := ⟨fun _ => List.reverse, fun _ => reverse_perm, List.reverse, reverse_perm⟩

/-- Two minions were created at the same time, and two masters have one host. -/
theorem order_decides : ∃ s, Run (step (plainLBC false)) (fun _ l => IngressEvent l) started s ∧
    (∀ ing ∈ s.listers.ingresses.items, ing.rules.length = 1) ∧
    (∃ master ∈ s.listers.ingresses.items, master.isMaster = true ∧
      getMinionsForMaster (plainLBC false) s.listers .same master.objectMeta master.host ≠
        getMinionsForMaster (plainLBC false) s.listers .reversed master.objectMeta master.host) ∧
    ∃ minion ∈ s.listers.ingresses.items, minion.isMinion = true ∧
      findMasterForMinion (plainLBC false) s.listers .same s.cnf minion ≠
        findMasterForMinion (plainLBC false) s.listers .reversed s.cnf minion := by
  obtain ⟨s, hs, hone, hmaster, hminion, hminions, hminions', hfound, hfound'⟩ : ∃ s, Run (step (plainLBC false))
      (fun _ l => IngressEvent l) started s ∧ (∀ ing ∈ s.listers.ingresses.items, ing.rules.length = 1) ∧
      shopMaster ∈ s.listers.ingresses.items ∧ shopMinion ∈ s.listers.ingresses.items ∧
      ((getMinionsForMaster (plainLBC false) s.listers .same shopMaster.objectMeta shopMaster.host).map
        fun minions => minions.map (·.ingress.objectMeta.name)) = some ["pay", "cart"] ∧
      ((getMinionsForMaster (plainLBC false) s.listers .reversed shopMaster.objectMeta shopMaster.host).map
        fun minions => minions.map (·.ingress.objectMeta.name)) = some ["cart", "pay"] ∧
      ((findMasterForMinion (plainLBC false) s.listers .same s.cnf shopMinion).map Except.toOption) =
        some (some mallMaster) ∧
      ((findMasterForMinion (plainLBC false) s.listers .reversed s.cnf shopMinion).map Except.toOption) =
        some (some shopMaster) :=
    Run.of_labels [.ingress (.add shopMaster) .same, .sync .same, .ingress (.add mallMaster) .same, .sync .same,
      .ingress (.add shopMinion) .same, .ingress (.add (payMinion 0)) .same] (by decide +kernel)
  refine ⟨s, hs, hone, ⟨shopMaster, hmaster, rfl, fun he => ?_⟩, shopMinion, hminion, rfl, fun he => ?_⟩
  · rw [he, hminions'] at hminions
    simp at hminions
  · rw [he, hfound'] at hfound
    exact absurd hfound (by decide +kernel)

end samples

end KubeYamls.Nginx
