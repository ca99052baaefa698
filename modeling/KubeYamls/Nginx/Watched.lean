import KubeYamls.Nginx.Events

/-! # Configured ingresses are watched ones

Handlers look at the new object of an event, tasks keep the kind an ingress had
when they were queued, and a sync reads the ingress again. What is configured
follows what is watched as long as no ingress is taken away from the controller,
or turned into a minion, while its configuration is there or about to be made. -/
namespace KubeYamls.Nginx
open Data Conc Lister List Option

/-- An ingress of this controller for which a configuration of its own is generated. -/
def Own (lbc : LBC) (ing : Ingress) : Prop := lbc.isNginxIngress ing = true ∧ ing.isMinion = false

instance (lbc : LBC) (ing : Ingress) : Decidable (Own lbc ing) := inferInstanceAs (Decidable (_ ∧ _))

/-- Every entry of `cnf.ingresses` is named after such an ingress of the lister. -/
def Converged (lbc : LBC) (s : State) : Prop :=
  ∀ name ∈ s.cnf.ingresses.keys,
    ∃ ing ∈ s.listers.ingresses.items, Own lbc ing ∧ ing.objectMeta.fileName = name

instance (lbc : LBC) (s : State) : Decidable (Converged lbc s) :=
  inferInstanceAs (Decidable (∀ name ∈ _, ∃ ing ∈ _, _ ∧ _))

/-- An event about an ingress, a deletion carrying the ingress itself, or a move of the worker. -/
def IngressEvent : Label → Prop
  | .ingress (.delete _ unknown) _ => unknown = false
  | .ingress _ _ | .sync _ | .wake _ => True
  | _ => False

instance : DecidablePred IngressEvent
  | .ingress (.delete _ unknown) _ => inferInstanceAs (Decidable (unknown = false))
  | .ingress (.add _) _ | .ingress (.update _ _) _ | .sync _ | .wake _ => .isTrue trivial
  | .service _ _ | .endpoints _ | .secret _ | .configMap _ _ => .isFalse id

/-- An ingress that comes into the lister is the controller's own, unless its configuration is
not there and not about to be made. -/
def KeepsOwn (lbc : LBC) (s : State) : Label → Prop
  | .ingress c _ => ∀ ing ∈ c.entering.toList, Own lbc ing ∨
      s.cnf.hasIngress ing = false ∧ ⟨.ingress, ing.objectMeta.key⟩ ∉ s.queue ∧
        ⟨.ingress, ing.objectMeta.key⟩ ∉ s.delayed
  | _ => True

instance (lbc : LBC) (s : State) : DecidablePred (KeepsOwn lbc s)
  | .ingress _ _ => inferInstanceAs (Decidable (∀ ing ∈ _, _ ∨ _ ∧ _ ∧ _))
  | .service _ _ | .endpoints _ | .secret _ | .configMap _ _ | .sync _ | .wake _ => .isTrue trivial

/-- Between the events: an entry whose ingress is gone waits for its deletion, and nothing is
about to be configured that is not the controller's own. -/
structure Tracked (lbc : LBC) (s : State) : Prop where
  kinds : ∀ t, t ∈ s.queue ∨ t ∈ s.delayed → t.kind = .ingress ∨ t.kind = .ingressMinion
  entries : ∀ name ∈ s.cnf.ingresses.keys, ∃ m : ObjectMeta, m.fileName = name ∧
    ((∃ ing, s.listers.ingresses.get m.key = some ing ∧ Own lbc ing) ∨
      (s.listers.ingresses.get m.key = none ∧ ⟨.ingress, m.key⟩ ∈ s.queue))
  pending : ∀ key, (⟨.ingress, key⟩ : Task) ∈ s.queue ∨ (⟨.ingress, key⟩ : Task) ∈ s.delayed →
    ∀ ing, s.listers.ingresses.get key = some ing → Own lbc ing

namespace Tracked
variable {lbc : LBC} {o : Order} {s s' : State}

/-- The tasks that may wait: for ingresses and minions, and if one is about to configure an ingress of
the lister, then the controller's own. -/
def Welcome (lbc : LBC) (items : Lister Ingress Ingress.objectMeta) (t : Task) : Prop :=
  (t.kind = .ingress ∨ t.kind = .ingressMinion) ∧
    (t.kind = .ingress → ∀ ing, items.get t.key = some ing → Own lbc ing)

theorem welcome_minion {items} (key : String) : Welcome lbc items ⟨.ingressMinion, key⟩ := ⟨.inr rfl, by simp⟩

theorem welcome_task {items ing}
    (hn : lbc.isNginxIngress ing = true) (hget : items.get ing.objectMeta.key = some ing) :
    Welcome lbc items ing.task := by
  cases hm : ing.isMinion with
  | true => simp [Welcome, Ingress.task, hm]
  | false =>
    refine ⟨by simp [Ingress.task, hm], fun _ ing' hget' => ?_⟩
    obtain rfl : ing = ing' := by simpa [Ingress.task, hget] using hget'
    exact ⟨hn, hm⟩

theorem tasks (h : Tracked lbc s) : s.OnlyTasks (Welcome lbc s.listers.ingresses) := by
  intro ⟨kind, key⟩ ht
  refine ⟨h.kinds _ ht, fun hkind => ?_⟩
  obtain rfl : kind = .ingress := hkind
  exact h.pending key ht

theorem of_tasks (htasks : s.OnlyTasks (Welcome lbc s.listers.ingresses))
    (hentries : ∀ name ∈ s.cnf.ingresses.keys, ∃ m : ObjectMeta, m.fileName = name ∧
      ((∃ ing, s.listers.ingresses.get m.key = some ing ∧ Own lbc ing) ∨
        (s.listers.ingresses.get m.key = none ∧ ⟨.ingress, m.key⟩ ∈ s.queue))) : Tracked lbc s where
  kinds t ht := (htasks t ht).1
  entries := hentries
  pending _ ht := (htasks _ ht).2 rfl

theorem converged (h : Tracked lbc s) (hq : s.queue = []) : Converged lbc s := by
  intro name hname
  obtain ⟨m, hm, ⟨ing, hget, hown⟩ | ⟨_, hmem⟩⟩ := h.entries name hname
  · have hkey := s.listers.ingresses.keyed _ _ hget
    refine ⟨ing, mem_items.mpr (hkey ▸ hget), hown, ?_⟩
    rw [← hm, ← keyToFileName_key, ← keyToFileName_key, hkey]
  · simp [hq] at hmem

theorem of_converged (h : Converged lbc s) (hq : s.queue = []) (hd : s.delayed = []) : Tracked lbc s := by
  refine of_tasks (.of_nil hq hd) fun name hname => ?_
  obtain ⟨ing, hmem, hown, hfile⟩ := h name hname
  exact ⟨ing.objectMeta, hfile, .inl ⟨ing, mem_items.mp hmem, hown⟩⟩

section
variable (h : Tracked lbc s)
include h

theorem requeue (hl : s'.listers = s.listers) (hcnf : s'.cnf = s.cnf)
    (htasks : s'.OnlyTasks (Welcome lbc s.listers.ingresses))
    (hkeep : ∀ key, s.listers.ingresses.get key = none → ⟨.ingress, key⟩ ∈ s.queue → ⟨.ingress, key⟩ ∈ s'.queue) :
    Tracked lbc s' := by
  refine of_tasks (hl ▸ htasks) fun name hname => ?_
  rw [hcnf] at hname
  rw [hl]
  obtain ⟨m, hm, hcase⟩ := h.entries name hname
  exact ⟨m, hm, hcase.imp_right fun ⟨hnone, hmem⟩ => ⟨hnone, hkeep m.key hnone hmem⟩⟩

theorem enqueue {t} (ht : Welcome lbc s.listers.ingresses t) : Tracked lbc (s.enqueue t) :=
  h.requeue (by simp) (by simp) (h.tasks.enqueue ht) fun _ _ hmem => by simp [hmem]

theorem requeueAfter {t} (ht : Welcome lbc s.listers.ingresses t) : Tracked lbc (s.requeueAfter t) :=
  h.requeue rfl rfl (h.tasks.requeueAfter ht) fun _ _ hmem => hmem

theorem pop {t ts} (hq : s.queue = t :: ts) (ht : t.kind = .ingress → s.listers.ingresses.get t.key ≠ none) :
    Tracked lbc { s with queue := ts } := by
  refine h.requeue rfl rfl (h.tasks.tail hq) fun key hnone hmem => ?_
  rcases mem_cons.mp (hq ▸ hmem) with rfl | hmem
  · exact absurd hnone (ht rfl)
  · exact hmem

theorem master {cnf minion master} (hm : findMasterForMinion lbc s.listers o cnf minion = some (.ok master)) :
    Tracked lbc (s.enqueue master.task) := by
  obtain ⟨hmem, hn, _, _, _⟩ := findMaster_ok hm
  exact h.enqueue (welcome_task hn (mem_items.mp ((o.perm _ _).mem_iff.mp hmem)))

theorem put {ing} (hing : Own lbc ing ∨ s.cnf.hasIngress ing = false ∧ ⟨.ingress, ing.objectMeta.key⟩ ∉ s.queue ∧
        ⟨.ingress, ing.objectMeta.key⟩ ∉ s.delayed) :
    Tracked lbc (s.withIngresses (s.listers.ingresses.put ing)) where
  kinds := h.kinds
  entries name hname := by
    simp only [State.withIngresses, get_put]
    obtain ⟨m, hm, hcase⟩ := h.entries name hname
    refine ⟨m, hm, ?_⟩
    by_cases hkey : m.key = ing.objectMeta.key
    · rcases hing with hown | ⟨hno, _⟩
      · exact .inl ⟨ing, by simp [hkey], hown⟩
      · -- the entry would be the ingress's own
        have hfile : ing.objectMeta.fileName = name := by
          rw [← hm, ← keyToFileName_key, ← keyToFileName_key, hkey]
        have hsome := AList.lookup_isSome.mpr (AList.mem_keys.mp hname)
        rw [Configurator.hasIngress, hfile] at hno
        exact absurd hsome (by simp [State.withIngresses, hno])
    · simpa [hkey] using hcase
  pending key ht := by
    intro ing' hget
    simp only [State.withIngresses, get_put] at hget
    split at hget
    · rename_i hkey
      obtain rfl := some.inj hget
      rcases hing with hown | ⟨_, hq, hd⟩
      · exact hown
      · rcases ht with ht | ht
        · exact absurd (hkey ▸ ht) hq
        · exact absurd (hkey ▸ ht) hd
    · exact h.pending key ht ing' hget

theorem remove {m old} (hold : s.listers.ingresses.get m.key = some old)
    (hq : Own lbc old → (⟨.ingress, m.key⟩ : Task) ∈ s.queue) :
    Tracked lbc (s.withIngresses (s.listers.ingresses.remove m)) where
  kinds := h.kinds
  entries name hname := by
    simp only [State.withIngresses, get_remove]
    obtain ⟨m', hm', hcase⟩ := h.entries name hname
    refine ⟨m', hm', ?_⟩
    by_cases hkey : m'.key = m.key
    · rcases hcase with ⟨ing, hget, hown⟩ | ⟨hnone, _⟩
      · rw [hkey, hold] at hget
        obtain rfl := some.inj hget
        exact .inr ⟨by simp [hkey], hkey ▸ hq hown⟩
      · simp [hkey, hold] at hnone
    · simpa [hkey] using hcase
  pending key ht := by
    intro ing hget
    simp only [State.withIngresses, get_remove] at hget
    split at hget
    · cases hget
    · exact h.pending key ht ing hget

theorem configure {cnf} (hcnf : ∀ name ∈ cnf.ingresses.keys, name ∈ s.cnf.ingresses.keys ∨
      ∃ ing, s.listers.ingresses.get ing.objectMeta.key = some ing ∧ Own lbc ing ∧
        ing.objectMeta.fileName = name) : Tracked lbc { s with cnf := cnf } where
  kinds := h.kinds
  entries name hname := by
    rcases hcnf name hname with hname | ⟨ing, hget, hown, hfile⟩
    · exact h.entries name hname
    · exact ⟨ing.objectMeta, hfile, .inl ⟨ing, hget, hown⟩⟩
  pending := h.pending

theorem syncIng {key ts} (hq : s.queue = ⟨.ingress, key⟩ :: ts)
    (hs : Nginx.syncIng lbc o { s with queue := ts } key = some s') : Tracked lbc s' := by
  obtain ⟨hnone, v, rfl⟩ | ⟨ing, hget, hcase⟩ := syncIng_cases hs
  · -- the entry goes together with the task that was to delete it
    refine of_tasks (h.tasks.tail hq) fun name hname => ?_
    obtain ⟨hne, hname⟩ : name ≠ keyToFileName key ∧ name ∈ s.cnf.ingresses.keys := by
      simpa [Configurator.forget, AList.keys_erase, s.cnf.ingresses.keys_nodup.mem_erase_iff] using hname
    obtain ⟨m, hm, hentry⟩ := h.entries name hname
    refine ⟨m, hm, hentry.imp_right fun hgone => ⟨hgone.1, ?_⟩⟩
    rcases mem_cons.mp (hq ▸ hgone.2) with heq | hmem
    · obtain rfl : m.key = key := by simpa using heq
      exact absurd (hm.symm.trans (keyToFileName_key m).symm) hne
    · exact hmem
  · have hwelcome := h.tasks.head hq
    have hown : Own lbc ing := hwelcome.2 rfl ing hget
    have hpop := h.pop hq fun _ hnone => by simp [hget] at hnone
    have hkey : ing.objectMeta.key = key := s.listers.ingresses.keyed key ing hget
    rcases hcase with ⟨r, v, hr, rfl⟩ | ⟨err, _, rfl⟩
    · refine hpop.configure fun name hname => ?_
      have hfile : ing.objectMeta.fileName = r.name := by rw [Resource.name, resourceOf_objectMeta hr]
      rcases Configurator.regenerate_ingresses lbc.host s.cnf r with he | he
      · exact .inl (by simpa [he] using hname)
      · have hname : name = r.name ∨ name ∈ s.cnf.ingresses.keys.erase r.name := by
          simpa [he] using hname
        rcases hname with rfl | hname
        · exact .inr ⟨ing, hkey ▸ hget, hown, hfile⟩
        · exact .inl (mem_of_mem_erase hname)
    · split
      · exact hpop.requeueAfter hwelcome
      · exact hpop

theorem syncIngMinion {key ts} (hq : s.queue = ⟨.ingressMinion, key⟩ :: ts)
    (hs : Nginx.syncIngMinion lbc o { s with queue := ts } key = some s') : Tracked lbc s' := by
  have hpop := h.pop hq (by simp)
  refine syncIngMinion_keeps hs hpop (hpop.requeueAfter (welcome_minion key)) fun t minion master hl hfound ht => ?_
  exact ht.master (hl ▸ hfound)

theorem step {l} (hl : IngressEvent l) (hkeep : KeepsOwn lbc s l)
    (hs : Nginx.step lbc l s = some s') : Tracked lbc s' := by
  cases l with
  | ingress c o =>
    obtain ⟨ing, rfl, _, rfl⟩ | ⟨cur, others, old, rfl, hold, rfl⟩ | ⟨m, unknown, old, rfl, hold, hd⟩ :=
      step_ingress_cases hs
    · have hput := h.put (hkeep ing (by simp [Change.entering]))
      split
      · rename_i hn
        exact hput.enqueue (welcome_task hn (by simp [get_put]))
      · exact hput
    · have hput := h.put (hkeep cur (by simp [Change.entering]))
      split
      · rename_i hn
        exact hput.enqueue (welcome_task hn.1 (by simp [get_put]))
      · exact hput
    · have hkey : old.objectMeta.key = m.key := s.listers.ingresses.keyed _ _ hold
      obtain ⟨hn, rfl⟩ | ⟨_, hm, ⟨err, _, rfl⟩ | ⟨master, hmaster, rfl⟩⟩ | ⟨hn, hm, rfl⟩ :=
        ingressHandler_delete hd
      · exact h.remove hold fun hown => absurd hown.1 (by simp [hn])
      · exact h.remove hold fun hown => absurd hown.2 (by simp [hm])
      · exact (h.remove hold fun hown => absurd hown.2 (by simp [hm])).master hmaster
      · rw [if_neg (by simpa [IngressEvent] using hl), State.enqueue_withIngresses]
        have htask : old.task = ⟨.ingress, m.key⟩ := by simp [Ingress.task, hm, hkey]
        rw [htask, ← State.enqueue_listers s ⟨.ingress, m.key⟩]
        refine (h.enqueue ⟨.inl rfl, fun _ ing hget => ?_⟩).remove (by simpa using hold) fun _ => by simp
        obtain rfl := some.inj (hold.symm.trans hget)
        exact ⟨hn, hm⟩
  | sync o =>
    obtain ⟨⟨kind, key⟩, ts, hq, hs⟩ := step_sync_cases hs
    obtain ⟨rfl | rfl, _⟩ := h.tasks.head hq
    · exact h.syncIng hq hs
    · exact h.syncIngMinion hq hs
  | wake t =>
    obtain ⟨hd, rfl⟩ := step_wake_cases hs
    exact h.requeue (by simp) (by simp) (h.tasks.wake hd) fun _ _ hmem => by simp [hmem]
  | service | endpoints | secret | configMap => exact hl.elim

end

end Tracked

/-- Once the queue is empty, only own ingresses of the lister are configured. -/
theorem configured_watched (lbc : LBC) {s0 s : State} (h0 : Converged lbc s0) (hq0 : s0.queue = [])
    (hd0 : s0.delayed = []) (h : Run (step lbc) (fun s l => IngressEvent l ∧ KeepsOwn lbc s l) s0 s)
    (hq : s.queue = []) : Converged lbc s := by
  have htracked := h.keeps (Tracked.of_converged h0 hq0 hd0) fun _ _ _ ht hC hs => ht.step hC.1 hC.2 hs
  exact htracked.converged hq

/-- The ingress an event brings is valid, and no other ingress has its file name. -/
def Proper (s : State) : Label → Prop
  | .ingress c _ => ∀ ing ∈ c.entering.toList, (validateRules ing.rules).isOk = true ∧
      ∀ other ∈ s.listers.ingresses.items,
        other.objectMeta.fileName = ing.objectMeta.fileName → other.objectMeta = ing.objectMeta
  | _ => True

instance (s : State) : DecidablePred (Proper s)
  | .ingress _ _ => inferInstanceAs (Decidable (∀ ing ∈ _, _ ∧ ∀ other ∈ _, _ → _))
  | .service _ _ | .endpoints _ | .secret _ | .configMap _ _ | .sync _ | .wake _ => .isTrue trivial

theorem configured_watched_cafe : ∃ s, s.queue = [] ∧ s.cnf.ingresses.keys = ["default-cafe"] ∧
    Converged (plainLBC false) s := by
  obtain ⟨s, hs, hq, hkeys⟩ : ∃ s, Run (step (plainLBC false))
      (fun s l => IngressEvent l ∧ KeepsOwn (plainLBC false) s l) started s ∧
      s.queue = [] ∧ s.cnf.ingresses.keys = ["default-cafe"] :=
    Run.of_labels [.ingress (.add (cafe [])) .same, .sync .same,
      .ingress (.update (cafe [(ingressClassKey, "nginx")]) false) .same, .sync .same] (by decide +kernel)
  exact ⟨s, hq, hkeys, configured_watched (plainLBC false) (by decide) rfl rfl hs hq⟩

/-- An ingress that gets the class of another controller, or becomes a minion, stays
configured: its update queues nothing, or a task that does not look at its configuration. -/
theorem taken_away_stays_configured :
    (∃ s, Run (step (plainLBC false)) (fun s l => IngressEvent l ∧ Proper s l) started s ∧
      s.queue = [] ∧ cafe [(ingressClassKey, "traefik")] ∈ s.listers.ingresses.items ∧
      ¬Converged (plainLBC false) s) ∧
    ∃ s, Run (step (plainLBC false)) (fun s l => IngressEvent l ∧ Proper s l) started s ∧
      s.queue = [] ∧ cafe [("nginx.org/mergeable-ingress-type", "minion")] ∈ s.listers.ingresses.items ∧
      ¬Converged (plainLBC false) s := by
  -- a task is left after the change for a minion, and none for a class of another controller
  refine ⟨?_, ?_⟩
  · exact Run.of_labels [.ingress (.add (cafe [])) .same, .sync .same,
      .ingress (.update (cafe [(ingressClassKey, "traefik")]) false) .same] (by decide +kernel)
  · exact Run.of_labels [.ingress (.add (cafe [])) .same, .sync .same,
      .ingress (.update (cafe [("nginx.org/mergeable-ingress-type", "minion")]) false) .same, .sync .same]
      (by decide +kernel)

end KubeYamls.Nginx
