import KubeYamls.Store.EtcdCommits
import KubeYamls.Store.KubernetesCommits

/-! # No lost updates

Both remote storages, under any interleaving of the requests of any number of
connections: the objects are at any time what the calls that took effect make of
the first ones, one after the other. -/
namespace KubeYamls.Store
open Data Conc
open Dex (Outcome CaseTable asciiCase)

/-- On etcd and on the API server, whatever they held at first, calls are as if
made one after the other in commit order: an updater acts on the value that was
current right before its commit, the calls that return nil are those that
committed, each once, and the others changed nothing. -/
theorem no_lost_update (u : CaseTable) : (∀ (db : Etcd.Db) (s : Sys (Etcd.etcd u)), Reach (· = (db, ())) s →
      Serialized (Etcd.ledger u) Etcd.reporting.report (db, ()) s) ∧
    (∀ (a : Kubernetes.Api) (s : Sys (Kubernetes.kubernetes u)), Reach (· = (a, ())) s →
      Serialized (Kubernetes.ledger u) Kubernetes.reporting.report (a, ()) s) :=
  ⟨fun _ _ h => Etcd.serialized h, fun _ _ h => Kubernetes.serialized h⟩

/-! ## Two updates that race -/

def website : Dex.Client := ⟨"web", "secret", [], [], false, "Web", ""⟩

def rename (name : String) (c : Dex.Client) : Outcome Dex.Client := .ok { c with name := name }

def resecret (secret : String) (c : Dex.Client) : Outcome Dex.Client := .ok { c with secret := secret }

/-- Both updates read before either writes. -/
@[irreducible] def etcdRace : Sys (Etcd.etcd asciiCase) := .after (.empty, ()) [
  .start (.createClient website), .act 0 .done, .act 0 (.other ()),
  .start (.updateClient "web" (rename "Site")), .act 1 .done, .act 1 .done, .act 1 .done,
  .start (.updateClient "web" (resecret "hidden")), .act 2 .done, .act 2 .done, .act 2 .done,
  .act 2 .done, .act 2 (.other ()), .act 1 .done, .act 1 (.other ())]

@[irreducible] def kubernetesRace : Sys (Kubernetes.kubernetes asciiCase) := .after (.empty, ()) [
  .start (.createClient website), .act 0 .done, .act 0 (.other ()),
  .start (.updateClient "web" (rename "Site")), .act 1 .done,
  .start (.updateClient "web" (resecret "hidden")), .act 2 .done,
  .act 2 .done, .act 2 (.other ()), .act 1 .done, .act 1 (.other ())]

/-- The update that read first and wrote last is the one refused; the other is on
top of the creation. -/
theorem racing_updates : (Serialized (Etcd.ledger asciiCase) Etcd.reporting.report (.empty, ()) etcdRace ∧
      ((Etcd.ledger asciiCase).log etcdRace.hist).map Prod.fst = [2, 0] ∧
      (Etcd.ledger asciiCase).view etcdRace.world .client "client/web" =
        some { website with secret := "hidden" } ∧ etcdRace.threads.all fun th => th.prog.done) ∧
    (Serialized (Kubernetes.ledger asciiCase) Kubernetes.reporting.report (.empty, ()) kubernetesRace ∧
      ((Kubernetes.ledger asciiCase).log kubernetesRace.hist).map Prod.fst = [2, 0] ∧
      (Kubernetes.ledger asciiCase).view kubernetesRace.world .client (Kubernetes.idToName "web") =
        some { website with secret := "hidden" } ∧ kubernetesRace.threads.all fun th => th.prog.done) := by
  obtain ⟨hetcd, hkube⟩ := no_lost_update asciiCase
  refine ⟨⟨hetcd _ _ ?_, by decide +kernel⟩, hkube _ _ ?_, by decide +kernel⟩
  · unfold etcdRace
    exact .after_self _ _
  · unfold kubernetesRace
    exact .after_self _ _

end KubeYamls.Store
