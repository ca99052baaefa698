import KubeYamls.Nginx.Events
import Mathlib.Data.Set.Function

/-! # One object does not touch another's files

What the Configurator keeps for an ingress or a secret goes by a file name that
joins namespace and name with a dash, which both may contain. Among objects
whose file names differ, no operation touches what belongs to another object;
and this is the only case. -/
namespace KubeYamls.Nginx
open Data Configurator AList List

/-- An object the Configurator keeps something for. -/
inductive Obj where
  | ingress (m : ObjectMeta)
  | secret (m : ObjectMeta)
deriving DecidableEq

inductive Operation where
  | addOrUpdateIngress (ingEx : IngressEx)
  | addOrUpdateMergeableIngress (m : MergeableIngresses)
  | deleteIngress (objectMeta : ObjectMeta)
  | addOrUpdateSecret (secret : Secret) (ingExes : List IngressEx) (mergeable : List MergeableIngresses)
  | deleteSecret (objectMeta : ObjectMeta) (ingExes : List IngressEx)
      (mergeable : List MergeableIngresses)

/-- The state after an operation, which may have failed. -/
def Operation.run (host : Host) (cnf : Configurator) : Operation → Configurator
  | .addOrUpdateIngress ingEx => (cnf.addOrUpdateIngressAndReload host ingEx).1
  | .addOrUpdateMergeableIngress m => (cnf.addOrUpdateMergeableIngressAndReload host m).1
  | .deleteIngress m => (cnf.deleteIngress host m.key).1
  | .addOrUpdateSecret secret ingExes mergeable =>
    (cnf.addOrUpdateSecret host secret (resources ingExes mergeable)).1
  | .deleteSecret m ingExes mergeable =>
    (cnf.deleteSecret host m.key (resources ingExes mergeable)).1

def Resource.objects (isPlus : Bool) (r : Resource) : List Obj :=
  .ingress r.objectMeta :: (r.writtenSecrets isPlus).map fun secret => .secret secret.objectMeta

def Operation.objects (isPlus : Bool) : Operation → List Obj
  | .addOrUpdateIngress ingEx => (Resource.ingress ingEx).objects isPlus
  | .addOrUpdateMergeableIngress m => (Resource.mergeable m).objects isPlus
  | .deleteIngress m => [.ingress m]
  | .addOrUpdateSecret secret ingExes mergeable =>
    .secret secret.objectMeta :: (resources ingExes mergeable).flatMap (·.objects isPlus)
  | .deleteSecret m ingExes mergeable =>
    .secret m :: (resources ingExes mergeable).flatMap (·.objects isPlus)

/-- What belongs to an object is the same in two states. -/
def Untouched (before after : Configurator) : Obj → Prop
  | .ingress m =>
    after.confd.lookup (getIngressNginxConfigFileName m.fileName) =
      before.confd.lookup (getIngressNginxConfigFileName m.fileName) ∧
    after.ingresses.lookup m.fileName = before.ingresses.lookup m.fileName ∧
    after.minions.lookup m.fileName = before.minions.lookup m.fileName
  | .secret m =>
    after.secretFiles.lookup (getSecretFileName m.fileName) =
      before.secretFiles.lookup (getSecretFileName m.fileName)

/-- Among some objects, operations touch what belongs to the objects they are about only. -/
def Isolated (U : Set Obj) : Prop :=
  ∀ (host : Host) (cnf : Configurator) (op : Operation), (∀ x ∈ op.objects host.isPlus, x ∈ U) →
    ∀ x ∈ U, x ∉ op.objects host.isPlus → Untouched cnf (op.run host cnf) x

namespace Untouched
variable {host : Host} {cnf cnf1 cnf2 : Configurator} {x : Obj}

theorem refl : Untouched cnf cnf x := by
  cases x <;> simp [Untouched]

theorem trans (h1 : Untouched cnf cnf1 x) (h2 : Untouched cnf1 cnf2 x) : Untouched cnf cnf2 x := by
  cases x with
  | ingress m => exact ⟨h2.1.trans h1.1, h2.2.1.trans h1.2.1, h2.2.2.trans h1.2.2⟩
  | secret m => exact Eq.trans h2 h1

theorem putSecrets {m : ObjectMeta} {secrets : List Secret}
    (h : ∀ secret ∈ secrets, m.fileName ≠ secret.objectMeta.fileName) (files : Table String SecretFile) :
    (secrets.foldl (putSecret host) files).lookup (getSecretFileName m.fileName) =
      files.lookup (getSecretFileName m.fileName) := by
  obtain ⟨secret, hsecret, hfile, _⟩ | ⟨_, hsame⟩ := Table.lookup_foldl_insert
    (fun secret : Secret => getSecretFileName secret.objectMeta.fileName) (secretFile host) secrets
    files (getSecretFileName m.fileName)
  · exact absurd (getSecretFileName_inj.mp hfile).symm (h secret hsecret)
  · exact hsame

variable {U : Set Obj}

/-- File names tell the objects of a set apart. -/
structure Apart (U : Set Obj) : Prop where
  ingress : Set.InjOn ObjectMeta.fileName (Set.preimage Obj.ingress U)
  secret : Set.InjOn ObjectMeta.fileName (Set.preimage Obj.secret U)

theorem Apart.ne_ingress (hU : Apart U) {m m'} (hm : .ingress m ∈ U) (hm' : .ingress m' ∈ U)
    (h : Obj.ingress m ≠ .ingress m') : m.fileName ≠ m'.fileName :=
  fun he => h (congrArg _ (hU.ingress hm hm' he))

theorem Apart.ne_secret (hU : Apart U) {m m'} (hm : .secret m ∈ U) (hm' : .secret m' ∈ U)
    (h : Obj.secret m ≠ .secret m') : m.fileName ≠ m'.fileName :=
  fun he => h (congrArg _ (hU.secret hm hm' he))

theorem writeSecrets (hU : Apart U) {secrets : List Secret}
    (hsecrets : ∀ secret ∈ secrets, .secret secret.objectMeta ∈ U) (hx : x ∈ U)
    (hnot : ∀ secret ∈ secrets, x ≠ .secret secret.objectMeta) :
    Untouched cnf (cnf.writeSecrets host secrets) x := by
  cases x with
  | ingress m => exact ⟨rfl, rfl, rfl⟩
  | secret m =>
    exact putSecrets (fun s hs => hU.ne_secret hx (hsecrets s hs) (hnot s hs)) cnf.secretFiles

theorem regenerate (hU : Apart U) {r} (hr : ∀ y ∈ r.objects host.isPlus, y ∈ U) (hx : x ∈ U)
    (hnot : x ∉ r.objects host.isPlus) : Untouched cnf (cnf.regenerate host r).1 x := by
  have hsecret : ∀ s ∈ r.writtenSecrets host.isPlus, Obj.secret s.objectMeta ∈ r.objects host.isPlus :=
    fun s hs => mem_cons_of_mem _ (mem_map_of_mem hs)
  have hwrite : Untouched cnf (cnf.writeSecrets host (r.writtenSecrets host.isPlus)) x :=
    writeSecrets hU (fun s hs => hr _ (hsecret s hs)) hx fun s hs he => hnot (he ▸ hsecret s hs)
  obtain ⟨err, -, h⟩ | ⟨content, -, h⟩ := regenerate_cases host cnf r <;> rw [h]
  · cases x <;> exact hwrite
  · cases x with
    | secret m => exact hwrite
    | ingress m =>
      have hne : m.fileName ≠ r.name :=
        hU.ne_ingress hx (hr _ mem_cons_self) fun he => hnot (he ▸ mem_cons_self)
      refine ⟨lookup_insert_ne (mt getIngressNginxConfigFileName_inj.mp hne), lookup_insert_ne hne, ?_⟩
      cases r with
      | ingress ingEx => rfl
      | mergeable m => exact lookup_insert_ne hne

theorem regenerateAll (hU : Apart U) {rs describe}
    (hrs : ∀ y ∈ rs.flatMap (·.objects host.isPlus), y ∈ U) (hx : x ∈ U)
    (hnot : x ∉ rs.flatMap (·.objects host.isPlus)) : Untouched cnf (regenerateAll host describe cnf rs).1 x := by
  refine regenerateAll_keeps (I := fun cnf' => Untouched cnf cnf' x) refl ?_
  intro cnf' r hr h
  exact h.trans (regenerate hU (fun y hy => hrs y (mem_flatMap_of_mem hr hy)) hx
    fun hm => hnot (mem_flatMap_of_mem hr hm))

theorem version (hsame : SameButVersion cnf2 cnf1) (h : Untouched cnf cnf1 x) : Untouched cnf cnf2 x := by
  obtain ⟨v, rfl⟩ := hsame
  cases x <;> exact h

theorem run (hU : Apart U) {op : Operation} (hop : ∀ y ∈ op.objects host.isPlus, y ∈ U) (hx : x ∈ U)
    (hnot : x ∉ op.objects host.isPlus) : Untouched cnf (op.run host cnf) x := by
  cases op with
  | addOrUpdateIngress ingEx =>
    exact version (addOrUpdateIngressAndReload_same host cnf ingEx)
      (regenerate hU hop hx hnot)
  | addOrUpdateMergeableIngress m =>
    exact version (addOrUpdateMergeableIngressAndReload_same host cnf m)
      (regenerate hU hop hx hnot)
  | deleteIngress m' =>
    cases x with
    | secret m => exact rfl
    | ingress m =>
      have hne := hU.ne_ingress hx (hop _ mem_cons_self) fun he => hnot (he ▸ mem_cons_self)
      simp only [Operation.run, deleteIngress, keyToFileName_key]
      exact ⟨lookup_erase_ne (mt getIngressNginxConfigFileName_inj.mp hne),
        lookup_erase_ne hne, lookup_erase_ne hne⟩
  | addOrUpdateSecret secret ingExes mergeable =>
    obtain ⟨hne, hrs⟩ := not_or.mp (mt mem_cons.mpr hnot)
    have hwrite : Untouched cnf (cnf.writeSecrets host [secret]) x :=
      writeSecrets hU (fun s hs => by
        obtain rfl := mem_singleton.mp hs
        exact hop _ mem_cons_self) hx (by simpa using hne)
    by_cases hjwk : host.isPlus ∧ (getSecretKind secret).1 = .jwk
    · simpa only [Operation.run, addOrUpdateSecret, if_pos hjwk] using hwrite
    · exact version (addOrUpdateSecret_same cnf _ hjwk) (hwrite.trans
        (regenerateAll hU (fun y hy => hop y (mem_cons_of_mem _ hy)) hx hrs))
  | deleteSecret m' ingExes mergeable =>
    obtain ⟨hne, hrs⟩ := not_or.mp (mt mem_cons.mpr hnot)
    have hremove : Untouched cnf (cnf.removeSecretFile (keyToFileName m'.key)) x := by
      cases x with
      | ingress m => exact ⟨rfl, rfl, rfl⟩
      | secret m =>
        have hfile := hU.ne_secret hx (hop _ mem_cons_self) hne
        rw [keyToFileName_key]
        exact lookup_erase_ne (mt getSecretFileName_inj.mp hfile)
    exact version (deleteSecret_same host cnf m'.key _) (hremove.trans
      (regenerateAll hU (fun y hy => hop y (mem_cons_of_mem _ hy)) hx hrs))

end Untouched

theorem Isolated.ingress {U} (h : Isolated U) : Set.InjOn ObjectMeta.fileName (Set.preimage Obj.ingress U) := by
  intro m hm m' hm' hfile
  by_contra hne
  let file := getIngressNginxConfigFileName m.fileName
  let cnf : Configurator := { started.cnf with confd := started.cnf.confd.insert file "" }
  have hun := h (plainLBC false).host cnf (.deleteIngress m) (by simpa [Operation.objects] using hm)
    (.ingress m') hm' (by simp [Operation.objects, Ne.symm hne])
  have hgone := hun.1
  rw [← hfile, Operation.run, deleteIngress, keyToFileName_key] at hgone
  change (cnf.confd.erase file).lookup file = cnf.confd.lookup file at hgone
  rw [lookup_erase, lookup_insert] at hgone
  cases hgone

theorem Isolated.secret {U} (h : Isolated U) : Set.InjOn ObjectMeta.fileName (Set.preimage Obj.secret U) := by
  intro m hm m' hm' hfile
  by_contra hne
  let file := getSecretFileName m.fileName
  let cnf : Configurator := { started.cnf with secretFiles := started.cnf.secretFiles.insert file ⟨[], 0⟩ }
  have hun := h (plainLBC false).host cnf (.deleteSecret m [] []) (by
    simpa [Operation.objects, resources] using hm)
    (.secret m') hm' (by simp [Operation.objects, resources, Ne.symm hne])
  rw [Untouched, ← hfile, Operation.run, deleteSecret, keyToFileName_key] at hun
  change (cnf.secretFiles.erase file).lookup file = cnf.secretFiles.lookup file at hun
  rw [lookup_erase, lookup_insert] at hun
  cases hun

/-- Objects are isolated from each other exactly if their file names differ, those of the
ingresses and those of the secrets. -/
theorem isolated_iff (U : Set Obj) : Isolated U ↔ Set.InjOn ObjectMeta.fileName (Set.preimage Obj.ingress U) ∧
      Set.InjOn ObjectMeta.fileName (Set.preimage Obj.secret U) := by
  constructor
  · intro h
    exact ⟨h.ingress, h.secret⟩
  · intro ⟨hing, hsec⟩ host cnf op hop x hx hnot
    exact Untouched.run ⟨hing, hsec⟩ hop hx hnot

/-- The namespaces "a-b" and "a" with an ingress and a secret each: deleting the ingress "c" of
the one deletes the configuration of the ingress "b-c" of the other, and the secret "c" of the
one is written over the secret "b-c" of the other. -/
theorem not_isolated : let host := (plainLBC false).host
    let m : ObjectMeta := ⟨"a-b", "c", by decide, by decide⟩
    let m' : ObjectMeta := ⟨"a", "b-c", by decide, by decide⟩
    m ≠ m' ∧ (∃ cnf, ¬Untouched cnf ((Operation.deleteIngress m).run host cnf) (.ingress m')) ∧
    (∃ cnf, ¬Untouched cnf ((Operation.addOrUpdateSecret ⟨m, [("tls.crt", [1]), ("tls.key", [2])]⟩ [] []).run host cnf)
      (.secret m')) := by
  refine ⟨by decide, ⟨{ started.cnf with
      confd := started.cnf.confd.insert (getIngressNginxConfigFileName "a-b-c") "" }, ?_⟩,
    ⟨started.cnf, ?_⟩⟩
  · intro h
    exact absurd (congrArg Option.isSome h.1) (by decide +kernel)
  · intro h
    exact absurd (congrArg Option.isSome h) (by decide +kernel)

end KubeYamls.Nginx
