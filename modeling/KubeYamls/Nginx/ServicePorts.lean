import KubeYamls.Nginx.Events
import KubeYamls.Data.Sorting
import Mathlib.Data.Multiset.Defs
import Mathlib.Data.Prod.Lex

/-! # Changes of ports

When a service is updated, the ports before and after are sorted and compared one by one,
by their names and numbers. Here this is done to any two lists of ports, with any sort
that `Less` of `portSort` allows; the model of the handler sorts by insertion. -/
namespace KubeYamls.Nginx
open Data List

/-- `portSort.Less` -/
def portLess (a b : ServicePort) : Bool := if a.name = b.name then a.port < b.port else a.name < b.name

/-- `hasServicePortChanges`, with what `sort.Sort` makes of the one list and of the other. -/
def hasServicePortChangesBy (sortOld sortCur : Sorter portLess) (oldServicePorts curServicePorts : List ServicePort) : Bool :=
  if oldServicePorts.length ≠ curServicePorts.length then true
  else ((sortOld.sort oldServicePorts).zip (sortCur.sort curServicePorts)).any fun p =>
    p.1.port ≠ p.2.port || p.1.name ≠ p.2.name

def namedPort (p : ServicePort) : String × Int := (p.name, p.port)

section order
variable {a b : ServicePort}

theorem portLess_iff (a b : ServicePort) : portLess a b = true ↔ toLex (namedPort a) < toLex (namedPort b) := by
  rw [Prod.Lex.toLex_lt_toLex]
  unfold portLess namedPort
  by_cases hname : a.name = b.name <;> simp [hname]

theorem portLe_iff : portLe a b ↔ toLex (namedPort a) ≤ toLex (namedPort b) := by
  rw [Prod.Lex.toLex_le_toLex]
  unfold portLe namedPort
  by_cases hname : a.name = b.name
  · simp [hname]
  · simp [hname, le_iff_lt_or_eq]

instance : IsTrans ServicePort portLe := ⟨fun _ _ _ hab hbc => portLe_iff.mpr ((portLe_iff.mp hab).trans (portLe_iff.mp hbc))⟩

instance : Std.Total portLe := ⟨fun a b => by simpa only [portLe_iff] using le_total _ _⟩

end order

/-- The sort that stands in the model for the one of the library. -/
def insertionSorter : Sorter portLess where
  sort l := l.insertionSort portLe
  perm l := perm_insertionSort portLe l
  sorted l := by
    refine (pairwise_insertionSort portLe l).isChain.imp fun a b h => ?_
    rw [Bool.eq_false_iff, ne_eq, portLess_iff, not_lt]
    exact portLe_iff.mp h

theorem any_zip_eq_false_iff {l m : List ServicePort} (h : l.length = m.length) :
    ((l.zip m).any fun p => p.1.port ≠ p.2.port || p.1.name ≠ p.2.name) = false ↔ l.map namedPort = m.map namedPort := by
  induction l generalizing m with
  | nil =>
    obtain rfl := length_eq_zero_iff.mp h.symm
    simp
  | cons a l ih =>
    cases m with
    | nil => cases h
    | cons b m =>
      rw [zip_cons_cons, any_cons, Bool.or_eq_false_iff, ih (Nat.succ.inj h)]
      simp [namedPort, and_comm]

theorem hasServicePortChanges_eq (old cur : Service) :
    hasServicePortChanges old cur = hasServicePortChangesBy insertionSorter insertionSorter old.ports cur.ports := by
  unfold hasServicePortChanges hasServicePortChangesBy
  by_cases hlength : old.ports.length = cur.ports.length
  · have hsorted : (insertionSorter.sort old.ports).length = (insertionSorter.sort cur.ports).length := by
      rw [(insertionSorter.perm _).length_eq, (insertionSorter.perm _).length_eq, hlength]
    have hswap : ∀ l : List ServicePort, (l.map fun p => (p.port, p.name)) = (l.map namedPort).map Prod.swap := by
      intro l
      rw [map_map]
      rfl
    have hcompared := any_zip_eq_false_iff hsorted
    rw [← (map_injective_iff.mpr Prod.swap_injective).eq_iff, ← hswap, ← hswap] at hcompared
    simp only [hlength, ne_eq, not_true_eq_false, decide_false, Bool.false_or, if_false]
    rw [Bool.eq_iff_iff, ← not_iff_not, Bool.not_eq_true, Bool.not_eq_true, hcompared, decide_eq_false_iff_not, not_not]
    rfl
  · simp [hlength]

/-- Whatever the sort does with ports that are equal by name and number, a change is seen exactly if the ports
differ as multisets. -/
theorem hasServicePortChangesBy_eq_false_iff (sortOld sortCur : Sorter portLess) (a b : List ServicePort) :
    hasServicePortChangesBy sortOld sortCur a b = false ↔
      (a.map namedPort : Multiset (String × Int)) = (b.map namedPort : Multiset (String × Int)) := by
  rw [Multiset.coe_eq_coe]
  unfold hasServicePortChangesBy
  split
  · next hlength =>
    refine iff_of_false nofun fun hperm => hlength ?_
    simpa using hperm.length_eq
  · next hlength =>
    have hsorted : (sortOld.sort a).length = (sortCur.sort b).length := by
      rw [(sortOld.perm a).length_eq, (sortCur.perm b).length_eq]
      exact not_not.mp hlength
    rw [any_zip_eq_false_iff hsorted]
    exact Sorter.map_key_eq_iff portLess_iff sortOld sortCur a b

end KubeYamls.Nginx
