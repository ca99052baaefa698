import Mathlib.Data.List.Basic

/-! # Element trees and struct decoding

XML as a tree with resolved name spaces, and the decoding of an element into a
record the way Go's `encoding/xml` does it: the record's own name is checked,
attributes and child elements are given to the fields of their local name in the
order of the document, and the character data of the element is collected. -/
namespace KubeYamls.Data.Xml
open List

structure Attr where
  space : String
  tag : String
  value : String

mutual

/-- `declared` is false if the prefix of the element is not in scope, or if the
element declares a reserved one. -/
inductive Element where
  | mk (declared : Bool) (space tag : String) (attrs : List Attr) (children : List Node)

inductive Node where
  | elem (e : Element)
  | text (data : String)
  /-- comments, processing instructions and directives -/
  | other

end

/-- What is at the top level of a document, the root element among it. -/
abbrev Document := List Node

def Node.element? : Node → Option Element
  | .elem e => some e
  | _ => none

def Node.charData : Node → String
  | .text data => data
  | _ => ""

namespace Element

def space : Element → String
  | .mk _ space _ _ _ => space

def tag : Element → String
  | .mk _ _ tag _ _ => tag

def attrs : Element → List Attr
  | .mk _ _ _ attrs _ => attrs

def children : Element → List Node
  | .mk _ _ _ _ children => children

def childElements (e : Element) : List Element := e.children.filterMap Node.element?

def charData (e : Element) : String := String.join (e.children.map Node.charData)

/-- The child elements are taken out, and one is put in. -/
def onlyChild : Element → Element → Element
  | .mk declared space tag attrs children, child =>
    .mk declared space tag attrs ((children.filter fun n => n.element?.isNone) ++ [.elem child])

theorem childElements_onlyChild (e child : Element) : (e.onlyChild child).childElements = [child] := by
  cases e with
  | mk declared space tag attrs children =>
    simp only [onlyChild, childElements, Element.children, filterMap_append]
    have hnone : (children.filter fun n => n.element?.isNone).filterMap Node.element? = [] := by
      refine filterMap_eq_nil_iff.mpr fun n hn => ?_
      simpa using (mem_filter.mp hn).2
    rw [hnone]
    rfl

end Element

mutual

/-- The first element of a name, depth first. -/
def Element.select (space tag : String) : Element → Except Unit (Option Element)
  | .mk declared space' tag' attrs children =>
    if declared = false then .error ()
    else if space' = space ∧ tag' = tag then .ok (some (.mk declared space' tag' attrs children))
    else selectIn space tag children

def selectIn (space tag : String) : List Node → Except Unit (Option Element)
  | [] => .ok none
  | n :: rest =>
    match n.select space tag with
    | .error () => .error ()
    | .ok (some e) => .ok (some e)
    | .ok none => selectIn space tag rest

def Node.select (space tag : String) : Node → Except Unit (Option Element)
  | .elem e => e.select space tag
  | .text _ => .ok none
  | .other => .ok none

end

namespace Document

def root : Document → Option Element
  | [] => none
  | .elem e :: _ => some e
  | .text _ :: rest => root rest
  | .other :: rest => root rest

def setRoot (e : Element) : Document → Document
  | [] => [.elem e]
  | .elem _ :: rest => .elem e :: rest
  | .text data :: rest => .text data :: setRoot e rest
  | .other :: rest => .other :: setRoot e rest

theorem root_setRoot (e : Element) (d : Document) : root (setRoot e d) = some e := by
  induction d with
  | nil => rfl
  | cons n rest ih => cases n <;> simp [setRoot, root, ih]

end Document

/-! ## Decoding -/

/-- A struct type with its tags: the name of its `XMLName`, what it does with an
attribute or a child element, and with the character data. An empty name space
stands for any. -/
structure Struct (σ : Type) where
  space : String
  tag : String
  attr : Attr → σ → Except String σ := fun _ s => .ok s
  child : Element → σ → Except String σ := fun _ s => .ok s
  charData : String → σ → σ := fun _ s => s

namespace Struct
variable {σ τ : Type} (T : Struct σ)

def checkName (e : Element) : Except String Unit :=
  if e.tag ≠ T.tag then
    .error ("expected element type <" ++ T.tag ++ "> but have <" ++ e.tag ++ ">")
  else if T.space ≠ "" ∧ e.space ≠ T.space then
    .error ("expected element <" ++ T.tag ++ "> in name space " ++ T.space ++ " but have " ++
      if e.space = "" then "no name space" else e.space)
  else .ok ()

def children (cs : List Element) (s : σ) : Except String σ := cs.foldlM (fun s c => T.child c s) s

/-- Decoding goes over the value that is there. -/
def unmarshal (e : Element) (s : σ) : Except String σ := do
  T.checkName e
  let s ← e.attrs.foldlM (fun s a => T.attr a s) s
  let s ← T.children e.childElements s
  return T.charData e.charData s

def pointer (zero : σ) (e : Element) (old : Option σ) : Except String (Option σ) :=
  some <$> T.unmarshal e (old.getD zero)

def slice (zero : σ) (e : Element) (old : List σ) : Except String (List σ) :=
  (fun x => old ++ [x]) <$> T.unmarshal e zero

end Struct

def unmarshalDocument {σ : Type} (T : Struct σ) (zero : σ) (d : Document) : Except String σ :=
  match Document.root d with
  | none => .error "EOF"
  | some e => T.unmarshal e zero

end KubeYamls.Data.Xml
