import ChangeReport.Document
import ChangeReport.Text.Utf8
import ChangeReport.Yaml.Lexer
import ChangeReport.Yaml.Node

/-! Reading YAML text into documents. Aliases are replaced by copies of their nodes, plain
scalars get their meaning, and the keys of mappings are the texts of their scalars. -/
namespace ChangeReport.Yaml

abbrev Linked := Node Nat

/-- The names of anchors met so far with their numbers. -/
abbrev Names := List (List Char × Nat)

/-- Gives an anchor the count of names before it as its number, also when its name was in
use. -/
def Names.define (names : Names) (name : List Char) : Names :=
  (name, names.length) :: names.filter fun e => e.1 != name

def Properties.link (props : Properties (List Char)) (names : Names) : Properties Nat × Names :=
  match props.anchor with
  | some name => (⟨some names.length, props.tag⟩, names.define name)
  | none => (⟨none, props.tag⟩, names)

namespace Node

mutual
/-- Numbers the anchors and aliases of a node in the order of the text. An alias whose
name is not in use is an error. -/
def link : Written → Names → Option (Linked × Names)
  | .alias name, names => (names.lookup name).map fun number => (.alias number, names)
  | .scalar props plain text, names =>
      let (props, names) := props.link names
      some (.scalar props plain text, names)
  | .sequence props items, names => do
      let (props, names) := props.link names
      let (items, names) ← linkItems items names
      return (.sequence props items, names)
  | .mapping props fields, names => do
      let (props, names) := props.link names
      let (fields, names) ← linkFields fields names
      return (.mapping props fields, names)

def linkItems : List Written → Names → Option (List Linked × Names)
  | [], names => some ([], names)
  | n :: rest, names => do
      let (n, names) ← link n names
      let (rest, names) ← linkItems rest names
      return (n :: rest, names)

def linkFields : List (Written × Written) → Names → Option (List (Linked × Linked) × Names)
  | [], names => some ([], names)
  | (k, v) :: rest, names => do
      let (k, names) ← link k names
      let (v, names) ← link v names
      let (rest, names) ← linkFields rest names
      return ((k, v) :: rest, names)
end

/-- The nodes with an anchor by its number, in the order of the text. -/
abbrev Targets := List (Nat × Linked)

def marked (props : Properties Nat) (node : Linked) : Targets :=
  match props.anchor with
  | some number => [(number, node)]
  | none => []

mutual
def targets : Linked → Targets
  | .alias _ => []
  | .scalar props plain text => marked props (.scalar props plain text)
  | .sequence props items => marked props (.sequence props items) ++ itemTargets items
  | .mapping props fields => marked props (.mapping props fields) ++ fieldTargets fields

def itemTargets : List Linked → Targets
  | [] => []
  | n :: rest => targets n ++ itemTargets rest

def fieldTargets : List (Linked × Linked) → Targets
  | [] => []
  | (k, v) :: rest => targets k ++ targets v ++ fieldTargets rest
end

mutual
/-- The size of a node: one for a scalar or an alias, two for the ends of a collection. -/
def size {ρ : Type} : Node ρ → Nat
  | .alias _ => 1
  | .scalar _ _ _ => 1
  | .sequence _ items => 2 + itemsSize items
  | .mapping _ fields => 2 + fieldsSize fields

def itemsSize {ρ : Type} : List (Node ρ) → Nat
  | [] => 0
  | n :: rest => size n + itemsSize rest

def fieldsSize {ρ : Type} : List (Node ρ × Node ρ) → Nat
  | [] => 0
  | (k, v) :: rest => size k + size v + fieldsSize rest
end

end Node

def Meaning.document? (s : String) : Meaning → Option Document
  | .null => some .null
  | .bool b => some (.bool b)
  | .int n => some (.number (.int n))
  | .wide => none
  | .float (some x) => some (.number (.float x))
  | .float none => some .null
  | .text => some (.string s)

def coreTag (name : String) : List Nat := Text.toBytes ("tag:yaml.org,2002:" ++ name).toList

/-- A local tag begins with an exclamation mark. -/
def isLocalTag (tag : List Nat) : Bool := tag.head? == some '!'.toNat

/-- The document of a scalar. The four tags of plain types demand a text of that type,
local tags are refused as far as they are text, and with any other tag a scalar is its
text. -/
def scalarDocument? (tag : Option (List Nat)) (plain : Bool) (text : List Char) : Option Document :=
  let s := String.ofList text
  let untagged := if plain then (meaning s).document? s else some (.string s)
  match tag with
  | none => untagged
  | some tag =>
      if isLocalTag tag then if (Text.ofBytes? tag).isSome then none else untagged
      else if tag = coreTag "bool" then (boolWord? s).map .bool
      else if tag = coreTag "int" then (integerMeaning? text).bind (·.document? s)
      else if tag = coreTag "float" then (float? text).bind fun x => (Meaning.float x).document? s
      else if tag = coreTag "null" then if s ∈ nullWords then some .null else none
      else some (.string s)

/-- Local tags are refused on collections, too. -/
def refusesTag (props : Properties Nat) : Bool :=
  props.tag.any fun tag => isLocalTag tag && (Text.ofBytes? tag).isSome

def maxDepth : Nat := 128

/-- Aliases are followed at most this many times for each part of a document. -/
def maxJumps : Nat := 100

/-- What is needed to follow aliases: their targets, last one first, and how many times
they may be followed. -/
structure Links where
  targets : Node.Targets
  limit : Nat

def Links.follow (links : Links) (jumps : Nat) : Linked → Option (Linked × Nat)
  | .alias number =>
      if links.limit ≤ jumps then none else (links.targets.lookup number).map fun n => (n, jumps + 1)
  | n => some (n, jumps)

def Links.keyText (links : Links) (jumps : Nat) (n : Linked) : Option (String × Nat) := do
  match ← links.follow jumps n with
  | (.scalar _ _ text, jumps) => return (String.ofList text, jumps)
  | _ => none

/-- The documents of the items of a list, in which the number of followed aliases is
carried along. -/
def collect {α β : Type} (f : Nat → α → Option (β × Nat)) : Nat → List α → Option (List β × Nat)
  | jumps, [] => some ([], jumps)
  | jumps, x :: rest => do
      let (y, jumps) ← f jumps x
      let (ys, jumps) ← collect f jumps rest
      return (y :: ys, jumps)

/-- The document of a node of bounded depth, and how many aliases have been followed. -/
def Links.document? (links : Links) : Nat → Nat → Linked → Option (Document × Nat)
  | 0, jumps, n => do
      match ← links.follow jumps n with
      | (.scalar props plain text, jumps) => return (← scalarDocument? props.tag plain text, jumps)
      | _ => none
  | depth + 1, jumps, n => do
      match ← links.follow jumps n with
      | (.scalar props plain text, jumps) => return (← scalarDocument? props.tag plain text, jumps)
      | (.sequence props items, jumps) =>
          if refusesTag props then none
          else do
            let (ds, jumps) ← collect (links.document? depth) jumps items
            return (.array ds, jumps)
      | (.mapping props fields, jumps) =>
          if refusesTag props then none
          else do
            let (entries, jumps) ← collect (fun jumps field => do
              let (k, jumps) ← links.keyText jumps field.1
              let (v, jumps) ← links.document? depth jumps field.2
              return ((k, v), jumps)) jumps fields
            return (.object (Assoc.ofList entries), jumps)
      | (.alias _, _) => none

def Written.document? (n : Written) : Option Document := do
  let (linked, _) ← Node.link n []
  let links : Links := ⟨(Node.targets linked).reverse, linked.size * maxJumps⟩
  let (d, _) ← links.document? maxDepth 0 linked
  return d

/-- The documents of a text, null ones included. A fault anywhere refuses the whole text.
-/
def documents? (s : String) : Option (List Document) := do
  (← Node.ofTokens? (← tokens? s)).mapM Written.document?

end ChangeReport.Yaml
