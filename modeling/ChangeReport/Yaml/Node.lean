import ChangeReport.Yaml.Token

/-! The nodes of a YAML document, built from tokens by recursive descent. A node that is
left out is an empty plain scalar. -/
namespace ChangeReport.Yaml

/-- The mark that a node can be repeated by, and its tag with the handle replaced. -/
structure Properties (ρ : Type) where
  anchor : Option ρ
  tag : Option (List Nat)
deriving DecidableEq, Repr

def Properties.bare {ρ : Type} : Properties ρ := ⟨none, none⟩

/-- A node whose anchors and aliases are marks in `ρ`. -/
inductive Node (ρ : Type) where
  | alias (target : ρ)
  | scalar (props : Properties ρ) (plain : Bool) (text : List Char)
  | sequence (props : Properties ρ) (items : List (Node ρ))
  | mapping (props : Properties ρ) (fields : List (Node ρ × Node ρ))

/-- A node as written, with names as marks. -/
abbrev Written := Node (List Char)

namespace Node

def empty (props : Properties (List Char)) : Written := .scalar props true []

abbrev Handles := List (List Char × List Nat)

def defaultHandles : Handles :=
  [(['!'], Text.toBytes ['!']), (['!', '!'], Text.toBytes "tag:yaml.org,2002:".toList)]

/-- The tag that a handle and a suffix spell; the empty handle spells the suffix itself.
-/
def resolveTag? (handles : Handles) (handle : List Char) (suffix : List Nat) : Option (List Nat) :=
  if handle.isEmpty then some suffix else (handles.lookup handle).map (· ++ suffix)

/-- An anchor and a tag in front of a node, in either order. -/
def properties? (handles : Handles) : List Token → Option (Properties (List Char) × List Token)
  | .anchor a :: .tag h s :: rest => do return (⟨some a, some (← resolveTag? handles h s)⟩, rest)
  | .anchor a :: rest => some (⟨some a, none⟩, rest)
  | .tag h s :: .anchor a :: rest => do return (⟨some a, some (← resolveTag? handles h s)⟩, rest)
  | .tag h s :: rest => do return (⟨none, some (← resolveTag? handles h s)⟩, rest)
  | rest => some (.bare, rest)

/-- Whether a node is left out before this token, in a mapping of lines and in sequences
of both kinds. -/
def endsField (t : Token) : Bool := t == .key || t == .value || t == .blockEnd

def endsItem (t : Token) : Bool := t == .blockEntry || t == .blockEnd

def endsLooseItem (t : Token) : Bool := t == .blockEntry || endsField t

def endsFlow (close : Token) (t : Token) : Bool := t == .flowEntry || t == close

mutual
/-- A node. `inLines` allows collections of lines, and `loose` a sequence that is not
indented under its key. -/
def parse (handles : Handles) (inLines loose : Bool) : Nat → List Token → Option (Written × List Token)
  | 0, _ => none
  | _ + 1, .alias name :: rest => some (.alias name, rest)
  | fuel + 1, ts => do
      let (props, rest) ← properties? handles ts
      match rest with
      | .blockEntry :: _ =>
          if loose then do
            let (items, rest) ← looseItems handles fuel rest
            return (.sequence props items, rest)
          else if props = .bare then none else return (empty props, rest)
      | .scalar plain text :: rest => return (.scalar props plain text, rest)
      | .flowSequenceStart :: rest => do
          let (items, rest) ← flowItems handles true fuel rest
          return (.sequence props items, rest)
      | .flowMappingStart :: rest => do
          let (fields, rest) ← flowFields handles true fuel rest
          return (.mapping props fields, rest)
      | .blockSequenceStart :: rest =>
          if inLines then do
            let (items, rest) ← blockItems handles fuel rest
            return (.sequence props items, rest)
          else if props = .bare then none else return (empty props, .blockSequenceStart :: rest)
      | .blockMappingStart :: rest =>
          if inLines then do
            let (fields, rest) ← blockFields handles fuel rest
            return (.mapping props fields, rest)
          else if props = .bare then none else return (empty props, .blockMappingStart :: rest)
      | rest => if props = .bare then none else return (empty props, rest)

/-- A node, or an empty one when it is left out before a token of `ends`. -/
def parseUnless (handles : Handles) (inLines loose : Bool) (ends : Token → Bool) :
    Nat → List Token → Option (Written × List Token)
  | 0, _ => none
  | _ + 1, [] => none
  | fuel + 1, t :: rest =>
      if ends t then some (empty .bare, t :: rest) else parse handles inLines loose fuel (t :: rest)

def blockItems (handles : Handles) : Nat → List Token → Option (List Written × List Token)
  | 0, _ => none
  | fuel + 1, .blockEntry :: rest => do
      let (item, rest) ← parseUnless handles true false endsItem fuel rest
      let (items, rest) ← blockItems handles fuel rest
      return (item :: items, rest)
  | _ + 1, .blockEnd :: rest => some ([], rest)
  | _ + 1, _ => none

def looseItems (handles : Handles) : Nat → List Token → Option (List Written × List Token)
  | 0, _ => none
  | fuel + 1, .blockEntry :: rest => do
      let (item, rest) ← parseUnless handles true false endsLooseItem fuel rest
      let (items, rest) ← looseItems handles fuel rest
      return (item :: items, rest)
  | _ + 1, rest => some ([], rest)

def blockFields (handles : Handles) : Nat → List Token → Option (List (Written × Written) × List Token)
  | 0, _ => none
  | fuel + 1, .key :: rest => do
      let (k, rest) ← parseUnless handles true true endsField fuel rest
      let (v, rest) ← blockValue handles fuel rest
      let (fields, rest) ← blockFields handles fuel rest
      return ((k, v) :: fields, rest)
  | _ + 1, .blockEnd :: rest => some ([], rest)
  | _ + 1, _ => none

def blockValue (handles : Handles) : Nat → List Token → Option (Written × List Token)
  | 0, _ => none
  | fuel + 1, .value :: rest => parseUnless handles true true endsField fuel rest
  | _ + 1, rest => some (empty .bare, rest)

/-- The items of a sequence in brackets; all but the first one stand behind a comma. -/
def flowItems (handles : Handles) (first : Bool) : Nat → List Token → Option (List Written × List Token)
  | 0, _ => none
  | _ + 1, .flowSequenceEnd :: rest => some ([], rest)
  | fuel + 1, ts => do
      let ts ← if first then some ts else match ts with
        | .flowEntry :: rest => some rest
        | _ => none
      match ts with
      | .flowSequenceEnd :: rest => return ([], rest)
      | .key :: rest => do
          let (k, rest) ← pairKey handles fuel rest
          let (v, rest) ← flowValue handles .flowSequenceEnd fuel rest
          let (items, rest) ← flowItems handles false fuel rest
          return (.mapping .bare [(k, v)] :: items, rest)
      | ts => do
          let (item, rest) ← parse handles false false fuel ts
          let (items, rest) ← flowItems handles false fuel rest
          return (item :: items, rest)

/-- The key of a single pair in a sequence. A token that shows that the key is left out is
passed over. -/
def pairKey (handles : Handles) : Nat → List Token → Option (Written × List Token)
  | 0, _ => none
  | _ + 1, [] => none
  | fuel + 1, t :: rest =>
      if t = .value ∨ endsFlow .flowSequenceEnd t then some (empty .bare, rest)
      else parse handles false false fuel (t :: rest)

def flowFields (handles : Handles) (first : Bool) :
    Nat → List Token → Option (List (Written × Written) × List Token)
  | 0, _ => none
  | _ + 1, .flowMappingEnd :: rest => some ([], rest)
  | fuel + 1, ts => do
      let ts ← if first then some ts else match ts with
        | .flowEntry :: rest => some rest
        | _ => none
      match ts with
      | .flowMappingEnd :: rest => return ([], rest)
      | .key :: rest => do
          let (k, rest) ← parseUnless handles false false
            (fun t => t == .value || endsFlow .flowMappingEnd t) fuel rest
          let (v, rest) ← flowValue handles .flowMappingEnd fuel rest
          let (fields, rest) ← flowFields handles false fuel rest
          return ((k, v) :: fields, rest)
      | ts => do
          let (k, rest) ← parse handles false false fuel ts
          let (fields, rest) ← flowFields handles false fuel rest
          return ((k, empty .bare) :: fields, rest)

/-- The value of a field in brackets, empty when it is left out. -/
def flowValue (handles : Handles) (close : Token) : Nat → List Token → Option (Written × List Token)
  | 0, _ => none
  | fuel + 1, .value :: rest => parseUnless handles false false (endsFlow close) fuel rest
  | _ + 1, rest => some (empty .bare, rest)
end

def isDirective : Token → Bool
  | .version _ _ => true
  | .tagHandle _ _ => true
  | _ => false

def knownVersions : List (Nat × Nat) := [(1, 1), (1, 2)]

/-- The handles that directives in front of a document give. Each directive may stand
there once. -/
def directives? (versioned : Bool) (handles : Handles) : List Token → Option (Handles × List Token)
  | .version major minor :: rest =>
      if versioned || !knownVersions.contains (major, minor) then none else directives? true handles rest
  | .tagHandle h stem :: rest =>
      if (handles.lookup h).isSome then none else directives? versioned (handles ++ [(h, stem)]) rest
  | rest => some (handles ++ defaultHandles, rest)

def endsDocument (t : Token) : Bool :=
  isDirective t || t == .documentStart || t == .documentEnd || t == .streamEnd

/-- The documents of a stream. The first one needs no mark of its start. -/
def documents? (first : Bool) : Nat → List Token → Option (List Written)
  | 0, _ => none
  | fuel + 1, ts => do
      let ts := if first then ts else ts.dropWhile (· == .documentEnd)
      match ts with
      | [] => none
      | .streamEnd :: _ => return []
      | t :: rest =>
          let size := 3 * (rest.length + 2)
          let (node, rest) ←
            if first && !isDirective t && t != .documentStart then
              parse defaultHandles true false size (t :: rest)
            else do
              let (handles, rest) ← directives? false [] (t :: rest)
              match rest with
              | .documentStart :: rest => parseUnless handles true false endsDocument size rest
              | _ => none
          let rest := match rest with
            | .documentEnd :: more => more
            | _ => rest
          return node :: (← documents? false fuel rest)

def ofTokens? (ts : List Token) : Option (List Written) := documents? true (ts.length + 1) ts

end Node
end ChangeReport.Yaml
