import ChangeReport.Tree

/-! Records: objects read by the names of their fields. A record may also be written as an
array of its fields in order. -/
namespace ChangeReport

/-- What a record says about one of its fields: a value, nothing, or nothing because its
array ends before it. -/
inductive Slot where
  | value (t : Tree)
  | absent
  | beyond

structure Record where
  slots : List (String × Slot)

namespace Record

/-- The only member of a name; none is fine, several are not. -/
def member? (name : String) (members : List (Option String × Tree)) : Option Slot :=
  match members.filter fun m => m.1 = some name with
  | [] => some .absent
  | [(_, t)] => some (.value t)
  | _ => none

def positional : List String → List Tree → List (String × Slot)
  | [], _ => []
  | name :: names, [] => (name, .beyond) :: positional names []
  | name :: names, t :: ts => (name, .value t) :: positional names ts

/-- Reads the fields of the given names. Other members of an object are passed over, but
an array has no other items unless `loose`. -/
def read? (names : List String) (loose : Bool) : Tree → Option Record
  | .object members =>
      if members.any fun m => m.1.isNone then none
      else (names.mapM fun name => (member? name members).map fun s => (name, s)).map Record.mk
  | .array items =>
      if !loose && names.length < items.length then none else some ⟨positional names items⟩
  | _ => none

def slot (r : Record) (name : String) : Slot := (r.slots.lookup name).getD .absent

def required {α : Type} (r : Record) (name : String) (read : Tree → Option α) : Option α :=
  match r.slot name with
  | .value t => read t
  | _ => none

def orElse {α : Type} (r : Record) (name : String) (default : α) (read : Tree → Option α) : Option α :=
  match r.slot name with
  | .value t => read t
  | _ => some default

/-- A field that may be null or left out of an object. -/
def optional {α : Type} (r : Record) (name : String) (read : Tree → Option α) : Option (Option α) :=
  match r.slot name with
  | .value .null => some none
  | .value t => (read t).map some
  | .absent => some none
  | .beyond => none

end Record

namespace Tree

def text? : Tree → Option String
  | .string s => s
  | _ => none

def bool? : Tree → Option Bool
  | .bool b => some b
  | _ => none

def natBelow? (limit : Nat) : Tree → Option Nat
  | .number (some (.int n)) => if 0 ≤ n ∧ n < limit then some n.toNat else none
  | _ => none

def listOf? {α : Type} (read : Tree → Option α) : Tree → Option (List α)
  | .array items => items.mapM read
  | _ => none

def nullable {α : Type} (read : Tree → Option α) : Tree → Option (Option α)
  | .null => some none
  | t => (read t).map some

end Tree
end ChangeReport
