import ChangeReport.Assoc
import ChangeReport.Number.Binary64

/-! Documents: the structured values that manifests are made of. A number keeps the kind
it was written with, and the fields of an object are sorted by name. -/
namespace ChangeReport

inductive Number where
  | int (value : Int)
  | float (value : Binary64)
deriving DecidableEq, Repr

/-- Numbers of different kinds differ, whatever their value. -/
def Number.same : Number → Number → Bool
  | .int a, .int b => a == b
  | .float a, .float b => a.same b
  | _, _ => false

inductive Document where
  | null
  | bool (value : Bool)
  | number (value : Number)
  | string (value : String)
  | array (items : List Document)
  | object (fields : List (String × Document))
deriving Repr, Inhabited

namespace Document

def field? (name : String) : Document → Option Document
  | .object fields => Assoc.find? name fields
  | _ => none

def text? : Document → Option String
  | .string s => some s
  | _ => none

def items? : Document → Option (List Document)
  | .array items => some items
  | _ => none

def isObject : Document → Bool
  | .object _ => true
  | _ => false

def mapFields (f : List (String × Document) → List (String × Document)) : Document → Document
  | .object fields => .object (f fields)
  | d => d

def mapField (name : String) (f : Document → Document) (d : Document) : Document :=
  match d.field? name with
  | some v => d.mapFields (Assoc.insert name (f v))
  | none => d

mutual
/-- Equality of documents, numbers compared by kind and value. -/
def same : Document → Document → Bool
  | .null, .null => true
  | .bool a, .bool b => a == b
  | .number a, .number b => a.same b
  | .string a, .string b => a == b
  | .array a, .array b => sameItems a b
  | .object a, .object b => sameFields a b
  | _, _ => false

def sameItems : List Document → List Document → Bool
  | [], [] => true
  | a :: as, b :: bs => same a b && sameItems as bs
  | _, _ => false

def sameFields : List (String × Document) → List (String × Document) → Bool
  | [], [] => true
  | (k, a) :: as, (l, b) :: bs => k == l && same a b && sameFields as bs
  | _, _ => false
end

end Document

theorem Number.same_self (n : Number) : n.same n = true := by
  cases n with
  | int a => simp [Number.same]
  | float x => exact x.same_self

theorem Number.same_comm (m n : Number) : m.same n = n.same m := by
  cases m with
  | int a =>
      cases n with
      | int b => exact Bool.beq_comm
      | float y => rfl
  | float x =>
      cases n with
      | int b => rfl
      | float y => exact x.same_comm y

theorem Number.same_trans {l m n : Number} (hlm : l.same m = true) (hmn : m.same n = true) :
    l.same n = true := by
  cases l with
  | int a =>
      cases m with
      | int b =>
          obtain rfl : a = b := by simpa [Number.same] using hlm
          exact hmn
      | float y => cases hlm
  | float x =>
      cases m with
      | int b => cases hlm
      | float y =>
          cases n with
          | int c => cases hmn
          | float z => exact Binary64.same_trans hlm hmn

namespace Document

mutual
theorem same_self : (d : Document) → d.same d = true
  | .null => rfl
  | .bool _ => by simp [same]
  | .number n => by simpa [same] using n.same_self
  | .string _ => by simp [same]
  | .array items => by simpa [same] using sameItems_self items
  | .object fields => by simpa [same] using sameFields_self fields

theorem sameItems_self : (items : List Document) → sameItems items items = true
  | [] => rfl
  | d :: rest => by simp [sameItems, same_self d, sameItems_self rest]

theorem sameFields_self : (fields : List (String × Document)) → sameFields fields fields = true
  | [] => rfl
  | (_, d) :: rest => by simp [sameFields, same_self d, sameFields_self rest]
end

end Document
end ChangeReport
