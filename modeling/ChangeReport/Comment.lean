import ChangeReport.Record
import ChangeReport.Timestamp

/-! Comments on a change request, as a host stores them. -/
namespace ChangeReport

structure ChangeRequest where
  repo : String
  number : Nat
deriving DecidableEq, Repr

def ChangeRequest.render (r : ChangeRequest) : String := r.repo ++ "#" ++ toString r.number

/-- A comment; hosts number them below `2 ^ 64`. -/
structure Comment where
  id : Nat
  author : String
  body : String
  createdAt : Option Timestamp
deriving DecidableEq, Repr

/-- A page of a listing, oldest comments first. -/
structure Page where
  comments : List Comment
  hasNext : Bool

namespace Comment

def idLimit : Nat := Nat.pow 2 64

def readId : Tree → Option Nat := Tree.natBelow? idLimit

def readTime (t : Tree) : Option Timestamp := t.text?.bind Timestamp.parse?

def ofTree? (t : Tree) : Option Comment := do
  let r ← Record.read? ["id", "author", "body", "created_at"] false t
  return ⟨← r.required "id" readId, ← r.required "author" Tree.text?, ← r.required "body" Tree.text?,
    ← r.optional "created_at" readTime⟩

end Comment
end ChangeReport
