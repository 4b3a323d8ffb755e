import ChangeReport.Host.Basic

/-! A host that keeps its comments in memory. Every comment gets an id above all ids
before it, and the pages of a listing cut the comments into pieces of one size. -/
namespace ChangeReport.Host

/-- Comments, oldest first, and the id of the next one. New comments are dated `now`. -/
structure Memory where
  username : String
  pageSize : Nat
  now : Option Timestamp
  nextId : Nat
  comments : List Comment
deriving DecidableEq, Repr

namespace Memory

def defaultUser : String := "kubereport-dry-run"

def defaultPageSize : Nat := 100

def empty : Memory := ⟨defaultUser, defaultPageSize, none, 1, []⟩

def idAfter (comments : List Comment) : Nat := comments.foldl (fun n c => max n (c.id + 1)) 1

def ofComments (username : String) (pageSize : Nat) (comments : List Comment) : Memory :=
  ⟨username, max pageSize 1, none, idAfter comments, comments⟩

def absent (id : Nat) : HostError := .notFound ("comment " ++ toString id)

def create (body : String) : Call Memory Nat := fun m =>
  (.ok m.nextId,
    { m with nextId := m.nextId + 1, comments := m.comments ++ [⟨m.nextId, m.username, body, m.now⟩] })

def setBody (id : Nat) (body : String) : List Comment → List Comment
  | [] => []
  | c :: rest => if c.id = id then { c with body } :: rest else c :: setBody id body rest

def has (m : Memory) (id : Nat) : Bool := m.comments.any fun c => c.id == id

def edit (id : Nat) (body : String) : Call Memory Nat := fun m =>
  if m.has id then (.ok id, { m with comments := setBody id body m.comments }) else (.error (absent id), m)

def delete (id : Nat) : Call Memory Unit := fun m =>
  if m.has id then (.ok (), { m with comments := m.comments.filter fun c => c.id != id })
  else (.error (absent id), m)

/-- The comments of a page; every page but those at the end is full. -/
def page (m : Memory) (n : Nat) : Page :=
  let start := (n - 1) * m.pageSize
  ⟨(m.comments.drop start).take m.pageSize, start + m.pageSize < m.comments.length⟩

def host (kind : HostKind) : Host Memory where
  kind
  username := fun m => (.ok m.username, m)
  create := fun _ body => create body
  edit := fun _ id body => edit id body
  list := fun _ n m => (.ok (m.page n), m)
  delete := fun _ id => delete id
  pipelineUrl := fun _ => Call.answer none

end Memory
end ChangeReport.Host
