import ChangeReport.Host.Memory

/-! A host in memory that fails when a plan says so, and that records the calls it gets.
-/
namespace ChangeReport.Host

inductive Method where
  | username
  | create
  | edit
  | list
  | delete
  | pipeline
deriving DecidableEq, Repr

structure Entry where
  method : Method
  number : Option Nat
deriving DecidableEq, Repr

/-- The answers in store for the calls of each method, first those of a list, then one for
good. -/
structure Plan where
  next : Method → List (Option HostError)
  always : Method → Option HostError

/-- What a host does about calls that do not fail: an edit may post the comment again
under a new id, every page may claim to have a next one, and there may be a pipeline. -/
structure Manner where
  reposts : Bool
  endless : Bool
  pipelineUrl : Option String

structure Planned where
  memory : Memory
  plan : Plan
  manner : Manner
  log : List Entry

namespace Planned

def take (p : Plan) (m : Method) : Option HostError × Plan :=
  match p.next m with
  | [] => (p.always m, p)
  | e :: rest => (e, { p with next := fun n => if n = m then rest else p.next n })

/-- Records a call, and lets it fail if that is planned. -/
def planned {α : Type} (m : Method) (number : Option Nat) (call : Call Planned α) : Call Planned α := fun s =>
  let (fault, plan) := take s.plan m
  let s := { s with plan, log := s.log ++ [⟨m, number⟩] }
  match fault with
  | some e => (.error e, s)
  | none => call s

def inMemory {α : Type} (call : Call Memory α) : Call Planned α := fun s =>
  let (r, memory) := call s.memory
  (r, { s with memory })

/-- Puts a comment in the place of an old one, under a new id. -/
def repost (id : Nat) (body : String) : Call Memory Nat := fun m =>
  match Memory.delete id m with
  | (.ok (), m) => Memory.create body m
  | (.error e, m) => (.error e, m)

def edit (id : Nat) (body : String) : Call Planned Nat := fun s =>
  inMemory (if s.manner.reposts then repost id body else Memory.edit id body) s

def list (n : Nat) : Call Planned Page := fun s =>
  let page := s.memory.page n
  (.ok { page with hasNext := page.hasNext || s.manner.endless }, s)

def host (kind : HostKind) : Host Planned where
  kind
  username := planned .username none fun s => (.ok s.memory.username, s)
  create := fun _ body => planned .create none (inMemory (Memory.create body))
  edit := fun _ id body => planned .edit (some id) (edit id body)
  list := fun _ n => planned .list (some n) (list n)
  delete := fun _ id => planned .delete (some id) (inMemory (Memory.delete id))
  pipelineUrl := fun _ => planned .pipeline none fun s => (.ok s.manner.pipelineUrl, s)

end Planned
end ChangeReport.Host
