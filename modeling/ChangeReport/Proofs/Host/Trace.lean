import ChangeReport.Host.Basic

/-! The calls that a host gets, with their answers. A recorded host answers as the host does and
keeps every call, so what was asked of it, and in which order, is a part of its state. -/
namespace ChangeReport.Host

/-- A call, and the answer it got. -/
inductive Event where
  | username (answer : Except HostError String)
  | create (r : ChangeRequest) (body : String) (answer : Except HostError Nat)
  | edit (r : ChangeRequest) (id : Nat) (body : String) (answer : Except HostError Nat)
  | list (r : ChangeRequest) (page : Nat) (answer : Except HostError Page)
  | delete (r : ChangeRequest) (id : Nat) (answer : Except HostError Unit)
  | pipelineUrl (r : ChangeRequest) (answer : Except HostError (Option String))

namespace Event

/-- The comment that a call changes or takes away. -/
def target? : Event → Option Nat
  | .edit _ id _ _ | .delete _ id _ => some id
  | _ => none

def isCreate : Event → Bool
  | .create .. => true
  | _ => false

/-- Whether a call changes a comment and succeeds in it. -/
def succeeds : Event → Bool
  | .edit _ _ _ answer => answer.isOk
  | .delete _ _ answer => answer.isOk
  | _ => false

end Event

structure Recorded (σ : Type) where
  state : σ
  events : List Event

variable {σ α : Type}

def noting (event : Except HostError α → Event) (call : Call σ α) : Call (Recorded σ) α := fun s =>
  let (answer, state) := call s.state
  (answer, ⟨state, s.events ++ [event answer]⟩)

def recorded (host : Host σ) : Host (Recorded σ) where
  kind := host.kind
  username := noting .username host.username
  create := fun r body => noting (.create r body) (host.create r body)
  edit := fun r id body => noting (.edit r id body) (host.edit r id body)
  list := fun r page => noting (.list r page) (host.list r page)
  delete := fun r id => noting (.delete r id) (host.delete r id)
  pipelineUrl := fun r => noting (.pipelineUrl r) (host.pipelineUrl r)

theorem noting_eq (event : Except HostError α → Event) {call : Call σ α} {s t : σ}
    {a : Except HostError α} (answer : call s = (a, t)) (events : List Event) :
    noting event call ⟨s, events⟩ = (a, ⟨t, events ++ [event a]⟩) := by
  rw [noting, answer]

end ChangeReport.Host
