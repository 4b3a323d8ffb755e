import ChangeReport.Host.Basic
import ChangeReport.Report.Body

/-! The message of a run: the report comment that all applications share. Every change of
its sections or its trailer rebuilds the body and sends it to the host, unless the host
has it already. A change stays in the message when sending it fails, and goes out with a
later one. -/
namespace ChangeReport.Report

/-- A report comment; `pushed` is the body that the host took last, empty when it has to
be sent again. -/
structure Message where
  changeRequest : ChangeRequest
  layout : Layout
  id : Nat
  sections : Sections
  trailer : String
  pushed : String
deriving DecidableEq, Repr

structure PushError where
  comment : Nat
  source : HostError
deriving DecidableEq, Repr

def PushError.message (e : PushError) : String :=
  "failed to update report comment " ++ toString e.comment ++ ": " ++ e.source.message

/-- A change of a message, or the wish to send its body in any case. -/
inductive Change where
  | addApp (app : String)
  | append (app fragment : String)
  | appendTrailer (fragment : String)
  | push
deriving DecidableEq, Repr

namespace Message

def ofComment (changeRequest : ChangeRequest) (layout : Layout) (id : Nat) (body : String) : Message :=
  ⟨changeRequest, layout, id, [], "", body⟩

def body (m : Message) : String := build m.layout m.sections m.trailer

def section? (m : Message) (app : String) : Option String := Assoc.find? app m.sections

/-- The message after a change, before its body is sent. -/
def apply (m : Message) : Change → Message
  | .addApp app => { m with sections := Assoc.modify app "" (fun text => text) m.sections }
  | .append app fragment =>
      { m with sections := Assoc.modify app "" (fun text => Report.append text fragment) m.sections }
  | .appendTrailer fragment => { m with trailer := Report.append m.trailer fragment }
  | .push => { m with pushed := "" }

variable {σ : Type}

/-- Sends the body unless it is the one the host took last. The host may give the comment
a new id. -/
def send (host : Host σ) (m : Message) (s : σ) : Except PushError Unit × Message × σ :=
  let body := m.body
  if body = m.pushed then (.ok (), m, s)
  else
    match host.edit m.changeRequest m.id body s with
    | (.ok id, s) => (.ok (), { m with id, pushed := body }, s)
    | (.error e, s) => (.error ⟨m.id, e⟩, m, s)

def change (host : Host σ) (m : Message) (c : Change) (s : σ) : Except PushError Unit × Message × σ :=
  send host (m.apply c) s

/-- Makes changes one after another, whether or not the host takes their bodies. -/
def changeAll (host : Host σ) (m : Message) (cs : List Change) (s : σ) : Message × σ :=
  cs.foldl (fun acc c => (change host acc.1 c acc.2).2) (m, s)

end Message
end ChangeReport.Report
