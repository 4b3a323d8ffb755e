import ChangeReport.Report.Message
import ChangeReport.Report.Ownership
import ChangeReport.Retry

/-! The reports of one reporter on a change request. Each run first removes or hides the
reports of earlier runs and then posts one of its own. What goes wrong with old reports
never keeps the new one from being posted. -/
namespace ChangeReport
open Report

inductive TidyMode where
  | delete
  | hide
deriving DecidableEq, Repr

namespace TidyMode

def name : TidyMode → String
  | .delete => "delete"
  | .hide => "hide"

def ofName? (s : String) : Option TidyMode :=
  let folded := s.toList.map Char.toLower
  if folded = "delete".toList then some .delete
  else if folded = "hide".toList then some .hide
  else none

end TidyMode

/-- The counts of one pass over old reports. Each of them is tidied, skipped because it
was hidden before, or left behind by a call that failed. -/
structure TidyOutcome where
  owned : Nat
  tidied : Nat
  skipped : Nat
  failed : Nat
deriving DecidableEq, Repr

inductive ConversationError where
  | identity (source : HostError)
  | list (page : Nat) (source : HostError)
  | create (source : HostError)
  | update (source : PushError)
deriving DecidableEq, Repr

namespace ConversationError

def message : ConversationError → String
  | .identity e => "failed to resolve the VCS identity: " ++ e.message
  | .list page e => "failed to list comments (page " ++ toString page ++ "): " ++ e.message
  | .create e => "failed to create the report comment: " ++ e.message
  | .update e => e.message

def causes : ConversationError → List String
  | .identity e | .list _ e | .create e => [e.message]
  | .update e => [e.source.message]

end ConversationError

/-- The reporter on a change request. `login` is kept once the host has told it. -/
structure Conversation where
  changeRequest : ChangeRequest
  layout : Layout
  retry : RetryPolicy
  login : Option String
deriving DecidableEq, Repr

namespace Conversation

def maxPages : Nat := 1000

def start (changeRequest : ChangeRequest) (layout : Layout) (retry : RetryPolicy) : Conversation :=
  ⟨changeRequest, layout, retry, none⟩

variable {σ : Type}

def identity (host : Host σ) (c : Conversation) (s : σ) : Except ConversationError String × Conversation × σ :=
  match c.login with
  | some login => (.ok login, c, s)
  | none =>
      match host.username s with
      | (.ok login, s) => (.ok login, { c with login := some login }, s)
      | (.error e, s) => (.error (.identity e), c, s)

/-- The comments of at most `left` pages from `page` on. -/
def listFrom (host : Host σ) (r : ChangeRequest) :
    Nat → Nat → σ → Except ConversationError (List Comment) × σ
  | 0, _, s => (.ok [], s)
  | left + 1, page, s =>
      match host.list r page s with
      | (.error e, s) => (.error (.list page e), s)
      | (.ok p, s) =>
          if p.hasNext then
            let (rest, s) := listFrom host r left (page + 1) s
            (rest.map (p.comments ++ ·), s)
          else (.ok p.comments, s)

def allComments (host : Host σ) (r : ChangeRequest) : σ → Except ConversationError (List Comment) × σ :=
  listFrom host r maxPages 1

/-- Whether a comment is a report of this reporter. -/
def owns (identity : Option String) (login : String) (c : Comment) : Bool :=
  c.author == login && isOwn c.body identity

def tidyOne (host : Host σ) (r : ChangeRequest) (mode : TidyMode) (o : TidyOutcome) (c : Comment) (s : σ) :
    TidyOutcome × σ :=
  let o := { o with owned := o.owned + 1 }
  let count (failed : Bool) : TidyOutcome :=
    if failed then { o with failed := o.failed + 1 } else { o with tidied := o.tidied + 1 }
  match mode with
  | .delete =>
      let (answer, s) := host.delete r c.id s
      (count !answer.isOk, s)
  | .hide =>
      if isHidden c.body then ({ o with skipped := o.skipped + 1 }, s)
      else
        let (answer, s) := host.edit r c.id (hide c) s
        (count !answer.isOk, s)

def tidyAll (host : Host σ) (r : ChangeRequest) (mode : TidyMode) (owned : List Comment) (s : σ) : TidyOutcome × σ :=
  owned.foldl (fun acc c => tidyOne host r mode acc.1 c acc.2) (⟨0, 0, 0, 0⟩, s)

/-- Deletes or hides the reports of earlier runs. Nothing is touched unless the login and
all comments are known. -/
def tidy (host : Host σ) (mode : TidyMode) (c : Conversation) (s : σ) :
    Except ConversationError TidyOutcome × Conversation × σ :=
  match c.identity host s with
  | (.error e, c, s) => (.error e, c, s)
  | (.ok login, c, s) =>
      match allComments host c.changeRequest s with
      | (.error e, s) => (.error e, c, s)
      | (.ok comments, s) =>
          let (o, s) := tidyAll host c.changeRequest mode (comments.filter (owns c.layout.identity login)) s
          (.ok o, c, s)

/-- A posted report, or why there is none, with the time slept on the way. -/
structure Posting where
  message : Except ConversationError Message
  conversation : Conversation
  slept : Nat

/-- The layout with a link to the latest pipeline, if the host tells of one in time. A lookup
takes `took` of its two states. -/
def linkedLayout (host : Host σ) (took : σ → σ → Nat) (c : Conversation) (s : σ) : Layout × Nat × σ :=
  let (lookup, s) := Retry.run c.retry (host.pipelineUrl c.changeRequest) took s
  let url := match lookup.answer with
    | .ok url => url
    | .error _ => none
  ({ c.layout with pipelineUrl := url }, lookup.slept, s)

/-- Tidies up and posts an empty report, on a host whose lookups take time. -/
def postTimed (host : Host σ) (took : σ → σ → Nat) (mode : TidyMode) (c : Conversation) (s : σ) : Posting × σ :=
  let (_, c, s) := c.tidy host mode s
  let (layout, slept, s) := c.linkedLayout host took s
  let body := build layout [] ""
  match host.create c.changeRequest body s with
  | (.ok id, s) => (⟨.ok (Message.ofComment c.changeRequest layout id body), c, slept⟩, s)
  | (.error e, s) => (⟨.error (.create e), c, slept⟩, s)

/-- Tidies up and posts an empty report; only sleeping passes time. -/
def post (host : Host σ) (mode : TidyMode) (c : Conversation) (s : σ) : Posting × σ :=
  c.postTimed host Retry.instant mode s

/-- Sends the body of a message in any case. -/
def update (host : Host σ) (m : Message) (s : σ) : Except ConversationError Unit × Message × σ :=
  let (answer, m, s) := m.change host .push s
  (answer.mapError .update, m, s)

end Conversation
end ChangeReport
