import ChangeReport.Comparison
import ChangeReport.Manifest.Load
import ChangeReport.Report.Message
import ChangeReport.Text.Quoted

/-! The work on one application of a run: what is added to the report, and how it ends. It
depends on the application alone, not on the host of the report or on the other
applications. -/
namespace ChangeReport.Run

inductive AppFault where
  | loadLive (error : ManifestError)
  | loadTarget (error : ManifestError)
  | differ (key message : String)
  | crashed (message : String)
deriving DecidableEq, Repr

namespace AppFault

def message : AppFault → String
  | .loadLive e => "failed to load live manifests: " ++ e.message
  | .loadTarget e => "failed to load target manifests: " ++ e.message
  | .differ key m => (DifferFault.failed key m).message
  | .crashed m => m

def causes : AppFault → List String
  | .loadLive e | .loadTarget e => e.message :: e.causes
  | .differ _ _ | .crashed _ => []

end AppFault

/-- How a summary goes wrong: there is none, or the summarizer breaks down. -/
inductive SummaryFault where
  | failed
  | crashed (message : String)
deriving DecidableEq, Repr

structure Worker where
  source : ManifestSource
  differ : Differ
  summarize : Option (String → Comparison → Except SummaryFault String)

inductive AppStatus where
  | diffed (counts : Counts)
  | failed (reason : String)
  | cancelled
deriving DecidableEq, Repr

/-- The end of the work on an application, with the applications that it defines and that
the source has. -/
structure AppOutcome where
  name : String
  status : AppStatus
  children : List String
deriving DecidableEq, Repr

/-- The changes of the report in order, and the outcome after them. -/
structure Work where
  changes : List Report.Change
  outcome : AppOutcome
deriving DecidableEq, Repr

/-- The reason given for a breakdown. The number of the task has no meaning and is not
told. -/
def crashReason (message : String) : String :=
  "worker crashed: task N panicked with message " ++ Text.quoted message

def errorNote (reason : String) : String := Report.errorMarker ++ " " ++ reason

def cancelledNote : String := Report.warningMarker ++ " Run cancelled before this application was diffed."

def undiscoveredNote (child : String) : String :=
  "Discovered application \x60" ++ child ++ "\x60; it will be checked once it exists."

def fragment (c : Comparison) : String :=
  c.summary ++ "\n\n\x60\x60\x60diff\n" ++ Text.trimEnd c.text ++ "\n\x60\x60\x60"

namespace Worker

def compare (w : Worker) (app : String) : Except AppFault Comparison := do
  let live ← (w.source.live app).mapError fun
    | .failed e => .loadLive e
    | .crashed m => .crashed m
  let targets ← (w.source.target app).mapError fun
    | .failed e => .loadTarget e
    | .crashed m => .crashed m
  (Comparison.ofPairs w.differ (matchResources targets live (w.source.defaultNamespace app))).mapError fun
    | .failed key m => .differ key m
    | .crashed m => .crashed m

/-- Work that breaks down after some changes. -/
def crash (app : String) (done : List Report.Change) (message : String) : Work :=
  let reason := crashReason message
  ⟨done ++ [.append app (errorNote reason)], ⟨app, .failed reason, []⟩⟩

/-- The changes after a comparison: what it found, and a note for each application that
the source does not have. -/
def found (w : Worker) (app : String) (c : Comparison) : List Report.Change :=
  let unknown := c.children.filter fun child => !w.source.knows child.name
  .append app (fragment c) :: unknown.map fun child => .append app (undiscoveredNote child.name)

/-- The work that follows a comparison. Only an application with changes has a summary. -/
def publish (w : Worker) (app : String) (c : Comparison) : Work :=
  let changes := .addApp app :: w.found app c
  let known := (c.children.filter fun child => w.source.knows child.name).map (·.name)
  let outcome : AppOutcome := ⟨app, .diffed c.counts, known⟩
  match w.summarize with
  | none => ⟨changes, outcome⟩
  | some summarize =>
      if c.counts.isEmpty then ⟨changes, outcome⟩
      else match summarize app c with
        | .ok text => ⟨changes ++ [.append app text], outcome⟩
        | .error .failed => ⟨changes, outcome⟩
        | .error (.crashed m) => crash app changes m

/-- The work on an application, a breakdown included. -/
def work (w : Worker) (app : String) : Work :=
  match w.compare app with
  | .ok c => w.publish app c
  | .error (.crashed m) => crash app [.addApp app] m
  | .error e => ⟨[.addApp app, .append app (errorNote e.message)], ⟨app, .failed e.message, []⟩⟩

end Worker

def cancelledWork (app : String) : Work := ⟨[.append app cancelledNote], ⟨app, .cancelled, []⟩⟩

/-- The workers of a run. They share a source and a summarizer, and the resources of each
application may be compared in a way of its own. -/
structure Crew where
  source : ManifestSource
  differ : String → Differ
  summarize : Option (String → Comparison → Except SummaryFault String)

namespace Crew

def ofWorker (w : Worker) : Crew := ⟨w.source, fun _ => w.differ, w.summarize⟩

instance : Coe Worker Crew := ⟨ofWorker⟩

def worker (crew : Crew) (app : String) : Worker := ⟨crew.source, crew.differ app, crew.summarize⟩

def work (crew : Crew) (app : String) : Work := (crew.worker app).work app

end Crew

end ChangeReport.Run
