import ChangeReport.CommandLine.Command
import ChangeReport.Config.File
import ChangeReport.Host.Connect
import ChangeReport.Host.Memory
import ChangeReport.Run.Progress
import ChangeReport.Run.Summary

/-! The program: what each command prints and with which code it ends, given the files,
the environment and a transport to the host. -/
namespace ChangeReport

/-- The surroundings of a run of the program. `directory` holds the configurations of the
user, and `target` names the machine that the program was built for. -/
structure Surroundings (τ : Type) where
  files : Files
  directory : Option String
  env : Environment
  target : String
  color : Bool
  transport : Web.Transport τ

structure Output where
  exitCode : Nat
  stdout : String
  stderr : String
deriving DecidableEq, Repr

/-- A failure with the failures that led to it, the nearest first. -/
structure Failure where
  chain : List String
deriving DecidableEq, Repr

def Failure.message (f : Failure) : String := ": ".intercalate f.chain

namespace Program
open CommandLine

def name : String := "kubereport"

def version : String := "0.1.0"

variable {τ σ : Type}

def config (w : Surroundings τ) : Except Failure Config :=
  (Config.load w.files w.directory (some w.files.cwd) w.env).mapError fun e =>
    ⟨"failed to load configuration" :: e.message :: e.causes⟩

def connectFailure (e : HostError) : Failure := ⟨["failed to set up VCS client", e.message]⟩

def conversationFailure (context : String) (e : ConversationError) : Failure := ⟨context :: e.message :: e.causes⟩

def CheckArgs.over (a : CheckArgs) (c : Config) : Config :=
  { c with
    comments := { c.comments with tidyMode := a.tidyMode.getD c.comments.tidyMode }
    run := { c.run with maxConcurrent := a.maxConcurrent.getD c.run.maxConcurrent } }

/-- The applications to check, those of the command line after those of the configuration.
-/
def CheckArgs.applications (a : CheckArgs) (c : Config) : Except Failure (List AppManifests) :=
  match a.manifests with
  | .error u => .error ⟨[u.message]⟩
  | .ok given =>
      let apps := given.foldl AppManifests.define c.apps
      if apps.isEmpty then
        .error ⟨["no applications to check: pass --app/--live/--target or add [[apps]] to the config"]⟩
      else .ok (apps.map fun app => if app.ns = "" then { app with ns := c.diff.defaultNamespace } else app)

/-- Posts a report of the applications that are named and keeps it up to date. The answer is the
summary of the run and the last body. -/
def report (host : Host σ) (source : ManifestSource) (c : Config) (request : ChangeRequest)
    (names : List String) (s : σ) : Except Failure (List Run.AppOutcome × String) × σ :=
  let conversation := Conversation.start request c.layout c.run.retry
  let (posting, s) := conversation.post host c.comments.tidyMode s
  match posting.message with
  | .error e => (.error (conversationFailure "failed to post report comment" e), s)
  | .ok message =>
      let worker : Run.Worker := ⟨source, overlayDiffer, none⟩
      let start := Run.State.start message s false names
      let run := Run.finish worker c.run.maxConcurrent host (fun _ => false) start
      let total := "**Total:** " ++ (Run.totals run.outcomes).render
      let (_, message, s) := run.message.change host (.appendTrailer total) run.host
      match Conversation.update host message s with
      | (.error e, _, s) => (.error (conversationFailure "failed to publish final report" e), s)
      | (.ok _, message, s) => (.ok (run.outcomes, message.body), s)

def failed (stdout stderr : String) (f : Failure) : Output := ⟨1, stdout, stderr ++ "Error: " ++ f.message ++ "\n"⟩

/-- The output of a report. A dry run prints its last body. -/
def reportOutput (color dryRun : Bool) : Except Failure (List Run.AppOutcome × String) → Output
  | .error f => failed "" "" f
  | .ok (outcomes, body) =>
      let stdout := if dryRun then body ++ "\n" else ""
      let stderr := Run.terminalText color outcomes
      let count := Run.failedCount outcomes
      if count = 0 then ⟨0, stdout, stderr⟩
      else failed stdout stderr ⟨[toString count ++ " application(s) could not be diffed"]⟩

/-- Reports on the applications that are named. In a dry run the report is kept in memory. -/
def checkAll (w : Surroundings τ) (a : CheckArgs) (c : Config) (source : ManifestSource)
    (names : List String) (s : τ) : Output × τ :=
  if a.dryRun then
    let (answer, _) := report (Host.Memory.host c.vcs.provider) source c a.changeRequest names .empty
    (reportOutput w.color true answer, s)
  else
    match Host.ofConfig w.transport c.vcs with
    | .error e => (failed "" "" (connectFailure e), s)
    | .ok host =>
        let (answer, s) := report host source c a.changeRequest names s
        (reportOutput w.color false answer, s)

def check (w : Surroundings τ) (a : CheckArgs) (s : τ) : Output × τ :=
  let prepared : Except Failure (Config × List AppManifests) := do
    let c := CheckArgs.over a (← config w)
    return (c, ← CheckArgs.applications a c)
  match prepared with
  | .error f => (failed "" "" f, s)
  | .ok (c, apps) => checkAll w a c (.ofFiles w.files apps) (apps.map (·.name)) s

def tidyLine (mode : TidyMode) (o : TidyOutcome) : String :=
  mode.name ++ ": " ++ toString o.tidied ++ " tidied, " ++ toString o.skipped ++ " already hidden, " ++
    toString o.failed ++ " failed (" ++ toString o.owned ++ " owned)\n"

def tidy (w : Surroundings τ) (a : TidyArgs) (s : τ) : Output × τ :=
  match config w with
  | .error f => (failed "" "" f, s)
  | .ok c =>
      let mode := a.tidyMode.getD c.comments.tidyMode
      match Host.ofConfig w.transport c.vcs with
      | .error e => (failed "" "" (connectFailure e), s)
      | .ok host =>
          match (Conversation.start a.changeRequest c.layout c.run.retry).tidy host mode s with
          | (.error e, _, s) => (failed "" "" (conversationFailure "failed to tidy comments" e), s)
          | (.ok o, _, s) =>
              let line := tidyLine mode o
              if o.failed = 0 then (⟨0, "", line⟩, s)
              else (failed "" line ⟨[toString o.failed ++ " comment(s) could not be tidied"]⟩, s)

def render (w : Surroundings τ) (a : RenderArgs) : Output :=
  match config w with
  | .error f => failed "" "" f
  | .ok c =>
      let app : AppManifests := ⟨a.app, a.live, a.target, a.ns.getD c.diff.defaultNamespace⟩
      let worker : Run.Worker := ⟨ManifestSource.ofFiles w.files [app], overlayDiffer, none⟩
      match worker.compare a.app with
      | .error e => failed "" "" ⟨("failed to diff " ++ a.app) :: e.message :: e.causes⟩
      | .ok r =>
          let children := r.children.map fun child => "discovered application: " ++ child.name ++ "\n"
          ⟨0, r.summary ++ "\n\n" ++ Text.trimEnd r.text ++ "\n", String.join children⟩

/-- The version of the program and the machine that it was built for. -/
def versionOutput (w : Surroundings τ) : Output :=
  ⟨0, Run.styled w.color [.bold] name ++ " " ++ Run.styled w.color [.bold, .green] version ++ "\n" ++
    Run.styled w.color [.dimmed] "target:" ++ "     " ++ w.target ++ "\n", ""⟩

/-- The output for a command line without a command. -/
def usageOutput : UsageError → Output
  | .displayVersion => ⟨0, name ++ " " ++ version ++ "\n", ""⟩
  | e => ⟨e.exitCode, "", ""⟩

/-- Runs the program on the words after its name. -/
def run (w : Surroundings τ) (words : List String) (s : τ) : Output × τ :=
  match CommandLine.parse w.env words with
  | .error e => (usageOutput e, s)
  | .ok i =>
      match i.command with
      | .check a => check w a s
      | .tidy a => tidy w a s
      | .render a => (render w a, s)
      | .version => (versionOutput w, s)

end Program
end ChangeReport
