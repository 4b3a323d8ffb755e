import ChangeReport.CommandLine.Option
import ChangeReport.Manifest.Load

/-! The commands of the program and their options. -/
namespace ChangeReport.CommandLine

/-- What `check` is to do; applications are named as often as their two paths are given.
-/
structure CheckArgs where
  changeRequest : ChangeRequest
  apps : List String
  live : List String
  target : List String
  ns : Option String
  tidyMode : Option TidyMode
  maxConcurrent : Option Nat
  dryRun : Bool
deriving DecidableEq, Repr

structure TidyArgs where
  changeRequest : ChangeRequest
  tidyMode : Option TidyMode
deriving DecidableEq, Repr

structure RenderArgs where
  live : String
  target : String
  app : String
  ns : Option String
deriving DecidableEq, Repr

inductive Command where
  | check (args : CheckArgs)
  | tidy (args : TidyArgs)
  | render (args : RenderArgs)
  | version
deriving DecidableEq, Repr

structure Invocation where
  verbose : Bool
  command : Command
deriving DecidableEq, Repr

/-- Applications that are not named as often as their paths are given. -/
structure Unpaired where
  apps : Nat
  live : Nat
  target : Nat
deriving DecidableEq, Repr

def Unpaired.message (u : Unpaired) : String :=
  "--app, --live and --target must be given the same number of times (got " ++ toString u.apps ++ ", " ++
    toString u.live ++ ", " ++ toString u.target ++ ")"

/-- The applications of the command line: the first name with the first paths, and so on.
-/
def CheckArgs.manifests (a : CheckArgs) : Except Unpaired (List AppManifests) :=
  if a.apps.length = a.live.length ∧ a.apps.length = a.target.length then
    .ok ((a.apps.zip (a.live.zip a.target)).map fun p => ⟨p.1, p.2.1, p.2.2, a.ns.getD ""⟩)
  else .error ⟨a.apps.length, a.live.length, a.target.length⟩

def verboseOption : OptionSpec := .flag "verbose" (some 'v')

def helpOption : OptionSpec := ⟨"help", some 'h', .help, false, false, none⟩

def versionOption : OptionSpec := ⟨"version", some 'V', .version, false, false, none⟩

def repoVariable : String := "KUBEREPORT_REPO"

def numberVariable : String := "KUBEREPORT_PR"

def changeRequestOptions : List OptionSpec :=
  [.needed "repo" .text (some repoVariable), .needed "pr" .number (some numberVariable)]

def commonOptions : List OptionSpec := [verboseOption, helpOption]

def checkLevel : Level where
  options := changeRequestOptions ++
    [.repeated "app" .text, .repeated "live" .path, .repeated "target" .path, .optional "namespace" .text,
      .optional "tidy-mode" .mode, .optional "max-concurrent" .number, .flag "dry-run" none] ++ commonOptions
  commands := []

def tidyLevel : Level where
  options := changeRequestOptions ++ [.optional "tidy-mode" .mode] ++ commonOptions
  commands := []

def renderLevel : Level where
  options := [.needed "live" .path none, .needed "target" .path none, .optional "app" .text,
    .optional "namespace" .text] ++ commonOptions
  commands := []

def versionLevel : Level := ⟨commonOptions, []⟩

def rootLevel : Level := ⟨commonOptions ++ [versionOption], ["check", "tidy", "render", "version", "help"]⟩

/-- Help can be had for one command, and for that of help itself. -/
def helpFor : List String → UsageError
  | [] => .displayHelp
  | [name] => if rootLevel.commands.contains name then .displayHelp else .invalidSubcommand
  | _ => .invalidSubcommand

def Found.changeRequest (f : Found) : ChangeRequest := ⟨(f.text? "repo").getD "", (f.number? "pr").getD 0⟩

def Found.check (f : Found) : Command :=
  .check ⟨f.changeRequest, f.texts "app", f.texts "live", f.texts "target", f.text? "namespace", f.mode? "tidy-mode",
    f.number? "max-concurrent", f.has "dry-run"⟩

def Found.tidy (f : Found) : Command := .tidy ⟨f.changeRequest, f.mode? "tidy-mode"⟩

def Found.render (f : Found) : Command :=
  .render ⟨(f.text? "live").getD "", (f.text? "target").getD "", (f.text? "app").getD "app", f.text? "namespace"⟩

def parse (env : Environment) (words : List String) : Except UsageError Invocation := do
  let (root, next) ← rootLevel.scan false words .empty
  let run (level : Level) (rest : List String) (command : Found → Command) : Except UsageError Invocation :=
    (level.read env rest).map fun f => ⟨root.has "verbose" || f.has "verbose", command f⟩
  match next with
  | none => if root.values.isEmpty then throw .displayHelpOnMissing else throw .missingSubcommand
  | some ("check", rest) => run checkLevel rest Found.check
  | some ("tidy", rest) => run tidyLevel rest Found.tidy
  | some ("render", rest) => run renderLevel rest Found.render
  | some ("version", rest) => run versionLevel rest fun _ => .version
  | some (_, rest) => throw (helpFor rest)

end ChangeReport.CommandLine
