import ChangeReport.Config.Basic
import ChangeReport.Toml.Reader

/-! Configuration files, and the order in which their layers are laid over one another: a
global file, one in the working directory, and the environment. -/
namespace ChangeReport

namespace HostKind

def ofExactName? (s : String) : Option HostKind := [github, gitlab].find? fun k => k.name == s

end HostKind

namespace TidyMode

def ofExactName? (s : String) : Option TidyMode := [delete, hide].find? fun m => m.name == s

end TidyMode

namespace Config

/-- Sizes and times have 64 bits. -/
def wordLimit : Nat := Nat.pow 2 64

def readSize : Tree → Option Nat := Tree.natBelow? wordLimit

def readText? : Tree → Option (Option String) := Tree.nullable Tree.text?

def readVcs (t : Tree) : Option VcsConfig := do
  let d := VcsConfig.default
  let r ← Record.read? ["provider", "base_url", "token", "username", "max_comment_length"] true t
  return ⟨← r.orElse "provider" d.provider (fun t => (t.choice? true).bind HostKind.ofExactName?),
    ← r.orElse "base_url" d.baseUrl readText?, ← r.orElse "token" d.token readText?,
    ← r.orElse "username" d.username readText?, ← r.orElse "max_comment_length" d.maxCommentLength readSize⟩

def readComments (t : Tree) : Option CommentsConfig := do
  let d := CommentsConfig.default
  let r ← Record.read? ["tidy_mode", "identity"] true t
  return ⟨← r.orElse "tidy_mode" d.tidyMode (fun t => (t.choice? true).bind TidyMode.ofExactName?),
    ← r.orElse "identity" d.identity readText?⟩

/-- The fields of the policy stand beside the namespace, so this is always an object. -/
def readDiff (t : Tree) : Option DiffConfig := do
  match t with
  | .object _ =>
      let r ← Record.read? ("default_namespace" :: DiffPolicy.fields) true t
      return ⟨← DiffPolicy.ofRecord? r, ← r.orElse "default_namespace" "" Tree.text?⟩
  | _ => none

def readRetry (t : Tree) : Option RetryPolicy := do
  let d := RetryPolicy.default
  let r ← Record.read? ["initial_interval", "max_interval", "max_elapsed"] true t
  return ⟨← r.orElse "initial_interval" d.initialInterval readSize, ← r.orElse "max_interval" d.maxInterval readSize,
    ← r.orElse "max_elapsed" d.maxElapsed readSize⟩

def readRun (t : Tree) : Option RunConfig := do
  let d := RunConfig.default
  let r ← Record.read? ["max_concurrent", "retry"] true t
  return ⟨← r.orElse "max_concurrent" d.maxConcurrent readSize, ← r.orElse "retry" d.retry readRetry⟩

def readApp (t : Tree) : Option AppManifests := do
  let r ← Record.read? ["name", "live", "target", "namespace"] true t
  return ⟨← r.required "name" Tree.text?, ← r.required "live" Tree.text?, ← r.required "target" Tree.text?,
    ← r.orElse "namespace" "" Tree.text?⟩

/-- The configuration that a file holds. Fields without a meaning are passed over. -/
def ofTree? (t : Tree) : Option Config := do
  let d := Config.default
  let r ← Record.read? ["vcs", "comments", "diff", "run", "apps"] true t
  return ⟨← r.orElse "vcs" d.vcs readVcs, ← r.orElse "comments" d.comments readComments,
    ← r.orElse "diff" d.diff readDiff, ← r.orElse "run" d.run readRun,
    ← r.orElse "apps" d.apps (Tree.listOf? readApp)⟩

def parse? (content : String) : Option Config := (Toml.parse? content.toList).bind ofTree?

end Config

inductive ConfigError where
  | unreadable (path : String)
  | malformed (path : String)
deriving DecidableEq, Repr

/-- What messages give as the reason when a file is no configuration; such reasons end
their line. -/
def malformedConfig : String := "<toml error>\n"

namespace ConfigError

def message : ConfigError → String
  | .unreadable path => "failed to read config file " ++ path ++ ": " ++ unreadableText
  | .malformed path => "failed to parse config file " ++ path ++ ": " ++ malformedConfig

def causes : ConfigError → List String
  | .unreadable _ => [unreadableText]
  | .malformed _ => [malformedConfig]

end ConfigError

namespace Config

def loadFile (files : Files) (path : String) : Except ConfigError Config :=
  match files.text? path with
  | none => .error (.unreadable path)
  | some content =>
      match parse? content with
      | none => .error (.malformed path)
      | some c => .ok c

def fileName : String := ".kubereport.toml"

def globalFile (directory : String) : String := FileTree.join (FileTree.join directory "kubereport") "config.toml"

def directory? (env : Environment) : Option String :=
  match env.var? "XDG_CONFIG_HOME" with
  | some d => if d.toList.head? = some '/' then some d else home
  | none => home
where
  home : Option String := (env.var? "HOME").map fun h => FileTree.join h ".config"

def variableNames : List String :=
  [providerVariable, tokenVariable, baseUrlVariable, usernameVariable, tidyModeVariable, HostKind.github.tokenVariable,
    HostKind.gitlab.tokenVariable, "XDG_CONFIG_HOME", "HOME"]

def withFile (files : Files) (path : Option String) (c : Config) : Except ConfigError Config :=
  match path with
  | none => .ok c
  | some path => if files.exists? path then (loadFile files path).map c.merge else .ok c

/-- Loads all layers; `directory` holds the configurations of the user, and `root` the
file of the working directory. -/
def load (files : Files) (directory root : Option String) (env : Environment) : Except ConfigError Config := do
  let c ← withFile files (directory.map globalFile) .default
  let c ← withFile files (root.map fun r => FileTree.join r fileName) c
  return c.withEnvironment env

end Config
end ChangeReport
