import ChangeReport.Config.Policy
import ChangeReport.Conversation
import ChangeReport.Environment
import ChangeReport.Manifest.Load

/-! The configuration and its layers. A later layer decides on each setting that it gives
another value than the built-in one; rules of the policy add up, and each application has
its last definition. -/
namespace ChangeReport

structure VcsConfig where
  provider : HostKind
  baseUrl : Option String
  token : Option String
  username : Option String
  maxCommentLength : Nat
deriving DecidableEq, Repr

structure CommentsConfig where
  tidyMode : TidyMode
  identity : Option String
deriving DecidableEq, Repr

structure DiffConfig where
  policy : DiffPolicy
  defaultNamespace : String
deriving DecidableEq, Repr

structure RunConfig where
  maxConcurrent : Nat
  retry : RetryPolicy
deriving DecidableEq, Repr

structure Config where
  vcs : VcsConfig
  comments : CommentsConfig
  diff : DiffConfig
  run : RunConfig
  apps : List AppManifests
deriving DecidableEq, Repr

def VcsConfig.default : VcsConfig := ⟨.github, none, none, none, Report.defaultMaxLength⟩

def CommentsConfig.default : CommentsConfig := ⟨.hide, none⟩

def DiffConfig.default : DiffConfig := ⟨DiffPolicy.default, ""⟩

def RunConfig.default : RunConfig := ⟨4, RetryPolicy.default⟩

/-- A setting of two layers: the later value unless it is the built-in one. -/
def later {α : Type} [DecidableEq α] (builtIn a b : α) : α := if b = builtIn then a else b

namespace Config

def default : Config := ⟨.default, .default, .default, .default, []⟩

def merge (a b : Config) : Config where
  vcs :=
    { provider := later VcsConfig.default.provider a.vcs.provider b.vcs.provider
      baseUrl := b.vcs.baseUrl.or a.vcs.baseUrl
      token := b.vcs.token.or a.vcs.token
      username := b.vcs.username.or a.vcs.username
      maxCommentLength := later VcsConfig.default.maxCommentLength a.vcs.maxCommentLength b.vcs.maxCommentLength }
  comments :=
    { tidyMode := later CommentsConfig.default.tidyMode a.comments.tidyMode b.comments.tidyMode
      identity := b.comments.identity.or a.comments.identity }
  diff :=
    { policy := a.diff.policy.merge b.diff.policy
      defaultNamespace := later DiffConfig.default.defaultNamespace a.diff.defaultNamespace b.diff.defaultNamespace }
  run :=
    { maxConcurrent := later RunConfig.default.maxConcurrent a.run.maxConcurrent b.run.maxConcurrent
      retry := later RunConfig.default.retry a.run.retry b.run.retry }
  apps := b.apps.foldl AppManifests.define a.apps

def layout (c : Config) : Report.Layout := ⟨c.comments.identity, none, c.vcs.maxCommentLength⟩

def providerVariable : String := "KUBEREPORT_VCS_PROVIDER"

def tokenVariable : String := "KUBEREPORT_VCS_TOKEN"

def baseUrlVariable : String := "KUBEREPORT_VCS_BASE_URL"

def usernameVariable : String := "KUBEREPORT_VCS_USERNAME"

def tidyModeVariable : String := "KUBEREPORT_TIDY_MODE"

/-- The configuration with the settings of environment variables. Names of no provider and
no mode are passed over; the token of a provider counts only for the provider that is then
in effect. -/
def withEnvironment (env : Environment) (c : Config) : Config :=
  let provider := ((env.var? providerVariable).bind HostKind.ofName?).getD c.vcs.provider
  let vcs : VcsConfig :=
    { c.vcs with
      provider
      baseUrl := (env.firstOf? [baseUrlVariable]).or c.vcs.baseUrl
      username := (env.firstOf? [usernameVariable]).or c.vcs.username
      token := (env.firstOf? [tokenVariable, provider.tokenVariable]).or c.vcs.token }
  let tidyMode := ((env.var? tidyModeVariable).bind TidyMode.ofName?).getD c.comments.tidyMode
  { c with vcs, comments := { c.comments with tidyMode } }

end Config
end ChangeReport
