import ChangeReport.Config.File

/-! The settings of a configuration, one by one: where a file writes them, what they are where none
does, and that reading a file gives each of them the value that is written. -/
namespace ChangeReport

/-- The value of a field, where a record has one. -/
def Record.value? (r : Record) (name : String) : Option Tree :=
  match r.slot name with
  | .value t => some t
  | _ => none

theorem Record.orElse_cases {α : Type} {r : Record} {name : String} {d v : α}
    {read : Tree → Option α} (h : r.orElse name d read = some v) :
    (r.value? name = none ∧ v = d) ∨ ∃ t, r.value? name = some t ∧ read t = some v := by
  unfold orElse at h
  unfold value?
  cases slot : r.slot name with
  | value t =>
      rw [slot] at h
      exact .inr ⟨t, rfl, h⟩
  | absent =>
      rw [slot] at h
      exact .inl ⟨rfl, (Option.some.inj h).symm⟩
  | beyond =>
      rw [slot] at h
      exact .inl ⟨rfl, (Option.some.inj h).symm⟩

/-! ## Settings -/

inductive Setting where
  | provider
  | baseUrl
  | token
  | username
  | maxCommentLength
  | tidyMode
  | identity
  | trackingMethod
  | noCache
  | defaultNamespace
  | maxConcurrent
  | initialInterval
  | maxInterval
  | maxElapsed
deriving DecidableEq, Repr

namespace Setting

@[reducible] def Value : Setting → Type
  | provider => HostKind
  | baseUrl | token | username | identity => Option String
  | tidyMode => TidyMode
  | trackingMethod => TrackingMethod
  | noCache => Bool
  | defaultNamespace => String
  | maxCommentLength | maxConcurrent | initialInterval | maxInterval | maxElapsed => Nat

instance : (s : Setting) → DecidableEq s.Value
  | provider => inferInstanceAs (DecidableEq HostKind)
  | baseUrl | token | username | identity => inferInstanceAs (DecidableEq (Option String))
  | tidyMode => inferInstanceAs (DecidableEq TidyMode)
  | trackingMethod => inferInstanceAs (DecidableEq TrackingMethod)
  | noCache => inferInstanceAs (DecidableEq Bool)
  | defaultNamespace => inferInstanceAs (DecidableEq String)
  | maxCommentLength | maxConcurrent | initialInterval | maxInterval | maxElapsed =>
      inferInstanceAs (DecidableEq Nat)

def get : (s : Setting) → Config → s.Value
  | provider, c => c.vcs.provider
  | baseUrl, c => c.vcs.baseUrl
  | token, c => c.vcs.token
  | username, c => c.vcs.username
  | maxCommentLength, c => c.vcs.maxCommentLength
  | tidyMode, c => c.comments.tidyMode
  | identity, c => c.comments.identity
  | trackingMethod, c => c.diff.policy.trackingMethod
  | noCache, c => c.diff.policy.noCache
  | defaultNamespace, c => c.diff.defaultNamespace
  | maxConcurrent, c => c.run.maxConcurrent
  | initialInterval, c => c.run.retry.initialInterval
  | maxInterval, c => c.run.retry.maxInterval
  | maxElapsed, c => c.run.retry.maxElapsed

def builtIn (s : Setting) : s.Value := s.get .default

/-- The bounds of the retries. -/
def retryBounds : List Setting := [initialInterval, maxInterval, maxElapsed]

end Setting

namespace Config

def sections : List String := ["vcs", "comments", "diff", "run", "apps"]

def vcsFields : List String := ["provider", "base_url", "token", "username", "max_comment_length"]

def commentsFields : List String := ["tidy_mode", "identity"]

def diffFields : List String := "default_namespace" :: DiffPolicy.fields

def runFields : List String := ["max_concurrent", "retry"]

def retryFields : List String := ["initial_interval", "max_interval", "max_elapsed"]

/-- The value that a record of these fields has in one of them. -/
def field? (fields : List String) (name : String) (t : Tree) : Option Tree :=
  (Record.read? fields true t).bind (·.value? name)

def vcsField? (name : String) (t : Tree) : Option Tree :=
  (field? sections "vcs" t).bind (field? vcsFields name)

def commentsField? (name : String) (t : Tree) : Option Tree :=
  (field? sections "comments" t).bind (field? commentsFields name)

def diffField? (name : String) (t : Tree) : Option Tree :=
  (field? sections "diff" t).bind (field? diffFields name)

def runField? (name : String) (t : Tree) : Option Tree :=
  (field? sections "run" t).bind (field? runFields name)

def retryField? (name : String) (t : Tree) : Option Tree :=
  (field? sections "run" t).bind fun u =>
    (field? runFields "retry" u).bind (field? retryFields name)

end Config

namespace Setting
open Config

/-- The value that a file writes for a setting, if it writes one. -/
def written? : (s : Setting) → Tree → Option s.Value
  | provider, t =>
      (vcsField? "provider" t).bind fun u => (u.choice? true).bind HostKind.ofExactName?
  | baseUrl, t => (vcsField? "base_url" t).bind readText?
  | token, t => (vcsField? "token" t).bind readText?
  | username, t => (vcsField? "username" t).bind readText?
  | maxCommentLength, t => (vcsField? "max_comment_length" t).bind readSize
  | tidyMode, t =>
      (commentsField? "tidy_mode" t).bind fun u => (u.choice? true).bind TidyMode.ofExactName?
  | identity, t => (commentsField? "identity" t).bind readText?
  | trackingMethod, t =>
      (diffField? "tracking_method" t).bind fun u => (u.choice? false).bind TrackingMethod.ofName?
  | noCache, t => (diffField? "no_cache" t).bind Tree.bool?
  | defaultNamespace, t => (diffField? "default_namespace" t).bind Tree.text?
  | maxConcurrent, t => (runField? "max_concurrent" t).bind readSize
  | initialInterval, t => (retryField? "initial_interval" t).bind readSize
  | maxInterval, t => (retryField? "max_interval" t).bind readSize
  | maxElapsed, t => (retryField? "max_elapsed" t).bind readSize

end Setting

/-! ## Reading -/

namespace Config

/-- What a record says in a field, or what holds where it says nothing. -/
def read {α : Type} (fields : List String) (name : String) (meaning : Tree → Option α) (d : α)
    (t : Tree) : α :=
  ((field? fields name t).bind meaning).getD d

section

variable {α γ : Type} {fields : List String} {t : Tree} {r : Record} {name : String}

theorem eq_read (record : Record.read? fields true t = some r) {d v : α}
    {meaning : Tree → Option α} (h : r.orElse name d meaning = some v) :
    v = read fields name meaning d t := by
  rw [read, field?, record, Option.bind_some]
  rcases Record.orElse_cases h with ⟨absent, rfl⟩ | ⟨u, there, meant⟩
  · rw [absent]
    rfl
  · rw [there, Option.bind_some, meant]
    rfl

/-- A part of what a field says, when the field is itself a record. -/
theorem part_of_orElse (record : Record.read? fields true t = some r) {d v : γ}
    {section? : Tree → Option γ} (h : r.orElse name d section? = some v) {part : γ → α}
    {path : Tree → Option Tree} {meaning : Tree → Option α}
    (own : ∀ u w, section? u = some w → part w = ((path u).bind meaning).getD (part d)) :
    part v = (((field? fields name t).bind path).bind meaning).getD (part d) := by
  rw [field?, record, Option.bind_some]
  rcases Record.orElse_cases h with ⟨absent, rfl⟩ | ⟨u, there, meant⟩
  · rw [absent]
    rfl
  · rw [there, Option.bind_some, own u v meant]

end

variable {t : Tree}

theorem readVcs_eq {v : VcsConfig} (h : readVcs t = some v) : v =
    { provider := read vcsFields "provider" (fun t => (t.choice? true).bind HostKind.ofExactName?)
        VcsConfig.default.provider t
      baseUrl := read vcsFields "base_url" readText? none t
      token := read vcsFields "token" readText? none t
      username := read vcsFields "username" readText? none t
      maxCommentLength := read vcsFields "max_comment_length" readSize
        VcsConfig.default.maxCommentLength t } := by
  simp only [readVcs, bind, Option.bind_eq_some_iff, pure, Option.some.injEq] at h
  obtain ⟨r, record, provider, h₁, url, h₂, token, h₃, name, h₄, length, h₅, rfl⟩ := h
  rw [eq_read record h₁, eq_read record h₂, eq_read record h₃, eq_read record h₄,
    eq_read record h₅]
  rfl

theorem readComments_eq {v : CommentsConfig} (h : readComments t = some v) : v =
    { tidyMode := read commentsFields "tidy_mode"
        (fun t => (t.choice? true).bind TidyMode.ofExactName?) CommentsConfig.default.tidyMode t
      identity := read commentsFields "identity" readText? none t } := by
  simp only [readComments, bind, Option.bind_eq_some_iff, pure, Option.some.injEq] at h
  obtain ⟨r, record, mode, h₁, identity, h₂, rfl⟩ := h
  rw [eq_read record h₁, eq_read record h₂]
  rfl

theorem readDiff_eq {v : DiffConfig} (h : readDiff t = some v) :
    v.policy.trackingMethod = read diffFields "tracking_method"
        (fun t => (t.choice? false).bind TrackingMethod.ofName?) .labels t ∧
      v.policy.noCache = read diffFields "no_cache" Tree.bool? false t ∧
      v.defaultNamespace = read diffFields "default_namespace" Tree.text? "" t := by
  unfold readDiff at h
  split at h
  · simp only [DiffPolicy.ofRecord?, bind, Option.bind_eq_some_iff, pure, Option.some.injEq] at h
    obtain ⟨r, record, -, ⟨-, -, -, -, method, h₁, cache, h₂, rfl⟩, ns, h₃, rfl⟩ := h
    exact ⟨eq_read record h₁, eq_read record h₂, eq_read record h₃⟩
  · cases h

theorem readRetry_eq {v : RetryPolicy} (h : readRetry t = some v) : v =
    { initialInterval := read retryFields "initial_interval" readSize
        RetryPolicy.default.initialInterval t
      maxInterval := read retryFields "max_interval" readSize RetryPolicy.default.maxInterval t
      maxElapsed := read retryFields "max_elapsed" readSize RetryPolicy.default.maxElapsed t } := by
  simp only [readRetry, bind, Option.bind_eq_some_iff, pure, Option.some.injEq] at h
  obtain ⟨r, record, first, h₁, most, h₂, elapsed, h₃, rfl⟩ := h
  rw [eq_read record h₁, eq_read record h₂, eq_read record h₃]
  rfl

theorem readRun_eq {v : RunConfig} (h : readRun t = some v) :
    v.maxConcurrent = read runFields "max_concurrent" readSize RunConfig.default.maxConcurrent t ∧
      v.retry.initialInterval = (((field? runFields "retry" t).bind
        (field? retryFields "initial_interval")).bind readSize).getD
          RetryPolicy.default.initialInterval ∧
      v.retry.maxInterval = (((field? runFields "retry" t).bind
        (field? retryFields "max_interval")).bind readSize).getD
          RetryPolicy.default.maxInterval ∧
      v.retry.maxElapsed = (((field? runFields "retry" t).bind
        (field? retryFields "max_elapsed")).bind readSize).getD RetryPolicy.default.maxElapsed := by
  simp only [readRun, bind, Option.bind_eq_some_iff, pure, Option.some.injEq] at h
  obtain ⟨r, record, places, h₁, retry, h₂, rfl⟩ := h
  exact ⟨eq_read record h₁,
    part_of_orElse record h₂ fun u w meant => congrArg (·.initialInterval) (readRetry_eq meant),
    part_of_orElse record h₂ fun u w meant => congrArg (·.maxInterval) (readRetry_eq meant),
    part_of_orElse record h₂ fun u w meant => congrArg (·.maxElapsed) (readRetry_eq meant)⟩

end Config

open Config in
/-- A file that is read gives every setting the value that it writes, and the built-in one where
it writes none. -/
theorem Setting.get_of_ofTree? {t : Tree} {c : Config} (h : Config.ofTree? t = some c)
    (s : Setting) : s.get c = (s.written? t).getD s.builtIn := by
  simp only [Config.ofTree?, bind, Option.bind_eq_some_iff, pure, Option.some.injEq] at h
  obtain ⟨r, record, vcs, hv, comments, hc, diff, hd, run, hr, apps, -, rfl⟩ := h
  cases s with
  | provider =>
      exact part_of_orElse record hv fun u w meant => congrArg (·.provider) (readVcs_eq meant)
  | baseUrl =>
      exact part_of_orElse record hv fun u w meant => congrArg (·.baseUrl) (readVcs_eq meant)
  | token => exact part_of_orElse record hv fun u w meant => congrArg (·.token) (readVcs_eq meant)
  | username =>
      exact part_of_orElse record hv fun u w meant => congrArg (·.username) (readVcs_eq meant)
  | maxCommentLength =>
      exact part_of_orElse record hv fun u w meant => congrArg (·.maxCommentLength) (readVcs_eq meant)
  | tidyMode =>
      exact part_of_orElse record hc fun u w meant => congrArg (·.tidyMode) (readComments_eq meant)
  | identity =>
      exact part_of_orElse record hc fun u w meant => congrArg (·.identity) (readComments_eq meant)
  | trackingMethod =>
      exact part_of_orElse record hd fun u w meant => (readDiff_eq meant).1
  | noCache => exact part_of_orElse record hd fun u w meant => (readDiff_eq meant).2.1
  | defaultNamespace => exact part_of_orElse record hd fun u w meant => (readDiff_eq meant).2.2
  | maxConcurrent => exact part_of_orElse record hr fun u w meant => (readRun_eq meant).1
  | initialInterval => exact part_of_orElse record hr fun u w meant => (readRun_eq meant).2.1
  | maxInterval => exact part_of_orElse record hr fun u w meant => (readRun_eq meant).2.2.1
  | maxElapsed => exact part_of_orElse record hr fun u w meant => (readRun_eq meant).2.2.2

end ChangeReport
