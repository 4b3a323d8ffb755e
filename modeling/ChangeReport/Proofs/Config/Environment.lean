import ChangeReport.Proofs.Config.Layers
import Mathlib.Data.List.Forall2

/-! The last layer of a configuration, the variables of the environment. What they say about a
setting is told from the variables alone, and the setting has the value that they say or the one
that it had before. The token of a provider counts only if this provider is then in effect, so no
provider gets the token of the other one. -/
namespace ChangeReport

/-! ## Names in small and capital letters -/

/-- A text spells a name of small letters, each of them small or capital. -/
def Text.Spells (text name : String) : Prop :=
  List.Forall₂ (fun c d => c = d ∨ c = d.toUpper) text.toList name.toList

theorem Text.toLower_val (c : Char) : c.toLower.val =
    if c.val ≥ 'A'.val ∧ c.val ≤ 'Z'.val then c.val + ('a'.val - 'A'.val) else c.val := by
  delta Char.toLower
  split <;> rfl

theorem Text.toUpper_val (c : Char) : c.toUpper.val =
    if c.val ≥ 'a'.val ∧ c.val ≤ 'z'.val then c.val + ('A'.val - 'a'.val) else c.val := by
  delta Char.toUpper
  split <;> rfl

theorem Text.toLower_eq_iff {c d : Char} (lower : d.isLower = true) :
    c.toLower = d ↔ c = d ∨ c = d.toUpper := by
  have codes : 'a'.val.toNat = 97 ∧ 'z'.val.toNat = 122 ∧ 'A'.val.toNat = 65 ∧
      'Z'.val.toNat = 90 := by decide
  have shifts : ('a'.val - 'A'.val).toNat = 32 ∧ ('A'.val - 'a'.val).toNat = 2 ^ 32 - 32 := by
    decide
  have range : 'a'.val ≤ d.val ∧ d.val ≤ 'z'.val := by
    change (decide ('a'.val ≤ d.val) && decide (d.val ≤ 'z'.val)) = true at lower
    simpa only [Bool.and_eq_true, decide_eq_true_eq] using lower
  have bound := c.val.toNat_lt
  rw [Char.ext_iff, Char.ext_iff, Char.ext_iff, toLower_val, toUpper_val, if_pos range]
  simp only [UInt32.le_iff_toNat_le, codes] at range
  simp only [← UInt32.toNat_inj, apply_ite UInt32.toNat, UInt32.toNat_add, ge_iff_le,
    UInt32.le_iff_toNat_le, codes, shifts]
  split <;> omega

theorem Text.map_toLower_eq_iff {text name : String}
    (lower : name.toList.all Char.isLower = true) :
    text.toList.map Char.toLower = name.toList ↔ Text.Spells text name := by
  rw [Text.Spells]
  generalize text.toList = cs
  generalize name.toList = ds at lower ⊢
  induction ds generalizing cs with
  | nil => simp
  | cons d ds ih =>
      rw [List.all_cons, Bool.and_eq_true] at lower
      cases cs with
      | nil => simp
      | cons c cs =>
          rw [List.map_cons, List.cons.injEq, List.forall₂_cons, ih cs lower.2,
            Text.toLower_eq_iff lower.1]

/-- A choice by two names finds the value with this name. -/
theorem ite_names_eq_some_iff {κ : Type} (name : κ → String) {x y k : κ} (all : k = x ∨ k = y)
    (distinct : name x ≠ name y) (cs : List Char) :
    (if cs = (name x).toList then some x else if cs = (name y).toList then some y else none) =
      some k ↔ cs = (name k).toList := by
  have apart : (name x).toList ≠ (name y).toList := fun same => distinct (String.toList_inj.1 same)
  have others : x ≠ y := fun same => distinct (congrArg name same)
  by_cases first : cs = (name x).toList
  · rcases all with rfl | rfl <;> simp [first, others, apart]
  · rcases all with rfl | rfl
    · by_cases second : cs = (name y).toList <;> simp [second, others.symm, apart.symm, first]
    · simp [first]

theorem HostKind.ofName?_eq_some_iff {text : String} {kind : HostKind} :
    ofName? text = some kind ↔ Text.Spells text kind.name := by
  have all : kind = .github ∨ kind = .gitlab := by cases kind <;> decide
  rw [← Text.map_toLower_eq_iff (by cases kind <;> decide)]
  exact ite_names_eq_some_iff name all (by decide) _

theorem TidyMode.ofName?_eq_some_iff {text : String} {mode : TidyMode} :
    ofName? text = some mode ↔ Text.Spells text mode.name := by
  have all : mode = .delete ∨ mode = .hide := by cases mode <;> decide
  rw [← Text.map_toLower_eq_iff (by cases mode <;> decide)]
  exact ite_names_eq_some_iff name all (by decide) _

/-! ## Variables -/

theorem Text.trim_eq_empty_iff (s : String) : trim s = "" ↔ allBlank s = true := by
  rw [trim, ← String.toList_eq_nil_iff, String.toList_ofList, allBlank]
  constructor
  · intro empty
    obtain ⟨as, bs, parts, before, after⟩ := exists_blank_of_trimChars s.toList
    rw [parts, empty, List.nil_append, List.all_append, before, after]
    rfl
  · intro blank
    rw [trimChars, trimStartChars_of_all blank]
    rfl

namespace Environment

/-- A variable is set to more than blanks. What it gives is its value without the blanks at the
ends. -/
def Gives (env : Environment) (name text : String) : Prop :=
  ∃ value, env.var? name = some value ∧ Text.allBlank value = false ∧ Text.trim value = text

theorem firstOf?_cons (env : Environment) (name : String) (names : List String) :
    env.firstOf? (name :: names) = (env.firstOf? [name]).or (env.firstOf? names) := by
  rw [firstOf?, firstOf?, firstOf?, ← List.find?_append, ← List.map_append,
    ← List.filterMap_append, List.singleton_append]

theorem firstOf?_singleton (env : Environment) (name : String) :
    env.firstOf? [name] = ((env.var? name).map Text.trim).filter (· ≠ "") := by
  cases found : env.var? name with
  | none => rw [firstOf?, List.filterMap_cons_none found]; rfl
  | some value =>
      rw [firstOf?, List.filterMap_cons_some found]
      exact List.find?_singleton

theorem firstOf?_singleton_eq_some_iff {env : Environment} {name text : String} :
    env.firstOf? [name] = some text ↔ env.Gives name text := by
  rw [firstOf?_singleton, Option.filter_eq_some_iff, Option.map_eq_some_iff, Gives]
  constructor
  · rintro ⟨⟨value, set, rfl⟩, some⟩
    refine ⟨value, set, ?_, rfl⟩
    rw [← Bool.not_eq_true, ← Text.trim_eq_empty_iff]
    exact of_decide_eq_true some
  · rintro ⟨value, set, filled, rfl⟩
    rw [← Bool.not_eq_true, ← Text.trim_eq_empty_iff] at filled
    exact ⟨⟨value, set, rfl⟩, decide_eq_true filled⟩

/-- The token for a provider: the one that is given for any provider, or else the one that is given
for this one. -/
def GivesToken (env : Environment) (provider : HostKind) (token : String) : Prop :=
  env.Gives Config.tokenVariable token ∨
    (∀ other, ¬ env.Gives Config.tokenVariable other) ∧ env.Gives provider.tokenVariable token

theorem firstOf?_token_eq_some_iff {env : Environment} {provider : HostKind} {token : String} :
    env.firstOf? [Config.tokenVariable, provider.tokenVariable] = some token ↔
      env.GivesToken provider token := by
  rw [firstOf?_cons, Option.or_eq_some_iff, Option.eq_none_iff_forall_ne_some, GivesToken]
  simp only [ne_eq, firstOf?_singleton_eq_some_iff]

/-- A variable is set to a word, spelled in small or capital letters. -/
def Names (env : Environment) (name word : String) : Prop :=
  ∃ value, env.var? name = some value ∧ Text.Spells value word

/-- All variables but one are the same in two environments. -/
def SameBut (env other : Environment) (hidden : String) : Prop :=
  ∀ name, name ≠ hidden → env.var? name = other.var? name

variable {env other : Environment} {hidden name : String}

theorem SameBut.gives_iff (same : SameBut env other hidden) (apart : name ≠ hidden)
    (text : String) : env.Gives name text ↔ other.Gives name text := by
  rw [Gives, Gives, same name apart]

theorem SameBut.names_iff (same : SameBut env other hidden) (apart : name ≠ hidden)
    (word : String) : env.Names name word ↔ other.Names name word := by
  rw [Names, Names, same name apart]

theorem SameBut.givesToken_iff (same : SameBut env other hidden)
    (general : Config.tokenVariable ≠ hidden) {provider : HostKind}
    (own : provider.tokenVariable ≠ hidden) (token : String) :
    env.GivesToken provider token ↔ other.GivesToken provider token := by
  simp only [GivesToken, same.gives_iff general, same.gives_iff own]

end Environment

/-! ## Settings under a layer -/

/-- A setting is the one that a layer states, or the one before where the layer states none. -/
def Decided {α : Type} (states : α → Prop) (before after : α) : Prop :=
  states after ∨ (∀ a, ¬ states a) ∧ after = before

section

variable {α : Type} {before after : α}

theorem decided_congr {states other : α → Prop} (same : ∀ a, states a ↔ other a) :
    Decided states before after ↔ Decided other before after := by
  simp only [Decided, same]

theorem decided_some_congr {states other : α → Prop} {before after : Option α}
    (same : ∀ a, states a ↔ other a) :
    Decided (fun v => ∃ a, v = some a ∧ states a) before after ↔
      Decided (fun v => ∃ a, v = some a ∧ other a) before after := by
  simp only [same]

theorem decided_iff_eq_getD {states : α → Prop} {said : Option α}
    (iff : ∀ a, said = some a ↔ states a) :
    Decided states before after ↔ after = said.getD before := by
  simp only [Decided, ← iff]
  cases said with
  | none => simp
  | some a => simp [eq_comm]

theorem decided_iff_eq_or {states : α → Prop} {before after said : Option α}
    (iff : ∀ a, said = some a ↔ states a) :
    Decided (fun v => ∃ a, v = some a ∧ states a) before after ↔ after = said.or before := by
  simp only [Decided, ← iff]
  cases said with
  | none => simp
  | some a => simp [eq_comm]

end

namespace Config

/-- What the variables of an environment make of a configuration. -/
structure Overridden (env : Environment) (c d : Config) : Prop where
  provider : Decided (fun kind => env.Names providerVariable kind.name)
    c.vcs.provider d.vcs.provider
  baseUrl : Decided (fun v => ∃ url, v = some url ∧ env.Gives baseUrlVariable url)
    c.vcs.baseUrl d.vcs.baseUrl
  token : Decided (fun v => ∃ token, v = some token ∧ env.GivesToken d.vcs.provider token)
    c.vcs.token d.vcs.token
  username : Decided (fun v => ∃ name, v = some name ∧ env.Gives usernameVariable name)
    c.vcs.username d.vcs.username
  maxCommentLength : d.vcs.maxCommentLength = c.vcs.maxCommentLength
  tidyMode : Decided (fun mode => env.Names tidyModeVariable mode.name)
    c.comments.tidyMode d.comments.tidyMode
  identity : d.comments.identity = c.comments.identity
  diff : d.diff = c.diff
  run : d.run = c.run
  apps : d.apps = c.apps

theorem provider_names_iff {env : Environment} (kind : HostKind) :
    (env.var? providerVariable).bind HostKind.ofName? = some kind ↔
      env.Names providerVariable kind.name := by
  simp only [Option.bind_eq_some_iff, HostKind.ofName?_eq_some_iff, Environment.Names]

theorem tidyMode_names_iff {env : Environment} (mode : TidyMode) :
    (env.var? tidyModeVariable).bind TidyMode.ofName? = some mode ↔
      env.Names tidyModeVariable mode.name := by
  simp only [Option.bind_eq_some_iff, TidyMode.ofName?_eq_some_iff, Environment.Names]

theorem overridden_iff {env : Environment} {c d : Config} :
    Overridden env c d ↔ d = c.withEnvironment env := by
  have provider_iff {before after : HostKind} :
      Decided (fun kind => env.Names providerVariable kind.name) before after ↔ _ :=
    decided_iff_eq_getD provider_names_iff
  have mode_iff {before after : TidyMode} :
      Decided (fun mode => env.Names tidyModeVariable mode.name) before after ↔ _ :=
    decided_iff_eq_getD tidyMode_names_iff
  have text_iff {name : String} {before after : Option String} :
      Decided (fun v => ∃ text, v = some text ∧ env.Gives name text) before after ↔ _ :=
    decided_iff_eq_or fun _ => Environment.firstOf?_singleton_eq_some_iff
  have token_iff {provider : HostKind} {before after : Option String} :
      Decided (fun v => ∃ token, v = some token ∧ env.GivesToken provider token) before after ↔ _ :=
    decided_iff_eq_or fun _ => Environment.firstOf?_token_eq_some_iff
  constructor
  · intro h
    obtain ⟨⟨provider, baseUrl, token, username, length⟩, ⟨mode, identity⟩, diff, run, apps⟩ := d
    -- first the token, which depends on the provider of the result
    obtain rfl : token = (env.firstOf? [tokenVariable, provider.tokenVariable]).or c.vcs.token :=
      token_iff.1 h.token
    obtain rfl : provider = _ := provider_iff.1 h.provider
    obtain rfl : baseUrl = _ := text_iff.1 h.baseUrl
    obtain rfl : username = _ := text_iff.1 h.username
    obtain rfl : length = _ := h.maxCommentLength
    obtain rfl : mode = _ := mode_iff.1 h.tidyMode
    obtain rfl : identity = _ := h.identity
    obtain rfl : diff = _ := h.diff
    obtain rfl : run = _ := h.run
    obtain rfl : apps = _ := h.apps
    rfl
  · rintro rfl
    exact ⟨provider_iff.2 rfl, text_iff.2 rfl, token_iff.2 rfl, text_iff.2 rfl, rfl,
      mode_iff.2 rfl, rfl, rfl, rfl, rfl⟩

/-- A configuration does not depend on a token for another provider than its own. -/
theorem Overridden.of_sameBut {env other : Environment} {c d : Config} (h : Overridden env c d)
    {foreign : HostKind} (out : foreign ≠ d.vcs.provider)
    (same : env.SameBut other foreign.tokenVariable) : Overridden other c d := by
  obtain ⟨general, url, login⟩ : tokenVariable ≠ foreign.tokenVariable ∧
      baseUrlVariable ≠ foreign.tokenVariable ∧ usernameVariable ≠ foreign.tokenVariable := by
    cases foreign <;> decide
  obtain ⟨provider, mode⟩ : providerVariable ≠ foreign.tokenVariable ∧
      tidyModeVariable ≠ foreign.tokenVariable := by
    cases foreign <;> decide
  have own : d.vcs.provider.tokenVariable ≠ foreign.tokenVariable := by
    generalize d.vcs.provider = kind at out
    revert out
    cases foreign <;> cases kind <;> decide
  exact ⟨(decided_congr fun kind : HostKind => same.names_iff provider kind.name).1 h.provider,
    (decided_some_congr (same.gives_iff url)).1 h.baseUrl,
    (decided_some_congr (same.givesToken_iff general own)).1 h.token,
    (decided_some_congr (same.gives_iff login)).1 h.username, h.maxCommentLength,
    (decided_congr fun kind : TidyMode => same.names_iff mode kind.name).1 h.tidyMode,
    h.identity, h.diff, h.run, h.apps⟩

/-- The layer of the environment. A configuration under it is the one that the variables make of the
configuration before; and it is the same one in two environments that differ in the token of the
provider that is not in effect then. -/
theorem withEnvironment_overrides :
    (∀ (env : Environment) (c d : Config), Overridden env c d ↔ d = c.withEnvironment env) ∧
    ∀ (env other : Environment) (c : Config) (foreign : HostKind),
      foreign ≠ (c.withEnvironment env).vcs.provider →
      env.SameBut other foreign.tokenVariable →
      c.withEnvironment other = c.withEnvironment env := by
  refine ⟨fun _ _ _ => overridden_iff, fun env other c foreign out same => ?_⟩
  have here : Overridden env c (c.withEnvironment env) := overridden_iff.2 rfl
  exact (overridden_iff.1 (here.of_sameBut out same)).symm

/-- The variables of a job that reports to GitLab with a token for both providers at hand. -/
def jobVariables (githubToken : String) : Environment :=
  [("KUBEREPORT_VCS_PROVIDER", "GitLab"), ("KUBEREPORT_VCS_TOKEN", " \t"),
    ("GITLAB_TOKEN", " glpat-1\n"), ("GITHUB_TOKEN", githubToken),
    ("KUBEREPORT_TIDY_MODE", " delete")]

/-- The token in general is blank, so that of GitLab counts, and the one for GitHub is not looked
at. A mode with a blank in front is none. -/
theorem withEnvironment_overrides_of_job :
    HostKind.github ≠ (Config.default.withEnvironment (jobVariables "ghp-1")).vcs.provider ∧
      (jobVariables "ghp-1").SameBut (jobVariables "ghp-2") HostKind.github.tokenVariable ∧
      Config.default.withEnvironment (jobVariables "ghp-2") =
        { Config.default with
          vcs := { VcsConfig.default with provider := .gitlab, token := some "glpat-1" } } := by
  have out : HostKind.github ≠
      (Config.default.withEnvironment (jobVariables "ghp-1")).vcs.provider := by decide
  have same : (jobVariables "ghp-1").SameBut (jobVariables "ghp-2")
      HostKind.github.tokenVariable := by
    intro name other
    have skip : (name == "GITHUB_TOKEN") = false := beq_false_of_ne other
    simp [Environment.var?, jobVariables, List.lookup_cons, skip]
  exact ⟨out, same, (withEnvironment_overrides.2 _ _ _ _ out same).trans (by decide)⟩

end Config
end ChangeReport
