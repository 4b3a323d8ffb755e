import ChangeReport.Proofs.Config.Settings

/-! The layers of a configuration. A later file decides on each setting to which it gives another
value than the built-in one. The bounds of the retries are one block: a file decides on all of them
or on none. -/
namespace ChangeReport

/-! ## Merging -/

theorem later_builtIn {α : Type} [DecidableEq α] (builtIn a : α) : later builtIn builtIn a = a := by
  rw [later]
  split
  next same => exact same.symm
  next => rfl

namespace Setting

theorem or_eq_later {α : Type} [DecidableEq α] (a b : Option α) : b.or a = later none a b := by
  cases b <;> rfl

theorem bool_or_eq_later (a b : Bool) : (a || b) = later false a b := by
  cases a <;> cases b <;> rfl

/-- A setting outside of the block is the later value unless that is the built-in one. -/
theorem get_merge {s : Setting} (h : s ∉ retryBounds) (a b : Config) :
    s.get (a.merge b) = later s.builtIn (s.get a) (s.get b) := by
  cases s with
  | provider | maxCommentLength | tidyMode | trackingMethod | defaultNamespace | maxConcurrent =>
      rfl
  | baseUrl | token | username | identity => exact or_eq_later _ _
  | noCache => exact bool_or_eq_later _ _
  | initialInterval | maxInterval | maxElapsed => simp [retryBounds] at h

/-- A bound of the retries is a part of their block. -/
theorem exists_part {s : Setting} (h : s ∈ retryBounds) :
    ∃ part : RetryPolicy → s.Value, ∀ c : Config, s.get c = part c.run.retry := by
  simp only [retryBounds, List.mem_cons, List.not_mem_nil, or_false] at h
  rcases h with rfl | rfl | rfl
  · exact ⟨fun retry => retry.initialInterval, fun _ => rfl⟩
  · exact ⟨fun retry => retry.maxInterval, fun _ => rfl⟩
  · exact ⟨fun retry => retry.maxElapsed, fun _ => rfl⟩

theorem get_merge_retry {s : Setting} (h : s ∈ retryBounds) (a b : Config) :
    s.get (a.merge b) = if b.run.retry = .default then s.get a else s.get b := by
  obtain ⟨part, eq⟩ := exists_part h
  rw [eq, eq, eq, ← apply_ite part]
  rfl

theorem get_default_merge (s : Setting) (c : Config) :
    s.get (Config.default.merge c) = s.get c := by
  by_cases bound : s ∈ retryBounds
  · obtain ⟨part, eq⟩ := exists_part bound
    rw [get_merge_retry bound]
    split
    next unchanged => rw [eq, eq, unchanged]; rfl
    next => rfl
  · exact (get_merge bound _ _).trans (later_builtIn s.builtIn _)

/-! ## What a file decides -/

/-- Whether a file gives some bound of the retries another value than the built-in one. -/
def changesRetry (t : Tree) : Bool :=
  retryBounds.any fun s => decide ((s.written? t).getD s.builtIn ≠ s.builtIn)

theorem changesRetry_iff {t : Tree} {c : Config} (h : Config.ofTree? t = some c) :
    changesRetry t = true ↔ c.run.retry ≠ .default := by
  simp only [changesRetry, List.any_eq_true, decide_eq_true_eq, ← get_of_ofTree? h]
  constructor
  · rintro ⟨s, bound, ne⟩ unchanged
    obtain ⟨part, eq⟩ := exists_part bound
    exact ne (by rw [eq, unchanged, builtIn, eq]; rfl)
  · refine fun changed => Classical.byContradiction fun none => changed ?_
    have same : ∀ s ∈ retryBounds, s.get c = s.builtIn :=
      fun s bound => Classical.byContradiction fun ne => none ⟨s, bound, ne⟩
    calc c.run.retry = ⟨initialInterval.get c, maxInterval.get c, maxElapsed.get c⟩ := rfl
      _ = ⟨initialInterval.builtIn, maxInterval.builtIn, maxElapsed.builtIn⟩ := by
        rw [same _ (by decide), same _ (by decide), same _ (by decide)]
      _ = .default := rfl

/-- The value with which a file decides on a setting. A built-in value decides nothing, unless it
is that of a retry bound and another bound has been changed. -/
def decided? (s : Setting) (t : Tree) : Option s.Value :=
  (s.written? t).filter fun v =>
    decide (v ≠ s.builtIn) || (retryBounds.contains s && changesRetry t)

theorem decided?_of_none {s : Setting} {t : Tree} (h : s.written? t = none) :
    s.decided? t = none := by
  rw [decided?, h]
  rfl

theorem decided?_of_some {s : Setting} {t : Tree} {v : s.Value} (h : s.written? t = some v) :
    s.decided? t = if v ≠ s.builtIn ∨ s ∈ retryBounds ∧ changesRetry t = true then some v
      else none := by
  rw [decided?, h, Option.filter]
  simp

/-- One file over another, setting by setting. A bound of the retries that only the first file
writes has to be left out when the second one changes another bound: then the first file does not
count. -/
theorem get_merge_of_written {g l : Tree} {a b : Config} {s : Setting}
    (lower : s.get a = (s.written? g).getD s.builtIn) (hb : Config.ofTree? l = some b)
    (apart : s ∈ retryBounds → changesRetry l = true → s.written? l = none → s.written? g = none) :
    s.get (a.merge b) = ((s.decided? l).or (s.written? g)).getD s.builtIn := by
  have upper := get_of_ofTree? hb s
  by_cases bound : s ∈ retryBounds
  · rw [get_merge_retry bound]
    split
    next unchanged =>
      have calm : ¬ changesRetry l = true :=
        fun changes => (changesRetry_iff hb).1 changes unchanged
      have same : s.get b = s.builtIn := by
        obtain ⟨part, eq⟩ := exists_part bound
        rw [eq, unchanged, builtIn, eq]
        rfl
      cases written : s.written? l with
      | none => rw [decided?_of_none written, lower, Option.none_or]
      | some v =>
          rw [written, Option.getD_some] at upper
          have silent : ¬ (v ≠ s.builtIn ∨ s ∈ retryBounds ∧ changesRetry l = true) := by
            rw [← upper, same]
            simp [calm]
          rw [decided?_of_some written, if_neg silent, lower, Option.none_or]
    next changed =>
      have changes := (changesRetry_iff hb).2 changed
      cases written : s.written? l with
      | none =>
          rw [decided?_of_none written, apart bound changes written, upper, written]
          rfl
      | some v =>
          rw [decided?_of_some written, if_pos (.inr ⟨bound, changes⟩), upper, written]
          rfl
  · rw [get_merge bound, later]
    cases written : s.written? l with
    | none =>
        rw [written, Option.getD_none] at upper
        rw [if_pos upper, decided?_of_none written, lower, Option.none_or]
    | some v =>
        rw [written, Option.getD_some] at upper
        rw [decided?_of_some written, upper]
        by_cases unchanged : v = s.builtIn
        · simp [unchanged, bound, lower]
        · simp [unchanged]

end Setting

/-! ## Loading -/

namespace Config

/-- The variables that make settings. -/
def settingVariables : List String :=
  [providerVariable, tokenVariable, baseUrlVariable, usernameVariable, tidyModeVariable,
    HostKind.github.tokenVariable, HostKind.gitlab.tokenVariable]

theorem firstOf?_of_unset {env : Environment} {names : List String}
    (unset : ∀ name ∈ names, env.var? name = none) : env.firstOf? names = none := by
  have none : names.filterMap env.var? = [] := List.filterMap_eq_nil_iff.2 unset
  rw [Environment.firstOf?, none]
  rfl

theorem withEnvironment_of_unset {env : Environment}
    (unset : ∀ name ∈ settingVariables, env.var? name = none) (c : Config) :
    c.withEnvironment env = c := by
  have absent : ∀ names ⊆ settingVariables, env.firstOf? names = none :=
    fun names known => firstOf?_of_unset fun name member => unset name (known member)
  have provider : env.var? providerVariable = none := unset _ (by decide)
  have mode : env.var? tidyModeVariable = none := unset _ (by decide)
  have tokens : ∀ kind : HostKind, [tokenVariable, kind.tokenVariable] ⊆ settingVariables := by
    intro kind
    cases kind <;> decide
  simp [withEnvironment, provider, mode, absent _ (tokens c.vcs.provider),
    absent [baseUrlVariable] (by decide), absent [usernameVariable] (by decide)]

theorem withFile_of_loadFile {files : Files} {path : String} {d : Config}
    (loaded : loadFile files path = .ok d) (c : Config) :
    withFile files (some path) c = .ok (c.merge d) := by
  have exist : files.exists? path = true := by
    cases found : files.find? path with
    | some tree => rw [Files.exists?, found]; rfl
    | none => simp [loadFile, Files.text?, found] at loaded
  rw [withFile, if_pos exist, loaded]
  rfl

theorem withFile_eq {files : Files} {path content : String} {t : Tree} {c d : Config}
    (there : files.text? path = some content) (parsed : Toml.parse? content.toList = some t)
    (read : ofTree? t = some d) : withFile files (some path) c = .ok (c.merge d) := by
  have loaded : loadFile files path = .ok d := by
    rw [loadFile, there]
    simp only [parse?, parsed, Option.bind_some, read]
  exact withFile_of_loadFile loaded c

end Config

section
open Config Setting

variable {files : Files} {directory root : String} {env : Environment} {earlier later : String}
  {g l : Tree}

theorem load_eq (unset : ∀ name ∈ settingVariables, env.var? name = none)
    (globalText : files.text? (globalFile directory) = some earlier)
    (localText : files.text? (FileTree.join root fileName) = some later)
    (globalTree : Toml.parse? earlier.toList = some g)
    (localTree : Toml.parse? later.toList = some l) {a b : Config} (ha : ofTree? g = some a)
    (hb : ofTree? l = some b) :
    Config.load files (some directory) (some root) env =
      .ok ((Config.default.merge a).merge b) := by
  rw [load, Option.map_some, Option.map_some, withFile_eq globalText globalTree ha]
  change Except.map _ (withFile files _ (Config.default.merge a)) = _
  rw [withFile_eq localText localTree hb]
  exact congrArg Except.ok (withEnvironment_of_unset unset _)

/-- The layers of a configuration. With a global file and one of the working directory, and no
variables, every setting has the value with which the file of the working directory decides on it,
otherwise the value that the global file writes, otherwise the built-in one. A bound of the retries
is left open here where only the global file writes it and the other file changes another bound. -/
theorem load_follows_layers (unset : ∀ name ∈ settingVariables, env.var? name = none)
    (globalText : files.text? (globalFile directory) = some earlier)
    (localText : files.text? (FileTree.join root fileName) = some later)
    (globalTree : Toml.parse? earlier.toList = some g)
    (localTree : Toml.parse? later.toList = some l)
    (globalReads : (ofTree? g).isSome) (localReads : (ofTree? l).isSome) :
    ∃ c, Config.load files (some directory) (some root) env = .ok c ∧
      ∀ s : Setting,
        (s ∈ retryBounds → changesRetry l = true → s.written? l = none → s.written? g = none) →
        s.get c = ((s.decided? l).or (s.written? g)).getD s.builtIn := by
  obtain ⟨a, ha⟩ := Option.isSome_iff_exists.1 globalReads
  obtain ⟨b, hb⟩ := Option.isSome_iff_exists.1 localReads
  refine ⟨_, load_eq unset globalText localText globalTree localTree ha hb, fun s apart => ?_⟩
  refine get_merge_of_written ?_ hb apart
  rw [get_default_merge, get_of_ofTree? ha]

end

namespace Layered

def asciiBytes (text : String) : List Nat := text.toList.map Char.toNat

def homeText : String :=
  "[vcs]\nprovider = \"gitlab\"\nmax_comment_length = 1000\n" ++
    "[run.retry]\ninitial_interval = 100\n"

/-- The provider and the first interval are the built-in ones. -/
def projectText : String :=
  "[vcs]\nprovider = \"github\"\nmax_comment_length = 2000\n" ++
    "[run.retry]\ninitial_interval = 500\nmax_elapsed = 1000\n"

def files : Files where
  cwd := "/project"
  root := .folder [
    ("home", .folder [("kubereport", .folder [("config.toml", .file (asciiBytes homeText))])]),
    ("project", .folder [(".kubereport.toml", .file (asciiBytes projectText))])]

open Config Setting

theorem text?_home : files.text? (globalFile "/home") = some homeText := by decide +kernel

theorem text?_project : files.text? (FileTree.join "/project" fileName) = some projectText := by
  decide +kernel

theorem exists_homeTree : ∃ g, Toml.parse? homeText.toList = some g ∧ (ofTree? g).isSome ∧
    provider.written? g = some .gitlab := by
  have reads : ((Toml.parse? homeText.toList).any fun g =>
      (ofTree? g).isSome && decide (provider.written? g = some .gitlab)) = true := by
    decide +kernel
  obtain ⟨g, parsed, facts⟩ := (Option.any_eq_true _ _).1 reads
  exact ⟨g, parsed, by simpa using facts⟩

theorem exists_projectTree : ∃ l, Toml.parse? projectText.toList = some l ∧ (ofTree? l).isSome ∧
    provider.written? l = some .github ∧ provider.decided? l = none ∧
    maxCommentLength.decided? l = some 2000 ∧ initialInterval.written? l = some 500 ∧
    initialInterval.decided? l = some 500 := by
  have reads : ((Toml.parse? projectText.toList).any fun l =>
      (ofTree? l).isSome && decide (provider.written? l = some .github ∧
        provider.decided? l = none ∧ maxCommentLength.decided? l = some 2000 ∧
        initialInterval.written? l = some 500 ∧ initialInterval.decided? l = some 500)) = true := by
    decide +kernel
  obtain ⟨l, parsed, facts⟩ := (Option.any_eq_true _ _).1 reads
  rw [Bool.and_eq_true, decide_eq_true_eq] at facts
  exact ⟨l, parsed, facts⟩

end Layered

open Config Setting Layered in
/-- The built-in provider of the project does not count, but its first interval does, because it
also changes the time for all retries. -/
theorem load_follows_layers_of_project :
    (∀ name ∈ settingVariables, Environment.var? [("HOME", "/home")] name = none) ∧
      ∃ c, Config.load files (some "/home") (some "/project") [("HOME", "/home")] = .ok c ∧
        c.vcs.provider = .gitlab ∧ c.vcs.maxCommentLength = 2000 ∧
        c.run.retry.initialInterval = 500 := by
  obtain ⟨g, homeParsed, homeReads, gitlab⟩ := exists_homeTree
  obtain ⟨l, parsed, reads, -, unsaid, length, interval, decides⟩ := exists_projectTree
  have unset : ∀ name ∈ settingVariables, Environment.var? [("HOME", "/home")] name = none := by
    decide
  obtain ⟨c, loaded, settings⟩ :=
    load_follows_layers unset text?_home text?_project homeParsed parsed homeReads reads
  refine ⟨unset, c, loaded, ?_, ?_, ?_⟩
  · have value := settings provider fun bound => absurd bound (by decide)
    rwa [unsaid, gitlab] at value
  · have value := settings maxCommentLength fun bound => absurd bound (by decide)
    rwa [length] at value
  · have value := settings initialInterval fun _ _ missing => by simp [interval] at missing
    rwa [decides] at value

open Config Setting Layered in
/-- A setting that the file of the working directory writes does not always have its value: the
built-in provider is written there, and the one of the global file is taken. -/
theorem written_builtIn_overruled :
    ¬ ∀ (files : Files) (directory root : String) (env : Environment) (earlier later : String)
      (g l : Tree), (∀ name ∈ settingVariables, env.var? name = none) →
      files.text? (globalFile directory) = some earlier →
      files.text? (FileTree.join root fileName) = some later →
      Toml.parse? earlier.toList = some g → Toml.parse? later.toList = some l →
      (ofTree? g).isSome → (ofTree? l).isSome →
      ∃ c, Config.load files (some directory) (some root) env = .ok c ∧
        ∀ s : Setting, s.get c = ((s.written? l).or (s.written? g)).getD s.builtIn := by
  intro priority
  obtain ⟨g, homeParsed, homeReads, gitlab⟩ := exists_homeTree
  obtain ⟨l, parsed, reads, github, unsaid, -⟩ := exists_projectTree
  have unset : ∀ name ∈ settingVariables, Environment.var? [] name = none := by decide
  obtain ⟨c, loaded, settings⟩ := priority files "/home" "/project" [] _ _ g l unset
    text?_home text?_project homeParsed parsed homeReads reads
  obtain ⟨a, ha⟩ := Option.isSome_iff_exists.1 homeReads
  obtain ⟨b, hb⟩ := Option.isSome_iff_exists.1 reads
  have lower : provider.get (Config.default.merge a) =
      (provider.written? g).getD provider.builtIn := by
    rw [get_default_merge, get_of_ofTree? ha]
  have taken : provider.get ((Config.default.merge a).merge b) = .gitlab := by
    rw [get_merge_of_written lower hb fun bound => absurd bound (by decide), unsaid, gitlab]
    rfl
  obtain rfl := Except.ok.inj
    (loaded.symm.trans (load_eq unset text?_home text?_project homeParsed parsed ha hb))
  have claimed := settings provider
  rw [taken, github] at claimed
  cases claimed

end ChangeReport
