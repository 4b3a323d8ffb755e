import ChangeReport.Program
import ChangeReport.Proofs.Config.Merging

/-! The applications that are checked. They come from the global file, the file of the working
directory and the command line, in this order, and of each name the last definition counts: it is
the one that the run is given, and the one whose manifests it reads. -/
namespace ChangeReport

/-! ## Last definitions -/

namespace AppManifests

/-- The last definition of its name in a list. -/
def LastIn (all : List AppManifests) (d : AppManifests) : Prop :=
  ∃ before after, all = before ++ d :: after ∧ ∀ e ∈ after, e.name ≠ d.name

theorem lastIn_cons_iff {a d : AppManifests} {rest : List AppManifests} :
    LastIn (a :: rest) d ↔ d = a ∧ (∀ e ∈ rest, e.name ≠ a.name) ∨ LastIn rest d := by
  constructor
  · rintro ⟨before, after, split, last⟩
    cases before with
    | nil =>
        obtain ⟨rfl, rfl⟩ := List.cons.inj split
        exact .inl ⟨rfl, last⟩
    | cons b before =>
        obtain ⟨rfl, rfl⟩ := List.cons.inj split
        exact .inr ⟨before, after, rfl, last⟩
  · rintro (⟨rfl, last⟩ | ⟨before, after, rfl, last⟩)
    · exact ⟨[], rest, rfl, last⟩
    · exact ⟨a :: before, after, rfl, last⟩

theorem lastDefinitions_cons_of_later {a : AppManifests} {rest : List AppManifests}
    (h : ∃ e ∈ rest, e.name = a.name) : lastDefinitions (a :: rest) = lastDefinitions rest := by
  have some : rest.any (·.name == a.name) = true := by simpa using h
  exact if_pos some

theorem lastDefinitions_cons_of_last {a : AppManifests} {rest : List AppManifests}
    (h : ∀ e ∈ rest, e.name ≠ a.name) :
    lastDefinitions (a :: rest) = a :: lastDefinitions rest := by
  have none : rest.any (·.name == a.name) = false :=
    List.any_eq_false.2 fun e member same => h e member (eq_of_beq same)
  exact if_neg (by simp [none])

theorem later_or_last (a : AppManifests) (rest : List AppManifests) :
    (∃ e ∈ rest, e.name = a.name) ∨ ∀ e ∈ rest, e.name ≠ a.name := by
  by_cases h : ∃ e ∈ rest, e.name = a.name
  · exact .inl h
  · exact .inr fun e member same => h ⟨e, member, same⟩

theorem mem_lastDefinitions_iff {all : List AppManifests} {d : AppManifests} :
    d ∈ lastDefinitions all ↔ LastIn all d := by
  induction all with
  | nil => simp [lastDefinitions, LastIn]
  | cons a rest ih =>
      rw [lastIn_cons_iff]
      rcases later_or_last a rest with ⟨e, member, same⟩ | last
      · have replaced : ¬ ∀ e ∈ rest, e.name ≠ a.name := fun only => only e member same
        rw [lastDefinitions_cons_of_later ⟨e, member, same⟩, ih]
        simp only [replaced, and_false, false_or]
      · rw [lastDefinitions_cons_of_last last, List.mem_cons, ih, and_iff_left last]

theorem exists_name_lastDefinitions_iff {all : List AppManifests} {name : String} :
    (∃ d ∈ lastDefinitions all, d.name = name) ↔ ∃ d ∈ all, d.name = name := by
  induction all with
  | nil => rfl
  | cons a rest ih =>
      simp only [List.mem_cons, exists_eq_or_imp]
      rcases later_or_last a rest with later | last
      · rw [lastDefinitions_cons_of_later later, ih]
        exact ⟨.inr, fun found => found.elim (fun own => own ▸ later) id⟩
      · simp only [lastDefinitions_cons_of_last last, List.mem_cons, exists_eq_or_imp, ih]

theorem lastDefinitions_eq_nil_iff {all : List AppManifests} :
    lastDefinitions all = [] ↔ all = [] := by
  constructor
  · intro none
    refine List.eq_nil_iff_forall_not_mem.2 fun d member => ?_
    obtain ⟨e, last, -⟩ := exists_name_lastDefinitions_iff.2 ⟨d, member, rfl⟩
    exact List.ne_nil_of_mem last none
  · rintro rfl
    rfl

theorem nodup_lastDefinitions (all : List AppManifests) :
    ((lastDefinitions all).map (·.name)).Nodup := by
  induction all with
  | nil => exact List.nodup_nil
  | cons a rest ih =>
      rcases later_or_last a rest with later | last
      · rwa [lastDefinitions_cons_of_later later]
      · rw [lastDefinitions_cons_of_last last, List.map_cons, List.nodup_cons, List.mem_map,
          exists_name_lastDefinitions_iff]
        exact ⟨fun ⟨e, member, same⟩ => last e member same, ih⟩

/-- The definition with a namespace of its own, or else the one that is given. -/
def inNamespace (ns : String) (d : AppManifests) : AppManifests :=
  if d.ns = "" then { d with ns } else d

section

variable (ns : String) (d : AppManifests)

@[simp] theorem inNamespace_name : (d.inNamespace ns).name = d.name := by
  unfold inNamespace
  split <;> rfl

@[simp] theorem inNamespace_live : (d.inNamespace ns).live = d.live := by
  unfold inNamespace
  split <;> rfl

@[simp] theorem inNamespace_target : (d.inNamespace ns).target = d.target := by
  unfold inNamespace
  split <;> rfl

theorem inNamespace_ns : (d.inNamespace ns).ns = if d.ns = "" then ns else d.ns := by
  unfold inNamespace
  split <;> rfl

end

theorem names_inNamespace (ns : String) (apps : List AppManifests) :
    (apps.map (inNamespace ns)).map (·.name) = apps.map (·.name) := by
  rw [List.map_map]
  exact List.map_congr_left fun d _ => inNamespace_name ns d

theorem find?_reverse_of_nodup {apps : List AppManifests} (distinct : (apps.map (·.name)).Nodup)
    {d : AppManifests} (member : d ∈ apps) :
    apps.reverse.find? (fun a => a.name == d.name) = some d := by
  obtain ⟨before, after, rfl⟩ := List.append_of_mem member
  rw [List.map_append, List.map_cons, List.nodup_append, List.nodup_cons] at distinct
  refine List.find?_eq_some_iff_append.2
    ⟨beq_self_eq_true _, after.reverse, before.reverse, by simp, fun e later => ?_⟩
  have apart : e.name ≠ d.name := fun same =>
    distinct.2.1.1 (List.mem_map.2 ⟨e, List.mem_reverse.1 later, same⟩)
  simp [apart]

end AppManifests

theorem Assoc.isSome_find?_iff {κ α : Type} [Ord κ] [Std.LawfulEqOrd κ] {k : κ}
    {m : List (κ × α)} : (find? k m).isSome = true ↔ k ∈ m.map (·.1) := by
  induction m with
  | nil => simp [find?]
  | cons e rest ih =>
      rw [List.map_cons, List.mem_cons, ← ih]
      by_cases hit : compare k e.1 = .eq
      · simp [find?, Std.LawfulEqCmp.eq_of_compare hit]
      · have ne : k ≠ e.1 := fun same => hit (same ▸ Std.ReflCmp.compare_self)
        simp [find?, hit, ne]

/-! ## What a run is given -/

namespace Program
open CommandLine AppManifests

/-- What a run is given of definitions: the names, each once, and a source that has the manifests of
their last definitions. A definition without a namespace has the standard one. -/
structure Resolved (files : Files) (standard : String) (all : List AppManifests)
    (names : List String) (source : ManifestSource) : Prop where
  distinct : names.Nodup
  complete : ∀ name, name ∈ names ↔ ∃ d ∈ all, d.name = name
  defined : ∀ name ∈ names, ∃ d, LastIn all d ∧ d.name = name
  knows : ∀ name, source.knows name = true ↔ name ∈ names
  live : ∀ d, LastIn all d → source.live d.name = (Manifest.load files d.live).mapError .failed
  target : ∀ d, LastIn all d →
    source.target d.name = (Manifest.load files d.target).mapError .failed
  ns : ∀ d, LastIn all d →
    source.defaultNamespace d.name = if d.ns = "" then standard else d.ns

theorem knows_ofFiles {files : Files} {apps : List AppManifests} {name : String} :
    (ManifestSource.ofFiles files apps).knows name = true ↔ name ∈ apps.map (·.name) := by
  rw [ManifestSource.knows, List.contains_iff_mem, ManifestSource.ofFiles,
    AppManifests.sortedNames, Assoc.mem_keys_iff (Assoc.sorted_ofList _), Assoc.find?_ofList,
    Assoc.isSome_find?_iff, List.map_reverse, List.mem_reverse, List.map_map]
  rfl

theorem resolved_lastDefinitions (files : Files) (standard : String) (all : List AppManifests) :
    Resolved files standard all ((lastDefinitions all).map (·.name))
      (.ofFiles files ((lastDefinitions all).map (inNamespace standard))) := by
  have names := names_inNamespace standard (lastDefinitions all)
  have found : ∀ d, LastIn all d →
      ((lastDefinitions all).map (inNamespace standard)).reverse.find?
        (fun a => a.name == d.name) = some (d.inNamespace standard) := by
    intro d last
    have member := List.mem_map_of_mem (f := inNamespace standard) (mem_lastDefinitions_iff.2 last)
    rw [← inNamespace_name standard d]
    exact find?_reverse_of_nodup (names ▸ nodup_lastDefinitions all) member
  refine ⟨nodup_lastDefinitions all, fun name => ?_, fun name member => ?_, fun name => ?_,
    fun d last => ?_, fun d last => ?_, fun d last => ?_⟩
  · rw [List.mem_map, exists_name_lastDefinitions_iff]
  · obtain ⟨d, own, rfl⟩ := List.mem_map.1 member
    exact ⟨d, mem_lastDefinitions_iff.1 own, rfl⟩
  · rw [knows_ofFiles, names]
  · simp [ManifestSource.ofFiles, found d last]
  · simp [ManifestSource.ofFiles, found d last]
  · simp [ManifestSource.ofFiles, found d last, inNamespace_ns]

/-! ## Where definitions come from -/

/-- The applications that a layer of the configuration lists: those of its file, and none if there
is no such file. -/
inductive Listed (files : Files) : Option String → List AppManifests → Prop where
  | nowhere : Listed files none []
  | absent {path : String} (h : files.exists? path = false) : Listed files (some path) []
  | file {path : String} {c : Config} (h : Config.loadFile files path = .ok c) :
      Listed files (some path) c.apps

theorem Listed.exists_withFile {files : Files} {path : Option String} {apps : List AppManifests}
    (h : Listed files path apps) (c : Config) :
    ∃ d, Config.withFile files path c = .ok d ∧ d.apps = apps.foldl define c.apps := by
  cases h with
  | nowhere => exact ⟨c, rfl, rfl⟩
  | absent gone => exact ⟨c, by rw [Config.withFile, gone]; rfl, rfl⟩
  | file loaded => exact ⟨_, Config.withFile_of_loadFile loaded c, rfl⟩

/-- The options of a command line give the names and paths of applications, and one namespace for
all of them. -/
structure Given (a : CheckArgs) (given : List AppManifests) : Prop where
  names : given.map (·.name) = a.apps
  live : given.map (·.live) = a.live
  target : given.map (·.target) = a.target
  ns : ∀ d ∈ given, d.ns = a.ns.getD ""

/-- Each name has its two paths. -/
def Paired (a : CheckArgs) : Prop :=
  a.apps.length = a.live.length ∧ a.apps.length = a.target.length

theorem Given.manifests_eq {a : CheckArgs} {given : List AppManifests} (h : Given a given) :
    a.manifests = .ok given := by
  have paired : a.apps.length = a.live.length ∧ a.apps.length = a.target.length := by
    rw [← h.names, ← h.live, ← h.target]
    simp
  have same : given.map (fun d => AppManifests.mk d.name d.live d.target (a.ns.getD "")) = given :=
    (List.map_congr_left fun d member => by rw [← h.ns d member, id]).trans (List.map_id given)
  rw [CheckArgs.manifests, if_pos paired, ← h.names, ← h.live, ← h.target, List.zip_map',
    List.zip_map', List.map_map]
  exact congrArg Except.ok same

theorem manifests_of_not_paired {a : CheckArgs} (h : ¬ Paired a) :
    a.manifests = .error ⟨a.apps.length, a.live.length, a.target.length⟩ :=
  if_neg h

/-! ## The check of applications -/

/-- The failure of a check that has no applications. -/
def noApplications : Failure :=
  ⟨["no applications to check: pass --app/--live/--target or add [[apps]] to the config"]⟩

variable {τ : Type} {w : Surroundings τ} {a : CheckArgs} {c : Config}

theorem exists_config {earlier later : List AppManifests}
    (first : Listed w.files (w.directory.map Config.globalFile) earlier)
    (second : Listed w.files (some (FileTree.join w.files.cwd Config.fileName)) later) :
    ∃ c, config w = .ok c ∧ c.apps = lastDefinitions (earlier ++ later) := by
  obtain ⟨lower, lower_eq, lower_apps⟩ := first.exists_withFile .default
  obtain ⟨upper, upper_eq, upper_apps⟩ := second.exists_withFile lower
  refine ⟨upper.withEnvironment w.env, ?_, ?_⟩
  · rw [config, Config.load, lower_eq]
    change ((Config.withFile _ _ lower) >>= _).mapError _ = _
    rw [Option.map_some, upper_eq]
    rfl
  · change upper.apps = _
    rw [upper_apps, lower_apps, ← List.foldl_append]
    exact foldl_define_nil _

theorem applications_eq {listed given : List AppManifests} (h : Given a given)
    (apps : c.apps = lastDefinitions listed) :
    CheckArgs.applications a (CheckArgs.over a c) =
      if (lastDefinitions (listed ++ given)).isEmpty then .error noApplications
      else .ok ((lastDefinitions (listed ++ given)).map (inNamespace c.diff.defaultNamespace)) := by
  have all : given.foldl define (CheckArgs.over a c).apps = lastDefinitions (listed ++ given) := by
    change given.foldl define c.apps = _
    rw [apps, ← foldl_define_nil, ← List.foldl_append, foldl_define_nil]
  rw [CheckArgs.applications, h.manifests_eq]
  dsimp only
  rw [all]
  rfl

theorem check_of_error {f : Failure} (loaded : config w = .ok c)
    (fault : CheckArgs.applications a (CheckArgs.over a c) = .error f) (s : τ) :
    check w a s = (failed "" "" f, s) := by
  simp [check, loaded, fault, bind, Except.bind]

theorem check_of_ok {apps : List AppManifests} (loaded : config w = .ok c)
    (resolved : CheckArgs.applications a (CheckArgs.over a c) = .ok apps) (s : τ) :
    check w a s =
      checkAll w a (CheckArgs.over a c) (.ofFiles w.files apps) (apps.map (·.name)) s := by
  simp [check, loaded, resolved, bind, Except.bind, pure, Except.pure]

/-- With some application, a check goes on with what its definitions come to. -/
theorem check_eq_checkAll {listed given : List AppManifests} (loaded : config w = .ok c)
    (apps : c.apps = lastDefinitions listed) (gives : Given a given) (some : listed ++ given ≠ []) :
    ∃ names source, Resolved w.files c.diff.defaultNamespace (listed ++ given) names source ∧
      ∀ s, check w a s = checkAll w a (CheckArgs.over a c) source names s := by
  have filled : ¬ (lastDefinitions (listed ++ given)).isEmpty = true := by
    rwa [List.isEmpty_iff, lastDefinitions_eq_nil_iff]
  have settled := applications_eq gives apps
  rw [if_neg filled] at settled
  refine ⟨_, _, resolved_lastDefinitions w.files c.diff.defaultNamespace (listed ++ given),
    fun s => ?_⟩
  rw [check_of_ok loaded settled, names_inNamespace]

theorem check_of_not_paired (w : Surroundings τ) (h : ¬ Paired a) :
    ∃ f, (∀ s, check w a s = (failed "" "" f, s)) ∧ ∀ c, config w = .ok c →
      f = ⟨[Unpaired.message ⟨a.apps.length, a.live.length, a.target.length⟩]⟩ := by
  cases loaded : config w with
  | error f =>
      refine ⟨f, fun s => ?_, fun c other => by cases other⟩
      simp [check, loaded, bind, Except.bind]
  | ok c =>
      refine ⟨_, fun s => check_of_error loaded ?_ s, fun _ _ => rfl⟩
      rw [CheckArgs.applications, manifests_of_not_paired h]

/-- The applications of a check. Whatever the two files and the command line list, the run is given
each name once, and a source that has the manifests and the namespace of its last definition. With
no application, or with names that do not have their two paths, the check fails at once, with the
host as it was. -/
theorem check_resolves_applications (w : Surroundings τ) (a : CheckArgs) :
    (∀ earlier later given, Listed w.files (w.directory.map Config.globalFile) earlier →
      Listed w.files (some (FileTree.join w.files.cwd Config.fileName)) later → Given a given →
      ∃ c, config w = .ok c ∧
        (earlier ++ later ++ given ≠ [] → ∃ names source,
          Resolved w.files c.diff.defaultNamespace (earlier ++ later ++ given) names source ∧
          ∀ s, check w a s = checkAll w a (CheckArgs.over a c) source names s) ∧
        (earlier ++ later ++ given = [] →
          ∀ s, check w a s = (failed "" "" noApplications, s))) ∧
    (¬ Paired a → ∃ f, (∀ s, check w a s = (failed "" "" f, s)) ∧ ∀ c, config w = .ok c →
      f = ⟨[Unpaired.message ⟨a.apps.length, a.live.length, a.target.length⟩]⟩) := by
  refine ⟨fun earlier later given first second gives => ?_, check_of_not_paired w⟩
  obtain ⟨c, loaded, listed⟩ := exists_config first second
  refine ⟨c, loaded, check_eq_checkAll loaded listed gives, fun none => ?_⟩
  have apps := applications_eq gives listed
  rw [none] at apps
  exact check_of_error loaded apps

theorem Listed.of_toOption {files : Files} {path : String} {apps : List AppManifests}
    (h : (Config.loadFile files path).toOption.map (·.apps) = some apps) :
    Listed files (some path) apps := by
  cases loaded : Config.loadFile files path with
  | error e => simp [loaded, Except.toOption] at h
  | ok c =>
      obtain rfl : c.apps = apps := by simpa [loaded, Except.toOption] using h
      exact .file loaded

namespace Stocked
open Layered

def homeApps : String :=
  "[diff]\ndefault_namespace = \"team\"\n" ++
    "[[apps]]\nname = \"shop\"\nlive = \"old\"\ntarget = \"goal\"\n" ++
    "[[apps]]\nname = \"docs\"\nlive = \"pages\"\ntarget = \"goal\"\nnamespace = \"web\"\n"

def projectApps : String :=
  "[[apps]]\nname = \"shop\"\nlive = \"new\"\ntarget = \"goal\"\nnamespace = \"prod\"\n"

def files : Files where
  cwd := "/project"
  root := .folder [
    ("home", .folder [("kubereport", .folder [("config.toml", .file (asciiBytes homeApps))])]),
    ("project", .folder [(".kubereport.toml", .file (asciiBytes projectApps))])]

/-- The definitions of the home, of the project, and of the command line. -/
def definitions : List AppManifests :=
  [⟨"shop", "old", "goal", ""⟩, ⟨"docs", "pages", "goal", "web"⟩] ++
    [⟨"shop", "new", "goal", "prod"⟩] ++
    [⟨"docs", "first", "goal", ""⟩, ⟨"docs", "second", "goal", ""⟩]

/-- A machine without a network. -/
def surroundings (files : Files) : Surroundings Unit :=
  ⟨files, some "/home", [], "", false, fun _ s => (none, s)⟩

/-- A check of applications that are named on the command line, without a namespace. -/
def args (apps live target : List String) : CheckArgs :=
  ⟨⟨"acme/shop", 7⟩, apps, live, target, none, none, none, true⟩

end Stocked

open Stocked in
/-- The project moves the shop to another folder and namespace, and of the two definitions of the
documentation on the command line the second one counts, in the standard namespace. -/
theorem check_resolves_applications_of_shop :
    (∃ c names source, config (surroundings files) = .ok c ∧ names.Nodup ∧
      (∀ name, name ∈ names ↔ name = "shop" ∨ name = "docs") ∧
      source.live "shop" = (Manifest.load files "new").mapError .failed ∧
      source.defaultNamespace "shop" = "prod" ∧
      source.live "docs" = (Manifest.load files "second").mapError .failed ∧
      source.defaultNamespace "docs" = c.diff.defaultNamespace ∧
      let a := args ["docs", "docs"] ["first", "second"] ["goal", "goal"]
      ∀ s, check (surroundings files) a s =
        checkAll (surroundings files) a (CheckArgs.over a c) source names s) ∧
    check (surroundings ⟨"/", .folder []⟩) (args [] [] []) () =
      (failed "" "" noApplications, ()) ∧
    ∃ f, check (surroundings files) (args ["docs"] ["first", "second"] ["goal"]) () =
      (failed "" "" f, ()) := by
  refine ⟨?_, ?_, ?_⟩
  · have earlier : Listed files (some (Config.globalFile "/home"))
        [⟨"shop", "old", "goal", ""⟩, ⟨"docs", "pages", "goal", "web"⟩] :=
      .of_toOption (by decide +kernel)
    have later : Listed files (some (FileTree.join "/project" Config.fileName))
        [⟨"shop", "new", "goal", "prod"⟩] := .of_toOption (by decide +kernel)
    have given : Given (args ["docs", "docs"] ["first", "second"] ["goal", "goal"])
        [⟨"docs", "first", "goal", ""⟩, ⟨"docs", "second", "goal", ""⟩] :=
      ⟨rfl, rfl, rfl, by decide⟩
    obtain ⟨c, loaded, some, -⟩ :=
      (check_resolves_applications (surroundings files) _).1 _ _ _ earlier later given
    obtain ⟨names, source, resolved, checked⟩ := some (by simp)
    have shop : LastIn definitions ⟨"shop", "new", "goal", "prod"⟩ :=
      mem_lastDefinitions_iff.1 (by decide)
    have docs : LastIn definitions ⟨"docs", "second", "goal", ""⟩ :=
      mem_lastDefinitions_iff.1 (by decide)
    have named : ∀ d ∈ definitions, d.name = "shop" ∨ d.name = "docs" := by decide
    have both : ∀ name, name ∈ names ↔ name = "shop" ∨ name = "docs" := by
      intro name
      rw [resolved.complete name]
      constructor
      · rintro ⟨d, member, rfl⟩
        exact named d member
      · rintro (rfl | rfl)
        · exact ⟨⟨"shop", "new", "goal", "prod"⟩, by decide, rfl⟩
        · exact ⟨⟨"docs", "second", "goal", ""⟩, by decide, rfl⟩
    exact ⟨c, names, source, loaded, resolved.distinct, both, resolved.live _ shop,
      resolved.ns _ shop, resolved.live _ docs, resolved.ns _ docs, checked⟩
  · have gone : Listed ⟨"/", .folder []⟩ (some (Config.globalFile "/home")) [] :=
      .absent (by decide)
    have away : Listed ⟨"/", .folder []⟩ (some (FileTree.join "/" Config.fileName)) [] :=
      .absent (by decide)
    obtain ⟨c, -, -, fails⟩ := (check_resolves_applications (surroundings ⟨"/", .folder []⟩)
      (args [] [] [])).1 _ _ [] gone away ⟨rfl, rfl, rfl, List.forall_mem_nil _⟩
    exact fails rfl ()
  · obtain ⟨f, fails, -⟩ := (check_resolves_applications (surroundings files)
      (args ["docs"] ["first", "second"] ["goal"])).2 fun paired => by simp [Paired, args] at paired
    exact ⟨f, fails ()⟩

end Program
end ChangeReport
