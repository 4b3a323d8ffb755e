import ChangeReport.Proofs.Config.Layers

/-! Several layers of a configuration. Merging is associative, and the built-in configuration is its
unit. What layers make together is told from all of them at once: the last one that changes a
setting decides on it, rules add up, and each application is where its last definition is. -/
namespace ChangeReport

/-! ## Values of layers -/

/-- The last of the values that is not the built-in one. -/
def lastChanged {α : Type} [DecidableEq α] (builtIn : α) (vs : List α) : α :=
  (vs.filter (· ≠ builtIn)).getLast?.getD builtIn

/-- The last of the values that are given. -/
def lastGiven {α : Type} (vs : List (Option α)) : Option α := (vs.filterMap id).getLast?

theorem lastGiven_cons {α : Type} (v : Option α) (vs : List (Option α)) :
    lastGiven (v :: vs) = (lastGiven vs).or v := by
  unfold lastGiven
  cases v with
  | none => simp
  | some x =>
      rw [List.filterMap_cons_some (rfl : id (some x) = some x), List.getLast?_cons]
      cases (vs.filterMap id).getLast? <;> rfl

theorem foldl_later {α : Type} [DecidableEq α] (builtIn a : α) (vs : List α) :
    vs.foldl (later builtIn) a = (vs.filter (· ≠ builtIn)).getLast?.getD a := by
  induction vs generalizing a with
  | nil => rfl
  | cons v vs ih =>
      rw [List.foldl_cons, ih, later]
      by_cases same : v = builtIn <;> simp [same, List.getLast?_cons]

theorem foldl_given {α : Type} (a : Option α) (vs : List (Option α)) :
    vs.foldl (fun a b => b.or a) a = (lastGiven vs).or a := by
  induction vs generalizing a with
  | nil => rfl
  | cons v vs ih => rw [List.foldl_cons, ih, lastGiven_cons, Option.or_assoc]

theorem foldl_any {α : Type} (p : α → Bool) (b : Bool) (as : List α) :
    as.foldl (fun b a => b || p a) b = (b || as.any p) := by
  induction as generalizing b with
  | nil => exact (Bool.or_false b).symm
  | cons a as ih => rw [List.foldl_cons, ih, List.any_cons, Bool.or_assoc]

theorem later_assoc {α : Type} [DecidableEq α] (builtIn a b c : α) :
    later builtIn (later builtIn a b) c = later builtIn a (later builtIn b c) := by
  by_cases same : c = builtIn <;> simp [later, same]

/-! ## Applications -/

namespace AppManifests

/-- The definitions of applications that no later one of the same name replaces. -/
def lastDefinitions : List AppManifests → List AppManifests
  | [] => []
  | a :: rest =>
      if rest.any (·.name == a.name) then lastDefinitions rest else a :: lastDefinitions rest

theorem foldl_define (apps more : List AppManifests) :
    more.foldl define apps =
      apps.filter (fun a => !more.any (·.name == a.name)) ++ lastDefinitions more := by
  induction more generalizing apps with
  | nil =>
      rw [lastDefinitions, List.append_nil]
      exact (List.filter_eq_self.2 fun _ _ => rfl).symm
  | cons b more ih =>
      rw [List.foldl_cons, ih, define, List.filter_append, List.filter_filter, List.append_assoc]
      congr 1
      · refine List.filter_congr fun a _ => ?_
        rw [List.any_cons, Bool.not_or, Bool.and_comm, bne, BEq.comm]
      · rw [lastDefinitions]
        cases replaced : more.any (·.name == b.name) <;> simp [replaced]

theorem foldl_define_nil (apps : List AppManifests) :
    apps.foldl define [] = lastDefinitions apps :=
  foldl_define [] apps

theorem lastDefinitions_of_nodup {apps : List AppManifests} (distinct : (apps.map (·.name)).Nodup) :
    lastDefinitions apps = apps := by
  induction apps with
  | nil => rfl
  | cons a rest ih =>
      obtain ⟨new, others⟩ := List.nodup_cons.1 distinct
      have only : rest.any (·.name == a.name) = false := by
        rw [List.any_eq_false]
        intro b member same
        exact new (List.mem_map.2 ⟨b, member, eq_of_beq same⟩)
      rw [lastDefinitions, only, ih others]
      rfl

/-- Without the definitions of a name, layers define what they define without it. -/
theorem filter_foldl_define (name : String) (apps more : List AppManifests) :
    (more.foldl define apps).filter (fun a => a.name != name) =
      (more.filter fun a => a.name != name).foldl define (apps.filter fun a => a.name != name) := by
  induction more generalizing apps with
  | nil => rfl
  | cons b more ih =>
      rw [List.foldl_cons, ih, define, List.filter_append]
      by_cases own : b.name = name
      · simp [own, List.filter_filter]
      · simp only [bne_iff_ne.2 own, List.filter_cons_of_pos, List.filter_nil, List.foldl_cons, define]
        simp only [List.filter_filter, Bool.and_comm]

theorem foldl_define_assoc (a b c : List AppManifests) :
    c.foldl define (b.foldl define a) = (c.foldl define b).foldl define a := by
  induction c generalizing b with
  | nil => rfl
  | cons app c ih =>
      -- the new application drops those of its name from both layers, whichever goes first
      have first : define (b.foldl define a) app = (define b app).foldl define a := by
        rw [define, define, List.foldl_append, List.foldl_cons, List.foldl_nil, define,
          filter_foldl_define, filter_foldl_define, List.filter_filter]
        simp only [Bool.and_self]
      rw [List.foldl_cons, List.foldl_cons, first, ih]

end AppManifests

/-! ## Overrides -/

/-- In the union of several maps the last one with a key decides on it. -/
theorem Assoc.find?_unions {κ α : Type} [Ord κ] [Std.LawfulEqOrd κ] {maps : List (List (κ × α))}
    (sorted : ∀ m ∈ maps, Sorted m) (start : List (κ × α)) (k : κ) :
    find? k (maps.foldl (fun m n => n.foldl (fun m e => insert e.1 e.2 m) m) start) =
      (lastGiven (maps.map (find? k))).or (find? k start) := by
  induction maps generalizing start with
  | nil => rfl
  | cons m maps ih =>
      rw [List.foldl_cons, ih (fun n member => sorted n (List.mem_cons_of_mem _ member)),
        find?_union (sorted m (List.mem_cons_self ..)), List.map_cons, lastGiven_cons,
        Option.or_assoc]

/-! ## Layers -/

theorem DiffPolicy.merge_assoc {a b : DiffPolicy} (c : DiffPolicy)
    (ha : Assoc.Sorted a.resourceOverrides) (hb : Assoc.Sorted b.resourceOverrides) :
    (a.merge b).merge c = a.merge (b.merge c) := by
  rw [merge, merge, merge, merge, DiffPolicy.mk.injEq]
  exact ⟨List.append_assoc .., Assoc.union_assoc ha hb _, later_assoc .., Bool.or_assoc ..⟩

namespace Config

/-- The overrides of a configuration are sorted by the kind they are for. -/
def Sorted (c : Config) : Prop := Assoc.Sorted c.diff.policy.resourceOverrides

instance (c : Config) : Decidable c.Sorted :=
  inferInstanceAs (Decidable (List.Pairwise _ _))

theorem sorted_default : Config.default.Sorted := List.Pairwise.nil

theorem Sorted.merge {a : Config} (h : a.Sorted) (b : Config) : (a.merge b).Sorted :=
  Assoc.sorted_foldl_insert h

theorem sorted_foldl_merge {a : Config} (h : a.Sorted) (layers : List Config) :
    (layers.foldl merge a).Sorted := by
  induction layers generalizing a with
  | nil => exact h
  | cons b layers ih => exact ih (h.merge b)

theorem merge_assoc {a b : Config} (c : Config) (ha : a.Sorted) (hb : b.Sorted) :
    (a.merge b).merge c = a.merge (b.merge c) := by
  have policy := DiffPolicy.merge_assoc c.diff.policy ha hb
  have apps := AppManifests.foldl_define_assoc a.apps b.apps c.apps
  simp only [merge, later_assoc, Option.or_assoc, policy, apps]

/-- Merging in the built-in configuration changes nothing. -/
theorem merge_default (c : Config) : c.merge .default = c := by
  have policy : c.diff.policy.merge DiffConfig.default.policy = c.diff.policy := by
    rw [DiffPolicy.merge, DiffConfig.default, DiffPolicy.default, List.append_nil, Bool.or_false]
    rfl
  rw [merge, default, policy]
  rfl

/-- A configuration that names each application once is what it makes of the built-in one. -/
theorem default_merge {c : Config} (sorted : c.Sorted) (distinct : (c.apps.map (·.name)).Nodup) :
    Config.default.merge c = c := by
  have overrides : c.diff.policy.resourceOverrides.foldl (fun m e => Assoc.insert e.1 e.2 m) [] =
      c.diff.policy.resourceOverrides := Assoc.ofList_of_sorted sorted
  have method : later TrackingMethod.labels .labels c.diff.policy.trackingMethod =
      c.diff.policy.trackingMethod := later_builtIn _ _
  have policy : DiffPolicy.default.merge c.diff.policy = c.diff.policy := by
    rw [DiffPolicy.merge, DiffPolicy.default, overrides, List.nil_append, Bool.false_or, ← later,
      method]
  have apps : c.apps.foldl AppManifests.define [] = c.apps :=
    (AppManifests.foldl_define_nil _).trans (AppManifests.lastDefinitions_of_nodup distinct)
  simp only [merge, default, VcsConfig.default, CommentsConfig.default, DiffConfig.default,
    RunConfig.default, later_builtIn, Option.or_none, policy, apps]

/-! ## Several layers -/

/-- A setting that merging decides on by itself is decided by what all layers say about it. -/
theorem foldl_merge {β : Type} (get : Config → β) (op : β → β → β)
    (each : ∀ a b, get (a.merge b) = op (get a) (get b)) (layers : List Config) :
    get (layers.foldl merge .default) = (layers.map get).foldl op (get .default) := by
  rw [List.foldl_map]
  exact (List.foldl_hom get fun a b => (each a b).symm).symm

theorem foldl_merge_later {β : Type} [DecidableEq β] (get : Config → β)
    (each : ∀ a b, get (a.merge b) = later (get .default) (get a) (get b)) (layers : List Config) :
    get (layers.foldl merge .default) = lastChanged (get .default) (layers.map get) := by
  rw [foldl_merge get _ each, foldl_later]
  rfl

theorem foldl_merge_or {β : Type} (get : Config → Option β)
    (each : ∀ a b, get (a.merge b) = (get b).or (get a)) (unset : get .default = none)
    (layers : List Config) :
    get (layers.foldl merge .default) = lastGiven (layers.map get) := by
  rw [foldl_merge get (fun a b => b.or a) each, foldl_given, unset, Option.or_none]

/-- What layers make of the built-in configuration, told from all of them at once. -/
structure Combined (layers : List Config) (c : Config) : Prop where
  provider : c.vcs.provider = lastChanged VcsConfig.default.provider (layers.map (·.vcs.provider))
  baseUrl : c.vcs.baseUrl = lastGiven (layers.map (·.vcs.baseUrl))
  token : c.vcs.token = lastGiven (layers.map (·.vcs.token))
  username : c.vcs.username = lastGiven (layers.map (·.vcs.username))
  maxCommentLength : c.vcs.maxCommentLength =
    lastChanged VcsConfig.default.maxCommentLength (layers.map (·.vcs.maxCommentLength))
  tidyMode : c.comments.tidyMode =
    lastChanged CommentsConfig.default.tidyMode (layers.map (·.comments.tidyMode))
  identity : c.comments.identity = lastGiven (layers.map (·.comments.identity))
  ignoreDifferences : c.diff.policy.ignoreDifferences =
    layers.flatMap (·.diff.policy.ignoreDifferences)
  sorted : c.Sorted
  resourceOverrides : ∀ kind, Assoc.find? kind c.diff.policy.resourceOverrides =
    lastGiven (layers.map fun l => Assoc.find? kind l.diff.policy.resourceOverrides)
  trackingMethod : c.diff.policy.trackingMethod =
    lastChanged DiffPolicy.default.trackingMethod (layers.map (·.diff.policy.trackingMethod))
  noCache : c.diff.policy.noCache = layers.any (·.diff.policy.noCache)
  defaultNamespace : c.diff.defaultNamespace =
    lastChanged DiffConfig.default.defaultNamespace (layers.map (·.diff.defaultNamespace))
  maxConcurrent : c.run.maxConcurrent =
    lastChanged RunConfig.default.maxConcurrent (layers.map (·.run.maxConcurrent))
  retry : c.run.retry = lastChanged RunConfig.default.retry (layers.map (·.run.retry))
  apps : c.apps = AppManifests.lastDefinitions (layers.flatMap (·.apps))

theorem combined_foldl {layers : List Config} (sorted : ∀ c ∈ layers, c.Sorted) :
    Combined layers (layers.foldl merge .default) where
  provider := foldl_merge_later (·.vcs.provider) (fun _ _ => rfl) layers
  baseUrl := foldl_merge_or (·.vcs.baseUrl) (fun _ _ => rfl) rfl layers
  token := foldl_merge_or (·.vcs.token) (fun _ _ => rfl) rfl layers
  username := foldl_merge_or (·.vcs.username) (fun _ _ => rfl) rfl layers
  maxCommentLength := foldl_merge_later (·.vcs.maxCommentLength) (fun _ _ => rfl) layers
  tidyMode := foldl_merge_later (·.comments.tidyMode) (fun _ _ => rfl) layers
  identity := foldl_merge_or (·.comments.identity) (fun _ _ => rfl) rfl layers
  ignoreDifferences := by
    rw [foldl_merge (·.diff.policy.ignoreDifferences) (· ++ ·) fun _ _ => rfl, List.foldl_map,
      List.foldl_append_eq_append, List.flatMap_def]
    rfl
  sorted := sorted_foldl_merge sorted_default layers
  resourceOverrides := fun kind => by
    have maps : ∀ m ∈ layers.map (·.diff.policy.resourceOverrides), Assoc.Sorted m :=
      List.forall_mem_map.2 sorted
    rw [foldl_merge (·.diff.policy.resourceOverrides) _ fun _ _ => rfl, Assoc.find?_unions maps,
      List.map_map]
    exact Option.or_none
  trackingMethod := foldl_merge_later (·.diff.policy.trackingMethod) (fun _ _ => rfl) layers
  noCache := by
    rw [foldl_merge (·.diff.policy.noCache) (· || ·) fun _ _ => rfl, List.foldl_map, foldl_any]
    exact Bool.false_or _
  defaultNamespace := foldl_merge_later (·.diff.defaultNamespace) (fun _ _ => rfl) layers
  maxConcurrent := foldl_merge_later (·.run.maxConcurrent) (fun _ _ => rfl) layers
  retry := foldl_merge_later (·.run.retry) (fun _ _ => rfl) layers
  apps := by
    rw [foldl_merge (·.apps) (fun a b => b.foldl AppManifests.define a) fun _ _ => rfl,
      List.foldl_map, ← List.foldl_flatMap, ← AppManifests.foldl_define_nil]
    rfl

/-! ## Layers that are read -/

theorem sorted_of_map? {α : Type} {read : Tree → Option α} {t : Tree} {m : List (String × α)}
    (h : t.map? read = some m) : Assoc.Sorted m := by
  cases t with
  | object members =>
      obtain ⟨entries, -, rfl⟩ := Option.map_eq_some_iff.1 h
      exact Assoc.sorted_ofList entries
  | _ => cases h

theorem sorted_of_readDiff {t : Tree} {d : DiffConfig} (h : readDiff t = some d) :
    Assoc.Sorted d.policy.resourceOverrides := by
  unfold readDiff at h
  split at h
  · simp only [DiffPolicy.ofRecord?, bind, Option.bind_eq_some_iff, pure, Option.some.injEq] at h
    obtain ⟨r, -, -, ⟨-, -, overrides, read, -, -, -, -, rfl⟩, -, -, rfl⟩ := h
    rcases Record.orElse_cases read with ⟨-, rfl⟩ | ⟨u, -, meant⟩
    · exact .nil
    · exact sorted_of_map? meant
  · cases h

/-- The overrides of a file come sorted. -/
theorem sorted_of_ofTree? {t : Tree} {c : Config} (h : ofTree? t = some c) : c.Sorted := by
  simp only [ofTree?, bind, Option.bind_eq_some_iff, pure, Option.some.injEq] at h
  obtain ⟨r, -, -, -, -, -, diff, read, -, -, -, -, rfl⟩ := h
  rcases Record.orElse_cases read with ⟨-, rfl⟩ | ⟨u, -, meant⟩
  · exact .nil
  · exact sorted_of_readDiff meant

theorem sorted_of_loadFile {files : Files} {path : String} {c : Config}
    (loaded : loadFile files path = .ok c) : c.Sorted := by
  unfold loadFile at loaded
  split at loaded
  · cases loaded
  · split at loaded
    · cases loaded
    next text _ _ d parsed =>
      obtain ⟨t, -, read⟩ := Option.bind_eq_some_iff.1 parsed
      exact Except.ok.inj loaded ▸ sorted_of_ofTree? read

theorem exists_of_map_eq_ok {ε α β : Type} {f : α → β} {x : Except ε α} {b : β}
    (h : x.map f = .ok b) : ∃ a, x = .ok a ∧ f a = b := by
  cases x with
  | error e => cases h
  | ok a => exact ⟨a, rfl, Except.ok.inj h⟩

theorem exists_of_bind_eq_ok {ε α β : Type} {f : α → Except ε β} {x : Except ε α} {b : β}
    (h : (x >>= f) = .ok b) : ∃ a, x = .ok a ∧ f a = .ok b := by
  cases x with
  | error e => cases h
  | ok a => exact ⟨a, rfl, h⟩

/-- A file that is there is one more layer. -/
theorem exists_layers_of_withFile {files : Files} {path : Option String} {a c : Config}
    (loaded : withFile files path a = .ok c) :
    ∃ layers : List Config, (∀ l ∈ layers, ∃ path, loadFile files path = .ok l) ∧
      c = layers.foldl merge a := by
  unfold withFile at loaded
  split at loaded
  · obtain rfl := Except.ok.inj loaded
    exact ⟨[], List.forall_mem_nil _, List.foldl_nil.symm⟩
  next path =>
    split at loaded
    · obtain ⟨b, read, rfl⟩ := exists_of_map_eq_ok loaded
      exact ⟨[b], List.forall_mem_singleton.2 ⟨path, read⟩, rfl⟩
    · obtain rfl := Except.ok.inj loaded
      exact ⟨[], List.forall_mem_nil _, List.foldl_nil.symm⟩

/-- A configuration that is loaded is what the files that are there make together, under the
variables of the environment. -/
theorem exists_combined_of_load {files : Files} {directory root : Option String} {env : Environment}
    {c : Config} (loaded : load files directory root env = .ok c) :
    ∃ layers : List Config, (∀ l ∈ layers, ∃ path, loadFile files path = .ok l) ∧
      ∃ d, Combined layers d ∧ c = d.withEnvironment env := by
  obtain ⟨a, first, loaded⟩ := exists_of_bind_eq_ok loaded
  obtain ⟨b, second, loaded⟩ := exists_of_bind_eq_ok loaded
  obtain rfl := Except.ok.inj loaded
  obtain ⟨lower, lower_read, rfl⟩ := exists_layers_of_withFile first
  obtain ⟨upper, upper_read, rfl⟩ := exists_layers_of_withFile second
  have read : ∀ l ∈ lower ++ upper, ∃ path, loadFile files path = .ok l :=
    List.forall_mem_append.2 ⟨lower_read, upper_read⟩
  have sorted : ∀ l ∈ lower ++ upper, l.Sorted := by
    intro l member
    obtain ⟨path, own⟩ := read l member
    exact sorted_of_loadFile own
  rw [← List.foldl_append]
  exact ⟨lower ++ upper, read, _, combined_foldl sorted, rfl⟩

/-- Configurations are merged layer by layer, in any grouping, and the built-in one adds nothing.
So each setting of a configuration is told from its layers: from the last one that changes or gives
it, or from all of them together. -/
theorem merge_layers :
    (∀ a b c : Config, a.Sorted → b.Sorted → (a.merge b).merge c = a.merge (b.merge c)) ∧
    (∀ c : Config, c.merge .default = c) ∧
    (∀ c : Config, c.Sorted → (c.apps.map (·.name)).Nodup → Config.default.merge c = c) ∧
    ∀ layers : List Config, (∀ c ∈ layers, c.Sorted) →
      Combined layers (layers.foldl Config.merge .default) :=
  ⟨fun _ _ c ha hb => merge_assoc c ha hb, merge_default, fun _ => default_merge,
    fun _ => combined_foldl⟩

def shop (live : String) : AppManifests := ⟨"shop", live, "target", ""⟩

/-- A layer that names an application twice. -/
def homeLayer : Config :=
  { Config.default with
    vcs := { VcsConfig.default with provider := .gitlab, token := some "secret" }
    diff := ⟨{ DiffPolicy.default with
      resourceOverrides := [("apps/Deployment", ⟨none, ["spec"]⟩), ("apps/Job", ⟨none, []⟩)] }, "team"⟩
    apps := [shop "old", ⟨"docs", "live", "target", ""⟩, shop "new"] }

def projectLayer : Config :=
  { Config.default with
    diff := ⟨{ DiffPolicy.default with
      resourceOverrides := [("apps/Deployment", ⟨none, []⟩)], noCache := true }, ""⟩
    run := ⟨8, { RetryPolicy.default with maxElapsed := 1000 }⟩
    apps := [⟨"docs", "newer", "target", ""⟩] }

def bothLayers : Config := [homeLayer, projectLayer].foldl merge .default

/-- The project replaces the documentation and one override, and leaves the rest as it is. -/
theorem merge_layers_of_project :
    (homeLayer.Sorted ∧ projectLayer.Sorted ∧ (projectLayer.apps.map (·.name)).Nodup) ∧
      (projectLayer.merge homeLayer).merge projectLayer =
        projectLayer.merge (homeLayer.merge projectLayer) ∧
      Config.default.merge projectLayer = projectLayer ∧
      bothLayers.vcs.provider = .gitlab ∧ bothLayers.vcs.token = some "secret" ∧
      bothLayers.diff.policy.noCache = true ∧
      Assoc.find? "apps/Deployment" bothLayers.diff.policy.resourceOverrides = some ⟨none, []⟩ ∧
      bothLayers.apps = [shop "new", ⟨"docs", "newer", "target", ""⟩] := by
  have home : homeLayer.Sorted := by decide
  have project : projectLayer.Sorted := by decide
  have distinct : (projectLayer.apps.map (·.name)).Nodup := by decide
  obtain ⟨assoc, -, unit, combined⟩ := merge_layers
  have both : ∀ c ∈ [homeLayer, projectLayer], c.Sorted :=
    List.forall_mem_cons.2 ⟨home, List.forall_mem_singleton.2 project⟩
  have made : Combined [homeLayer, projectLayer] bothLayers := combined _ both
  exact ⟨⟨home, project, distinct⟩, assoc _ _ _ project home, unit _ project distinct,
    made.provider.trans (by decide), made.token.trans (by decide), made.noCache.trans (by decide),
    (made.resourceOverrides _).trans (by decide), made.apps.trans (by decide)⟩

end Config

end ChangeReport
