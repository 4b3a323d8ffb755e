import ChangeReport.Manifest.Load
import ChangeReport.Proofs.FileTree
import ChangeReport.Proofs.Text.Utf8

/-! Loading a folder. Its manifests are those of the manifest files below it, in the order of their
paths; the first of these files that holds none ends the load. -/
namespace ChangeReport

open FileTree (PathBefore)

/-- The name of the last part of a path ends in one of the extensions of manifests. -/
def ManifestPath (names : List String) : Prop :=
  ∃ above stem, ∃ e ∈ ["yaml", "yml", "json"], stem ≠ "" ∧ names = above ++ [stem ++ "." ++ e]

theorem isManifestFile_iff {names : List String} :
    isManifestFile names = true ↔ ManifestPath names := by
  have listed : isManifestFile names = true ↔
      ∃ name, names.getLast? = some name ∧
        ∃ e ∈ manifestExtensions, FileTree.extension? name = some e := by
    unfold isManifestFile
    split
    next e found =>
      obtain ⟨name, last, extension⟩ := Option.bind_eq_some_iff.1 found
      simp [last, extension]
    next none =>
      simp only [Bool.false_eq_true, false_iff]
      rintro ⟨name, last, e, -, extension⟩
      rw [last, Option.bind_some, extension] at none
      cases none
  have plain : ∀ e ∈ manifestExtensions, '.' ∉ e.toList := by decide
  rw [listed]
  constructor
  · rintro ⟨name, last, e, member, extension⟩
    obtain ⟨above, rfl⟩ := List.getLast?_eq_some_iff.1 last
    obtain ⟨stem, some, -, rfl⟩ := FileTree.extension?_eq_some_iff.1 extension
    exact ⟨above, stem, e, member, some, rfl⟩
  · rintro ⟨above, stem, e, member, some, rfl⟩
    exact ⟨_, List.getLast?_concat, e, member, FileTree.extension?_append some (plain e member)⟩

namespace Manifest

/-! ## One file -/

/-- The bytes are a text, which holds these manifests. -/
def Reads (bytes : List Nat) (ds : List Document) : Prop :=
  ∃ content : String, Text.toBytes content.toList = bytes ∧ parse? content = some ds

/-- How bytes hold no manifests: they are no text, or that text does not parse. -/
inductive Fault (path : String) (bytes : List Nat) : ManifestError → Prop
  | unreadable (none : ∀ content : String, Text.toBytes content.toList ≠ bytes) :
      Fault path bytes (.read path)
  | malformed {content : String} (text : Text.toBytes content.toList = bytes)
      (none : parse? content = none) : Fault path bytes (.parse path)

/-- Bytes hold manifests, or there is a reason why they do not. -/
theorem reads_or_fault (path : String) (bytes : List Nat) :
    (∃ ds, Reads bytes ds) ∨ ∃ error, Fault path bytes error := by
  by_cases text : ∃ content : String, Text.toBytes content.toList = bytes
  · obtain ⟨content, text⟩ := text
    cases parsed : parse? content with
    | none => exact .inr ⟨_, .malformed text parsed⟩
    | some ds => exact .inl ⟨ds, content, text, parsed⟩
  · exact .inr ⟨_, .unreadable (not_exists.1 text)⟩

section File

variable {path : String} {bytes : List Nat}

theorem ofFile_of_reads {ds : List Document} (read : Reads bytes ds) :
    ofFile path bytes = .ok ds := by
  obtain ⟨content, text, parsed⟩ := read
  have decoded := Text.ofBytes?_eq_some_iff.2 text
  simp only [ofFile, decoded, String.ofList_toList, parsed]

theorem ofFile_of_fault {error : ManifestError} (fault : Fault path bytes error) :
    ofFile path bytes = .error error := by
  cases fault with
  | unreadable none =>
      have undecoded : Text.ofBytes? bytes = .none := Text.ofBytes?_eq_none_iff.2 fun cs text =>
        none (String.ofList cs) (by rw [String.toList_ofList, text])
      simp only [ofFile, undecoded]
  | malformed text unparsed =>
      have decoded := Text.ofBytes?_eq_some_iff.2 text
      simp only [ofFile, decoded, String.ofList_toList, unparsed]

theorem ofFile_eq_ok_iff {ds : List Document} : ofFile path bytes = .ok ds ↔ Reads bytes ds := by
  refine ⟨fun loaded => ?_, ofFile_of_reads⟩
  rcases reads_or_fault path bytes with ⟨es, read⟩ | ⟨error, fault⟩
  · cases loaded.symm.trans (ofFile_of_reads read)
    exact read
  · cases loaded.symm.trans (ofFile_of_fault fault)

theorem ofFile_eq_error_iff {error : ManifestError} :
    ofFile path bytes = .error error ↔ Fault path bytes error := by
  refine ⟨fun failed => ?_, ofFile_of_fault⟩
  rcases reads_or_fault path bytes with ⟨ds, read⟩ | ⟨other, fault⟩
  · cases failed.symm.trans (ofFile_of_reads read)
  · cases failed.symm.trans (ofFile_of_fault fault)
    exact fault

end File

/-! ## Files one after another -/

theorem ofFiles_cons (f : String × List Nat) (rest : List (String × List Nat)) :
    ofFiles (f :: rest) =
      (ofFile f.1 f.2).bind fun ds => (ofFiles rest).map fun more => ds ++ more := by
  rw [ofFiles, ofFiles, List.mapM_cons]
  cases ofFile f.1 f.2 with
  | error e => rfl
  | ok ds => cases rest.mapM fun g => ofFile g.1 g.2 <;> rfl

theorem ofFiles_eq_ok_iff {files : List (String × List Nat)} {ds : List Document} :
    ofFiles files = .ok ds ↔
      ∃ parts, List.Forall₂ (fun f part => Reads f.2 part) files parts ∧ ds = parts.flatten := by
  induction files generalizing ds with
  | nil =>
      refine ⟨fun loaded => ⟨[], .nil, (Except.ok.inj loaded).symm⟩, ?_⟩
      rintro ⟨_, ⟨⟩, rfl⟩
      rfl
  | cons f rest ih =>
      rw [ofFiles_cons]
      constructor
      · intro loaded
        cases here : ofFile f.1 f.2 with
        | error e => rw [here] at loaded; cases loaded
        | ok part =>
            cases below : ofFiles rest with
            | error e => rw [here, below] at loaded; cases loaded
            | ok more =>
                obtain ⟨parts, read, rfl⟩ := ih.1 below
                rw [here, below] at loaded
                cases loaded
                exact ⟨part :: parts, .cons (ofFile_eq_ok_iff.1 here) read, rfl⟩
      · rintro ⟨_, read, rfl⟩
        cases read with
        | @cons _ part _ parts here below =>
            rw [ofFile_eq_ok_iff.2 here, Except.bind, ih.2 ⟨parts, below, rfl⟩]
            rfl

theorem ofFiles_eq_error_iff {files : List (String × List Nat)} {error : ManifestError} :
    ofFiles files = .error error ↔
      ∃ before f after, files = before ++ f :: after ∧ (∀ g ∈ before, ∃ ds, Reads g.2 ds) ∧
        Fault f.1 f.2 error := by
  induction files with
  | nil =>
      refine iff_of_false nofun ?_
      rintro ⟨before, f, after, split, -⟩
      cases before <;> cases split
  | cons f rest ih =>
      rw [ofFiles_cons]
      simp only [List.cons_eq_append_iff]
      constructor
      · intro failed
        cases here : ofFile f.1 f.2 with
        | error e =>
            rw [here] at failed
            cases failed
            exact ⟨[], f, rest, .inl ⟨rfl, rfl⟩, nofun, ofFile_eq_error_iff.1 here⟩
        | ok part =>
            cases below : ofFiles rest with
            | ok more => rw [here, below] at failed; cases failed
            | error e =>
                rw [here, below] at failed
                cases failed
                obtain ⟨before, g, after, rfl, read, fault⟩ := ih.1 below
                refine ⟨f :: before, g, after, .inr ⟨before, rfl, rfl⟩, ?_, fault⟩
                exact List.forall_mem_cons.2 ⟨⟨part, ofFile_eq_ok_iff.1 here⟩, read⟩
      · rintro ⟨before, g, after, ⟨rfl, split⟩ | ⟨before, rfl, rfl⟩, read, fault⟩
        · obtain ⟨rfl, rfl⟩ := List.cons.inj split
          rw [ofFile_eq_error_iff.2 fault]
          rfl
        · obtain ⟨⟨part, here⟩, read⟩ := List.forall_mem_cons.1 read
          rw [ofFile_eq_ok_iff.2 here, Except.bind, ih.2 ⟨before, g, after, rfl, read, fault⟩]
          rfl

theorem ofFiles_map_eq_error_iff {place : List String → String}
    {ms : List (List String × List Nat)} {error : ManifestError} :
    ofFiles (ms.map fun f => (place f.1, f.2)) = .error error ↔
      ∃ before f after, ms = before ++ f :: after ∧ (∀ g ∈ before, ∃ ds, Reads g.2 ds) ∧
        Fault (place f.1) f.2 error := by
  rw [ofFiles_eq_error_iff]
  constructor
  · rintro ⟨_, _, _, split, read, fault⟩
    obtain ⟨before, rest, rfl, rfl, more⟩ := List.map_eq_append_iff.1 split
    obtain ⟨f, after, rfl, rfl, rfl⟩ := List.map_eq_cons_iff.1 more
    exact ⟨before, f, after, rfl, fun g member => read _ (List.mem_map_of_mem member), fault⟩
  · rintro ⟨before, f, after, rfl, read, fault⟩
    refine ⟨_, _, _, List.map_append.trans (congrArg _ List.map_cons), ?_, fault⟩
    exact List.forall_mem_map.2 read

theorem ofFiles_fails_iff {files : List (String × List Nat)} :
    (∃ error, ofFiles files = .error error) ↔ ∃ f ∈ files, ∀ ds, ¬Reads f.2 ds := by
  constructor
  · rintro ⟨error, failed⟩
    obtain ⟨before, f, after, rfl, -, fault⟩ := ofFiles_eq_error_iff.1 failed
    refine ⟨f, List.mem_append_right _ (List.mem_cons_self ..), fun ds read => ?_⟩
    cases (ofFile_eq_ok_iff.2 read).symm.trans (ofFile_eq_error_iff.2 fault)
  · rintro ⟨f, member, none⟩
    cases loaded : ofFiles files with
    | error error => exact ⟨error, rfl⟩
    | ok ds =>
        obtain ⟨parts, read, -⟩ := ofFiles_eq_ok_iff.1 loaded
        have all := (List.forall₂_and_left _ _).1 (read.imp fun g part h =>
          (⟨⟨part, h⟩, h⟩ : (∃ ds, Reads g.2 ds) ∧ Reads g.2 part))
        obtain ⟨part, here⟩ := all.1 f member
        exact absurd here (none part)

/-! ## Folders -/

/-- The manifest files below a place, in the order of their paths. -/
def manifestsBelow (t : FileTree) : List (List String × List Nat) :=
  t.sortedFiles.filter fun f => isManifestFile f.1

theorem mem_manifestsBelow_iff {t : FileTree} {names : List String} {bytes : List Nat} :
    (names, bytes) ∈ manifestsBelow t ↔ t.HasFile names bytes ∧ ManifestPath names := by
  rw [manifestsBelow, List.mem_filter, FileTree.mem_sortedFiles_iff, isManifestFile_iff]

theorem manifestsBelow_pairwise {t : FileTree} (distinct : t.Distinct) :
    (manifestsBelow t).Pairwise fun a b => PathBefore a.1 b.1 :=
  distinct.sortedFiles_pairwise.filter _

theorem manifestsBelow_eq {t u : FileTree} (distinct : t.Distinct) (other : u.Distinct)
    (same : ∀ names bytes, ManifestPath names → (t.HasFile names bytes ↔ u.HasFile names bytes)) :
    manifestsBelow t = manifestsBelow u := by
  refine FileTree.eq_of_pathBefore (manifestsBelow_pairwise distinct)
    (manifestsBelow_pairwise other) fun ⟨names, bytes⟩ => ?_
  rw [mem_manifestsBelow_iff, mem_manifestsBelow_iff]
  exact and_congr_left (same names bytes)

theorem load_of_folder {files : Files} {path : String} {entries : List (String × FileTree)}
    (found : files.find? path = some (.folder entries)) :
    load files path = ofFiles ((manifestsBelow (.folder entries)).map fun f =>
      (FileTree.joinAll path f.1, f.2)) := by
  rw [load, found]
  rfl

/-- A folder is loaded file by file: what the manifest files below it hold, in the order of their
paths, or the fault of the first of them that holds nothing. Nothing else about the folder
counts. -/
theorem load_folder {files : Files} {path : String} {entries : List (String × FileTree)}
    (found : files.find? path = some (.folder entries))
    (distinct : (FileTree.folder entries).Distinct) :
    ∃ ms : List (List String × List Nat),
      (ms.Pairwise (fun a b => PathBefore a.1 b.1) ∧
        ∀ names bytes, (names, bytes) ∈ ms ↔
          (FileTree.folder entries).HasFile names bytes ∧ ManifestPath names) ∧
      (∀ ds, load files path = .ok ds ↔
        ∃ parts, List.Forall₂ (fun f part => Reads f.2 part) ms parts ∧ ds = parts.flatten) ∧
      ((∃ error, load files path = .error error) ↔ ∃ f ∈ ms, ∀ ds, ¬Reads f.2 ds) ∧
      (∀ error, load files path = .error error ↔
        ∃ before f after, ms = before ++ f :: after ∧ (∀ g ∈ before, ∃ ds, Reads g.2 ds) ∧
          Fault (FileTree.joinAll path f.1) f.2 error) ∧
      ∀ (others : Files) (more : List (String × FileTree)),
        others.find? path = some (.folder more) → (FileTree.folder more).Distinct →
        (∀ names bytes, ManifestPath names →
          ((FileTree.folder more).HasFile names bytes ↔
            (FileTree.folder entries).HasFile names bytes)) →
        load others path = load files path := by
  rw [load_of_folder found]
  refine ⟨manifestsBelow (.folder entries),
    ⟨manifestsBelow_pairwise distinct, fun _ _ => mem_manifestsBelow_iff⟩, fun ds => ?_, ?_,
    fun error => ?_, fun others more there distinctMore same => ?_⟩
  · simp only [ofFiles_eq_ok_iff, List.forall₂_map_left_iff]
  · rw [ofFiles_fails_iff]
    simp only [List.mem_map, exists_exists_and_eq_and]
  · exact ofFiles_map_eq_error_iff
  · rw [load_of_folder there, manifestsBelow_eq distinctMore distinct same]

/-- A folder with two manifest files among other things. -/
def apps : List (String × FileTree) :=
  [("a-b.yaml", .file (Text.toBytes "second".toList)), ("README.md", .file [0xFF]),
    ("old.json", .folder []), ("a", .folder [("b.yml", .file (Text.toBytes "first".toList))])]

theorem load_folder_apps :
    ((⟨"/", .folder [("apps", .folder apps)]⟩ : Files).find? "apps" = some (.folder apps) ∧
        (FileTree.folder apps).Distinct) ∧
      load ⟨"/", .folder [("apps", .folder apps)]⟩ "apps" =
        .ok [.string "first", .string "second"] := by
  have found : (⟨"/", .folder [("apps", .folder apps)]⟩ : Files).find? "apps" =
      some (.folder apps) := rfl
  have distinct : (FileTree.folder apps).Distinct := by
    refine .folder (by decide) ?_
    simp only [apps, List.forall_mem_cons]
    exact ⟨.file _, .file _, .folder .nil nofun, .folder (List.nodup_singleton _)
      (List.forall_mem_singleton.2 (.file _)), nofun⟩
  obtain ⟨ms, ⟨sorted, members⟩, ok, -⟩ := load_folder found distinct
  have order : [(["a", "b.yml"], Text.toBytes "first".toList),
      (["a-b.yaml"], Text.toBytes "second".toList)].Pairwise fun a b => PathBefore a.1 b.1 := by
    decide
  have walked : (FileTree.folder apps).files.filter (fun f => isManifestFile f.1) =
      [(["a-b.yaml"], Text.toBytes "second".toList),
        (["a", "b.yml"], Text.toBytes "first".toList)] := by decide
  obtain rfl := FileTree.eq_of_pathBefore sorted order fun ⟨names, bytes⟩ => by
    rw [members, ← FileTree.mem_files_iff, ← isManifestFile_iff]
    exact List.mem_filter.symm.trans (walked ▸ (List.Perm.swap ..).mem_iff)
  refine ⟨⟨found, distinct⟩, (ok _).2 ⟨[[.string "first"], [.string "second"]], ?_, rfl⟩⟩
  exact .cons ⟨"first", rfl, rfl⟩ (.cons ⟨"second", rfl, rfl⟩ .nil)

end Manifest
end ChangeReport
