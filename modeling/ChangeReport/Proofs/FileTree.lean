import ChangeReport.FileTree
import ChangeReport.Proofs.Text.Order
import Mathlib.Data.List.Nodup
import Mathlib.Data.List.TakeWhile

/-! Walks through trees of files. A walk meets every file below a place, and the files in the order
of their paths do not tell how the tree was walked. -/
namespace ChangeReport.FileTree

/-- What holds of files, and of a folder when it holds of its entries, holds of all trees. -/
theorem entry_induction {P : FileTree → Prop} (file : ∀ bytes, P (.file bytes))
    (folder : ∀ entries, (∀ e ∈ entries, P e.2) → P (.folder entries)) (t : FileTree) : P t :=
  match t with
  | .file bytes => file bytes
  | .folder entries => folder entries fun e _ => entry_induction file folder e.2
termination_by sizeOf t
decreasing_by
  have inside := List.sizeOf_lt_of_mem ‹_›
  obtain ⟨name, t⟩ := e
  simp only [Prod.mk.sizeOf_spec, FileTree.folder.sizeOf_spec] at inside ⊢
  omega

/-- The names lead to a file with these bytes. -/
inductive HasFile : FileTree → List String → List Nat → Prop
  | here (bytes : List Nat) : HasFile (.file bytes) [] bytes
  | inside {entries : List (String × FileTree)} {name : String} {t : FileTree}
      {names : List String} {bytes : List Nat} (entry : (name, t) ∈ entries)
      (below : HasFile t names bytes) : HasFile (.folder entries) (name :: names) bytes

/-- No folder has two entries of one name. -/
inductive Distinct : FileTree → Prop
  | file (bytes : List Nat) : Distinct (.file bytes)
  | folder {entries : List (String × FileTree)} (names : (entries.map (·.1)).Nodup)
      (below : ∀ e ∈ entries, Distinct e.2) : Distinct (.folder entries)

theorem filesOf_eq (entries : List (String × FileTree)) :
    filesOf entries = entries.flatMap fun e => e.2.files.map fun f => (e.1 :: f.1, f.2) := by
  induction entries with
  | nil => rfl
  | cons e rest ih => rw [filesOf, ih, List.flatMap_cons]

theorem mem_files_iff {t : FileTree} {names : List String} {bytes : List Nat} :
    (names, bytes) ∈ t.files ↔ t.HasFile names bytes := by
  induction t using entry_induction generalizing names with
  | file content =>
      rw [files, List.mem_singleton, Prod.mk.injEq]
      constructor
      · rintro ⟨rfl, rfl⟩
        exact .here bytes
      · rintro ⟨⟩
        exact ⟨rfl, rfl⟩
  | folder entries ih =>
      rw [files, filesOf_eq, List.mem_flatMap]
      constructor
      · rintro ⟨e, entry, member⟩
        obtain ⟨f, below, same⟩ := List.mem_map.1 member
        cases same
        exact .inside entry ((ih e entry).1 below)
      · rintro ⟨⟩
        next name t names entry below =>
          exact ⟨(name, t), entry, List.mem_map_of_mem ((ih _ entry).2 below)⟩

/-- Different files have different paths. -/
theorem Distinct.nodup_paths {t : FileTree} (distinct : t.Distinct) :
    (t.files.map (·.1)).Nodup := by
  induction distinct with
  | file bytes => exact List.nodup_singleton _
  | @folder entries names below ih =>
      have paths : (filesOf entries).map (·.1) =
          entries.flatMap fun e => (e.2.files.map (·.1)).map (e.1 :: ·) := by
        simp only [filesOf_eq, List.map_flatMap, List.map_map, Function.comp_def]
      rw [files, paths, List.nodup_flatMap]
      refine ⟨fun e entry => (ih e entry).map List.cons_injective, ?_⟩
      refine (List.pairwise_map.1 names).imp fun {a b} differ => ?_
      refine List.disjoint_left.2 fun path left right => differ ?_
      obtain ⟨_, -, rfl⟩ := List.mem_map.1 left
      obtain ⟨_, -, same⟩ := List.mem_map.1 right
      exact (List.cons.inj same).1.symm

/-! ## The order of paths -/

/-- One path comes before another: name by name, in the order of their bytes, and a folder before
what is below it. -/
def PathBefore (a b : List String) : Prop := List.Lex Text.Precedes a b

theorem pathBefore_iff_compare {a b : List String} : PathBefore a b ↔ compare a b = .lt := by
  rw [PathBefore, List.compare_eq_compareLex]
  induction a generalizing b with
  | nil =>
      cases b with
      | nil => rw [List.compareLex_nil_nil]; exact iff_of_false nofun nofun
      | cons name b => exact iff_of_true .nil List.compareLex_nil_cons
  | cons name a ih =>
      cases b with
      | nil => rw [List.compareLex_cons_nil]; exact iff_of_false nofun nofun
      | cons other b =>
          rw [List.cons_lex_cons_iff, ih, List.compareLex_cons_cons, Ordering.then_eq_lt,
            Text.precedes_iff_compare, Std.LawfulEqCmp.compare_eq_iff_eq]

instance (a b : List String) : Decidable (PathBefore a b) :=
  decidable_of_iff _ pathBefore_iff_compare.symm

example : PathBefore ["a", "b.yaml"] ["a-b.yaml"] ∧ Text.Precedes "a-b.yaml" "a/b.yaml" := by
  simp only [Text.precedes_iff_compare]
  decide

theorem PathBefore.asymm {a b : List String} (before : PathBefore a b) : ¬PathBefore b a := by
  rw [pathBefore_iff_compare] at *
  rw [Std.OrientedCmp.gt_of_lt before]
  nofun

theorem pathLE_iff {a b : List String × List Nat} :
    pathLE a b = true ↔ PathBefore a.1 b.1 ∨ a.1 = b.1 := by
  rw [pathLE, Ordering.isLE_iff_eq_lt_or_eq_eq, pathBefore_iff_compare,
    Std.LawfulEqCmp.compare_eq_iff_eq]

theorem pathLE_total (a b : List String × List Nat) : (pathLE a b || pathLE b a) = true := by
  have swapped : compare b.1 a.1 = (compare a.1 b.1).swap := Std.OrientedCmp.eq_swap
  rw [pathLE, pathLE, swapped]
  cases compare a.1 b.1 <;> rfl

theorem sortedFiles_perm (t : FileTree) : t.sortedFiles.Perm t.files := List.mergeSort_perm _ _

theorem mem_sortedFiles_iff {t : FileTree} {names : List String} {bytes : List Nat} :
    (names, bytes) ∈ t.sortedFiles ↔ t.HasFile names bytes :=
  (sortedFiles_perm t).mem_iff.trans mem_files_iff

theorem Distinct.sortedFiles_pairwise {t : FileTree} (distinct : t.Distinct) :
    t.sortedFiles.Pairwise fun a b => PathBefore a.1 b.1 := by
  have sorted : t.sortedFiles.Pairwise fun a b => pathLE a b = true :=
    List.pairwise_mergeSort (fun _ _ _ => Std.TransCmp.isLE_trans) pathLE_total _
  have differ : t.sortedFiles.Pairwise fun a b => a.1 ≠ b.1 :=
    List.pairwise_map.1 (((sortedFiles_perm t).map Prod.fst).nodup_iff.2 distinct.nodup_paths)
  exact (sorted.and differ).imp fun h => (pathLE_iff.1 h.1).resolve_right h.2

/-- Files in the order of their paths are told by what they are. -/
theorem eq_of_pathBefore {fs gs : List (List String × List Nat)}
    (sorted : fs.Pairwise fun a b => PathBefore a.1 b.1)
    (other : gs.Pairwise fun a b => PathBefore a.1 b.1) (same : ∀ f, f ∈ fs ↔ f ∈ gs) :
    fs = gs := by
  have distinct {hs : List (List String × List Nat)}
      (h : hs.Pairwise fun a b => PathBefore a.1 b.1) : hs.Nodup :=
    h.imp fun before eq => (eq ▸ before).asymm (eq ▸ before)
  have perm := (List.perm_ext_iff_of_nodup (distinct sorted) (distinct other)).2 same
  exact perm.eq_of_pairwise (fun _ _ _ _ ab ba => absurd ba ab.asymm) sorted other

/-! ## Names of files -/

theorem extension?_append {stem e : String} (some : stem ≠ "") (plain : '.' ∉ e.toList) :
    extension? (stem ++ "." ++ e) = .some e := by
  have back : (stem ++ "." ++ e).toList.reverse =
      e.toList.reverse ++ '.' :: stem.toList.reverse := by simp
  have inside : ∀ c ∈ e.toList.reverse, (decide (c ≠ '.')) = true := fun c member =>
    decide_eq_true fun dot => plain (dot ▸ List.mem_reverse.1 member)
  obtain ⟨last, rest, stemBack⟩ := List.exists_cons_of_ne_nil
    (mt List.reverse_eq_nil_iff.1 (mt String.toList_eq_nil_iff.1 some))
  rw [extension?, back, List.dropWhile_append_of_pos inside, List.takeWhile_append_of_pos inside,
    List.dropWhile_cons_of_neg (by decide), List.takeWhile_cons_of_neg (by decide), stemBack,
    List.append_nil, List.reverse_reverse, String.ofList_toList]

/-- A name has an extension when it has a dot that is not its first character; the extension is
what stands after the last one. -/
theorem extension?_eq_some_iff {name e : String} : extension? name = some e ↔
    ∃ stem : String, stem ≠ "" ∧ '.' ∉ e.toList ∧ name = stem ++ "." ++ e := by
  refine ⟨fun found => ?_, ?_⟩
  · unfold extension? at found
    dsimp only at found
    split at found
    next dot last rest after =>
      obtain rfl := Option.some.inj found
      obtain rfl : dot = '.' := by
        have stop := List.head?_dropWhile_not (fun c => decide (c ≠ '.')) name.toList.reverse
        rw [after] at stop
        simpa using stop
      have whole : name.toList.reverse.takeWhile (fun c => decide (c ≠ '.')) ++
          '.' :: last :: rest = name.toList.reverse := by
        rw [← after, List.takeWhile_append_dropWhile]
      refine ⟨String.ofList (last :: rest).reverse, ?_, fun inside => ?_, ?_⟩
      · rw [ne_eq, ← String.toList_eq_nil_iff, String.toList_ofList]
        exact mt List.reverse_eq_nil_iff.1 (List.cons_ne_nil _ _)
      · rw [String.toList_ofList, List.mem_reverse] at inside
        simpa using List.mem_takeWhile_imp inside
      · refine String.toList_inj.1 (List.reverse_injective (whole.symm.trans ?_))
        simp
    next => cases found
  · rintro ⟨stem, some, plain, rfl⟩
    exact extension?_append some plain

end ChangeReport.FileTree
