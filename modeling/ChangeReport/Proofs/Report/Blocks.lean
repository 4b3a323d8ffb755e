import ChangeReport.Proofs.Report.Failure
import ChangeReport.Proofs.Report.Ownership
import ChangeReport.Proofs.Text.Order
import Mathlib.Data.List.TakeWhile

/-! The blocks of a report. They stand in the order of the names of their applications, and a
change of one section changes nothing outside of its block. -/
namespace ChangeReport

/-! ## Maps that differ at one key -/

namespace Assoc

variable {κ α : Type} [Ord κ]

/-- The entries before a key. -/
def below (k : κ) (m : List (κ × α)) : List (κ × α) := m.filter fun e => compare e.1 k == .lt

/-- The entry of a key, where there is one. -/
def entry (k : κ) (m : List (κ × α)) : List (κ × α) := ((find? k m).map fun v => (k, v)).toList

/-- The entries after a key. -/
def above (k : κ) (m : List (κ × α)) : List (κ × α) := m.filter fun e => compare k e.1 == .lt

variable [Std.LawfulEqOrd κ] [Std.TransOrd κ]

theorem eq_below_entry_above (k : κ) {m : List (κ × α)} (h : Sorted m) :
    m = below k m ++ entry k m ++ above k m := by
  have none_below : ∀ {rest : List (κ × α)}, (∀ e ∈ rest, compare k e.1 = .lt) →
      below k rest = [] := fun later => List.filter_eq_nil_iff.2 fun e member hit => by
    have gt := Std.OrientedCmp.gt_of_lt (later e member)
    simp [gt] at hit
  have all_above : ∀ {rest : List (κ × α)}, (∀ e ∈ rest, compare k e.1 = .lt) →
      above k rest = rest := fun later => List.filter_eq_self.2 fun e member => by
    simp [later e member]
  induction m with
  | nil => rfl
  | cons e rest ih =>
      obtain ⟨x, w⟩ := e
      obtain ⟨later, tail⟩ := List.pairwise_cons.1 h
      cases order : compare k x with
      | gt =>
          have before : compare x k = .lt := Std.OrientedCmp.lt_of_gt order
          have split : rest = below k rest ++ entry k rest ++ above k rest := ih tail
          simp only [below, entry, above, find?, order, before, List.filter_cons] at split ⊢
          simpa using split
      | eq =>
          obtain rfl : k = x := Std.LawfulEqCmp.eq_of_compare order
          have lower := none_below later
          have upper := all_above later
          simp only [below, entry, above, find?, order, List.filter_cons] at lower upper ⊢
          simp [lower, upper]
      | lt =>
          have after : ∀ e ∈ (x, w) :: rest, compare k e.1 = .lt := by
            intro e member
            rcases List.mem_cons.1 member with rfl | member
            · exact order
            · exact Std.TransCmp.lt_trans order (later e member)
          rw [none_below after, all_above after, entry, find?_eq_none_of_lt after]
          rfl

section

variable {k : κ} {m n : List (κ × α)} (hm : Sorted m) (hn : Sorted n)
include hm hn

theorem filter_congr_off (same : ∀ l, l ≠ k → find? l m = find? l n) (p : κ × α → Bool)
    (away : ∀ v, p (k, v) = false) : m.filter p = n.filter p := by
  refine eq_of_find?_eq (hm.filter p) (hn.filter p) fun l => ?_
  rw [find?_filter hm, find?_filter hn]
  by_cases hit : l = k
  · subst hit
    have none : ∀ o : Option α, (o.filter fun v => p (l, v)) = none := fun o => by
      cases o <;> simp [Option.filter, away]
    rw [none, none]
  · rw [same l hit]

/-- Two maps that differ at one key have the same entries before it and the same after it. -/
theorem exists_frame (same : ∀ l, l ≠ k → find? l m = find? l n) :
    ∃ before after, m = before ++ entry k m ++ after ∧ n = before ++ entry k n ++ after := by
  have lower : below k m = below k n :=
    filter_congr_off hm hn same _ fun v => by simp [Std.ReflCmp.compare_self]
  have upper : above k m = above k n :=
    filter_congr_off hm hn same _ fun v => by simp [Std.ReflCmp.compare_self]
  refine ⟨below k m, above k m, eq_below_entry_above k hm, ?_⟩
  rw [lower, upper]
  exact eq_below_entry_above k hn

end

end Assoc

namespace Report
open Text

/-! ## The marks of a failure -/

/-- A text that begins, after blanks and tabs, with the marker of an error or of a warning. -/
def OpensWithMark (cs : List Char) : Prop :=
  ∃ indent marker rest, cs = indent ++ (marker ++ rest) ∧ (∀ c ∈ indent, c = ' ' ∨ c = '\t') ∧
    (marker = errorMarker.toList ∨ marker = warningMarker.toList)

/-- A match of the pattern of failures: from the start of a line on, blanks and tabs and then a
marker. -/
def HasMatch (cs : List Char) : Prop :=
  ∃ before after, cs = before ++ after ∧ BeforeLine before ∧ OpensWithMark after

theorem isIndent_iff {c : Char} : isIndent c = true ↔ c = ' ' ∨ c = '\t' := by
  simp [isIndent]

theorem isMarked_iff {l : List Char} : isMarked l = true ↔ OpensWithMark l := by
  constructor
  · intro marked
    have split : l = l.takeWhile isIndent ++ l.dropWhile isIndent :=
      List.takeWhile_append_dropWhile.symm
    have indent : ∀ c ∈ l.takeWhile isIndent, c = ' ' ∨ c = '\t' := fun c member =>
      isIndent_iff.1 (List.mem_takeWhile_imp member)
    simp only [isMarked, Bool.or_eq_true] at marked
    rcases marked with error | warning
    · obtain ⟨rest, tail⟩ := startsWith_iff.1 error
      exact ⟨_, _, rest, by rw [tail]; exact split, indent, .inl rfl⟩
    · obtain ⟨rest, tail⟩ := startsWith_iff.1 warning
      exact ⟨_, _, rest, by rw [tail]; exact split, indent, .inr rfl⟩
  · rintro ⟨indent, marker, rest, rfl, blank, marks⟩
    induction indent with
    | nil =>
        rcases marks with rfl | rfl
        · exact isMarked_error rest
        · exact isMarked_warning rest
    | cons c indent ih =>
        rw [List.cons_append, isMarked_cons_of_indent (isIndent_iff.2 (blank c (by simp)))]
        exact ih fun d member => blank d (List.mem_cons_of_mem _ member)

theorem OpensWithMark.append {cs : List Char} (h : OpensWithMark cs) (more : List Char) :
    OpensWithMark (cs ++ more) := by
  obtain ⟨indent, marker, rest, rfl, blank, marks⟩ := h
  exact ⟨indent, marker, rest ++ more, by simp, blank, marks⟩

theorem OpensWithMark.firstLine {cs : List Char} (h : OpensWithMark cs) :
    OpensWithMark (Text.firstLine cs) := by
  obtain ⟨indent, marker, rest, rfl, blank, marks⟩ := h
  have one : ∀ c ∈ indent ++ marker, c ≠ '\n' := by
    rintro c member rfl
    rcases List.mem_append.1 member with feed | feed
    · simpa using blank _ feed
    · rcases marks with rfl | rfl <;> simp [errorMarker, warningMarker] at feed
  refine ⟨indent, marker, Text.firstLine rest, ?_, blank, marks⟩
  rw [← List.append_assoc, Text.firstLine, List.takeWhile_append_of_pos (by simpa using one),
    List.append_assoc, Text.firstLine]

/-- The pattern matches a text exactly if one of its lines opens with a mark. -/
theorem hasMatch_iff {cs : List Char} :
    HasMatch cs ↔ ∃ l, IsLine l cs ∧ OpensWithMark l := by
  constructor
  · rintro ⟨before, after, rfl, start, opens⟩
    exact ⟨_, isLine_firstLine start after, opens.firstLine⟩
  · rintro ⟨l, ⟨-, before, after, rfl, start, -⟩, opens⟩
    exact ⟨before, l ++ after, rfl, start, opens.append after⟩

theorem isFailure_iff {body : String} :
    isFailure body = true ↔ ∃ l, IsLine l body.toList ∧ OpensWithMark l := by
  simp only [isFailure, List.any_eq_true, isLine_iff_mem, isMarked_iff]

/-! ## Blocks -/

/-- A block with a sign and a text. -/
def framed (sign app text : String) : String :=
  "\n<details><summary>" ++ sign ++ " <b>" ++ app ++ "</b></summary>\n\n" ++ text ++
    "\n\n</details>\n"

/-- What the block of an application shows: the sign of a failure exactly if a line of the section
opens with a mark, which is a match of the pattern of failures, and otherwise the sign of success;
and the section itself, or in its place the pending text if it is empty. -/
def Shows (app body shown : String) : Prop :=
  ∃ sign text, shown = framed sign app text ∧
    (sign = failIndicator ∨ sign = passIndicator) ∧
    (sign = failIndicator ↔ ∃ l, IsLine l body.toList ∧ OpensWithMark l) ∧
    (sign = failIndicator ↔ HasMatch body.toList) ∧
    (body = "" ∧ text = pending ∨ body ≠ "" ∧ text = body)

theorem shows_block (app body : String) : Shows app body (block app body) := by
  have sign : indicator body = failIndicator ↔ isFailure body = true := by
    unfold indicator
    split <;> simp_all [failIndicator, passIndicator]
  refine ⟨indicator body, if body = "" then pending else body, rfl, ?_, ?_, ?_, ?_⟩
  · unfold indicator
    split
    · exact .inl rfl
    · exact .inr rfl
  · exact sign.trans isFailure_iff
  · exact sign.trans (isFailure_iff.trans hasMatch_iff.symm)
  · by_cases empty : body = ""
    · exact .inl ⟨empty, if_pos empty⟩
    · exact .inr ⟨empty, if_neg empty⟩

/-- The block of an application in a report: nothing for one without a section. -/
def blockAt (sections : Sections) (app : String) : String :=
  (Assoc.find? app sections).elim "" (block app)

/-- The blocks of sections, one after the other. -/
def blocks (sections : Sections) : String := String.join (sections.map fun s => block s.1 s.2)

theorem blocks_append (m n : Sections) : blocks (m ++ n) = blocks m ++ blocks n := by
  rw [blocks, List.map_append, String.join_append]
  rfl

theorem blocks_entry (app : String) (sections : Sections) :
    blocks (Assoc.entry app sections) = blockAt sections app := by
  unfold Assoc.entry blockAt
  cases Assoc.find? app sections with
  | none => rfl
  | some body => simp [blocks]

theorem blocks_eq_join_names {sections : Sections} (sorted : Assoc.Sorted sections) :
    blocks sections = String.join ((sections.map (·.1)).map (blockAt sections)) := by
  rw [blocks, List.map_map]
  refine congrArg String.join (List.map_congr_left fun s member => ?_)
  rw [Function.comp, blockAt, (Assoc.mem_iff_find? sorted).1 member, Option.elim_some]

theorem compose_eq_blocks (layout : Layout) (sections : Sections) (trailer : String) :
    compose layout sections trailer =
      opening layout.identity ++ linkLine layout.pipelineUrl ++ blocks sections ++ foot trailer := by
  rw [compose, head_eq]
  rfl

theorem names_sorted {sections : Sections} (sorted : Assoc.Sorted sections) :
    (sections.map (·.1)).Pairwise Precedes :=
  List.pairwise_map.2 (sorted.imp precedes_iff_compare.2)

/-- A change of one section leaves everything before and after its block as it is. -/
theorem compose_local (layout : Layout) (trailer : String) {app : String} {m n : Sections}
    (hm : Assoc.Sorted m) (hn : Assoc.Sorted n)
    (same : ∀ other, other ≠ app → Assoc.find? other m = Assoc.find? other n) :
    ∃ before after, compose layout m trailer = before ++ blockAt m app ++ after ∧
      compose layout n trailer = before ++ blockAt n app ++ after := by
  obtain ⟨before, after, splitM, splitN⟩ := Assoc.exists_frame hm hn same
  have around : ∀ {sections : Sections}, sections = before ++ Assoc.entry app sections ++ after →
      compose layout sections trailer =
        (opening layout.identity ++ linkLine layout.pipelineUrl ++ blocks before) ++
          blockAt sections app ++ (blocks after ++ foot trailer) := by
    intro sections split
    rw [compose_eq_blocks, ← blocks_entry]
    conv_lhs => rw [split]
    rw [blocks_append, blocks_append]
    simp only [String.append_assoc]
  exact ⟨_, _, around splitM, around splitN⟩

/-- The report at its full length: the head, one block for each application in the order of the
bytes of their names, and the trailer. Where two reports differ in the section of one application,
they differ in its block alone. -/
theorem compose_sorted_local (layout : Layout) (trailer : String) {m : Sections}
    (sorted : Assoc.Sorted m) :
    (∃ names : List String, names.Pairwise Precedes ∧
      (∀ app, app ∈ names ↔ (Assoc.find? app m).isSome) ∧
      compose layout m trailer = opening layout.identity ++ linkLine layout.pipelineUrl ++
        String.join (names.map (blockAt m)) ++ foot trailer) ∧
    (∀ app n, Assoc.Sorted n →
      (∀ other, other ≠ app → Assoc.find? other m = Assoc.find? other n) →
      ∃ before after, compose layout m trailer = before ++ blockAt m app ++ after ∧
        compose layout n trailer = before ++ blockAt n app ++ after) ∧
    (∀ app, Assoc.find? app m = none → blockAt m app = "") ∧
    (∀ app body, Assoc.find? app m = some body → Shows app body (blockAt m app)) ∧
    (byteLength (compose layout m trailer).toList ≤ layout.maxLength →
      build layout m trailer = compose layout m trailer) := by
  refine ⟨⟨m.map (·.1), names_sorted sorted, fun app => Assoc.mem_keys_iff sorted, ?_⟩,
    fun app n => compose_local layout trailer sorted, fun app absent => ?_,
    fun app body present => ?_, build_of_le⟩
  · rw [compose_eq_blocks, blocks_eq_join_names sorted]
  · rw [blockAt, absent, Option.elim_none]
  · rw [blockAt, present, Option.elim_some]
    exact shows_block app body

/-- The sections of a run in which one application is still to come and one has a warning. -/
def halfDone : Sections := [("api", ""), ("web", "2 changes\n \t:warning: no namespace")]

theorem compose_sorted_local_of_halfDone :
    Assoc.Sorted halfDone ∧ Assoc.Sorted (Assoc.insert "cart" "in sync" halfDone) ∧
      (∃ before after, compose .default halfDone "" = before ++ "" ++ after ∧
        compose .default (Assoc.insert "cart" "in sync" halfDone) "" =
          before ++ framed passIndicator "cart" "in sync" ++ after) ∧
      blockAt halfDone "api" = framed passIndicator "api" pending ∧
      blockAt halfDone "web" =
        framed failIndicator "web" "2 changes\n \t:warning: no namespace" := by
  have sorted : Assoc.Sorted halfDone := List.pairwise_pair.2 (by decide)
  have larger : Assoc.Sorted (Assoc.insert "cart" "in sync" halfDone) := Assoc.sorted_insert sorted
  obtain ⟨-, frame, absent, -, -⟩ := compose_sorted_local .default "" sorted
  have others : ∀ other, other ≠ "cart" →
      Assoc.find? other halfDone = Assoc.find? other (Assoc.insert "cart" "in sync" halfDone) :=
    fun other ne => (Assoc.find?_insert_of_ne ne _ _).symm
  refine ⟨sorted, larger, ?_, ?_, ?_⟩
  · obtain ⟨before, after, without, within⟩ := frame "cart" _ larger others
    rw [absent "cart" (by decide)] at without
    exact ⟨before, after, without, within⟩
  · decide
  · decide

end Report
end ChangeReport
