import ChangeReport.Proofs.Report.Contents
import ChangeReport.Run.Work

/-! What the work on an application amounts to. It ends under the name of its application,
changes no other section, and leaves a section that is not empty. -/
namespace ChangeReport.Run
open Report

namespace Worker

def known (w : Worker) (c : Comparison) : List String :=
  (c.children.filter fun child => w.source.knows child.name).map (·.name)

/-- Work ends well after a comparison, with or without a summary, or it fails with a note
of the reason. -/
theorem work_cases (w : Worker) (app : String) :
    (∃ c more, w.compare app = .ok c ∧
      (more = [] ∨ ∃ text, more = [Report.Change.append app text]) ∧
      w.work app = ⟨.addApp app :: (w.found app c ++ more), ⟨app, .diffed c.counts, w.known c⟩⟩) ∨
    (∃ before reason, (before = [] ∨ ∃ c, w.compare app = .ok c ∧ before = w.found app c) ∧
      w.work app =
        ⟨.addApp app :: (before ++ [.append app (errorNote reason)]),
          ⟨app, .failed reason, []⟩⟩) := by
  unfold work
  cases compared : w.compare app with
  | error e =>
      right
      cases e with
      | crashed m => exact ⟨[], crashReason m, .inl rfl, rfl⟩
      | loadLive e => exact ⟨[], _, .inl rfl, rfl⟩
      | loadTarget e => exact ⟨[], _, .inl rfl, rfl⟩
      | differ key m => exact ⟨[], _, .inl rfl, rfl⟩
  | ok c =>
      simp only [publish]
      cases w.summarize with
      | none => exact .inl ⟨c, [], rfl, .inl rfl, by simp [known]⟩
      | some summarize =>
          by_cases empty : c.counts.isEmpty
          · exact .inl ⟨c, [], rfl, .inl rfl, by simp [known, empty]⟩
          · simp only [empty]
            cases summarize app c with
            | ok text => exact .inl ⟨c, [.append app text], rfl, .inr ⟨text, rfl⟩, by simp [known]⟩
            | error fault =>
                cases fault with
                | failed => exact .inl ⟨c, [], rfl, .inl rfl, by simp [known]⟩
                | crashed m => exact .inr ⟨w.found app c, crashReason m, .inr ⟨c, rfl, rfl⟩, rfl⟩

theorem found_app (w : Worker) (app : String) (c : Comparison) :
    ∀ d ∈ w.found app c, d.app? = some app := by
  intro d member
  simp only [found, List.mem_cons, List.mem_map] at member
  rcases member with rfl | ⟨child, -, rfl⟩ <;> rfl

theorem work_name (w : Worker) (app : String) : (w.work app).outcome.name = app := by
  rcases w.work_cases app with ⟨c, more, -, -, eq⟩ | ⟨before, reason, -, eq⟩ <;> rw [eq]

theorem work_app (w : Worker) (app : String) : ∀ d ∈ (w.work app).changes, d.app? = some app := by
  intro d member
  rcases w.work_cases app with ⟨c, more, -, extra, eq⟩ | ⟨before, reason, done, eq⟩
  · simp only [eq, List.mem_cons, List.mem_append] at member
    rcases member with rfl | member | member
    · rfl
    · exact found_app w app c d member
    · rcases extra with rfl | ⟨text, rfl⟩
      · simp at member
      · obtain rfl := List.mem_singleton.1 member
        rfl
  · simp only [eq, List.mem_cons, List.mem_append, List.not_mem_nil, or_false] at member
    rcases member with rfl | member | rfl
    · rfl
    · rcases done with rfl | ⟨c, -, rfl⟩
      · simp at member
      · exact found_app w app c d member
    · rfl

/-- Only a comparison that succeeds gives work with the status of one, or with further
applications. -/
theorem compared_of_diffed {w : Worker} {app : String} {counts : Counts}
    (h : (w.work app).outcome.status = .diffed counts) :
    ∃ c, w.compare app = .ok c ∧ counts = c.counts ∧ (w.work app).outcome.children = w.known c := by
  rcases w.work_cases app with ⟨c, more, compared, -, eq⟩ | ⟨before, reason, -, eq⟩
  · rw [eq] at h ⊢
    exact ⟨c, compared, (AppStatus.diffed.inj h).symm, rfl⟩
  · rw [eq] at h
    cases h

theorem children_of_not_diffed {w : Worker} {app : String}
    (h : ∀ counts, (w.work app).outcome.status ≠ .diffed counts) :
    (w.work app).outcome.children = [] := by
  rcases w.work_cases app with ⟨c, more, -, -, eq⟩ | ⟨before, reason, -, eq⟩
  · rw [eq] at h
    exact absurd rfl (h c.counts)
  · rw [eq]

end Worker

theorem string_append_ne_empty {a : String} (h : a ≠ "") (b : String) : a ++ b ≠ "" := by
  intro empty
  have chars := congrArg String.toList empty
  rw [String.toList_append] at chars
  exact h (String.toList_eq_nil_iff.1 (List.append_eq_nil_iff.1 chars).1)

theorem errorNote_ne_empty (reason : String) : errorNote reason ≠ "" := by
  have marker : errorMarker ++ " " ≠ "" := by decide
  exact string_append_ne_empty marker reason

theorem cancelledNote_ne_empty : cancelledNote ≠ "" := by decide

theorem fragment_ne_empty (c : Comparison) : fragment c ≠ "" := by
  intro empty
  have chars := congrArg String.toList empty
  simp [fragment] at chars

theorem Worker.exists_fragment (w : Worker) (app : String) :
    ∃ f ∈ fragments (w.work app).changes, f ≠ "" := by
  rcases w.work_cases app with ⟨c, more, -, -, eq⟩ | ⟨before, reason, -, eq⟩
  · exact ⟨fragment c, by simp [eq, fragments, Worker.found], fragment_ne_empty c⟩
  · exact ⟨errorNote reason, by simp [eq, fragments], errorNote_ne_empty reason⟩

theorem cancelledWork_app (app : String) :
    ∀ d ∈ (cancelledWork app).changes, d.app? = some app := by
  intro d member
  obtain rfl := List.mem_singleton.1 member
  rfl

theorem cancelledWork_name (app : String) : (cancelledWork app).outcome.name = app := rfl

end ChangeReport.Run
