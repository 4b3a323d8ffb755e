import ChangeReport.Proofs.Report.Failure
import ChangeReport.Proofs.Run.Completion

/-! Failures in the report of a run. Work that fails ends with a note whose first line is marked,
and so does a cancellation. The note comes after all else that the work has written, but a
separator puts it on a line of its own, so the section tells of a failure, then and ever after. -/
namespace ChangeReport.Run
open Report

variable {σ : Type} {crew : Crew} {maxConcurrent : Nat} {host : Host σ}

theorem isFailure_errorNote (reason : String) : isFailure (errorNote reason) = true := by
  rw [isFailure_eq, errorNote, String.toList_append, String.toList_append, List.append_assoc]
  exact hasMark_of_marker (by decide) isMarked_error _

theorem isFailure_cancelledNote : isFailure cancelledNote = true := by
  rw [isFailure_eq, cancelledNote, String.toList_append]
  exact hasMark_of_marker (by decide) isMarked_warning _

theorem Worker.exists_failure (w : Worker) {app : String}
    (h : ∀ counts, (w.work app).outcome.status ≠ .diffed counts) :
    ∃ f ∈ fragments (w.work app).changes, isFailure f = true := by
  rcases w.work_cases app with ⟨c, more, -, -, eq⟩ | ⟨before, reason, -, eq⟩
  · rw [eq] at h
    exact absurd rfl (h c.counts)
  · exact ⟨errorNote reason, by simp [eq, fragments], isFailure_errorNote reason⟩

variable {first : String → Option String} {m : Message} {o : AppOutcome}

/-- Whatever the section held before the work on the application, it tells of a failure after work
that did not end well. -/
theorem Completed.section_isFailure (h : Completed crew first m o)
    (failed : ∀ counts, o.status ≠ .diffed counts) :
    ∃ text, m.section? o.name = some text ∧ isFailure text = true := by
  obtain ⟨k, before, work, outcome, text⟩ := h.exists_joined
  have marked : ∃ f ∈ fragments k.changes, isFailure f = true := by
    rcases work with rfl | rfl
    · exact (crew.worker o.name).exists_failure fun counts diffed =>
        failed counts ((congrArg AppOutcome.status outcome).trans diffed)
    · exact ⟨cancelledNote, List.mem_singleton.2 rfl, isFailure_cancelledNote⟩
  obtain ⟨f, member, fails⟩ := marked
  refine ⟨_, text, (isFailure_joined _).trans ?_⟩
  exact List.any_eq_true.2 ⟨f, List.mem_append_right _ member, fails⟩

/-- No failure looks like a success. In every state that a run reaches, whatever the order of its
events, the answers of the host and the sections at its start, an application that failed or was
cancelled has a section that tells of it and that the report shows so, and no further changes
put an end to that. -/
theorem run_flags_failures {message : Message} {state : σ} {before : Bool} {apps : List String}
    {events : List Event} {s : State σ}
    (path : follow crew maxConcurrent host events (State.start message state before apps) = some s)
    (member : o ∈ s.finished ++ s.outcomes) (failed : ∀ counts, o.status ≠ .diffed counts) :
    ∃ text, Flagged s.message o.name text ∧
      ∀ {τ : Type} (other : Host τ) (cs : List Report.Change) (t : τ),
        ∃ more, Flagged (s.message.changeAll other cs t).1 o.name (text ++ more) := by
  obtain ⟨text, holds, failure⟩ :=
    ((sound_follow path).written.completed o member).section_isFailure failed
  have flagged : Flagged s.message o.name text := .of_section? holds failure
  exact ⟨text, flagged, fun other cs t => flagged.changeAll other cs t⟩

/-- One application whose target is not applied yet, and a summarizer that breaks down. -/
def Crew.breaking : Crew where
  source := ⟨["shop"], fun _ => "", fun _ => .ok [],
    fun _ => .ok [.object [("kind", .string "ConfigMap"),
      ("metadata", .object [("name", .string "web")])]]⟩
  differ := fun _ => overlayDiffer
  summarize := some fun _ _ => .error (.crashed "out of memory")

/-- The worker of `shop` breaks down after it has written what it found, below a text from before
the run, and `blog` is cancelled while it waits. -/
theorem run_flags_failures_breaking :
    ∃ s, follow .breaking 1 down
        [.spawn, .spawn, .place 0, .advance 0, .advance 0, .cancel, .advance 0, .advance 0,
          .place 0, .collect 0]
        (State.start ⟨⟨"group/project", 1⟩, .default, 7, [("shop", "earlier")], "", ""⟩ ()
          false ["shop", "blog"]) = some s ∧
      (∃ text, Flagged s.message "shop" text) ∧ ∃ text, Flagged s.message "blog" text := by
  have ends : (follow .breaking 1 down
      [.spawn, .spawn, .place 0, .advance 0, .advance 0, .cancel, .advance 0, .advance 0,
        .place 0, .collect 0]
      (State.start ⟨⟨"group/project", 1⟩, .default, 7, [("shop", "earlier")], "", ""⟩ ()
        false ["shop", "blog"])).map (fun s => s.finished ++ s.outcomes) =
      some [⟨"blog", .cancelled, []⟩, ⟨"shop", .failed (crashReason "out of memory"), []⟩] := by
    decide +kernel
  obtain ⟨s, path, outcomes⟩ := Option.map_eq_some_iff.1 ends
  obtain ⟨shop, flaggedShop, -⟩ := run_flags_failures path
    (o := ⟨"shop", .failed (crashReason "out of memory"), []⟩) (by simp [outcomes]) (by simp)
  obtain ⟨blog, flaggedBlog, -⟩ := run_flags_failures path
    (o := ⟨"blog", .cancelled, []⟩) (by simp [outcomes]) (by simp)
  exact ⟨s, path, ⟨shop, flaggedShop⟩, blog, flaggedBlog⟩

end ChangeReport.Run
