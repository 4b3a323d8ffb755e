import ChangeReport.Run.Progress
import Mathlib.Data.List.Nodup
import Mathlib.Tactic.Tauto

/-! The rules of a run, one for each kind of step, and what several events lead to. A run
ends: its number of events has a bound, and as long as there is work left some event is
allowed that is no cancellation. -/
namespace ChangeReport.Run

variable {σ : Type}

/-- The names that are queued when an ended worker has found applications: those that are
new, each once. -/
structure Queued (crew : Crew) (apps seen found : List String) : Prop where
  nodup : found.Nodup
  new : ∀ app ∈ found, app ∈ apps ∧ crew.source.knows app = true ∧ app ∉ seen
  all : ∀ app ∈ apps, crew.source.knows app = true → app ∈ found ∨ app ∈ seen

theorem enqueueAll_eq (crew : Crew) (apps : List String) (s : State σ) :
    ∃ found, Queued crew apps s.seen found ∧
      s.enqueueAll crew apps =
        { s with seen := found.reverse ++ s.seen, queue := s.queue ++ found } := by
  induction apps generalizing s with
  | nil =>
      refine ⟨[], ⟨List.nodup_nil, by simp, by simp⟩, ?_⟩
      simp [State.enqueueAll]
  | cons app apps ih =>
      have unfolded :
          s.enqueueAll crew (app :: apps) = (s.enqueue crew app).enqueueAll crew apps := rfl
      by_cases new : app ∉ s.seen ∧ crew.source.knows app = true
      · obtain ⟨fresh, known⟩ := new
        have first :
            s.enqueue crew app = { s with seen := app :: s.seen, queue := s.queue ++ [app] } := by
          simp [State.enqueue, fresh, known]
        obtain ⟨found, queued, rest⟩ := ih (s.enqueue crew app)
        rw [unfolded, rest]
        rw [first] at queued ⊢
        refine ⟨app :: found, ⟨?_, ?_, ?_⟩, by simp⟩
        · refine List.nodup_cons.2 ⟨fun member => ?_, queued.nodup⟩
          exact (queued.new app member).2.2 (List.mem_cons_self ..)
        · intro x member
          rcases List.mem_cons.1 member with rfl | member
          · exact ⟨List.mem_cons_self .., known, fresh⟩
          · obtain ⟨given, knows, unseen⟩ := queued.new x member
            exact ⟨List.mem_cons_of_mem _ given, knows,
              fun seen => unseen (List.mem_cons_of_mem _ seen)⟩
        · intro x given knows
          rcases List.mem_cons.1 given with rfl | given
          · exact .inl (List.mem_cons_self ..)
          · have settled := queued.all x given knows
            simp only [List.mem_cons] at settled ⊢
            tauto
      · have first : s.enqueue crew app = s := by
          simp only [State.enqueue, List.contains_eq_mem, Bool.and_eq_true, Bool.not_eq_eq_eq_not,
            Bool.not_true, decide_eq_false_iff_not, new, if_false]
        obtain ⟨found, queued, rest⟩ := ih s
        rw [unfolded, first, rest]
        refine ⟨found, ⟨queued.nodup, ?_, ?_⟩, rfl⟩
        · intro x member
          obtain ⟨given, knows, unseen⟩ := queued.new x member
          exact ⟨List.mem_cons_of_mem _ given, knows, unseen⟩
        · intro x given knows
          rcases List.mem_cons.1 given with rfl | given
          · exact .inr (by_contra fun unseen => new ⟨unseen, knows⟩)
          · exact queued.all x given knows

theorem eq_append_of_getElem? {α : Type} {xs : List α} {i : Nat} {a : α} (h : xs[i]? = some a) :
    ∃ before after, xs = before ++ a :: after ∧ xs.eraseIdx i = before ++ after ∧
      ∀ b, xs.set i b = before ++ b :: after := by
  induction xs generalizing i with
  | nil => simp at h
  | cons x xs ih =>
      cases i with
      | zero =>
          obtain rfl : x = a := by simpa using h
          exact ⟨[], xs, rfl, rfl, fun _ => rfl⟩
      | succ i =>
          obtain ⟨before, after, all, erased, set⟩ := ih (i := i) (by simpa using h)
          refine ⟨x :: before, after, by simp [all], by simp [erased], fun b => ?_⟩
          rw [List.set_cons_succ, set b, List.cons_append]

/-- The rules of a run. A cancelled run skips the names of its queue and refuses those
that wait. -/
inductive Moves (crew : Crew) (maxConcurrent : Nat) (host : Host σ) (s : State σ) : State σ → Prop
  | cancel (calm : s.cancelled = false) :
      Moves crew maxConcurrent host s { s with cancelled := true }
  | skip {app rest message state} (cancelled : s.cancelled = true) (queue : s.queue = app :: rest)
      (made : s.message.changeAll host (cancelledWork app).changes s.host = (message, state)) :
      Moves crew maxConcurrent host s { s with
        message, host := state, queue := rest
        outcomes := s.outcomes ++ [(cancelledWork app).outcome] }
  | spawn {app rest} (calm : s.cancelled = false) (queue : s.queue = app :: rest) :
      Moves crew maxConcurrent host s { s with queue := rest, waiting := s.waiting ++ [app] }
  | refuse {app before after message state} (cancelled : s.cancelled = true)
      (waiting : s.waiting = before ++ app :: after)
      (made : s.message.changeAll host (cancelledWork app).changes s.host = (message, state)) :
      Moves crew maxConcurrent host s { s with
        message, host := state, waiting := before ++ after
        finished := s.finished ++ [(cancelledWork app).outcome] }
  | place {app before after} (calm : s.cancelled = false)
      (room : s.active.length < places maxConcurrent)
      (waiting : s.waiting = before ++ app :: after) :
      Moves crew maxConcurrent host s { s with
        waiting := before ++ after
        active := s.active ++ [⟨app, (crew.work app).changes, (crew.work app).outcome⟩] }
  | write {app c rest outcome before after message state}
      (active : s.active = before ++ ⟨app, c :: rest, outcome⟩ :: after)
      (made : s.message.changeAll host [c] s.host = (message, state)) :
      Moves crew maxConcurrent host s { s with
        message, host := state, active := before ++ ⟨app, rest, outcome⟩ :: after }
  | leave {app outcome before after} (active : s.active = before ++ ⟨app, [], outcome⟩ :: after) :
      Moves crew maxConcurrent host s { s with
        active := before ++ after, finished := s.finished ++ [outcome] }
  | collect {outcome before after found} (queue : s.queue = [])
      (finished : s.finished = before ++ outcome :: after)
      (queued : Queued crew outcome.children s.seen found) :
      Moves crew maxConcurrent host s { s with
        finished := before ++ after, outcomes := s.outcomes ++ [outcome]
        seen := found.reverse ++ s.seen, queue := found }

theorem change_eq (host : Host σ) (cs : List Report.Change) (s : State σ) :
    s.change host cs = { s with
      message := (s.message.changeAll host cs s.host).1
      host := (s.message.changeAll host cs s.host).2 } := rfl

theorem step?_moves {crew : Crew} {maxConcurrent : Nat} {host : Host σ} {e : Event} {s t : State σ}
    (h : step? crew maxConcurrent host e s = some t) : Moves crew maxConcurrent host s t := by
  cases e with
  | cancel =>
      simp only [step?] at h
      split at h
      · simp at h
      next calm =>
        obtain rfl := Option.some.inj h
        exact .cancel (by simpa using calm)
  | spawn =>
      simp only [step?, spawn] at h
      split at h
      · simp at h
      next app rest queue =>
        split at h
        next cancelled =>
          rw [change_eq] at h
          generalize made : s.message.changeAll host (cancelledWork app).changes s.host = after at h
          obtain rfl := Option.some.inj h
          exact .skip cancelled queue made
        next calm =>
          obtain rfl := Option.some.inj h
          exact .spawn (by simpa using calm) queue
  | place i =>
      simp only [step?, place] at h
      split at h
      · simp at h
      next app waiting =>
        obtain ⟨before, after, all, erased, -⟩ := eq_append_of_getElem? waiting
        split at h
        next room =>
          rw [erased] at h
          split at h
          next cancelled =>
            rw [change_eq] at h
            generalize made :
              s.message.changeAll host (cancelledWork app).changes s.host = after at h
            obtain rfl := Option.some.inj h
            exact .refuse cancelled all made
          next calm =>
            obtain rfl := Option.some.inj h
            exact .place (by simpa using calm) room all
        · simp at h
  | advance i =>
      simp only [step?, advance] at h
      split at h
      · simp at h
      next app outcome active =>
        obtain ⟨before, after, all, erased, -⟩ := eq_append_of_getElem? active
        rw [erased] at h
        obtain rfl := Option.some.inj h
        exact .leave all
      next app c rest outcome active =>
        obtain ⟨before, after, all, -, set⟩ := eq_append_of_getElem? active
        rw [set, change_eq] at h
        generalize made : s.message.changeAll host [c] s.host = after at h
        obtain rfl := Option.some.inj h
        exact .write all made
  | collect i =>
      simp only [step?, collect] at h
      split at h
      next outcome queue finished =>
        obtain ⟨before, after, all, erased, -⟩ := eq_append_of_getElem? finished
        rw [erased] at h
        obtain ⟨found, queued, eq⟩ := enqueueAll_eq crew outcome.children
          { s with finished := before ++ after, outcomes := s.outcomes ++ [outcome] }
        rw [eq] at h
        obtain rfl := Option.some.inj h
        simpa only [queue, List.nil_append] using Moves.collect queue all queued
      · simp at h

/-- The state after events, if the rules allow each of them. -/
def follow (crew : Crew) (maxConcurrent : Nat) (host : Host σ) :
    List Event → State σ → Option (State σ)
  | [], s => some s
  | e :: events, s =>
      (step? crew maxConcurrent host e s).bind (follow crew maxConcurrent host events)

structure State.Ended (s : State σ) : Prop where
  queue : s.queue = []
  waiting : s.waiting = []
  active : s.active = []
  finished : s.finished = []

section
variable {crew : Crew} {maxConcurrent : Nat} {host : Host σ}

theorem follow_cons {e : Event} {events : List Event} {s t : State σ}
    (h : follow crew maxConcurrent host (e :: events) s = some t) :
    ∃ u, step? crew maxConcurrent host e s = some u ∧
      follow crew maxConcurrent host events u = some t :=
  Option.bind_eq_some_iff.1 h

theorem follow_append (first rest : List Event) (s : State σ) :
    follow crew maxConcurrent host (first ++ rest) s =
      (follow crew maxConcurrent host first s).bind (follow crew maxConcurrent host rest) := by
  induction first generalizing s with
  | nil => rfl
  | cons e first ih =>
      rw [List.cons_append, follow, follow, Option.bind_assoc]
      congr 1
      funext u
      exact ih u

/-- What every rule keeps, every run keeps. -/
theorem follow_keeps {kept : State σ → Prop}
    (step : ∀ s t, kept s → Moves crew maxConcurrent host s t → kept t)
    {events : List Event} {s t : State σ}
    (path : follow crew maxConcurrent host events s = some t) (h : kept s) : kept t := by
  induction events generalizing s with
  | nil =>
      obtain rfl := Option.some.inj path
      exact h
  | cons e events ih =>
      obtain ⟨u, first, rest⟩ := follow_cons path
      exact ih rest (step s u h (step?_moves first))

theorem places_pos (maxConcurrent : Nat) : 0 < places maxConcurrent := by
  unfold places
  omega

/-- The schedule never stops before the end. -/
theorem step?_next (cancels : State σ → Bool) {s : State σ} (h : ¬ s.Ended) :
    (step? crew maxConcurrent host (next maxConcurrent cancels s) s).isSome := by
  unfold next
  split
  next cancel =>
    have calm : s.cancelled = false := by
      simp only [Bool.and_eq_true, Bool.not_eq_eq_eq_not, Bool.not_true] at cancel
      exact cancel.1
    simp [step?, calm]
  · cases queue : s.queue with
    | cons app rest =>
        simp only [List.isEmpty_cons, Bool.not_false, if_true, step?, spawn, queue]
        split <;> rfl
    | nil =>
        cases finished : s.finished with
        | cons outcome rest => simp [step?, collect, queue, finished]
        | nil =>
            simp only [List.isEmpty_nil, Bool.not_true, Bool.false_eq_true, if_false]
            split
            next room =>
              cases waiting : s.waiting with
              | nil => simp [waiting] at room
              | cons app rest =>
                  have free : s.active.length < places maxConcurrent := by
                    simp only [Bool.and_eq_true, decide_eq_true_eq] at room
                    exact room.2
                  simp only [step?, place, waiting, List.getElem?_cons_zero, free, if_true]
                  split <;> rfl
            next full =>
              cases active : s.active with
              | cons a rest =>
                  obtain ⟨app, changes, outcome⟩ := a
                  cases changes <;> simp [step?, advance, active]
              | nil =>
                  -- a free place and nobody who waits for it
                  have alone : s.waiting = [] := by
                    have free := places_pos maxConcurrent
                    simpa [active, free] using full
                  exact absurd ⟨queue, alone, active, finished⟩ h

theorem finish_follow (cancels : State σ → Bool) (s : State σ) :
    ∃ events, follow crew maxConcurrent host events s =
      some (finish crew maxConcurrent host cancels s) ∧
      (finish crew maxConcurrent host cancels s).Ended := by
  have principle := finish.induct crew maxConcurrent host cancels
  induction s using principle with
  | case1 s stop =>
      have ended : s.Ended := by
        by_contra h
        have go : (step? crew maxConcurrent host (next maxConcurrent cancels s) s).isSome :=
          step?_next cancels h
        simp [stop] at go
      have unfolded : finish crew maxConcurrent host cancels s = s := by
        rw [finish]
        split
        · rfl
        next t step => simp [stop] at step
      rw [unfolded]
      exact ⟨[], rfl, ended⟩
  | case2 s t step ih =>
      obtain ⟨events, path, ended⟩ := ih
      have unfolded :
          finish crew maxConcurrent host cancels s = finish crew maxConcurrent host cancels t := by
        rw [finish]
        split
        next stop => simp [stop] at step
        next u again =>
          rw [step] at again
          rw [Option.some.inj again]
      rw [unfolded]
      refine ⟨next maxConcurrent cancels s :: events, ?_, ended⟩
      rw [follow, step]
      exact path

end
end ChangeReport.Run
