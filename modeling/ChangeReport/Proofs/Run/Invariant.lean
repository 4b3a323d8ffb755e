import ChangeReport.Proofs.Run.Rules
import ChangeReport.Proofs.Run.Work

/-! What every step of a run keeps. Each name that was seen is in one place, and only
once: in the queue, waiting, at work, ended or collected. The section of an application
holds what its own worker has written so far, whatever the other workers did in between.
-/
namespace ChangeReport.Run
open Report

variable {σ : Type} {crew : Crew} {maxConcurrent : Nat} {host : Host σ}

namespace State

/-- The applications whose worker has passed its check for a cancelled run, or that ended
without one. -/
def started (s : State σ) : List String :=
  s.active.map (·.app) ++ (s.finished.map (·.name) ++ s.outcomes.map (·.name))

def names (s : State σ) : List String := s.queue ++ (s.waiting ++ s.started)

theorem mem_started_iff (s : State σ) (x : String) : x ∈ s.started ↔
    (∃ a ∈ s.active, a.app = x) ∨ ∃ o ∈ s.finished ++ s.outcomes, o.name = x := by
  simp only [started, List.mem_append, List.mem_map, or_and_right, exists_or]

theorem count_names (s : State σ) (x : String) :
    s.names.count x = s.queue.count x + s.waiting.count x + (s.active.map (·.app)).count x +
      (s.finished.map (·.name)).count x + (s.outcomes.map (·.name)).count x := by
  simp only [names, started, List.count_append]
  omega

end State

namespace Crew

theorem work_name (crew : Crew) (app : String) : (crew.work app).outcome.name = app :=
  (crew.worker app).work_name app

theorem changes_ne_nil (crew : Crew) (app : String) : (crew.work app).changes ≠ [] := by
  obtain ⟨f, member, -⟩ := (crew.worker app).exists_fragment app
  intro none
  rw [work] at none
  simp [none, fragments] at member

theorem work_app (crew : Crew) (app : String) : ∀ d ∈ (crew.work app).changes, d.app? = some app :=
  (crew.worker app).work_app app

end Crew

/-! ## Names -/

structure Accounted (s : State σ) : Prop where
  perm : s.seen.Perm s.names
  nodup : s.seen.Nodup

theorem Accounted.names_nodup {s : State σ} (h : Accounted s) :
    s.names.Nodup :=
  h.perm.nodup_iff.1 h.nodup

theorem Accounted.mem_seen {s : State σ} (h : Accounted s) {app : String}
    (member : app ∈ s.started) : app ∈ s.seen := by
  rw [h.perm.mem_iff, State.names]
  exact List.mem_append_right _ (List.mem_append_right _ member)

theorem Accounted.not_started_of_waiting {s : State σ} (h : Accounted s) {app : String}
    {before after : List String} (waiting : s.waiting = before ++ app :: after) :
    app ∉ s.started := by
  intro member
  have once := List.nodup_iff_count_le_one.1 h.names_nodup app
  have there := List.count_pos_iff.2 member
  simp only [State.names, waiting, List.count_append, List.count_cons_self] at once
  omega

/-- An application at work has no other place. -/
theorem Accounted.apart {s : State σ} (h : Accounted s) {a : Active} {before after : List Active}
    (active : s.active = before ++ a :: after) :
    (∀ b ∈ before ++ after, b.app ≠ a.app) ∧ ∀ o ∈ s.finished ++ s.outcomes, o.name ≠ a.app := by
  have once := List.nodup_iff_count_le_one.1 h.names_nodup a.app
  simp only [State.count_names, active, List.map_append, List.map_cons, List.count_append,
    List.count_cons_self] at once
  constructor
  · intro b member same
    have there : 0 < ((before ++ after).map (·.app)).count a.app :=
      List.count_pos_iff.2 (List.mem_map.2 ⟨b, member, same⟩)
    rw [List.map_append, List.count_append] at there
    omega
  · intro o member same
    have there : 0 < ((s.finished ++ s.outcomes).map (·.name)).count a.app :=
      List.count_pos_iff.2 (List.mem_map.2 ⟨o, member, same⟩)
    rw [List.map_append, List.count_append] at there
    omega

theorem Accounted.of_count_eq {s t : State σ} (h : Accounted s) (seen : t.seen = s.seen)
    (count : ∀ x, s.names.count x = t.names.count x) : Accounted t := by
  constructor
  · rw [seen]
    exact h.perm.trans (List.perm_iff_count.2 count)
  · rw [seen]
    exact h.nodup

/-- The names of a list are queued at their first places, after those that are there. -/
theorem foldl_firsts (apps : List String) {seen : List String} (h : seen.Nodup) :
    (apps.foldl (fun seen app => if seen.contains app then seen else seen ++ [app]) seen).Nodup ∧
      ∀ app, app ∈ apps.foldl
          (fun seen app => if seen.contains app then seen else seen ++ [app]) seen ↔
        app ∈ seen ∨ app ∈ apps := by
  induction apps generalizing seen with
  | nil => exact ⟨h, by simp⟩
  | cons x apps ih =>
      rw [List.foldl_cons]
      by_cases old : x ∈ seen
      · have same : (if seen.contains x then seen else seen ++ [x]) = seen := by simp [old]
        obtain ⟨nodup, mem⟩ := ih h
        rw [same]
        refine ⟨nodup, fun app => ?_⟩
        rw [mem, List.mem_cons]
        constructor
        · tauto
        · rintro (seen | rfl | given)
          · exact .inl seen
          · exact .inl old
          · exact .inr given
      · have longer : (if seen.contains x then seen else seen ++ [x]) = seen ++ [x] := by
          simp [old]
        have distinct : (seen ++ [x]).Nodup := by
          rw [List.nodup_append]
          refine ⟨h, List.nodup_singleton x, fun a ha b hb same => ?_⟩
          rw [List.mem_singleton] at hb
          exact old (hb ▸ same ▸ ha)
        obtain ⟨nodup, mem⟩ := ih distinct
        rw [longer]
        refine ⟨nodup, fun app => ?_⟩
        rw [mem, List.mem_append, List.mem_singleton, List.mem_cons]
        tauto

theorem accounted_start (message : Message) (state : σ) (before : Bool) (apps : List String) :
    Accounted (State.start message state before apps) ∧
      ∀ app, app ∈ (State.start message state before apps).seen ↔ app ∈ apps := by
  obtain ⟨nodup, mem⟩ := foldl_firsts apps List.nodup_nil
  refine ⟨⟨?_, nodup⟩, fun app => ?_⟩
  · simp [State.start, State.names, State.started]
  · rw [State.start, mem]
    simp

theorem accounted_step {s t : State σ} (h : Accounted s)
    (worked : ∀ a ∈ s.active, a.outcome.name = a.app)
    (move : Moves crew maxConcurrent host s t) : Accounted t := by
  -- a step moves one name from one place to another; only `collect` adds names
  cases move with
  | cancel calm => exact h.of_count_eq rfl fun _ => rfl
  | skip cancelled queue made =>
      refine h.of_count_eq rfl fun x => ?_
      simp only [State.count_names, queue, List.map_append, List.map_cons, List.map_nil,
        cancelledWork_name, List.count_append, List.count_cons, List.count_nil]
      omega
  | spawn calm queue =>
      refine h.of_count_eq rfl fun x => ?_
      simp only [State.count_names, queue, List.count_append, List.count_cons, List.count_nil]
      omega
  | refuse cancelled waiting made =>
      refine h.of_count_eq rfl fun x => ?_
      simp only [State.count_names, waiting, List.map_append, List.map_cons, List.map_nil,
        cancelledWork_name, List.count_append, List.count_cons, List.count_nil]
      omega
  | place calm room waiting =>
      refine h.of_count_eq rfl fun x => ?_
      simp only [State.count_names, waiting, List.map_append, List.map_cons, List.map_nil,
        List.count_append, List.count_cons, List.count_nil]
      omega
  | write active made =>
      refine h.of_count_eq rfl fun x => ?_
      simp only [State.count_names, active, List.map_append, List.map_cons, List.count_append,
        List.count_cons]
  | @leave app outcome before after active =>
      have name : outcome.name = app :=
        worked ⟨app, [], outcome⟩ (active ▸ List.mem_append_cons_self)
      refine h.of_count_eq rfl fun x => ?_
      simp only [State.count_names, active, List.map_append, List.map_cons, List.map_nil, name,
        List.count_append, List.count_cons, List.count_nil]
      omega
  | @collect outcome before after found queue finished queued =>
      obtain ⟨perm, nodup⟩ := h
      constructor
      · rw [List.perm_iff_count] at perm ⊢
        intro x
        have count := perm x
        simp only [State.count_names, queue, finished, List.map_append, List.map_cons, List.map_nil,
          List.count_append, List.count_cons, List.count_nil, List.count_reverse] at count ⊢
        omega
      · rw [List.nodup_append]
        refine ⟨List.nodup_reverse.2 queued.nodup, nodup, fun a new b old same => ?_⟩
        exact (queued.new a (List.mem_reverse.1 new)).2.2 (same ▸ old)

/-! ## Sections -/

/-- A worker at work has written a part of its changes into its section. -/
def Underway (crew : Crew) (first : String → Option String) (m : Message) (a : Active) : Prop :=
  ∃ done, done ++ a.rest = (crew.work a.app).changes ∧ a.outcome = (crew.work a.app).outcome ∧
    m.section? a.app = sectionAfterAll a.app (first a.app) done

/-- An outcome is that of the whole work on its application, or of a cancellation. -/
def Completed (crew : Crew) (first : String → Option String) (m : Message)
    (o : AppOutcome) : Prop :=
  ∃ k, (k = crew.work o.name ∨ k = cancelledWork o.name) ∧ o = k.outcome ∧
    m.section? o.name = sectionAfterAll o.name (first o.name) k.changes

/-- What the sections hold, from those at the start of the run. -/
structure Written (crew : Crew) (first : String → Option String) (s : State σ) : Prop where
  untouched : ∀ app, app ∉ s.started → s.message.section? app = first app
  underway : ∀ a ∈ s.active, Underway crew first s.message a
  completed : ∀ o ∈ s.finished ++ s.outcomes, Completed crew first s.message o

variable {first : String → Option String}

theorem Underway.of_section?_eq {m n : Message} {a : Active} (h : Underway crew first m a)
    (same : n.section? a.app = m.section? a.app) : Underway crew first n a := by
  obtain ⟨done, split, outcome, text⟩ := h
  exact ⟨done, split, outcome, same.trans text⟩

theorem Completed.of_section?_eq {m n : Message} {o : AppOutcome} (h : Completed crew first m o)
    (same : n.section? o.name = m.section? o.name) : Completed crew first n o := by
  obtain ⟨k, work, outcome, text⟩ := h
  exact ⟨k, work, outcome, same.trans text⟩

theorem Underway.outcome_name {m : Message} {a : Active} (h : Underway crew first m a) :
    a.outcome.name = a.app := by
  obtain ⟨-, -, outcome, -⟩ := h
  rw [outcome, crew.work_name]

theorem Underway.next_app {m : Message} {app : String} {c : Report.Change}
    {rest : List Report.Change} {outcome : AppOutcome}
    (h : Underway crew first m ⟨app, c :: rest, outcome⟩) : c.app? = some app := by
  obtain ⟨done, split, -, -⟩ := h
  refine crew.work_app app c ?_
  rw [← split]
  exact List.mem_append_cons_self

theorem written_start (message : Message) (state : σ) (before : Bool) (apps : List String) :
    Written crew message.section? (State.start message state before apps) :=
  ⟨fun _ _ => rfl, by simp [State.start], by simp [State.start]⟩

section
variable {s : State σ} {message : Message} {state : σ} {cs : List Report.Change}

theorem section?_of_made (made : s.message.changeAll host cs s.host = (message, state))
    (app : String) :
    message.section? app = sectionAfterAll app (s.message.section? app) cs := by
  rw [← Message.changeAll_section? host s.message cs s.host app, made]

theorem section?_of_made_of_ne (made : s.message.changeAll host cs s.host = (message, state))
    {app other : String} (own : ∀ d ∈ cs, d.app? = some app) (ne : other ≠ app) :
    message.section? other = s.message.section? other := by
  rw [section?_of_made made]
  refine sectionAfterAll_of_app_ne (fun d member same => ?_) _
  rw [own d member] at same
  exact ne (Option.some.inj same).symm

end

/-- A change to the section of one application, as all others see it. -/
theorem Written.beside {s : State σ} (h : Written crew first s) {cs : List Report.Change}
    {message : Message} {state : σ}
    (made : s.message.changeAll host cs s.host = (message, state)) {app : String}
    (own : ∀ d ∈ cs, d.app? = some app) :
    (∀ other, other ≠ app → other ∉ s.started → message.section? other = first other) ∧
      (∀ a ∈ s.active, a.app ≠ app → Underway crew first message a) ∧
      ∀ o ∈ s.finished ++ s.outcomes, o.name ≠ app → Completed crew first message o := by
  have frame : ∀ other, other ≠ app → message.section? other = s.message.section? other :=
    fun other ne => section?_of_made_of_ne made own ne
  refine ⟨fun other ne unstarted => ?_, fun a member ne => ?_, fun o member ne => ?_⟩
  · exact (frame other ne).trans (h.untouched other unstarted)
  · exact (h.underway a member).of_section?_eq (frame a.app ne)
  · exact (h.completed o member).of_section?_eq (frame o.name ne)

/-- A step that writes nothing and keeps the workers. Outcomes may move, and none is new. -/
theorem Written.rearrange {s t : State σ} (h : Written crew first s)
    (message : t.message = s.message) (active : t.active = s.active)
    (ended : ∀ o, o ∈ t.finished ++ t.outcomes ↔ o ∈ s.finished ++ s.outcomes) :
    Written crew first t := by
  refine ⟨fun app unstarted => ?_, fun a member => ?_, fun o member => ?_⟩
  · rw [message]
    refine h.untouched app fun started => unstarted ?_
    simpa only [State.mem_started_iff, active, ended] using started
  · rw [message]
    exact h.underway a (active ▸ member)
  · rw [message]
    exact h.completed o ((ended o).1 member)

/-- The end of an application that is not started, with its cancellation as its only change,
wherever its outcome is put. -/
theorem Written.dismiss {s t : State σ} (h : Written crew first s) {app : String}
    (fresh : app ∉ s.started)
    (made : s.message.changeAll host (cancelledWork app).changes s.host = (t.message, t.host))
    (active : t.active = s.active)
    (ended : ∀ o, o ∈ t.finished ++ t.outcomes ↔
      o ∈ s.finished ++ s.outcomes ∨ o = (cancelledWork app).outcome) : Written crew first t := by
  obtain ⟨untouched, underway, completed⟩ := h.beside made (cancelledWork_app app)
  have before := h.untouched app fresh
  rw [State.mem_started_iff, not_or] at fresh
  refine ⟨fun other unstarted => ?_, fun a member => ?_, fun o member => ?_⟩
  · refine untouched other (fun same => unstarted ?_) fun started => unstarted ?_
    · rw [State.mem_started_iff]
      exact .inr ⟨_, (ended _).2 (.inr rfl), (cancelledWork_name app).trans same.symm⟩
    · rw [State.mem_started_iff] at started ⊢
      rw [active]
      exact started.imp_right fun ⟨o, member, name⟩ => ⟨o, (ended o).2 (.inl member), name⟩
  · rw [active] at member
    exact underway a member fun same => fresh.1 ⟨a, member, same⟩
  · rcases (ended o).1 member with old | rfl
    · exact completed o old fun same => fresh.2 ⟨o, old, same⟩
    · refine ⟨cancelledWork app, .inr (by rw [cancelledWork_name]), rfl, ?_⟩
      rw [cancelledWork_name, section?_of_made made, before]

/-- A worker begins with all its changes before it. -/
theorem Written.place {s : State σ} (h : Written crew first s) {app : String}
    (fresh : app ∉ s.started) (waiting : List String) :
    Written crew first { s with
      waiting
      active := s.active ++ [⟨app, (crew.work app).changes, (crew.work app).outcome⟩] } := by
  refine ⟨fun other unstarted => ?_, fun a member => ?_, h.completed⟩
  · refine h.untouched other fun started => unstarted ?_
    rw [State.mem_started_iff] at started ⊢
    exact started.imp_left fun ⟨a, member, name⟩ => ⟨a, List.mem_append_left _ member, name⟩
  · rcases List.mem_append.1 member with member | member
    · exact h.underway a member
    · obtain rfl := List.mem_singleton.1 member
      exact ⟨[], rfl, rfl, h.untouched app fresh⟩

/-- A worker writes its next change, into its own section. -/
theorem Written.write {s : State σ} (h : Written crew first s) (acc : Accounted s) {app : String}
    {c : Report.Change} {rest : List Report.Change} {outcome : AppOutcome}
    {before after : List Active} (active : s.active = before ++ ⟨app, c :: rest, outcome⟩ :: after)
    {message : Message} {state : σ}
    (made : s.message.changeAll host [c] s.host = (message, state)) :
    Written crew first { s with
      message, host := state, active := before ++ ⟨app, rest, outcome⟩ :: after } := by
  have self : (⟨app, c :: rest, outcome⟩ : Active) ∈ s.active := active ▸ List.mem_append_cons_self
  have own : ∀ d ∈ [c], d.app? = some app := by simpa using (h.underway _ self).next_app
  obtain ⟨untouched, underway, completed⟩ := h.beside made own
  obtain ⟨apart, done⟩ := acc.apart active
  refine ⟨fun other unstarted => ?_, fun a member => ?_, fun o member => ?_⟩
  · have outside : other ∉ s.started := by
      simpa only [State.started, active, List.map_append, List.map_cons] using unstarted
    refine untouched other (fun same => outside ?_) outside
    rw [same]
    exact List.mem_append_left _ (List.mem_map.2 ⟨_, self, rfl⟩)
  · have old : a ∈ before ++ after → Underway crew first message a := fun member => by
      refine underway a ?_ (apart a member)
      rw [active]
      exact List.perm_middle.mem_iff.2 (List.mem_cons_of_mem _ member)
    rcases List.mem_cons.1 (List.perm_middle.mem_iff.1 member) with rfl | member
    · obtain ⟨written, split, same, text⟩ := h.underway _ self
      refine ⟨written ++ [c], ?_, same, ?_⟩
      · rw [List.append_assoc, List.singleton_append]
        exact split
      · rw [section?_of_made made, text, sectionAfterAll_append]
    · exact old member
  · exact completed o member (done o member)

/-- A worker that has written all its changes leaves its outcome. -/
theorem Written.leave {s : State σ} (h : Written crew first s) {app : String}
    {outcome : AppOutcome} {before after : List Active}
    (active : s.active = before ++ ⟨app, [], outcome⟩ :: after) :
    Written crew first { s with
      active := before ++ after, finished := s.finished ++ [outcome] } := by
  have worker := h.underway ⟨app, [], outcome⟩ (active ▸ List.mem_append_cons_self)
  have name : outcome.name = app := worker.outcome_name
  refine ⟨fun other unstarted => ?_, fun a member => ?_, fun o member => ?_⟩
  · refine h.untouched other fun member => unstarted ?_
    simp only [State.started, active, List.map_append, List.map_cons, List.map_nil,
      List.mem_append, List.mem_cons, List.not_mem_nil, or_false, name] at member ⊢
    tauto
  · refine h.underway a ?_
    rw [active]
    exact List.perm_middle.mem_iff.2 (List.mem_cons_of_mem _ member)
  · simp only [List.mem_append, List.mem_singleton] at member
    rcases member with (member | rfl) | member
    · exact h.completed o (List.mem_append_left _ member)
    · obtain ⟨written, split, same, text⟩ := worker
      have whole : written = (crew.work app).changes := by simpa using split
      refine ⟨crew.work app, .inl (by rw [name]), same, ?_⟩
      rw [name, ← whole]
      exact text
    · exact h.completed o (List.mem_append_right _ member)

/-- A finished outcome is put to the outcomes of the run. -/
theorem Written.collect {s : State σ} (h : Written crew first s) {outcome : AppOutcome}
    {before after : List AppOutcome} (finished : s.finished = before ++ outcome :: after)
    (seen queue : List String) :
    Written crew first { s with
      finished := before ++ after, outcomes := s.outcomes ++ [outcome], seen, queue } := by
  refine h.rearrange rfl rfl fun o => ?_
  simp only [finished, List.mem_append, List.mem_cons, List.not_mem_nil, or_false]
  tauto

theorem written_step {s t : State σ} (acc : Accounted s) (h : Written crew first s)
    (move : Moves crew maxConcurrent host s t) : Written crew first t := by
  cases move with
  | cancel calm => exact h.rearrange rfl rfl fun _ => .rfl
  | @skip app rest message state cancelled queue made =>
      have fresh : app ∉ s.started := by
        have once := acc.names_nodup
        simp only [State.names, queue, List.cons_append, List.nodup_cons, List.mem_append,
          not_or] at once
        exact once.1.2.2
      refine h.dismiss fresh made rfl fun o => ?_
      rw [← List.append_assoc, List.mem_append, List.mem_singleton]
  | spawn calm queue => exact h.rearrange rfl rfl fun _ => .rfl
  | refuse cancelled waiting made =>
      refine h.dismiss (acc.not_started_of_waiting waiting) made rfl fun o => ?_
      simp only [List.mem_append, List.mem_singleton]
      exact or_right_comm
  | place calm room waiting => exact h.place (acc.not_started_of_waiting waiting) _
  | write active made => exact h.write acc active made
  | leave active => exact h.leave active
  | collect queue finished queued => exact h.collect finished _ _

structure Sound (crew : Crew) (first : String → Option String) (s : State σ) : Prop where
  accounted : Accounted s
  written : Written crew first s

theorem sound_step (s t : State σ) (h : Sound crew first s)
    (move : Moves crew maxConcurrent host s t) : Sound crew first t :=
  ⟨accounted_step h.accounted (fun a member => (h.written.underway a member).outcome_name) move,
    written_step h.accounted h.written move⟩

theorem sound_start (message : Message) (state : σ) (before : Bool) (apps : List String) :
    Sound crew message.section? (State.start message state before apps) :=
  ⟨(accounted_start message state before apps).1, written_start message state before apps⟩

theorem sound_follow {message : Message} {state : σ} {before : Bool} {apps : List String}
    {events : List Event} {s : State σ}
    (path : follow crew maxConcurrent host events (State.start message state before apps) = some s) :
    Sound crew message.section? s :=
  follow_keeps sound_step path (sound_start message state before apps)

end ChangeReport.Run
