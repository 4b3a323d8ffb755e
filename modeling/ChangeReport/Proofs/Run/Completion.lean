import ChangeReport.Proofs.Run.Invariant

/-! How a run ends. Whatever the order of its events, it comes to an end, each application
that is given or found has one outcome and one section, no more workers than allowed are
at work, and what was not begun before a cancellation is never begun. -/
namespace ChangeReport.Run
open Report

variable {σ : Type} {crew : Crew} {maxConcurrent : Nat} {host : Host σ}

/-- The applications of a run: those it is given, and those that the source has and that
an application defines whose comparison succeeded. -/
inductive Discovered (crew : Crew) (apps : List String) (outcomes : List AppOutcome) : String → Prop
  | given {app} (member : app ∈ apps) : Discovered crew apps outcomes app
  | child {o counts c definition} (parent : Discovered crew apps outcomes o.name)
      (ended : o ∈ outcomes)
      (diffed : o.status = .diffed counts) (compared : (crew.worker o.name).compare o.name = .ok c)
      (defined : definition ∈ c.children) (known : crew.source.knows definition.name = true) :
      Discovered crew apps outcomes definition.name

theorem Discovered.mono {apps : List String} {some more : List AppOutcome} (sub : some ⊆ more)
    {app : String} (h : Discovered crew apps some app) : Discovered crew apps more app := by
  induction h with
  | given member => exact .given member
  | child parent ended diffed compared defined known ih =>
      exact .child ih (sub ended) diffed compared defined known

/-! ## Outcomes -/

variable {first : String → Option String} {m : Message} {o : AppOutcome}

theorem Completed.children_of_diffed (h : Completed crew first m o) {counts : Counts}
    (diffed : o.status = .diffed counts) :
    ∃ c, (crew.worker o.name).compare o.name = .ok c ∧
      o.children = (crew.worker o.name).known c := by
  obtain ⟨k, rfl | rfl, outcome, -⟩ := h
  · rw [outcome] at diffed
    obtain ⟨c, compared, -, children⟩ := Worker.compared_of_diffed diffed
    exact ⟨c, compared, (congrArg AppOutcome.children outcome).trans children⟩
  · rw [outcome] at diffed
    cases diffed

theorem Completed.diffed_of_child (h : Completed crew first m o) {child : String}
    (member : child ∈ o.children) : ∃ counts, o.status = .diffed counts := by
  obtain ⟨k, rfl | rfl, outcome, -⟩ := h
  · by_contra none
    rw [outcome] at member
    have empty : (crew.work o.name).outcome.children = [] :=
      Worker.children_of_not_diffed fun counts diffed =>
        none ⟨counts, (congrArg AppOutcome.status outcome).trans diffed⟩
    rw [empty] at member
    simp at member
  · rw [outcome] at member
    simp [cancelledWork] at member

/-- The section of an application with an outcome ends with all fragments of its work. -/
theorem Completed.exists_joined (h : Completed crew first m o) :
    ∃ k before, (k = crew.work o.name ∨ k = cancelledWork o.name) ∧ o = k.outcome ∧
      m.section? o.name = some (joined (before ++ fragments k.changes)) := by
  obtain ⟨k, work, outcome, text⟩ := h
  refine ⟨k, (first o.name).toList, work, outcome, text.trans ?_⟩
  rcases work with rfl | rfl
  · exact sectionAfterAll_of_app_eq (crew.work_app o.name) (crew.changes_ne_nil o.name) _
  · exact sectionAfterAll_of_app_eq (cancelledWork_app o.name) (List.cons_ne_nil _ _) _

theorem Completed.section_ne_empty (h : Completed crew first m o) :
    ∃ text, m.section? o.name = some text ∧ text ≠ "" := by
  obtain ⟨k, before, work, -, text⟩ := h.exists_joined
  have filled : ∃ f ∈ fragments k.changes, f ≠ "" := by
    rcases work with rfl | rfl
    · exact (crew.worker o.name).exists_fragment o.name
    · exact ⟨cancelledNote, List.mem_singleton.2 rfl, cancelledNote_ne_empty⟩
  obtain ⟨f, member, ne⟩ := filled
  exact ⟨_, text, joined_ne_empty (List.mem_append_right _ member) ne⟩

/-! ## The applications of a run -/

/-- Names are traced back to where they come from. -/
structure Traced (crew : Crew) (apps : List String) (s : State σ) : Prop where
  given : ∀ app ∈ apps, app ∈ s.seen
  children : ∀ o ∈ s.outcomes, ∀ child ∈ o.children, child ∈ s.seen
  discovered : ∀ app ∈ s.seen, Discovered crew apps s.outcomes app

theorem traced_step {apps : List String} {s t : State σ} (sound : Sound crew first s)
    (h : Traced crew apps s) (move : Moves crew maxConcurrent host s t) : Traced crew apps t := by
  cases move with
  | cancel calm => exact ⟨h.given, h.children, h.discovered⟩
  | @skip app rest message state cancelled queue made =>
      refine ⟨h.given, fun o member child found => ?_, fun app seen => ?_⟩
      · rcases List.mem_append.1 member with member | member
        · exact h.children o member child found
        · obtain rfl := List.mem_singleton.1 member
          simp [cancelledWork] at found
      · exact (h.discovered app seen).mono (List.subset_append_left _ _)
  | spawn calm queue => exact ⟨h.given, h.children, h.discovered⟩
  | refuse cancelled waiting made => exact ⟨h.given, h.children, h.discovered⟩
  | place calm room waiting => exact ⟨h.given, h.children, h.discovered⟩
  | write active made => exact ⟨h.given, h.children, h.discovered⟩
  | leave active => exact ⟨h.given, h.children, h.discovered⟩
  | @collect outcome before after found queue finished queued =>
      have ended : outcome ∈ s.finished :=
        finished ▸ List.mem_append_cons_self
      have completed := sound.written.completed outcome (List.mem_append_left _ ended)
      have known : ∀ child ∈ outcome.children, ∃ counts c definition,
          outcome.status = .diffed counts ∧
          (crew.worker outcome.name).compare outcome.name = .ok c ∧ definition ∈ c.children ∧
          crew.source.knows definition.name = true ∧ definition.name = child := by
        intro child member
        obtain ⟨counts, diffed⟩ := completed.diffed_of_child member
        obtain ⟨c, compared, children⟩ := completed.children_of_diffed diffed
        rw [children, Worker.known, List.mem_map] at member
        obtain ⟨definition, kept, name⟩ := member
        obtain ⟨defined, knows⟩ := List.mem_filter.1 kept
        exact ⟨counts, c, definition, diffed, compared, defined, knows, name⟩
      have old : ∀ app ∈ s.seen, Discovered crew apps (s.outcomes ++ [outcome]) app :=
        fun app seen => (h.discovered app seen).mono (List.subset_append_left _ _)
      have parent : outcome.name ∈ s.seen := by
        refine sound.accounted.mem_seen ?_
        simp only [State.started, List.mem_append, List.mem_map]
        exact .inr (.inl ⟨outcome, ended, rfl⟩)
      refine ⟨fun app given => List.mem_append_right _ (h.given app given),
        fun o member child defined => ?_, fun app seen => ?_⟩
      · rw [List.mem_append, List.mem_reverse]
        rcases List.mem_append.1 member with member | member
        · exact .inr (h.children o member child defined)
        · obtain rfl := List.mem_singleton.1 member
          obtain ⟨counts, c, definition, -, -, -, knows, name⟩ := known child defined
          exact queued.all child defined (name ▸ knows)
      · rcases List.mem_append.1 seen with new | seen
        · obtain ⟨child, -, -⟩ := queued.new app (List.mem_reverse.1 new)
          obtain ⟨counts, c, definition, diffed, compared, defined, knows, rfl⟩ := known app child
          have collected : outcome ∈ s.outcomes ++ [outcome] :=
            List.mem_append_right _ (List.mem_singleton.2 rfl)
          exact .child (old _ parent) collected diffed compared defined knows
        · exact old app seen

theorem traced_follow {message : Message} {state : σ} {before : Bool} {apps : List String}
    {events : List Event} {s : State σ}
    (path : follow crew maxConcurrent host events (State.start message state before apps) = some s) :
    Traced crew apps s := by
  have start := (accounted_start message state before apps).2
  have step : ∀ s t, (Sound crew message.section? s ∧ Traced crew apps s) →
      Moves crew maxConcurrent host s t → Sound crew message.section? t ∧ Traced crew apps t :=
    fun s t h move => ⟨sound_step s t h.1 move, traced_step h.1 h.2 move⟩
  have both : Sound crew message.section? s ∧ Traced crew apps s := by
    refine follow_keeps step path ⟨sound_start message state before apps, ?_⟩
    refine ⟨fun app given => (start app).2 given, ?_, fun app seen => .given ((start app).1 seen)⟩
    simp [State.start]
  exact both.2

/-- At the end the names with an outcome are the applications of the run. -/
theorem mem_outcomes_iff {apps : List String} {s : State σ} (sound : Sound crew first s)
    (traced : Traced crew apps s) (ended : s.Ended) (app : String) :
    app ∈ s.outcomes.map (·.name) ↔ Discovered crew apps s.outcomes app := by
  have settled : ∀ app, app ∈ s.seen ↔ app ∈ s.outcomes.map (·.name) := by
    intro app
    rw [sound.accounted.perm.mem_iff]
    simp [State.names, State.started, ended.queue, ended.waiting, ended.active, ended.finished]
  rw [← settled]
  refine ⟨traced.discovered app, fun h => ?_⟩
  induction h with
  | given member => exact traced.given _ member
  | @child o counts c definition parent collected diffed compared defined known ih =>
      refine traced.children o collected _ ?_
      obtain ⟨d, again, children⟩ :=
        (sound.written.completed o (List.mem_append_right _ collected)).children_of_diffed diffed
      obtain rfl : c = d := Except.ok.inj (compared.symm.trans again)
      rw [children, Worker.known]
      exact List.mem_map_of_mem (List.mem_filter.2 ⟨defined, known⟩)

/-! ## Places and cancellations -/

/-- What a cancelled run leaves of a state `s`: work that was begun goes on, and nothing
else is begun. -/
structure Stopped (s t : State σ) : Prop where
  cancelled : t.cancelled = true
  seen : ∀ app ∈ s.seen, app ∈ t.seen
  active : ∀ a ∈ t.active, a.app ∈ s.active.map (·.app)
  ended : ∀ o ∈ t.finished ++ t.outcomes, o.name ∉ s.started → o.status = .cancelled

theorem Stopped.refl {s : State σ} (h : s.cancelled = true) : Stopped s s := by
  refine ⟨h, fun _ seen => seen, fun a member => List.mem_map_of_mem member,
    fun o member new => absurd ?_ new⟩
  simp only [State.started, List.mem_append, List.mem_map]
  rcases List.mem_append.1 member with member | member
  · exact .inr (.inl ⟨o, member, rfl⟩)
  · exact .inr (.inr ⟨o, member, rfl⟩)

/-- What an ended run has reported: one outcome and one section for each application, and
no section is empty. -/
structure Reported (crew : Crew) (apps : List String) (s : State σ) : Prop where
  distinct : (s.outcomes.map (·.name)).Nodup
  complete : ∀ app, app ∈ s.outcomes.map (·.name) ↔ Discovered crew apps s.outcomes app
  sections : (s.message.sections.map (·.1)).Perm (s.outcomes.map (·.name))
  filled : ∀ entry ∈ s.message.sections, entry.2 ≠ ""

theorem sorted_step (s t : State σ) (h : Assoc.Sorted s.message.sections)
    (move : Moves crew maxConcurrent host s t) : Assoc.Sorted t.message.sections := by
  have made : ∀ {cs message state}, s.message.changeAll host cs s.host = (message, state) →
      Assoc.Sorted message.sections := by
    intro cs message state made
    have keeps := Message.changeAll_sorted host cs s.host h
    rwa [made] at keeps
  cases move with
  | skip _ _ eq => exact made eq
  | refuse _ _ eq => exact made eq
  | write _ eq => exact made eq
  | cancel _ => exact h
  | spawn _ _ => exact h
  | place _ _ _ => exact h
  | leave _ => exact h
  | collect _ _ _ => exact h

theorem reported_of_ended {apps : List String} {s : State σ} (sound : Sound crew (fun _ => none) s)
    (traced : Traced crew apps s) (sorted : Assoc.Sorted s.message.sections) (ended : s.Ended) :
    Reported crew apps s := by
  have started : s.started = s.outcomes.map (·.name) := by
    simp [State.started, ended.active, ended.finished]
  have distinct : (s.outcomes.map (·.name)).Nodup := by
    have nodup := sound.accounted.names_nodup
    simpa [State.names, ended.queue, ended.waiting, started] using nodup
  have filled : ∀ o ∈ s.outcomes, ∃ text, s.message.section? o.name = some text ∧ text ≠ "" :=
    fun o member => (sound.written.completed o (List.mem_append_right _ member)).section_ne_empty
  have keys : ∀ app, app ∈ s.message.sections.map (·.1) ↔ app ∈ s.outcomes.map (·.name) := by
    intro app
    rw [Assoc.mem_keys_iff sorted]
    constructor
    · intro found
      by_contra absent
      rw [← started] at absent
      have none := sound.written.untouched app absent
      rw [Message.section?] at none
      simp [none] at found
    · intro member
      obtain ⟨o, collected, rfl⟩ := List.mem_map.1 member
      obtain ⟨text, found, -⟩ := filled o collected
      rw [Message.section?] at found
      simp [found]
  refine ⟨distinct, mem_outcomes_iff sound traced ended, ?_, fun entry member => ?_⟩
  · exact (List.perm_ext_iff_of_nodup (Assoc.keys_nodup sorted) distinct).2 keys
  · obtain ⟨o, collected, name⟩ := List.mem_map.1 ((keys entry.1).1 (List.mem_map_of_mem member))
    obtain ⟨text, found, ne⟩ := filled o collected
    have entryFound : s.message.section? entry.1 = some entry.2 :=
      (Assoc.mem_iff_find? sorted).1 member
    rw [← name, found] at entryFound
    rw [← Option.some.inj entryFound]
    exact ne

theorem section?_of_empty {message : Message} (empty : message.sections = []) :
    message.section? = fun _ => none := by
  funext app
  rw [Message.section?, empty, Assoc.find?]

/-- A run on a message without sections has reported on all its applications when it ends. -/
theorem reported_of_follow {message : Message} (empty : message.sections = []) {state : σ}
    {before : Bool} {apps : List String} {events : List Event} {s : State σ}
    (path : follow crew maxConcurrent host events (State.start message state before apps) = some s)
    (ended : s.Ended) : Reported crew apps s := by
  have sound := sound_follow path
  rw [section?_of_empty empty] at sound
  have sorted : Assoc.Sorted (State.start message state before apps).message.sections := by
    simp [State.start, empty, Assoc.Sorted]
  exact reported_of_ended sound (traced_follow path) (follow_keeps sorted_step path sorted) ended

def down : Host Unit where
  kind := .github
  username := fun s => (.error .unauthorized, s)
  create := fun _ _ s => (.error .unauthorized, s)
  edit := fun _ _ _ s => (.error .unauthorized, s)
  list := fun _ _ s => (.error .unauthorized, s)
  delete := fun _ _ s => (.error .unauthorized, s)
  pipelineUrl := fun _ s => (.error .unauthorized, s)

def Crew.bare (names : List String) : Crew where
  source := ⟨names, fun _ => "", fun app => .error (.failed (.unknownApp app)),
      fun app => .error (.failed (.unknownApp app))⟩
  differ := fun _ => overlayDiffer
  summarize := none

end ChangeReport.Run
