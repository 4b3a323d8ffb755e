import ChangeReport.Proofs.Conversation.Listing
import Mathlib.Data.List.Forall2

/-! One pass over old reports, whatever the host answers. Nothing is changed unless the login and all
comments are known. Then there is one call for each report of the reporter that is not hidden yet,
whether or not the calls before it succeed, and the counts tell what came of them. -/
namespace ChangeReport.Conversation
open Report Host

variable {σ : Type}

/-! ## The login -/

/-- How the login is found out: it is known from before, or the host is asked for it. -/
inductive Lookup (c : Conversation) :
    List Event → Except ConversationError String → Conversation → Prop
  | known (login) (known : c.login = some login) : Lookup c [] (.ok login) c
  | told (login) (fresh : c.login = none) :
      Lookup c [.username (.ok login)] (.ok login) { c with login := some login }
  | refused (e) (fresh : c.login = none) :
      Lookup c [.username (.error e)] (.error (.identity e)) c

theorem exists_lookup (host : Host σ) (c : Conversation) (s : σ) :
    ∃ events answer d t, Lookup c events answer d ∧ c.identity host s = (answer, d, t) ∧
      ∀ before, c.identity host.recorded ⟨s, before⟩ = (answer, d, ⟨t, before ++ events⟩) := by
  cases known : c.login with
  | some login =>
      refine ⟨[], .ok login, c, s, .known login known, by simp only [identity, known], fun before => ?_⟩
      simp only [identity, known, List.append_nil]
  | none =>
      rcases asked : host.username s with ⟨answer, t⟩
      have noted := noting_eq .username asked
      cases answer with
      | error e =>
          refine ⟨_, _, c, t, .refused e known, ?_, fun before => ?_⟩
          · simp only [identity, known, asked]
          · simp only [identity, known, recorded, noted]
      | ok login =>
          refine ⟨_, _, _, t, .told login known, ?_, fun before => ?_⟩
          · simp only [identity, known, asked]
          · simp only [identity, known, recorded, noted]

/-! ## The reports -/

/-- Whether a pass leaves a report as it is: one that is hidden is not hidden again. -/
def isSkipped (mode : TidyMode) (c : Comment) : Bool :=
  match mode with
  | .delete => false
  | .hide => isHidden c.body

/-- The call that a pass makes for a report. -/
inductive Cleans (r : ChangeRequest) : TidyMode → Comment → Event → Prop
  | delete (c answer) : Cleans r .delete c (.delete r c.id answer)
  | hide (c answer) : Cleans r .hide c (.edit r c.id (Report.hide c) answer)

theorem exists_report_of_mem {r : ChangeRequest} {mode : TidyMode} {reports : List Comment}
    {calls : List Event} (h : List.Forall₂ (Cleans r mode) reports calls) {x : Event}
    (member : x ∈ calls) : ∃ c ∈ reports, Cleans r mode c x := by
  induction h with
  | nil => cases member
  | cons clean _ ih =>
      rcases List.mem_cons.1 member with rfl | later
      · exact ⟨_, List.mem_cons_self .., clean⟩
      · obtain ⟨c, inside, cleans⟩ := ih later
        exact ⟨c, List.mem_cons_of_mem _ inside, cleans⟩

/-- The counts after one more report that is not skipped. -/
def countCall (o : TidyOutcome) (call : Event) : TidyOutcome :=
  if call.succeeds then { o with owned := o.owned + 1, tidied := o.tidied + 1 }
  else { o with owned := o.owned + 1, failed := o.failed + 1 }

theorem tidyOne_of_isSkipped (host : Host σ) (r : ChangeRequest) {mode : TidyMode} {c : Comment}
    (skipped : isSkipped mode c = true) (o : TidyOutcome) (s : σ) :
    tidyOne host r mode o c s =
      ({ o with owned := o.owned + 1, skipped := o.skipped + 1 }, s) := by
  cases mode with
  | delete => cases skipped
  | hide =>
      have hidden : isHidden c.body = true := skipped
      simp only [tidyOne, hidden, if_true]

theorem exists_call (host : Host σ) (r : ChangeRequest) {mode : TidyMode} {c : Comment}
    (open_ : isSkipped mode c = false) (o : TidyOutcome) (s : σ) :
    ∃ call t, Cleans r mode c call ∧ tidyOne host r mode o c s = (countCall o call, t) ∧
      ∀ before, tidyOne host.recorded r mode o c ⟨s, before⟩ =
        (countCall o call, ⟨t, before ++ [call]⟩) := by
  cases mode with
  | delete =>
      rcases made : host.delete r c.id s with ⟨answer, t⟩
      have noted := noting_eq (.delete r c.id) made
      refine ⟨_, t, .delete c answer, ?_, fun before => ?_⟩
      · cases answer <;> simp only [tidyOne, made] <;> rfl
      · cases answer <;> simp only [tidyOne, recorded, noted] <;> rfl
  | hide =>
      have shown : isHidden c.body = false := open_
      rcases made : host.edit r c.id (Report.hide c) s with ⟨answer, t⟩
      have noted := noting_eq (.edit r c.id (Report.hide c)) made
      refine ⟨_, t, .hide c answer, ?_, fun before => ?_⟩
      · cases answer <;> simp only [tidyOne, shown, made] <;> rfl
      · cases answer <;> simp only [tidyOne, shown, recorded, noted] <;> rfl

/-- The counts after some more reports with these calls. -/
def tallied (mode : TidyMode) (o : TidyOutcome) (reports : List Comment) (calls : List Event) :
    TidyOutcome where
  owned := o.owned + reports.length
  tidied := o.tidied + calls.countP (·.succeeds)
  skipped := o.skipped + reports.countP (isSkipped mode)
  failed := o.failed + calls.countP fun call => !call.succeeds

theorem tallied_cons_of_isSkipped {mode : TidyMode} {c : Comment} (skipped : isSkipped mode c = true)
    (o : TidyOutcome) (reports : List Comment) (calls : List Event) :
    tallied mode { o with owned := o.owned + 1, skipped := o.skipped + 1 } reports calls =
      tallied mode o (c :: reports) calls := by
  simp only [tallied, List.length_cons, List.countP_cons_of_pos skipped, TidyOutcome.mk.injEq,
    true_and, and_true]
  omega

theorem tallied_cons_of_call {mode : TidyMode} {c : Comment} (due : isSkipped mode c = false)
    (o : TidyOutcome) (call : Event) (reports : List Comment) (calls : List Event) :
    tallied mode (countCall o call) reports calls =
      tallied mode o (c :: reports) (call :: calls) := by
  cases done : call.succeeds with
  | true =>
      simp [tallied, countCall, done, due]
      omega
  | false =>
      simp [tallied, countCall, done, due]
      omega

/-- The calls for some reports, one after another, and the counts that come of them. -/
theorem exists_calls (host : Host σ) (r : ChangeRequest) (mode : TidyMode) (reports : List Comment)
    (o : TidyOutcome) (s : σ) :
    ∃ calls t, List.Forall₂ (Cleans r mode) (reports.filter fun c => !isSkipped mode c) calls ∧
      reports.foldl (fun acc c => tidyOne host r mode acc.1 c acc.2) (o, s) =
        (tallied mode o reports calls, t) ∧
      ∀ before, reports.foldl (fun acc c => tidyOne host.recorded r mode acc.1 c acc.2)
        (o, ⟨s, before⟩) = (tallied mode o reports calls, ⟨t, before ++ calls⟩) := by
  induction reports generalizing o s with
  | nil => exact ⟨[], s, .nil, rfl, fun before => by rw [List.append_nil]; rfl⟩
  | cons c reports ih =>
      cases skipped : isSkipped mode c with
      | true =>
          obtain ⟨calls, t, cleaned, plain, noted⟩ :=
            ih { o with owned := o.owned + 1, skipped := o.skipped + 1 } s
          rw [tallied_cons_of_isSkipped skipped] at plain noted
          refine ⟨calls, t, by simpa [skipped] using cleaned, ?_, fun before => ?_⟩
          · rw [List.foldl_cons, tidyOne_of_isSkipped host r skipped]
            exact plain
          · rw [List.foldl_cons, tidyOne_of_isSkipped host.recorded r skipped]
            exact noted before
      | false =>
          obtain ⟨call, t, clean, first, firstNoted⟩ := exists_call host r skipped o s
          obtain ⟨calls, u, cleaned, plain, noted⟩ := ih (countCall o call) t
          rw [tallied_cons_of_call skipped] at plain noted
          refine ⟨call :: calls, u, ?_, ?_, fun before => ?_⟩
          · rw [List.filter_cons_of_pos (by simp [skipped])]
            exact .cons clean cleaned
          · rw [List.foldl_cons, first]
            exact plain
          · rw [List.foldl_cons, firstNoted, noted (before ++ [call]), List.append_assoc]
            rfl

/-! ## The whole pass -/

/-- The counts of a pass over some reports with these calls. -/
def outcomeOf (mode : TidyMode) (reports : List Comment) (calls : List Event) : TidyOutcome :=
  tallied mode ⟨0, 0, 0, 0⟩ reports calls

/-- The calls of a pass, what comes of them, and the reporter afterwards. -/
inductive Pass (c : Conversation) (mode : TidyMode) :
    List Event → Except ConversationError TidyOutcome → Conversation → Prop
  | refused {asks e d} (looked : Lookup c asks (.error e) d) : Pass c mode asks (.error e) d
  | unlisted {asks login d reads e} (looked : Lookup c asks (.ok login) d)
      (listing : Listing c.changeRequest maxPages 1 reads (.error e)) :
      Pass c mode (asks ++ reads) (.error e) d
  | swept {asks login d reads comments calls} (looked : Lookup c asks (.ok login) d)
      (listing : Listing c.changeRequest maxPages 1 reads (.ok comments))
      (cleaned : List.Forall₂ (Cleans c.changeRequest mode)
        ((comments.filter (owns c.layout.identity login)).filter fun x => !isSkipped mode x)
          calls) :
      Pass c mode (asks ++ reads ++ calls)
        (.ok (outcomeOf mode (comments.filter (owns c.layout.identity login)) calls)) d

theorem Lookup.kept {c d : Conversation} {events : List Event}
    {answer : Except ConversationError String} (h : Lookup c events answer d) :
    d.changeRequest = c.changeRequest ∧ d.layout = c.layout ∧ d.retry = c.retry := by
  cases h <;> exact ⟨rfl, rfl, rfl⟩

theorem exists_pass (host : Host σ) (mode : TidyMode) (c : Conversation) (s : σ) :
    ∃ events answer d t, Pass c mode events answer d ∧ c.tidy host mode s = (answer, d, t) ∧
      ∀ before, c.tidy host.recorded mode ⟨s, before⟩ = (answer, d, ⟨t, before ++ events⟩) := by
  obtain ⟨asks, login, d, t, looked, plain, noted⟩ := exists_lookup host c s
  cases login with
  | error e =>
      refine ⟨asks, .error e, d, t, .refused looked, ?_, fun before => ?_⟩
      · simp only [tidy, plain]
      · simp only [tidy, noted]
  | ok login =>
      obtain ⟨request, layout, -⟩ := looked.kept
      obtain ⟨reads, comments, u, listing, read, readNoted⟩ :=
        exists_listing host c.changeRequest maxPages 1 t
      cases comments with
      | error e =>
          refine ⟨asks ++ reads, .error e, d, u, .unlisted looked listing, ?_, fun before => ?_⟩
          · simp only [tidy, plain, allComments, request, read]
          · simp only [tidy, noted, allComments, request, readNoted, List.append_assoc]
      | ok comments =>
          obtain ⟨calls, v, cleaned, swept, sweptNoted⟩ := exists_calls host c.changeRequest mode
            (comments.filter (owns c.layout.identity login)) ⟨0, 0, 0, 0⟩ u
          refine ⟨asks ++ reads ++ calls, _, d, v, .swept looked listing cleaned, ?_,
            fun before => ?_⟩
          · simp only [tidy, plain, allComments, request, read, layout, tidyAll, swept]
            rfl
          · simp only [tidy, noted, allComments, request, readNoted, layout, tidyAll, sweptNoted,
              List.append_assoc]
            rfl

/-! ## Faults -/

/-- What goes wrong with a call that finds out about the login or the comments. -/
def lookupFault? : Event → Option ConversationError
  | .username (.error e) => some (.identity e)
  | .list _ page (.error e) => some (.list page e)
  | _ => none

def fault? {α : Type} : Except ConversationError α → Option ConversationError
  | .ok _ => none
  | .error e => some e

theorem Lookup.of_mem {c d : Conversation} {asks : List Event}
    {answer : Except ConversationError String} (h : Lookup c asks answer d) {x : Event}
    (member : x ∈ asks) : lookupFault? x = fault? answer ∧ x.target? = none := by
  cases h with
  | known => cases member
  | told | refused =>
      obtain rfl := List.mem_singleton.1 member
      exact ⟨rfl, rfl⟩

theorem Listing.of_mem {r : ChangeRequest} {left n : Nat} {reads : List Event}
    {answer : Except ConversationError (List Comment)} (h : Listing r left n reads answer)
    {x : Event} (member : x ∈ reads) :
    (lookupFault? x = none ∨ lookupFault? x = fault? answer) ∧ x.target? = none := by
  cases h with
  | whole =>
      obtain ⟨k, p, -, rfl⟩ := exists_page_of_mem_listings member
      exact ⟨.inl rfl, rfl⟩
  | broken =>
      rcases List.mem_append.1 member with read | last
      · obtain ⟨k, p, -, rfl⟩ := exists_page_of_mem_listings read
        exact ⟨.inl rfl, rfl⟩
      · obtain rfl := List.mem_singleton.1 last
        exact ⟨.inr rfl, rfl⟩

theorem Listing.exists_fault {r : ChangeRequest} {left n : Nat} {reads : List Event}
    {e : ConversationError} (h : Listing r left n reads (.error e)) :
    ∃ x ∈ reads, lookupFault? x = some e := by
  cases h with
  | broken => exact ⟨_, List.mem_concat_self, rfl⟩

theorem Cleans.lookupFault?_eq {r : ChangeRequest} {mode : TidyMode} {c : Comment} {call : Event}
    (h : Cleans r mode c call) : lookupFault? call = none := by
  cases h <;> rfl

/-- The fault of a pass is the one of a call that finds out about the login or the comments, and
then the pass changes nothing. -/
theorem Pass.of_fault {c d : Conversation} {mode : TidyMode} {events : List Event}
    {answer : Except ConversationError TidyOutcome} (h : Pass c mode events answer d) {x : Event}
    (member : x ∈ events) {e : ConversationError} (fault : lookupFault? x = some e) :
    answer = .error e ∧ ∀ y ∈ events, y.target? = none := by
  cases h with
  | refused looked =>
      obtain ⟨same, -⟩ := looked.of_mem member
      obtain rfl := Option.some.inj (same.symm.trans fault)
      exact ⟨rfl, fun y inside => (looked.of_mem inside).2⟩
  | unlisted looked listing =>
      refine ⟨?_, fun y inside => (List.mem_append.1 inside).elim (fun ask => (looked.of_mem ask).2)
        fun read => (listing.of_mem read).2⟩
      rcases List.mem_append.1 member with ask | read
      · cases fault.symm.trans (looked.of_mem ask).1
      · rcases (listing.of_mem read).1 with none | same
        · cases fault.symm.trans none
        · exact congrArg Except.error (Option.some.inj (same.symm.trans fault))
  | swept looked listing cleaned =>
      rcases List.mem_append.1 member with find | call
      · rcases List.mem_append.1 find with ask | read
        · cases fault.symm.trans (looked.of_mem ask).1
        · rcases (listing.of_mem read).1 with none | none
          · cases fault.symm.trans none
          · cases fault.symm.trans none
      · obtain ⟨y, -, clean⟩ := exists_report_of_mem cleaned call
        cases fault.symm.trans clean.lookupFault?_eq

/-- The counts of a pass add up: every report is tidied, skipped or left behind. -/
theorem outcomeOf_owned {r : ChangeRequest} {mode : TidyMode} {reports : List Comment}
    {calls : List Event}
    (h : List.Forall₂ (Cleans r mode) (reports.filter fun x => !isSkipped mode x) calls) :
    (outcomeOf mode reports calls).owned = (outcomeOf mode reports calls).tidied +
      (outcomeOf mode reports calls).skipped + (outcomeOf mode reports calls).failed := by
  have size := h.length_eq
  have done := List.length_eq_countP_add_countP (fun call : Event => call.succeeds) (l := calls)
  have left := List.length_eq_countP_add_countP (isSkipped mode) (l := reports)
  rw [← List.countP_eq_length_filter] at size
  simp only [outcomeOf, tallied, Nat.zero_add, Bool.not_eq_true, Bool.decide_eq_false] at *
  omega

/-- A pass over old reports, whatever the host answers. When the host does not tell the login or
some page, that is the answer, and no comment is changed. Otherwise there is exactly one call for each
report of the reporter, in the order of the listing, but none for those hidden before when
reports are hidden; no call is made for any other comment, none is left out because another failed,
and the counts tell of each report whether it was tidied, skipped or left behind. -/
theorem tidy_calls (host : Host σ) (mode : TidyMode) (c : Conversation) (s : σ) :
    ∃ events answer d t, c.tidy host mode s = (answer, d, t) ∧
      c.tidy host.recorded mode ⟨s, []⟩ = (answer, d, ⟨t, events⟩) ∧
      (∀ x ∈ events, ∀ e, lookupFault? x = some e →
        answer = .error e ∧ ∀ y ∈ events, y.target? = none) ∧
      ((∀ x ∈ events, lookupFault? x = none) → ∃ login asks pages calls,
        let reports := (pages.flatMap (·.comments)).filter (owns c.layout.identity login)
        events = asks ++ listings c.changeRequest 1 pages ++ calls ∧
        Lookup c asks (.ok login) d ∧ Complete maxPages pages ∧
        List.Forall₂ (Cleans c.changeRequest mode) (reports.filter fun x => !isSkipped mode x)
          calls ∧
        answer = .ok ⟨reports.length, calls.countP (·.succeeds), reports.countP (isSkipped mode),
          calls.countP fun call => !call.succeeds⟩ ∧
        reports.length = calls.countP (·.succeeds) + reports.countP (isSkipped mode) +
          calls.countP fun call => !call.succeeds) := by
  obtain ⟨events, answer, d, t, pass, plain, noted⟩ := exists_pass host mode c s
  refine ⟨events, answer, d, t, plain, noted [], fun x member e => pass.of_fault member,
    fun calm => ?_⟩
  cases pass with
  | refused looked =>
      cases looked with
      | refused => cases calm _ (List.mem_singleton.2 rfl)
  | unlisted looked listing =>
      obtain ⟨x, read, fault⟩ := listing.exists_fault
      cases fault.symm.trans (calm x (List.mem_append_right _ read))
  | @swept asks login d reads comments calls looked listing cleaned =>
      cases listing with
      | whole pages complete =>
          have counts : ∀ reports, outcomeOf mode reports calls =
              ⟨reports.length, calls.countP (·.succeeds), reports.countP (isSkipped mode),
                calls.countP fun call => !call.succeeds⟩ := fun reports => by
            simp only [outcomeOf, tallied, Nat.zero_add]
          have sum := outcomeOf_owned cleaned
          rw [counts] at sum
          exact ⟨login, asks, pages, calls, rfl, looked, complete, cleaned,
            congrArg Except.ok (counts _), sum⟩

end ChangeReport.Conversation
