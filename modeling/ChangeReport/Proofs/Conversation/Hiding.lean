import ChangeReport.Proofs.Conversation.History
import ChangeReport.Proofs.Report.Hiding

/-! Runs of one reporter that hide its old reports, on a reliable host that edits in place.
No comment goes away; after every run the report of the latest message is the only one that
is not hidden, and every other one is hidden once. -/
namespace ChangeReport.Conversation
open Report Host Comment

attribute [local irreducible] Report.build

variable {σ : Type} {identity : Option String} {login : String}

/-! ## Collapsing -/

/-- A comment with a wrapper around its text, unless it has one. -/
def wrap (c : Comment) : Comment := if isHidden c.body then c else { c with body := hide c }

theorem wrap_id (c : Comment) : (wrap c).id = c.id := by
  unfold wrap
  split <;> rfl

theorem isHidden_wrap (c : Comment) : isHidden (wrap c).body = true := by
  unfold wrap
  split
  next hidden => exact hidden
  next => exact isHidden_hide c

theorem wrap_wrap (c : Comment) : wrap (wrap c) = wrap c := by
  rw [wrap, if_pos (isHidden_wrap c)]

theorem owns_wrap (c : Comment) : owns identity login (wrap c) = owns identity login c := by
  unfold wrap
  split
  next => rfl
  next shown => rw [owns, owns, isOwn_hide (by simpa using shown)]

/-- A comment after a pass that hides old reports. -/
def collapse (identity : Option String) (login : String) (c : Comment) : Comment :=
  if owns identity login c then wrap c else c

/-- A report of the reporter that is not hidden. -/
def isOpen (identity : Option String) (login : String) (c : Comment) : Bool :=
  owns identity login c && !isHidden c.body

theorem collapse_id (c : Comment) : (collapse identity login c).id = c.id := by
  unfold collapse
  split
  · exact wrap_id c
  · rfl

theorem owns_collapse (c : Comment) :
    owns identity login (collapse identity login c) = owns identity login c := by
  unfold collapse
  split
  · exact owns_wrap c
  · rfl

theorem collapse_of_isOpen {c : Comment} (h : isOpen identity login c = true) :
    collapse identity login c = { c with body := hide c } := by
  obtain ⟨own, shown⟩ := Bool.and_eq_true_iff.1 h
  rw [collapse, if_pos own, wrap, if_neg (by simpa using shown)]

theorem collapse_collapse (c : Comment) :
    collapse identity login (collapse identity login c) = collapse identity login c := by
  rw [collapse, owns_collapse, collapse]
  split
  · exact wrap_wrap c
  · rfl

theorem isOpen_collapse (c : Comment) :
    isOpen identity login (collapse identity login c) = false := by
  rw [isOpen, owns_collapse]
  cases own : owns identity login c with
  | true => rw [collapse, if_pos own, isHidden_wrap, Bool.not_true, Bool.and_false]
  | false => rfl

theorem map_collapse_ids (cs : List Comment) :
    (cs.map (collapse identity login)).map (·.id) = cs.map (·.id) := by
  rw [List.map_map]
  exact List.map_congr_left fun c _ => collapse_id c

theorem map_collapse_twice (cs : List Comment) :
    (cs.map (collapse identity login)).map (collapse identity login) =
      cs.map (collapse identity login) := by
  rw [List.map_map]
  exact List.map_congr_left fun c _ => collapse_collapse c

/-- A pass leaves the comments that are no reports of the reporter as they are. -/
theorem filter_foreign_collapse (cs : List Comment) :
    (cs.map (collapse identity login)).filter (fun c => !owns identity login c) =
      cs.filter fun c => !owns identity login c := by
  have same : ((fun c => !owns identity login c) ∘ collapse identity login) =
      fun c => !owns identity login c := funext fun c => congrArg (!·) (owns_collapse c)
  rw [List.filter_map, same]
  refine (List.map_congr_left fun c member => ?_).trans (List.map_id' _)
  have foreign : owns identity login c = false := by simpa using (List.mem_filter.1 member).2
  rw [collapse, if_neg (by simp [foreign])]

/-! ## One pass -/

section

variable {host : Host σ} {r : ChangeRequest} {comments : σ → List Comment}
  {pages : σ → List (List Comment)} {steady : σ → Prop} {edits : σ → Nat} {s : σ}

theorem edits_listFrom (counted : Counted host edits) (r : ChangeRequest) (left page : Nat)
    (s : σ) : edits (listFrom host r left page s).2 = edits s := by
  induction left generalizing page s with
  | zero => rfl
  | succ left ih =>
      have read := counted.list r page s
      rw [listFrom]
      split
      next e t answer =>
        rw [answer] at read
        exact read
      next p t answer =>
        rw [answer] at read
        split
        · exact (ih (page + 1) t).trans read
        · exact read

theorem edits_asked (counted : Counted host edits) (c : Conversation) (s : σ) :
    edits (asked host c s) = edits s := by
  rw [asked, allComments, edits_listFrom counted, told]
  unfold Conversation.identity
  split
  · rfl
  · have same := counted.username s
    split
    all_goals
      next answer =>
        rw [answer] at same
        exact same

/-- The counts after one more comment that is skipped or hidden. -/
def countHidden (o : TidyOutcome) (c : Comment) : TidyOutcome :=
  if isHidden c.body then { o with owned := o.owned + 1, skipped := o.skipped + 1 }
  else { o with owned := o.owned + 1, tidied := o.tidied + 1 }

theorem foldl_countHidden (cs : List Comment) (o : TidyOutcome) : cs.foldl countHidden o =
    ⟨o.owned + cs.length, o.tidied + cs.countP fun c => !isHidden c.body,
      o.skipped + cs.countP fun c => isHidden c.body, o.failed⟩ := by
  induction cs generalizing o with
  | nil => rfl
  | cons c cs ih =>
      rw [List.foldl_cons, ih, countHidden]
      cases hidden : isHidden c.body with
      | true => simp [hidden, Nat.add_assoc, Nat.add_comm 1]
      | false => simp [hidden, Nat.add_assoc, Nat.add_comm 1]

theorem tidyOne_hide (h : Reliable host r login comments pages steady)
    (inPlace : InPlace host r comments steady) (counted : Counted host edits) (quiet : steady s)
    (distinct : ((comments s).map (·.id)).Nodup) {c : Comment} (member : c ∈ comments s)
    (o : TidyOutcome) :
    ∃ t, tidyOne host r .hide o c s = (countHidden o c, t) ∧
      comments t = (comments s).map (fun x => if x = c then wrap x else x) ∧ steady t ∧
      edits t = edits s + if isHidden c.body then 0 else 1 := by
  cases hidden : isHidden c.body with
  | true =>
      refine ⟨s, by simp [tidyOne, countHidden, hidden], ?_, quiet, rfl⟩
      refine (List.map_id'' (fun x => ?_) _).symm
      by_cases same : x = c
      · rw [if_pos same, wrap, same, if_pos hidden]
      · rw [if_neg same]
  | false =>
      have there : c.id ∈ (comments s).map (·.id) := List.mem_map_of_mem member
      have answer := inPlace s c.id quiet there (hide c)
      have edited := h.edited quiet there (hide c)
      rw [answer] at edited
      have made : host.edit r c.id (hide c) s = (.ok c.id, (host.edit r c.id (hide c) s).2) :=
        Prod.ext answer rfl
      refine ⟨(host.edit r c.id (hide c) s).2, ?_, ?_, h.stays quiet there _, counted.edit ..⟩
      · rw [tidyOne, made]
        simp [countHidden, hidden, Except.isOk, Except.toBool]
      · rw [edited.eq_rewrite there, rewrite]
        refine List.map_congr_left fun x present => ?_
        by_cases same : x.id = c.id
        · obtain rfl := List.inj_on_of_nodup_map distinct present member same
          simp [wrap, hidden]
        · have other : x ≠ c := fun eq => same (eq ▸ rfl)
          rw [if_neg same, if_neg other]

theorem tidyAll_hide (h : Reliable host r login comments pages steady)
    (inPlace : InPlace host r comments steady) (counted : Counted host edits)
    {owned : List Comment} (once : (owned.map (·.id)).Nodup) (quiet : steady s)
    (distinct : ((comments s).map (·.id)).Nodup) (there : ∀ c ∈ owned, c ∈ comments s)
    (o : TidyOutcome) :
    ∃ t, owned.foldl (fun acc c => tidyOne host r .hide acc.1 c acc.2) (o, s) =
        (owned.foldl countHidden o, t) ∧
      comments t = (comments s).map (fun x => if x ∈ owned then wrap x else x) ∧ steady t ∧
      edits t = edits s + owned.countP fun c => !isHidden c.body := by
  induction owned generalizing s o with
  | nil => exact ⟨s, rfl, by simp, quiet, rfl⟩
  | cons c owned ih =>
      rw [List.map_cons, List.nodup_cons] at once
      have apart : ∀ d, d.id = c.id → d ∉ owned := fun d same inside =>
        once.1 (same ▸ List.mem_map_of_mem inside)
      obtain ⟨t, first, changed, after, one⟩ :=
        tidyOne_hide h inPlace counted quiet distinct (there c (List.mem_cons_self ..)) o
      have ids : (comments t).map (·.id) = (comments s).map (·.id) := by
        rw [changed, List.map_map]
        refine List.map_congr_left fun x _ => ?_
        rw [Function.comp_apply]
        split
        · exact wrap_id x
        · rfl
      have still : ∀ d ∈ owned, d ∈ comments t := by
        intro d inside
        have other : d ≠ c := fun same => apart c rfl (same ▸ inside)
        rw [changed]
        exact List.mem_map.2 ⟨d, there d (List.mem_cons_of_mem _ inside), if_neg other⟩
      obtain ⟨u, all, left, last, count⟩ :=
        ih once.2 after (by rwa [ids]) still (countHidden o c)
      refine ⟨u, ?_, ?_, last, ?_⟩
      · rw [List.foldl_cons, first, all, List.foldl_cons]
      · rw [left, changed, List.map_map]
        refine List.map_congr_left fun x _ => ?_
        rw [Function.comp_apply]
        by_cases same : x = c
        · subst same
          rw [if_pos rfl, if_neg (apart _ (wrap_id x)), if_pos (List.mem_cons_self ..)]
        · simp [same]
      · rw [count, one, List.countP_cons]
        cases isHidden c.body with
        | true => simp
        | false => simp [Nat.add_assoc, Nat.add_comm 1]

/-- A conversation of the reporter. -/
structure Acts (r : ChangeRequest) (login : String) (identity : Option String)
    (c : Conversation) : Prop where
  changeRequest : c.changeRequest = r
  login : c.login = none ∨ c.login = some login
  identity : c.layout.identity = identity

/-- A pass that hides old reports changes the open ones, one edit for each, and counts the
others as skipped. -/
theorem tidy_hide (h : Reliable host r login comments pages steady)
    (inPlace : InPlace host r comments steady) (counted : Counted host edits) (quiet : steady s)
    (distinct : ((comments s).map (·.id)).Nodup) {c : Conversation}
    (acts : Acts r login identity c) (short : (pages (told host c s)).length ≤ maxPages) :
    ∃ d t, c.tidy host .hide s =
        (.ok ⟨(comments s).countP (owns identity login),
          (comments s).countP (isOpen identity login),
          (comments s).countP (fun x => owns identity login x && isHidden x.body), 0⟩, d, t) ∧
      d.changeRequest = r ∧ d.layout = c.layout ∧
      comments t = (comments s).map (collapse identity login) ∧ steady t ∧
      edits t = edits s + (comments s).countP (isOpen identity login) := by
  obtain ⟨d, tidied, request, layout, same, ready⟩ :=
    tidy_eq h quiet acts.changeRequest acts.login short .hide
  rw [acts.identity] at tidied
  have sub : ∀ x ∈ (comments s).filter (owns identity login), x ∈ comments (asked host c s) := by
    rw [same]
    exact fun x inside => (List.mem_filter.1 inside).1
  obtain ⟨t, all, changed, after, count⟩ := tidyAll_hide h inPlace counted
    (distinct.sublist (List.filter_sublist.map _)) ready (by rwa [same]) sub ⟨0, 0, 0, 0⟩
  have opened : ((comments s).filter (owns identity login)).countP (fun x => !isHidden x.body) =
      (comments s).countP (isOpen identity login) := by
    rw [List.countP_filter]
    exact List.countP_congr fun x _ => by simp [isOpen, and_comm]
  have hidden : ((comments s).filter (owns identity login)).countP (fun x => isHidden x.body) =
      (comments s).countP (fun x => owns identity login x && isHidden x.body) := by
    rw [List.countP_filter]
    exact List.countP_congr fun x _ => by simp [and_comm]
  refine ⟨d, t, ?_, request, layout, ?_, after, ?_⟩
  · rw [tidied, tidyAll, all, foldl_countHidden, opened, hidden]
    simp [List.countP_eq_length_filter]
  · rw [changed, same]
    refine List.map_congr_left fun x member => ?_
    rw [collapse]
    by_cases own : owns identity login x = true
    · rw [if_pos own, if_pos (List.mem_filter.2 ⟨member, own⟩)]
    · rw [if_neg own, if_neg fun inside => own (List.mem_filter.1 inside).2]
  · rw [count, edits_asked counted, opened]

/-- A pass right after another one finds nothing to do. -/
theorem tidy_hide_twice (h : Reliable host r login comments pages steady)
    (inPlace : InPlace host r comments steady) (counted : Counted host edits) (quiet : steady s)
    (distinct : ((comments s).map (·.id)).Nodup) {c c' : Conversation}
    (acts : Acts r login identity c) (acts' : Acts r login identity c')
    (short : (pages (told host c s)).length ≤ maxPages)
    (again : (pages (told host c' (c.tidy host .hide s).2.2)).length ≤ maxPages) :
    ∃ o d t o' d' t', c.tidy host .hide s = (.ok o, d, t) ∧
      c'.tidy host .hide t = (.ok o', d', t') ∧ o'.tidied = 0 ∧ o'.skipped = o'.owned ∧
      o'.failed = 0 ∧ edits t' = edits t ∧ comments t' = comments t := by
  obtain ⟨d, t, first, -, -, changed, after, -⟩ :=
    tidy_hide h inPlace counted quiet distinct acts short
  rw [first] at again
  have ids : (comments t).map (·.id) = (comments s).map (·.id) := by
    rw [changed, map_collapse_ids]
  obtain ⟨d', t', second, -, -, kept, -, count⟩ :=
    tidy_hide h inPlace counted after (by rwa [ids]) acts' again
  have none : (comments t).countP (isOpen identity login) = 0 := by
    rw [changed, List.countP_eq_zero]
    intro x member
    obtain ⟨y, -, rfl⟩ := List.mem_map.1 member
    simp [isOpen_collapse]
  have whole : (comments t).countP (fun x => owns identity login x && isHidden x.body) =
      (comments t).countP (owns identity login) := by
    rw [changed, List.countP_map, List.countP_map]
    refine List.countP_congr fun x _ => ?_
    have shown : isOpen identity login (collapse identity login x) = false := isOpen_collapse x
    rw [isOpen] at shown
    cases own : owns identity login (collapse identity login x) <;> simp_all
  refine ⟨_, d, t, _, d', t', first, second, none, whole, rfl, by rw [count, none]; rfl, ?_⟩
  rw [kept, changed, map_collapse_twice]

/-! ## Runs -/

/-- The host between two runs, and the messages of the runs so far, oldest first. -/
structure Trail (σ : Type) where
  host : σ
  messages : List Message

/-- A run that hides the old reports of its reporter. -/
def Visit.runHiding (host : Host σ) (v : Visit) (q : Trail σ) : Trail σ :=
  let (posting, s) := v.conversation.post host .hide q.host
  match posting.message with
  | .error _ => ⟨s, q.messages⟩
  | .ok m =>
      let (m, s) := m.changeAll host v.changes s
      ⟨s, q.messages ++ [m]⟩

def runAllHiding (host : Host σ) (vs : List Visit) (q : Trail σ) : Trail σ :=
  vs.foldl (fun q v => v.runHiding host q) q

/-- Every listing can be read to its end, and no report is cut. -/
def FitsHiding (host : Host σ) (pages : σ → List (List Comment)) : Trail σ → List Visit → Prop
  | _, [] => True
  | q, v :: vs => (pages (told host v.conversation q.host)).length ≤ maxPages ∧
      (v.runHiding host q).messages.getLast?.all isWhole = true ∧
        FitsHiding host pages (v.runHiding host q) vs

/-- The comments after some runs of a reporter, by those of the start and by the comments
of its messages, as each run left its own: all of them are there, those of the start in
their order, and only the report of the latest message is open. -/
structure Accrued (identity : Option String) (login : String) (start cs : List Comment)
    (messages : List Message) (reports : List Comment) : Prop where
  distinct : (cs.map (·.id)).Nodup
  carried : messages.map (fun m => (m.id, m.body)) = reports.map fun c => (c.id, c.body)
  opened : ∀ c ∈ reports, isOpen identity login c = true
  all : (cs.map (collapse identity login)).Perm
    (start.map (collapse identity login) ++ reports.map (collapse identity login))
  order : (start.map (collapse identity login)).Sublist (cs.map (collapse identity login))
  foreign : cs.filter (fun c => !owns identity login c) =
    start.filter fun c => !owns identity login c
  latest : ∀ old d, reports = old ++ [d] →
    cs.Perm (start.map (collapse identity login) ++ old.map (collapse identity login) ++ [d]) ∧
      (start.map (collapse identity login)).Sublist cs ∧
      cs.filter (isOpen identity login) = [d]

theorem accrued_of_carried {start cs ds : List Comment} {messages : List Message}
    {reports : List Comment} (h : Accrued identity login start cs messages reports) {m : Message}
    {d : Comment} (carried : Carried login (cs.map (collapse identity login)) ds m d)
    (opened : isOpen identity login d = true) :
    Accrued identity login start ds (messages ++ [m]) (reports ++ [d]) := by
  have own : owns identity login d = true := (Bool.and_eq_true_iff.1 opened).1
  have perm : ds.Perm (cs.map (collapse identity login) ++ [d]) :=
    carried.inserted.perm.trans (List.perm_append_singleton d _).symm
  refine ⟨carried.inserted.ids_nodup carried.fresh ?_, ?_, ?_, ?_, ?_, ?_, ?_⟩
  · rw [map_collapse_ids]
    exact h.distinct
  · simp [h.carried, carried.id, carried.body]
  · intro c member
    rcases List.mem_append.1 member with old | new
    · exact h.opened c old
    · rwa [List.mem_singleton.1 new]
  · have step := perm.map (collapse identity login)
    rw [List.map_append, map_collapse_twice] at step
    simpa using step.trans (h.all.append_right _)
  · have step := carried.inserted.sublist.map (collapse identity login)
    rw [map_collapse_twice] at step
    exact h.order.trans step
  · rw [carried.inserted.filter_of_neg (by simp [own]), filter_foreign_collapse, h.foreign]
  · intro old d' parts
    obtain ⟨rfl, last⟩ := List.append_inj' parts rfl
    obtain rfl : d = d' := by simpa using last
    refine ⟨perm.trans (h.all.append_right _), h.order.trans carried.inserted.sublist, ?_⟩
    refine carried.inserted.filter_of_pos opened fun x member => ?_
    obtain ⟨y, -, rfl⟩ := List.mem_map.1 member
    exact isOpen_collapse y

/-- A report that is not cut is open in the comment that carries it. -/
theorem isOpen_of_carried {others cs : List Comment} {m : Message} {d : Comment}
    (h : Carried login others cs m d) (whole : isWhole m = true)
    (valid : ValidIdentity m.layout.identity) : isOpen m.layout.identity login d = true := by
  have body : d.body = build m.layout m.sections m.trailer := h.body
  have fits : Text.byteLength (compose m.layout m.sections m.trailer).toList ≤ m.layout.maxLength :=
    of_decide_eq_true whole
  obtain ⟨below, fed, text⟩ := compose_eq m.layout m.sections m.trailer
  obtain ⟨rest, parts, -⟩ := exists_below_title m.layout.identity valid fed
  have shown : isHidden d.body = false := by
    rw [isHidden, body, build_of_le fits, text, String.toList_append, parts]
    exact isHiddenText_title _
  rw [isOpen, owns_of_carried h whole valid, shown]
  rfl

theorem runHiding_accrued (h : Reliable host r login comments pages steady)
    (inPlace : InPlace host r comments steady) (counted : Counted host edits)
    (valid : ValidIdentity identity) {start : List Comment} {q : Trail σ} {reports : List Comment}
    (quiet : steady q.host)
    (accrued : Accrued identity login start (comments q.host) q.messages reports)
    {v : Visit} (acts : Acts r login identity v.conversation)
    (short : (pages (told host v.conversation q.host)).length ≤ maxPages)
    (whole : (v.runHiding host q).messages.getLast?.all isWhole = true) :
    ∃ d, Accrued identity login start (comments (v.runHiding host q).host)
        (v.runHiding host q).messages (reports ++ [d]) ∧
      (v.runHiding host q).messages.length = q.messages.length + 1 ∧
      steady (v.runHiding host q).host := by
  obtain ⟨d, t, tidied, request, layout, changed, ready, -⟩ :=
    tidy_hide h inPlace counted quiet accrued.distinct acts short
  obtain ⟨m, e, slept, x, u, posted, request', named, carried, after⟩ :=
    post_of_tidied h tidied request layout ready
  obtain ⟨x', held, last⟩ := changeAll_carried h after request' carried v.changes
  have ran : v.runHiding host q = ⟨(m.changeAll host v.changes u).2,
      q.messages ++ [(m.changeAll host v.changes u).1]⟩ := by
    rw [Visit.runHiding, posted]
  have own : (m.changeAll host v.changes u).1.layout.identity = identity := by
    rw [Message.changeAll_layout, named, acts.identity]
  rw [ran] at whole ⊢
  rw [changed] at held
  have opened := isOpen_of_carried held (by simpa using whole) (by rwa [own])
  rw [own] at opened
  exact ⟨x', accrued_of_carried accrued held opened, by simp, last⟩

theorem runAllHiding_accrued (h : Reliable host r login comments pages steady)
    (inPlace : InPlace host r comments steady) (counted : Counted host edits)
    (valid : ValidIdentity identity) {start : List Comment} (vs : List Visit) {q : Trail σ}
    {reports : List Comment} (quiet : steady q.host)
    (accrued : Accrued identity login start (comments q.host) q.messages reports)
    (acts : ∀ v ∈ vs, Acts r login identity v.conversation)
    (fits : FitsHiding host pages q vs) :
    ∃ more, Accrued identity login start (comments (runAllHiding host vs q).host)
        (runAllHiding host vs q).messages (reports ++ more) ∧ more.length = vs.length ∧
      steady (runAllHiding host vs q).host := by
  induction vs generalizing q reports with
  | nil => exact ⟨[], by simpa [runAllHiding] using accrued, rfl, quiet⟩
  | cons v vs ih =>
      obtain ⟨short, whole, rest⟩ := fits
      obtain ⟨d, next, -, after⟩ := runHiding_accrued h inPlace counted valid quiet accrued
        (acts v (List.mem_cons_self ..)) short whole
      obtain ⟨more, all, size, last⟩ :=
        ih after next (fun u member => acts u (List.mem_cons_of_mem _ member)) rest
      refine ⟨d :: more, ?_, by simp [size], last⟩
      simpa [runAllHiding] using all

/-- Runs of a reporter that hide its old reports, on a reliable host that edits in place
and whose comments have distinct ids, with listings that can be read to their end and
reports that are not cut. After any of them all comments are still there: those of the
start in their order, with one wrapper around the reports that were open; the reports of
earlier runs, with one wrapper around the text that their messages had; and the report of
the latest message, the only open one. A pass over old reports right after another one
sends no edit, skips all of them and changes nothing. A pass that deletes leaves the
comments of the start that are no reports of the reporter. -/
theorem runs_hide_reports (h : Reliable host r login comments pages steady)
    (inPlace : InPlace host r comments steady) (counted : Counted host edits) (quiet : steady s)
    (distinct : ((comments s).map (·.id)).Nodup) (valid : ValidIdentity identity)
    {vs : List Visit} (acts : ∀ v ∈ vs, Acts r login identity v.conversation)
    (fits : FitsHiding host pages ⟨s, []⟩ vs) :
    let q := runAllHiding host vs ⟨s, []⟩
    (vs ≠ [] → ∃ old d,
      q.messages.map (fun m => (m.id, m.body)) = (old ++ [d]).map (fun c => (c.id, c.body)) ∧
      (old ++ [d]).length = vs.length ∧
      (comments q.host).Perm ((comments s).map (collapse identity login) ++
        old.map (fun c => { c with body := hide c }) ++ [d]) ∧
      ((comments s).map (collapse identity login)).Sublist (comments q.host) ∧
      (comments q.host).filter (isOpen identity login) = [d]) ∧
    (∀ c c', Acts r login identity c → Acts r login identity c' →
      (pages (told host c q.host)).length ≤ maxPages →
      (pages (told host c' (c.tidy host .hide q.host).2.2)).length ≤ maxPages →
      ∃ o d t o' d' t', c.tidy host .hide q.host = (.ok o, d, t) ∧
        c'.tidy host .hide t = (.ok o', d', t') ∧ o'.tidied = 0 ∧ o'.skipped = o'.owned ∧
        o'.failed = 0 ∧ edits t' = edits t ∧ comments t' = comments t) ∧
    (∀ c, Acts r login identity c → (pages (told host c q.host)).length ≤ maxPages →
      ∃ o d t, c.tidy host .delete q.host = (.ok o, d, t) ∧
        comments t = (comments s).filter fun x => !owns identity login x) := by
  have begun : Accrued identity login (comments s) (comments s) [] [] :=
    ⟨distinct, rfl, by simp, by simp, .refl _, rfl, by simp⟩
  have first : steady (⟨s, []⟩ : Trail σ).host := quiet
  obtain ⟨reports, accrued, size, after⟩ :=
    runAllHiding_accrued h inPlace counted valid vs first begun acts fits
  rw [List.nil_append] at accrued
  refine ⟨fun some => ?_, fun c c' first second short again => ?_, fun c own short => ?_⟩
  · have nonempty : reports ≠ [] := by
      rw [← List.length_pos_iff, size]
      exact List.length_pos_iff.2 some
    obtain ⟨old, d, rfl⟩ : ∃ old d, reports = old ++ [d] :=
      ⟨_, _, (List.dropLast_concat_getLast nonempty).symm⟩
    obtain ⟨perm, order, only⟩ := accrued.latest old d rfl
    have wrapped : old.map (collapse identity login) =
        old.map fun c => { c with body := hide c } :=
      List.map_congr_left fun c member =>
        collapse_of_isOpen (accrued.opened c (List.mem_append_left _ member))
    rw [wrapped] at perm
    exact ⟨old, d, accrued.carried, size, perm, order, only⟩
  · exact tidy_hide_twice h inPlace counted after accrued.distinct first second short again
  · obtain ⟨o, d, t, tidied, -, -, left, -⟩ :=
      tidy_reliable h after own.changeRequest own.login accrued.distinct short
    rw [own.identity] at left
    exact ⟨o, d, t, tidied, left.trans accrued.foreign⟩

end

/-- A host that edits in place, with a comment of someone else, an open report and a hidden
one. -/
def archive : Planned where
  memory := ⟨"bot", 1, none, 9,
      [⟨3, "alice", "fine", none⟩, ⟨5, "bot", "## Kubernetes Changes Report\n_east_\n", none⟩,
        ⟨8, "bot", "<details><summary><i>OUTDATED</i></summary>\n\n" ++
          "## Kubernetes Changes Report\n_east_\n\n</details>", none⟩]⟩
  plan := ⟨fun _ => [], fun _ => none⟩
  manner := ⟨false, false, none⟩
  log := []

/-- Two runs hide the open report of the start and that of the first run; a pass that
deletes leaves the comment of someone else. -/
theorem runs_hide_reports_of_two :
    let vs := [visit (some "east") [.append "a" "x"], visit (some "east") []]
    let q := runAllHiding (Planned.host .github) vs ⟨archive, []⟩
    (∃ old d,
      q.messages.map (fun m => (m.id, m.body)) = (old ++ [d]).map (fun c => (c.id, c.body)) ∧
      (old ++ [d]).length = 2 ∧
      q.host.memory.comments.Perm (archive.memory.comments.map (collapse (some "east") "bot") ++
        old.map (fun c => { c with body := hide c }) ++ [d]) ∧
      (archive.memory.comments.map (collapse (some "east") "bot")).Sublist
        q.host.memory.comments ∧
      q.host.memory.comments.filter (isOpen (some "east") "bot") = [d]) ∧
    ∃ o d t, (visit (some "east") []).conversation.tidy (Planned.host .github) .delete q.host =
        (.ok o, d, t) ∧ t.memory.comments = [⟨3, "alice", "fine", none⟩] := by
  have willing : Planned.Willing "bot" archive :=
    ⟨⟨rfl, by decide, by decide⟩, by decide, fun _ => ⟨rfl, rfl⟩, rfl⟩
  have east : ValidIdentity (some "east") := by
    intro name same
    obtain rfl := Option.some.inj same
    decide
  have acts : ∀ changes, Acts ⟨"group/project", 1⟩ "bot" (some "east")
      (visit (some "east") changes).conversation := fun _ => ⟨rfl, .inl rfl, rfl⟩
  have all : ∀ v ∈ [visit (some "east") [.append "a" "x"], visit (some "east") []],
      Acts ⟨"group/project", 1⟩ "bot" (some "east") v.conversation := by
    intro v member
    simp only [List.mem_cons, List.not_mem_nil, or_false] at member
    rcases member with rfl | rfl
    · exact acts _
    · exact acts _
  have short : ∀ p : Planned, p.memory.comments.length ≤ 10 → p.pages.length ≤ maxPages :=
    fun p few => Nat.le_trans (Memory.length_pagesOf_le _ _)
      (Nat.le_trans (Nat.succ_le_succ few) (by decide))
  have fits : FitsHiding (Planned.host .github) Planned.pages ⟨archive, []⟩
      [visit (some "east") [.append "a" "x"], visit (some "east") []] :=
    ⟨short _ (by decide +kernel), by decide +kernel, short _ (by decide +kernel),
      by decide +kernel, trivial⟩
  obtain ⟨ran, -, deleted⟩ := runs_hide_reports
    ((Planned.reliable .github ⟨"group/project", 1⟩ "bot").and
      (Planned.lasting_manner .github _ archive.manner))
    (Planned.inPlace .github _ "bot" rfl) (Planned.counted .github) ⟨willing, rfl⟩ (by decide)
    east all fits
  obtain ⟨o, d, t, tidied, left⟩ := deleted _ (acts []) (short _ (by decide +kernel))
  refine ⟨ran (by simp), o, d, t, tidied, left.trans ?_⟩
  decide +kernel

end ChangeReport.Conversation
