import ChangeReport.Conversation
import ChangeReport.Proofs.Host.Conduct
import ChangeReport.Proofs.Report.Delivery
import ChangeReport.Proofs.Retry

/-! One run of a reporter on a reliable host. It removes the reports that the reporter has
on the change request, posts a new one, and keeps the comment of that report up to date.
-/
namespace ChangeReport

variable {σ : Type}

namespace Conversation
open Report Host Comment

attribute [local irreducible] Report.build Message.send

variable {host : Host σ} {r : ChangeRequest} {login : String} {comments : σ → List Comment}
  {pages : σ → List (List Comment)} {steady : σ → Prop} {s : σ}

/-! ## Tidying up -/

theorem identity_reliable (h : Reliable host r login comments pages steady) (quiet : steady s)
    {c : Conversation} (known : c.login = none ∨ c.login = some login) :
    ∃ d t, c.identity host s = (.ok login, d, t) ∧ d.changeRequest = c.changeRequest ∧
      d.layout = c.layout ∧ comments t = comments s ∧ steady t := by
  rcases known with unknown | known
  · obtain ⟨t, answer, same, after⟩ := h.username quiet
    refine ⟨{ c with login := some login }, t, ?_, rfl, rfl, same, after⟩
    simp [identity, unknown, answer]
  · refine ⟨c, s, ?_, rfl, rfl, rfl, quiet⟩
    simp [identity, known]

theorem listFrom_reliable (h : Reliable host r login comments pages steady) (left n : Nat)
    (quiet : steady s) (inside : n < (pages s).length) (enough : (pages s).length ≤ n + left) :
    ∃ t, listFrom host r left (n + 1) s = (.ok ((pages s).drop n).flatten, t) ∧
      comments t = comments s ∧ steady t := by
  induction left generalizing n s with
  | zero => omega
  | succ left ih =>
      obtain ⟨page, found⟩ : ∃ page, (pages s)[n]? = some page :=
        ⟨_, List.getElem?_eq_getElem inside⟩
      obtain ⟨t, answer, same, cut, after⟩ := h.list quiet found
      have rest : (pages s).drop n = page :: (pages s).drop (n + 1) := by
        rw [List.drop_eq_getElem_cons inside,
          ← Option.some.inj ((List.getElem?_eq_getElem inside).symm.trans found)]
      by_cases more : n + 1 < (pages s).length
      · rw [← cut] at more
        obtain ⟨u, read, kept, last⟩ := ih (n + 1) after more (by rw [cut]; omega)
        rw [cut] at more read
        refine ⟨u, ?_, kept.trans same, last⟩
        simp [listFrom, answer, more, read, rest, Except.map]
      · have none : (pages s).drop (n + 1) = [] :=
          List.drop_eq_nil_of_le (Nat.le_of_not_lt more)
        refine ⟨t, ?_, same, after⟩
        simp [listFrom, answer, more, rest, none]

theorem allComments_reliable (h : Reliable host r login comments pages steady) (quiet : steady s)
    (short : (pages s).length ≤ maxPages) :
    ∃ t, allComments host r s = (.ok (comments s), t) ∧ comments t = comments s ∧ steady t := by
  obtain ⟨some, whole⟩ := h.paged quiet
  have positive : 0 < (pages s).length := List.length_pos_iff.2 some
  obtain ⟨t, read, same, after⟩ := listFrom_reliable h maxPages 0 quiet positive (by omega)
  rw [List.drop_zero, whole] at read
  exact ⟨t, read, same, after⟩

/-- The host when it has told the login, as a pass over old reports finds it to list them. -/
def told (host : Host σ) (c : Conversation) (s : σ) : σ := (c.identity host s).2.2

/-- The host when it has told the login and all comments. -/
def asked (host : Host σ) (c : Conversation) (s : σ) : σ :=
  (allComments host c.changeRequest (told host c s)).2

/-- A pass over old reports is one over those of the listing. -/
theorem tidy_eq (h : Reliable host r login comments pages steady) (quiet : steady s)
    {c : Conversation} (request : c.changeRequest = r)
    (known : c.login = none ∨ c.login = some login)
    (short : (pages (told host c s)).length ≤ maxPages) (mode : TidyMode) :
    ∃ d, c.tidy host mode s =
        (.ok (tidyAll host r mode ((comments s).filter (owns c.layout.identity login))
            (asked host c s)).1, d,
          (tidyAll host r mode ((comments s).filter (owns c.layout.identity login))
            (asked host c s)).2) ∧
      d.changeRequest = r ∧ d.layout = c.layout ∧ comments (asked host c s) = comments s ∧
      steady (asked host c s) := by
  obtain ⟨d, t, named, sameRequest, layout, sameTold, afterTold⟩ := identity_reliable h quiet known
  have request' : d.changeRequest = r := sameRequest.trans request
  have here : told host c s = t := congrArg (·.2.2) named
  rw [here] at short
  obtain ⟨u, read, sameRead, afterRead⟩ := allComments_reliable h afterTold short
  have reached : asked host c s = u := by
    rw [asked, here, request]
    exact congrArg Prod.snd read
  rw [sameTold] at read sameRead
  rw [reached]
  refine ⟨d, ?_, request', layout, sameRead, afterRead⟩
  simp [tidy, named, request', read, layout]

/-- Reports are deleted one after another, and nothing else is. -/
theorem tidyAll_delete (h : Reliable host r login comments pages steady) {owned : List Comment}
    (once : (owned.map (·.id)).Nodup) (quiet : steady s)
    (there : ∀ id ∈ owned.map (·.id), id ∈ (comments s).map (·.id)) (o : TidyOutcome) :
    ∃ o' t, owned.foldl (fun acc c => tidyOne host r .delete acc.1 c acc.2) (o, s) = (o', t) ∧
      comments t = (comments s).filter (fun c => c.id ∉ owned.map (·.id)) ∧ steady t := by
  induction owned generalizing s o with
  | nil => exact ⟨o, s, rfl, by simp, quiet⟩
  | cons c owned ih =>
      rw [List.map_cons, List.nodup_cons] at once
      rw [List.map_cons] at there
      obtain ⟨t, answer, left, after⟩ := h.delete quiet (there c.id (List.mem_cons_self ..))
      have still : ∀ id ∈ owned.map (·.id), id ∈ (comments t).map (·.id) := by
        intro id member
        obtain ⟨d, present, rfl⟩ := List.mem_map.1 (there id (List.mem_cons_of_mem _ member))
        have other : d.id ≠ c.id := fun same => once.1 (same ▸ member)
        rw [left]
        exact List.mem_map_of_mem (List.mem_filter.2 ⟨present, by simpa using other⟩)
      obtain ⟨o', u, all, rest, last⟩ := ih once.2 after still (tidyOne host r .delete o c s).1
      have first : tidyOne host r .delete o c s = ((tidyOne host r .delete o c s).1, t) := by
        simp [tidyOne, answer]
      refine ⟨o', u, ?_, ?_, last⟩
      · rw [List.foldl_cons, first]
        exact all
      · rw [rest, left, without, List.filter_filter]
        refine List.filter_congr fun d _ => ?_
        by_cases same : d.id = c.id <;> simp [same]

/-- Tidying up leaves exactly the comments that are no reports of the reporter. -/
theorem tidy_reliable (h : Reliable host r login comments pages steady) (quiet : steady s)
    {c : Conversation}
    (request : c.changeRequest = r) (known : c.login = none ∨ c.login = some login)
    (distinct : ((comments s).map (·.id)).Nodup)
    (short : (pages (told host c s)).length ≤ maxPages) :
    ∃ o d t, c.tidy host .delete s = (.ok o, d, t) ∧ d.changeRequest = r ∧ d.layout = c.layout ∧
      comments t = (comments s).filter (fun x => !owns c.layout.identity login x) ∧ steady t := by
  obtain ⟨d, tidied, request', layout, same, ready⟩ := tidy_eq h quiet request known short .delete
  have sub : ∀ id ∈ ((comments s).filter (owns c.layout.identity login)).map (·.id),
      id ∈ (comments (asked host c s)).map (·.id) := by
    intro id member
    rw [same]
    exact List.map_subset _ (List.filter_subset_self _) member
  obtain ⟨o, v, deleted, left, after⟩ := tidyAll_delete h
    (distinct.sublist (List.filter_sublist.map _)) ready sub ⟨0, 0, 0, 0⟩
  refine ⟨o, d, v, ?_, request', layout, ?_, after⟩
  · rw [tidied, tidyAll, deleted]
  · rw [left, same]
    refine List.filter_congr fun x member => ?_
    by_cases own : owns c.layout.identity login x = true
    · have inside : x.id ∈ ((comments s).filter (owns c.layout.identity login)).map (·.id) :=
        List.mem_map_of_mem (List.mem_filter.2 ⟨member, own⟩)
      simp [own, inside]
    · have outside : x.id ∉ ((comments s).filter (owns c.layout.identity login)).map (·.id) := by
        intro inside
        obtain ⟨y, owned, same⟩ := List.mem_map.1 inside
        obtain ⟨there, owner⟩ := List.mem_filter.1 owned
        rw [List.inj_on_of_nodup_map distinct there member same] at owner
        exact own owner
      simp [own, outside]

/-! ## Posting and updating -/

/-- A message carries its report in the comment `d`, which stands among the other
comments. -/
structure Carried (login : String) (others cs : List Comment) (m : Message)
    (d : Comment) : Prop where
  inserted : Inserted d others cs
  fresh : d.id ∉ others.map (·.id)
  id : d.id = m.id
  author : d.author = login
  body : d.body = m.body
  pushed : m.pushed = "" ∨ m.pushed = d.body

theorem linkedLayout_reliable (h : Reliable host r login comments pages steady) (quiet : steady s)
    {c : Conversation} (request : c.changeRequest = r) :
    ∃ full t, c.linkedLayout host Retry.instant s = (full, 0, t) ∧ full.identity = c.layout.identity ∧
      comments t = comments s ∧ steady t := by
  obtain ⟨url, t, found, same, after⟩ := h.pipeline quiet
  have looked := Retry.run_of_ok found c.retry Retry.instant
  refine ⟨{ c.layout with pipelineUrl := url }, t, ?_, rfl, same, after⟩
  rw [linkedLayout, request, looked]
  rfl

/-- After any pass over old reports, a new one stands among the comments that it left. -/
theorem post_of_tidied (h : Reliable host r login comments pages steady) {mode : TidyMode}
    {c d : Conversation} {o : TidyOutcome} {t : σ} (tidied : c.tidy host mode s = (.ok o, d, t))
    (request : d.changeRequest = r) (layout : d.layout = c.layout) (ready : steady t) :
    ∃ m e slept x u, c.post host mode s = (⟨.ok m, e, slept⟩, u) ∧ m.changeRequest = r ∧
      m.layout.identity = c.layout.identity ∧ Carried login (comments t) (comments u) m x ∧
      steady u := by
  obtain ⟨full, u, linked, identity, sameFound, afterFound⟩ := linkedLayout_reliable h ready request
  obtain ⟨x, v, created, author, body, fresh, put, after⟩ := h.create afterFound (build full [] "")
  rw [sameFound] at fresh put
  refine ⟨.ofComment r full x.id (build full [] ""), d, 0, x, v, ?_, rfl,
    identity.trans (congrArg Layout.identity layout),
    ⟨put, fresh, rfl, author, body, .inr body.symm⟩, after⟩
  rw [post, postTimed, tidied]
  dsimp only
  rw [linked]
  dsimp only
  rw [request, created]

theorem post_reliable (h : Reliable host r login comments pages steady) (quiet : steady s)
    {c : Conversation}
    (request : c.changeRequest = r) (known : c.login = none ∨ c.login = some login)
    (distinct : ((comments s).map (·.id)).Nodup)
    (short : (pages (told host c s)).length ≤ maxPages) :
    ∃ m e slept d t, c.post host .delete s = (⟨.ok m, e, slept⟩, t) ∧ m.changeRequest = r ∧
      m.layout.identity = c.layout.identity ∧
      Carried login ((comments s).filter fun x => !owns c.layout.identity login x)
        (comments t) m d ∧
      steady t := by
  obtain ⟨o, e, t, tidied, request', layout, left, ready⟩ :=
    tidy_reliable h quiet request known distinct short
  rw [← left]
  exact post_of_tidied h tidied request' layout ready

theorem change_carried (h : Reliable host r login comments pages steady) (quiet : steady s)
    {m : Message} (request : m.changeRequest = r) {others : List Comment} {d : Comment}
    (carried : Carried login others (comments s) m d) (c : Report.Change) :
    ∃ e, Carried login others (comments (m.change host c s).2.2) (m.change host c s).2.1 e ∧
      steady (m.change host c s).2.2 := by
  have there : (m.apply c).id ∈ (comments s).map (·.id) := by
    rw [apply_id, ← carried.id]
    exact List.mem_map_of_mem ((carried.inserted.mem_iff d).2 (.inl rfl))
  have request' : (m.apply c).changeRequest = r := (apply_changeRequest m c).trans request
  have edited := h.edited quiet there (m.apply c).body
  have after := h.stays quiet there (m.apply c).body
  obtain ⟨new, willing⟩ := h.willing quiet there (m.apply c).body
  rw [Message.change]
  rcases Message.send_cases host (m.apply c) s with
    ⟨same, eq⟩ | ⟨-, id, t, answer, eq⟩ | ⟨-, e, t, answer, eq⟩
  · -- the body is not empty, so it is the one that the comment carries
    have some : (m.apply c).body ≠ "" := build_ne_empty _ _ _
    have kept : (m.apply c).pushed = m.pushed := by
      rw [apply_pushed, if_neg]
      intro push
      rw [apply_pushed, if_pos push] at same
      exact some same
    have body : d.body = (m.apply c).body := by
      rw [same, kept] at some
      rw [same, kept, carried.pushed.resolve_left some]
    rw [eq]
    exact ⟨d, ⟨carried.inserted, carried.fresh, carried.id.trans (apply_id m c).symm,
      carried.author, body, .inr (same.symm.trans body.symm)⟩, quiet⟩
  · rw [request'] at answer
    rw [answer] at edited after
    rw [eq]
    have known : (m.apply c).id = d.id := (apply_id m c).trans carried.id.symm
    rw [known] at edited
    dsimp only at edited after ⊢
    generalize comments t = ds at *
    cases edited with
    | inPlace =>
        exact ⟨{ d with body := (m.apply c).body },
          ⟨carried.inserted.rewrite carried.fresh _, carried.fresh, rfl,
          carried.author, rfl, .inr rfl⟩, after⟩
    | reposted e ds author text fresh put =>
        rw [carried.inserted.without_eq carried.fresh] at put
        have absent : e.id ∉ others.map (·.id) := by
          intro old
          obtain ⟨x, member, same⟩ := List.mem_map.1 old
          exact fresh (List.mem_map.2 ⟨x, (carried.inserted.mem_iff x).2 (.inr member), same⟩)
        exact ⟨e, ⟨put, absent, rfl, author, text, .inr text.symm⟩, after⟩
  · rw [request'] at answer
    rw [answer] at willing
    cases willing

theorem changeAll_carried (h : Reliable host r login comments pages steady) (quiet : steady s)
    {m : Message} (request : m.changeRequest = r) {others : List Comment} {d : Comment}
    (carried : Carried login others (comments s) m d) (cs : List Report.Change) :
    ∃ e, Carried login others (comments (m.changeAll host cs s).2) (m.changeAll host cs s).1 e ∧
      steady (m.changeAll host cs s).2 := by
  induction cs generalizing m s d with
  | nil => exact ⟨d, carried, quiet⟩
  | cons c cs ih =>
      obtain ⟨e, next, after⟩ := change_carried h quiet request carried c
      rw [Message.changeAll_cons]
      exact ih after ((Message.change_changeRequest host m c s).trans request) next

end Conversation
end ChangeReport
