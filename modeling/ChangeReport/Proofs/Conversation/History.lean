import ChangeReport.Proofs.Conversation.Posting
import ChangeReport.Proofs.Report.Ownership

/-! Several reporters that share a login on one change request, one run after another.
After every run each of them has one report, the latest one, and no other comment is
touched. -/
namespace ChangeReport.Conversation
open Report Host Comment

attribute [local irreducible] Report.build

variable {σ : Type}

/-- A run of a reporter: it posts a report and then makes changes of it. -/
structure Visit where
  conversation : Conversation
  changes : List Report.Change

namespace Visit

def identity (v : Visit) : Option String := v.conversation.layout.identity

/-- A run on the change request `r` under the login that the host knows. -/
structure Valid (r : ChangeRequest) (login : String) (v : Visit) : Prop where
  changeRequest : v.conversation.changeRequest = r
  login : v.conversation.login = none ∨ v.conversation.login = some login
  identity : ValidIdentity v.identity

end Visit

/-- The host between two runs, and the message of the latest run of each reporter. -/
structure History (σ : Type) where
  host : σ
  latest : Option String → Option Message

def Visit.run (host : Host σ) (v : Visit) (q : History σ) : History σ :=
  let (posting, s) := v.conversation.post host .delete q.host
  match posting.message with
  | .error _ => ⟨s, fun i => if i = v.identity then none else q.latest i⟩
  | .ok m =>
      let (m, s) := m.changeAll host v.changes s
      ⟨s, fun i => if i = v.identity then some m else q.latest i⟩

def runAll (host : Host σ) (vs : List Visit) (q : History σ) : History σ :=
  vs.foldl (fun q v => v.run host q) q

def isWhole (m : Message) : Bool :=
  Text.byteLength (compose m.layout m.sections m.trailer).toList ≤ m.layout.maxLength

/-- Every listing can be read to its end, and no report is cut. -/
def Fits (host : Host σ) (pages : σ → List (List Comment)) : History σ → List Visit → Prop
  | _, [] => True
  | q, v :: vs => (pages (told host v.conversation q.host)).length ≤ maxPages ∧
      ((v.run host q).latest v.identity).all isWhole = true ∧ Fits host pages (v.run host q) vs

/-- Whether a comment is a report of none of some reporters. -/
def isForeign (login : String) (ran : List (Option String)) (c : Comment) : Bool :=
  ran.all fun i => !owns i login c

/-- The comments after the runs of some reporters: each has one report, and all other
comments are those of the start. -/
structure Kept (login : String) (start cs : List Comment) (latest : Option String → Option Message)
    (ran : List (Option String)) : Prop where
  distinct : (cs.map (·.id)).Nodup
  own : ∀ i ∈ ran, ∃ m c, latest i = some m ∧ cs.filter (owns i login) = [c] ∧ c.id = m.id ∧
      c.body = m.body
  foreign : cs.filter (isForeign login ran) = start.filter (isForeign login ran)

theorem owns_of_carried {login : String} {others cs : List Comment} {m : Message} {d : Comment}
    (h : Carried login others cs m d) (whole : isWhole m = true)
    (valid : ValidIdentity m.layout.identity) : owns m.layout.identity login d = true := by
  have body : d.body = build m.layout m.sections m.trailer := h.body
  rw [owns, h.author, body, isOwn_build valid (of_decide_eq_true whole)]
  simp

theorem owns_other {login : String} {i j : Option String} (hi : ValidIdentity i)
    (hj : ValidIdentity j) (ne : j ≠ i)
    {c : Comment} (own : owns i login c = true) : owns j login c = false := by
  rw [← Bool.not_eq_true]
  intro other
  simp only [owns, Bool.and_eq_true] at own other
  exact ne (eq_of_isOwn hj hi other.2 own.2)

theorem kept_of_carried {login : String} {start cs ds : List Comment}
    {latest : Option String → Option Message} {ran : List (Option String)}
    (h : Kept login start cs latest ran) {m : Message} {d : Comment} {i : Option String}
    (carried : Carried login (cs.filter fun x => !owns i login x) ds m d)
    (own : owns i login d = true) (valid : ∀ j ∈ i :: ran, ValidIdentity j) :
    Kept login start ds (fun j => if j = i then some m else latest j) (ran ++ [i]) := by
  have hi : ValidIdentity i := valid i (List.mem_cons_self ..)
  refine ⟨?_, fun j member => ?_, ?_⟩
  · have sub : ((cs.filter fun x => !owns i login x).map (·.id)).Sublist (cs.map (·.id)) :=
      List.filter_sublist.map _
    exact carried.inserted.ids_nodup carried.fresh (h.distinct.sublist sub)
  · by_cases same : j = i
    · subst same
      have only : ds.filter (owns j login) = [d] := by
        refine carried.inserted.filter_of_pos own fun x left => ?_
        simpa using (List.mem_filter.1 left).2
      exact ⟨m, d, by simp, only, carried.id, carried.body⟩
    · have old : j ∈ ran := by
        simpa [same] using member
      have hj : ValidIdentity j := valid j (List.mem_cons_of_mem _ old)
      obtain ⟨n, c, last, only, id, body⟩ := h.own j old
      refine ⟨n, c, by simp [same, last], ?_, id, body⟩
      rw [carried.inserted.filter_of_neg (owns_other hi hj same own), List.filter_filter, ← only]
      refine List.filter_congr fun x _ => ?_
      by_cases owned : owns j login x = true
      · simp [owned, owns_other hj hi (Ne.symm same) owned]
      · simp [owned]
  · have apart :
        ∀ x, isForeign login (ran ++ [i]) x = (isForeign login ran x && !owns i login x) := by
      intro x
      simp [isForeign]
    have mine : isForeign login (ran ++ [i]) d = false := by
      rw [apart, own]
      simp
    have split : ∀ xs : List Comment, xs.filter (isForeign login (ran ++ [i])) =
        (xs.filter (isForeign login ran)).filter fun x => !owns i login x := by
      intro xs
      rw [List.filter_filter]
      refine List.filter_congr fun x _ => ?_
      rw [apart, Bool.and_comm]
    rw [carried.inserted.filter_of_neg mine, split start, ← h.foreign, List.filter_filter,
      List.filter_filter]
    refine List.filter_congr fun x _ => ?_
    rw [apart]
    cases isForeign login ran x <;> cases owns i login x <;> rfl

section
variable {host : Host σ} {r : ChangeRequest} {login : String} {comments : σ → List Comment}
  {pages : σ → List (List Comment)} {steady : σ → Prop}

theorem run_carried (h : Reliable host r login comments pages steady) {q : History σ}
    (quiet : steady q.host)
    (distinct : ((comments q.host).map (·.id)).Nodup) {v : Visit} (valid : v.Valid r login)
    (short : (pages (told host v.conversation q.host)).length ≤ maxPages) :
    ∃ m d s, v.run host q = ⟨s, fun j => if j = v.identity then some m else q.latest j⟩ ∧
      m.layout.identity = v.identity ∧
      Carried login ((comments q.host).filter fun x => !owns v.identity login x)
        (comments s) m d ∧
      steady s := by
  obtain ⟨m, e, slept, d, t, posted, request, identity, carried, after⟩ :=
    post_reliable h quiet valid.changeRequest valid.login distinct short
  obtain ⟨d', held, last⟩ := changeAll_carried h after request carried v.changes
  refine ⟨(m.changeAll host v.changes t).1, d', (m.changeAll host v.changes t).2, ?_, ?_,
    held, last⟩
  · rw [Visit.run, posted]
  · rw [Message.changeAll_layout]
    exact identity

theorem runAll_kept (h : Reliable host r login comments pages steady) {start : List Comment}
    (vs : List Visit) {q : History σ} {ran : List (Option String)} (quiet : steady q.host)
    (kept : Kept login start (comments q.host) q.latest ran) (before : ∀ i ∈ ran, ValidIdentity i)
    (valid : ∀ v ∈ vs, v.Valid r login) (fits : Fits host pages q vs) :
    Kept login start (comments (runAll host vs q).host) (runAll host vs q).latest
      (ran ++ vs.map (·.identity)) := by
  induction vs generalizing q ran with
  | nil => simpa [runAll] using kept
  | cons v vs ih =>
      obtain ⟨short, whole, rest⟩ := fits
      have here := valid v (List.mem_cons_self ..)
      obtain ⟨m, d, s, ran', identity, carried, after⟩ :=
        run_carried h quiet kept.distinct here short
      rw [ran'] at whole rest
      have all : ∀ i ∈ v.identity :: ran, ValidIdentity i := by
        intro i member
        rcases List.mem_cons.1 member with rfl | member
        · exact here.identity
        · exact before i member
      have own : owns v.identity login d = true := by
        rw [← identity]
        refine owns_of_carried carried ?_ ?_
        · simpa using whole
        · rw [identity]
          exact here.identity
      have next := kept_of_carried kept carried own all
      have later := ih after next (fun i member => all i (by simpa [or_comm] using member))
        (fun u member => valid u (List.mem_cons_of_mem _ member)) rest
      rw [runAll, List.foldl_cons, ran']
      simpa [runAll] using later

/-- Reporters that share a login, on a reliable host and a change request whose comments
have distinct ids: after any runs one after another, with listings that can be read to
their end and reports that are not cut, every reporter that has run has exactly one
report, that of its latest message; and all comments that are reports of none of them are
those of the start, in the same order. -/
theorem runs_keep_comments (h : Reliable host r login comments pages steady) {s : σ}
    (quiet : steady s)
    (distinct : ((comments s).map (·.id)).Nodup) {vs : List Visit}
    (valid : ∀ v ∈ vs, v.Valid r login) (fits : Fits host pages ⟨s, fun _ => none⟩ vs) :
    let q := runAll host vs ⟨s, fun _ => none⟩
    (∀ v ∈ vs, ∃ m c, q.latest v.identity = some m ∧
      (comments q.host).filter (owns v.identity login) = [c] ∧ c.id = m.id ∧ c.body = m.body) ∧
    (comments q.host).filter (isForeign login (vs.map (·.identity))) =
      (comments s).filter (isForeign login (vs.map (·.identity))) := by
  have begun : Kept login (comments s) (comments s) (fun _ => none) [] := ⟨distinct, by simp, rfl⟩
  have kept := runAll_kept h vs (q := ⟨s, fun _ => none⟩) quiet begun (by simp) valid fits
  rw [List.nil_append] at kept
  exact ⟨fun v member => kept.own v.identity (List.mem_map_of_mem member), kept.foreign⟩

/-- A host that posts again at each edit, with a comment of someone else and an old
report. -/
def shared : Planned where
  memory := ⟨"bot", 1, none, 8,
      [⟨3, "alice", "fine", none⟩, ⟨7, "bot", "## Kubernetes Changes Report\n_east_\n", none⟩]⟩
  plan := ⟨fun _ => [], fun _ => none⟩
  manner := ⟨true, false, none⟩
  log := []

def visit (identity : Option String) (changes : List Report.Change) : Visit :=
  ⟨.start ⟨"group/project", 1⟩ ⟨identity, none, defaultMaxLength⟩ .default, changes⟩

/-- A reporter with an identity replaces its old report, and one without an identity joins
in. -/
theorem runs_keep_comments_of_two :
    let vs := [visit (some "east") [.append "a" "x"], visit none []]
    let q := runAll (Planned.host .github) vs ⟨shared, fun _ => none⟩
    (∀ v ∈ vs, ∃ m c, q.latest v.identity = some m ∧
      q.host.memory.comments.filter (owns v.identity "bot") = [c] ∧ c.id = m.id ∧ c.body = m.body) ∧
    q.host.memory.comments.filter (isForeign "bot" [some "east", none]) =
      [⟨3, "alice", "fine", none⟩] := by
  have willing : Planned.Willing "bot" shared :=
    ⟨⟨rfl, by decide, by decide⟩, by decide, fun _ => ⟨rfl, rfl⟩, rfl⟩
  have valid : ∀ v ∈ [visit (some "east") [.append "a" "x"], visit none []],
      v.Valid ⟨"group/project", 1⟩ "bot" := by
    have east : ValidIdentity (some "east") := by
      intro name same
      obtain rfl := Option.some.inj same
      decide
    have unnamed : ValidIdentity none := fun name same => by cases same
    intro v member
    simp only [List.mem_cons, List.not_mem_nil, or_false] at member
    rcases member with rfl | rfl
    · exact ⟨rfl, .inl rfl, east⟩
    · exact ⟨rfl, .inl rfl, unnamed⟩
  have fits : Fits (Planned.host .github) Planned.pages ⟨shared, fun _ => none⟩
      [visit (some "east") [.append "a" "x"], visit none []] := by
    refine ⟨?_, ?_, ?_, ?_, trivial⟩
    · refine Nat.le_trans (Memory.length_pagesOf_le ..) ?_
      decide +kernel
    · decide +kernel
    · refine Nat.le_trans (Memory.length_pagesOf_le ..) ?_
      decide +kernel
    · decide +kernel
  have kept := runs_keep_comments (Planned.reliable .github ⟨"group/project", 1⟩ "bot") willing
    (by decide) valid fits
  refine ⟨kept.1, kept.2.trans ?_⟩
  decide +kernel

end
end ChangeReport.Conversation
