import ChangeReport.Proofs.Host.Conduct
import ChangeReport.Proofs.Report.Contents

/-! What reaches the host. However often it refuses an edit or moves the report to a new
comment, a message holds all text that it was given, knows the comment that carries it,
and sends its body exactly when the host does not have it or may not have it. -/
namespace ChangeReport.Report
open Host Comment

-- what a call does is read off `send_cases`
attribute [local irreducible] Message.send

/-! ## Bodies are not empty -/

theorem cutTo_ne_nil {max : Nat} {note body : List Char} (h : note ≠ []) (cut : Nat) :
    cutTo max note body cut ≠ [] := by
  induction cut using cutTo.induct max note body with
  | case1 cut start size total fits =>
      rw [cutTo, dif_pos fits]
      simp [h]
  | case2 cut start size total fits ih =>
      rw [cutTo, dif_neg fits]
      exact ih

theorem build_ne_empty (layout : Layout) (sections : Sections) (trailer : String) :
    build layout sections trailer ≠ "" := by
  intro empty
  simp only [build, truncate] at empty
  split at empty
  · have chars := congrArg String.toList empty
    simp [compose, head, title] at chars
  · have chars := congrArg String.toList empty
    rw [String.toList_ofList] at chars
    refine cutTo_ne_nil ?_ _ chars
    simp [truncationNote]

/-! ## Sending -/

variable {σ τ : Type}

theorem apply_id (m : Message) (c : Change) : (m.apply c).id = m.id := by
  cases c <;> rfl

theorem apply_changeRequest (m : Message) (c : Change) :
    (m.apply c).changeRequest = m.changeRequest := by
  cases c <;> rfl

theorem apply_pushed (m : Message) (c : Change) :
    (m.apply c).pushed = if c = .push then "" else m.pushed := by
  cases c <;> rfl

theorem change_body (host : Host σ) (m : Message) (c : Change) (s : σ) :
    (m.change host c s).2.1.body = (m.apply c).body := by
  obtain ⟨id, pushed, eq⟩ := Message.send_eq host (m.apply c) s
  rw [Message.change, eq]
  simp only [Message.body]

/-- The comment that a message knows is there, and what the message takes for its body is
right or empty. -/
def Known (comments : σ → List Comment) (m : Message) (s : σ) : Prop :=
  ∃ text, bodyOf? m.id (comments s) = some text ∧ (m.pushed = "" ∨ m.pushed = text)

theorem Known.apply {comments : σ → List Comment} {m : Message} {s : σ} (h : Known comments m s)
    (c : Change) : Known comments (m.apply c) s := by
  obtain ⟨text, found, right⟩ := h
  refine ⟨text, by rwa [apply_id], ?_⟩
  rw [apply_pushed]
  split
  · exact .inl rfl
  · exact right

structure Sent (comments : σ → List Comment) (steady : σ → Prop) (edits : σ → Nat)
    (m : Message) (s : σ) (answer : Except PushError Unit) (n : Message) (t : σ) : Prop where
  known : Known comments n t
  steady : steady t
  ok : answer = .ok () → n.pushed = m.body ∧ bodyOf? n.id (comments t) = some m.body
  error : ∀ e, answer = .error e → n = m ∧ comments t = comments s
  edits : edits t = edits s + if m.body ≠ m.pushed then 1 else 0

section
variable {host : Host σ} {login : String} {comments : σ → List Comment} {steady : σ → Prop}
    {edits : σ → Nat}
  {m : Message} {s : σ}

theorem send_sent (conduct : Edits host m.changeRequest login comments steady)
    (counted : ∀ r id body s, edits (host.edit r id body s).2 = edits s + 1) (quiet : steady s)
    (h : Known comments m s) :
    Sent comments steady edits m s (m.send host s).1 (m.send host s).2.1 (m.send host s).2.2 := by
  obtain ⟨text, found, right⟩ := h
  have there : m.id ∈ (comments s).map (·.id) := mem_ids_of_bodyOf? found
  have edited := conduct.edited quiet there m.body
  have after := conduct.stays quiet there m.body
  have more := counted m.changeRequest m.id m.body s
  rcases Message.send_cases host m s with ⟨same, eq⟩ | ⟨differs, id, t, answer, eq⟩ |
      ⟨differs, e, t, answer, eq⟩
  · -- the body is not empty, so it is the one that the comment carries
    have some : m.body ≠ "" := build_ne_empty _ _ _
    have carried : m.pushed = text := right.resolve_left fun empty => some (same.trans empty)
    rw [eq]
    refine ⟨⟨text, found, .inr carried⟩, quiet, fun _ => ⟨same.symm, ?_⟩, fun e failed => ?_, ?_⟩
    · rw [same, carried]
      exact found
    · cases failed
    · rw [if_neg (not_not_intro same)]
      rfl
  · rw [answer] at edited after more
    have carried := edited.bodyOf? there
    have pushed : ({ m with id, pushed := m.body } : Message).pushed = m.body := by dsimp only
    rw [eq]
    refine ⟨⟨m.body, carried, .inr pushed⟩, after, fun _ => ⟨pushed, carried⟩,
      fun e failed => ?_, ?_⟩
    · cases failed
    · rw [if_pos differs]
      exact more
  · rw [answer] at edited after more
    have kept : comments t = comments s := edited.eq_of_error
    rw [eq]
    refine ⟨⟨text, ?_, right⟩, after, fun ok => ?_, fun _ _ => ⟨rfl, kept⟩, ?_⟩
    · rw [kept]
      exact found
    · cases ok
    · rw [if_pos differs]
      exact more

end

/-! ## Calls -/

/-- What is known of earlier calls: the body that the host took last, and whether a wish
to send it in any case has come to nothing since. -/
structure Account where
  taken : String
  owed : Bool

namespace Account

def note (a : Account) (c : Change) (answer : Except PushError Unit) (body : String) : Account :=
  match answer with
  | .ok () => ⟨body, false⟩
  | .error _ => { a with owed := a.owed || c == .push }

def noteAll (host : Host σ) : Account → Message → List Change → σ → Account
  | a, _, [], _ => a
  | a, m, c :: cs, s =>
      let made := m.change host c s
      noteAll host (a.note c made.1 made.2.1.body) made.2.1 cs made.2.2

theorem noteAll_cons (host : Host σ) (a : Account) (m : Message) (c : Change) (cs : List Change)
    (s : σ) :
    noteAll host a m (c :: cs) s =
      noteAll host (a.note c (m.change host c s).1 (m.change host c s).2.1.body)
      (m.change host c s).2.1 cs (m.change host c s).2.2 := by
  simp only [noteAll]

/-- Whether the host has to get a body with a call, by the account before it. -/
def Wants (a : Account) (c : Change) (body : String) : Prop :=
  body ≠ a.taken ∨ c = .push ∨ a.owed = true

/-- What a message takes for the body that the host has. -/
def pushed (a : Account) : String := if a.owed then "" else a.taken

theorem wants_iff {a : Account} {c : Change} {body : String} (h : body ≠ "") :
    a.Wants c body ↔ body ≠ if c = .push then "" else a.pushed := by
  unfold Wants pushed
  by_cases push : c = .push
  · simp [push, h]
  · by_cases owed : a.owed <;> simp [push, owed, h]

end Account

section
variable {host : Host σ} {login : String} {comments : σ → List Comment} {steady : σ → Prop}
    {edits : σ → Nat}
  {m : Message} {s : σ} {a : Account}

/-- What holds between calls. -/
structure Faithful (comments : σ → List Comment) (steady : σ → Prop) (m : Message) (s : σ)
    (a : Account) : Prop where
  known : Known comments m s
  steady : steady s
  pushed : m.pushed = a.pushed

theorem change_sent (conduct : Edits host m.changeRequest login comments steady)
    (counted : ∀ r id body s, edits (host.edit r id body s).2 = edits s + 1)
    (h : Faithful comments steady m s a) (c : Change) :
    Sent comments steady edits (m.apply c) s (m.change host c s).1 (m.change host c s).2.1
      (m.change host c s).2.2 := by
  rw [← apply_changeRequest m c] at conduct
  rw [Message.change]
  exact send_sent conduct counted h.steady (h.known.apply c)

theorem change_faithful (conduct : Edits host m.changeRequest login comments steady)
    (counted : ∀ r id body s, edits (host.edit r id body s).2 = edits s + 1)
    (h : Faithful comments steady m s a) (c : Change) :
    Faithful comments steady (m.change host c s).2.1 (m.change host c s).2.2
      (a.note c (m.change host c s).1 (m.change host c s).2.1.body) := by
  have sent := change_sent conduct counted h c
  refine ⟨sent.known, sent.steady, ?_⟩
  have body : (m.change host c s).2.1.body = (m.apply c).body := change_body host m c s
  cases answer : (m.change host c s).1 with
  | ok done =>
      obtain ⟨pushed, -⟩ := sent.ok answer
      rw [pushed, body]
      simp [Account.note, Account.pushed]
  | error e =>
      obtain ⟨same, -⟩ := sent.error e answer
      rw [same, apply_pushed, h.pushed]
      by_cases push : c = .push <;> by_cases owed : a.owed <;>
        simp [Account.note, Account.pushed, push, owed]

theorem changeAll_faithful (cs : List Change)
    (conduct : Edits host m.changeRequest login comments steady)
    (counted : ∀ r id body s, edits (host.edit r id body s).2 = edits s + 1)
    (h : Faithful comments steady m s a) :
    Faithful comments steady (m.changeAll host cs s).1 (m.changeAll host cs s).2
      (a.noteAll host m cs s) := by
  induction cs generalizing m s a with
  | nil => exact h
  | cons c cs ih =>
      have next := change_faithful conduct counted h c
      rw [← Message.change_changeRequest host m c s] at conduct
      rw [Message.changeAll_cons, Account.noteAll_cons]
      exact ih conduct next

/-- After any calls on a message for a comment that is there, one more call: it loses no
text, whatever the host did; it leaves the message with a comment that is there and a true
or empty idea of its body; when it succeeds, that comment carries the whole report; when
it fails, all is as before on the host; and the body is sent exactly when the host has to
get it. -/
theorem call_delivered {r : ChangeRequest} (conduct : Edits host r login comments steady)
    (counted : ∀ r id body s, edits (host.edit r id body s).2 = edits s + 1) (layout : Layout)
    {id : Nat} {body : String} {start : σ} (quiet : steady start)
    (found : bodyOf? id (comments start) = some body) (cs : List Change) (c : Change) :
    let first := Message.ofComment r layout id body
    let m := first.changeAll host cs start
    let made := m.1.change host c m.2
    let account := Account.noteAll host ⟨body, false⟩ first cs start
    (∀ (τ : Type) (other : Host τ) (t : τ),
      made.2.1.sections = (first.changeAll other (cs ++ [c]) t).1.sections ∧
        made.2.1.trailer = (first.changeAll other (cs ++ [c]) t).1.trailer) ∧
      (∀ app text, m.1.section? app = some text →
        ∃ more, made.2.1.section? app = some (text ++ more)) ∧
      (∃ more, made.2.1.trailer = m.1.trailer ++ more) ∧
      (∃ text, bodyOf? made.2.1.id (comments made.2.2) = some text ∧
        (made.2.1.pushed = "" ∨ made.2.1.pushed = text)) ∧
      (made.1 = .ok () → bodyOf? made.2.1.id (comments made.2.2) =
        some (build layout made.2.1.sections made.2.1.trailer)) ∧
      (∀ e, made.1 = .error e → made.2.1.id = m.1.id ∧ comments made.2.2 = comments m.2) ∧
      (account.Wants c made.2.1.body → edits made.2.2 = edits m.2 + 1) ∧
      (¬ account.Wants c made.2.1.body → edits made.2.2 = edits m.2) := by
  dsimp only
  have begun : Faithful comments steady (Message.ofComment r layout id body) start ⟨body, false⟩ :=
    ⟨⟨body, found, .inr rfl⟩, quiet, rfl⟩
  have request := Message.changeAll_changeRequest host (Message.ofComment r layout id body) cs start
  have laidOut := Message.changeAll_layout host (Message.ofComment r layout id body) cs start
  have all := Message.changeAll_append host (Message.ofComment r layout id body) cs [c] start
  have faithful := changeAll_faithful cs conduct counted begun
  generalize (Message.ofComment r layout id body).changeAll host cs start = reached at *
  generalize
    Account.noteAll host ⟨body, false⟩ (Message.ofComment r layout id body) cs start = a at *
  obtain ⟨m, s⟩ := reached
  rw [Message.changeAll_cons, Message.changeAll_nil] at all
  have same : m.changeRequest = r := request
  rw [← same] at conduct
  have sent := change_sent conduct counted faithful c
  have rebuilt := change_body host m c s
  have layoutKept := Message.change_layout host m c s
  have sections := Message.change_section? host m c s
  have trailer := Message.change_trailer host m c s
  generalize m.change host c s = made at *
  obtain ⟨answer, n, t⟩ := made
  dsimp only at all sent rebuilt layoutKept sections trailer laidOut ⊢
  have some : (m.apply c).body ≠ "" := build_ne_empty _ _ _
  have wants : a.Wants c n.body ↔ (m.apply c).body ≠ (m.apply c).pushed := by
    rw [rebuilt, Account.wants_iff some, apply_pushed, faithful.pushed]
  refine ⟨fun τ other u => ?_, fun app text held => ?_, ?_, sent.known, fun ok => ?_,
    fun e failed => ?_, fun wanted => ?_, fun settled => ?_⟩
  · have agree :=
      Message.changeAll_contents host other (m := .ofComment r layout id body) rfl rfl
        (cs ++ [c]) start u
    rw [all] at agree
    exact agree
  · rw [sections, held]
    exact sectionAfter_some c app text
  · rw [trailer]
    exact trailerAfter_eq c m.trailer
  · have carried := (sent.ok ok).2
    rw [← rebuilt, Message.body, layoutKept, laidOut] at carried
    exact carried
  · obtain ⟨unchanged, kept⟩ := sent.error e failed
    refine ⟨?_, kept⟩
    rw [unchanged, apply_id]
  · rw [sent.edits, if_pos (wants.1 wanted)]
  · rw [sent.edits, if_neg fun differs => settled (wants.2 differs)]
    rfl

/-- A host with one comment that refuses the first edit, and that posts again at each
later one. -/
def reluctant : Planned where
  memory := ⟨"bot", 100, none, 8, [⟨7, "bot", "old", none⟩]⟩
  plan := ⟨fun _ => [some .rateLimited], fun _ => none⟩
  manner := ⟨true, false, none⟩
  log := []

/-- The text of the call that was refused goes out with the next one. -/
theorem call_delivered_later :
    let m := (Message.ofComment ⟨"group/project", 1⟩ .default 7 "old").changeAll
      (Planned.host .github) [.append "a" "x"] reluctant
    let made := m.1.change (Planned.host .github) .push m.2
    made.2.1.id = 8 ∧
      bodyOf? made.2.1.id made.2.2.memory.comments =
        some (build .default made.2.1.sections made.2.1.trailer) := by
  dsimp only
  have orderly : Memory.Orderly "bot" reluctant.memory := ⟨rfl, by decide, by decide⟩
  have found : bodyOf? 7 reluctant.memory.comments = some "old" := rfl
  have all := call_delivered (Planned.edits .github ⟨"group/project", 1⟩ "bot")
      (Planned.editCount_edit .github)
    .default orderly found [.append "a" "x"] .push
  refine ⟨?_, all.2.2.2.2.1 ?_⟩
  · decide +kernel
  · decide +kernel

end
end ChangeReport.Report
