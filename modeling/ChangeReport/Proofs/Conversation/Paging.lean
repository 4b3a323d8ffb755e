import ChangeReport.Host.Github
import ChangeReport.Host.Gitlab
import ChangeReport.Proofs.Conversation.Listing
import ChangeReport.Proofs.Host.Conduct
import ChangeReport.Proofs.Web.Links

/-! Reading all comments of a change request. A listing may be cut into pages in any way, empty pages
included. Web hosts tell of a next page by a relation in a header of links or by the number of that
page, a host in memory counts its comments, and all of them are read to the same end. -/
namespace ChangeReport

variable {σ : Type}

/-- The answers to numbered calls, one after another. -/
inductive Answers {α : Type} (call : Nat → σ → α × σ) : Nat → List α → σ → σ → Prop
  | none (n s) : Answers call n [] s s
  | next {n a rest s t u} (answer : call n s = (a, t)) (later : Answers call (n + 1) rest t u) :
      Answers call n (a :: rest) s u

/-- Calls that are answered by way of others. -/
theorem Answers.through {α β γ δ : Type} {call : Nat → σ → γ × σ} {other : Nat → σ → δ × σ}
    {f : α → γ} {g : β → δ} {Gives : α → β → Prop}
    (gives : ∀ {n a b s t}, Gives a b → call n s = (f a, t) → other n s = (g b, t)) {as : List α}
    {bs : List β} (given : List.Forall₂ Gives as bs) {n : Nat} {s u : σ}
    (h : Answers call n (as.map f) s u) : Answers other n (bs.map g) s u := by
  induction given generalizing n s with
  | nil =>
      cases h
      exact .none n _
  | cons first _ ih =>
      cases h with
      | next answer later => exact .next (gives first answer) (ih later)

/-- The pages of a listing that is cut like this: all but the last one tell of a next one. -/
def Page.chain : List (List Comment) → List Page
  | [] => []
  | [cs] => [⟨cs, false⟩]
  | cs :: ds :: rest => ⟨cs, true⟩ :: chain (ds :: rest)

namespace Conversation
open Host

theorem listFrom_chain {host : Host σ} {r : ChangeRequest} {pages : List (List Comment)}
    (some : pages ≠ []) {left : Nat} (few : pages.length ≤ left) {n : Nat} {s u : σ}
    (h : Answers (host.list r) n ((Page.chain pages).map .ok) s u) :
    listFrom host r left n s = (.ok pages.flatten, u) := by
  induction pages using Page.chain.induct generalizing left n s with
  | case1 => exact absurd rfl some
  | case2 cs =>
      obtain ⟨left, rfl⟩ := Nat.exists_eq_add_of_le' few
      cases h with
      | next answer later =>
          cases later
          simp [listFrom, answer]
  | case3 cs ds rest ih =>
      obtain ⟨left, rfl⟩ : ∃ k, left = k + 1 := Nat.exists_eq_add_of_le' (by simp at few; omega)
      cases h with
      | next answer later =>
          have read := ih (List.cons_ne_nil _ _) (Nat.le_of_succ_le_succ few) later
          simp [listFrom, answer, read, Except.map]

theorem recorded_answers {host : Host σ} {r : ChangeRequest} {n : Nat} {pages : List Page} {s u : σ}
    (h : Answers (host.list r) n (pages.map .ok) s u) (before : List Event) :
    Answers (host.recorded.list r) n (pages.map .ok) ⟨s, before⟩
      ⟨u, before ++ listings r n pages⟩ := by
  induction pages generalizing n s before with
  | nil =>
      cases h
      rw [listings, List.append_nil]
      exact .none n _
  | cons p pages ih =>
      cases h with
      | next answer later =>
          have rest := ih later (before ++ [.list r n (.ok p)])
          rw [List.append_assoc] at rest
          exact .next (noting_eq (.list r n) answer before) rest

end Conversation

/-! ## Web hosts -/

namespace Web

theorem Client.fetch_eq {τ α : Type} {t : Transport τ} {c : Client} {method : Method} {url : String}
    {read : Tree → Option α} {answer : Response} {a : α} {s u : τ} (success : answer.isSuccess = true)
    (parsed : (Json.parse answer.body.toList).bind read = some a)
    (sent : t ⟨method, url, c.headers, none⟩ s = (some answer, u)) :
    c.fetch t method url none read s = (.ok (a, answer), u) := by
  simp [fetch, send, sent, success, parsed]

end Web

namespace Host
open Web

namespace Github

def listRequest (c : Client) (r : ChangeRequest) (n : Nat) : Request :=
  ⟨.get, pageUrl c r n, c.headers, none⟩

/-- A response that shows a page: its links tell of a next page just if there is one. -/
structure Shows (answer : Response) (p : Page) : Prop where
  success : answer.isSuccess = true
  read : (Json.parse answer.body.toList).bind (Tree.listOf? readComment) = some p.comments
  next : p.hasNext = true → ∃ links, answer.header? "link" = some links ∧ TellsNext links.toList
  last : p.hasNext = false → ∀ links, answer.header? "link" = some links →
    ¬ TellsNext links.toList

theorem Shows.hasNext_eq {answer : Response} {p : Page} (h : Shows answer p) :
    hasNext answer = p.hasNext := by
  cases more : p.hasNext with
  | true =>
      obtain ⟨links, given, tells⟩ := h.next more
      simp only [hasNext, given]
      exact hasNextLink_iff.2 tells
  | false =>
      cases given : answer.header? "link" with
      | none => simp only [hasNext, given]
      | some links =>
          simp only [hasNext, given]
          exact Bool.eq_false_iff.2 (mt hasNextLink_iff.1 (h.last more links given))

theorem Shows.list_eq {answer : Response} {p : Page} (h : Shows answer p) {τ : Type} {t : Transport τ}
    {c : Client} {r : ChangeRequest} {n : Nat} {s u : τ}
    (sent : t (listRequest c r n) s = (some answer, u)) (username : Option String) :
    (host t c username).list r n s = (.ok p, u) := by
  simp only [host, Call.map, Client.fetch_eq h.success h.read sent, Except.map, h.hasNext_eq]

end Github

namespace Gitlab

def listRequest (c : Client) (r : ChangeRequest) (n : Nat) : Request :=
  ⟨.get, pageUrl c r n, c.headers, none⟩

/-- Notes that are comments, and any notes of the system between them. -/
inductive Interleaved : List Comment → List (Comment × Bool) → Prop
  | nil : Interleaved [] []
  | comment (c) {cs notes} (rest : Interleaved cs notes) : Interleaved (c :: cs) ((c, false) :: notes)
  | system (c) {cs notes} (rest : Interleaved cs notes) : Interleaved cs ((c, true) :: notes)

theorem Interleaved.comments_eq {cs : List Comment} {notes : List (Comment × Bool)}
    (h : Interleaved cs notes) : comments notes = cs := by
  induction h with
  | nil => rfl
  | comment c _ ih => simpa [comments] using ih
  | system c _ ih => simpa [comments] using ih

/-- A response that shows a page: it has the number of a next page just if there is one. -/
structure Shows (answer : Response) (p : Page) : Prop where
  success : answer.isSuccess = true
  read : ∃ notes, (Json.parse answer.body.toList).bind (Tree.listOf? readNote) = some notes ∧
    Interleaved p.comments notes
  next : p.hasNext = true →
    ∃ page, answer.header? "x-next-page" = some page ∧ ∃ c ∈ page.toList, Text.isBlank c = false
  last : p.hasNext = false → ∀ page, answer.header? "x-next-page" = some page →
    ∀ c ∈ page.toList, Text.isBlank c = true

theorem Shows.hasNext_eq {answer : Response} {p : Page} (h : Shows answer p) :
    hasNext answer = p.hasNext := by
  cases more : p.hasNext with
  | true =>
      obtain ⟨page, given, shown⟩ := h.next more
      simpa [hasNext, given, Text.allBlank] using shown
  | false =>
      cases given : answer.header? "x-next-page" with
      | none => simp only [hasNext, given]
      | some page => simpa [hasNext, given, Text.allBlank] using h.last more page given

theorem Shows.list_eq {answer : Response} {p : Page} (h : Shows answer p) {τ : Type} {t : Transport τ}
    {c : Client} {r : ChangeRequest} {n : Nat} {s u : τ}
    (sent : t (listRequest c r n) s = (some answer, u)) (username : Option String) :
    (host t c username).list r n s = (.ok p, u) := by
  obtain ⟨notes, read, interleaved⟩ := h.read
  simp only [host, Call.map, Client.fetch_eq h.success read sent, Except.map, h.hasNext_eq,
    interleaved.comments_eq]

end Gitlab

/-! ## Hosts in memory -/

theorem Memory.answers_chain {m : Memory} {pages : List (List Comment)} {n : Nat}
    (shown : ∀ {i page}, pages[i]? = some page → m.page (n + i) = ⟨page, i + 1 < pages.length⟩)
    (kind : HostKind) (r : ChangeRequest) :
    Answers ((host kind).list r) n ((Page.chain pages).map .ok) m m := by
  induction pages using Page.chain.induct generalizing n with
  | case1 => exact .none n m
  | case2 cs =>
      have page : m.page n = ⟨cs, false⟩ := by
        have only := shown (i := 0) rfl
        simpa using only
      exact .next (congrArg (fun p => (Except.ok p, m)) page) (.none _ m)
  | case3 cs ds rest ih =>
      have page : m.page n = ⟨cs, true⟩ := by
        have first := shown (i := 0) rfl
        simpa using first
      refine .next (congrArg (fun p => (Except.ok p, m)) page) (ih fun {i page} found => ?_)
      have later := shown (i := i + 1) found
      rw [Nat.add_assoc, Nat.add_comm 1 i, later]
      simp

/-! ## All comments -/

/-- The pages that a host shows when it is read in the state `s`, and its state after that. -/
inductive Pages (r : ChangeRequest) (pages : List (List Comment)) :
    {σ : Type} → Host σ → σ → σ → Prop
  | github {τ : Type} {t : Transport τ} {c : Client} {answers : List Response} {s u : τ} (username)
      (shows : List.Forall₂ Github.Shows answers (Page.chain pages))
      (served : Answers (fun n => t (Github.listRequest c r n)) 1 (answers.map some) s u) :
      Pages r pages (Github.host t c username) s u
  | gitlab {τ : Type} {t : Transport τ} {c : Client} {answers : List Response} {s u : τ} (username)
      (shows : List.Forall₂ Gitlab.Shows answers (Page.chain pages))
      (served : Answers (fun n => t (Gitlab.listRequest c r n)) 1 (answers.map some) s u) :
      Pages r pages (Gitlab.host t c username) s u
  | memory {m : Memory} (kind) (positive : 1 ≤ m.pageSize)
      (cut : pages = Memory.pagesOf m.pageSize m.comments) : Pages r pages (Memory.host kind) m m

theorem Pages.answers {r : ChangeRequest} {pages : List (List Comment)} {σ : Type} {host : Host σ}
    {s u : σ} (h : Pages r pages host s u) :
    Answers (host.list r) 1 ((Page.chain pages).map .ok) s u := by
  cases h with
  | github username shows served =>
      exact served.through (fun shown sent => shown.list_eq sent username) shows
  | gitlab username shows served =>
      exact served.through (fun shown sent => shown.list_eq sent username) shows
  | memory kind positive cut =>
      subst cut
      refine Memory.answers_chain (fun found => ?_) kind r
      rw [Nat.add_comm]
      exact Memory.page_eq positive found

/-- The page that a call asks for. -/
def Event.page? : Event → Option Nat
  | .list _ page _ => some page
  | _ => none

end Host

namespace Conversation
open Host Web

theorem listings_pages (r : ChangeRequest) (n : Nat) (pages : List Page) :
    (listings r n pages).map Event.page? = (List.range' n pages.length).map some := by
  induction pages generalizing n with
  | nil => rfl
  | cons p pages ih => rw [listings, List.map_cons, ih, List.length_cons, List.range'_succ]; rfl

/-- The pages are asked for one after another. -/
theorem Listing.pages {r : ChangeRequest} {left n : Nat} {events : List Event}
    {answer : Except ConversationError (List Comment)} (h : Listing r left n events answer) :
    ∃ k ≤ left, events.map Event.page? = (List.range' n k).map some := by
  cases h with
  | whole pages complete => exact ⟨pages.length, complete.few, listings_pages r n pages⟩
  | broken pages e few =>
      refine ⟨pages.length + 1, few, ?_⟩
      rw [List.map_append, listings_pages, List.range'_1_concat, List.map_append]
      rfl

/-- All comments are read, each of them once and in order, however their host cuts them into pages and
whichever host it is, with one call for each page. Whatever a host answers, the pages are asked for
in order, and no more of them than may be read. -/
theorem allComments_complete (r : ChangeRequest) :
    (∀ {σ : Type} {host : Host σ} {pages : List (List Comment)} {s u : σ}, Pages r pages host s u →
      pages ≠ [] → pages.length ≤ maxPages →
      allComments host r s = (.ok pages.flatten, u) ∧
      allComments host.recorded r ⟨s, []⟩ =
        (.ok pages.flatten, ⟨u, listings r 1 (Page.chain pages)⟩)) ∧
    ∀ {σ : Type} (host : Host σ) (s : σ), ∃ n ≤ maxPages,
      (allComments host.recorded r ⟨s, []⟩).2.events.map Event.page? =
        (List.range' 1 n).map some := by
  refine ⟨fun shown some few => ?_, fun host s => ?_⟩
  · have answers := shown.answers
    exact ⟨listFrom_chain some few answers, listFrom_chain some few (recorded_answers answers [])⟩
  · obtain ⟨events, answer, t, listing, -, noted⟩ := exists_listing host r maxPages 1 s
    obtain ⟨n, few, asked⟩ := listing.pages
    refine ⟨n, few, ?_⟩
    rw [allComments, noted []]
    exact asked

/-- A link with the marks that set off links and parameters in its address and in a value. -/
def onward : Link where
  url := "https://host/comments?page=2;a,b".toList
  parameters := [Link.nextRelation, ("title".toList, "more; or, less".toList)]

def backward : Link where
  url := "https://host/comments?page=1".toList
  parameters := [("rel".toList, "first".toList)]

/-- A page with one comment, and an empty one after it. -/
def onwardAnswers : List Response :=
  [⟨200, [("link", String.ofList (Link.header [backward, onward]))],
    "[\x7b\"id\": 4, \"body\": \"Looks good\"\x7d]"⟩,
   ⟨200, [("link", String.ofList (Link.header [backward]))], "[]"⟩]

theorem allComments_complete_onward :
    (allComments (Github.host Script.transport (Github.client "https://host" "t") none)
      ⟨"acme/shop", 12⟩ ⟨onwardAnswers, []⟩).1 = .ok [⟨4, "", "Looks good", none⟩] := by
  have onwardValid : onward.Valid := by decide +kernel
  have backwardValid : backward.Valid := by decide +kernel
  have shows : List.Forall₂ Github.Shows onwardAnswers
      (Page.chain [[⟨4, "", "Looks good", none⟩], []]) := by
    refine .cons ⟨rfl, by decide +kernel, fun _ => ?_, nofun⟩
      (.cons ⟨rfl, by decide +kernel, nofun, fun _ links given => ?_⟩ .nil)
    · refine ⟨String.ofList (Link.header [backward, onward]), by decide +kernel, ?_⟩
      rw [String.toList_ofList, Link.tellsNext_header
        (List.forall_mem_cons.2 ⟨backwardValid, List.forall_mem_singleton.2 onwardValid⟩)]
      exact ⟨onward, List.mem_cons_of_mem _ (List.mem_singleton.2 rfl), List.mem_cons_self ..⟩
    · obtain rfl := Option.some.inj given
      rw [String.toList_ofList,
        Link.tellsNext_header (List.forall_mem_singleton.2 backwardValid)]
      decide +kernel
  have read := (allComments_complete ⟨"acme/shop", 12⟩).1
    (.github (t := Script.transport) (c := Github.client "https://host" "t")
      (s := ⟨onwardAnswers, []⟩) none shows (.next rfl (.next rfl (.none 3 _))))
    (List.cons_ne_nil _ _) (by decide)
  exact congrArg Prod.fst read.1

end Conversation
end ChangeReport
