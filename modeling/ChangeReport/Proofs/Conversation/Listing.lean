import ChangeReport.Conversation
import ChangeReport.Proofs.Host.Trace

/-! Reading all pages of a listing. Whatever the host answers, the pages are asked for one after
another, up to the first that fails or tells of no next one, and never more than may be read. -/
namespace ChangeReport.Conversation
open Host

/-- The calls that read some pages, the first of which is page `n`. -/
def listings (r : ChangeRequest) : Nat → List Page → List Event
  | _, [] => []
  | n, p :: pages => .list r n (.ok p) :: listings r (n + 1) pages

theorem exists_page_of_mem_listings {r : ChangeRequest} {n : Nat} {pages : List Page} {x : Event}
    (member : x ∈ listings r n pages) : ∃ k, ∃ p ∈ pages, x = .list r k (.ok p) := by
  induction pages generalizing n with
  | nil => cases member
  | cons p pages ih =>
      rcases List.mem_cons.1 member with rfl | later
      · exact ⟨n, p, List.mem_cons_self .., rfl⟩
      · obtain ⟨k, q, inside, eq⟩ := ih later
        exact ⟨k, q, List.mem_cons_of_mem _ inside, eq⟩

theorem exists_listing_of_mem (r : ChangeRequest) (n : Nat) {pages : List Page} {p : Page}
    (member : p ∈ pages) : ∃ k, .list r k (.ok p) ∈ listings r n pages := by
  induction pages generalizing n with
  | nil => cases member
  | cons q pages ih =>
      rcases List.mem_cons.1 member with rfl | later
      · exact ⟨n, List.mem_cons_self ..⟩
      · obtain ⟨k, inside⟩ := ih (n + 1) later
        exact ⟨k, List.mem_cons_of_mem _ inside⟩

/-- All pages of a listing of which at most `left` may be read: each but the last one tells of a
next one, and the last one of none, unless no more may be read. -/
structure Complete (left : Nat) (pages : List Page) : Prop where
  few : pages.length ≤ left
  turned : ∀ p ∈ pages.dropLast, p.hasNext = true
  ended : pages.length = left ∨ ∃ last, pages.getLast? = some last ∧ last.hasNext = false

theorem Complete.single {p : Page} (last : p.hasNext = false) (left : Nat) :
    Complete (left + 1) [p] where
  few := Nat.le_add_left ..
  turned _ member := by cases member
  ended := .inr ⟨p, rfl, last⟩

theorem Complete.cons {left : Nat} {p : Page} {pages : List Page} (h : Complete left pages)
    (next : p.hasNext = true) : Complete (left + 1) (p :: pages) := by
  obtain ⟨few, turned, ended⟩ := h
  cases pages with
  | nil =>
      obtain rfl : 0 = left := by simpa using ended
      exact ⟨Nat.le_refl 1, by simp, .inl rfl⟩
  | cons q pages =>
      refine ⟨Nat.succ_le_succ few, fun x member => ?_, ended.imp (congrArg (· + 1)) fun h => ?_⟩
      · rcases List.mem_cons.1 member with rfl | later
        · exact next
        · exact turned x later
      · rwa [List.getLast?_cons_cons]

/-- The calls of a listing from page `n` on, and what comes of them. -/
inductive Listing (r : ChangeRequest) (left n : Nat) :
    List Event → Except ConversationError (List Comment) → Prop
  | whole (pages) (complete : Complete left pages) :
      Listing r left n (listings r n pages) (.ok (pages.flatMap (·.comments)))
  | broken (pages) (e) (few : pages.length < left) (turned : ∀ p ∈ pages, p.hasNext = true) :
      Listing r left n (listings r n pages ++ [.list r (n + pages.length) (.error e)])
        (.error (.list (n + pages.length) e))

theorem Listing.cons {r : ChangeRequest} {left n : Nat} {p : Page} {events : List Event}
    {answer : Except ConversationError (List Comment)} (h : Listing r left (n + 1) events answer)
    (next : p.hasNext = true) :
    Listing r (left + 1) n (.list r n (.ok p) :: events) (answer.map (p.comments ++ ·)) := by
  cases h with
  | whole pages complete => exact .whole (p :: pages) (complete.cons next)
  | broken pages e few turned =>
      have place : n + 1 + pages.length = n + (p :: pages).length := by
        rw [List.length_cons]
        omega
      rw [place]
      refine .broken (p :: pages) e (Nat.succ_lt_succ few) fun q member => ?_
      rcases List.mem_cons.1 member with rfl | later
      · exact next
      · exact turned q later

variable {σ : Type}

/-- A host is read as a listing, and a recorded one keeps just its calls. -/
theorem exists_listing (host : Host σ) (r : ChangeRequest) (left n : Nat) (s : σ) :
    ∃ events answer t, Listing r left n events answer ∧
      listFrom host r left n s = (answer, t) ∧
      ∀ before, listFrom host.recorded r left n ⟨s, before⟩ = (answer, ⟨t, before ++ events⟩) := by
  induction left generalizing n s with
  | zero =>
      refine ⟨[], .ok [], s, .whole [] ⟨Nat.le_refl 0, by simp, .inl rfl⟩, rfl,
        fun before => ?_⟩
      rw [List.append_nil]
      rfl
  | succ left ih =>
      rcases read : host.list r n s with ⟨answer, t⟩
      have noted := noting_eq (.list r n) read
      cases answer with
      | error e =>
          refine ⟨[.list r n (.error e)], .error (.list n e), t,
            .broken [] e (Nat.succ_pos left) (by simp), ?_, fun before => ?_⟩
          · simp only [listFrom, read]
          · simp only [listFrom, recorded, noted]
      | ok p =>
          cases next : p.hasNext with
          | false =>
              refine ⟨[.list r n (.ok p)], .ok ([p].flatMap (·.comments)), t,
                .whole [p] (.single next left), ?_, fun before => ?_⟩
              · simp [listFrom, read, next]
              · simp [listFrom, recorded, noted, next]
          | true =>
              obtain ⟨events, answer, u, rest, plain, kept⟩ := ih (n + 1) t
              refine ⟨.list r n (.ok p) :: events, answer.map (p.comments ++ ·), u,
                rest.cons next, ?_, fun before => ?_⟩
              · simp [listFrom, read, next, plain]
              · have later := kept (before ++ [.list r n (.ok p)])
                rw [recorded] at later
                simp [listFrom, recorded, noted, next, later]

end ChangeReport.Conversation
