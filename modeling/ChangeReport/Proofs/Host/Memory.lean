import ChangeReport.Proofs.Host.Conduct
import Mathlib.Algebra.Ring.Nat

/-! Comments that are kept in memory. Whatever calls a store gets, its comments have ids of their
own, below the next one, so that no id is given twice, not even after a deletion; a call changes the
comment that it is about and no other; and the pages of a listing cut the comments into pieces. -/
namespace ChangeReport.Host

/-! ## Calls -/

/-- A call about the comments of a change request. -/
inductive Ask where
  | create (r : ChangeRequest) (body : String)
  | edit (r : ChangeRequest) (id : Nat) (body : String)
  | list (r : ChangeRequest) (page : Nat)
  | delete (r : ChangeRequest) (id : Nat)

namespace Ask

variable {σ : Type}

/-- The state of a host after a call. -/
def after (host : Host σ) (s : σ) : Ask → σ
  | create r body => (host.create r body s).2
  | edit r id body => (host.edit r id body s).2
  | list r page => (host.list r page s).2
  | delete r id => (host.delete r id s).2

def afterAll (host : Host σ) (s : σ) (asks : List Ask) : σ := asks.foldl (after host) s

def isCreate : Ask → Bool
  | create .. => true
  | _ => false

end Ask

namespace Memory

/-- What a call about one comment does: it puts `new` in the place of this comment, or it finds none
and changes nothing. -/
inductive Touched {α : Type} (id : Nat) (new : Comment → List Comment) (answer : α) (m : Memory) :
    Except HostError α × Memory → Prop
  | present (front : List Comment) (c : Comment) (back : List Comment)
      (split : m.comments = front ++ c :: back) (own : c.id = id) :
      Touched id new answer m (.ok answer, { m with comments := front ++ new c ++ back })
  | absent (missing : id ∉ m.comments.map (·.id)) :
      Touched id new answer m (.error (.notFound ("comment " ++ toString id)), m)

theorem has_iff {m : Memory} {id : Nat} : m.has id = true ↔ id ∈ m.comments.map (·.id) := by
  simp [has]

theorem setBody_append {id : Nat} {body : String} {front back : List Comment} {c : Comment}
    (own : c.id = id) (other : ∀ d ∈ front, d.id ≠ id) :
    setBody id body (front ++ c :: back) = front ++ { c with body } :: back := by
  induction front with
  | nil => rw [List.nil_append, setBody, if_pos own, List.nil_append]
  | cons d front ih =>
      rw [List.cons_append, setBody, if_neg (other d (List.mem_cons_self ..)),
        ih fun e member => other e (List.mem_cons_of_mem _ member), List.cons_append]

/-- A comment of a store, with those before and after it, which have other ids. -/
theorem Orderly.exists_split {login : String} {m : Memory} (h : Orderly login m) {id : Nat}
    (member : id ∈ m.comments.map (·.id)) :
    ∃ front c back, m.comments = front ++ c :: back ∧ c.id = id ∧
      (∀ d ∈ front, d.id ≠ id) ∧ ∀ d ∈ back, d.id ≠ id := by
  obtain ⟨c, there, rfl⟩ := List.mem_map.1 member
  obtain ⟨front, back, split⟩ := List.append_of_mem there
  have distinct := h.distinct
  rw [split, List.map_append, List.map_cons, List.nodup_middle, List.nodup_cons,
    List.mem_append] at distinct
  refine ⟨front, c, back, split, rfl, fun d inside same => ?_, fun d inside same => ?_⟩
  · exact distinct.1 (.inl (List.mem_map.2 ⟨d, inside, same⟩))
  · exact distinct.1 (.inr (List.mem_map.2 ⟨d, inside, same⟩))

theorem edit_touched {login : String} {m : Memory} (h : Orderly login m) (id : Nat)
    (body : String) : Touched id (fun c => [{ c with body }]) id m (edit id body m) := by
  by_cases member : id ∈ m.comments.map (·.id)
  · obtain ⟨front, c, back, split, own, other, -⟩ := h.exists_split member
    have moved : Touched id (fun c => [{ c with body }]) id m
        (.ok id, { m with comments := front ++ [{ c with body }] ++ back }) :=
      .present front c back split own
    rw [List.append_assoc, List.singleton_append, ← setBody_append own other, ← split] at moved
    rwa [edit, if_pos (has_iff.2 member)]
  · rw [edit, if_neg (mt has_iff.1 member)]
    exact .absent member

theorem delete_touched {login : String} {m : Memory} (h : Orderly login m) (id : Nat) :
    Touched id (fun _ => []) () m (delete id m) := by
  by_cases member : id ∈ m.comments.map (·.id)
  · obtain ⟨front, c, back, split, own, before, behind⟩ := h.exists_split member
    have moved : Touched id (fun _ => []) () m
        (.ok (), { m with comments := front ++ [] ++ back }) :=
      .present front c back split own
    have gone : m.comments.filter (fun d => d.id != id) = front ++ [] ++ back := by
      rw [split, List.filter_append, List.filter_cons_of_neg (by simp [own]),
        List.filter_eq_self.2 fun d inside => by simpa using before d inside,
        List.filter_eq_self.2 fun d inside => by simpa using behind d inside, List.append_nil]
    rw [← gone] at moved
    rwa [delete, if_pos (has_iff.2 member)]
  · rw [delete, if_neg (mt has_iff.1 member)]
    exact .absent member

namespace Touched

variable {α : Type} {id : Nat} {new : Comment → List Comment} {answer : α} {m : Memory}
  {result : Except HostError α × Memory}

theorem orderly (h : Touched id new answer m result) {login : String} (before : Orderly login m)
    (keeps : ∀ c, ((new c).map (·.id)).Sublist [c.id]) : Orderly login result.2 := by
  cases h with
  | absent => exact before
  | present front c back split own =>
      have kept : ((front ++ new c ++ back).map (·.id)).Sublist (m.comments.map (·.id)) := by
        rw [split, List.append_assoc, List.map_append, List.map_append, List.map_append]
        exact (List.Sublist.refl _).append ((keeps c).append (List.Sublist.refl _))
      exact ⟨before.username, before.distinct.sublist kept,
        fun id member => before.below id (kept.subset member)⟩

theorem counter (h : Touched id new answer m result) :
    result.2.nextId = m.nextId ∧ result.2.pageSize = m.pageSize := by
  cases h <;> exact ⟨rfl, rfl⟩

end Touched

/-! ## Runs -/

/-- What `created` new comments and any other calls make of a store. -/
structure Reached (login : String) (m : Memory) (created : Nat) (s : Memory) : Prop where
  orderly : Orderly login s
  nextId : s.nextId = m.nextId + created
  pageSize : s.pageSize = m.pageSize

theorem Reached.after {login : String} {m s : Memory} {created : Nat}
    (h : Reached login m created s) (kind : HostKind) (ask : Ask) :
    Reached login m (created + if ask.isCreate then 1 else 0) (ask.after (host kind) s) := by
  cases ask with
  | create r body => exact ⟨h.orderly.create body, congrArg (· + 1) h.nextId, h.pageSize⟩
  | edit r id body =>
      have touched := edit_touched h.orderly id body
      exact ⟨touched.orderly h.orderly fun c => .refl _, touched.counter.1.trans h.nextId,
        touched.counter.2.trans h.pageSize⟩
  | list r page => exact h
  | delete r id =>
      have touched := delete_touched h.orderly id
      exact ⟨touched.orderly h.orderly fun c => List.nil_sublist _,
        touched.counter.1.trans h.nextId, touched.counter.2.trans h.pageSize⟩

theorem Reached.afterAll {login : String} {m s : Memory} {created : Nat}
    (h : Reached login m created s) (kind : HostKind) (asks : List Ask) :
    Reached login m (created + asks.countP Ask.isCreate) (Ask.afterAll (host kind) s asks) := by
  induction asks generalizing s created with
  | nil => exact h
  | cons ask rest ih =>
      have later := ih (h.after kind ask)
      rw [List.countP_cons, Nat.add_comm (rest.countP _), ← Nat.add_assoc]
      exact later

/-- A store at its start: it is empty, or it holds comments with ids of their own. -/
inductive Start : Memory → Prop
  | empty : Start .empty
  | seeded (username : String) (size : Nat) (comments : List Comment)
      (distinct : (comments.map (·.id)).Nodup) : Start (ofComments username size comments)

theorem below_idAfter (comments : List Comment) (n : Nat) :
    n ≤ comments.foldl (fun n c => max n (c.id + 1)) n ∧
      ∀ c ∈ comments, c.id < comments.foldl (fun n c => max n (c.id + 1)) n := by
  induction comments generalizing n with
  | nil => exact ⟨Nat.le_refl n, nofun⟩
  | cons d rest ih =>
      obtain ⟨grows, below⟩ := ih (max n (d.id + 1))
      refine ⟨Nat.le_trans (Nat.le_max_left ..) grows, fun c member => ?_⟩
      rcases List.mem_cons.1 member with rfl | later
      · exact Nat.lt_of_lt_of_le (Nat.lt_succ_self _) (Nat.le_trans (Nat.le_max_right ..) grows)
      · exact below c later

theorem Start.reached {m : Memory} (h : Start m) : Reached m.username m 0 m ∧ 0 < m.pageSize := by
  cases h with
  | empty => exact ⟨⟨⟨rfl, List.nodup_nil, nofun⟩, rfl, rfl⟩, by decide⟩
  | seeded username size comments distinct =>
      refine ⟨⟨⟨rfl, distinct, fun id member => ?_⟩, rfl, rfl⟩,
        Nat.lt_of_succ_le (Nat.le_max_right ..)⟩
      obtain ⟨c, there, rfl⟩ := List.mem_map.1 member
      exact (below_idAfter comments 1).2 c there

/-! ## Pages -/

/-- The pages of a store, read up to the first that tells of no next one: together they are the
store, and there is nothing behind them. -/
structure PagedTo (m : Memory) (last : Nat) : Prop where
  some : 1 ≤ last
  turned : ∀ n, 1 ≤ n → n < last → (m.page n).hasNext = true
  ended : (m.page last).hasNext = false
  whole : (List.range' 1 last).flatMap (fun n => (m.page n).comments) = m.comments
  beyond : ∀ n, last < n → (m.page n).comments = []

theorem pagedTo_pagesOf {m : Memory} (positive : 0 < m.pageSize) :
    PagedTo m (pagesOf m.pageSize m.comments).length := by
  obtain ⟨some, whole⟩ := pagesOf_flatten m.pageSize m.comments
  have page : ∀ n (h : n < (pagesOf m.pageSize m.comments).length),
      m.page (n + 1) = ⟨(pagesOf m.pageSize m.comments)[n],
        n + 1 < (pagesOf m.pageSize m.comments).length⟩ := fun n h =>
    page_eq positive (List.getElem?_eq_getElem h)
  generalize pagesOf m.pageSize m.comments = cut at some whole page ⊢
  have filled := List.length_pos_iff.2 some
  have ended : (m.page cut.length).hasNext = false := by
    have last := page (cut.length - 1) (by omega)
    rw [Nat.sub_add_cancel filled] at last
    rw [last]
    simp
  refine ⟨filled, fun n first inside => ?_, ended, ?_, fun n behind => ?_⟩
  · have here := page (n - 1) (by omega)
    rw [Nat.sub_add_cancel first] at here
    rw [here]
    exact decide_eq_true inside
  · have pages : (List.range' 1 cut.length).map (fun n => (m.page n).comments) = cut := by
      refine List.ext_getElem (by simp) fun n _ inside => ?_
      rw [List.getElem_map, List.getElem_range', Nat.one_mul, Nat.add_comm, page n inside]
    rw [List.flatMap_def, pages, whole]
  · -- the last page ends with the store, so the pages behind it start beyond its end
    have end_of_store := of_decide_eq_false ended
    have start : cut.length * m.pageSize ≤ (n - 1) * m.pageSize :=
      Nat.mul_le_mul_right _ (by omega)
    have size : (cut.length - 1) * m.pageSize + m.pageSize = cut.length * m.pageSize := by
      rw [← Nat.succ_mul, Nat.succ_eq_add_one, Nat.sub_add_cancel filled]
    have empty : m.comments.drop ((n - 1) * m.pageSize) = [] :=
      List.drop_eq_nil_of_le (by omega)
    simp only [Memory.page, empty, List.take_nil]

/-- A store after any calls, with an earlier state of it, when fewer comments are created than there
are ids left. The ids are distinct and below the next one, which needs no more than 64 bits; a new
comment comes last and gets an id that was never there; a call about one comment touches just this
one; and the pages of a listing are the store, cut into pieces. -/
theorem memory_keeps_comments {m earlier s : Memory} (start : Start m) (kind : HostKind)
    (before between : List Ask) (first : Ask.afterAll (host kind) m before = earlier)
    (later : Ask.afterAll (host kind) earlier between = s)
    (few : (before ++ between).countP Ask.isCreate < 2 ^ 64 - m.nextId) :
    ((s.comments.map (·.id)).Nodup ∧ (∀ c ∈ s.comments, c.id < s.nextId) ∧ s.nextId < 2 ^ 64) ∧
      ((before ++ between).countP Ask.isCreate + 1 < 2 ^ 64 - m.nextId →
        ∀ r body, ∃ id time t, (host kind).create r body s = (.ok id, t) ∧
          t.comments = s.comments ++ [⟨id, s.username, body, time⟩] ∧ t.nextId < 2 ^ 64 ∧
          id ∉ earlier.comments.map (·.id)) ∧
      (∀ r id body,
        Touched id (fun c => [{ c with body }]) id s ((host kind).edit r id body s)) ∧
      (∀ r id, Touched id (fun _ => []) () s ((host kind).delete r id s)) ∧
      (∀ r n, (host kind).list r n s = (.ok (s.page n), s)) ∧
      (∃ last, PagedTo s last) ∧
      (s.pageSize ≤ 2 ^ 31 → ∀ n < 2 ^ 32, (n - 1) * s.pageSize + s.pageSize < 2 ^ 64) := by
  obtain ⟨reached, positive⟩ := start.reached
  have midway := reached.afterAll kind before
  have now := midway.afterAll kind between
  rw [first] at midway now
  rw [later] at now
  rw [List.countP_append] at few
  have next := now.nextId
  have counter : s.nextId < 2 ^ 64 := by omega
  refine ⟨⟨now.orderly.distinct, fun c member => ?_, counter⟩, fun more r body => ?_,
    fun r id body => edit_touched now.orderly id body, fun r id => delete_touched now.orderly id,
    fun r n => rfl, ⟨_, pagedTo_pagesOf (now.pageSize ▸ positive)⟩, fun size n small => ?_⟩
  · exact now.orderly.below c.id (List.mem_map.2 ⟨c, member, rfl⟩)
  · rw [List.countP_append] at more
    have after : s.nextId + 1 < 2 ^ 64 := by omega
    refine ⟨s.nextId, s.now, _, rfl, rfl, after, fun there => ?_⟩
    have old := midway.orderly.below _ there
    have grown := midway.nextId
    omega
  · have bound : (n - 1) * s.pageSize ≤ 2 ^ 32 * 2 ^ 31 := Nat.mul_le_mul (by omega) size
    omega

def talk : List Comment := [⟨4, "ann", "looks good", none⟩, ⟨7, "bot", "report", none⟩]

/-- The id of a comment that was deleted is not given again. -/
theorem memory_keeps_comments_of_talk :
    ∃ earlier s, Ask.afterAll (host .github) (ofComments "bot" 2 talk)
        [.create ⟨"o/r", 1⟩ "draft"] = earlier ∧
      Ask.afterAll (host .github) earlier
        [.delete ⟨"o/r", 1⟩ 8, .edit ⟨"o/r", 1⟩ 4 "looks bad"] = s ∧
      8 ∈ earlier.comments.map (·.id) ∧ s.comments.map (·.id) = [4, 7] ∧
      (∃ id t, (host .github).create ⟨"o/r", 1⟩ "again" s = (.ok id, t) ∧
        id ∉ earlier.comments.map (·.id)) ∧
      ∃ last, PagedTo s last := by
  obtain ⟨-, create, -, -, -, pages, -⟩ := memory_keeps_comments
    (.seeded "bot" 2 talk (by decide)) .github [.create ⟨"o/r", 1⟩ "draft"]
    [.delete ⟨"o/r", 1⟩ 8, .edit ⟨"o/r", 1⟩ 4 "looks bad"] rfl rfl (by decide)
  obtain ⟨id, time, t, answer, -, -, new⟩ := create (by decide) ⟨"o/r", 1⟩ "again"
  exact ⟨_, _, rfl, rfl, by decide, by decide, ⟨id, t, answer, new⟩, pages⟩

end Memory
end ChangeReport.Host
