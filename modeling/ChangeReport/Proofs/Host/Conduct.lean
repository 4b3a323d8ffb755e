import ChangeReport.Host.Planned
import Mathlib.Data.List.Nodup
import Mathlib.Tactic.Tauto

/-! How hosts treat the comments of a change request. What is proved about reports rests
on this conduct alone; the hosts in memory are shown to follow it. -/
namespace ChangeReport

namespace Comment

/-- The body of the first comment with this id. -/
def bodyOf? (id : Nat) (cs : List Comment) : Option String :=
  (cs.find? fun c => c.id == id).map (·.body)

/-- The comments with a new body for those with this id. -/
def rewrite (id : Nat) (body : String) (cs : List Comment) : List Comment :=
  cs.map fun c => if c.id = id then { c with body } else c

def without (id : Nat) (cs : List Comment) : List Comment := cs.filter fun c => c.id != id

variable {id : Nat} {body : String} {cs : List Comment}

theorem rewrite_ids : (rewrite id body cs).map (·.id) = cs.map (·.id) := by
  rw [rewrite, List.map_map]
  refine List.map_congr_left fun c _ => ?_
  by_cases h : c.id = id <;> simp [h]

theorem bodyOf?_rewrite (member : id ∈ cs.map (·.id)) :
    bodyOf? id (rewrite id body cs) = some body := by
  induction cs with
  | nil => simp at member
  | cons c cs ih =>
      by_cases h : c.id = id
      · simp [bodyOf?, rewrite, h]
      · have rest : id ∈ cs.map (·.id) := by simpa [Ne.symm h] using member
        simpa [bodyOf?, rewrite, h] using ih rest

/-- Comments with one more put in somewhere. -/
def Inserted (c : Comment) (cs ds : List Comment) : Prop :=
  ∃ before after, cs = before ++ after ∧ ds = before ++ c :: after

namespace Inserted

variable {c : Comment} {ds : List Comment}

theorem last (c : Comment) (cs : List Comment) : Inserted c cs (cs ++ [c]) := ⟨cs, [], by simp, rfl⟩

theorem mem_iff (h : Inserted c cs ds) (d : Comment) : d ∈ ds ↔ d = c ∨ d ∈ cs := by
  obtain ⟨before, after, rfl, rfl⟩ := h
  simp only [List.mem_append, List.mem_cons]
  tauto

theorem perm (h : Inserted c cs ds) : ds.Perm (c :: cs) := by
  obtain ⟨before, after, rfl, rfl⟩ := h
  exact List.perm_middle

theorem sublist (h : Inserted c cs ds) : cs.Sublist ds := by
  obtain ⟨before, after, rfl, rfl⟩ := h
  exact (List.sublist_cons_self c after).append_left before

theorem ids_nodup (h : Inserted c cs ds) (fresh : c.id ∉ cs.map (·.id))
    (distinct : (cs.map (·.id)).Nodup) : (ds.map (·.id)).Nodup := by
  rw [(h.perm.map _).nodup_iff, List.map_cons, List.nodup_cons]
  exact ⟨fresh, distinct⟩

theorem filter_of_neg (h : Inserted c cs ds) {p : Comment → Bool} (other : p c = false) :
    ds.filter p = cs.filter p := by
  obtain ⟨before, after, rfl, rfl⟩ := h
  simp [other]

theorem filter_of_pos (h : Inserted c cs ds) {p : Comment → Bool} (own : p c = true)
    (none : ∀ d ∈ cs, p d = false) : ds.filter p = [c] := by
  obtain ⟨before, after, rfl, rfl⟩ := h
  have empty : (before ++ after).filter p = [] :=
    List.filter_eq_nil_iff.2 fun d member => by simp [none d member]
  rw [List.filter_append, List.append_eq_nil_iff] at empty
  rw [List.filter_append, List.filter_cons_of_pos own, empty.1, empty.2, List.nil_append]

theorem without_eq (h : Inserted c cs ds) (fresh : c.id ∉ cs.map (·.id)) :
    without c.id ds = cs := by
  rw [without, h.filter_of_neg (by simp), List.filter_eq_self]
  intro d member
  have other : d.id ≠ c.id := fun same => fresh (List.mem_map.2 ⟨d, member, same⟩)
  simpa using other

theorem bodyOf? (h : Inserted c cs ds) (fresh : c.id ∉ cs.map (·.id)) :
    Comment.bodyOf? c.id ds = some c.body := by
  obtain ⟨before, after, rfl, rfl⟩ := h
  have none : before.find? (fun d => d.id == c.id) = none := by
    rw [List.find?_eq_none]
    intro d member same
    exact fresh (List.mem_map.2 ⟨d, List.mem_append_left _ member, by simpa using same⟩)
  simp [Comment.bodyOf?, none]

theorem rewrite (h : Inserted c cs ds) (fresh : c.id ∉ cs.map (·.id)) (body : String) :
    Inserted { c with body } cs (Comment.rewrite c.id body ds) := by
  obtain ⟨before, after, rfl, rfl⟩ := h
  refine ⟨before, after, rfl, ?_⟩
  have same : ∀ d ∈ before ++ after, (if d.id = c.id then { d with body } else d) = d := by
    intro d member
    rw [if_neg]
    exact fun same => fresh (List.mem_map.2 ⟨d, member, same⟩)
  rw [Comment.rewrite, List.map_append, List.map_cons, if_pos rfl,
    List.map_congr_left fun d member => same d (List.mem_append_left _ member),
    List.map_congr_left fun d member => same d (List.mem_append_right _ member),
    List.map_id', List.map_id']

end Inserted

theorem mem_ids_of_bodyOf? {text : String} (found : bodyOf? id cs = some text) :
    id ∈ cs.map (·.id) := by
  obtain ⟨c, first, -⟩ := Option.map_eq_some_iff.1 found
  have same : c.id = id := by simpa using List.find?_some first
  exact List.mem_map.2 ⟨c, List.mem_of_find?_eq_some first, same⟩

end Comment

namespace Host
open Comment

/-- What an edit does to comments. It fails and leaves them as they are, it changes the
body in place, or it puts a comment with a new id in the place of the old one. -/
inductive Edited (login : String) (id : Nat) (body : String) (cs : List Comment) :
    Except HostError Nat → List Comment → Prop
  | failed (e : HostError) : Edited login id body cs (.error e) cs
  | inPlace : Edited login id body cs (.ok id) (rewrite id body cs)
  | reposted (c : Comment) (ds : List Comment) (author : c.author = login) (text : c.body = body)
      (fresh : c.id ∉ cs.map (·.id)) (put : Inserted c (without id cs) ds) :
      Edited login id body cs (.ok c.id) ds

theorem Edited.bodyOf? {login : String} {id new : Nat} {body : String} {cs ds : List Comment}
    (h : Edited login id body cs (.ok new) ds) (member : id ∈ cs.map (·.id)) :
    Comment.bodyOf? new ds = some body := by
  cases h with
  | inPlace => exact bodyOf?_rewrite member
  | reposted c ds author text fresh put =>
      have absent : c.id ∉ (without id cs).map (·.id) := fun there =>
        fresh (List.map_subset _ (List.filter_subset_self cs) there)
      rw [put.bodyOf? absent, text]

/-- An edit that keeps the id changes the body in place. -/
theorem Edited.eq_rewrite {login : String} {id : Nat} {body : String} {cs ds : List Comment}
    (h : Edited login id body cs (.ok id) ds) (member : id ∈ cs.map (·.id)) :
    ds = rewrite id body cs := by
  cases h with
  | inPlace => rfl
  | reposted c ds author text fresh put => exact absurd member fresh

theorem Edited.eq_of_error {login : String} {id : Nat} {body : String} {cs ds : List Comment}
    {e : HostError} (h : Edited login id body cs (.error e) ds) : ds = cs := by
  cases h with
  | failed => rfl

section
variable {σ : Type}

/-- Edits of comments that are there, in the states that a host can be in. -/
structure Edits (host : Host σ) (r : ChangeRequest) (login : String) (comments : σ → List Comment)
    (steady : σ → Prop) : Prop where
  edited : ∀ {s id}, steady s → id ∈ (comments s).map (·.id) → ∀ body,
    Edited login id body (comments s) (host.edit r id body s).1 (comments (host.edit r id body s).2)
  stays : ∀ {s id}, steady s → id ∈ (comments s).map (·.id) →
      ∀ body, steady (host.edit r id body s).2

/-- A host whose calls succeed. New comments are by `login` and have new ids, and `pages` are the
pages that a listing has in a state. They may depend on more than the comments, but they stay as
they are while they are read. -/
structure Reliable (host : Host σ) (r : ChangeRequest) (login : String)
    (comments : σ → List Comment) (pages : σ → List (List Comment)) (steady : σ → Prop) : Prop
    extends Edits host r login comments steady where
  willing : ∀ {s id}, steady s → id ∈ (comments s).map (·.id) →
      ∀ body, ∃ new, (host.edit r id body s).1 = .ok new
  username : ∀ {s}, steady s → ∃ t, host.username s = (.ok login, t) ∧
      comments t = comments s ∧ steady t
  pipeline : ∀ {s}, steady s → ∃ url t, host.pipelineUrl r s = (.ok url, t) ∧
      comments t = comments s ∧ steady t
  paged : ∀ {s}, steady s → pages s ≠ [] ∧ (pages s).flatten = comments s
  list : ∀ {s n page}, steady s → (pages s)[n]? = some page →
    ∃ t, host.list r (n + 1) s = (.ok ⟨page, n + 1 < (pages s).length⟩, t) ∧
      comments t = comments s ∧ pages t = pages s ∧ steady t
  create : ∀ {s}, steady s → ∀ body, ∃ c t, host.create r body s = (.ok c.id, t) ∧
      c.author = login ∧ c.body = body ∧
    c.id ∉ (comments s).map (·.id) ∧ Inserted c (comments s) (comments t) ∧ steady t
  delete : ∀ {s id}, steady s → id ∈ (comments s).map (·.id) →
    ∃ t, host.delete r id s = (.ok (), t) ∧ comments t = without id (comments s) ∧ steady t

/-- Edits change comments in place: they keep the id. -/
def InPlace (host : Host σ) (r : ChangeRequest) (comments : σ → List Comment) (steady : σ → Prop) :
    Prop :=
  ∀ s id, steady s → id ∈ (comments s).map (·.id) → ∀ body, (host.edit r id body s).1 = .ok id

/-- The number of edits that a host has been asked for. -/
structure Counted (host : Host σ) (edits : σ → Nat) : Prop where
  edit : ∀ r id body s, edits (host.edit r id body s).2 = edits s + 1
  username : ∀ s, edits (host.username s).2 = edits s
  list : ∀ r n s, edits (host.list r n s).2 = edits s

/-- What no call changes about a host. -/
structure Lasting (host : Host σ) (r : ChangeRequest) (P : σ → Prop) : Prop where
  edit : ∀ id body s, P s → P (host.edit r id body s).2
  username : ∀ s, P s → P (host.username s).2
  pipeline : ∀ s, P s → P (host.pipelineUrl r s).2
  list : ∀ n s, P s → P (host.list r n s).2
  create : ∀ body s, P s → P (host.create r body s).2
  delete : ∀ id s, P s → P (host.delete r id s).2

theorem Reliable.and {host : Host σ} {r : ChangeRequest} {login : String}
    {comments : σ → List Comment} {pages : σ → List (List Comment)} {steady P : σ → Prop}
    (h : Reliable host r login comments pages steady) (lasts : Lasting host r P) :
    Reliable host r login comments pages fun s => steady s ∧ P s where
  edited quiet := h.edited quiet.1
  stays {s id} quiet member body := ⟨h.stays quiet.1 member body, lasts.edit id body s quiet.2⟩
  willing quiet := h.willing quiet.1
  username {s} quiet := by
    obtain ⟨t, answer, same, after⟩ := h.username quiet.1
    have last := lasts.username s quiet.2
    rw [answer] at last
    exact ⟨t, answer, same, after, last⟩
  pipeline {s} quiet := by
    obtain ⟨url, t, answer, same, after⟩ := h.pipeline quiet.1
    have last := lasts.pipeline s quiet.2
    rw [answer] at last
    exact ⟨url, t, answer, same, after, last⟩
  paged quiet := h.paged quiet.1
  list {s n page} quiet found := by
    obtain ⟨t, answer, same, cut, after⟩ := h.list quiet.1 found
    have last := lasts.list (n + 1) s quiet.2
    rw [answer] at last
    exact ⟨t, answer, same, cut, after, last⟩
  create {s} quiet body := by
    obtain ⟨c, t, answer, author, text, fresh, put, after⟩ := h.create quiet.1 body
    have last := lasts.create body s quiet.2
    rw [answer] at last
    exact ⟨c, t, answer, author, text, fresh, put, after, last⟩
  delete {s id} quiet member := by
    obtain ⟨t, answer, same, after⟩ := h.delete quiet.1 member
    have last := lasts.delete id s quiet.2
    rw [answer] at last
    exact ⟨t, answer, same, after, last⟩

end

/-! ## The hosts in memory -/

namespace Memory

/-- No two comments share an id, and the next id is new. -/
structure Orderly (login : String) (m : Memory) : Prop where
  username : m.username = login
  distinct : (m.comments.map (·.id)).Nodup
  below : ∀ id ∈ m.comments.map (·.id), id < m.nextId

theorem setBody_eq_rewrite {id : Nat} {body : String} {cs : List Comment}
    (distinct : (cs.map (·.id)).Nodup) : setBody id body cs = rewrite id body cs := by
  induction cs with
  | nil => rfl
  | cons c cs ih =>
      rw [List.map_cons, List.nodup_cons] at distinct
      by_cases h : c.id = id
      · have rest : ∀ d ∈ cs, (if d.id = id then { d with body } else d) = d := by
          intro d member
          rw [if_neg]
          intro same
          exact distinct.1 (List.mem_map.2 ⟨d, member, same.trans h.symm⟩)
        rw [setBody, if_pos h, rewrite, List.map_cons, if_pos h, List.map_congr_left rest,
          List.map_id']
      · have rest := ih distinct.2
        rw [rewrite] at rest
        simp [setBody, rewrite, h, rest]

theorem has_of_mem {m : Memory} {id : Nat} (member : id ∈ m.comments.map (·.id)) :
    m.has id = true := by
  obtain ⟨c, there, rfl⟩ := List.mem_map.1 member
  exact List.any_eq_true.2 ⟨c, there, by simp⟩

namespace Orderly

variable {login : String} {m : Memory}

theorem fresh (h : Orderly login m) : m.nextId ∉ m.comments.map (·.id) := fun there =>
  Nat.lt_irrefl _ (h.below _ there)

theorem without (h : Orderly login m) (id : Nat) :
    Orderly login { m with comments := Comment.without id m.comments } := by
  have kept : ((Comment.without id m.comments).map (·.id)).Sublist (m.comments.map (·.id)) :=
    List.filter_sublist.map _
  exact ⟨h.username, h.distinct.sublist kept, fun a there => h.below a (kept.subset there)⟩

theorem create (h : Orderly login m) (body : String) : Orderly login (Memory.create body m).2 := by
  refine ⟨h.username, ?_, fun a there => ?_⟩
  · exact (Inserted.last ⟨m.nextId, m.username, body, m.now⟩ m.comments).ids_nodup h.fresh
      h.distinct
  · rw [Memory.create, List.map_append, List.mem_append] at there
    rcases there with old | new
    · exact Nat.lt_succ_of_lt (h.below a old)
    · rw [List.mem_singleton.1 new]
      exact Nat.lt_succ_self _

end Orderly

theorem edit_conduct {login : String} {m : Memory} (orderly : Orderly login m) {id : Nat}
    (member : id ∈ m.comments.map (·.id)) (body : String) :
    Edited login id body m.comments (edit id body m).1 (edit id body m).2.comments ∧
      Orderly login (edit id body m).2 := by
  simp only [edit, has_of_mem member, if_true, setBody_eq_rewrite orderly.distinct]
  refine ⟨.inPlace, orderly.username, ?_, ?_⟩
  · rw [rewrite_ids]
    exact orderly.distinct
  · rw [rewrite_ids]
    exact orderly.below

def pagesOf (size : Nat) (cs : List Comment) : List (List Comment) :=
  if size = 0 ∨ cs.length ≤ size then [cs] else cs.take size :: pagesOf size (cs.drop size)
termination_by cs.length
decreasing_by
  rw [List.length_drop]
  omega

theorem pagesOf_flatten (size : Nat) (cs : List Comment) :
    pagesOf size cs ≠ [] ∧ (pagesOf size cs).flatten = cs := by
  induction cs using pagesOf.induct size with
  | case1 cs last => simp [pagesOf, last]
  | case2 cs more ih =>
      rw [pagesOf, if_neg more]
      refine ⟨List.cons_ne_nil _ _, ?_⟩
      rw [List.flatten_cons, ih.2, List.take_append_drop]

theorem length_pagesOf_le (size : Nat) (cs : List Comment) :
    (pagesOf size cs).length ≤ cs.length + 1 := by
  induction cs using pagesOf.induct size with
  | case1 cs last => simp [pagesOf, last]
  | case2 cs more ih =>
      rw [List.length_drop] at ih
      rw [pagesOf, if_neg more, List.length_cons]
      omega

theorem getElem?_pagesOf {size : Nat} (positive : 0 < size) {cs page : List Comment} {n : Nat}
    (h : (pagesOf size cs)[n]? = some page) :
    page = (cs.drop (n * size)).take size ∧
      (n + 1 < (pagesOf size cs).length ↔ n * size + size < cs.length) := by
  induction cs using pagesOf.induct size generalizing n with
  | case1 cs last =>
      have short : cs.length ≤ size := last.resolve_left (Nat.ne_of_gt positive)
      rw [pagesOf, if_pos last] at h ⊢
      cases n with
      | zero =>
          obtain rfl : cs = page := by simpa using h
          simp [List.take_of_length_le short, short]
      | succ n => simp at h
  | case2 cs more ih =>
      have long : size < cs.length := by omega
      rw [pagesOf, if_neg more] at h ⊢
      cases n with
      | zero =>
          obtain rfl : cs.take size = page := by simpa using h
          have some : 0 < (pagesOf size (cs.drop size)).length :=
            List.length_pos_iff.2 (pagesOf_flatten size (cs.drop size)).1
          simp [long, some]
      | succ n =>
          obtain ⟨rfl, next⟩ := ih (by simpa using h)
          rw [List.length_drop] at next
          have shift : (n + 1) * size = size + n * size := by rw [Nat.succ_mul, Nat.add_comm]
          refine ⟨by rw [List.drop_drop, shift], ?_⟩
          rw [List.length_cons, shift]
          omega

theorem page_eq {m : Memory} (positive : 0 < m.pageSize) {n : Nat} {page : List Comment}
    (h : (pagesOf m.pageSize m.comments)[n]? = some page) :
    m.page (n + 1) = ⟨page, n + 1 < (pagesOf m.pageSize m.comments).length⟩ := by
  obtain ⟨rfl, next⟩ := getElem?_pagesOf positive h
  simp only [Memory.page, Nat.add_sub_cancel, Page.mk.injEq, true_and]
  exact decide_eq_decide.2 next.symm

end Memory

namespace Planned

variable {login : String} {m : Memory} {id : Nat}

theorem repost_conduct (orderly : Memory.Orderly login m) (member : id ∈ m.comments.map (·.id))
    (body : String) :
    Edited login id body m.comments (repost id body m).1 (repost id body m).2.comments ∧
      Memory.Orderly login (repost id body m).2 := by
  simp only [repost, Memory.delete, Memory.has_of_mem member, if_true]
  refine ⟨?_, (orderly.without id).create body⟩
  exact .reposted ⟨m.nextId, m.username, body, m.now⟩ _ orderly.username rfl orderly.fresh
    (.last ..)

/-- Whatever the plan, and whether or not edits post again. -/
theorem edits (kind : HostKind) (r : ChangeRequest) (login : String) :
    Edits (host kind) r login (·.memory.comments) fun s => Memory.Orderly login s.memory := by
  have all : ∀ {s : Planned} {id}, Memory.Orderly login s.memory →
      id ∈ s.memory.comments.map (·.id) → ∀ body,
      Edited login id body s.memory.comments ((host kind).edit r id body s).1
          ((host kind).edit r id body s).2.memory.comments ∧
        Memory.Orderly login ((host kind).edit r id body s).2.memory := by
    intro s id orderly member body
    simp only [host, planned]
    split
    next e _ => exact ⟨.failed e, orderly⟩
    next =>
      simp only [edit, inMemory]
      split
      · exact repost_conduct orderly member body
      · exact Memory.edit_conduct orderly member body
  exact ⟨fun orderly member body => (all orderly member body).1,
    fun orderly member body => (all orderly member body).2⟩

/-- Nothing is planned to fail. -/
structure Willing (login : String) (p : Planned) : Prop where
  orderly : Memory.Orderly login p.memory
  pageSize : 0 < p.memory.pageSize
  plan : ∀ m, p.plan.next m = [] ∧ p.plan.always m = none
  ends : p.manner.endless = false

theorem planned_of_willing {α : Type} {p : Planned} (h : Willing login p)
    (m : Method) (number : Option Nat) (call : Call Planned α) :
    planned m number call p = call { p with log := p.log ++ [⟨m, number⟩] } := by
  simp [planned, take, (h.plan m).1, (h.plan m).2]

theorem edit_of_willing {p : Planned} (h : Willing login p) (kind : HostKind)
    (r : ChangeRequest) (member : id ∈ p.memory.comments.map (·.id)) (body : String) :
    ∃ new memory log, (host kind).edit r id body p = (.ok new, { p with memory, log }) ∧
      0 < memory.pageSize := by
  simp only [host, planned_of_willing h, edit, inMemory]
  split
  · simp only [repost, Memory.delete, Memory.has_of_mem member, if_true, Memory.create]
    exact ⟨_, _, _, rfl, h.pageSize⟩
  · simp only [Memory.edit, Memory.has_of_mem member, if_true]
    exact ⟨_, _, _, rfl, h.pageSize⟩

/-- The pages of a listing. -/
def pages (p : Planned) : List (List Comment) := Memory.pagesOf p.memory.pageSize p.memory.comments

/-- A host in memory whose calls do not fail is reliable, whether or not its edits post
again. -/
theorem reliable (kind : HostKind) (r : ChangeRequest) (login : String) :
    Reliable (host kind) r login (·.memory.comments) pages (Willing login) where
  edited h member body := (edits kind r login).edited h.orderly member body
  stays h member body := by
    obtain ⟨new, memory, log, eq, pageSize⟩ := edit_of_willing h kind r member body
    have orderly := (edits kind r login).stays h.orderly member body
    rw [eq] at orderly ⊢
    exact ⟨orderly, pageSize, h.plan, h.ends⟩
  willing h member body := by
    obtain ⟨new, memory, log, eq, -⟩ := edit_of_willing h kind r member body
    exact ⟨new, by rw [eq]⟩
  username {s} h := by
    simp only [host, planned_of_willing h, h.orderly.username]
    exact ⟨_, rfl, rfl, h.orderly, h.pageSize, h.plan, h.ends⟩
  pipeline h := by
    simp only [host, planned_of_willing h]
    exact ⟨_, _, rfl, rfl, h.orderly, h.pageSize, h.plan, h.ends⟩
  paged {s} _ := Memory.pagesOf_flatten s.memory.pageSize s.memory.comments
  list {s n page} h found := by
    simp only [host, planned_of_willing h, list, Memory.page_eq h.pageSize found, h.ends,
      Bool.or_false]
    exact ⟨_, rfl, rfl, rfl, h.orderly, h.pageSize, h.plan, h.ends⟩
  create {s} h body := by
    simp only [host, planned_of_willing h, inMemory]
    exact ⟨⟨s.memory.nextId, s.memory.username, body, s.memory.now⟩, _, rfl, h.orderly.username,
      rfl, h.orderly.fresh, .last .., h.orderly.create body, h.pageSize, h.plan, h.ends⟩
  delete {s id} h member := by
    simp only [host, planned_of_willing h, inMemory, Memory.delete,
      Memory.has_of_mem member, if_true]
    exact ⟨_, rfl, rfl, h.orderly.without id, h.pageSize, h.plan, h.ends⟩

def editCount (p : Planned) : Nat := (p.log.filter fun e => e.method == .edit).length

theorem editCount_edit (kind : HostKind) (r : ChangeRequest) (id : Nat) (body : String)
    (p : Planned) :
    ((host kind).edit r id body p).2.editCount = p.editCount + 1 := by
  have kept : ∀ s : Planned, (edit id body s).2.log = s.log := fun _ => rfl
  simp only [host, planned, editCount]
  split
  · simp
  · rw [kept]
    simp

theorem counted (kind : HostKind) : Counted (host kind) editCount where
  edit := editCount_edit kind
  username s := by
    simp only [host, planned, editCount]
    split <;> simp
  list r n s := by
    simp only [host, planned, editCount, list]
    split <;> simp

/-- What a host in memory does about calls stays as it is. -/
theorem lasting_manner (kind : HostKind) (r : ChangeRequest) (manner : Manner) :
    Lasting (host kind) r fun p => p.manner = manner := by
  have kept : ∀ {α : Type} (m : Method) (number : Option Nat) (call : Call Planned α),
      (∀ s : Planned, s.manner = manner → (call s).2.manner = manner) →
      ∀ s : Planned, s.manner = manner → (planned m number call s).2.manner = manner := by
    intro α m number call keeps s same
    simp only [planned]
    split
    · exact same
    · exact keeps _ same
  exact ⟨fun id body => kept .edit (some id) _ fun s same => same,
    kept .username none _ fun s same => same, kept .pipeline none _ fun s same => same,
    fun n => kept .list (some n) _ fun s same => same,
    fun body => kept .create none _ fun s same => same,
    fun id => kept .delete (some id) _ fun s same => same⟩

theorem inPlace (kind : HostKind) (r : ChangeRequest) (login : String)
    {manner : Manner} (edits : manner.reposts = false) :
    InPlace (host kind) r (·.memory.comments)
      fun p => Willing login p ∧ p.manner = manner := by
  rintro p id ⟨willing, rfl⟩ member body
  simp [host, planned_of_willing willing, edit, inMemory, edits, Memory.edit,
    Memory.has_of_mem member]

end Planned
end Host
end ChangeReport
