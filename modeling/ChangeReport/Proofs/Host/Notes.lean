import ChangeReport.Host.Gitlab
import ChangeReport.Proofs.Text.Digits
import ChangeReport.Proofs.Web.Url

/-! The addresses of notes. A note is found by the path of its project, the number of its merge
request and its own number. All three are told by the address, and by what goes over the wire for
it, so a call for one note reaches no other one. -/
namespace ChangeReport

@[ext] theorem ChangeRequest.ext {r s : ChangeRequest} (repo : r.repo = s.repo)
    (number : r.number = s.number) : r = s := by
  cases r
  cases s
  cases repo
  cases number
  rfl

namespace Web

variable {τ α β : Type} {t : Transport τ} {url : String}

/-- A call that sends one request, to this address, whatever comes back. -/
def Sends (t : Transport τ) (url : String) (call : Call τ α) : Prop :=
  ∀ s, ∃ request : Request, request.url = url ∧ (call s).2 = (t request s).2

theorem Sends.map {call : Call τ α} (h : Sends t url call) (f : α → β) :
    Sends t url (call.map f) := h

theorem sends_send (t : Transport τ) (c : Client) (method : Method) (url : String)
    (body : Option Document) : Sends t url (c.send t method url body) := by
  intro s
  let json : Headers := if body.isSome then [("content-type", "application/json")] else []
  refine ⟨⟨method, url, c.headers ++ json, body⟩, rfl, ?_⟩
  rw [Client.send]
  rcases t ⟨method, url, c.headers ++ json, body⟩ s with ⟨answer | answer, after⟩
  · rfl
  · dsimp only
    split <;> rfl

theorem sends_fetch (t : Transport τ) (c : Client) (method : Method) (url : String)
    (body : Option Document) (read : Tree → Option α) :
    Sends t url (c.fetch t method url body read) := by
  intro s
  obtain ⟨request, same, after⟩ := sends_send t c method url body s
  refine ⟨request, same, Eq.trans ?_ after⟩
  rw [Client.fetch]
  rcases c.send t method url body s with ⟨answer | answer, left⟩
  · rfl
  · dsimp only
    split <;> rfl

end Web

namespace Host.Gitlab
open Text Web

/-- What tells a note of a project. -/
def requestSegments (r : ChangeRequest) (id : Nat) : List (List Char) :=
  ["merge_requests".toList, (toString r.number).toList, "notes".toList, (toString id).toList]

/-- What stands behind the address of the server. -/
def noteSegments (r : ChangeRequest) (id : Nat) : List (List Char) :=
  "projects".toList :: (encodeSegment r.repo).toList :: requestSegments r id

/-- What is left of these when dots as a path of the project are taken away. -/
def keptSegments (r : ChangeRequest) (id : Nat) : List (List Char) :=
  (enter ["projects".toList] (encodeSegment r.repo).toList).reverse ++ requestSegments r id

variable {c : Client} {r s : ChangeRequest} {i j : Nat}

theorem noteUrl_toList (c : Client) (r : ChangeRequest) (i : Nat) :
    (noteUrl c r i).toList = c.baseUrl.toList ++ pathOf (noteSegments r i) := by
  simp [noteUrl, notesUrl, requestUrl, noteSegments, requestSegments, pathOf]

theorem requestSegments_inj (h : requestSegments r i = requestSegments s j) :
    r.number = s.number ∧ i = j := by
  simp only [requestSegments, List.cons.injEq, true_and, and_true] at h
  exact ⟨toList_toString_inj h.1, toList_toString_inj h.2⟩

theorem isPlain_toString (n : Nat) : ∀ c ∈ (toString n).toList, isPlain c = true := by
  intro c member
  refine isPlain_of_isAlphanum ?_
  change (c.isAlpha || c.isDigit) = true
  rw [isDigit_of_mem_toString member, Bool.or_true]

theorem isPlain_noteSegments : ∀ t ∈ noteSegments r i, ∀ c ∈ t, isPlain c = true := by
  have names : ["projects", "merge_requests", "notes"].all (·.toList.all isPlain) = true := by decide
  simp only [List.all_cons, List.all_nil, Bool.and_eq_true, List.all_eq_true] at names
  simp only [noteSegments, requestSegments, List.forall_mem_cons]
  exact ⟨names.1, (encodes_encodeSegment r.repo).isPlain, names.2.1, isPlain_toString _,
    names.2.2.1, isPlain_toString _, List.forall_mem_nil _⟩

theorem noteUrl_inj (h : noteUrl c r i = noteUrl c s j) : r = s ∧ i = j := by
  have texts := congrArg String.toList h
  rw [noteUrl_toList, noteUrl_toList, List.append_right_inj] at texts
  have segments := pathOf_inj (slash_notMem_of_isPlain isPlain_noteSegments)
    (slash_notMem_of_isPlain isPlain_noteSegments) texts
  simp only [noteSegments, List.cons.injEq, true_and] at segments
  obtain ⟨number, note⟩ := requestSegments_inj segments.2
  have spelled := encodes_encodeSegment r.repo
  rw [segments.1] at spelled
  have repo := toBytes_toList_inj (spelled.unique (encodes_encodeSegment s.repo))
  exact ⟨ChangeRequest.ext repo number, note⟩

/-! ## Over the wire -/

theorem keptSegments_inj (h : keptSegments r i = keptSegments s j) : r = s ∧ i = j := by
  rw [keptSegments, keptSegments] at h
  obtain ⟨project, rest⟩ := List.append_inj' h rfl
  obtain ⟨number, note⟩ := requestSegments_inj rest
  -- how many segments are left in front tells the paths that are dots
  have repo := toBytes_toList_inj (enter_inj (encodes_encodeSegment r.repo)
    (encodes_encodeSegment s.repo) (List.reverse_inj.1 project))
  exact ⟨ChangeRequest.ext repo number, note⟩

theorem isPlain_keptSegments : ∀ t ∈ keptSegments r i, ∀ c ∈ t, isPlain c = true := by
  have within : keptSegments r i ⊆ noteSegments r i := by
    intro t member
    rw [keptSegments, List.mem_append, List.mem_reverse] at member
    rcases member with left | rest
    · have either := enter_subset _ _ left
      rw [List.mem_cons, List.mem_singleton] at either
      rcases either with rfl | rfl
      · exact List.mem_cons_of_mem _ (List.mem_cons_self ..)
      · exact List.mem_cons_self ..
    · exact List.mem_cons_of_mem _ (List.mem_cons_of_mem _ rest)
  exact fun t member => isPlain_noteSegments t (within member)

theorem isDots_requestSegments : ∀ t ∈ requestSegments r i, isDots t = false := by
  have number : ∀ n : Nat, isDots (toString n).toList = false := fun n =>
    isDots_of_notMem (notMem_toString rfl n) (notMem_toString rfl n)
  simp only [requestSegments, List.forall_mem_cons]
  exact ⟨by decide, number _, by decide, number _, List.forall_mem_nil _⟩

/-- Dots as a path of the project take away a segment or two of the address, and nothing else. -/
theorem requestTarget_noteUrl {a : Address} (valid : a.Valid) (base : c.baseUrl.toList = a.text)
    (r : ChangeRequest) (i : Nat) : requestTarget (noteUrl c r i) =
      String.ofList (sent a.entered.reverse ++ pathOf (keptSegments r i)) := by
  have url : noteUrl c r i = String.ofList (a.text ++ pathOf
      (["projects".toList, (encodeSegment r.repo).toList] ++ requestSegments r i)) := by
    rw [← base, ← String.ofList_toList (s := noteUrl c r i), noteUrl_toList]
    rfl
  have folder : isDots "projects".toList = false := by decide
  have left : ["projects".toList, (encodeSegment r.repo).toList].foldl enter a.entered =
      enter ["projects".toList] (encodeSegment r.repo).toList ++ a.entered := by
    rw [List.foldl_cons, List.foldl_cons, List.foldl_nil, enter_of_not_isDots folder, enter_cons]
  have more : requestSegments r i ≠ [] := List.cons_ne_nil _ _
  rw [url, requestTarget_append valid more isPlain_noteSegments isDots_requestSegments, left,
    List.reverse_append, List.append_assoc, ← keptSegments, sent_append,
    sent_of_isPlain isPlain_keptSegments]

/-- Notes have addresses of their own. The path of a project is spelled as one segment, in unreserved
characters and escapes, that reads back as the bytes of the path. So different notes have different
addresses, whatever their project and merge request, and calls that edit or delete a note ask for its
address only. What goes over the wire tells them apart as well, even when the path of a project is
one of the dots that are taken away there. -/
theorem noteUrl_identifies (c : Client) :
    (∀ project : String,
      Encodes (encodeSegment project).toList (project.toUTF8.data.toList.map UInt8.toNat) ∧
      decodeSegment? (encodeSegment project).toList =
        some (project.toUTF8.data.toList.map UInt8.toNat) ∧
      ∀ mark ∈ ['/', '?', '#'], mark ∉ (encodeSegment project).toList) ∧
    (∀ r s i j, noteUrl c r i = noteUrl c s j ↔ r = s ∧ i = j) ∧
    (∀ {τ : Type} (t : Transport τ) username r i body,
      Sends t (noteUrl c r i) ((host t c username).edit r i body) ∧
      Sends t (noteUrl c r i) ((host t c username).delete r i)) ∧
    ∀ a : Address, a.Valid → c.baseUrl.toList = a.text → ∀ r s i j,
      requestTarget (noteUrl c r i) = requestTarget (noteUrl c s j) ↔ r = s ∧ i = j := by
  refine ⟨fun project => ?_, fun r s i j => ⟨noteUrl_inj, ?_⟩, fun t username r i body => ?_,
    fun a valid base r s i j => ⟨fun same => ?_, ?_⟩⟩
  · have spelled := encodes_encodeSegment project
    have bare : ['/', '?', '#'].any isPlain = false := by decide
    refine ⟨toBytes_toList project ▸ spelled,
      toBytes_toList project ▸ decodeSegment?_eq_some_iff.2 spelled, fun mark listed member => ?_⟩
    exact List.any_eq_false.1 bare mark listed (spelled.isPlain mark member)
  · rintro ⟨rfl, rfl⟩
    rfl
  · exact ⟨(sends_fetch t c .put _ _ readNote).map _, (sends_send t c .delete _ none).map _⟩
  · rw [requestTarget_noteUrl valid base, requestTarget_noteUrl valid base, String.ofList_inj,
      List.append_right_inj] at same
    exact keptSegments_inj (pathOf_inj (slash_notMem_of_isPlain isPlain_keptSegments)
      (slash_notMem_of_isPlain isPlain_keptSegments) same)
  · rintro ⟨rfl, rfl⟩
    rfl

def publicServer : Address := ⟨"https".toList, "gitlab.com".toList, "/api/v4".toList⟩

/-- Paths of projects that are dots, or that look like another one encoded. -/
theorem noteUrl_identifies_of_dots :
    publicServer.Valid ∧ (client "https://gitlab.com/api/v4/" "t").baseUrl.toList = publicServer.text ∧
    requestTarget (noteUrl (client "https://gitlab.com/api/v4/" "t") ⟨"..", 9⟩ 5) =
      "/api/v4/merge_requests/9/notes/5" ∧
    requestTarget (noteUrl (client "https://gitlab.com/api/v4/" "t") ⟨"..", 9⟩ 5) ≠
      requestTarget (noteUrl (client "https://gitlab.com/api/v4/" "t") ⟨".", 9⟩ 5) ∧
    noteUrl (client "https://gitlab.com/api/v4/" "t") ⟨"infra/deploy", 9⟩ 5 ≠
      noteUrl (client "https://gitlab.com/api/v4/" "t") ⟨"infra%2Fdeploy", 9⟩ 5 := by
  have valid : publicServer.Valid :=
    ⟨by decide, by decide, by decide, .inr rfl, by decide, by decide⟩
  have base : (client "https://gitlab.com/api/v4/" "t").baseUrl.toList = publicServer.text := by
    decide +kernel
  obtain ⟨-, spelled, -, sent⟩ := noteUrl_identifies (client "https://gitlab.com/api/v4/" "t")
  refine ⟨valid, base, by decide +kernel, fun same => ?_, fun same => ?_⟩
  · exact absurd ((sent publicServer valid base _ _ _ _).1 same).1 (by decide)
  · exact absurd ((spelled _ _ _ _).1 same).1 (by decide)

end Host.Gitlab
end ChangeReport
