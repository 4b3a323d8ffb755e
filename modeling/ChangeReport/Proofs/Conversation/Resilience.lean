import ChangeReport.Proofs.Conversation.Tidying
import ChangeReport.Proofs.Retry

/-! Posting a report whatever the host answers. Neither a pass over old reports nor the lookup of the
pipeline keeps the new report from being posted, and only reports of the reporter itself are
changed on the way. -/
namespace ChangeReport.Conversation
open Report Host

attribute [local irreducible] Report.build

variable {σ : Type}

/-! ## The pass over old reports -/

theorem Lookup.exists_username {c d : Conversation} {asks : List Event}
    {answer : Except ConversationError String} (h : Lookup c asks answer d) {x : Event}
    (member : x ∈ asks) : ∃ told, x = .username told := by
  cases h with
  | known => cases member
  | told | refused => exact ⟨_, List.mem_singleton.1 member⟩

theorem Listing.exists_list {r : ChangeRequest} {left n : Nat} {reads : List Event}
    {answer : Except ConversationError (List Comment)} (h : Listing r left n reads answer)
    {x : Event} (member : x ∈ reads) : ∃ k found, x = .list r k found := by
  cases h with
  | whole =>
      obtain ⟨k, p, -, rfl⟩ := exists_page_of_mem_listings member
      exact ⟨k, _, rfl⟩
  | broken =>
      rcases List.mem_append.1 member with page | last
      · obtain ⟨k, p, -, rfl⟩ := exists_page_of_mem_listings page
        exact ⟨k, _, rfl⟩
      · exact ⟨_, _, List.mem_singleton.1 last⟩

/-- A pass creates no comment. -/
theorem Pass.isCreate_eq {c d : Conversation} {mode : TidyMode} {events : List Event}
    {answer : Except ConversationError TidyOutcome} (h : Pass c mode events answer d) {x : Event}
    (member : x ∈ events) : x.isCreate = false := by
  have found : ∀ {asks login reads comments}, Lookup c asks login d →
      Listing c.changeRequest maxPages 1 reads comments → x ∈ asks ++ reads →
      x.isCreate = false := by
    intro asks login reads comments looked listing inside
    rcases List.mem_append.1 inside with ask | read
    · obtain ⟨told, rfl⟩ := looked.exists_username ask
      rfl
    · obtain ⟨k, page, rfl⟩ := listing.exists_list read
      rfl
  cases h with
  | refused looked =>
      obtain ⟨told, rfl⟩ := looked.exists_username member
      rfl
  | unlisted looked listing => exact found looked listing member
  | swept looked listing cleaned =>
      rcases List.mem_append.1 member with find | call
      · exact found looked listing find
      · obtain ⟨y, -, clean⟩ := exists_report_of_mem cleaned call
        cases clean <;> rfl

/-- A comment that the host has listed as a report of the reporter, under the login that was known
before or that the host has told. -/
structure OldReport (c : Conversation) (events : List Event) (y : Comment) : Prop where
  listed : ∃ k p, .list c.changeRequest k (.ok p) ∈ events ∧ y ∈ p.comments
  owned : ∃ login, owns c.layout.identity login y = true ∧
    (c.login = some login ∨ .username (.ok login) ∈ events)

theorem OldReport.mono {c : Conversation} {events more : List Event} {y : Comment}
    (h : OldReport c events y) (sub : events ⊆ more) : OldReport c more y := by
  obtain ⟨⟨k, p, read, inside⟩, login, owner, known⟩ := h
  exact ⟨⟨k, p, sub read, inside⟩, login, owner, known.imp_right fun told => sub told⟩

theorem Lookup.login {c d : Conversation} {asks : List Event} {login : String}
    (h : Lookup c asks (.ok login) d) :
    c.login = some login ∨ .username (.ok login) ∈ asks := by
  cases h with
  | known _ known => exact .inl known
  | told => exact .inr (List.mem_singleton.2 rfl)

/-- A pass changes nothing but old reports. -/
theorem Pass.exists_oldReport {c d : Conversation} {mode : TidyMode} {events : List Event}
    {answer : Except ConversationError TidyOutcome} (h : Pass c mode events answer d) {x : Event}
    (member : x ∈ events) {id : Nat} (target : x.target? = some id) :
    ∃ y, OldReport c events y ∧ y.id = id := by
  cases h with
  | refused looked => cases (looked.of_mem member).2.symm.trans target
  | unlisted looked listing =>
      rcases List.mem_append.1 member with ask | read
      · cases (looked.of_mem ask).2.symm.trans target
      · cases (listing.of_mem read).2.symm.trans target
  | swept looked listing cleaned =>
      rcases List.mem_append.1 member with find | call
      · rcases List.mem_append.1 find with ask | read
        · cases (looked.of_mem ask).2.symm.trans target
        · cases (listing.of_mem read).2.symm.trans target
      · obtain ⟨y, due, clean⟩ := exists_report_of_mem cleaned call
        obtain ⟨there, owner⟩ := List.mem_filter.1 (List.mem_filter.1 due).1
        have same : y.id = id := by
          cases clean <;> exact Option.some.inj target
        cases listing with
        | whole pages =>
            obtain ⟨p, page, inside⟩ := List.mem_flatMap.1 there
            obtain ⟨k, read⟩ := exists_listing_of_mem c.changeRequest 1 page
            refine ⟨y, ⟨⟨k, p, ?_, inside⟩, _, owner, looked.login.imp_right fun told => ?_⟩, same⟩
            · exact List.mem_append_left _ (List.mem_append_right _ read)
            · exact List.mem_append_left _ (List.mem_append_left _ told)

theorem Pass.kept {c d : Conversation} {mode : TidyMode} {events : List Event}
    {answer : Except ConversationError TidyOutcome} (h : Pass c mode events answer d) :
    d.changeRequest = c.changeRequest ∧ d.layout = c.layout ∧ d.retry = c.retry := by
  cases h with
  | refused looked | unlisted looked | swept looked => exact looked.kept

/-! ## The lookup of the pipeline -/

/-- The layout with the link that a lookup gives, if it gives one. -/
def linkedBy (layout : Layout) (answer : Except HostError (Option String)) : Layout where
  identity := layout.identity
  pipelineUrl := match answer with
    | .ok url => url
    | .error _ => none
  maxLength := layout.maxLength

/-- The calls of a lookup. -/
def lookups (r : ChangeRequest) (faults : List HostError) (answer : Except HostError (Option String)) :
    List Event :=
  faults.map (fun e => .pipelineUrl r (.error e)) ++ [.pipelineUrl r answer]

theorem eq_of_mem_lookups {r : ChangeRequest} {faults : List HostError}
    {answer : Except HostError (Option String)} {x : Event} (member : x ∈ lookups r faults answer) :
    ∃ found, x = .pipelineUrl r found := by
  rcases List.mem_append.1 member with fault | last
  · obtain ⟨e, -, rfl⟩ := List.mem_map.1 fault
    exact ⟨_, rfl⟩
  · exact ⟨_, List.mem_singleton.1 last⟩

/-- The lookup ends, and gives the layout the link that it found in the end. -/
theorem exists_lookups {c : Conversation} (paced : c.retry.Paced) (host : Host σ)
    (took : σ → σ → Nat) (s : σ) :
    ∃ faults lookup t, (∀ e ∈ faults, e.isTransient = true) ∧
      Retry.Ends c.retry (host.pipelineUrl c.changeRequest) took 0 0 [] s lookup t ∧
      c.linkedLayout host took s =
        (linkedBy c.layout lookup.answer, lookup.slept, t) ∧
      ∀ before, c.linkedLayout host.recorded (fun a b => took a.state b.state) ⟨s, before⟩ =
        (linkedBy c.layout lookup.answer, lookup.slept,
          ⟨t, before ++ lookups c.changeRequest faults lookup.answer⟩) := by
  have ends := Retry.ends_run paced (host.pipelineUrl c.changeRequest) took s
  obtain ⟨faults, lookup, t, passing, plain, noted⟩ :=
    Retry.exists_attempts c.retry (host.pipelineUrl c.changeRequest) took
      (.pipelineUrl c.changeRequest) s
  rw [plain] at ends
  refine ⟨faults, lookup, t, passing, ends, ?_, fun before => ?_⟩
  · rw [linkedLayout, plain]
    rfl
  · have same : host.recorded.pipelineUrl c.changeRequest =
        noting (.pipelineUrl c.changeRequest) (host.pipelineUrl c.changeRequest) := rfl
    rw [linkedLayout, same, noted]
    rfl

/-! ## Posting -/

/-- What comes of a post when the host has answered the call that creates its comment. -/
def posted (c : Conversation) (layout : Layout) (slept : Nat) (created : Except HostError Nat) : Posting where
  message := match created with
    | .ok id => .ok (.ofComment c.changeRequest layout id (build layout [] ""))
    | .error e => .error (.create e)
  conversation := c
  slept

theorem postTimed_eq {host : Host σ} {took : σ → σ → Nat} {mode : TidyMode} {c d : Conversation}
    {s u v t : σ} {outcome : Except ConversationError TidyOutcome} {layout : Layout} {slept : Nat}
    {created : Except HostError Nat} (tidied : c.tidy host mode s = (outcome, d, u))
    (linked : d.linkedLayout host took u = (layout, slept, v))
    (made : host.create d.changeRequest (build layout [] "") v = (created, t)) :
    c.postTimed host took mode s = (d.posted layout slept created, t) := by
  rw [postTimed, tidied]
  dsimp only
  rw [linked]
  dsimp only
  rw [made]
  cases created <;> rfl

/-- A new report is posted whatever the host answers: there is exactly one call that creates a
comment, after those of a pass over old reports and those of the lookup, which comes to an end. The
answer of that call decides whether there is a message, and the message holds the report that was
sent. Nothing but old reports of the reporter is changed. -/
theorem post_never_blocked {c : Conversation} (paced : c.retry.Paced) (host : Host σ)
    (took : σ → σ → Nat) (mode : TidyMode) (s : σ) :
    ∃ tidying outcome d u faults lookup v created posting t,
      let layout := linkedBy c.layout lookup.answer
      let body := build layout [] ""
      let events := tidying ++ lookups c.changeRequest faults lookup.answer ++
        [.create c.changeRequest body created]
      c.postTimed host took mode s = (posting, t) ∧
      c.postTimed host.recorded (fun a b => took a.state b.state) mode ⟨s, []⟩ =
        (posting, ⟨t, events⟩) ∧
      c.tidy host.recorded mode ⟨s, []⟩ = (outcome, d, ⟨u, tidying⟩) ∧
      (∀ e ∈ faults, e.isTransient = true) ∧
      Retry.Ends c.retry (host.pipelineUrl c.changeRequest) took 0 0 [] u lookup v ∧
      host.create c.changeRequest body v = (created, t) ∧
      events.countP (·.isCreate) = 1 ∧
      (∀ x ∈ events, ∀ id, x.target? = some id → ∃ y, OldReport c events y ∧ y.id = id) ∧
      (∀ e, created = .error e → posting.message = .error (.create e)) ∧
      ∀ id, created = .ok id → ∃ m, posting.message = .ok m ∧ m.changeRequest = c.changeRequest ∧
        m.id = id ∧ m.sections = [] ∧ m.trailer = "" ∧ m.layout = layout ∧ m.body = body := by
  obtain ⟨tidying, outcome, d, u, pass, tidied, tidiedNoted⟩ := exists_pass host mode c s
  obtain ⟨request, layout, retry⟩ := pass.kept
  obtain ⟨faults, lookup, v, passing, ends, linked, linkedNoted⟩ :=
    exists_lookups (c := d) (retry ▸ paced) host took u
  rw [request, retry] at ends
  rw [layout] at linked linkedNoted
  rw [request] at linkedNoted
  rcases made : host.create d.changeRequest (build (linkedBy c.layout lookup.answer) [] "") v
    with ⟨created, t⟩
  have noted := postTimed_eq (tidiedNoted []) (linkedNoted _)
    (noting_eq (.create d.changeRequest (build (linkedBy c.layout lookup.answer) [] "")) made _)
  rw [request, List.nil_append] at noted
  have only : ∀ x ∈ tidying ++ lookups c.changeRequest faults lookup.answer,
      x.isCreate = false := by
    intro x member
    rcases List.mem_append.1 member with tidy | look
    · exact pass.isCreate_eq tidy
    · obtain ⟨found, rfl⟩ := eq_of_mem_lookups look
      rfl
  refine ⟨tidying, outcome, d, u, faults, lookup, v, created, _, t,
    postTimed_eq tidied linked made, noted, tidiedNoted [], passing, ends, request ▸ made,
    ?_, ?_, ?_, ?_⟩
  · rw [List.countP_append, List.countP_eq_zero.2 fun x member => by simp [only x member]]
    rfl
  · intro x member id target
    have tidy : x ∈ tidying := by
      rcases List.mem_append.1 member with before | last
      · rcases List.mem_append.1 before with tidy | look
        · exact tidy
        · obtain ⟨found, rfl⟩ := eq_of_mem_lookups look
          cases target
      · obtain rfl := List.mem_singleton.1 last
        cases target
    obtain ⟨y, old, same⟩ := pass.exists_oldReport tidy target
    exact ⟨y, old.mono fun _ inside => List.mem_append_left _ (List.mem_append_left _ inside), same⟩
  · rintro e rfl
    rfl
  · rintro id rfl
    exact ⟨_, rfl, request, rfl, rfl, rfl, rfl, rfl⟩

/-- A host that takes new comments and does nothing else. -/
def deaf : Host Unit where
  kind := .github
  username := fun s => (.error (.server 502), s)
  create := fun _ _ => Call.answer 7
  edit := fun _ _ _ s => (.error (.server 502), s)
  list := fun _ _ s => (.error (.server 502), s)
  delete := fun _ _ s => (.error (.server 502), s)
  pipelineUrl := fun _ s => (.error .rateLimited, s)

theorem post_never_blocked_deaf :
    RetryPolicy.default.Paced ∧
      ∃ posting m, ((start ⟨"acme/shop", 12⟩ .default .default).postTimed deaf (fun _ _ => 250) .hide ()).1 =
          posting ∧
        posting.message = .ok m ∧ m.id = 7 ∧ m.sections = [] := by
  have paced : RetryPolicy.default.Paced := ⟨by decide, by decide, by decide⟩
  obtain ⟨_, _, _, _, _, _, _, created, posting, _, plain, -, -, -, -, made, -, -, -, sent⟩ :=
    post_never_blocked (c := start ⟨"acme/shop", 12⟩ .default .default) paced deaf (fun _ _ => 250)
      .hide ()
  have seven : created = .ok 7 := (congrArg Prod.fst made).symm
  obtain ⟨m, message, -, id, sections, -⟩ := sent 7 seven
  exact ⟨paced, posting, m, congrArg Prod.fst plain, message, id, sections⟩

end ChangeReport.Conversation
