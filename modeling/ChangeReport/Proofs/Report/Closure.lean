import ChangeReport.Proofs.Comparison.Markers
import ChangeReport.Proofs.Report.Limit
import ChangeReport.Proofs.Report.Reading
import ChangeReport.Proofs.Run.Work

/-! What a cut report leaves open. As long as no text in a report holds a fence or the mark that
closes a block, a reader finds everything closed above the note, wherever the report is cut. A
manifest with one of them is enough to leave a report open. -/
namespace ChangeReport.Report
open Text

/-! ## Sections -/

theorem level_fragment {c : Comparison} (summary : Bare c.summary.toList) (text : Bare c.text.toList) :
    Level (Run.fragment c).toList := fun n => by
  obtain ⟨bs, parts, -⟩ := exists_blank_of_trimEndChars c.text.toList
  have shown : Bare (trimEndChars c.text.toList) :=
    text.of_infix ⟨[], bs, by rw [List.nil_append, ← parts]⟩
  rw [fragment_toList]
  exact ⟨_, Nat.le_add_right n _, (summary.tracked _).append_line ((Bare.nil.tracked _).append_line
    ((tracked_fence_append _ (by decide) (by decide) (by decide)).append_line
      ((shown.tracked _).append_line (tracked_fence _))))⟩

theorem level_append {text fragment : String} (ht : Level text.toList) (hf : Level fragment.toList) :
    Level (append text fragment).toList := by
  unfold append
  split
  next => exact hf
  next =>
    have lines : (text ++ separator ++ fragment).toList = text.toList ++ '\n' :: ([] ++ '\n' ::
        ("---".toList ++ '\n' :: ([] ++ '\n' :: fragment.toList))) := by
      simp [separator]
    have rule : Bare "---".toList := .of_notMem (by decide) (by decide)
    rw [lines]
    exact ht.append_line (Bare.nil.level.append_line
      (rule.level.append_line (Bare.nil.level.append_line hf)))

theorem level_joined {fs : List String} (h : ∀ f ∈ fs, Level f.toList) : Level (joined fs).toList := by
  have fold : ∀ {text : String}, Level text.toList → Level (fs.foldl append text).toList := by
    induction fs with
    | nil => exact id
    | cons f fs ih =>
        exact fun above => ih (fun g member => h g (List.mem_cons_of_mem _ member))
          (level_append above (h f (List.mem_cons_self ..)))
  rw [← foldl_append]
  exact fold Bare.nil.level

/-! ## The parts of a report -/

theorem level_opening {identity : Option String}
    (bare : ∀ name, identity = some name → Bare name.toList) : Level (opening identity).toList := by
  have top : Bare title.toList := .of_notMem (by decide) (by decide)
  cases identity with
  | none =>
      have lines : (opening none).toList = title.toList ++ '\n' :: [] := by simp [opening]
      rw [lines]
      exact top.level.append_line Bare.nil.level
  | some name =>
      have lines : (opening (some name)).toList =
          title.toList ++ '\n' :: (([] ++ '_' :: (name.toList ++ '_' :: [])) ++ '\n' :: []) := by
        simp [opening, identityLine]
      have line : Bare ([] ++ '_' :: (name.toList ++ '_' :: [])) :=
        (bare name rfl).between (by decide) (by decide) (.of_notMem (by decide) (by decide))
          (.of_notMem (by decide) (by decide))
      rw [lines]
      exact top.level.append_line (line.level.append_line Bare.nil.level)

theorem below_linkLine {url : Option String} (bare : ∀ u, url = some u → Bare u.toList) :
    Below (linkLine url).toList := by
  cases url with
  | none => exact .inl rfl
  | some url =>
      have lines : (linkLine (some url)).toList =
          '\n' :: (("[View pipeline]".toList ++ '(' :: (url.toList ++ ')' :: [])) ++ '\n' :: []) := by
        simp [linkLine]
      have line : Bare ("[View pipeline]".toList ++ '(' :: (url.toList ++ ')' :: [])) :=
        (bare url rfl).between (by decide) (by decide) (.of_notMem (by decide) (by decide))
          (.of_notMem (by decide) (by decide))
      exact .inr ⟨_, lines, line.level.append_line Bare.nil.level⟩

theorem below_foot {trailer : String} (bare : Bare trailer.toList) : Below (foot trailer).toList := by
  unfold foot
  split
  · exact .inl rfl
  · have lines : ("\n" ++ trailer ++ "\n").toList = '\n' :: (trailer.toList ++ '\n' :: []) := by simp
    exact .inr ⟨_, lines, bare.level.append_line Bare.nil.level⟩

/-- The line that a block begins with. -/
def heading (app body : String) : List Char :=
  openTag ++ ("<summary>" ++ indicator body ++ " <b").toList ++
    '>' :: (app.toList ++ '<' :: "/b></summary>".toList)

theorem bare_heading {app : String} (name : Bare app.toList) (body : String) :
    Bare (heading app body) := by
  refine name.between (by decide) (by decide) ?_ (Bare.iff_occurrences.2 (by decide))
  unfold indicator
  split
  · exact Bare.iff_occurrences.2 (by decide)
  · exact Bare.iff_occurrences.2 (by decide)

theorem openTag_heading (app body : String) : 1 ≤ occurrences openTag (heading app body) := by
  rw [heading, List.append_assoc, occurrences_self_append (by decide)]
  exact Nat.le_add_left ..

/-- A block closes below its text what it opens in its heading. -/
theorem below_block {app body : String} (name : Bare app.toList) (text : Level body.toList) :
    Below (block app body).toList := by
  have shown : Level (if body = "" then pending else body).toList := by
    have waiting : Bare pending.toList := .of_notMem (by decide) (by decide)
    split
    · exact waiting.level
    · exact text
  have lines : (block app body).toList = '\n' :: (heading app body ++ '\n' :: ([] ++ '\n' ::
      ((if body = "" then pending else body).toList ++ '\n' :: ([] ++ '\n' ::
        (closeTag ++ '\n' :: []))))) := by
    have mark : closeTag = "</details>".toList := rfl
    rw [block_toList, mark]
    simp [heading]
  refine .inr ⟨_, lines, fun n => ?_⟩
  -- the heading opens a block, so there is one to close below the text
  have one := openTag_heading app body
  obtain ⟨m, above, inner⟩ := shown (n + occurrences openTag (heading app body))
  obtain ⟨k, rfl⟩ : ∃ k, m = k + 1 := ⟨m - 1, by omega⟩
  exact ⟨k, by omega, ((bare_heading name body).tracked _).append_line
    ((Bare.nil.tracked _).append_line (inner.append_line ((Bare.nil.tracked _).append_line
      ((tracked_closeTag k).append_line (Bare.nil.tracked _)))))⟩

/-- A fragment without marks of its own: what a comparison found, or a note. -/
inductive Calm : String → Prop
  | found (c : Comparison) (summary : c.summary = c.counts.render) (text : Bare c.text.toList) :
      Calm (Run.fragment c)
  | note {text : String} (bare : Bare text.toList) : Calm text

theorem bare_render (counts : Counts) : Bare counts.render.toList :=
  .of_notMem (notMem_render rfl (by decide) counts) (notMem_render rfl (by decide) counts)

theorem Calm.level {f : String} (h : Calm f) : Level f.toList := by
  cases h with
  | found c summary text => exact level_fragment (summary ▸ bare_render c.counts) text
  | note bare => exact bare.level

/-- No text in a report holds a fence or a mark that closes a block, but for the fences around what
comparisons found. -/
structure Quiet (layout : Layout) (sections : Sections) (trailer : String) : Prop where
  identity : ∀ name, layout.identity = some name → Bare name.toList
  link : ∀ url, layout.pipelineUrl = some url → Bare url.toList
  apps : ∀ e ∈ sections, Bare e.1.toList
  bodies : ∀ e ∈ sections, ∃ fs, e.2 = joined fs ∧ ∀ f ∈ fs, Calm f
  trailer : Bare trailer.toList

theorem below_blocks {sections : Sections} (names : ∀ e ∈ sections, Bare e.1.toList)
    (texts : ∀ e ∈ sections, Level e.2.toList) :
    Below (String.join (sections.map fun s => block s.1 s.2)).toList := by
  induction sections with
  | nil => exact .inl rfl
  | cons e sections ih =>
      have here := below_block (names e (List.mem_cons_self ..)) (texts e (List.mem_cons_self ..))
      rw [List.map_cons, String.join_cons, String.toList_append]
      exact here.append (ih (fun d member => names d (List.mem_cons_of_mem _ member))
        fun d member => texts d (List.mem_cons_of_mem _ member))

variable {layout : Layout} {sections : Sections} {trailer : String}

theorem level_compose (h : Quiet layout sections trailer) :
    Level (compose layout sections trailer).toList := by
  have texts : ∀ e ∈ sections, Level e.2.toList := by
    intro e member
    obtain ⟨fs, text, calm⟩ := h.bodies e member
    exact text ▸ level_joined fun f inside => (calm f inside).level
  rw [compose, head_eq, String.toList_append, String.toList_append, String.toList_append]
  exact (((level_opening h.identity).append (below_linkLine h.link)).append
    (below_blocks h.apps texts)).append (below_foot h.trailer)

/-! ## Cut reports -/

/-- A cut report is closed above its note for a reader exactly if the marks in what is left of it
tell what is open there. They do unless one of its texts holds a mark itself. -/
theorem build_closed_iff
    (long : layout.maxLength < byteLength (compose layout sections trailer).toList) :
    ∃ start, start <+: (compose layout sections trailer).toList ∧
      (build layout sections trailer).toList =
        start ++ closing start ++ (truncationNote layout.maxLength).toList ∧
      (Opened.nothing.read (start ++ closing start) = .nothing ↔ Counted start) ∧
      (Quiet layout sections trailer → Opened.nothing.read (start ++ closing start) = .nothing) := by
  obtain ⟨start, inside, text, -⟩ := exists_start_of_cut layout.maxLength
    (truncationNote layout.maxLength).toList (compose layout sections trailer).toList
    (layout.maxLength - byteLength (truncationNote layout.maxLength).toList)
  refine ⟨start, inside, ?_, read_closing_iff start,
    fun quiet => (read_closing_iff start).2 ((level_compose quiet).counted inside)⟩
  rw [build, truncate_of_lt long, text]

/-- What the comparison of a new manifest with a guide shows. -/
def guided (guide : String) : Comparison where
  counts := ⟨1, 0, 0⟩
  text := "===== /ConfigMap /web ======\n@@ -0,0 +1,5 @@\n+data:\n+  guide: '" ++ guide ++
    "'\n+kind: ConfigMap\n+metadata:\n+  name: web\n"
  summary := "1 added, 0 modified, 0 removed"
  children := []

/-- A report that shows it above a long trailer, with room for the first lines of the manifest. -/
def tight : Layout := ⟨none, none, 280⟩

def shop (text : String) : Sections := [("shop", text)]

def filler (n : Nat) : String := String.ofList (List.replicate n 'x')

theorem byteLength_filler (n : Nat) : byteLength (filler n).toList = n := by
  rw [filler, String.toList_ofList]
  induction n with
  | zero => rfl
  | succ n ih =>
      have one : 'x'.utf8Size = 1 := by decide
      rw [List.replicate_succ, byteLength, ih, one, Nat.add_comm]

theorem bare_filler (n : Nat) : Bare (filler n).toList := by
  rw [filler, String.toList_ofList]
  refine .of_notMem ?_ ?_ <;> simp

/-- A report is longer than its trailer. -/
theorem byteLength_lt_compose (layout : Layout) (sections : Sections) {trailer : String}
    (some : trailer ≠ "") :
    byteLength trailer.toList < byteLength (compose layout sections trailer).toList := by
  have feed : byteLength "\n".toList = 1 := by decide
  simp only [compose, foot, if_neg some, String.toList_append, byteLength_append, feed]
  omega

theorem long_filler (sections : Sections) :
    tight.maxLength < byteLength (compose tight sections (filler 300)).toList := by
  have size := byteLength_filler 300
  have some : filler 300 ≠ "" := fun empty => by
    rw [empty] at size
    cases size
  have less := byteLength_lt_compose tight sections some
  rw [size] at less
  exact Nat.lt_trans (show 280 < 300 by decide) less

theorem build_closed_of_dashes :
    tight.maxLength < byteLength (compose tight (shop (joined [Run.fragment (guided "---")]))
      (filler 300)).toList ∧
    ∃ start, (build tight (shop (joined [Run.fragment (guided "---")])) (filler 300)).toList =
        start ++ closing start ++ (truncationNote 280).toList ∧
      Opened.nothing.read (start ++ closing start) = .nothing := by
  have text : Bare (guided "---").text.toList := Bare.iff_occurrences.2 (by decide +kernel)
  have name : Bare "shop".toList := .of_notMem (by decide) (by decide)
  have quiet : Quiet tight (shop (joined [Run.fragment (guided "---")])) (filler 300) := by
    refine ⟨?_, ?_, ?_, ?_, bare_filler 300⟩
    · rintro name ⟨⟩
    · rintro url ⟨⟩
    · simpa [shop] using name
    · simp only [shop, List.mem_singleton, forall_eq]
      refine ⟨_, rfl, fun f member => ?_⟩
      obtain rfl := List.mem_singleton.1 member
      exact .found _ (by decide) text
  obtain ⟨start, -, text, -, closed⟩ := build_closed_iff (long_filler _)
  exact ⟨long_filler _, start, text, closed quiet⟩

/-- A manifest whose guide is a fence. -/
def fenceGuide : Document :=
  .object [("data", .object [("guide", .string "\x60\x60\x60")]), ("kind", .string "ConfigMap"),
    ("metadata", .object [("name", .string "web")])]

/-- The only resource of `shop` is new. -/
def guiding : Run.Worker where
  source := ⟨["shop"], fun _ => "", fun _ => .ok [], fun _ => .ok [fenceGuide]⟩
  differ := overlayDiffer
  summarize := none

theorem compare_guiding : guiding.compare "shop" = .ok (guided "\x60\x60\x60") := by decide +kernel

theorem joined_guiding :
    joined (fragments (guiding.work "shop").changes) = Run.fragment (guided "\x60\x60\x60") := by
  have work : (guiding.work "shop").changes =
      [.addApp "shop", .append "shop" (Run.fragment (guided "\x60\x60\x60"))] := by
    rw [Run.Worker.work, compare_guiding]
    rfl
  rw [work, ← foldl_append]
  rfl

/-- What is left of the report. The guide ends the fence for the count, but not for a reader. -/
def leftOpen : List Char :=
  "## Kubernetes Changes Report\n\n<details><summary>:white_check_mark: <b>shop</b></summary>\n".toList ++
    "\n1 added, 0 modified, 0 removed\n\n\x60\x60\x60diff\n===== /ConfigMap /web ======\n".toList ++
      "@@ -0,0 +1,5 @@\n+data:\n+  guide: '\x60\x60\x60'\n+\n\n</details>".toList

theorem build_guiding : (build tight (shop (Run.fragment (guided "\x60\x60\x60"))) (filler 300)).toList =
    leftOpen ++ (truncationNote 280).toList := by
  have calm : isFailure (Run.fragment (guided "\x60\x60\x60")) = false := by
    rw [isFailure_fragment (by decide)]
    decide +kernel
  have some : Run.fragment (guided "\x60\x60\x60") ≠ "" := Run.fragment_ne_empty _
  have cut : cutWithin 280 (truncationNote 280).toList
      (compose tight (shop (Run.fragment (guided "\x60\x60\x60"))) (filler 300)).toList 281
        (280 - byteLength (truncationNote 280).toList) =
          Option.some (leftOpen ++ (truncationNote 280).toList) := by
    simp only [compose, shop, List.map_cons, List.map_nil, String.join_cons, String.join_nil,
      String.toList_append, block_toList, fragment_toList, indicator, calm, if_neg some]
    decide +kernel
  rw [build, truncate_of_lt (long_filler _)]
  exact Option.some.inj ((cutWithin_of_lt (Nat.lt_succ_of_le (Nat.sub_le ..))).symm.trans cut)

/-- A manifest with a fence is enough to leave a cut report open, though nothing else holds a mark. -/
theorem build_left_open : ¬ ∀ (layout : Layout) (sections : Sections) (trailer : String),
    (∀ e ∈ sections, ∃ w : Run.Worker, e.2 = joined (fragments (w.work e.1).changes)) →
    layout.maxLength < byteLength (compose layout sections trailer).toList →
    ∃ above, (build layout sections trailer).toList =
        above ++ (truncationNote layout.maxLength).toList ∧
      Opened.nothing.read above = .nothing := by
  intro closed
  have worked : ∀ e ∈ shop (Run.fragment (guided "\x60\x60\x60")),
      ∃ w : Run.Worker, e.2 = joined (fragments (w.work e.1).changes) := by
    simp only [shop, List.mem_singleton, forall_eq]
    exact ⟨guiding, joined_guiding.symm⟩
  obtain ⟨above, text, closed⟩ := closed tight _ (filler 300) worked (long_filler _)
  obtain rfl : above = leftOpen := List.append_cancel_right (text.symm.trans build_guiding)
  have fenced : Opened.nothing.read leftOpen ≠ .nothing := by decide +kernel
  exact fenced closed

end ChangeReport.Report
