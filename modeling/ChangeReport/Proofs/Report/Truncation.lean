import ChangeReport.Proofs.Report.Ownership
import ChangeReport.Proofs.Text.Occurrences

/-! How much of a report a cut leaves. A report opens one block of details at a time, so a
cut text needs one mark at most to close it, and the loop that makes room for this mark and
for the note stops before it has taken more than the room it needs. -/
namespace ChangeReport.Report
open Text

/-- None of the texts that make up a report contains the mark that opens a block. -/
structure Unopened (layout : Layout) (sections : Sections) (trailer : String) : Prop where
  identity : ∀ name, layout.identity = some name → ¬ openTag <:+: name.toList
  link : ∀ url, layout.pipelineUrl = some url → ¬ openTag <:+: url.toList
  apps : ∀ e ∈ sections, ¬ openTag <:+: e.1.toList
  bodies : ∀ e ∈ sections, ¬ openTag <:+: e.2.toList
  trailer : ¬ openTag <:+: trailer.toList

/-! ## Blocks of details -/

/-- Nowhere is more than one block open, and none is open at the end. -/
structure Balanced (cs : List Char) : Prop where
  single : ∀ s, s <+: cs → occurrences openTag s ≤ occurrences closeTag s + 1
  closed : occurrences openTag cs ≤ occurrences closeTag cs

theorem balanced_of_le_one {cs : List Char} (one : occurrences openTag cs ≤ 1)
    (closed : occurrences openTag cs ≤ occurrences closeTag cs) : Balanced cs := by
  refine ⟨fun s start => ?_, closed⟩
  have fewer : occurrences openTag s ≤ occurrences openTag cs := occurrences_le_of_prefix start
  omega

theorem balanced_of_none {cs : List Char} (none : occurrences openTag cs = 0) : Balanced cs :=
  balanced_of_le_one (by omega) (by omega)

theorem occurrences_append_fed {p b : List Char} (a : List Char) (inner : '\n' ∉ p.tail)
    (fed : Fed b) : occurrences p (a ++ b) = occurrences p a + occurrences p b :=
  occurrences_append (apart_of_head a fun c first => fed c first ▸ inner)

theorem Balanced.append {a b : List Char} (ha : Balanced a) (hb : Balanced b) (fed : Fed b) :
    Balanced (a ++ b) := by
  have opens : ∀ t, t <+: b →
      occurrences openTag (a ++ t) = occurrences openTag a + occurrences openTag t :=
    fun t start => occurrences_append_fed a (by decide) (fed.of_prefix start)
  have closes : ∀ t, t <+: b →
      occurrences closeTag (a ++ t) = occurrences closeTag a + occurrences closeTag t :=
    fun t start => occurrences_append_fed a (by decide) (fed.of_prefix start)
  have before := ha.closed
  refine ⟨fun s start => ?_, ?_⟩
  · rcases cases_of_prefix_append start with inside | ⟨t, rest, rfl⟩
    · exact ha.single s inside
    · have here := hb.single t rest
      rw [opens t rest, closes t rest]
      omega
  · have after := hb.closed
    rw [opens b List.prefix_rfl, closes b List.prefix_rfl]
    omega

/-! ## The parts of a report -/

/-- A text that opens no block, between two characters that the mark has not there. -/
theorem openTag_between {a b c : List Char} {x y : Char} (first : x ∉ openTag.dropLast)
    (last : y ∉ openTag.tail) (none : ¬ openTag <:+: b) :
    occurrences openTag (a ++ x :: (b ++ y :: c)) =
      occurrences openTag (a ++ [x]) + occurrences openTag (y :: c) := by
  rw [occurrences_between first last, occurrences_eq_zero none, Nat.add_zero]

variable {layout : Layout} {sections : Sections} {trailer : String}

theorem openTag_opening {identity : Option String}
    (plain : ∀ name, identity = some name → ¬ openTag <:+: name.toList) :
    occurrences openTag (opening identity).toList = 0 := by
  cases identity with
  | none => decide
  | some name =>
      have parts : (opening (some name)).toList =
          (title ++ "\n").toList ++ '_' :: (name.toList ++ '_' :: ['\n']) := by
        simp [opening, identityLine]
      rw [parts, openTag_between (by decide) (by decide) (plain name rfl)]
      decide

theorem openTag_linkLine {url : Option String}
    (plain : ∀ u, url = some u → ¬ openTag <:+: u.toList) :
    occurrences openTag (linkLine url).toList = 0 := by
  cases url with
  | none => rfl
  | some url =>
      have parts : (linkLine (some url)).toList =
          "\n[View pipeline]".toList ++ '(' :: (url.toList ++ ')' :: ['\n']) := by
        simp [linkLine]
      rw [parts, openTag_between (by decide) (by decide) (plain url rfl)]
      decide

theorem balanced_foot {trailer : String} (plain : ¬ openTag <:+: trailer.toList) :
    Balanced (foot trailer).toList := by
  unfold foot
  split
  · exact balanced_of_none rfl
  · have parts : ("\n" ++ trailer ++ "\n").toList =
        [] ++ '\n' :: (trailer.toList ++ '\n' :: []) := by
      simp
    rw [parts]
    refine balanced_of_none ?_
    rw [openTag_between (by decide) (by decide) plain]
    decide

/-- A block begins with its mark, on a line of its own, and goes on with the name of the
application, the text and the mark at the end. -/
theorem block_toList (app body : String) : (block app body).toList = '\n' :: (openTag ++
    (("<summary>" ++ indicator body ++ " <b").toList ++ '>' :: (app.toList ++ '<' ::
      ("/b></summary>\n".toList ++ '\n' :: ((if body = "" then pending else body).toList ++
        '\n' :: "\n</details>\n".toList))))) := by
  have mark : openTag = "<details>".toList := rfl
  unfold block
  generalize (if body = "" then pending else body) = text
  generalize indicator body = sign
  rw [mark]
  simp

theorem openTag_block {app body : String} (name : ¬ openTag <:+: app.toList)
    (text : ¬ openTag <:+: body.toList) : occurrences openTag (block app body).toList = 1 := by
  have shown : ¬ openTag <:+: (if body = "" then pending else body).toList := by
    split
    · exact fun inside => absurd (inside.subset (List.mem_cons_self ..)) (by decide)
    · exact text
  have summary :
      occurrences openTag (("<summary>" ++ indicator body ++ " <b").toList ++ ['>']) = 0 := by
    unfold indicator
    split <;> decide
  rw [block_toList]
  generalize (if body = "" then pending else body) = text at *
  have opening : ∀ rest : List Char,
      occurrences openTag ('\n' :: (openTag ++ rest)) = occurrences openTag rest + 1 := by
    intro rest
    have parts : '\n' :: (openTag ++ rest) = ([] ++ ['\n']) ++ (openTag ++ rest) := rfl
    have line : occurrences openTag ([] ++ ['\n']) = 0 := by decide
    rw [parts, occurrences_append (apart_of_last (by decide) _), line, Nat.zero_add,
      occurrences_self_append (by decide)]
  have line : ∀ rest : List Char, '<' :: ("/b></summary>\n".toList ++ rest) =
      "</b></summary>\n".toList ++ rest := fun rest => by simp
  rw [opening, openTag_between (by decide) (by decide) name, summary, line,
    openTag_between (by decide) (by decide) shown]
  decide

theorem closeTag_block (app body : String) :
    1 ≤ occurrences closeTag (block app body).toList := by
  obtain ⟨before, parts⟩ :
      ∃ before, (block app body).toList = before ++ "\n\n</details>\n".toList :=
    ⟨_, String.toList_append⟩
  have last : occurrences closeTag "\n\n</details>\n".toList = 1 := by decide
  rw [parts, occurrences_append_fed _ (by decide) (by simp [Fed]), last]
  exact Nat.le_add_left ..

theorem balanced_blocks {sections : Sections} (names : ∀ e ∈ sections, ¬ openTag <:+: e.1.toList)
    (texts : ∀ e ∈ sections, ¬ openTag <:+: e.2.toList) :
    Balanced (String.join (sections.map fun s => block s.1 s.2)).toList := by
  induction sections with
  | nil => exact balanced_of_none rfl
  | cons e sections ih =>
      have one := openTag_block (names e (List.mem_cons_self ..)) (texts e (List.mem_cons_self ..))
      have here : Balanced (block e.1 e.2).toList :=
        balanced_of_le_one (Nat.le_of_eq one)
          (Nat.le_trans (Nat.le_of_eq one) (closeTag_block e.1 e.2))
      rw [List.map_cons, String.join_cons, String.toList_append]
      exact here.append (ih (fun d member => names d (List.mem_cons_of_mem _ member))
        fun d member => texts d (List.mem_cons_of_mem _ member)) (fed_blocks sections)

theorem balanced_compose (h : Unopened layout sections trailer) :
    Balanced (compose layout sections trailer).toList := by
  rw [compose, head_eq, String.toList_append, String.toList_append, String.toList_append]
  exact (((balanced_of_none (openTag_opening h.identity)).append
    (balanced_of_none (openTag_linkLine h.link)) (fed_linkLine _)).append
      (balanced_blocks h.apps h.bodies) (fed_blocks sections)).append
        (balanced_foot h.trailer) (fed_foot trailer)

theorem byteLength_closeTags (n : Nat) :
    byteLength (List.replicate n ('\n' :: '\n' :: closeTag)).flatten = 12 * n := by
  have mark : byteLength ('\n' :: '\n' :: closeTag) = 12 := by decide
  induction n with
  | zero => rfl
  | succ n ih =>
      rw [List.replicate_succ, List.flatten_cons, byteLength_append, mark, ih, Nat.mul_succ,
        Nat.add_comm]

/-- What closes a start of a report has at most 16 bytes: a fence and one mark. -/
theorem byteLength_closing_le {cs start : List Char} (h : Balanced cs) (inside : start <+: cs) :
    byteLength (closing start) ≤ 16 := by
  have single := h.single start inside
  have mark : byteLength ('\n' :: fence) = 4 := by decide
  have fences : byteLength (if occurrences fence start % 2 = 1 then '\n' :: fence else []) ≤ 4 := by
    split
    · exact Nat.le_of_eq mark
    · exact Nat.zero_le 4
  have tags : 12 * (occurrences openTag start - occurrences closeTag start) ≤ 12 := by
    generalize occurrences openTag start = opens at *
    generalize occurrences closeTag start = closes at *
    omega
  rw [closing, byteLength_append, byteLength_closeTags]
  exact Nat.add_le_add fences tags

/-! ## The cut -/

theorem truncate_of_lt {max : Nat} {body : String} (long : max < byteLength body.toList) :
    (truncate max body).toList = cutTo max (truncationNote max).toList body.toList
      (max - byteLength (truncationNote max).toList) := by
  rw [truncate, if_neg (Nat.not_le.2 long), String.toList_ofList]

/-- A cut leaves all that fits besides the note and what closes the start, but for a part
of one character. -/
theorem exists_start_of_cutTo {max room : Nat} (note : List Char) {body : List Char}
    (closes : ∀ start, start <+: body → byteLength (closing start) ≤ room)
    (long : max < byteLength body) (cut : Nat) (enough : max ≤ cut + byteLength note + room) :
    ∃ start, start <+: body ∧ cutTo max note body cut = start ++ closing start ++ note ∧
      max ≤ byteLength start + 3 + byteLength note + room := by
  induction cut using cutTo.induct max note body with
  | case1 cut start size total fits =>
      have inside : start <+: body := takeBytes_isPrefixOf cut body
      refine ⟨start, inside, ?_, ?_⟩
      · rw [cutTo]
        exact dif_pos fits
      · have size_eq : size = byteLength (takeBytes cut body) := rfl
        rcases takeBytes_eq_or cut body with whole | near
        · rw [whole] at size_eq
          omega
        · omega
  | case2 cut start size total exceeds ih =>
      have inside : start <+: body := takeBytes_isPrefixOf cut body
      have room_left := closes start inside
      obtain ⟨shorter, isStart, text, least⟩ := ih (by omega)
      refine ⟨shorter, isStart, ?_, least⟩
      rw [cutTo]
      exact (dif_neg exceeds).trans text

theorem exists_start_of_build (h : Unopened layout sections trailer)
    (long : layout.maxLength < byteLength (compose layout sections trailer).toList) :
    ∃ start, start <+: (compose layout sections trailer).toList ∧
      (build layout sections trailer).toList =
        start ++ closing start ++ (truncationNote layout.maxLength).toList ∧
      layout.maxLength ≤
        byteLength start + byteLength (truncationNote layout.maxLength).toList + 19 := by
  obtain ⟨start, inside, text, size⟩ := exists_start_of_cutTo
    (truncationNote layout.maxLength).toList
    (fun start => byteLength_closing_le (balanced_compose h)) long
    (layout.maxLength - byteLength (truncationNote layout.maxLength).toList) (by omega)
  refine ⟨start, inside, ?_, by omega⟩
  rw [build, truncate_of_lt long, text]

end ChangeReport.Report
