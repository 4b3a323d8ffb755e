import ChangeReport.Proofs.Comparison.Markers
import Mathlib.Data.List.Forall2

/-! The account that a comparison gives of its pairs. The first fault of the differ ends it; without
a fault every pair that is no hook is counted and shown once if it is added, modified or removed,
and not at all otherwise. Each row of a diff has a mark in front, so that the header of a block is
known among the lines of the text: there are as many headers as changes. -/
namespace ChangeReport
open Text

/-! ## Pairs -/

namespace Pair

/-- The fault of the differ at a pair. About a hook it is not asked. -/
def fault? (differ : Differ) (p : Pair) : Option DifferFault :=
  if p.isHook then none
  else match differ p.live p.target with
    | .error e => some e
    | .ok _ => none

def isAdded (p : Pair) : Bool := !p.isHook && p.live.isNone && p.target.isSome

def isRemoved (p : Pair) : Bool := !p.isHook && p.live.isSome && p.target.isNone

def isModified (differ : Differ) (p : Pair) : Bool :=
  !p.isHook && p.live.isSome && p.target.isSome &&
    match differ p.live p.target with
    | .ok v => v.modified
    | .error _ => false

def isCounted (differ : Differ) (p : Pair) : Bool :=
  p.isAdded || p.isModified differ || p.isRemoved

section

variable {differ : Differ} {p : Pair} {v : Verdict}

theorem fault?_eq_some_iff {e : DifferFault} :
    p.fault? differ = some e ↔ p.isHook = false ∧ differ p.live p.target = .error e := by
  unfold fault?
  cases p.isHook with
  | true => exact iff_of_false nofun nofun
  | false => cases differ p.live p.target <;> simp

theorem change_of_not_hook (runs : p.isHook = false) (verdict : differ p.live p.target = .ok v) :
    p.change differ = .ok (p.changeOf v) := by
  simp [change, runs, verdict, Except.map]

theorem isCounted_of_hook (hook : p.isHook = true) : p.isCounted differ = false := by
  simp [isCounted, isAdded, isModified, isRemoved, hook]

theorem isCounted_eq (runs : p.isHook = false) (verdict : differ p.live p.target = .ok v) :
    p.isCounted differ = (p.changeOf v).isSome := by
  obtain ⟨key, live, target⟩ := p
  cases live with
  | none => cases target <;> simp [isCounted, isAdded, isModified, isRemoved, changeOf, runs]
  | some live =>
      cases target with
      | none => simp [isCounted, isAdded, isModified, isRemoved, changeOf, runs]
      | some target =>
          dsimp only at verdict
          cases modified : v.modified <;>
            simp [isCounted, isAdded, isModified, isRemoved, changeOf, runs, verdict, modified]

theorem exists_verdict_of_change {c : Change} (h : p.change differ = .ok (some c)) :
    p.isHook = false ∧ ∃ v, differ p.live p.target = .ok v ∧ p.changeOf v = some c := by
  cases hook : p.isHook with
  | true => simp [change, hook] at h
  | false =>
      cases verdict : differ p.live p.target with
      | error e => simp [change, hook, verdict, Except.map] at h
      | ok v =>
          rw [change_of_not_hook hook verdict] at h
          exact ⟨rfl, v, rfl, Except.ok.inj h⟩

/-- The kind of a change tells which sides its pair has. -/
theorem kind_of_change {c : Change} (h : p.change differ = .ok (some c)) :
    p.isAdded = decide (c.kind = .added) ∧ p.isModified differ = decide (c.kind = .modified) ∧
      p.isRemoved = decide (c.kind = .removed) := by
  obtain ⟨runs, v, verdict, made⟩ := exists_verdict_of_change h
  obtain ⟨key, live, target⟩ := p
  unfold changeOf at made
  dsimp only at made verdict
  split at made
  · cases made
  · obtain rfl := Option.some.inj made
    simp [isAdded, isModified, isRemoved, runs]
  · obtain rfl := Option.some.inj made
    simp [isAdded, isModified, isRemoved, runs]
  · split at made
    next modified =>
      obtain rfl := Option.some.inj made
      simp [isAdded, isModified, isRemoved, runs, verdict, modified]
    next => cases made

/-- A change is shown as a block of its resource. -/
theorem exists_block_of_change {c : Change} (h : p.change differ = .ok (some c)) :
    ∃ old new, c.text = renderBlock p.key old new := by
  obtain ⟨-, v, -, made⟩ := exists_verdict_of_change h
  exact exists_block_of_changeOf made

end

end Pair

/-! ## Changes -/

namespace Comparison

variable {differ : Differ} {pairs : List Pair}

theorem changesOf_eq_error_iff {e : DifferFault} :
    changesOf differ pairs = .error e ↔ pairs.findSome? (Pair.fault? differ) = some e := by
  induction pairs with
  | nil => exact iff_of_false nofun nofun
  | cons p rest ih =>
      rw [List.findSome?_cons]
      cases hook : p.isHook with
      | true => simp [changesOf_cons_of_hook hook, Pair.fault?, hook, ih]
      | false =>
          rw [changesOf_cons_of_not_hook hook]
          cases verdict : differ p.live p.target with
          | error f => simp [Pair.fault?, hook, verdict, Except.bind]
          | ok v =>
              have here : p.fault? differ = none := by simp [Pair.fault?, hook, verdict]
              rw [here, ← ih]
              cases changesOf differ rest <;> simp [Except.bind, Except.map]

/-- Without a fault the changes are those of the pairs that count, in order. -/
theorem changesOf_counted {cs : List Change} (h : changesOf differ pairs = .ok cs) :
    List.Forall₂ (fun p c => Pair.change differ p = .ok (some c))
      (pairs.filter (Pair.isCounted differ)) cs := by
  induction pairs generalizing cs with
  | nil =>
      obtain rfl : [] = cs := Except.ok.inj h
      exact .nil
  | cons p rest ih =>
      rcases changesOf_cons_eq_ok h with ⟨hook, later⟩ | ⟨runs, v, ds, verdict, later, rfl⟩
      · rw [List.filter_cons_of_neg (by simp [Pair.isCounted_of_hook hook])]
        exact ih later
      · have counted := Pair.isCounted_eq runs verdict
        have change := Pair.change_of_not_hook runs verdict
        cases shown : p.changeOf v with
        | none =>
            rw [shown] at counted
            rw [List.filter_cons_of_neg (by simp [counted])]
            exact ih later
        | some c =>
            rw [shown] at counted change
            rw [List.filter_cons_of_pos counted]
            exact .cons change (ih later)

theorem exists_pair_of_mem {cs : List Change} (h : changesOf differ pairs = .ok cs) {c : Change}
    (inside : c ∈ cs) : ∃ p ∈ pairs, p.change differ = .ok (some c) := by
  obtain ⟨p, member, runs, v, verdict, made⟩ := mem_changesOf h inside
  exact ⟨p, member, (Pair.change_of_not_hook runs verdict).trans (congrArg Except.ok made)⟩

/-- The pairs of one sort are as many as the changes of the kind that it makes. -/
theorem countP_counted {cs : List Change} (h : changesOf differ pairs = .ok cs)
    {sort : Pair → Bool} {kind : ChangeKind}
    (counted : ∀ p, sort p = true → Pair.isCounted differ p = true)
    (same : ∀ p c, Pair.change differ p = .ok (some c) → sort p = decide (c.kind = kind)) :
    pairs.countP sort = cs.countP fun c => decide (c.kind = kind) := by
  have among : pairs.countP sort = (pairs.filter (Pair.isCounted differ)).countP sort := by
    rw [List.countP_filter]
    refine List.countP_congr fun p _ => ?_
    rw [Bool.and_eq_true]
    exact ⟨fun is => ⟨is, counted p is⟩, And.left⟩
  have shown := changesOf_counted h
  rw [among]
  clear h
  generalize pairs.filter (Pair.isCounted differ) = ps at shown
  induction shown with
  | nil => rfl
  | @cons p c ps ds change _ ih => rw [List.countP_cons, List.countP_cons, ih, same p c change]

theorem countAll_eq (cs : List Change) :
    countAll cs = ⟨cs.countP fun c => decide (c.kind = .added),
      cs.countP fun c => decide (c.kind = .modified),
      cs.countP fun c => decide (c.kind = .removed)⟩ := by
  have fold : ∀ (cs : List Change) (n : Counts),
      cs.foldl (fun n c => n.add c.kind.counts) n =
        n.add ⟨cs.countP fun c => decide (c.kind = .added),
          cs.countP fun c => decide (c.kind = .modified),
          cs.countP fun c => decide (c.kind = .removed)⟩ := by
    intro cs
    induction cs with
    | nil => exact fun _ => rfl
    | cons c cs ih =>
        intro n
        rw [List.foldl_cons, ih]
        cases kind : c.kind <;>
          simp [Counts.add, ChangeKind.counts, kind, Nat.add_assoc, Nat.add_comm]
  have zero : ∀ n : Counts, Counts.zero.add n = n := fun n => by simp [Counts.add, Counts.zero]
  exact (fold cs Counts.zero).trans (zero _)

end Comparison

/-! ## Headers -/

/-- What the header of a block begins with. -/
def headerStart : List Char := "===== ".toList

/-- The number of lines of a text that begin as a header does. -/
def headers (cs : List Char) : Nat := (splitChars '\n' cs).countP (startsWith headerStart)

theorem headers_append_line (a b : List Char) :
    headers (a ++ '\n' :: b) = headers a + headers b := by
  rw [headers, splitChars_append_sep, List.countP_append]
  rfl

theorem headers_unlines {ls : List (List Char)} (own : ∀ l ∈ ls, '\n' ∉ l) :
    headers (unlines ls) = ls.countP (startsWith headerStart) := by
  induction ls with
  | nil => rfl
  | cons l ls ih =>
      have first : headers l = if startsWith headerStart l then 1 else 0 := by
        rw [headers, splitChars_of_notMem (own l (List.mem_cons_self ..)), List.countP_singleton]
      rw [unlines_cons, headers_append_line, first, List.countP_cons,
        ih fun m member => own m (List.mem_cons_of_mem _ member), Nat.add_comm]

/-- No row of a diff looks like a header. -/
theorem headers_unified {old new : String} (ho : '\r' ∉ old.toList) (hn : '\r' ∉ new.toList) :
    headers (LineDiff.unified old new).toList = 0 := by
  rw [LineDiff.unified_eq_rows ho hn, headers_unlines]
  · rw [List.countP_eq_zero]
    intro l member header
    obtain ⟨r, inside, rfl⟩ := List.mem_map.1 member
    have mark : r.mark ≠ '=' := by
      cases LineDiff.rowOf_of_mem inside with
      | header first last => exact (by decide : '@' ≠ '=')
      | kept line => exact (by decide : ' ' ≠ '=')
      | deleted line => exact (by decide : '-' ≠ '=')
      | inserted line => exact (by decide : '+' ≠ '=')
      | unended => decide
    obtain ⟨rest, same⟩ := startsWith_iff.1 header
    exact mark (List.cons.inj same).1.symm
  · intro l member
    obtain ⟨r, inside, rfl⟩ := List.mem_map.1 member
    exact LineDiff.notMem_chars rfl inside

/-- A block has one header, its first line. -/
theorem headers_renderBlock {key : ResourceKey} (own : '\n' ∉ key.render.toList)
    (old new : Option Document) : headers (renderBlock key old new).toList = 1 := by
  have title : headers (blockHeader key).toList = 1 := by
    have parts : (blockHeader key).toList =
        headerStart ++ (key.render.toList ++ " ======".toList) := by
      simp [blockHeader, headerStart]
    have line : '\n' ∉ (blockHeader key).toList := by simp [blockHeader, own]
    rw [headers, splitChars_of_notMem line, List.countP_singleton, parts,
      startsWith_iff.2 (List.prefix_append ..), if_pos rfl]
  have block : headers (blockHeader key ++ "\n" ++
      LineDiff.unified (Yaml.canonical old) (Yaml.canonical new)).toList = 1 := by
    rw [String.toList_append, String.toList_append, List.append_assoc]
    refine (headers_append_line _ _).trans ?_
    rw [title]
    exact congrArg _ (headers_unified (Yaml.notMem_canonical old) (Yaml.notMem_canonical new))
  unfold renderBlock
  dsimp only
  split
  · exact block
  · rw [String.toList_append]
    exact (headers_append_line _ _).trans block

theorem headers_join {texts : List String} (ended : ∀ t ∈ texts, t.toList.getLast? = some '\n')
    (one : ∀ t ∈ texts, headers t.toList = 1) :
    headers (String.join texts).toList = texts.length := by
  induction texts with
  | nil => rfl
  | cons t texts ih =>
      obtain ⟨line, feed⟩ := List.getLast?_eq_some_iff.1 (ended t (List.mem_cons_self ..))
      have rest := ih (fun u member => ended u (List.mem_cons_of_mem _ member)) fun u member =>
        one u (List.mem_cons_of_mem _ member)
      have own : headers line = 1 := by
        have whole := one t (List.mem_cons_self ..)
        rw [feed, headers_append_line] at whole
        exact whole
      rw [String.join_cons, String.toList_append, feed, List.append_assoc, List.length_cons,
        Nat.add_comm]
      exact (headers_append_line _ _).trans (congrArg₂ _ own rest)

theorem exists_below_header (key : ResourceKey) (old new : Option Document) :
    ∃ below, renderBlock key old new = blockHeader key ++ "\n" ++ below := by
  unfold renderBlock
  dsimp only
  split
  · exact ⟨_, rfl⟩
  · exact ⟨_, String.append_assoc⟩

/-! ## The account -/

/-- A text is the block of a pair: the text of its change, which begins with the header of the
resource. -/
def Pair.IsBlock (differ : Differ) (p : Pair) (block : String) : Prop :=
  (∃ c, p.change differ = .ok (some c) ∧ c.text = block) ∧
    ∃ below, block = blockHeader p.key ++ "\n" ++ below

namespace Comparison

variable {differ : Differ} {pairs : List Pair}

/-- The account that a comparison without a fault gives of its pairs. -/
structure Accounts (differ : Differ) (pairs : List Pair) (c : Comparison) : Prop where
  added : c.counts.added = pairs.countP Pair.isAdded
  modified : c.counts.modified = pairs.countP (Pair.isModified differ)
  removed : c.counts.removed = pairs.countP Pair.isRemoved
  unchanged : c.text = noChanges ↔
    c.counts.added = 0 ∧ c.counts.modified = 0 ∧ c.counts.removed = 0
  blocks : c.text ≠ noChanges → ∃ blocks, c.text = String.join blocks ∧
    List.Forall₂ (Pair.IsBlock differ) (pairs.filter (Pair.isCounted differ)) blocks
  summary : c.summary = toString c.counts.added ++ " added, " ++ toString c.counts.modified ++
    " modified, " ++ toString c.counts.removed ++ " removed"
  headers : (∀ p ∈ pairs, '\n' ∉ p.key.render.toList) →
    headers c.text.toList = c.counts.added + c.counts.modified + c.counts.removed

theorem forall₂_isBlock {cs : List Change} (h : changesOf differ pairs = .ok cs) :
    List.Forall₂ (Pair.IsBlock differ) (pairs.filter (Pair.isCounted differ))
      (cs.map (·.text)) := by
  refine List.forall₂_map_right_iff.2 ((changesOf_counted h).imp fun p c change => ?_)
  obtain ⟨old, new, text⟩ := Pair.exists_block_of_change change
  exact ⟨⟨c, change, rfl⟩, text ▸ exists_below_header p.key old new⟩

/-- A text that begins with a header does not say that there are no changes. -/
theorem text_ne_noChanges {c : Change} {p : Pair} (h : p.change differ = .ok (some c))
    (cs : List Change) : (ofChanges (c :: cs)).text ≠ noChanges := by
  obtain ⟨old, new, text⟩ := Pair.exists_block_of_change h
  obtain ⟨below, block⟩ := exists_below_header p.key old new
  rw [text_ofChanges, if_neg (by simp), List.map_cons, String.join_cons, text, block]
  intro same
  have first := congrArg (·.toList.head?) same
  simp [blockHeader, noChanges] at first

theorem headers_text {cs : List Change} (h : changesOf differ pairs = .ok cs)
    (own : ∀ p ∈ pairs, '\n' ∉ p.key.render.toList) :
    headers (ofChanges cs).text.toList = cs.length := by
  rw [text_ofChanges]
  split
  next none =>
    rw [none]
    decide
  next some =>
    have blocks : ∀ t ∈ cs.map (·.text), t.toList.getLast? = .some '\n' ∧ headers t.toList = 1 := by
      intro t member
      obtain ⟨c, inside, rfl⟩ := List.mem_map.1 member
      obtain ⟨p, there, change⟩ := exists_pair_of_mem h inside
      obtain ⟨old, new, text⟩ := Pair.exists_block_of_change change
      rw [text]
      exact ⟨getLast?_renderBlock .., headers_renderBlock (own p there) old new⟩
    rw [headers_join (fun t member => (blocks t member).1) fun t member => (blocks t member).2,
      List.length_map]

theorem accounts_ofChanges {cs : List Change} (h : changesOf differ pairs = .ok cs) :
    Accounts differ pairs (ofChanges cs) := by
  have counts : (ofChanges cs).counts = countAll cs := rfl
  have total : (ofChanges cs).counts.total = cs.length := total_countAll cs
  refine ⟨?_, ?_, ?_, ?_, fun changed => ⟨_, ?_, forall₂_isBlock h⟩, rfl, fun own => ?_⟩
  · rw [counts, countAll_eq]
    exact (countP_counted h (fun p sort => by simp [Pair.isCounted, sort])
      fun p c change => (Pair.kind_of_change change).1).symm
  · rw [counts, countAll_eq]
    exact (countP_counted h (fun p sort => by simp [Pair.isCounted, sort])
      fun p c change => (Pair.kind_of_change change).2.1).symm
  · rw [counts, countAll_eq]
    exact (countP_counted h (fun p sort => by simp [Pair.isCounted, sort])
      fun p c change => (Pair.kind_of_change change).2.2).symm
  · cases cs with
    | nil => exact iff_of_true rfl ⟨rfl, rfl, rfl⟩
    | cons c cs =>
        obtain ⟨p, -, change⟩ := exists_pair_of_mem h (List.mem_cons_self ..)
        refine iff_of_false (text_ne_noChanges change cs) fun zero => ?_
        rw [Counts.total, zero.1, zero.2.1, zero.2.2] at total
        cases total
  · rw [text_ofChanges] at changed ⊢
    split at changed
    · exact absurd rfl changed
    next some => exact if_neg some
  · rw [headers_text h own, ← total]
    rfl

/-- A comparison gives account of every pair. It ends with a fault exactly if the differ has one at
a pair that is no hook, and with the first of these. Otherwise its counts are the numbers of pairs
with a target alone, with a live object alone, and with both that the differ finds modified; its
text has one block for each of them, in order, and says so if there are none; and the headers of
the blocks are the only lines that look like one, as long as keys are single lines. -/
theorem ofPairs_accounts (differ : Differ) (pairs : List Pair) :
    ((∃ e, ofPairs differ pairs = .error e) ↔
      ∃ p ∈ pairs, p.isHook = false ∧ ∃ e, differ p.live p.target = .error e) ∧
    (∀ e, ofPairs differ pairs = .error e ↔ pairs.findSome? (Pair.fault? differ) = some e) ∧
    ((∀ p ∈ pairs, p.isHook = false → ∃ v, differ p.live p.target = .ok v) →
      ∃ c, ofPairs differ pairs = .ok c ∧ Accounts differ pairs c) := by
  have first : ∀ e, ofPairs differ pairs = .error e ↔
      pairs.findSome? (Pair.fault? differ) = some e := by
    intro e
    rw [← changesOf_eq_error_iff, ofPairs_eq]
    cases changesOf differ pairs <;> simp [Except.map]
  refine ⟨?_, first, fun sound => ?_⟩
  · constructor
    · rintro ⟨e, fault⟩
      obtain ⟨p, member, found⟩ := List.exists_of_findSome?_eq_some ((first e).1 fault)
      obtain ⟨runs, here⟩ := Pair.fault?_eq_some_iff.1 found
      exact ⟨p, member, runs, e, here⟩
    · rintro ⟨p, member, runs, e, here⟩
      have some : (pairs.findSome? (Pair.fault? differ)).isSome = true :=
        List.findSome?_isSome_iff.2
          ⟨p, member, Option.isSome_iff_exists.2 ⟨e, Pair.fault?_eq_some_iff.2 ⟨runs, here⟩⟩⟩
      obtain ⟨f, found⟩ := Option.isSome_iff_exists.1 some
      exact ⟨f, (first f).2 found⟩
  · cases done : changesOf differ pairs with
    | ok cs => exact ⟨_, by rw [ofPairs_eq, done]; rfl, accounts_ofChanges done⟩
    | error e =>
        obtain ⟨p, member, found⟩ :=
          List.exists_of_findSome?_eq_some (changesOf_eq_error_iff.1 done)
        obtain ⟨runs, here⟩ := Pair.fault?_eq_some_iff.1 found
        obtain ⟨v, verdict⟩ := sound p member runs
        rw [verdict] at here
        cases here

/-- Finds every resource modified but the one called `same`, and predicts no document. -/
def byName : Differ := fun live _ =>
  .ok ⟨decide (live.bind (·.metadataText? "name") ≠ some "same"), "no document"⟩

/-- A pair for each way in which a resource is counted, or is not. -/
def assorted : List Pair :=
  [⟨⟨"", "ConfigMap", "prod", "added"⟩, none, some (sample "ConfigMap" "added" "red" [])⟩,
   ⟨⟨"", "ConfigMap", "prod", "changed"⟩, some (sample "ConfigMap" "changed" "red" []),
      some (sample "ConfigMap" "changed" "blue" [])⟩,
   ⟨⟨"", "ConfigMap", "prod", "gone"⟩, some (sample "ConfigMap" "gone" "red" []), none⟩,
   ⟨⟨"", "ConfigMap", "prod", "same"⟩, some (sample "ConfigMap" "same" "red" []),
      some (sample "ConfigMap" "same" "red" [])⟩,
   ⟨⟨"", "Job", "prod", "hook"⟩, none,
      some (sample "Job" "hook" "red" [(Document.argoHookAnnotation, .string "PreSync")])⟩]

theorem ofPairs_accounts_assorted :
    (∀ p ∈ assorted, p.isHook = false → ∃ v, byName p.live p.target = .ok v) ∧
      (∀ p ∈ assorted, '\n' ∉ p.key.render.toList) ∧
      ∃ c, ofPairs byName assorted = .ok c ∧ c.counts = ⟨1, 1, 1⟩ ∧
        headers c.text.toList = 3 := by
  have sound : ∀ p ∈ assorted, p.isHook = false → ∃ v, byName p.live p.target = .ok v :=
    fun _ _ _ => ⟨_, rfl⟩
  have own : ∀ p ∈ assorted, '\n' ∉ p.key.render.toList := by decide +kernel
  obtain ⟨c, done, accounts⟩ := (ofPairs_accounts byName assorted).2.2 sound
  have added : c.counts.added = 1 := accounts.added.trans (by decide +kernel)
  have modified : c.counts.modified = 1 := accounts.modified.trans (by decide +kernel)
  have removed : c.counts.removed = 1 := accounts.removed.trans (by decide +kernel)
  refine ⟨sound, own, c, done, ?_, ?_⟩
  · have parts : c.counts = ⟨c.counts.added, c.counts.modified, c.counts.removed⟩ := rfl
    rw [parts, added, modified, removed]
  · rw [accounts.headers own, added, modified, removed]

end Comparison

end ChangeReport
