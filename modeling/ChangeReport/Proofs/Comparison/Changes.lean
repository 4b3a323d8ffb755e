import ChangeReport.Comparison
import Mathlib.Control.Basic

/-! What a comparison does with its pairs, one after the other. The differ may act in any
monad, so that what it is asked becomes a part of what a comparison does. Hooks are passed
over without a question, and the changes that are counted and shown are those that the
verdicts make of the other pairs. -/
namespace ChangeReport

/-- A differ that acts in a monad. -/
abbrev DifferIn (m : Type → Type) := Option Document → Option Document → m Verdict

/-- What a differ is asked about: the live object and the target of one resource. -/
abbrev Question := Option Document × Option Document

/-- The differ that also writes down what it is asked. -/
def Differ.recorded (differ : Differ) :
    DifferIn (ExceptT DifferFault (StateM (List Question))) :=
  fun live target => ExceptT.mk do
    modify (· ++ [(live, target)])
    return differ live target

def Pair.question (p : Pair) : Question := (p.live, p.target)

section

variable {m : Type → Type} [Monad m]

def Pair.changeIn (ask : DifferIn m) (p : Pair) : m (Option Change) :=
  if p.isHook then pure none else p.changeOf <$> ask p.live p.target

def Comparison.changesIn (ask : DifferIn m) (pairs : List Pair) : m (List Change) :=
  List.filterMap id <$> pairs.mapM (Pair.changeIn ask)

def Comparison.ofPairsIn (ask : DifferIn m) (pairs : List Pair) : m Comparison :=
  ofChanges <$> changesIn ask pairs

end

namespace Comparison

/-- The changes of which a comparison is made. -/
def changesOf (differ : Differ) (pairs : List Pair) : Except DifferFault (List Change) :=
  changesIn differ pairs

/-- The questions that the differ is asked in a comparison, in order. -/
def questions (differ : Differ) (pairs : List Pair) : List Question :=
  ((ofPairsIn differ.recorded pairs).run.run []).2

theorem ofPairs_eq (differ : Differ) (pairs : List Pair) :
    ofPairs differ pairs = (changesOf differ pairs).map ofChanges := by
  rw [ofPairs, changesOf, changesIn]
  change Except.map _ (pairs.mapM (Pair.changeIn (m := Except DifferFault) differ)) = _
  cases pairs.mapM (Pair.changeIn (m := Except DifferFault) differ) <;> rfl

theorem ofPairs_eq_in (differ : Differ) (pairs : List Pair) :
    ofPairs differ pairs = ofPairsIn (m := Except DifferFault) differ pairs :=
  ofPairs_eq differ pairs

section

variable {m : Type → Type} [Monad m] [LawfulMonad m] (ask : DifferIn m)

theorem changesIn_cons (p : Pair) (pairs : List Pair) :
    changesIn ask (p :: pairs) = do
      let c ← p.changeIn ask
      let cs ← changesIn ask pairs
      return c.toList ++ cs := by
  simp only [changesIn, List.mapM_cons, map_bind, map_pure, bind_map_left]
  refine bind_congr fun c => bind_congr fun cs => ?_
  cases c <;> rfl

theorem changesIn_cons_of_hook {p : Pair} (hook : p.isHook = true) (pairs : List Pair) :
    changesIn ask (p :: pairs) = changesIn ask pairs := by
  simp [changesIn_cons, Pair.changeIn, hook]

theorem changesIn_cons_of_not_hook {p : Pair} (runs : p.isHook = false) (pairs : List Pair) :
    changesIn ask (p :: pairs) = do
      let v ← ask p.live p.target
      let cs ← changesIn ask pairs
      return (p.changeOf v).toList ++ cs := by
  simp [changesIn_cons, Pair.changeIn, runs]

/-- Without some of its hooks a list of pairs makes the same comparison, whatever the
differ does. -/
theorem ofPairsIn_filter {keep : Pair → Bool} {pairs : List Pair}
    (hooks : ∀ p ∈ pairs, keep p = false → p.isHook = true) :
    ofPairsIn ask (pairs.filter keep) = ofPairsIn ask pairs := by
  rw [ofPairsIn, ofPairsIn]
  congr 1
  induction pairs with
  | nil => rfl
  | cons p rest ih =>
      have tail := ih fun q member => hooks q (List.mem_cons_of_mem _ member)
      cases kept : keep p with
      | true => rw [List.filter_cons_of_pos kept, changesIn_cons, changesIn_cons, tail]
      | false =>
          rw [List.filter_cons_of_neg (by simp [kept]), tail,
            changesIn_cons_of_hook ask (hooks p (List.mem_cons_self ..) kept)]

end

end Comparison

theorem Pair.key_of_changeOf {p : Pair} {v : Verdict} {c : Change} (h : p.changeOf v = some c) :
    c.key = p.key := by
  unfold changeOf at h
  split at h
  · cases h
  · obtain rfl := Option.some.inj h
    rfl
  · obtain rfl := Option.some.inj h
    rfl
  · split at h
    · obtain rfl := Option.some.inj h
      rfl
    · cases h

theorem Pair.change_of_changes {p : Pair} {d t : Document} (live : p.live = some d)
    (target : p.target = some t) (same : changes (some d) (some t) = false) :
    p.change overlayDiffer = .ok none := by
  rw [change]
  split
  · rfl
  · simp [overlayDiffer, overlayVerdict, changeOf, live, target, same, Except.map]

namespace Comparison

variable {differ : Differ} {p : Pair} {pairs : List Pair}

/-! ## Changes -/

theorem changesOf_cons_of_hook (hook : p.isHook = true) :
    changesOf differ (p :: pairs) = changesOf differ pairs :=
  changesIn_cons_of_hook (m := Except DifferFault) differ hook pairs

theorem changesOf_cons_of_not_hook (runs : p.isHook = false) :
    changesOf differ (p :: pairs) =
      (differ p.live p.target).bind fun v =>
        (changesOf differ pairs).map ((p.changeOf v).toList ++ ·) :=
  changesIn_cons_of_not_hook (m := Except DifferFault) differ runs pairs

/-- A comparison that succeeds passes over a hook, or has a verdict on the pair. -/
theorem changesOf_cons_eq_ok {cs : List Change} (h : changesOf differ (p :: pairs) = .ok cs) :
    (p.isHook = true ∧ changesOf differ pairs = .ok cs) ∨
      (p.isHook = false ∧ ∃ v rest, differ p.live p.target = .ok v ∧
        changesOf differ pairs = .ok rest ∧ cs = (p.changeOf v).toList ++ rest) := by
  cases hook : p.isHook with
  | true => exact .inl ⟨rfl, changesOf_cons_of_hook hook ▸ h⟩
  | false =>
      rw [changesOf_cons_of_not_hook hook] at h
      cases verdict : differ p.live p.target with
      | error e =>
          rw [verdict] at h
          cases h
      | ok v =>
          cases others : changesOf differ pairs with
          | error e =>
              rw [verdict, others] at h
              cases h
          | ok rest =>
              rw [verdict, others] at h
              exact .inr ⟨rfl, v, rest, rfl, rfl, (Except.ok.inj h).symm⟩

/-- Every change of a comparison is what a verdict makes of a pair that is no hook. -/
theorem mem_changesOf {cs : List Change} (h : changesOf differ pairs = .ok cs) {c : Change}
    (member : c ∈ cs) :
    ∃ p ∈ pairs, p.isHook = false ∧ ∃ v, differ p.live p.target = .ok v ∧
      p.changeOf v = some c := by
  induction pairs generalizing cs with
  | nil =>
      obtain rfl : [] = cs := Except.ok.inj h
      cases member
  | cons p rest ih =>
      rcases changesOf_cons_eq_ok h with ⟨-, later⟩ | ⟨runs, v, ds, verdict, later, rfl⟩
      · obtain ⟨q, inside, found⟩ := ih later member
        exact ⟨q, List.mem_cons_of_mem _ inside, found⟩
      · rcases List.mem_append.1 member with here | there
        · exact ⟨p, List.mem_cons_self .., runs, v, verdict, Option.mem_toList.1 here⟩
        · obtain ⟨q, inside, found⟩ := ih later there
          exact ⟨q, List.mem_cons_of_mem _ inside, found⟩

/-- What the verdict makes of a pair that is no hook is among the changes. -/
theorem mem_changesOf_of_mem {cs : List Change} (h : changesOf differ pairs = .ok cs)
    (member : p ∈ pairs) (runs : p.isHook = false) {v : Verdict}
    (verdict : differ p.live p.target = .ok v) {c : Change} (change : p.changeOf v = some c) :
    c ∈ cs := by
  induction pairs generalizing cs with
  | nil => cases member
  | cons q rest ih =>
      rcases changesOf_cons_eq_ok h with ⟨hook, later⟩ | ⟨-, w, ds, asked, later, rfl⟩
      · rcases List.mem_cons.1 member with rfl | inside
        · simp [runs] at hook
        · exact ih later inside
      · rcases List.mem_cons.1 member with rfl | inside
        · obtain rfl : w = v := Except.ok.inj (asked.symm.trans verdict)
          exact List.mem_append_left _ (Option.mem_toList.2 change)
        · exact List.mem_append_right _ (ih later inside)

/-- A differ without faults makes a comparison without one. -/
theorem exists_changesOf (succeeds : ∀ p ∈ pairs, ∃ v, differ p.live p.target = .ok v) :
    ∃ cs, changesOf differ pairs = .ok cs := by
  induction pairs with
  | nil => exact ⟨[], rfl⟩
  | cons p rest ih =>
      obtain ⟨ds, later⟩ := ih fun q member => succeeds q (List.mem_cons_of_mem _ member)
      obtain ⟨v, verdict⟩ := succeeds p (List.mem_cons_self ..)
      cases hook : p.isHook with
      | true => exact ⟨ds, by rw [changesOf_cons_of_hook hook, later]⟩
      | false => exact ⟨_, by rw [changesOf_cons_of_not_hook hook, verdict, later]; rfl⟩

/-- Pairs without a change make a comparison without one. -/
theorem ofPairs_of_unchanged (h : ∀ p ∈ pairs, p.change differ = .ok none) :
    ofPairs differ pairs = .ok (.ofChanges []) := by
  have none : changesOf differ pairs = .ok [] := by
    induction pairs with
    | nil => rfl
    | cons p rest ih =>
        have first : p.changeIn (m := Except DifferFault) differ = .ok none :=
          h p (List.mem_cons_self ..)
        have later := ih fun q member => h q (List.mem_cons_of_mem _ member)
        rw [changesOf] at later ⊢
        rw [changesIn_cons, first, later]
        rfl
  rw [ofPairs_eq, none]
  rfl

/-! ## Questions -/

theorem run_recorded_cons (runs : p.isHook = false) (differ : Differ) (pairs : List Pair)
    (before : List Question) :
    (changesIn differ.recorded (p :: pairs)).run.run before =
      match differ p.live p.target with
      | .error e => (.error e, before ++ [p.question])
      | .ok v =>
          let rest := (changesIn differ.recorded pairs).run.run (before ++ [p.question])
          (rest.1.map ((p.changeOf v).toList ++ ·), rest.2) := by
  have asked : (differ.recorded p.live p.target).run.run before =
      (differ p.live p.target, before ++ [p.question]) := rfl
  rw [changesIn_cons_of_not_hook _ runs, ExceptT.run_bind, StateT.run_bind, asked]
  cases differ p.live p.target with
  | error e => rfl
  | ok v =>
      change (do
        let cs ← changesIn differ.recorded pairs
        return (p.changeOf v).toList ++ cs :
          ExceptT DifferFault (StateM (List Question)) _).run.run (before ++ [p.question]) = _
      rw [← map_eq_pure_bind, ExceptT.run_map, StateT.run_map]
      rfl

/-- The questions about all pairs that are no hooks. -/
def allQuestions (pairs : List Pair) : List Question :=
  (pairs.filter fun p => !p.isHook).map Pair.question

theorem allQuestions_cons_of_hook (hook : p.isHook = true) :
    allQuestions (p :: pairs) = allQuestions pairs := by
  simp [allQuestions, hook]

theorem allQuestions_cons_of_not_hook (runs : p.isHook = false) :
    allQuestions (p :: pairs) = p.question :: allQuestions pairs := by
  simp [allQuestions, runs]

/-- A record changes no comparison. It holds the first of all questions, up to a fault. -/
theorem run_recorded (differ : Differ) (pairs : List Pair) (before : List Question) :
    ∃ asked, (changesIn differ.recorded pairs).run.run before =
        (changesOf differ pairs, before ++ asked) ∧
      asked <+: allQuestions pairs ∧
      ((changesOf differ pairs).isOk → asked = allQuestions pairs) := by
  induction pairs generalizing before with
  | nil => exact ⟨[], by rw [List.append_nil]; rfl, List.nil_prefix, fun _ => rfl⟩
  | cons p rest ih =>
      cases hook : p.isHook with
      | true =>
          rw [allQuestions_cons_of_hook hook, changesOf_cons_of_hook hook,
            changesIn_cons_of_hook _ hook]
          exact ih before
      | false =>
          obtain ⟨asked, run, first, all⟩ := ih (before ++ [p.question])
          rw [run_recorded_cons hook, allQuestions_cons_of_not_hook hook,
            changesOf_cons_of_not_hook hook, run]
          cases differ p.live p.target with
          | error e => exact ⟨[p.question], rfl, by simp, nofun⟩
          | ok v =>
              refine ⟨p.question :: asked, by simp [Except.bind], by simpa using first, ?_⟩
              cases later : changesOf differ rest with
              | error e => exact nofun
              | ok cs =>
                  rw [later] at all
                  exact fun _ => congrArg (p.question :: ·) (all rfl)

theorem questions_spec (differ : Differ) (pairs : List Pair) :
    questions differ pairs <+: allQuestions pairs ∧
      ((changesOf differ pairs).isOk → questions differ pairs = allQuestions pairs) := by
  obtain ⟨asked, run, spec⟩ := run_recorded differ pairs []
  rw [questions, ofPairsIn, ExceptT.run_map, StateT.run_map, run]
  exact spec

theorem mem_questions {q : Question} (h : q ∈ questions differ pairs) :
    ∃ p ∈ pairs, p.isHook = false ∧ q = p.question := by
  obtain ⟨p, member, rfl⟩ := List.mem_map.1 ((questions_spec differ pairs).1.subset h)
  obtain ⟨inside, runs⟩ := List.mem_filter.1 member
  exact ⟨p, inside, by simpa using runs, rfl⟩

end Comparison

/-! ## Samples -/

/-- A manifest of the core group in the namespace `prod`. -/
def sample (kind name color : String) (annotations : List (String × Document)) : Document :=
  .object [("data", .object [("color", .string color)]), ("kind", .string kind),
    ("metadata", .object [("annotations", .object annotations), ("name", .string name),
      ("namespace", .string "prod")])]

end ChangeReport
