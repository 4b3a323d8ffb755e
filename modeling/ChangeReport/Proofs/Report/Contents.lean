import ChangeReport.Report.Message

/-! What a message holds. Sections and trailer follow from the changes alone: no answer of
a host takes anything away from them, and a change of one application leaves the sections
of all others as they are. -/
namespace ChangeReport.Report

/-- The section of an application after a change, from the section before it. -/
def Change.sectionAfter (app : String) (section? : Option String) : Change → Option String
  | .addApp a => if a = app then some (section?.getD "") else section?
  | .append a fragment =>
      if a = app then some (Report.append (section?.getD "") fragment) else section?
  | .appendTrailer _ | .push => section?

def Change.trailerAfter (trailer : String) : Change → String
  | .appendTrailer fragment => Report.append trailer fragment
  | .addApp _ | .append _ _ | .push => trailer

def sectionAfterAll (app : String) (section? : Option String) (cs : List Change) : Option String :=
  cs.foldl (fun section? c => c.sectionAfter app section?) section?

/-- The application whose section a change is about. -/
def Change.app? : Change → Option String
  | .addApp app => some app
  | .append app _ => some app
  | .appendTrailer _ | .push => none

def fragments (cs : List Change) : List String :=
  cs.filterMap fun
    | .append _ fragment => some fragment
    | _ => none

/-- Fragments in one text. A separator stands between them, but none before the first that
is not empty. -/
def joined (fragments : List String) : String :=
  separator.intercalate (fragments.dropWhile (· = ""))

theorem append_ne_empty {text : String} (fragment : String) (h : text ≠ "") :
    append text fragment ≠ "" := by
  intro empty
  simp only [append, h, if_false] at empty
  have length := congrArg String.length empty
  simp only [String.length_append, separator] at length
  have marks : "\n\n---\n\n".length = 7 := by decide
  rw [marks] at length
  simp at length

theorem foldl_append_of_ne_empty {text : String} (h : text ≠ "") (fs : List String) :
    fs.foldl append text = separator.intercalate (text :: fs) := by
  induction fs generalizing text with
  | nil => rw [List.foldl_nil, String.intercalate_singleton]
  | cons f fs ih =>
      have step : append text f = text ++ separator ++ f := by simp [append, h]
      rw [List.foldl_cons, ih (append_ne_empty f h), step, String.intercalate_cons_append,
        String.intercalate_cons_cons]

/-- Appending fragments one after another joins them. -/
theorem foldl_append (fs : List String) : fs.foldl append "" = joined fs := by
  induction fs with
  | nil => rfl
  | cons f fs ih =>
      by_cases h : f = ""
      · subst h
        simpa [joined, append] using ih
      · have first : append "" f = f := by simp [append]
        rw [List.foldl_cons, first, foldl_append_of_ne_empty h]
        simp [joined, h]

theorem joined_ne_empty {fs : List String} {f : String} (member : f ∈ fs) (h : f ≠ "") :
    joined fs ≠ "" := by
  induction fs with
  | nil => simp at member
  | cons g fs ih =>
      by_cases empty : g = ""
      · subst empty
        have rest : f ∈ fs := by simpa [h] using member
        simpa [joined] using ih rest
      · have first : append "" g = g := by simp [append]
        have grows : ∀ (fs : List String) (text : String), text ≠ "" →
            fs.foldl append text ≠ "" := by
          intro fs
          induction fs with
          | nil => exact fun _ h => h
          | cons x fs ih => exact fun text h => ih (append text x) (append_ne_empty x h)
        rw [← foldl_append, List.foldl_cons, first]
        exact grows fs g empty

theorem joined_cons_foldl (text : String) (fs : List String) :
    fs.foldl append text = joined (text :: fs) := by
  rw [← foldl_append, List.foldl_cons]
  simp [append]

theorem exists_append_eq (text fragment : String) :
    ∃ more, append text fragment = text ++ more := by
  unfold append
  split
  next empty => exact ⟨fragment, by rw [empty, String.empty_append]⟩
  next => exact ⟨separator ++ fragment, String.append_assoc⟩

theorem sectionAfter_some (c : Change) (app text : String) :
    ∃ more, c.sectionAfter app (some text) = some (text ++ more) := by
  have same : some text = some (text ++ "") := by rw [String.append_empty]
  cases c with
  | addApp a =>
      refine ⟨"", ?_⟩
      by_cases own : a = app
      · exact (if_pos own).trans same
      · exact (if_neg own).trans same
  | append a fragment =>
      obtain ⟨more, eq⟩ := exists_append_eq text fragment
      by_cases own : a = app
      · exact ⟨more, (if_pos own).trans (congrArg some eq)⟩
      · exact ⟨"", (if_neg own).trans same⟩
  | appendTrailer fragment => exact ⟨"", same⟩
  | push => exact ⟨"", same⟩

theorem trailerAfter_eq (c : Change) (trailer : String) :
    ∃ more, c.trailerAfter trailer = trailer ++ more := by
  have same : trailer = trailer ++ "" := String.append_empty.symm
  cases c with
  | appendTrailer fragment => exact exists_append_eq trailer fragment
  | addApp a => exact ⟨"", same⟩
  | append a fragment => exact ⟨"", same⟩
  | push => exact ⟨"", same⟩

theorem sectionAfter_of_app_ne {c : Change} {app : String} (h : c.app? ≠ some app)
    (section? : Option String) : c.sectionAfter app section? = section? := by
  cases c with
  | addApp a => simp_all [Change.app?, Change.sectionAfter]
  | append a fragment => simp_all [Change.app?, Change.sectionAfter]
  | appendTrailer fragment => rfl
  | push => rfl

theorem sectionAfterAll_append (app : String) (section? : Option String) (cs ds : List Change) :
    sectionAfterAll app section? (cs ++ ds) =
      sectionAfterAll app (sectionAfterAll app section? cs) ds := by
  rw [sectionAfterAll, List.foldl_append]
  rfl

theorem sectionAfterAll_of_app_ne {cs : List Change} {app : String}
    (h : ∀ c ∈ cs, c.app? ≠ some app)
    (section? : Option String) : sectionAfterAll app section? cs = section? := by
  induction cs generalizing section? with
  | nil => rfl
  | cons c cs ih =>
      have first := sectionAfter_of_app_ne (h c (List.mem_cons_self ..)) section?
      rw [sectionAfterAll, List.foldl_cons, first]
      exact ih (fun d hd => h d (List.mem_cons_of_mem _ hd)) section?

theorem sectionAfterAll_of_app_eq {cs : List Change} {app : String}
    (h : ∀ c ∈ cs, c.app? = some app) (ne : cs ≠ []) (section? : Option String) :
    sectionAfterAll app section? cs = some (joined (section?.toList ++ fragments cs)) := by
  have fold : ∀ cs : List Change, (∀ c ∈ cs, c.app? = some app) → ∀ text : String,
      sectionAfterAll app (some text) cs = some ((fragments cs).foldl append text) := by
    intro cs
    induction cs with
    | nil => exact fun _ _ => rfl
    | cons c cs ih =>
        intro own text
        have rest := ih fun d hd => own d (List.mem_cons_of_mem _ hd)
        have first := own c (List.mem_cons_self ..)
        cases c with
        | addApp a =>
            obtain rfl : a = app := by simpa [Change.app?] using first
            simpa [sectionAfterAll, Change.sectionAfter, fragments] using rest text
        | append a fragment =>
            obtain rfl : a = app := by simpa [Change.app?] using first
            simpa [sectionAfterAll, Change.sectionAfter, fragments] using
              rest (Report.append text fragment)
        | appendTrailer fragment => simp [Change.app?] at first
        | push => simp [Change.app?] at first
  have start : sectionAfterAll app section? cs =
      sectionAfterAll app (some (section?.getD "")) cs := by
    cases cs with
    | nil => exact absurd rfl ne
    | cons c cs =>
        have first := h c (List.mem_cons_self ..)
        cases c with
        | addApp a =>
            obtain rfl : a = app := by simpa [Change.app?] using first
            simp [sectionAfterAll, Change.sectionAfter]
        | append a fragment =>
            obtain rfl : a = app := by simpa [Change.app?] using first
            simp [sectionAfterAll, Change.sectionAfter]
        | appendTrailer fragment => simp [Change.app?] at first
        | push => simp [Change.app?] at first
  rw [start, fold cs h, joined_cons_foldl]
  cases section? with
  | none => simp [joined]
  | some text => rfl

namespace Message

variable {σ τ : Type}

/-- A body that the host has is not sent again; any other one is sent once. -/
theorem send_cases (host : Host σ) (m : Message) (s : σ) :
    (m.body = m.pushed ∧ send host m s = (.ok (), m, s)) ∨
    (m.body ≠ m.pushed ∧ ∃ id t, host.edit m.changeRequest m.id m.body s = (.ok id, t) ∧
      send host m s = (.ok (), { m with id, pushed := m.body }, t)) ∨
    (m.body ≠ m.pushed ∧ ∃ e t, host.edit m.changeRequest m.id m.body s = (.error e, t) ∧
      send host m s = (.error ⟨m.id, e⟩, m, t)) := by
  simp only [send]
  by_cases same : m.body = m.pushed
  · exact .inl ⟨same, if_pos same⟩
  · rw [if_neg same]
    cases answer : host.edit m.changeRequest m.id m.body s with
    | mk taken t =>
        cases taken with
        | ok id => exact .inr (.inl ⟨same, id, t, rfl, rfl⟩)
        | error e => exact .inr (.inr ⟨same, e, t, rfl, rfl⟩)

theorem send_eq (host : Host σ) (m : Message) (s : σ) :
    ∃ id pushed, (send host m s).2.1 = { m with id, pushed } := by
  rcases send_cases host m s with ⟨-, eq⟩ | ⟨-, id, t, -, eq⟩ | ⟨-, e, t, -, eq⟩
  · exact ⟨m.id, m.pushed, by rw [eq]⟩
  · exact ⟨id, m.body, by rw [eq]⟩
  · exact ⟨m.id, m.pushed, by rw [eq]⟩

theorem change_section? (host : Host σ) (m : Message) (c : Change) (s : σ) (app : String) :
    (change host m c s).2.1.section? app = c.sectionAfter app (m.section? app) := by
  obtain ⟨id, pushed, eq⟩ := send_eq host (m.apply c) s
  rw [change, eq]
  cases c with
  | addApp a => simp [section?, apply, Change.sectionAfter, Assoc.find?_modify]
  | append a fragment => simp [section?, apply, Change.sectionAfter, Assoc.find?_modify]
  | appendTrailer fragment => rfl
  | push => rfl

theorem change_trailer (host : Host σ) (m : Message) (c : Change) (s : σ) :
    (change host m c s).2.1.trailer = c.trailerAfter m.trailer := by
  obtain ⟨id, pushed, eq⟩ := send_eq host (m.apply c) s
  rw [change, eq]
  cases c <;> rfl

theorem change_layout (host : Host σ) (m : Message) (c : Change) (s : σ) :
    (change host m c s).2.1.layout = m.layout := by
  obtain ⟨id, pushed, eq⟩ := send_eq host (m.apply c) s
  rw [change, eq]
  cases c <;> rfl

theorem change_changeRequest (host : Host σ) (m : Message) (c : Change) (s : σ) :
    (change host m c s).2.1.changeRequest = m.changeRequest := by
  obtain ⟨id, pushed, eq⟩ := send_eq host (m.apply c) s
  rw [change, eq]
  cases c <;> rfl

theorem change_sorted (host : Host σ) {m : Message} (c : Change) (s : σ)
    (h : Assoc.Sorted m.sections) : Assoc.Sorted (change host m c s).2.1.sections := by
  obtain ⟨id, pushed, eq⟩ := send_eq host (m.apply c) s
  rw [change, eq]
  cases c with
  | addApp a => simpa only [apply] using Assoc.sorted_modify h
  | append a fragment => simpa only [apply] using Assoc.sorted_modify h
  | appendTrailer fragment => exact h
  | push => exact h

theorem changeAll_nil (host : Host σ) (m : Message) (s : σ) : changeAll host m [] s = (m, s) := rfl

theorem changeAll_cons (host : Host σ) (m : Message) (c : Change) (cs : List Change) (s : σ) :
    changeAll host m (c :: cs) s =
      changeAll host (change host m c s).2.1 cs (change host m c s).2.2 := by
  rw [changeAll, changeAll, List.foldl_cons]

/-- The contents of a message do not depend on the host. -/
theorem change_contents (host : Host σ) (other : Host τ) {m n : Message}
    (sections : m.sections = n.sections)
    (trailer : m.trailer = n.trailer) (c : Change) (s : σ) (t : τ) :
    (change host m c s).2.1.sections = (change other n c t).2.1.sections ∧
      (change host m c s).2.1.trailer = (change other n c t).2.1.trailer := by
  obtain ⟨_, _, here⟩ := send_eq host (m.apply c) s
  obtain ⟨_, _, there⟩ := send_eq other (n.apply c) t
  rw [change, here, change, there]
  cases c <;> simp [apply, sections, trailer]

theorem changeAll_contents (host : Host σ) (other : Host τ) {m n : Message}
    (sections : m.sections = n.sections)
    (trailer : m.trailer = n.trailer) (cs : List Change) (s : σ) (t : τ) :
    (changeAll host m cs s).1.sections = (changeAll other n cs t).1.sections ∧
      (changeAll host m cs s).1.trailer = (changeAll other n cs t).1.trailer := by
  induction cs generalizing m n s t with
  | nil => exact ⟨sections, trailer⟩
  | cons c cs ih =>
      obtain ⟨here, there⟩ := change_contents host other sections trailer c s t
      rw [changeAll_cons, changeAll_cons]
      exact ih here there _ _

theorem changeAll_append (host : Host σ) (m : Message) (cs ds : List Change) (s : σ) :
    changeAll host m (cs ++ ds) s =
      changeAll host (changeAll host m cs s).1 ds (changeAll host m cs s).2 := by
  rw [changeAll, changeAll, changeAll, List.foldl_append]

theorem changeAll_section? (host : Host σ) (m : Message) (cs : List Change) (s : σ) (app : String) :
    (changeAll host m cs s).1.section? app = sectionAfterAll app (m.section? app) cs := by
  induction cs generalizing m s with
  | nil => rfl
  | cons c cs ih => rw [changeAll_cons, ih, change_section?]; rfl

theorem changeAll_layout (host : Host σ) (m : Message) (cs : List Change) (s : σ) :
    (changeAll host m cs s).1.layout = m.layout := by
  induction cs generalizing m s with
  | nil => rfl
  | cons c cs ih => rw [changeAll_cons, ih, change_layout]

theorem changeAll_changeRequest (host : Host σ) (m : Message) (cs : List Change) (s : σ) :
    (changeAll host m cs s).1.changeRequest = m.changeRequest := by
  induction cs generalizing m s with
  | nil => rfl
  | cons c cs ih => rw [changeAll_cons, ih, change_changeRequest]

theorem changeAll_sorted (host : Host σ) {m : Message} (cs : List Change) (s : σ)
    (h : Assoc.Sorted m.sections) : Assoc.Sorted (changeAll host m cs s).1.sections := by
  induction cs generalizing m s with
  | nil => exact h
  | cons c cs ih => rw [changeAll_cons]; exact ih _ (change_sorted host c s h)

end Message
end ChangeReport.Report
