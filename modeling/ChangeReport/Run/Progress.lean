import ChangeReport.Run.Schedule

/-! What is left to do in a run, as a number, and a schedule that runs to the end. Every
event makes the number smaller: an application that is not yet seen counts for all its
changes and for each place that its worker passes. -/
namespace ChangeReport.Run

def total {α : Type} (weight : α → Nat) (xs : List α) : Nat := xs.foldr (fun a n => weight a + n) 0

section
variable {α : Type} (weight : α → Nat)

@[simp] theorem total_nil : total weight [] = 0 := rfl

@[simp] theorem total_cons (a : α) (xs : List α) : total weight (a :: xs) = weight a + total weight xs := rfl

@[simp] theorem total_append (xs ys : List α) : total weight (xs ++ ys) = total weight xs + total weight ys := by
  induction xs with
  | nil => simp
  | cons x xs ih =>
      rw [List.cons_append, total_cons, total_cons, ih]
      omega

theorem total_eraseIdx {xs : List α} {i : Nat} {a : α} (h : xs[i]? = some a) :
    total weight (xs.eraseIdx i) + weight a = total weight xs := by
  induction xs generalizing i with
  | nil => simp at h
  | cons x xs ih =>
      cases i with
      | zero => simp_all [Nat.add_comm]
      | succ i =>
          have := ih (i := i) (by simpa using h)
          simp only [List.eraseIdx_cons_succ, total_cons]
          omega

theorem total_set {xs : List α} {i : Nat} {a : α} (h : xs[i]? = some a) (b : α) :
    total weight (xs.set i b) + weight a = total weight xs + weight b := by
  induction xs generalizing i with
  | nil => simp at h
  | cons x xs ih =>
      cases i with
      | zero =>
          obtain rfl : x = a := by simpa using h
          simp only [List.set_cons_zero, total_cons]
          omega
      | succ i =>
          have := ih (i := i) (by simpa using h)
          simp only [List.set_cons_succ, total_cons]
          omega

theorem total_filter_ne [DecidableEq α] {xs : List α} {a : α} (h : a ∈ xs) :
    total weight (xs.filter fun x => x ≠ a) + weight a ≤ total weight xs := by
  induction xs with
  | nil => simp at h
  | cons x xs ih =>
      by_cases eq : x = a
      · subst eq
        have rest : total weight (xs.filter fun y => y ≠ x) ≤ total weight xs := by
          clear ih h
          induction xs with
          | nil => simp
          | cons y ys ih =>
              by_cases eq : y = x
              · simp only [eq, ne_eq, not_true_eq_false, decide_false, Bool.false_eq_true,
                  not_false_eq_true, List.filter_cons_of_neg, total_cons] at ih ⊢
                omega
              · simp only [ne_eq, eq, not_false_eq_true, decide_true, List.filter_cons_of_pos,
                  total_cons] at ih ⊢
                omega
        simp only [ne_eq, not_true_eq_false, decide_false, Bool.false_eq_true, not_false_eq_true,
          List.filter_cons_of_neg, total_cons] at rest ⊢
        omega
      · have := ih (by simpa [Ne.symm eq] using h)
        simp only [ne_eq, eq, not_false_eq_true, decide_true, List.filter_cons_of_pos, total_cons] at this ⊢
        omega

end

def queueWeight (crew : Crew) (app : String) : Nat := (crew.work app).changes.length + 4

def waitingWeight (crew : Crew) (app : String) : Nat := (crew.work app).changes.length + 3

def activeWeight (a : Active) : Nat := a.rest.length + 2

/-- The applications that a run may still find. -/
def unseen (crew : Crew) (seen : List String) : List String :=
  crew.source.names.filter fun app => !seen.contains app

/-- What is left to do. -/
def State.left {σ : Type} (crew : Crew) (s : State σ) : Nat :=
  total (queueWeight crew) (unseen crew s.seen) + total (queueWeight crew) s.queue +
    total (waitingWeight crew) s.waiting + total activeWeight s.active + s.finished.length + (!s.cancelled).toNat

variable {σ : Type}

theorem unseen_cons (crew : Crew) (app : String) (seen : List String) :
    unseen crew (app :: seen) = (unseen crew seen).filter fun x => x ≠ app := by
  simp only [unseen, List.filter_filter]
  congr 1
  funext x
  by_cases h : x = app <;> simp [h]

theorem left_enqueue (crew : Crew) (s : State σ) (app : String) : (s.enqueue crew app).left crew ≤ s.left crew := by
  unfold State.enqueue
  split
  next h =>
    simp only [Bool.and_eq_true, Bool.not_eq_eq_eq_not, Bool.not_true] at h
    have known : app ∈ unseen crew s.seen := by
      have := h.2
      simp only [ManifestSource.knows, List.contains_eq_mem, decide_eq_true_eq] at this
      simp only [unseen, List.mem_filter, this, true_and, h.1, Bool.not_false]
    have := total_filter_ne (queueWeight crew) known
    simp only [State.left, unseen_cons, total_append, total_cons, total_nil] at this ⊢
    omega
  next => exact Nat.le_refl _

theorem left_enqueueAll (crew : Crew) (apps : List String) (s : State σ) :
    (s.enqueueAll crew apps).left crew ≤ s.left crew := by
  induction apps generalizing s with
  | nil => exact Nat.le_refl _
  | cons app apps ih => exact Nat.le_trans (ih (s.enqueue crew app)) (left_enqueue crew s app)

/-- Every event leaves less to do. -/
theorem left_step (crew : Crew) (maxConcurrent : Nat) (host : Host σ) (e : Event) {s t : State σ}
    (h : step? crew maxConcurrent host e s = some t) : t.left crew < s.left crew := by
  cases e with
  | cancel =>
      simp only [step?] at h
      split at h
      · simp at h
      next live =>
        obtain rfl := Option.some.inj h
        simp only [State.left, live]
        simp
  | spawn =>
      simp only [step?, spawn] at h
      split at h
      · simp at h
      next app rest queue =>
        split at h
        · obtain rfl := Option.some.inj h
          simp only [State.left, State.change, queue, total_cons, queueWeight]
          omega
        · obtain rfl := Option.some.inj h
          simp only [State.left, queue, total_cons, total_append, total_nil, queueWeight, waitingWeight]
          omega
  | place i =>
      simp only [step?, place] at h
      split at h
      · simp at h
      next app waiting =>
        have gone := total_eraseIdx (waitingWeight crew) waiting
        split at h
        · split at h
          · obtain rfl := Option.some.inj h
            simp only [State.left, State.change, List.length_append, List.length_singleton]
            simp only [waitingWeight] at gone ⊢
            omega
          · obtain rfl := Option.some.inj h
            simp only [State.left, total_append, total_cons, total_nil, activeWeight]
            simp only [waitingWeight] at gone ⊢
            omega
        · simp at h
  | advance i =>
      simp only [step?, advance] at h
      split at h
      · simp at h
      next app outcome active =>
        have gone := total_eraseIdx activeWeight active
        obtain rfl := Option.some.inj h
        simp only [State.left, List.length_append, List.length_singleton]
        simp only [activeWeight, List.length_nil] at gone ⊢
        omega
      next app c rest outcome active =>
        have gone := total_set activeWeight active ⟨app, rest, outcome⟩
        obtain rfl := Option.some.inj h
        simp only [State.left, State.change]
        simp only [activeWeight, List.length_cons] at gone ⊢
        omega
  | collect i =>
      simp only [step?, collect] at h
      split at h
      next outcome queue finished =>
        obtain rfl := Option.some.inj h
        refine Nat.lt_of_le_of_lt (left_enqueueAll crew outcome.children _) ?_
        have gone : (s.finished.eraseIdx i).length + 1 = s.finished.length := by
          have inside := (List.getElem?_eq_some_iff.1 finished).1
          rw [List.length_eraseIdx_of_lt inside]
          omega
        simp only [State.left]
        omega
      · simp at h

/-- The next event of a run that deals with names in the queue first, then with ended
workers, then gives out places, and then lets the oldest worker go on. It is cancelled as
soon as `cancels` says so. -/
def next (maxConcurrent : Nat) (cancels : State σ → Bool) (s : State σ) : Event :=
  if !s.cancelled && cancels s then .cancel
  else if !s.queue.isEmpty then .spawn
  else if !s.finished.isEmpty then .collect 0
  else if !s.waiting.isEmpty && s.active.length < places maxConcurrent then .place 0
  else .advance 0

def finish (crew : Crew) (maxConcurrent : Nat) (host : Host σ) (cancels : State σ → Bool) (s : State σ) : State σ :=
  match _h : step? crew maxConcurrent host (next maxConcurrent cancels s) s with
  | none => s
  | some t => finish crew maxConcurrent host cancels t
termination_by s.left crew
decreasing_by exact left_step crew maxConcurrent host _ _h

end ChangeReport.Run
