import ChangeReport.Proofs.Host.Trace
import ChangeReport.Retry

/-! Repeated calls end. Each delay uses up some of the time for all of them, so a call that keeps
failing is given up before the number of its retries has no place in a counter of 32 bits. -/
namespace ChangeReport

namespace RetryPolicy

/-- The delays are not empty, and those that a counter of 32 bits can tell apart use up the time. -/
structure Paced (p : RetryPolicy) : Prop where
  initial : 1 ≤ p.initialInterval
  maximal : 1 ≤ p.maxInterval
  elapsed : p.maxElapsed < maxAttempts * min p.initialInterval p.maxInterval

theorem one_le_factor (n : Nat) : 1 ≤ factor n := by
  unfold factor
  split
  · exact Nat.one_le_two_pow
  · exact Nat.le_of_ble_eq_true rfl

theorem min_le_backoff (p : RetryPolicy) (n : Nat) :
    min p.initialInterval p.maxInterval ≤ p.backoff n := by
  have grown : p.initialInterval ≤ p.initialInterval * factor n :=
    Nat.le_mul_of_pos_right _ (one_le_factor n)
  rw [backoff]
  omega

end RetryPolicy

namespace Retry

variable {σ α : Type}

/-- A call that is not repeated, `now` milliseconds after the start and with `fuel` retries left: it
is answered, it fails for good, or there is no time or no retry left. -/
inductive Stops (policy : RetryPolicy) (fuel n now : Nat) : Except HostError α → Prop
  | answered (a : α) : Stops policy fuel n now (.ok a)
  | refused {e} (permanent : e.isTransient = false) : Stops policy fuel n now (.error e)
  | exhausted {e} (transient : e.isTransient = true)
      (late : policy.maxElapsed < now + policy.backoff n) : Stops policy fuel n now (.error e)
  | spent {e} (transient : e.isTransient = true) (none : fuel = 0) : Stops policy fuel n now (.error e)

theorem stops_or_repeated (policy : RetryPolicy) (fuel n now : Nat) (answer : Except HostError α) :
    Stops policy fuel n now answer ∨
      ∃ left e, fuel = left + 1 ∧ answer = .error e ∧ e.isTransient = true ∧
        now + policy.backoff n ≤ policy.maxElapsed := by
  cases answer with
  | ok a => exact .inl (.answered a)
  | error e =>
      cases transient : e.isTransient with
      | false => exact .inl (.refused transient)
      | true =>
          cases fuel with
          | zero => exact .inl (.spent transient rfl)
          | succ left =>
              rcases Nat.lt_or_ge policy.maxElapsed (now + policy.backoff n) with late | early
              · exact .inl (.exhausted transient late)
              · exact .inr ⟨left, e, rfl, rfl, transient, early⟩

section
variable {policy : RetryPolicy} {call : Call σ α} {took : σ → σ → Nat} {fuel n elapsed : Nat}
  {s t : σ}

theorem runFrom_of_stops {answer : Except HostError α} (made : call s = (answer, t))
    (stops : Stops policy fuel n (elapsed + took s t) answer) (slept : List Nat) :
    runFrom policy call took fuel n elapsed slept s = (⟨answer, n + 1, slept.reverse⟩, t) := by
  cases fuel with
  | zero => simp only [runFrom, made]
  | succ fuel =>
      cases stops with
      | answered a => simp only [runFrom, made]
      | refused permanent => simp [runFrom, made, permanent]
      | exhausted transient late => simp [runFrom, made, late]
      | spent transient none => cases none

theorem runFrom_of_repeated {e : HostError} (made : call s = (.error e, t))
    (transient : e.isTransient = true)
    (early : elapsed + took s t + policy.backoff n ≤ policy.maxElapsed) (slept : List Nat) :
    runFrom policy call took (fuel + 1) n elapsed slept s =
      runFrom policy call took fuel (n + 1) (elapsed + took s t + policy.backoff n)
        (policy.backoff n :: slept) t := by
  simp [runFrom, made, transient, Nat.not_lt.2 early]

theorem run_of_ok {a : α} (answer : call s = (.ok a, t)) (policy : RetryPolicy)
    (took : σ → σ → Nat) : run policy call took s = (⟨.ok a, 1, []⟩, t) := by
  rw [run]
  exact runFrom_of_stops answer (.answered a) []

end

/-- How a repeated call ends, with no bound on the number of its retries: retry `n` after `elapsed`
milliseconds and the delays `slept` is the last one, or it fails for a passing reason and there is
time for another one. -/
inductive Ends (policy : RetryPolicy) (call : Call σ α) (took : σ → σ → Nat) :
    Nat → Nat → List Nat → σ → Retried α → σ → Prop
  | answered {n elapsed slept s a t} (answer : call s = (.ok a, t)) :
      Ends policy call took n elapsed slept s ⟨.ok a, n + 1, slept.reverse⟩ t
  | refused {n elapsed slept s e t} (answer : call s = (.error e, t))
      (permanent : e.isTransient = false) :
      Ends policy call took n elapsed slept s ⟨.error e, n + 1, slept.reverse⟩ t
  | exhausted {n elapsed slept s e t} (answer : call s = (.error e, t))
      (transient : e.isTransient = true)
      (late : policy.maxElapsed < elapsed + took s t + policy.backoff n) :
      Ends policy call took n elapsed slept s ⟨.error e, n + 1, slept.reverse⟩ t
  | repeated {n elapsed slept s e t result u} (answer : call s = (.error e, t))
      (transient : e.isTransient = true)
      (early : elapsed + took s t + policy.backoff n ≤ policy.maxElapsed)
      (counted : n + 1 < RetryPolicy.maxAttempts)
      (rest : Ends policy call took (n + 1) (elapsed + took s t + policy.backoff n)
        (policy.backoff n :: slept) t result u) :
      Ends policy call took n elapsed slept s result u

/-- A call whose retries all fit into the counter comes to an end of its own: every delay takes at
least `step`, and there is no time for more of them than can be counted. -/
theorem ends_runFrom {policy : RetryPolicy} {step : Nat} (delay : ∀ n, step ≤ policy.backoff n)
    (call : Call σ α) (took : σ → σ → Nat) {fuel n : Nat}
    (counted : n + fuel < RetryPolicy.maxAttempts) {elapsed : Nat} (used : n * step ≤ elapsed)
    (enough : policy.maxElapsed < (n + fuel + 1) * step) (slept : List Nat) (s : σ) :
    Ends policy call took n elapsed slept s
      (runFrom policy call took fuel n elapsed slept s).1
      (runFrom policy call took fuel n elapsed slept s).2 := by
  induction fuel using Nat.strongRecOn generalizing n elapsed slept s with
  | ind fuel ih =>
      rcases made : call s with ⟨answer, t⟩
      rcases stops_or_repeated policy fuel n (elapsed + took s t) answer with
        stops | ⟨left, e, rfl, rfl, transient, early⟩
      · rw [runFrom_of_stops made stops]
        have next := delay n
        cases stops with
        | answered a => exact .answered made
        | refused permanent => exact .refused made permanent
        | exhausted transient late => exact .exhausted made transient late
        | spent transient none =>
            -- the delays before the last retry that can be counted have used up the time
            rw [none, Nat.add_zero, Nat.succ_mul] at enough
            exact .exhausted made transient (by omega)
      · have next := delay n
        have more : (n + 1) * step ≤ elapsed + took s t + policy.backoff n := by
          rw [Nat.succ_mul]
          omega
        have place : n + (left + 1) + 1 = n + 1 + left + 1 := by omega
        rw [runFrom_of_repeated made transient early]
        exact .repeated made transient early (by omega)
          (ih left (Nat.lt_succ_self left) (by omega) more (place ▸ enough) _ t)

theorem ends_run {policy : RetryPolicy} (paced : policy.Paced) (call : Call σ α)
    (took : σ → σ → Nat) (s : σ) :
    Ends policy call took 0 0 [] s (run policy call took s).1 (run policy call took s).2 := by
  have some : 1 ≤ RetryPolicy.maxAttempts := Nat.one_le_two_pow
  refine ends_runFrom policy.min_le_backoff call took (by omega)
    (Nat.le_of_eq (Nat.zero_mul _)) ?_ [] s
  have all : 0 + (RetryPolicy.maxAttempts - 1) + 1 = RetryPolicy.maxAttempts := by omega
  rw [all]
  exact paced.elapsed

open Host

/-- A repeated call that is recorded goes as it does without, and leaves its attempts: all but the
last one failed for passing reasons, and the last one has the answer. -/
theorem exists_attemptsFrom (policy : RetryPolicy) (call : Call σ α) (took : σ → σ → Nat)
    (event : Except HostError α → Event) (fuel n elapsed : Nat) (slept : List Nat) (s : σ) :
    ∃ (faults : List HostError) (result : Retried α) (t : σ),
      (∀ e ∈ faults, e.isTransient = true) ∧
      runFrom policy call took fuel n elapsed slept s = (result, t) ∧
      ∀ before, runFrom policy (noting event call) (fun a b => took a.state b.state) fuel n elapsed
          slept ⟨s, before⟩ =
        (result, ⟨t, before ++ (faults.map (fun e => event (.error e)) ++ [event result.answer])⟩) := by
  induction fuel using Nat.strongRecOn generalizing n elapsed slept s with
  | ind fuel ih =>
      rcases made : call s with ⟨answer, t⟩
      have noted := fun before => noting_eq event made before
      rcases stops_or_repeated policy fuel n (elapsed + took s t) answer with
        stops | ⟨left, e, rfl, rfl, transient, early⟩
      · exact ⟨[], _, t, List.forall_mem_nil _, runFrom_of_stops made stops slept,
          fun before => runFrom_of_stops (noted before) stops slept⟩
      · obtain ⟨faults, result, u, passing, plain, recorded⟩ := ih left (Nat.lt_succ_self left)
          (n + 1) (elapsed + took s t + policy.backoff n) (policy.backoff n :: slept) t
        refine ⟨e :: faults, result, u, List.forall_mem_cons.2 ⟨transient, passing⟩, ?_,
          fun before => ?_⟩
        · rw [runFrom_of_repeated made transient early, plain]
        · rw [runFrom_of_repeated (noted before) transient early, recorded, List.append_assoc]
          rfl

theorem exists_attempts (policy : RetryPolicy) (call : Call σ α) (took : σ → σ → Nat)
    (event : Except HostError α → Event) (s : σ) :
    ∃ (faults : List HostError) (result : Retried α) (t : σ),
      (∀ e ∈ faults, e.isTransient = true) ∧ run policy call took s = (result, t) ∧
      ∀ before, run policy (noting event call) (fun a b => took a.state b.state) ⟨s, before⟩ =
        (result, ⟨t, before ++ (faults.map (fun e => event (.error e)) ++ [event result.answer])⟩) := by
  simp only [run]
  exact exists_attemptsFrom policy call took event _ 0 0 [] s

end Retry
end ChangeReport
