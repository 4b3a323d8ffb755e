import ChangeReport.Proofs.Retry
import Mathlib.Algebra.Ring.Nat

/-! What a repeated call does with the time it has. Its delays are the first ones of the policy, in
their order, and it ends at the first call that is not worth repeating or that there is no time to
repeat. -/
namespace ChangeReport

namespace RetryPolicy

/-! ## Delays -/

theorem factor_mono {m n : Nat} (h : m ≤ n) : factor m ≤ factor n := by
  unfold factor
  split <;> split
  · exact Nat.pow_le_pow_right (by decide) h
  next small _ =>
    have below : Nat.pow 2 m < Nat.pow 2 32 := Nat.pow_lt_pow_right (by decide) small
    exact Nat.le_sub_one_of_lt below
  · omega
  · exact Nat.le_refl _

theorem backoff_mono (p : RetryPolicy) {m n : Nat} (h : m ≤ n) : p.backoff m ≤ p.backoff n := by
  have grown : p.initialInterval * factor m ≤ p.initialInterval * factor n :=
    Nat.mul_le_mul_left _ (factor_mono h)
  rw [backoff, backoff]
  omega

theorem backoff_of_le_31 (p : RetryPolicy) {n : Nat} (h : n ≤ 31) :
    p.backoff n = min (p.initialInterval * 2 ^ n) p.maxInterval := by
  have small : n < 32 := by omega
  rw [backoff, factor, if_pos small, Nat.pow_eq]

/-- A largest delay that the doubling reaches in 32 bits is not seen to come from them. -/
theorem backoff_of_covered {p : RetryPolicy}
    (covered : p.maxInterval ≤ p.initialInterval * (2 ^ 32 - 1)) (n : Nat) :
    p.backoff n = min (p.initialInterval * 2 ^ n) p.maxInterval := by
  by_cases small : n ≤ 31
  · exact p.backoff_of_le_31 small
  · have doubled : 2 ^ 32 - 1 ≤ 2 ^ n :=
      Nat.le_trans (Nat.sub_le _ _) (Nat.pow_le_pow_right (by decide) (by omega))
    have full : p.maxInterval ≤ p.initialInterval * 2 ^ n :=
      Nat.le_trans covered (Nat.mul_le_mul_left _ doubled)
    have most : factor n = 2 ^ 32 - 1 := by
      rw [factor, if_neg (by omega)]
      rfl
    rw [backoff, most, Nat.min_eq_right covered, Nat.min_eq_right full]

/-- The first `n` delays. -/
def delays (p : RetryPolicy) (n : Nat) : List Nat := (List.range n).map p.backoff

theorem sum_delays_succ (p : RetryPolicy) (n : Nat) :
    (p.delays (n + 1)).sum = (p.delays n).sum + p.backoff n := by
  rw [delays, List.range_succ, List.map_append, List.sum_append]
  rfl

theorem pairwise_delays (p : RetryPolicy) (n : Nat) : (p.delays n).Pairwise (· ≤ ·) := by
  rw [delays, List.pairwise_map]
  exact List.pairwise_lt_range.imp fun h => p.backoff_mono (Nat.le_of_lt h)

theorem mem_delays_le (p : RetryPolicy) {n d : Nat} (member : d ∈ p.delays n) :
    d ≤ p.maxInterval := by
  obtain ⟨m, -, rfl⟩ := List.mem_map.1 member
  exact p.backoff_le m

theorem mul_min_le_sum_delays (p : RetryPolicy) (n : Nat) :
    n * min p.initialInterval p.maxInterval ≤ (p.delays n).sum := by
  induction n with
  | zero => exact Nat.le_of_eq (Nat.zero_mul _)
  | succ n ih =>
      have next := p.min_le_backoff n
      rw [Nat.succ_mul, sum_delays_succ]
      omega

end RetryPolicy

namespace Retry

section

variable {σ α : Type} (policy : RetryPolicy) (call : Call σ α) (took : σ → σ → Nat) (s : σ)

/-! ## Calls one after the other -/

/-- The state before call `n`, counted from zero, whether or not the call is made. -/
def stateAt : Nat → σ
  | 0 => s
  | n + 1 => (call (stateAt n)).2

def answerAt (n : Nat) : Except HostError α := (call (stateAt call s n)).1

/-- A call that fails for a passing reason. -/
def Passing (n : Nat) : Prop := ∃ e, answerAt call s n = .error e ∧ e.isTransient = true

/-- The milliseconds before call `n` when every call before it has been followed by its delay. -/
def startedAt : Nat → Nat
  | 0 => 0
  | n + 1 => startedAt n + took (stateAt call s n) (stateAt call s (n + 1)) + policy.backoff n

/-- There is time to repeat call `n`: its delay ends before the time is used up. -/
def InTime (n : Nat) : Prop := startedAt policy call took s (n + 1) ≤ policy.maxElapsed

instance (n : Nat) : Decidable (InTime policy call took s n) :=
  inferInstanceAs (Decidable (startedAt policy call took s (n + 1) ≤ policy.maxElapsed))

end

variable {σ α : Type} {policy : RetryPolicy} {call : Call σ α} {took : σ → σ → Nat} {s : σ}

/-! ## How a repeated call ends -/

/-- The delays of a repeated call go on as the policy has them, with one after each call but the
last. -/
theorem runFrom_delays (fuel n elapsed : Nat) (slept : List Nat) (s : σ) :
    ∃ retries, (runFrom policy call took fuel n elapsed slept s).1.calls = n + retries + 1 ∧
      (runFrom policy call took fuel n elapsed slept s).1.delays =
        slept.reverse ++ (List.range' n retries).map policy.backoff := by
  induction fuel using Nat.strongRecOn generalizing n elapsed slept s with
  | ind fuel ih =>
      rcases made : call s with ⟨answer, t⟩
      rcases stops_or_repeated policy fuel n (elapsed + took s t) answer with
        stops | ⟨left, e, rfl, rfl, transient, early⟩
      · rw [runFrom_of_stops made stops]
        exact ⟨0, rfl, (List.append_nil _).symm⟩
      · obtain ⟨retries, calls, delays⟩ := ih left (Nat.lt_succ_self left) (n + 1)
          (elapsed + took s t + policy.backoff n) (policy.backoff n :: slept) t
        rw [runFrom_of_repeated made transient early, calls, delays]
        refine ⟨retries + 1, by omega, ?_⟩
        rw [List.range'_succ, List.map_cons, List.reverse_cons, List.append_assoc]
        rfl

/-- A repeated call that comes to an end of its own makes all calls up to the first one that is not
worth repeating or that there is no time to repeat, and gives the answer of that one. -/
theorem Ends.exists_last {n elapsed : Nat} {slept : List Nat} {u t : σ} {result : Retried α}
    (h : Ends policy call took n elapsed slept u result t) (here : u = stateAt call s n)
    (now : elapsed = startedAt policy call took s n) :
    ∃ last, n ≤ last ∧ result.calls = last + 1 ∧ result.answer = answerAt call s last ∧
      (∀ m, n ≤ m → m < last → Passing call s m ∧ InTime policy call took s m) ∧
      ¬ (Passing call s last ∧ InTime policy call took s last) := by
  have told : ∀ {n a v}, call (stateAt call s n) = (a, v) →
      answerAt call s n = a ∧ stateAt call s (n + 1) = v := by
    intro n a v answer
    rw [answerAt, stateAt, answer]
    exact ⟨rfl, rfl⟩
  induction h with
  | @answered n elapsed slept u a t answer =>
      subst here
      refine ⟨n, Nat.le_refl _, rfl, (told answer).1.symm, fun m _ _ => by omega, ?_⟩
      rintro ⟨⟨e, failed, -⟩, -⟩
      cases (told answer).1.symm.trans failed
  | @refused n elapsed slept u e t answer permanent =>
      subst here
      refine ⟨n, Nat.le_refl _, rfl, (told answer).1.symm, fun m _ _ => by omega, ?_⟩
      rintro ⟨⟨f, failed, transient⟩, -⟩
      obtain rfl : e = f := Except.error.inj ((told answer).1.symm.trans failed)
      exact absurd (permanent.symm.trans transient) (by decide)
  | @exhausted n elapsed slept u e t answer transient late =>
      subst here now
      refine ⟨n, Nat.le_refl _, rfl, (told answer).1.symm, fun m _ _ => by omega, ?_⟩
      rintro ⟨-, early⟩
      rw [InTime, startedAt, (told answer).2] at early
      omega
  | @repeated n elapsed slept u e t result v answer transient early counted rest ih =>
      subst here now
      obtain ⟨same, next⟩ := told answer
      obtain ⟨last, after, calls, final, before, stop⟩ :=
        ih next.symm (by rw [startedAt, next])
      refine ⟨last, by omega, calls, final, fun m from_n below => ?_, stop⟩
      by_cases first : m = n
      · subst first
        refine ⟨⟨e, same, transient⟩, ?_⟩
        rw [InTime, startedAt, next]
        exact early
      · exact before m (by omega) below

/-- The last call: all before it are repeated, and it is not. -/
structure IsLast (policy : RetryPolicy) (call : Call σ α) (took : σ → σ → Nat) (s : σ) (n : Nat) :
    Prop where
  repeated : ∀ m < n, Passing call s m ∧ InTime policy call took s m
  stops : ¬ (Passing call s n ∧ InTime policy call took s n)

theorem IsLast.eq {m n : Nat} (hm : IsLast policy call took s m) (hn : IsLast policy call took s n) :
    m = n := by
  rcases Nat.lt_trichotomy m n with below | same | above
  · exact absurd (hn.repeated m below) hm.stops
  · exact same
  · exact absurd (hm.repeated n above) hn.stops

theorem exists_isLast (paced : policy.Paced) (call : Call σ α) (took : σ → σ → Nat) (s : σ) :
    ∃ last, IsLast policy call took s last ∧ (run policy call took s).1.calls = last + 1 ∧
      (run policy call took s).1.answer = answerAt call s last ∧
      (run policy call took s).1.delays = policy.delays last := by
  obtain ⟨last, -, calls, answer, before, stop⟩ :=
    (ends_run paced call took s).exists_last rfl rfl
  obtain ⟨retries, counted, delays⟩ :=
    @runFrom_delays σ α policy call took (RetryPolicy.maxAttempts - 1) 0 0 [] s
  rw [← run] at counted delays
  obtain rfl : last = retries := by omega
  refine ⟨last, ⟨fun m below => before m (Nat.zero_le m) below, stop⟩, calls, answer, ?_⟩
  rw [delays, RetryPolicy.delays, List.range_eq_range']
  rfl

/-! ## Time -/

theorem sum_delays_le_startedAt (n : Nat) :
    (policy.delays n).sum ≤ startedAt policy call took s n := by
  induction n with
  | zero => exact Nat.le_refl 0
  | succ n ih =>
      rw [RetryPolicy.sum_delays_succ, startedAt]
      omega

theorem startedAt_instant (n : Nat) :
    startedAt policy call instant s n = (policy.delays n).sum := by
  induction n with
  | zero => rfl
  | succ n ih => rw [RetryPolicy.sum_delays_succ, startedAt, ih, instant, Nat.add_zero]

theorem IsLast.sum_delays_le {n : Nat} (h : IsLast policy call took s n) :
    (policy.delays n).sum ≤ policy.maxElapsed := by
  cases n with
  | zero => exact Nat.zero_le _
  | succ n => exact Nat.le_trans (sum_delays_le_startedAt _) (h.repeated n (Nat.lt_succ_self n)).2

/-- A repeated call ends, repeats nothing but calls that fail for passing reasons, and sleeps the
first delays of the policy, all of them in the time that it has. It has the answer of the first call
that is not worth repeating, if that one comes in time, and otherwise the last passing failure. -/
structure KeepsBudget (policy : RetryPolicy) (call : Call σ α) (took : σ → σ → Nat) (s : σ)
    (result : Retried α) : Prop where
  ends : ∃ t, Ends policy call took 0 0 [] s result t
  repeats : ∀ n, n + 1 < result.calls → Passing call s n
  answer : 1 ≤ result.calls ∧ result.answer = answerAt call s (result.calls - 1)
  settled : ∀ n, (∀ m < n, Passing call s m ∧ InTime policy call took s m) →
    ¬ Passing call s n → result.calls = n + 1
  spent : (∀ n, (∀ m < n, Passing call s m ∧ InTime policy call took s m) → Passing call s n) →
    Passing call s (result.calls - 1) ∧ ¬ InTime policy call took s (result.calls - 1)
  delays_eq : result.delays = (List.range (result.calls - 1)).map policy.backoff
  slept_eq : result.slept = ((List.range (result.calls - 1)).map policy.backoff).sum
  ascending : result.delays.Pairwise (· ≤ ·)
  delay_le : ∀ d ∈ result.delays, d ≤ policy.maxInterval
  slept_le : result.slept ≤ policy.maxElapsed
  calls_le : result.calls ≤
    1 + policy.maxElapsed / min policy.initialInterval policy.maxInterval

theorem keepsBudget_run (paced : policy.Paced) (call : Call σ α) (took : σ → σ → Nat) (s : σ) :
    KeepsBudget policy call took s (run policy call took s).1 := by
  obtain ⟨last, isLast, calls, answer, delays⟩ := exists_isLast paced call took s
  have slept : (run policy call took s).1.slept = (policy.delays last).sum :=
    congrArg List.sum delays
  have before : (run policy call took s).1.calls - 1 = last := by omega
  have step : 1 ≤ min policy.initialInterval policy.maxInterval :=
    Nat.le_min.2 ⟨paced.initial, paced.maximal⟩
  have used : last * min policy.initialInterval policy.maxInterval ≤ policy.maxElapsed :=
    Nat.le_trans (policy.mul_min_le_sum_delays last) isLast.sum_delays_le
  have fits := (Nat.le_div_iff_mul_le step).2 used
  exact {
    ends := ⟨_, ends_run paced call took s⟩
    repeats := fun n below => (isLast.repeated n (by omega)).1
    answer := ⟨by omega, by rw [before, answer]⟩
    settled := fun n repeated permanent => by
      have own : IsLast policy call took s n := ⟨repeated, fun both => permanent both.1⟩
      rw [calls, isLast.eq own]
    spent := fun passing => by
      have own := passing last isLast.repeated
      rw [before]
      exact ⟨own, fun early => isLast.stops ⟨own, early⟩⟩
    delays_eq := by rw [delays, before, RetryPolicy.delays]
    slept_eq := by rw [slept, before, RetryPolicy.delays]
    ascending := delays ▸ policy.pairwise_delays last
    delay_le := fun d member => policy.mem_delays_le (delays ▸ member)
    slept_le := slept ▸ isLast.sum_delays_le
    calls_le := by omega }

/-- A repeated call that is given up after `n` calls, all of which failed for passing reasons. -/
def GivenUpAt (result : Retried α) (n : Nat) : Prop :=
  result.calls = n ∧ ∃ e, result.answer = .error e ∧ e.isTransient = true

theorem inTime_instant_iff (n : Nat) :
    InTime policy call instant s n ↔ (policy.delays (n + 1)).sum ≤ policy.maxElapsed := by
  rw [InTime, startedAt_instant]

/-- When only the delays take time, a call is given up as soon as the delays, with the one that
would follow, exceed the time for all of them. -/
theorem givenUpAt_iff (paced : policy.Paced) (call : Call σ α) (s : σ) (n : Nat) :
    GivenUpAt (run policy call instant s).1 n ↔
      (∀ m < n, Passing call s m) ∧ policy.maxElapsed < (policy.delays n).sum ∧
        ∀ m < n, (policy.delays m).sum ≤ policy.maxElapsed := by
  obtain ⟨last, isLast, calls, answer, -⟩ := exists_isLast paced call instant s
  constructor
  · rintro ⟨rfl, e, failed, transient⟩
    have own : Passing call s last := ⟨e, answer.symm.trans failed, transient⟩
    rw [calls]
    refine ⟨fun m below => ?_, ?_, fun m below => ?_⟩
    · rcases Nat.lt_succ_iff_lt_or_eq.1 below with earlier | rfl
      · exact (isLast.repeated m earlier).1
      · exact own
    · exact Nat.lt_of_not_le fun early => isLast.stops ⟨own, (inTime_instant_iff last).2 early⟩
    · cases m with
      | zero => exact Nat.zero_le _
      | succ m => exact (inTime_instant_iff m).1 (isLast.repeated m (by omega)).2
  · rintro ⟨passing, late, early⟩
    cases n with
    | zero => exact absurd late (Nat.not_lt_zero _)
    | succ n =>
        have own : IsLast policy call instant s n := {
          repeated := fun m below =>
            ⟨passing m (by omega), (inTime_instant_iff m).2 (early (m + 1) (by omega))⟩
          stops := fun both => Nat.not_le.2 late ((inTime_instant_iff n).1 both.2) }
        obtain rfl := isLast.eq own
        obtain ⟨e, failed, transient⟩ := passing last (Nat.lt_succ_self last)
        exact ⟨calls, e, answer.trans failed, transient⟩

/-- Repeated calls keep to their policy. Whatever a call answers and however long it takes, its
retries end, with the delays of the policy and within its time, and when only the delays take time
it is given up exactly when they exceed it. The delays double until they reach the largest one, for
the first 32 of them, or for all of them if 32 bits are enough to reach it. -/
theorem run_keeps_budget (policy : RetryPolicy) :
    (policy.Paced → ∀ {σ α : Type} (call : Call σ α) (s : σ),
      (∀ took, KeepsBudget policy call took s (run policy call took s).1) ∧
      ∀ n, GivenUpAt (run policy call instant s).1 n ↔
        (∀ m < n, Passing call s m) ∧
          policy.maxElapsed < ((List.range n).map policy.backoff).sum ∧
          ∀ m < n, ((List.range m).map policy.backoff).sum ≤ policy.maxElapsed) ∧
    (∀ n ≤ 31, policy.backoff n = min (policy.initialInterval * 2 ^ n) policy.maxInterval) ∧
    (policy.maxInterval ≤ policy.initialInterval * (2 ^ 32 - 1) →
      ∀ n, policy.backoff n = min (policy.initialInterval * 2 ^ n) policy.maxInterval) :=
  ⟨fun paced _ _ call s => ⟨fun took => keepsBudget_run paced call took s, givenUpAt_iff paced call s⟩,
    fun _ small => policy.backoff_of_le_31 small, fun covered n => policy.backoff_of_covered covered n⟩

/-- A call with the given answers, one after the other. -/
def answering (answers : Nat → Except HostError α) : Call Nat α := fun n => (answers n, n + 1)

theorem answerAt_answering (answers : Nat → Except HostError α) (n : Nat) :
    answerAt (answering answers) 0 n = answers n := by
  have place : stateAt (answering answers) 0 n = n := by
    induction n with
    | zero => rfl
    | succ n ih => rw [stateAt, ih]; rfl
  rw [answerAt, place]
  rfl

def flaky (n : Nat) : Except HostError String :=
  if n < 2 then .error (.server 502) else .ok "done"

/-- Calls of a quarter of a second that succeed at the third attempt, and calls that never do. -/
theorem run_keeps_budget_of_flaky :
    RetryPolicy.default.Paced ∧
      (run .default (answering flaky) (fun _ _ => 250) 0).1.calls = 3 ∧
      (run .default (answering flaky) (fun _ _ => 250) 0).1.answer = .ok "done" ∧
      (run .default (answering flaky) (fun _ _ => 250) 0).1.delays = [500, 1000] ∧
      GivenUpAt (run .default (answering fun _ => (.error .rateLimited : Except HostError String))
        instant 0).1 9 ∧
      ∀ n, RetryPolicy.default.backoff n = min (500 * 2 ^ n) 5000 := by
  have paced : RetryPolicy.default.Paced := ⟨by decide, by decide, by decide⟩
  obtain ⟨kept, -, doubled⟩ := run_keeps_budget .default
  have keeps := (kept paced (answering flaky) 0).1 fun _ _ => 250
  have fails : ∀ m < 2, Passing (answering flaky) 0 m := fun m below =>
    ⟨.server 502, by rw [answerAt_answering, flaky, if_pos below], rfl⟩
  have early : ∀ m < 2, InTime .default (answering flaky) (fun _ _ => 250) 0 m := by decide
  have done : ¬ Passing (answering flaky) 0 2 := by
    rintro ⟨e, failed, -⟩
    cases (answerAt_answering flaky 2).symm.trans failed
  have calls := keeps.settled 2 (fun m below => ⟨fails m below, early m below⟩) done
  refine ⟨paced, calls, ?_, ?_, ?_, doubled (by decide)⟩
  · rw [keeps.answer.2, calls, answerAt_answering]
    rfl
  · rw [keeps.delays_eq, calls]
    decide
  · refine ((kept paced (answering fun _ => .error .rateLimited) 0).2 9).2 ⟨fun m _ => ?_, ?_⟩
    · exact ⟨.rateLimited, answerAt_answering _ m, rfl⟩
    · decide

end Retry
end ChangeReport
