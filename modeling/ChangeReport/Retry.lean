import ChangeReport.Host.Basic

/-! Repeating a call that fails for a passing reason. The delays between the calls double
up to a bound, and no call is made after the time for all of them is used up. Times are
milliseconds. -/
namespace ChangeReport

structure RetryPolicy where
  initialInterval : Nat
  maxInterval : Nat
  maxElapsed : Nat
deriving DecidableEq, Repr

namespace RetryPolicy

def default : RetryPolicy := ⟨500, 5000, 30000⟩

/-- The largest factor of the first delay. -/
def maxFactor : Nat := Nat.pow 2 32 - 1

/-- The factor of the delay before retry `n`, counted from zero. -/
def factor (n : Nat) : Nat := if n < 32 then Nat.pow 2 n else maxFactor

def backoff (p : RetryPolicy) (n : Nat) : Nat := min (p.initialInterval * factor n) p.maxInterval

def maxAttempts : Nat := Nat.pow 2 32

end RetryPolicy

/-- The outcome of a repeated call: the answer of the last call, the number of calls, and the
delays between them in their order. -/
structure Retried (α : Type) where
  answer : Except HostError α
  calls : Nat
  delays : List Nat

def Retried.slept {α : Type} (r : Retried α) : Nat := r.delays.foldr (· + ·) 0

namespace Retry

variable {σ α : Type}

/-- Makes at most `fuel` more calls, after `calls` calls, `elapsed` milliseconds and the delays
`slept`, the latest first. A call itself takes `took` of its two states; only the delays count as
sleep. -/
def runFrom (policy : RetryPolicy) (call : Call σ α) (took : σ → σ → Nat) :
    Nat → Nat → Nat → List Nat → σ → Retried α × σ
  | 0, calls, _, slept, s =>
      let (r, s) := call s
      (⟨r, calls + 1, slept.reverse⟩, s)
  | fuel + 1, calls, elapsed, slept, s =>
      match call s with
      | (.ok a, t) => (⟨.ok a, calls + 1, slept.reverse⟩, t)
      | (.error e, t) =>
          let now := elapsed + took s t
          let delay := policy.backoff calls
          if !e.isTransient || policy.maxElapsed < now + delay then
            (⟨.error e, calls + 1, slept.reverse⟩, t)
          else runFrom policy call took fuel (calls + 1) (now + delay) (delay :: slept) t

def run (policy : RetryPolicy) (call : Call σ α) (took : σ → σ → Nat) : σ → Retried α × σ :=
  runFrom policy call took (RetryPolicy.maxAttempts - 1) 0 0 []

def instant : σ → σ → Nat := fun _ _ => 0

end Retry

theorem RetryPolicy.backoff_le (p : RetryPolicy) (n : Nat) : p.backoff n ≤ p.maxInterval :=
  Nat.min_le_right _ _

end ChangeReport
