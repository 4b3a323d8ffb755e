import ChangeReport.Run.Work

/-! A run in steps. Names wait in a queue, workers wait for a place, workers with a place
change the report one change at a time, and ended workers are collected. Which step comes
next is open: every order of events that the rules allow is a run, and every run ends,
because each step lessens what is left to do. -/
namespace ChangeReport.Run

/-- A worker that has a place, with the changes it has still to make. -/
structure Active where
  app : String
  rest : List Report.Change
  outcome : AppOutcome
deriving DecidableEq, Repr

/-- A run under way: `queue` holds names without a worker, `waiting` those whose worker
has no place yet, `finished` the outcomes of ended workers and `outcomes` those that are
collected. -/
structure State (σ : Type) where
  message : Report.Message
  host : σ
  cancelled : Bool
  seen : List String
  queue : List String
  waiting : List String
  active : List Active
  finished : List AppOutcome
  outcomes : List AppOutcome

/-- A step of a run. A number picks one of several workers. -/
inductive Event where
  | cancel
  | spawn
  | place (i : Nat)
  | advance (i : Nat)
  | collect (i : Nat)
deriving DecidableEq, Repr

namespace State

variable {σ : Type}

/-- Makes changes of the report. A host that does not take them stops nothing. -/
def change (host : Host σ) (changes : List Report.Change) (s : State σ) : State σ :=
  let made := s.message.changeAll host changes s.host
  { s with message := made.1, host := made.2 }

/-- Queues an application that is new and that the source has. -/
def enqueue (crew : Crew) (s : State σ) (app : String) : State σ :=
  if !s.seen.contains app && crew.source.knows app then
    { s with seen := app :: s.seen, queue := s.queue ++ [app] }
  else s

def enqueueAll (crew : Crew) (s : State σ) (apps : List String) : State σ := apps.foldl (enqueue crew) s

/-- The start of a run on applications; each name counts once. -/
def start (message : Report.Message) (host : σ) (cancelled : Bool) (apps : List String) : State σ :=
  let names := apps.foldl (fun seen app => if seen.contains app then seen else seen ++ [app]) []
  ⟨message, host, cancelled, names, names, [], [], [], []⟩

end State

variable {σ : Type}

/-- At least one worker may have a place. -/
def places (maxConcurrent : Nat) : Nat := max 1 maxConcurrent

def spawn (host : Host σ) (s : State σ) : Option (State σ) :=
  match s.queue with
  | [] => none
  | app :: rest =>
      if s.cancelled then
        let work := cancelledWork app
        some { s.change host work.changes with queue := rest, outcomes := s.outcomes ++ [work.outcome] }
      else some { s with queue := rest, waiting := s.waiting ++ [app] }

/-- Gives a place to a waiting worker; in a cancelled run it ends at once. -/
def place (crew : Crew) (maxConcurrent : Nat) (host : Host σ) (i : Nat) (s : State σ) : Option (State σ) :=
  match s.waiting[i]? with
  | none => none
  | some app =>
      if s.active.length < places maxConcurrent then
        if s.cancelled then
          let work := cancelledWork app
          some { s.change host work.changes with
            waiting := s.waiting.eraseIdx i, finished := s.finished ++ [work.outcome] }
        else
          let work := crew.work app
          some { s with waiting := s.waiting.eraseIdx i, active := s.active ++ [⟨app, work.changes, work.outcome⟩] }
      else none

/-- Lets a worker make its next change, or end after the last one. -/
def advance (host : Host σ) (i : Nat) (s : State σ) : Option (State σ) :=
  match s.active[i]? with
  | none => none
  | some ⟨_, [], outcome⟩ => some { s with active := s.active.eraseIdx i, finished := s.finished ++ [outcome] }
  | some ⟨app, c :: rest, outcome⟩ =>
      some { s.change host [c] with active := s.active.set i ⟨app, rest, outcome⟩ }

/-- Collects the outcome of an ended worker and queues the applications it has found. No
outcome is collected while names are in the queue. -/
def collect (crew : Crew) (i : Nat) (s : State σ) : Option (State σ) :=
  match s.queue, s.finished[i]? with
  | [], some outcome =>
      some (State.enqueueAll crew { s with finished := s.finished.eraseIdx i, outcomes := s.outcomes ++ [outcome] }
        outcome.children)
  | _, _ => none

def step? (crew : Crew) (maxConcurrent : Nat) (host : Host σ) : Event → State σ → Option (State σ)
  | .cancel, s => if s.cancelled then none else some { s with cancelled := true }
  | .spawn, s => spawn host s
  | .place i, s => place crew maxConcurrent host i s
  | .advance i, s => advance host i s
  | .collect i, s => collect crew i s

end ChangeReport.Run
