import ChangeReport.Run.Work

/-! The summary of a run: how many applications failed, the changes of all others, and a
line for each application for the terminal. -/
namespace ChangeReport.Run

def AppStatus.isFailed : AppStatus → Bool
  | .failed _ => true
  | _ => false

/-- The changes that an application counts for in the totals. -/
def AppStatus.counts : AppStatus → Counts
  | .diffed c => c
  | _ => Counts.zero

def failedCount (outcomes : List AppOutcome) : Nat := (outcomes.filter fun o => o.status.isFailed).length

def totals (outcomes : List AppOutcome) : Counts :=
  outcomes.foldl (fun c o => c.add o.status.counts) Counts.zero

inductive Style where
  | bold
  | dimmed
  | red
  | green
  | yellow
deriving DecidableEq, Repr

def Style.code : Style → String
  | .bold => "1"
  | .dimmed => "2"
  | .red => "31"
  | .green => "32"
  | .yellow => "33"

/-- Text in some styles, or as it is where the terminal has no colours. -/
def styled (color : Bool) (styles : List Style) (s : String) : String :=
  if color then "\x1b[" ++ ";".intercalate (styles.map Style.code) ++ "m" ++ s ++ "\x1b[0m" else s

def summaryLine (color : Bool) (o : AppOutcome) : String :=
  let line (style : Style) (mark text : String) : String :=
    "  " ++ styled color [style] mark ++ " " ++ styled color [.bold] o.name ++ ": " ++ text ++ "\n"
  match o.status with
  | .diffed c => if c.isEmpty then line .green "✓" "no changes" else line .yellow "●" c.render
  | .failed reason => line .red "✗" (styled color [.red] reason)
  | .cancelled => line .dimmed "-" "cancelled"

/-- Outcomes in the order of their names; those of one name stay as they are. -/
def sortedByName (outcomes : List AppOutcome) : List AppOutcome :=
  outcomes.mergeSort fun a b => (Ord.compare a.name b.name).isLE

def terminalText (color : Bool) (outcomes : List AppOutcome) : String :=
  String.join ((sortedByName outcomes).map (summaryLine color))

end ChangeReport.Run
