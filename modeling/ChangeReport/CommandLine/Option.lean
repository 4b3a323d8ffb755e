import ChangeReport.Conversation
import ChangeReport.Environment
import ChangeReport.Text.Split

/-! Options on a command line, by the rules of one command. An option that takes a value
has it behind `=` or in the next word; a value is only looked at when the next option
begins or the line ends. -/
namespace ChangeReport.CommandLine

/-- What an option stands for: nothing more, a value of some kind, or a request to print
and end. -/
inductive OptionKind where
  | flag
  | text
  | path
  | number
  | mode
  | help
  | version
deriving DecidableEq, Repr

def OptionKind.takesValue : OptionKind → Bool
  | .text | .path | .number | .mode => true
  | _ => false

/-- An option of a command. Only one that repeats may be given twice; `fallback` names the
environment variable that stands in for it. -/
structure OptionSpec where
  name : String
  short : Option Char
  kind : OptionKind
  repeats : Bool
  required : Bool
  fallback : Option String
deriving DecidableEq, Repr

namespace OptionSpec

def flag (name : String) (short : Option Char) : OptionSpec := ⟨name, short, .flag, false, false, none⟩

def optional (name : String) (kind : OptionKind) : OptionSpec := ⟨name, none, kind, false, false, none⟩

def needed (name : String) (kind : OptionKind) (fallback : Option String) : OptionSpec :=
  ⟨name, none, kind, false, true, fallback⟩

def repeated (name : String) (kind : OptionKind) : OptionSpec := ⟨name, none, kind, true, false, none⟩

end OptionSpec

/-- Why a command line has no meaning, or what it asks to print instead. -/
inductive UsageError where
  | unknownArgument
  | missingRequiredArgument
  | missingSubcommand
  | invalidSubcommand
  | invalidValue
  | valueValidation
  | argumentConflict
  | tooManyValues
  | displayHelp
  | displayVersion
  | displayHelpOnMissing
deriving DecidableEq, Repr

/-- Help and version are no failures. -/
def UsageError.exitCode : UsageError → Nat
  | .displayHelp | .displayVersion => 0
  | _ => 2

inductive Value where
  | given
  | text (s : String)
  | number (n : Nat)
  | mode (m : TidyMode)
deriving DecidableEq, Repr

/-- Numbers have 64 bits; a plus sign may stand before them. -/
def number? (s : String) : Option Nat :=
  let ds := match s.toList with
    | '+' :: rest => rest
    | cs => cs
  if ds.isEmpty || !ds.all Char.isDigit then none
  else
    let n := ds.foldl (fun n c => n * 10 + (c.toNat - '0'.toNat)) 0
    if n < Nat.pow 2 64 then some n else none

def modeOf? (s : String) : Option TidyMode := [TidyMode.delete, .hide].find? fun m => m.name == s

def OptionKind.read (kind : OptionKind) (s : String) : Except UsageError Value :=
  match kind with
  | .number => match number? s with
    | some n => .ok (.number n)
    | none => .error .valueValidation
  | .mode => match modeOf? s with
    | some m => .ok (.mode m)
    | none => .error .invalidValue
  | .path => if s = "" then .error .invalidValue else .ok (.text s)
  | _ => .ok (.text s)

/-- The options found so far in order, and one that is still open: it waits for its value,
or has it. -/
structure Found where
  values : List (String × Value)
  pending : Option (OptionSpec × Option String)

namespace Found

def empty : Found := ⟨[], none⟩

def has (f : Found) (name : String) : Bool := f.values.any fun v => v.1 == name

/-- Adds an option, once unless it repeats. -/
def add (f : Found) (o : OptionSpec) (v : Except UsageError Value) : Except UsageError Found :=
  if !o.repeats && f.has o.name then .error .argumentConflict
  else v.map fun v => { f with values := f.values ++ [(o.name, v)] }

def settle (f : Found) : Except UsageError Found :=
  match f.pending with
  | none => .ok f
  | some (_, none) => .error .invalidValue
  | some (o, some s) => { f with pending := none }.add o (o.kind.read s)

def isWaiting (f : Found) : Bool := f.pending matches some (_, none)

def give (f : Found) (s : String) : Option Found :=
  match f.pending with
  | some (o, none) => some { f with pending := some (o, some s) }
  | _ => none

/-- Begins an option that was named, after the open one is settled. -/
def start (f : Found) (o : OptionSpec) (attached : Option String) : Except UsageError Found :=
  if o.kind.takesValue then
    match attached with
    | some s => do (← f.settle).add o (o.kind.read s)
    | none => do return { ← f.settle with pending := some (o, none) }
  else if attached.isSome then .error .tooManyValues
  else do
    let f ← f.settle
    match o.kind with
    | .help => .error .displayHelp
    | .version => .error .displayVersion
    | _ => f.add o (.ok .given)

end Found

structure Level where
  options : List OptionSpec
  commands : List String

namespace Level

/-- Letters in one word, each an option. -/
def shorts (level : Level) : List Char → Found → Except UsageError Found
  | [], f => .ok f
  | c :: rest, f =>
      match level.options.find? fun o => o.short == some c with
      | none => .error .unknownArgument
      | some o => do shorts level rest (← f.start o none)

/-- The name in a word that begins with two dashes, and the value behind `=`. -/
def splitLong (cs : List Char) : String × Option String :=
  match Text.cutChars? '=' cs with
  | some (name, value) => (String.ofList name, some (String.ofList value))
  | none => (String.ofList cs, none)

def long (level : Level) (cs : List Char) (f : Found) : Except UsageError Found :=
  let (name, value) := splitLong cs
  match level.options.find? fun o => o.name == name with
  | none => .error .unknownArgument
  | some o => f.start o value

/-- The error of a word that belongs to nothing; `closed` says that options had ended. -/
def stray (level : Level) (closed : Bool) (word : String) : UsageError :=
  if level.commands.isEmpty || (closed && level.commands.contains word) then .unknownArgument
  else .invalidSubcommand

/-- Reads words up to the name of a command below: the options found, and that name with
the words after it. -/
def scan (level : Level) (closed : Bool) : List String → Found → Except UsageError (Found × Option (String × List String))
  | [], f => .ok (f, none)
  | word :: rest, f =>
      if closed then .error (level.stray true word)
      else if !f.isWaiting && level.commands.contains word then .ok (f, some (word, rest))
      else
        match word.toList with
        | ['-', '-'] => scan level true rest f
        | '-' :: '-' :: cs => do scan level false rest (← level.long cs f)
        | '-' :: c :: cs => do scan level false rest (← level.shorts (c :: cs) f)
        | _ =>
            match f.give word with
            | some f => scan level false rest f
            | none => .error (level.stray false word)

/-- Takes options that were not given from the environment. -/
def fromEnvironment (level : Level) (env : Environment) (f : Found) : Except UsageError Found :=
  level.options.foldlM (fun f o =>
    match o.fallback.bind env.var? with
    | some s => if f.has o.name then .ok f else f.add o (o.kind.read s)
    | none => .ok f) f

def read (level : Level) (env : Environment) (words : List String) : Except UsageError Found := do
  let (f, _) ← level.scan false words .empty
  let f ← level.fromEnvironment env (← f.settle)
  if level.options.all fun o => !o.required || f.has o.name then return f
  else throw .missingRequiredArgument

end Level

namespace Found

def texts (f : Found) (name : String) : List String :=
  f.values.filterMap fun v => match v with
    | (n, .text s) => if n = name then some s else none
    | _ => none

def text? (f : Found) (name : String) : Option String := (f.texts name).head?

def number? (f : Found) (name : String) : Option Nat :=
  f.values.findSome? fun v => match v with
    | (n, .number k) => if n = name then some k else none
    | _ => none

def mode? (f : Found) (name : String) : Option TidyMode :=
  f.values.findSome? fun v => match v with
    | (n, .mode m) => if n = name then some m else none
    | _ => none

end Found
end ChangeReport.CommandLine
