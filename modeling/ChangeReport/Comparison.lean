import ChangeReport.Child
import ChangeReport.Json.Reader
import ChangeReport.LineDiff.Hunk
import ChangeReport.Matching
import ChangeReport.Overlay
import ChangeReport.Yaml.Printer

/-! The comparison of one application: each pair of a live object and its target becomes
no change or one block of text, and the counts, the text and the applications defined by
added resources are collected. -/
namespace ChangeReport

structure Counts where
  added : Nat
  modified : Nat
  removed : Nat
deriving DecidableEq, Repr

namespace Counts

def zero : Counts := ⟨0, 0, 0⟩

def total (c : Counts) : Nat := c.added + c.modified + c.removed

def isEmpty (c : Counts) : Bool := c.total == 0

def add (c d : Counts) : Counts := ⟨c.added + d.added, c.modified + d.modified, c.removed + d.removed⟩

def render (c : Counts) : String :=
  toString c.added ++ " added, " ++ toString c.modified ++ " modified, " ++ toString c.removed ++ " removed"

end Counts

/-- How the comparison of two documents goes wrong: it reports a problem, or it breaks
down. -/
inductive DifferFault where
  | failed (key message : String)
  | crashed (message : String)
deriving DecidableEq, Repr

def DifferFault.message : DifferFault → String
  | .failed key message => "structural diff failed for " ++ key ++ ": " ++ message
  | .crashed message => message

/-- Decides about the live object and the target of one resource. -/
abbrev Differ := Option Document → Option Document → Except DifferFault Verdict

def overlayDiffer : Differ := fun live target => .ok (overlayVerdict live target)

inductive ChangeKind where
  | added
  | modified
  | removed
deriving DecidableEq, Repr

structure Change where
  key : ResourceKey
  kind : ChangeKind
  text : String
  child : Option ChildApplication
deriving DecidableEq, Repr

def blockHeader (key : ResourceKey) : String := "===== " ++ key.render ++ " ======"

/-- The header and the unified diff of two sides of a resource. -/
def renderBlock (key : ResourceKey) (old new : Option Document) : String :=
  let block := blockHeader key ++ "\n" ++ LineDiff.unified (Yaml.canonical old) (Yaml.canonical new)
  if block.toList.getLast? = some '\n' then block else block ++ "\n"

/-- The document that a verdict predicts, if its text is one and not null. -/
def Verdict.document? (v : Verdict) : Option Document :=
  match Json.decode v.predicted with
  | some .null => none
  | d => d

namespace Pair

def isHook (p : Pair) : Bool := p.live.any Document.isHook || p.target.any Document.isHook

/-- The change that a verdict makes of a pair. A modified resource is shown against the
prediction, so that fields the server fills in are no removals. -/
def changeOf (p : Pair) (v : Verdict) : Option Change :=
  match p.live, p.target with
  | none, none => none
  | some live, none => some ⟨p.key, .removed, renderBlock p.key (some live) none, none⟩
  | none, some target =>
      let child := (v.document?.bind ChildApplication.ofDocument?).or (ChildApplication.ofDocument? target)
      some ⟨p.key, .added, renderBlock p.key none (some target), child⟩
  | some live, some target =>
      if v.modified then
        some ⟨p.key, .modified, renderBlock p.key (some live) (some (v.document?.getD target)), none⟩
      else none

/-- The change of a pair. Hooks have none, and no verdict is asked about them. -/
def change (differ : Differ) (p : Pair) : Except DifferFault (Option Change) :=
  if p.isHook then .ok none else (differ p.live p.target).map p.changeOf

end Pair

def ChangeKind.counts : ChangeKind → Counts
  | .added => ⟨1, 0, 0⟩
  | .modified => ⟨0, 1, 0⟩
  | .removed => ⟨0, 0, 1⟩

structure Comparison where
  counts : Counts
  text : String
  summary : String
  children : List ChildApplication
deriving DecidableEq, Repr

def noChanges : String := "No changes"

def countAll (changes : List Change) : Counts :=
  changes.foldl (fun c change => c.add change.kind.counts) Counts.zero

namespace Comparison

def ofChanges (changes : List Change) : Comparison :=
  let counts := countAll changes
  ⟨counts, if counts.isEmpty then noChanges else String.join (changes.map (·.text)), counts.render,
    changes.filterMap (·.child)⟩

/-- Compares all pairs in order; the first fault ends the comparison. -/
def ofPairs (differ : Differ) (pairs : List Pair) : Except DifferFault Comparison :=
  (pairs.mapM (Pair.change differ)).map fun changes => ofChanges (changes.filterMap id)

end Comparison
end ChangeReport
