import ChangeReport.Text.Split
import ChangeReport.Web.Percent

/-! What of a URL goes over the wire: its path without dot segments, and its query.
Characters that have no place there are percent-encoded. -/
namespace ChangeReport.Web

/-- Line breaks and tabs inside of a URL have no meaning. -/
def isDropped (c : Char) : Bool := c == '\t' || c == '\n' || c == '\r'

/-- Controls and spaces around a URL have no meaning. -/
def isPadding (c : Char) : Bool := c.toNat ≤ 0x20

def cleanUrl (s : String) : List Char :=
  let inner := (s.toList.dropWhile isPadding).reverse.dropWhile isPadding
  (inner.reverse).filter fun c => !isDropped c

def isAuthorityEnd (c : Char) : Bool := c == '/' || c == '\\' || c == '?' || c == '#'

def afterAuthority (cs : List Char) : List Char :=
  match Text.cutChars? ':' cs with
  | some (_, rest) => (rest.dropWhile fun c => c == '/' || c == '\\').dropWhile fun c => !isAuthorityEnd c
  | none => cs

/-- Path, query and fragment; a query is absent without its mark. -/
structure Target where
  path : List Char
  query : Option (List Char)
deriving DecidableEq, Repr

def Target.ofChars (cs : List Char) : Target :=
  let cs := cs.takeWhile (· ≠ '#')
  match Text.cutChars? '?' cs with
  | some (path, query) => ⟨path, some query⟩
  | none => ⟨cs, none⟩

def isControlByte (b : Nat) : Bool := b < 0x20 || b == 0x7F

def isPathByte (b : Nat) : Bool :=
  !isControlByte b && b < 0x80 && !([0x20, 0x22, 0x23, 0x3C, 0x3E, 0x3F, 0x60, 0x7B, 0x7D].contains b)

def isQueryByte (b : Nat) : Bool :=
  !isControlByte b && b < 0x80 && !([0x20, 0x22, 0x23, 0x27, 0x3C, 0x3E].contains b)

/-- A dot, plain or encoded. -/
def isDot (cs : List Char) : Bool := cs == ['.'] || (cs.map Char.toLower) == ['%', '2', 'e']

def isSingleDot (segment : List Char) : Bool := isDot segment

def isDoubleDot (segment : List Char) : Bool :=
  (isDot (segment.take 1) && isDot (segment.drop 1)) || (isDot (segment.take 3) && isDot (segment.drop 3))

/-- The segments that are left when dots have taken their effect, the last one first. -/
def resolve (done : List (List Char)) : List (List Char) → List (List Char)
  | [] => done
  | [last] =>
      if isDoubleDot last then [] :: done.drop 1
      else if isSingleDot last then [] :: done
      else last :: done
  | segment :: rest =>
      if isDoubleDot segment then resolve (done.drop 1) rest
      else if isSingleDot segment then resolve done rest
      else resolve (segment :: done) rest

def splitPath (path : List Char) : List (List Char) :=
  Text.splitChars '/' ((path.map fun c => if c = '\\' then '/' else c).drop 1)

def renderPath (path : List Char) : List Char :=
  let segments := (resolve [] (splitPath path)).reverse
  segments.flatMap fun s => '/' :: encodeBytes isPathByte (Text.toBytes s)

/-- Path and query as a request names them. -/
def requestTarget (url : String) : String :=
  let t := Target.ofChars (afterAuthority (cleanUrl url))
  let query := match t.query with
    | some q => '?' :: encodeBytes isQueryByte (Text.toBytes q)
    | none => []
  String.ofList (renderPath t.path ++ query)

end ChangeReport.Web
