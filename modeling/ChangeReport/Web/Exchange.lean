import ChangeReport.Document
import ChangeReport.Host.Basic
import ChangeReport.Json.Reader

/-! Requests and responses of web hosts. -/
namespace ChangeReport.Web

inductive Method where
  | get
  | post
  | put
  | patch
  | delete
deriving DecidableEq, Repr

def Method.name : Method → String
  | .get => "GET"
  | .post => "POST"
  | .put => "PUT"
  | .patch => "PATCH"
  | .delete => "DELETE"

/-- The names of headers are in lower case. -/
abbrev Headers := List (String × String)

structure Request where
  method : Method
  url : String
  headers : Headers
  body : Option Document

structure Response where
  status : Nat
  headers : Headers
  body : String
deriving DecidableEq, Repr

def Response.isSuccess (r : Response) : Bool := 200 ≤ r.status && r.status ≤ 299

/-- Carries a request to its server; without a connection there is no response. -/
abbrev Transport (τ : Type) := Request → τ → Option Response × τ

def isHeaderText (s : String) : Bool := s.toList.all fun c => c == '\t' || (0x20 ≤ c.toNat && c.toNat < 0x7F)

def Response.header? (r : Response) (name : String) : Option String :=
  match r.headers.find? fun h => h.1.toList.map Char.toLower == name.toList with
  | some (_, v) => if isHeaderText v then some v else none
  | none => none

/-- Whether a header may have this value: it holds no controls but tabs. -/
def isHeaderValue (s : String) : Bool := s.toList.all fun c => c == '\t' || (0x20 ≤ c.toNat && c.toNat != 0x7F)

/-- The headers of every request: how the program names itself. -/
def userAgent : String := "kubereport/0.1.0"

structure Client where
  baseUrl : String
  headers : Headers

def trimSlashes (s : String) : String := String.ofList (s.toList.reverse.dropWhile (· == '/')).reverse

namespace Client

variable {τ α : Type}

def ofHeaders (baseUrl : String) (headers : Headers) : Client :=
  ⟨trimSlashes baseUrl, headers ++ [("user-agent", userAgent)]⟩

def noResponse (url : String) : String := "error sending request for url (" ++ url ++ ")"

/-- Sends a request; a status that is no success is an error. -/
def send (t : Transport τ) (c : Client) (method : Method) (url : String) (body : Option Document) : Call τ Response := fun s =>
  let json : Headers := if body.isSome then [("content-type", "application/json")] else []
  match t ⟨method, url, c.headers ++ json, body⟩ s with
  | (none, s) => (.error (.network (noResponse url)), s)
  | (some r, s) => if r.isSuccess then (.ok r, s) else (.error (.ofStatus r.status url r.body), s)

def fetch (t : Transport τ) (c : Client) (method : Method) (url : String) (body : Option Document)
    (read : Tree → Option α) : Call τ (α × Response) := fun s =>
  match send t c method url body s with
  | (.error e, s) => (.error e, s)
  | (.ok r, s) =>
      match (Json.parse r.body.toList).bind read with
      | some a => (.ok (a, r), s)
      | none => (.error (.decode (url ++ ": error decoding response body")), s)

end Client

def bodyDocument (body : String) : Document := .object [("body", .string body)]

/-- A transport that has its responses in store and keeps the requests. -/
structure Script where
  responses : List Response
  requests : List Request

def Script.transport : Transport Script := fun request s =>
  let requests := s.requests ++ [request]
  match s.responses with
  | [] => (none, { s with requests })
  | r :: rest => (some r, ⟨rest, requests⟩)

end ChangeReport.Web
