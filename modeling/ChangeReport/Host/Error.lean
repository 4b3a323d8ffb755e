/-! Errors of hosts: why a call failed, and whether the same call may succeed later. -/
namespace ChangeReport

inductive HostError where
  | missingToken (name : String)
  | unauthorized
  | forbidden
  | notFound (what : String)
  | rateLimited
  | server (status : Nat)
  | httpStatus (status : Nat) (body : String)
  | network (reason : String)
  | decode (reason : String)
deriving DecidableEq, Repr

namespace HostError

def message : HostError → String
  | .missingToken name => "no API token configured (set " ++ name ++ ")"
  | .unauthorized => "unauthorized"
  | .forbidden => "forbidden"
  | .notFound what => "not found: " ++ what
  | .rateLimited => "rate limited"
  | .server status => "server error: HTTP " ++ toString status
  | .httpStatus status body => "request failed with HTTP " ++ toString status ++ ": " ++ body
  | .network reason => "network error: " ++ reason
  | .decode reason => "unexpected response: " ++ reason

/-- The error of a response whose status is no success. -/
def ofStatus (status : Nat) (url body : String) : HostError :=
  if status = 401 then .unauthorized
  else if status = 403 then .forbidden
  else if status = 404 then .notFound url
  else if status = 429 then .rateLimited
  else if 500 ≤ status ∧ status ≤ 599 then .server status
  else .httpStatus status body

def isTransient : HostError → Bool
  | .rateLimited | .server _ | .network _ => true
  | _ => false

end HostError
end ChangeReport
