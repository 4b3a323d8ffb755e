import ChangeReport.Web.Exchange
import ChangeReport.Web.Link

/-! Comments of pull requests on GitHub, where they are comments of issues. -/
namespace ChangeReport.Host.Github
open Web

def pageSize : Nat := 100

def apiVersion : String := "2022-11-28"

def authorization (token : String) : String := "Bearer " ++ token

def client (baseUrl token : String) : Client :=
  Client.ofHeaders baseUrl [("authorization", authorization token), ("accept", "application/vnd.github+json"),
    ("x-github-api-version", apiVersion)]

def readUser (t : Tree) : Option String := do
  (← Record.read? ["login"] false t).required "login" Tree.text?

def readComment (t : Tree) : Option Comment := do
  let r ← Record.read? ["id", "user", "body", "created_at"] false t
  let user ← r.orElse "user" none (Tree.nullable readUser)
  let body ← r.orElse "body" none (Tree.nullable Tree.text?)
  return ⟨← r.required "id" Comment.readId, user.getD "", body.getD "",
    ← r.orElse "created_at" none (Tree.nullable Comment.readTime)⟩

def commentsUrl (c : Client) (r : ChangeRequest) : String :=
  c.baseUrl ++ "/repos/" ++ r.repo ++ "/issues/" ++ toString r.number ++ "/comments"

def commentUrl (c : Client) (r : ChangeRequest) (id : Nat) : String :=
  c.baseUrl ++ "/repos/" ++ r.repo ++ "/issues/comments/" ++ toString id

def pageUrl (c : Client) (r : ChangeRequest) (page : Nat) : String :=
  commentsUrl c r ++ "?per_page=" ++ toString pageSize ++ "&page=" ++ toString page

def hasNext (response : Response) : Bool :=
  match response.header? "link" with
  | some link => hasNextLink link.toList
  | none => false

/-- The host behind a client. A `username` that is given is not asked for. -/
def host {τ : Type} (t : Transport τ) (c : Client) (username : Option String) : Host τ where
  kind := .github
  username :=
    match username with
    | some name => Call.answer name
    | none => (c.fetch t .get (c.baseUrl ++ "/user") none readUser).map (·.1)
  create := fun r body =>
    (c.fetch t .post (commentsUrl c r) (some (bodyDocument body)) readComment).map (·.1.id)
  edit := fun r id body =>
    (c.fetch t .patch (commentUrl c r id) (some (bodyDocument body)) readComment).map (·.1.id)
  list := fun r page =>
    (c.fetch t .get (pageUrl c r page) none (Tree.listOf? readComment)).map fun p => ⟨p.1, hasNext p.2⟩
  delete := fun r id => (c.send t .delete (commentUrl c r id) none).map fun _ => ()
  pipelineUrl := fun _ => Call.answer none

end ChangeReport.Host.Github
