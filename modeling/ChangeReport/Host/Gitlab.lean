import ChangeReport.Text.Blank
import ChangeReport.Web.Exchange
import ChangeReport.Web.Percent

/-! Notes of merge requests on GitLab. Notes that the system makes are no comments. -/
namespace ChangeReport.Host.Gitlab
open Web

def pageSize : Nat := 100

def client (baseUrl token : String) : Client := Client.ofHeaders baseUrl [("private-token", token)]

def readUser (t : Tree) : Option String := do
  (← Record.read? ["username"] false t).required "username" Tree.text?

/-- A note, and whether the system made it. -/
def readNote (t : Tree) : Option (Comment × Bool) := do
  let r ← Record.read? ["id", "author", "body", "created_at", "system"] false t
  let author ← r.orElse "author" none (Tree.nullable readUser)
  let comment : Comment := ⟨← r.required "id" Comment.readId, author.getD "", ← r.orElse "body" "" Tree.text?,
    ← r.orElse "created_at" none (Tree.nullable Comment.readTime)⟩
  return (comment, ← r.orElse "system" false Tree.bool?)

def readPipeline (t : Tree) : Option String := do
  (← Record.read? ["web_url"] false t).required "web_url" Tree.text?

def requestUrl (c : Client) (r : ChangeRequest) : String :=
  c.baseUrl ++ "/projects/" ++ encodeSegment r.repo ++ "/merge_requests/" ++ toString r.number

def notesUrl (c : Client) (r : ChangeRequest) : String := requestUrl c r ++ "/notes"

def noteUrl (c : Client) (r : ChangeRequest) (id : Nat) : String := notesUrl c r ++ "/" ++ toString id

def pageUrl (c : Client) (r : ChangeRequest) (page : Nat) : String :=
  notesUrl c r ++ "?sort=asc&order_by=created_at&per_page=" ++ toString pageSize ++ "&page=" ++ toString page

/-- The header of the next page is blank on the last one. -/
def hasNext (response : Response) : Bool :=
  match response.header? "x-next-page" with
  | some page => !Text.allBlank page
  | none => false

def comments (notes : List (Comment × Bool)) : List Comment := (notes.filter fun n => !n.2).map (·.1)

/-- The host behind a client. A `username` that is given is not asked for; of the
pipelines the first is the latest. -/
def host {τ : Type} (t : Transport τ) (c : Client) (username : Option String) : Host τ where
  kind := .gitlab
  username :=
    match username with
    | some name => Call.answer name
    | none => (c.fetch t .get (c.baseUrl ++ "/user") none readUser).map (·.1)
  create := fun r body => (c.fetch t .post (notesUrl c r) (some (bodyDocument body)) readNote).map (·.1.1.id)
  edit := fun r id body => (c.fetch t .put (noteUrl c r id) (some (bodyDocument body)) readNote).map (·.1.1.id)
  list := fun r page =>
    (c.fetch t .get (pageUrl c r page) none (Tree.listOf? readNote)).map fun p => ⟨comments p.1, hasNext p.2⟩
  delete := fun r id => (c.send t .delete (noteUrl c r id) none).map fun _ => ()
  pipelineUrl := fun r =>
    (c.fetch t .get (requestUrl c r ++ "/pipelines?per_page=1") none (Tree.listOf? readPipeline)).map (·.1.head?)

end ChangeReport.Host.Gitlab
