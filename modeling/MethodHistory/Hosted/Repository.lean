import MethodHistory.Hosted.Address
import MethodHistory.Hosted.Pages
import MethodHistory.Source
import MethodHistory.Time.Iso

/-!
This module contains what a hosted repository answers about its commits, its tags and its files.
-/

namespace MethodHistory
namespace Hosted

structure Repository (ρ : Type) where
  client : Client ρ
  address : Address
  package : String

structure Exchange (ρ : Type) where
  pending : List (Reply ρ)
  sent : List Request
  tags : Option (List (String × Json))
  warnings : List String

abbrev ExchangeM (ρ α : Type) : Type :=
  ExceptT Failure (StateM (Exchange ρ)) α

variable {ρ : Type}

def Exchange.start (replies : List (Reply ρ)) : Exchange ρ :=
  ⟨replies, [], none, []⟩

def commonHeaders (token environment : Option String) : List (String × String) :=
  let given (token : Option String) : Option String := token.filter (!·.isEmpty)
  [("Accept", "application/vnd.github+json"), ("X-GitHub-Api-Version", "2022-11-28")]
    ++ (((given token).or (given environment)).map
      fun token => ("Authorization", "Bearer " ++ token)).toList

namespace ExchangeM

def list {β : Type} (client : Client ρ) (take : β → Json → Except PayloadFault β) (empty : β)
    (request : Request) : ExchangeM ρ β := do
  let exchange ← get
  let gathering := gather client take empty request exchange.pending
  set { exchange with pending := gathering.left, sent := exchange.sent ++ gathering.sent }
  gathering.result

def send (request : Request) : ExchangeM ρ (Reply ρ) := do
  let exchange ← get
  set { exchange with pending := exchange.pending.tail, sent := exchange.sent ++ [request] }
  pure (exchange.pending.headD (.failed "no reply"))

def warn (warning : String) : ExchangeM ρ Unit :=
  modify fun exchange => { exchange with warnings := exchange.warnings ++ [warning] }

def orElse {α : Type} (act : ExchangeM ρ α) (failure : String → Failure) : ExchangeM ρ α :=
  tryCatch act fun
    | .service fault => throw (failure fault.message)
    | other => throw other

end ExchangeM

/-! What the service tells of commits -/

structure CommitEntry where
  id : Json
  author : Json
  email : Json
  date : Option Instant
  message : String
  position : Nat

structure RevisionEntry where
  commit : Json
  date : Option Instant

def authorOf (json : Json) : Except PayloadFault Json := do
  (← json.member "commit").member "author"

def dateOf (json : Json) : Except PayloadFault (Option Instant) := do
  let date ← (← authorOf json).member "date"
  if !date.isTrue then
    pure none
  else
    match date.text? with
    | some text => some <$> (Instant.ofIso text).mapError fun _ => .invalidDate
    | none => throw .noSuchMember

def RevisionEntry.ofJson (json : Json) : Except PayloadFault RevisionEntry := do
  pure ⟨← json.member "sha", ← dateOf json⟩

def CommitEntry.ofJson (position : Nat) (json : Json) : Except PayloadFault CommitEntry := do
  let author ← authorOf json
  let id ← json.member "sha"
  let name ← author.member? "name"
  let email ← author.member? "email"
  let date ← dateOf json
  let message ← (← json.member "commit").member? "message"
  match (message.getD (.text "")).text? with
  | none => throw .noSuchMember
  | some message =>
    pure
      { id
        author := name.getD (.text "")
        email := email.getD .null
        date
        message := .ofList (Text.trimEnd (· = '\n') message.toList)
        position }

namespace Repository

variable (repository : Repository ρ)

def slug : String :=
  repository.address.owner ++ "/" ++ repository.address.name

def endpoint (path : String) : String :=
  "https://api.github.com/repos/" ++ repository.slug ++ "/" ++ path

def listing (path : String) (parameters : List (String × Parameter)) : Request :=
  ⟨repository.endpoint path, some (parameters ++ [("per_page", .number 100)]), []⟩

def history (path : String) : ExchangeM ρ (List Json) :=
  ExchangeM.list repository.client (fun items item => .ok (items ++ [item])) [] <|
    repository.listing "commits" (if path.isEmpty then [] else [("path", .text path)])

def allCommits : ExchangeM ρ (List CommitEntry) := do
  let items ← ExchangeM.orElse (repository.history "") fun reason =>
    .repository (.unlistedCommits repository.slug reason)
  if items.isEmpty then
    throw (.repository (.noCommits repository.slug))
  (items.zipIdx.mapM fun (item, position) => CommitEntry.ofJson position item).mapError
    Failure.payload

/--
Adds the commit of a tag; of several tags with a name the last counts. A name that is no text is
never asked for.
-/
def takeTag (tags : List (String × Json)) (item : Json)
    : Except PayloadFault (List (String × Json)) := do
  let name ← item.member "name"
  let id ← (← item.member "commit").member "sha"
  match name with
  | .text name => pure ((name.text?.map (·, id)).toList ++ tags)
  | .list _ | .object _ => throw .wrongType
  | _ => pure tags

def tagTarget (name : String) : ExchangeM ρ Json := do
  let tags ← match (← get).tags with
    | some tags => pure tags
    | none =>
      let tags ← ExchangeM.list repository.client takeTag [] (repository.listing "tags" [])
      modify fun exchange => { exchange with tags }
      pure tags
  pure ((tags.lookup name).getD .null)

def revisionsOf (path : String) : ExchangeM ρ (List RevisionEntry) := do
  let items ← ExchangeM.orElse (repository.history path) fun reason =>
    .revision (.unreadableHistory path reason)
  (items.mapM RevisionEntry.ofJson).mapError Failure.payload

def contentAt (path commit : String) : ExchangeM ρ (Option ByteArray) := do
  let request : Request :=
    ⟨repository.endpoint ("contents/" ++ path), some [("ref", .text commit)],
      [("Accept", "application/vnd.github.raw")]⟩
  let reply ← ExchangeM.send request
  if reply.isMissing repository.client then
    pure none
  else
    match reply.response repository.client request.address (path ++ "@" ++ commit) with
    | .ok response => pure (some (repository.client.content response))
    | .error fault => throw (.revision (.unreadableContent path commit fault.message))

/--
Whether a path has the suffix and the package in it. What is no text has no suffix, but a list or an
object can have the package in it.
-/
def fits (suffix : String) (path : Json) : Except PayloadFault Bool :=
  let package := packageDirectory repository.package
  match path with
  | .text path => .ok (fitsPackage repository.package path.replaced suffix)
  | path =>
    if !suffix.isEmpty && suffix ≠ "*" then .error .noSuchMember
    else if package.isEmpty then .ok true
    else path.items.map fun items => items.any (·.text? = some package)

def filePath? (suffix : String) (entry : Json) : Except PayloadFault (Option Json) := do
  if ((← entry.member? "type").bind Json.text?) = some "blob" then
    let path ← entry.member "path"
    pure (if ← repository.fits suffix path then some path else none)
  else
    pure none

def filesAt (commit suffix : String) : ExchangeM ρ (List Json) := do
  let request : Request :=
    ⟨repository.endpoint ("git/trees/" ++ commit), some [("recursive", .text "1")], []⟩
  let reply ← ExchangeM.send request
  match reply.response repository.client request.address request.address with
  | .error fault => throw (.revision (.unlistedFiles commit fault.message))
  | .ok response =>
    let tree ← (repository.client.json response).mapError Failure.payload
    if ((← (tree.member? "truncated").mapError Failure.payload).any Json.isTrue) then
      ExchangeM.warn <|
        "Tree listing for " ++ repository.slug ++ "@" ++ commit ++ " was truncated by GitHub"
    let entries ← ((tree.member? "tree").bind
      fun entries => (entries.getD (.list [])).items).mapError
      Failure.payload
    let paths ← (entries.mapM (repository.filePath? suffix)).mapError Failure.payload
    pure (paths.filterMap id)

end Repository
end Hosted
end MethodHistory
