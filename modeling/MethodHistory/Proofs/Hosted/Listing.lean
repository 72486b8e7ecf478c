import Mathlib
import MethodHistory.Hosted.Repository
import MethodHistory.Json.Reader
import MethodHistory.Proofs.Perform

/-!
This module contains the laws of listings that come in pages: the commits of a listing are those of
all its pages, in their order, or there are none of them.
-/

namespace MethodHistory
namespace Hosted

/-! What replies are pages -/

variable {ρ : Type}

structure Page (client : Client ρ) where
  response : ρ
  items : List Json
  accepted : client.status response < 400
  legible : client.json response = .ok (.list items)

variable {client : Client ρ}

namespace Page

def reply (page : Page client) : Reply ρ :=
  .answered page.response

def next? (page : Page client) : Option String :=
  client.next? page.response

def linked (pages : List (Page client)) : List Request :=
  (pages.filterMap next?).map (⟨·, none, []⟩)

theorem linked_cons {page : Page client} {address : String} (h : page.next? = some address)
    (pages : List (Page client))
    : linked (page :: pages) = ⟨address, none, []⟩ :: linked pages := by
  rw [linked, List.filterMap_cons_some h]
  rfl

theorem length_linked {pages : List (Page client)} (h : ∀ page ∈ pages, page.next?.isSome)
    : (linked pages).length = pages.length := by
  rw [linked, List.length_map, List.length_filterMap_eq_countP, List.countP_eq_length]
  exact h

theorem response_reply (lawful : client.IsLawful) (page : Page client) (address what : String)
    : page.reply.response client address what = .ok page.response := by
  have hlimit : ¬ (client.status page.response = 403
      ∧ client.header? page.response "X-RateLimit-Remaining" = some "0") := by
    intro hlimit
    have := page.accepted
    omega
  have hok : client.isOk page.response = true := (lawful.isOk_iff _).2 page.accepted
  rw [reply, Reply.response, if_neg hlimit, hok]
  rfl

theorem page_reply (lawful : client.IsLawful) (page : Page client) (address : String)
    : Hosted.page client address page.reply = .ok (.list page.items, page.next?) := by
  rw [Hosted.page, page.response_reply lawful]
  change (do let json ← (client.json page.response).mapError Failure.payload; pure (json, _)) = _
  rw [page.legible]
  rfl

end Page

/--
The pages of a listing, of which all but the last one link to another page.
-/
structure Listing (client : Client ρ) where
  front : List (Page client)
  last : Page client
  links : ∀ page ∈ front, page.next?.isSome
  ends : last.next? = none

namespace Listing

def pages (listing : Listing client) : List (Page client) :=
  listing.front ++ [listing.last]

def items (listing : Listing client) : List Json :=
  listing.pages.flatMap Page.items

def replies (listing : Listing client) : List (Reply ρ) :=
  listing.pages.map Page.reply

def requests (listing : Listing client) (first : Request) : List Request :=
  first :: Page.linked listing.front

theorem length_requests (listing : Listing client) (first : Request)
    : (listing.requests first).length = listing.pages.length := by
  rw [requests, pages, List.length_cons, Page.length_linked listing.links, List.length_append,
    List.length_singleton]

end Listing

def Reply.IsRefused (client : Client ρ) : Reply ρ → Prop
  | failed _ => True
  | answered response => 400 ≤ client.status response

theorem Reply.IsRefused.exists_fault (lawful : client.IsLawful) {reply : Reply ρ}
    (h : reply.IsRefused client) (address what : String)
    : ∃ fault, reply.response client address what = .error fault := by
  cases reply with
  | failed reason => exact ⟨_, rfl⟩
  | answered response =>
    have hok : client.isOk response = false :=
      Bool.eq_false_iff.2 fun hok => Nat.not_lt.2 h ((lawful.isOk_iff response).1 hok)
    rw [Reply.response, hok]
    split
    . exact ⟨_, rfl⟩
    . exact ⟨_, rfl⟩

/--
A listing that breaks off: what comes behind pages that link to other ones is refused.
-/
structure BrokenListing (client : Client ρ) where
  front : List (Page client)
  refusal : Reply ρ
  links : ∀ page ∈ front, page.next?.isSome
  refused : refusal.IsRefused client

namespace BrokenListing

def replies (listing : BrokenListing client) : List (Reply ρ) :=
  listing.front.map Page.reply ++ [listing.refusal]

def requests (listing : BrokenListing client) (first : Request) : List Request :=
  first :: Page.linked listing.front

def LeadsTo (listing : BrokenListing client) (first : Request) (fault : ServiceFault) : Prop :=
  ∃ last, (listing.requests first).getLast? = some last
    ∧ listing.refusal.response client last.address last.address = .error fault

end BrokenListing

/-! What gathers pages -/

section Gather

variable {β : Type} {take : β → Json → Except PayloadFault β} {gathered next : β}

theorem foldlM_append_eq_ok {items more : List Json}
    (h : (items ++ more).foldlM take gathered = .ok next)
    : ∃ middle, items.foldlM take gathered = .ok middle ∧ more.foldlM take middle = .ok next := by
  rw [List.foldlM_append] at h
  cases hmiddle : items.foldlM take gathered with
  | error fault =>
    rw [hmiddle] at h
    cases h
  | ok middle =>
    rw [hmiddle] at h
    exact ⟨middle, rfl, h⟩

theorem gather_page (lawful : client.IsLawful) {page : Page client}
    (hitems : page.items.foldlM take gathered = .ok next) (request : Request)
    (replies : List (Reply ρ))
    : gather client take gathered request (page.reply :: replies) =
        match page.next? with
        | none => ⟨.ok next, [request], replies⟩
        | some address =>
          let rest := gather client take next ⟨address, none, []⟩ replies
          { rest with sent := request :: rest.sent } := by
  rw [gather, page.page_reply lawful]
  simp only [bind, Except.bind, Json.items, Json.items?, hitems, Except.mapError, pure, Except.pure]
  cases page.next? <;> rfl

theorem gather_refused {refusal : Reply ρ} {request : Request} {fault : ServiceFault}
    (h : refusal.response client request.address request.address = .error fault)
    (replies : List (Reply ρ))
    : gather client take gathered request (refusal :: replies) =
        ⟨.error (.service fault), [request], replies⟩ := by
  rw [gather, page, h]
  rfl

theorem gather_front (lawful : client.IsLawful) {front : List (Page client)}
    (hlinks : ∀ page ∈ front, page.next?.isSome)
    (hitems : (front.flatMap Page.items).foldlM take gathered = .ok next) (first : Request)
    : ∃ sent last, first :: Page.linked front = sent ++ [last] ∧ ∀ replies,
        gather client take gathered first (front.map Page.reply ++ replies) =
          let rest := gather client take next last replies
          { rest with sent := sent ++ rest.sent } := by
  induction front generalizing gathered first with
  | nil =>
    cases hitems
    exact ⟨[], first, rfl, fun _ => rfl⟩
  | cons page front ih =>
    obtain ⟨hlink, hlinks⟩ := List.forall_mem_cons.1 hlinks
    obtain ⟨address, hlink⟩ := Option.isSome_iff_exists.1 hlink
    rw [List.flatMap_cons] at hitems
    obtain ⟨middle, hmiddle, hitems⟩ := foldlM_append_eq_ok hitems
    obtain ⟨sent, last, hsent, hrest⟩ := ih hlinks hitems ⟨address, none, []⟩
    refine ⟨first :: sent, last, ?_, ?_⟩
    . rw [Page.linked_cons hlink, hsent, List.cons_append]
    . intro replies
      rw [List.map_cons, List.cons_append, gather_page lawful hmiddle, hlink]
      dsimp only
      rw [hrest]
      rfl

theorem gather_listing (lawful : client.IsLawful) (listing : Listing client)
    (hitems : listing.items.foldlM take gathered = .ok next) (first : Request)
    (later : List (Reply ρ))
    : gather client take gathered first (listing.replies ++ later) =
        ⟨.ok next, listing.requests first, later⟩ := by
  rw [Listing.items, Listing.pages, List.flatMap_append, List.flatMap_singleton] at hitems
  obtain ⟨middle, hmiddle, hitems⟩ := foldlM_append_eq_ok hitems
  obtain ⟨sent, last, hsent, hrest⟩ := gather_front lawful listing.links hmiddle first
  rw [Listing.replies, Listing.pages, List.map_append, List.append_assoc, hrest, List.map_singleton,
    List.singleton_append, gather_page lawful hitems, listing.ends, Listing.requests, hsent]

theorem gather_broken (lawful : client.IsLawful) (listing : BrokenListing client)
    (hitems : (listing.front.flatMap Page.items).foldlM take gathered = .ok next)
    (first : Request) (later : List (Reply ρ))
    : ∃ fault, listing.LeadsTo first fault
        ∧ gather client take gathered first (listing.replies ++ later) =
          ⟨.error (.service fault), listing.requests first, later⟩ := by
  obtain ⟨sent, last, hsent, hrest⟩ := gather_front lawful listing.links hitems first
  obtain ⟨fault, hfault⟩ := listing.refused.exists_fault lawful last.address last.address
  refine ⟨fault, ⟨last, ?_, hfault⟩, ?_⟩
  . rw [BrokenListing.requests, hsent, List.getLast?_concat]
  . rw [BrokenListing.replies, List.append_assoc, hrest, List.singleton_append,
      gather_refused hfault, BrokenListing.requests, hsent]

end Gather

/-! What the service tells of commits -/

theorem text?_text (value : String) : (Json.text value).text? = some value := by
  rw [Json.text?, Text.Loose.replaced, Text.Loose.write_ofText, List.flatMap_singleton',
    String.ofList_toList]

/--
What the service tells of a commit: an object with an id, and with an author whose date is there and
can be read. All else can be missing.
-/
structure Payload where
  json : Json
  id : Json
  commit : Json
  author : Json
  name : Option Json
  email : Option Json
  written : String
  date : Instant
  message : Option String
  identified : json.member "sha" = .ok id
  committed : json.member "commit" = .ok commit
  authored : commit.member "author" = .ok author
  named : author.member? "name" = .ok name
  addressed : author.member? "email" = .ok email
  dated : author.member "date" = .ok (.text written)
  legible : Instant.ofIso written = .ok date
  told : commit.member? "message" = .ok (message.map (Json.text <| .ofText ·))

namespace Payload

def entry (payload : Payload) (position : Nat) : CommitEntry where
  id := payload.id
  author := payload.name.getD (.text "")
  email := payload.email.getD .null
  date := some payload.date
  message := .ofList (Text.trimEnd (· = '\n') (payload.message.getD "").toList)
  position

def revision (payload : Payload) : RevisionEntry where
  commit := payload.id
  date := some payload.date

variable (payload : Payload)

theorem authorOf_json : authorOf payload.json = .ok payload.author := by
  rw [authorOf, payload.committed]
  exact payload.authored

theorem written_ne_empty : payload.written ≠ "" := by
  intro h
  have hempty : (Instant.ofIso "").isOk = false := by decide
  rw [← h, payload.legible] at hempty
  cases hempty

theorem dateOf_json : dateOf payload.json = .ok (some payload.date) := by
  have htrue : (Json.text payload.written).isTrue := by
    have := payload.written_ne_empty
    simpa [Json.isTrue, Text.Loose.isEmpty, Text.Loose.ofText] using this
  rw [dateOf, payload.authorOf_json]
  change (do let date ← payload.author.member "date"; _) = _
  rw [payload.dated]
  simp [htrue, text?_text, payload.legible, bind, Except.bind, Except.mapError, Functor.map,
    Except.map]

theorem ofJson_json (position : Nat)
    : CommitEntry.ofJson position payload.json = .ok (payload.entry position) := by
  have hmessage : ((payload.message.map (Json.text <| .ofText ·)).getD (.text "")).text? =
      some (payload.message.getD "") := by
    cases payload.message <;> exact text?_text _
  simp only [CommitEntry.ofJson, payload.authorOf_json, payload.identified, payload.named,
    payload.addressed, payload.dateOf_json, payload.committed, payload.told, bind, Except.bind,
    hmessage, pure, Except.pure]
  rfl

theorem revision_ofJson : RevisionEntry.ofJson payload.json = .ok payload.revision := by
  rw [RevisionEntry.ofJson, payload.identified, payload.dateOf_json]
  rfl

end Payload

theorem foldlM_append_singleton (items gathered : List Json)
    : items.foldlM (fun items item => (.ok (items ++ [item]) : Except PayloadFault (List Json)))
        gathered = .ok (gathered ++ items) := by
  induction items generalizing gathered with
  | nil =>
    rw [List.append_nil]
    rfl
  | cons item items ih =>
    rw [List.foldlM_cons]
    exact (ih _).trans (by rw [List.append_assoc, List.singleton_append])

theorem mapM_zipIdx_map_json (payloads : List Payload)
    : ((payloads.map Payload.json).zipIdx.mapM fun (item, position) =>
        CommitEntry.ofJson position item) =
      .ok (payloads.zipIdx.map fun (payload, position) => payload.entry position) := by
  rw [List.zipIdx_map, List.mapM_map]
  exact (congrArg (fun f => payloads.zipIdx.mapM f)
    (funext fun x => x.1.ofJson_json x.2)).trans List.mapM_pure

theorem mapM_map_json (payloads : List Payload)
    : (payloads.map Payload.json).mapM RevisionEntry.ofJson =
      .ok (payloads.map Payload.revision) := by
  rw [List.mapM_map]
  exact (congrArg (fun f => payloads.mapM f) (funext Payload.revision_ofJson)).trans List.mapM_pure

/-! What performing a listing leads to -/

namespace ExchangeM

theorem perform_list {β : Type} (take : β → Json → Except PayloadFault β) (empty : β)
    (request : Request) (exchange : Exchange ρ)
    : perform (list client take empty request) exchange =
        let gathering := gather client take empty request exchange.pending
        (gathering.result, { exchange with
          pending := gathering.left
          sent := exchange.sent ++ gathering.sent }) := by
  rw [list, perform_bind, perform_get]
  dsimp only
  rw [perform_bind, perform_set]
  apply perform_lift

theorem perform_orElse_ok {α : Type} {act : ExchangeM ρ α} {exchange after : Exchange ρ} {a : α}
    (h : perform act exchange = (.ok a, after)) (failure : String → Failure)
    : perform (orElse act failure) exchange = (.ok a, after) := by
  rw [orElse, perform_tryCatch, h]

theorem perform_orElse_service {α : Type} {act : ExchangeM ρ α} {exchange after : Exchange ρ}
    {fault : ServiceFault} (h : perform act exchange = (.error (.service fault), after))
    (failure : String → Failure)
    : perform (orElse act failure) exchange = (.error (failure fault.message), after) := by
  rw [orElse, perform_tryCatch, h]
  rfl

end ExchangeM

namespace Repository

variable (repository : Repository ρ) {exchange : Exchange ρ} {later : List (Reply ρ)}

def opening (path : String) : Request where
  address := repository.endpoint "commits"
  parameters := some <|
    (if path.isEmpty then [] else [("path", .text path)]) ++ [("per_page", .number 100)]
  headers := []

theorem perform_history_listing (lawful : repository.client.IsLawful)
    {listing : Listing repository.client}
    (hpending : exchange.pending = listing.replies ++ later) (path : String)
    : perform (repository.history path) exchange =
        (.ok listing.items, { exchange with
          pending := later
          sent := exchange.sent ++ listing.requests (repository.opening path) }) := by
  rw [history, ExchangeM.perform_list, hpending,
    gather_listing lawful listing (foldlM_append_singleton _ _)]
  rfl

theorem perform_history_broken (lawful : repository.client.IsLawful)
    {listing : BrokenListing repository.client}
    (hpending : exchange.pending = listing.replies ++ later) (path : String)
    : ∃ fault, listing.LeadsTo (repository.opening path) fault
        ∧ perform (repository.history path) exchange =
          (.error (.service fault), { exchange with
            pending := later
            sent := exchange.sent ++ listing.requests (repository.opening path) }) := by
  obtain ⟨fault, hfault, hgather⟩ :=
    gather_broken lawful listing (foldlM_append_singleton _ []) (repository.opening path) later
  refine ⟨fault, hfault, ?_⟩
  rw [history, ExchangeM.perform_list, hpending]
  exact congrArg (fun gathering : Gathering ρ (List Json) => (gathering.result, { exchange with
    pending := gathering.left, sent := exchange.sent ++ gathering.sent })) hgather

theorem perform_allCommits {payloads : List Payload} {after : Exchange ρ}
    (h : perform (repository.history "") exchange = (.ok (payloads.map Payload.json), after))
    : perform repository.allCommits exchange =
        (if payloads.isEmpty then .error (.repository (.noCommits repository.slug))
          else .ok (payloads.zipIdx.map fun (payload, position) => payload.entry position),
          after) := by
  rw [allCommits, perform_bind_ok (ExchangeM.perform_orElse_ok h _)]
  cases payloads with
  | nil => rfl
  | cons payload payloads =>
    change perform (liftM (Except.mapError Failure.payload _)) after = _
    rw [perform_lift]
    exact congrArg (fun entries => (Except.mapError Failure.payload entries, after))
      (mapM_zipIdx_map_json (payload :: payloads))

theorem perform_revisionsOf {path : String} {payloads : List Payload} {after : Exchange ρ}
    (h : perform (repository.history path) exchange = (.ok (payloads.map Payload.json), after))
    : perform (repository.revisionsOf path) exchange =
        (.ok (payloads.map Payload.revision), after) := by
  rw [revisionsOf, perform_bind_ok (ExchangeM.perform_orElse_ok h _), perform_lift, mapM_map_json]
  rfl

end Repository

/-! Listings on three pages, of which the last one can be refused -/

def Payload.ofDay (id : String) : Payload :=
  let author : Json := .ofFields [("date", .text "2024-01-01")]
  let commit : Json := .ofFields [("author", author)]
  { json := .ofFields [("sha", .text id), ("commit", commit)]
    id := .text id
    commit
    author
    name := none
    email := none
    written := "2024-01-01"
    date := ⟨⟨2024, 1, 1, by decide⟩, .midnight, .universal⟩
    message := none
    identified := rfl
    committed := rfl
    authored := rfl
    named := rfl
    addressed := rfl
    dated := rfl
    legible := by cbv
    told := rfl }

def Payload.write (payloads : List Payload) : String :=
  .ofList (Json.list (payloads.map Payload.json)).write

structure Response where
  status : Nat
  link : Option String
  body : String

namespace Response

def nextLink : Text.Pattern :=
  [.exactly "<".toList, .run (· ≠ '>') .longest, .exactly ">; rel=\"next\"".toList, .ending]

def links (response : Response) : List (String × List (String × String)) :=
  match response.link.bind (nextLink.captured? ·.toList) with
  | some [address] => [("next", [("url", .ofList address), ("rel", "next")])]
  | _ => []

end Response

def Client.plain : Client Response where
  status := Response.status
  isOk response := response.status < 400
  header? response name := if name = "Link" then response.link else none
  links := Response.links
  json response := (Json.read response.body.toList).mapError fun _ => .notJson
  content response := response.body.toUTF8

theorem Client.isLawful_plain : plain.IsLawful where
  isOk_iff _ := decide_eq_true_iff

def Payload.AreWritten (payloads : List Payload) : Prop :=
  Json.read (write payloads).toList = .ok (.list (payloads.map json))

def Page.written (payloads : List Payload) (link : Option String)
    (h : Payload.AreWritten payloads) : Page Client.plain where
  response := ⟨200, link, Payload.write payloads⟩
  items := payloads.map Payload.json
  accepted := by
    change 200 < 400
    decide
  legible := congrArg (Except.mapError _) h

theorem areWritten_nil : Payload.AreWritten [] := by
  unfold Payload.AreWritten
  cbv

set_option maxRecDepth 20000 in
theorem areWritten_first : Payload.AreWritten [.ofDay "a"] := by
  unfold Payload.AreWritten
  cbv

set_option maxRecDepth 20000 in
theorem areWritten_last : Payload.AreWritten [.ofDay "b"] := by
  unfold Payload.AreWritten
  cbv

def twoPages : List (Page Client.plain) :=
  [.written [.ofDay "a"] (some "<https://api.github.com/2>; rel=\"next\"") areWritten_first,
    .written [] (some "<https://api.github.com/3>; rel=\"next\"") areWritten_nil]

theorem isSome_next?_of_mem_twoPages : ∀ page ∈ twoPages, page.next?.isSome := by
  decide +kernel

def Listing.ofThree : Listing Client.plain where
  front := twoPages
  last := .written [.ofDay "b"] none areWritten_last
  links := isSome_next?_of_mem_twoPages
  ends := rfl

def BrokenListing.ofThree : BrokenListing Client.plain where
  front := twoPages
  refusal := .answered ⟨502, none, ""⟩
  links := isSome_next?_of_mem_twoPages
  refused := by
    change 400 ≤ 502
    decide

namespace Repository

/--
The commits of a listing are those of all its pages, with one request for each page, and there has
to be one. A listing that breaks off has no commits.
-/
theorem commits_whole_or_refused (repository : Repository ρ)
    (lawful : repository.client.IsLawful) (path : String) (exchange : Exchange ρ)
    (later : List (Reply ρ))
    : (∀ (listing : Listing repository.client) (payloads : List Payload),
        listing.items = payloads.map Payload.json →
        exchange.pending = listing.replies ++ later →
          let after (path : String) : Exchange ρ := { exchange with
            pending := later
            sent := exchange.sent ++ listing.requests (repository.opening path) }
          (listing.requests (repository.opening path)).length = listing.pages.length
            ∧ perform repository.allCommits exchange =
              (if payloads.isEmpty then .error (.repository (.noCommits repository.slug))
                else .ok (payloads.zipIdx.map fun (payload, position) => payload.entry position),
                after "")
            ∧ perform (repository.revisionsOf path) exchange =
              (.ok (payloads.map Payload.revision), after path))
      ∧ ∀ listing : BrokenListing repository.client, exchange.pending = listing.replies ++ later →
          let after (path : String) : Exchange ρ := { exchange with
            pending := later
            sent := exchange.sent ++ listing.requests (repository.opening path) }
          (∃ fault, listing.LeadsTo (repository.opening "") fault
            ∧ perform repository.allCommits exchange =
              (.error (.repository (.unlistedCommits repository.slug fault.message)), after ""))
          ∧ ∃ fault, listing.LeadsTo (repository.opening path) fault
            ∧ perform (repository.revisionsOf path) exchange =
              (.error (.revision (.unreadableHistory path fault.message)), after path) := by
  constructor
  . intro listing payloads hitems hpending after
    have hhistory (path : String)
        : perform (repository.history path) exchange =
          (.ok (payloads.map Payload.json), after path) := by
      rw [repository.perform_history_listing lawful hpending, hitems]
    exact ⟨listing.length_requests _, repository.perform_allCommits (hhistory ""),
      repository.perform_revisionsOf (hhistory path)⟩
  . intro listing hpending after
    constructor
    . obtain ⟨fault, hfault, hhistory⟩ := repository.perform_history_broken lawful hpending ""
      refine ⟨fault, hfault, ?_⟩
      rw [allCommits, perform_bind_error (ExchangeM.perform_orElse_service hhistory _)]
    . obtain ⟨fault, hfault, hhistory⟩ := repository.perform_history_broken lawful hpending path
      refine ⟨fault, hfault, ?_⟩
      rw [revisionsOf, perform_bind_error (ExchangeM.perform_orElse_service hhistory _)]

theorem three_pages_whole_or_refused
    : let repository : Repository Response := ⟨Client.plain, ⟨"o", "r"⟩, ""⟩
    let whole := perform repository.allCommits (.start Listing.ofThree.replies)
    whole.1 = .ok [(Payload.ofDay "a").entry 0, (Payload.ofDay "b").entry 1]
      ∧ whole.2.sent =
        [⟨"https://api.github.com/repos/o/r/commits", some [("per_page", .number 100)], []⟩,
          ⟨"https://api.github.com/2", none, []⟩, ⟨"https://api.github.com/3", none, []⟩]
      ∧ (perform (repository.revisionsOf "A.java") (.start BrokenListing.ofThree.replies)).1 =
        .error (.revision (.unreadableHistory "A.java"
          "GitHub API returned 502 for https://api.github.com/3")) := by
  intro repository whole
  obtain ⟨-, hwhole, -⟩ := (commits_whole_or_refused repository Client.isLawful_plain "A.java"
    (.start Listing.ofThree.replies) []).1 .ofThree [.ofDay "a", .ofDay "b"] rfl
    (List.append_nil _).symm
  obtain ⟨-, fault, ⟨last, hlast, hfault⟩, hbroken⟩ :=
    (commits_whole_or_refused repository Client.isLawful_plain "A.java"
      (.start BrokenListing.ofThree.replies) []).2 .ofThree (List.append_nil _).symm
  have hlast' : (BrokenListing.ofThree.requests (repository.opening "A.java")).getLast? =
      some ⟨"https://api.github.com/3", none, []⟩ := by decide +kernel
  rw [hlast'] at hlast
  cases hlast
  have hrefused : fault = .refused "https://api.github.com/3" 502 := by
    cases hfault
    rfl
  subst hrefused
  refine ⟨congrArg Prod.fst hwhole, ?_, congrArg Prod.fst hbroken⟩
  rw [show whole.2 = _ from congrArg Prod.snd hwhole]
  change Listing.ofThree.requests (repository.opening "") = _
  decide +kernel

end Repository
end Hosted
end MethodHistory
