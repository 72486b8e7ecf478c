import MethodHistory.Hosted.Exchange

/-!
This module contains listings that come in pages: each page links to the next one, and a listing is
gathered from all of its pages or not at all.
-/

namespace MethodHistory
namespace Hosted

structure Gathering (ρ β : Type) where
  result : Except Failure β
  sent : List Request
  left : List (Reply ρ)

variable {ρ β : Type} (client : Client ρ)

def page (address : String) (reply : Reply ρ) : Except Failure (Json × Option String) := do
  let response ← (reply.response client address address).mapError .service
  let json ← (client.json response).mapError .payload
  pure (json, client.next? response)

def gather (take : β → Json → Except PayloadFault β) (gathered : β) (request : Request)
    : List (Reply ρ) → Gathering ρ β
  | [] => ⟨.error (.service (.requestFailed request.address "no reply")), [request], []⟩
  | reply :: replies =>
    let taken := do
      let (body, next) ← page client request.address reply
      let gathered ← (body.items >>= List.foldlM take gathered).mapError Failure.payload
      pure (gathered, next)
    match taken with
    | .error failure => ⟨.error failure, [request], replies⟩
    | .ok (gathered, none) => ⟨.ok gathered, [request], replies⟩
    | .ok (gathered, some address) =>
      let rest := gather take gathered ⟨address, none, []⟩ replies
      { rest with sent := request :: rest.sent }

end Hosted
end MethodHistory
