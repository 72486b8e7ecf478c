import MethodHistory.Failure

/-!
This module contains the requests to the hosting service and its replies, as the client sees them
that sends the requests.
-/

namespace MethodHistory
namespace Hosted

inductive Parameter where
  | text (value : String)
  | number (value : Nat)
  deriving DecidableEq

/--
Linked pages are asked for as they are, without parameters.
-/
structure Request where
  address : String
  parameters : Option (List (String × Parameter))
  headers : List (String × String)
  deriving DecidableEq

def Request.patience : Nat :=
  30

/--
What a library for requests tells of a response. A link has the name of its relation, and an address
among its attributes.
-/
structure Client (ρ : Type) where
  status : ρ → Nat
  isOk : ρ → Bool
  header? : ρ → String → Option String
  links : ρ → List (String × List (String × String))
  json : ρ → Except PayloadFault Json
  content : ρ → ByteArray

variable {ρ : Type}

namespace Client

structure IsLawful (client : Client ρ) : Prop where
  isOk_iff (response : ρ) : client.isOk response ↔ client.status response < 400

def next? (client : Client ρ) (response : ρ) : Option String :=
  (((client.links response).lookup "next").bind (·.lookup "url")).filter (!·.isEmpty)

end Client

inductive Reply (ρ : Type) where
  | failed (reason : String)
  | answered (response : ρ)

namespace Reply

variable (client : Client ρ)

def isMissing : Reply ρ → Bool
  | failed _ => false
  | answered response => client.status response = 404

def response (address what : String) : Reply ρ → Except ServiceFault ρ
  | failed reason => .error (.requestFailed address reason)
  | answered response =>
    if client.status response = 403
        ∧ client.header? response "X-RateLimit-Remaining" = some "0" then
      .error (.rateLimit what)
    else if !client.isOk response then .error (.refused what (client.status response))
    else .ok response

end Reply
end Hosted
end MethodHistory
