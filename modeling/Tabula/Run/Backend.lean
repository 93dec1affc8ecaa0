import Tabula.Error

/-!
# Backends

A backend answers searches. A recorded backend answers from a queue of responses and keeps every
request that it received (`Recorded.search`); a silent backend never answers, so that every
search is given up when its time is over.
-/

set_option autoImplicit false

namespace Tabula

abbrev Reply := Except BackendError Json

/-- A request together with the index that it is for. -/
abbrev Sent := String × Json

/-! ## Recorded responses -/

/-- A backend with the responses that are left and the requests received so far, both oldest
first. -/
structure Recorded where
  responses : List Reply
  requests : List Sent
  deriving Inhabited

namespace Recorded

def ofResponses (responses : List Reply) : Recorded := { responses, requests := [] }

/-- Keeps a request and answers it with the next response. -/
def search (index : String) (request : Json) (r : Recorded) : Reply × Recorded :=
  let requests := r.requests ++ [(index, request)]
  match r.responses with
  | [] => (.error (.exhausted index), { r with requests })
  | reply :: rest => (reply, { responses := rest, requests })

def searchEach (r : Recorded) : List Sent → List Reply × Recorded
  | [] => ([], r)
  | (index, request) :: rest =>
      let (reply, r) := r.search index request
      let (replies, r) := searchEach r rest
      (reply :: replies, r)

/-- Sends every request, then answers with all responses or the first failure. -/
def batch (requests : List Sent) (r : Recorded) : Except BackendError (List Json) × Recorded :=
  let (replies, r) := r.searchEach requests
  (replies.mapM id, r)

end Recorded

/-! ## Backends -/

inductive Backend where
  | recorded (r : Recorded)
  /-- No search is answered within the given milliseconds. -/
  | silent (limit : Nat)
  deriving Inhabited

namespace Backend

def search (index : String) (request : Json) : Backend → Reply × Backend
  | recorded r =>
      let (reply, r) := r.search index request
      (reply, recorded r)
  | silent limit => (.error (.timeout (limit / 1000)), silent limit)

def requests : Backend → List Sent
  | recorded r => r.requests
  | silent _ => []

end Backend

end Tabula
