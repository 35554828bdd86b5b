import DocQuery.Rejection
import DocQuery.Reply.Description

/-!
# Failures of repository requests

Why a request gave no answer: it did not compile, the store could not be
reached, the store refused it, or the reply has a shape that the request cannot
use.
-/

namespace DocQuery

/-- A failure to talk to the store, as opposed to a reply that tells of an error. -/
inductive ConnectorFailure
  | connection (text : String)
  | timeout
  | protocol (text : String)
deriving DecidableEq

def ConnectorFailure.message : ConnectorFailure → String
  | .connection text => "connection failed: " ++ text
  | .timeout => "store did not answer in time"
  | .protocol text => "protocol error: " ++ text

/-- The shape of reply that a request can use. -/
inductive Shape
  | documents
  | scalar
  | summary
deriving DecidableEq

def Shape.name : Shape → String
  | .documents => "documents"
  | .scalar => "a scalar"
  | .summary => "a write summary"

inductive Failure
  | rejected (r : Rejection)
  | connector (f : ConnectorFailure)
  /-- The store told of an error. -/
  | store (text : String)
  | unexpected (wanted : Shape) (got : Reply)

namespace Failure

def message : Failure → String
  | .rejected r => r.message
  | .connector f => f.message
  | .store text => "store error: " ++ text
  | .unexpected wanted got =>
    "unexpected store response: expected " ++ wanted.name ++ ", got " ++ got.describe

/-- The message of the failure underneath, if there is one. -/
def cause? : Failure → Option String
  | .rejected r => some r.message
  | .connector f => some f.message
  | _ => none

end Failure

end DocQuery
