import DocQuery.Compiler
import DocQuery.Repository.Failure

/-!
# Repositories

A repository compiles a request, sends the term to the store and unwraps the
reply. How terms are sent is a parameter: any monad in which sending makes
sense. A request that does not compile sends nothing, and nothing is sent twice.
-/

namespace DocQuery

/-- What the store's end gives for one term. -/
abbrev Outcome := Except ConnectorFailure Reply

structure Repository (m : Type → Type) where
  compiler : Compiler
  send : Term → m Outcome

inductive Request
  /-- All documents of a query. -/
  | all (q : Query) (params : Params)
  /-- The value of a query that folds everything into one. -/
  | scalar (q : Query) (params : Params)
  | write (w : Write)
  /-- A term as it stands. -/
  | execute (t : Term)

inductive Answer
  | documents (docs : List Json)
  | value (v : Json)
  | summary (s : WriteSummary)
  | reply (r : Reply)

namespace Request

/-- The term that a request sends. -/
def term (c : Compiler) : Request → Except Rejection Term
  | .all q params | .scalar q params => c.compileQuery q params
  | .write w => c.compileWrite w
  | .execute t => .ok t

/-- A summary with errors is a failure: the first error of the store or, without
one, their number. -/
def answerSummary (s : WriteSummary) : Except Failure Answer :=
  if 0 < s.errors then
    .error (.store (s.firstError.getD (toString s.errors ++ " write errors")))
  else .ok (.summary s)

/-- What a reply other than an error means for a request. -/
def answerReply : Request → Reply → Except Failure Answer
  | .all .., .documents docs => .ok (.documents docs)
  | .all .., r => .error (.unexpected .documents r)
  | .scalar .., .scalar v => .ok (.value v)
  | .scalar .., r => .error (.unexpected .scalar r)
  | .write _, .summary s => answerSummary s
  | .write _, r => .error (.unexpected .summary r)
  | .execute _, r => .ok (.reply r)

/-- What an outcome means for a request. -/
def answer (request : Request) : Outcome → Except Failure Answer
  | .error f => .error (.connector f)
  | .ok (.error text) => .error (.store text)
  | .ok r => request.answerReply r

end Request

namespace Repository

variable {m : Type → Type} [Monad m]

/-- Compiles a request, sends its term once and unwraps the outcome. -/
def perform (r : Repository m) (request : Request) : m (Except Failure Answer) :=
  match request.term r.compiler with
  | .error e => return .error (.rejected e)
  | .ok t => do return request.answer (← r.send t)

end Repository

end DocQuery
