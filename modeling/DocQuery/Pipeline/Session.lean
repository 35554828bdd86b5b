import DocQuery.Pipeline.Query

/-!
# Sessions

A pipeline that is built by single calls, in any order and with one counter for
all of them. A call that is rejected leaves the pipeline as it was, but the
numbers that it drew stay drawn.
-/

namespace DocQuery

/-- One call of a session. -/
inductive Stage
  | source (table : Source)
  | joins (joins : List Join)
  | filters (conditions : List Expr)
  | groupBy (keys : List Expr)
  | having (conditions : List Expr)
  | orderBy (order : List OrderTerm)
  | offset (count : Option Expr)
  | limit (count : Option Expr)
  | select (projection : Expr) (preloads : List Nat)
  | distinct (d : Distinct)
  /-- The pipeline of a whole query in the place of what was built before. -/
  | build (q : Query)
  | writeScope (q : Query)

def Stage.run (s : Setting) (p : Pipeline) : Stage → Compile Pipeline
  | .source table => return Pipeline.ofSource s table
  | .joins js => p.joins s js
  | .filters conditions => p.filterAll s conditions
  | .groupBy keys => p.groupBy s keys
  | .having conditions => p.having s conditions
  | .orderBy order => p.orderBy s order
  | .offset count => p.offset s count
  | .limit count => p.limit s count
  | .select projection preloads => p.select s projection preloads
  | .distinct d => p.distinct d
  | .build q => Pipeline.ofQuery s q
  | .writeScope q => Pipeline.writeScope s q

structure Session where
  pipeline : Pipeline
  /-- The next free number. -/
  next : Nat

namespace Session

/-- A session that has read one table and drawn no number. -/
def start (s : Setting) (source : Source) : Session := ⟨Pipeline.ofSource s source, 1⟩

/-- The answer to a call and the session after it. -/
def call (s : Setting) (session : Session) (stage : Stage) :
    Except Rejection Pipeline × Session :=
  match (stage.run s session.pipeline).runFrom session.next with
  | (.ok p, next) => (.ok p, ⟨p, next⟩)
  | (.error r, next) => (.error r, { session with next })

def run (s : Setting) (session : Session) (stages : List Stage) : Session :=
  stages.foldl (fun session stage => (session.call s stage).2) session

end Session

end DocQuery
