import DocQuery.Pipeline.Query

/-!
# Writes

The commands that change documents and the terms they become. What the
configuration asks for beyond the store's own defaults goes with them as
optional arguments.
-/

namespace DocQuery

/-- The fields of a document to write. -/
abbrev Fields := Entries Json

inductive Write
  | insert (table : String) (fields : Fields)
  | insertAll (table : String) (rows : List Fields)
  | update (table : String) (key : Json) (fields : Fields)
  | delete (table : String) (key : Json)
  /-- Patches every row that the query's filters keep. -/
  | updateAll (q : Query) (params : Params) (updates : List Expr)
  | deleteAll (q : Query) (params : Params)

namespace Config

/-- Attaches the options of a write. What to do on a conflict is a question only
for inserts. -/
def withWriteOptions (c : Config) (isInsert : Bool) (t : Term) : Term :=
  let t := if isInsert && c.conflict != .error
    then t.withOptarg "conflict" (.string c.conflict.name) else t
  let t := if c.durability = .soft then t.withOptarg "durability" (.string "soft") else t
  if c.returnChanges then t.withOptarg "return_changes" (.bool true) else t

def insertTerm (c : Config) (table : String) (fields : Fields) : Term :=
  c.withWriteOptions true ((Term.table c.database table).insert (.datum (.object fields)))

def insertAllTerm (c : Config) (table : String) (rows : List Fields) : Term :=
  c.withWriteOptions true
    ((Term.table c.database table).insert (.datum (.array (rows.map .object))))

def updateTerm (c : Config) (table : String) (key : Json) (fields : Fields) : Term :=
  c.withWriteOptions false
    (((Term.table c.database table).get (.datum key)).update (.datum (.object fields)))

def deleteTerm (c : Config) (table : String) (key : Json) : Term :=
  c.withWriteOptions false ((Term.table c.database table).get (.datum key)).delete

end Config

/-- The first name that is among those seen or repeats an earlier one. -/
def firstRepeat? (seen : List String) : List String → Option String
  | [] => none
  | name :: rest => if name ∈ seen then some name else firstRepeat? (name :: seen) rest

theorem firstRepeat?_eq_none_iff (seen names : List String) :
    firstRepeat? seen names = none ↔ names.Nodup ∧ ∀ name ∈ names, name ∉ seen := by
  induction names generalizing seen with
  | nil => simp [firstRepeat?]
  | cons name rest ih =>
    by_cases h : name ∈ seen
    · simp [firstRepeat?, h]
    · rw [firstRepeat?, if_neg h, ih, List.nodup_cons]
      constructor
      · rintro ⟨hn, hs⟩
        refine ⟨⟨fun hr => hs name hr (List.mem_cons_self ..), hn⟩, ?_⟩
        intro other ho
        rcases List.mem_cons.1 ho with rfl | ho
        · exact h
        · exact fun hseen => hs other ho (List.mem_cons_of_mem _ hseen)
      · rintro ⟨⟨hr, hn⟩, hs⟩
        refine ⟨hn, ?_⟩
        intro other ho hmem
        rcases List.mem_cons.1 hmem with rfl | hseen
        · exact hr ho
        · exact hs other (List.mem_cons_of_mem _ ho) hseen

namespace Setting

/-- The new field values of one stored row; no field may be set twice. -/
def patch (s : Setting) (updates : List Expr) (row : Term) : Compile Term := do
  let entries ← updates.mapM (Expr.compileUpdate s.engine s.params row)
  match firstRepeat? [] (entries.map (·.1)) with
  | some name => throw (.fieldUpdatedTwice name)
  | none => return .makeObject entries

def updateAllTerm (s : Setting) (scope : Pipeline) (updates : List Expr) : Compile Term := do
  if updates.isEmpty then throw .noUpdates
  else
    let f ← Compile.lambda (s.patch updates)
    return s.config.withWriteOptions false (scope.term.update f)

def deleteAllTerm (s : Setting) (scope : Pipeline) : Term :=
  s.config.withWriteOptions false scope.term.delete

end Setting

end DocQuery
