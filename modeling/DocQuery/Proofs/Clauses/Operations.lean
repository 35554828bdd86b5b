import DocQuery.Proofs.Acceptance.Query

/-!
# The operations of a query

`Term.chain` reads a term along first arguments, from the outermost operation to
the table where it starts. `Query.operations` lists, clause by clause, what has
to be met on the way: the kind of every operation and what its other arguments
are compiled from. `Term.Follows` compares the two.
-/

namespace DocQuery

/-- The operations along first arguments, from the outside in, each with its
other arguments. A table is where a chain ends. -/
def Term.chain : Term → List (Term.Kind × List Term)
  | .op .table args _ => [(.table, args)]
  | .op kind (t :: rest) _ => (kind, rest) :: t.chain
  | t => [(t.kind, t.args)]

/-- The term is the function of one element that the expression compiles to,
from some number on. -/
def Expr.CompilesToFunc (engine : RegexEngine) (params : Params) (scope : Term → Scope)
    (e : Expr) (f : Term) : Prop :=
  ∃ n k, (Compile.lambda fun element => e.compile engine params (scope element)).Yields n f k

/-- The term is the key of the order term, in its direction. -/
def OrderTerm.CompilesTo (engine : RegexEngine) (params : Params) (scope : Term → Scope)
    (o : OrderTerm) (t : Term) : Prop :=
  ∃ f, o.key.CompilesToFunc engine params scope f ∧
    t = match o.direction with
      | .ascending => .asc f
      | .descending => .desc f

/-- An operation on a sequence, with what its other arguments come from. -/
inductive Operation
  /-- No other arguments. -/
  | bare (kind : Term.Kind)
  /-- The function of one element that an expression compiles to. -/
  | each (kind : Term.Kind) (e : Expr) (scope : Term → Scope)
  /-- A function of one element that no expression takes part in. -/
  | fixed (kind : Term.Kind) (body : Term → Term)
  | orderBy (order : List OrderTerm) (scope : Term → Scope)
  | count (kind : Term.Kind) (e : Expr)
  /-- A join of the records of the earlier relations with one more table. -/
  | pair (j : Join) (earlier : List (Option String))
  | table (source : Source)

namespace Operation

def kind : Operation → Term.Kind
  | .bare kind | .each kind .. | .fixed kind _ | .count kind _ => kind
  | .orderBy .. => .orderBy
  | .pair j _ => if j.condition.isTrivial then .eqJoin else .innerJoin
  | .table _ => .table

/-- What stands beside the sequence. A join by association names the field of
the one link that backs it before the table; any other names the table first. -/
def Takes (s : Setting) : Operation → List Term → Prop
  | .bare _, args => args = []
  | .each _ e scope, args => ∃ f, e.CompilesToFunc s.engine s.params scope f ∧ args = [f]
  | .fixed _ body, args => ∃ n, args = [.func [n] (body (.var n))]
  | .orderBy order scope, args =>
    List.Forall₂ (OrderTerm.CompilesTo s.engine s.params scope) order args
  | .count _ e, args =>
    ∃ m n k, m.isCount ∧ (e.compile s.engine s.params .empty).Yields n (.datum (.number m)) k ∧
      args = [.datum (.number m)]
  | .pair j earlier, args =>
    if j.condition.isTrivial then
      ∃ r link key, s.catalog.resolve earlier j.source = .ok (r, link) ∧
        (Expr.field r link.leftKey).CompilesToFunc s.engine s.params (.row · earlier.length) key ∧
        args = [key, .table s.config.database j.source.table]
    else
      ∃ n f k, (Compile.lambda₂ fun left right =>
          j.condition.compile s.engine s.params (.pair left earlier.length right)).Yields n f k ∧
        args = [.table s.config.database j.source.table, f]
  | .table source, args => args = (Term.table s.config.database source.table).args

/-- The entry of a chain is this operation. -/
structure Runs (s : Setting) (o : Operation) (entry : Term.Kind × List Term) : Prop where
  kind_eq : entry.1 = o.kind
  takes : o.Takes s entry.2

/-! ## The operations of each clause -/

/-- The scope of one element: a record, or a group if there are keys. -/
def elementScope (keys : List Expr) (width : Nat) (element : Term) : Scope :=
  if keys = [] then .row element width else .bucket element keys width

def filters (scope : Term → Scope) (conditions : List Expr) : List Operation :=
  if conditions = [] then [] else [.each .filter (.and conditions) scope]

def groups (scope : Term → Scope) (keys : List Expr) : List Operation :=
  if keys = [] then [] else [.bare .ungroup, .each .group (.list keys) scope]

def orders (scope : Term → Scope) (order : List OrderTerm) : List Operation :=
  if order = [] then [] else [.orderBy order scope]

def counts (kind : Term.Kind) (e? : Option Expr) : List Operation :=
  e?.toList.map (.count kind)

/-- The joins from last to first, each under the merge of its pairs. -/
def joins (earlier : List (Option String)) : List Join → List Operation
  | [] => []
  | j :: rest =>
    joins (earlier ++ [j.source.schema]) rest ++
      [.fixed .map (Pipeline.merge earlier.length), .pair j earlier]

/-- Groups are turned back into their records. -/
def flattening (keys : List Expr) : List Operation :=
  if keys = [] then [] else [.fixed .concatMap fun group => group.bracket "reduction"]

/-- Whole rows are picked from records of several relations only; anything else
is computed for each element. -/
def projection (keys : List Expr) (width : Nat) (e : Expr) (preloads : List Nat) :
    List Operation :=
  match Pipeline.shape? e preloads with
  | none => (if width = 1 then [] else [.each .map e (.row · width)]) ++ flattening keys
  | some shape => [.each .map shape (elementScope keys width)]

def distinct : Distinct → List Operation
  | .flag true => [.bare .distinct]
  | _ => []

end Operation

namespace Query

/-- The operations from the limit inward, down to the table of the source. -/
def rowOperations (q : Query) : List Operation :=
  Operation.counts .limit q.limit ++
  (Operation.counts .skip q.offset ++
  (Operation.orders (Operation.elementScope q.groupKeys q.width) q.order ++
  (Operation.filters (Operation.elementScope q.groupKeys q.width) q.having ++
  (Operation.groups (.row · q.width) q.groupKeys ++
  (Operation.filters (.row · q.width) q.filters ++
  (Operation.joins [q.source.schema] q.joins ++ [.table q.source]))))))

/-- All operations of a query whose projection is no total. -/
def operations (q : Query) : List Operation :=
  Operation.distinct q.distinct ++
  (Operation.projection q.groupKeys q.width q.projection q.preloads ++ q.rowOperations)

end Query

/-! ## Terms that follow operations -/

/-- Along first arguments, the term is exactly these operations. -/
def Term.Follows (s : Setting) (ops : List Operation) (t : Term) : Prop :=
  List.Forall₂ (Operation.Runs s) ops t.chain

namespace Term

variable {s : Setting} {ops : List Operation} {t : Term}

theorem chain_op {kind : Kind} {rest : List Term} {os : List (String × Term)}
    (h : kind ≠ .table) : (op kind (t :: rest) os).chain = (kind, rest) :: t.chain := by
  cases kind with
  | table => exact absurd rfl h
  | _ => rfl

theorem chain_table (db : Option String) (name : String) :
    (table db name).chain = [(.table, (table db name).args)] := by
  cases db <;> rfl

theorem Follows.kinds_eq (h : t.Follows s ops) : t.chain.map (·.1) = ops.map Operation.kind := by
  rw [Follows] at h
  generalize t.chain = entries at h ⊢
  induction h with
  | nil => rfl
  | cons head _ ih => rw [List.map_cons, List.map_cons, head.kind_eq, ih]

/-- One more operation around a term. -/
theorem Follows.op {o : Operation} {kind : Kind} {rest : List Term}
    {os : List (String × Term)} (h : t.Follows s ops) (hkind : o.kind = kind)
    (hne : kind ≠ .table) (htakes : o.Takes s rest) :
    (Term.op kind (t :: rest) os).Follows s (o :: ops) := by
  rw [Follows, chain_op hne]
  exact .cons ⟨hkind.symm, htakes⟩ h

theorem follows_table (source : Source) :
    (table s.config.database source.table).Follows s [.table source] := by
  rw [Follows, chain_table]
  exact .cons ⟨rfl, rfl⟩ .nil

end Term

/-! ## What each clause adds -/

namespace Pipeline

open Compile

/-- A pipeline under construction: its relations, its keys, and the operations
that its term follows. -/
structure Built (s : Setting) (relations : List (Option String)) (keys : List Expr)
    (ops : List Operation) (p : Pipeline) : Prop where
  relations_eq : p.relations = relations
  groupKeys_eq : p.groupKeys = keys
  scalar_eq : p.scalar = false
  follows : p.term.Follows s ops

variable {s : Setting} {relations : List (Option String)} {keys : List Expr}
  {ops : List Operation} {p p' : Pipeline} {n k : Nat}

namespace Built

theorem width_eq (h : p.Built s relations keys ops) : p.width = relations.length :=
  congrArg List.length h.relations_eq

/-- A clause around the term that leaves the elements as they are. -/
theorem mapTerm {o : Operation} {f : Term → Term} {rest : List Term}
    (h : p.Built s relations keys ops)
    (hf : f p.term = .call o.kind (p.term :: rest)) (hne : o.kind ≠ .table)
    (htakes : o.Takes s rest) : (p.mapTerm f).Built s relations keys (o :: ops) := by
  refine ⟨h.relations_eq, h.groupKeys_eq, h.scalar_eq, ?_⟩
  show (f p.term).Follows s (o :: ops)
  rw [hf]
  exact h.follows.op rfl hne htakes

theorem ofSource (source : Source) :
    (Pipeline.ofSource s source).Built s [source.schema] [] [.table source] :=
  ⟨rfl, rfl, rfl, Term.follows_table source⟩

theorem elementScope_eq (h : p.Built s relations keys ops) :
    p.elementScope = Operation.elementScope keys relations.length := by
  funext element
  rw [elementScope, Operation.elementScope, h.width_eq, h.groupKeys_eq]
  by_cases hkeys : keys = []
  · rw [if_pos hkeys, if_neg (by simp [isGrouped, h.groupKeys_eq, hkeys])]
  · rw [if_neg hkeys, if_pos (by simp [isGrouped, h.groupKeys_eq, hkeys])]

theorem elementFunc (h : p.Built s relations keys ops) {e : Expr} {f : Term}
    (hf : (p.elementFunc s e).Yields n f k) :
    e.CompilesToFunc s.engine s.params (Operation.elementScope keys relations.length) f := by
  rw [Pipeline.elementFunc, h.elementScope_eq] at hf
  exact ⟨n, k, hf⟩

theorem filterAll (h : p.Built s relations keys ops) {conditions : List Expr}
    (hp' : (p.filterAll s conditions).Yields n p' k) :
    p'.Built s relations keys
      (Operation.filters (Operation.elementScope keys relations.length) conditions ++ ops) := by
  rcases yields_filterAll.mp hp' with ⟨rfl, rfl, -⟩ | ⟨hne, f, hf, rfl⟩
  · exact h
  · rw [Operation.filters, if_neg hne]
    exact h.mapTerm (o := .each .filter _ _) rfl Term.Kind.noConfusion ⟨f, h.elementFunc hf, rfl⟩

theorem having (h : p.Built s relations keys ops) {conditions : List Expr}
    (hp' : (p.having s conditions).Yields n p' k) :
    p'.Built s relations keys
      (Operation.filters (Operation.elementScope keys relations.length) conditions ++ ops) :=
  h.filterAll (yields_having.mp hp').1

theorem groupBy (h : p.Built s relations [] ops)
    (hp' : (p.groupBy s keys).Yields n p' k) :
    p'.Built s relations keys (Operation.groups (.row · relations.length) keys ++ ops) := by
  rcases yields_groupBy.mp hp' with ⟨rfl, rfl, -⟩ | ⟨hne, f, hf, rfl⟩
  · exact h
  · rw [Operation.groups, if_neg hne]
    have hgroup : (p.term.group f).Follows s
        (.each .group (.list keys) (.row · relations.length) :: ops) :=
      h.follows.op (o := .each .group _ _) rfl Term.Kind.noConfusion ⟨f, h.elementFunc hf, rfl⟩
    exact ⟨h.relations_eq, rfl, h.scalar_eq,
      hgroup.op (o := .bare .ungroup) rfl Term.Kind.noConfusion rfl⟩

theorem orderKeys (h : p.Built s relations keys ops) {order : List OrderTerm} {ts : List Term}
    (hts : YieldsEach (p.orderKey s) order n ts k) :
    List.Forall₂
      (OrderTerm.CompilesTo s.engine s.params (Operation.elementScope keys relations.length))
      order ts := by
  induction hts with
  | nil => exact .nil
  | cons head _ ih =>
      obtain ⟨f, hf, rfl⟩ := yields_orderKey.mp head
      exact .cons ⟨f, h.elementFunc hf, rfl⟩ ih

theorem orderBy (h : p.Built s relations keys ops) {order : List OrderTerm}
    (hp' : (p.orderBy s order).Yields n p' k) :
    p'.Built s relations keys
      (Operation.orders (Operation.elementScope keys relations.length) order ++ ops) := by
  rcases yields_orderBy.mp hp' with ⟨rfl, rfl, -⟩ | ⟨hne, ts, hts, rfl⟩
  · exact h
  · rw [Operation.orders, if_neg hne]
    exact h.mapTerm (o := .orderBy _ _) rfl Term.Kind.noConfusion (h.orderKeys hts)

theorem counted (h : p.Built s relations keys ops) (kind : Term.Kind) (hne : kind ≠ .table)
    {clause : String} {e? : Option Expr}
    (hp' : (p.counted s clause (fun t c => .call kind [t, c]) e?).Yields n p' k) :
    p'.Built s relations keys (Operation.counts kind e? ++ ops) := by
  rcases yields_counted.mp hp' with ⟨rfl, rfl, -⟩ | ⟨e, c, rfl, hc, rfl⟩
  · exact h
  · obtain ⟨m, hm, hcount, rfl⟩ := Expr.yields_compileCount.mp hc
    exact h.mapTerm (o := .count kind e) rfl hne ⟨m, n, k, hcount, hm, rfl⟩

/-! ### Joins -/

theorem paired (h : p.Built s relations [] ops) {j : Join} {t : Term}
    (ht : (p.paired s j).Yields n t k) : t.Follows s (.pair j relations :: ops) := by
  by_cases hj : j.condition.isTrivial = true
  · rw [Pipeline.paired, if_pos hj] at ht
    obtain ⟨r, link, slot, hlink, hslot, rfl, rfl⟩ := yields_pairByLink.mp ht
    rw [h.relations_eq] at hlink
    rw [h.width_eq] at hslot
    have hkey : (Expr.field r link.leftKey).CompilesToFunc s.engine s.params
        (.row · relations.length) (.func [n] (slot.bracket link.leftKey)) := by
      refine ⟨n, n + 1, yields_lambda.mpr ⟨_, Expr.yields_compile_iff.mpr (.field rfl ?_), rfl⟩⟩
      exact (Scope.field_eq_ok_iff rfl).mpr ⟨slot, hslot, rfl⟩
    have htakes : (Operation.pair j relations).Takes s
        [.func [n] (slot.bracket link.leftKey), .table s.config.database j.source.table] := by
      rw [Operation.Takes, if_pos hj]
      exact ⟨r, link, _, hlink, hkey, rfl⟩
    -- an index is an optional argument and no part of the chain
    split_ifs
    · exact h.follows.op (if_pos hj) (by decide) htakes
    · exact h.follows.op (if_pos hj) (by decide) htakes
  · rw [Pipeline.paired, if_neg hj] at ht
    obtain ⟨body, hbody, rfl⟩ := yields_pairByPredicate.mp ht
    rw [h.width_eq] at hbody
    have htakes : (Operation.pair j relations).Takes s
        [.table s.config.database j.source.table, .func [n, n + 1] body] := by
      rw [Operation.Takes, if_neg hj]
      exact ⟨n, _, k, yields_lambda₂.mpr ⟨body, hbody, rfl⟩, rfl⟩
    exact h.follows.op (if_neg hj) (by decide) htakes

theorem join (h : p.Built s relations [] ops) {j : Join} (hp' : (p.join s j).Yields n p' k) :
    p'.Built s (relations ++ [j.source.schema]) []
      (.fixed .map (merge relations.length) :: .pair j relations :: ops) := by
  obtain ⟨t, m, ht, -, rfl⟩ := yields_join.mp hp'
  refine ⟨by rw [h.relations_eq], h.groupKeys_eq, h.scalar_eq, ?_⟩
  refine (h.paired ht).op (o := .fixed .map _) rfl Term.Kind.noConfusion ⟨m, ?_⟩
  rw [h.width_eq]

theorem joins (h : p.Built s relations [] ops) {js : List Join}
    (hp' : (p.joins s js).Yields n p' k) :
    p'.Built s (relations ++ js.map (·.source.schema)) []
      (Operation.joins relations js ++ ops) := by
  induction js generalizing p n relations ops with
  | nil =>
      obtain ⟨rfl, -⟩ := yields_joins_nil.mp hp'
      simpa [Operation.joins] using h
  | cons j js ih =>
      obtain ⟨q, m, hq, hp'⟩ := yields_joins_cons.mp hp'
      simpa [Operation.joins] using ih (h.join hq) hp'

/-! ### Projections -/

theorem flattened (h : p.Built s relations keys ops) (hp' : p.flattened.Yields n p' k) :
    p'.Built s relations [] (Operation.flattening keys ++ ops) := by
  rcases yields_flattened.mp hp' with ⟨hg, rfl, -⟩ | ⟨hg, -, rfl⟩
  · obtain rfl : keys = [] := h.groupKeys_eq.symm.trans (isGrouped_eq_false.mp hg)
    exact h
  · have hne : keys ≠ [] := by
      rintro rfl
      rw [isGrouped_eq_false.mpr h.groupKeys_eq] at hg
      exact Bool.false_ne_true hg
    rw [Operation.flattening, if_neg hne]
    refine ⟨h.relations_eq, rfl, h.scalar_eq, ?_⟩
    exact h.follows.op (o := .fixed .concatMap _) rfl Term.Kind.noConfusion ⟨n, rfl⟩

theorem selectEntity (h : p.Built s relations keys ops) {r : Nat}
    (hp' : (p.selectEntity r).Yields n p' k) :
    p'.Built s relations []
      (Operation.projection keys relations.length (.entity r) [] ++ ops) := by
  show p'.Built s relations [] (((if _ then _ else _) ++ _) ++ ops)
  rw [List.append_assoc]
  obtain ⟨-, q, m, hq, hpick⟩ := yields_selectEntity.mp hp'
  have hflat := h.flattened hq
  rw [hflat.width_eq] at hpick
  rcases hpick with ⟨hone, rfl, -⟩ | ⟨hmany, slot, hslot, -, rfl⟩
  · rw [if_pos hone]
    exact hflat
  · rw [if_neg hmany]
    have hcompiles : (Expr.entity r).CompilesToFunc s.engine s.params (.row · relations.length)
        (.func [m] slot) :=
      ⟨m, m + 1, yields_lambda.mpr ⟨slot, Expr.yields_compile_iff.mpr (.entity rfl hslot), rfl⟩⟩
    exact hflat.mapTerm (o := .each .map _ _) rfl Term.Kind.noConfusion ⟨_, hcompiles, rfl⟩

end Built

end Pipeline

end DocQuery
