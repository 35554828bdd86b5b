import DocQuery.Proofs.Joins.Association
import DocQuery.Proofs.Store.Expr

/-!
# Joins are nested loops

`nestedLoop` joins tuples of documents: for every tuple and every document of
the next table, in order, the longer tuple if the join accepts it. The term that
the joins compile to has exactly these tuples as its value, a tuple of one
document being the document and a longer one the array of its documents.
-/

namespace DocQuery

/-- A tuple of documents as an element of a sequence. -/
def record : List Json → Json
  | [document] => document
  | documents => .array documents

/-- The right field is there and has the value of the left one. -/
def Backing.holds (b : Backing) (tuple : List Json) (right : Json) : Bool :=
  tuple[b.relation]?.any fun left => Store.holdsKey b.rightKey (left.fieldOrNull b.leftKey) right

/-- Whether a join extends the tuple by the document: where its condition is the
literal `true` by the declared association, else by the truth of the condition over
the longer tuple. -/
def Join.accepts (store : Store) (s : Setting) (relations : List (Option String)) (j : Join)
    (tuple : List Json) (right : Json) : Option Bool :=
  if j.condition.isTrivial then
    some (j.source.schema.any fun name =>
      (s.catalog.backings relations name).any fun b => b.holds tuple right)
  else (j.condition.value store s.params fun i => (tuple ++ [right])[i]?).map Json.isTrue

/-- One join as two loops. -/
def Join.extend (store : Store) (s : Setting) (relations : List (Option String)) (j : Join)
    (tuples : List (List Json)) : Option (List (List Json)) :=
  tuples.flatMapM fun t => (store.rows j.source.table).flatMapM fun r => do
    let accepted ← j.accepts store s relations t r
    return if accepted then [t ++ [r]] else []

/-- The joins one after another. -/
def nestedLoop (store : Store) (s : Setting) :
    List (Option String) → List Join → List (List Json) → Option (List (List Json))
  | _, [], tuples => some tuples
  | relations, j :: js, tuples => do
    nestedLoop store s (relations ++ [j.source.schema]) js (← j.extend store s relations tuples)

/-! ## Loops -/

section

variable {α β γ : Type} {f : α → Option (List β)}

theorem flatMapM_congr {g : α → Option (List β)} {l : List α} (h : ∀ a ∈ l, f a = g a) :
    l.flatMapM f = l.flatMapM g := by
  induction l with
  | nil => rfl
  | cons a l ih =>
      rw [List.forall_mem_cons] at h
      rw [List.flatMapM_cons, List.flatMapM_cons, h.1, ih h.2]

theorem flatMapM_map (g : γ → α) (l : List γ) :
    (l.map g).flatMapM f = l.flatMapM fun c => f (g c) := by
  induction l with
  | nil => rfl
  | cons c l ih => rw [List.map_cons, List.flatMapM_cons, List.flatMapM_cons, ih]

theorem flatMapM_some (g : α → List β) (l : List α) :
    (l.flatMapM fun a => some (g a)) = some (l.flatMap g) := by
  induction l with
  | nil => rfl
  | cons a l ih =>
      rw [List.flatMapM_cons, ih]
      rfl

theorem exists_of_mem_flatMapM {l : List α} {bs : List β} (h : l.flatMapM f = some bs) {b : β}
    (hb : b ∈ bs) : ∃ a ∈ l, ∃ cs, f a = some cs ∧ b ∈ cs := by
  induction l generalizing bs with
  | nil =>
      cases h
      cases hb
  | cons a l ih =>
      rw [List.flatMapM_cons] at h
      obtain ⟨cs, hcs, hrest⟩ := Option.bind_eq_some_iff.mp h
      obtain ⟨rest, htail, happend⟩ := Option.bind_eq_some_iff.mp hrest
      cases happend
      rcases List.mem_append.mp hb with hb | hb
      · exact ⟨a, List.mem_cons_self, cs, hcs, hb⟩
      · obtain ⟨a', ha', hfound⟩ := ih htail hb
        exact ⟨a', List.mem_cons_of_mem _ ha', hfound⟩

theorem flatMap_if (p : α → Bool) (g : α → β) (l : List α) :
    (l.flatMap fun a => if p a then [g a] else []) = (l.filter p).map g := by
  induction l with
  | nil => rfl
  | cons a l ih =>
      rw [List.flatMap_cons, ih, List.filter_cons]
      split
      · rfl
      · rfl

/-- What is done to all results can be done to those of one step at a time. -/
theorem flatMapM_bind_mapM (g : β → Option γ) (l : List α) :
    ((l.flatMapM f).bind fun bs => bs.mapM g) =
      l.flatMapM fun a => (f a).bind fun bs => bs.mapM g := by
  induction l with
  | nil => rfl
  | cons a l ih =>
      rw [List.flatMapM_cons, List.flatMapM_cons, ← ih]
      rcases f a with _ | bs
      · rfl
      rcases l.flatMapM f with _ | rest
      · cases h : bs.mapM g <;> simp [h]
      · simp [List.mapM_append]

end

/-- A join by association extends every tuple by its partners, whatever the
documents are: the store never stops at it. -/
theorem Join.extend_of_isTrivial {store : Store} {s : Setting} {relations : List (Option String)}
    {j : Join} (hj : j.condition.isTrivial = true) (tuples : List (List Json)) :
    j.extend store s relations tuples =
      some (tuples.flatMap fun t =>
        ((store.rows j.source.table).filter fun r => j.source.schema.any fun name =>
          (s.catalog.backings relations name).any fun b => b.holds t r).map fun r => t ++ [r]) := by
  simp only [Join.extend, Join.accepts, hj, if_true, Option.bind_eq_bind, Option.bind_some,
    Option.pure_def, flatMapM_some, flatMap_if]

/-! ## Records -/

theorem record_of_length_ne_one {t : List Json} (h : t.length ≠ 1) : record t = .array t := by
  match t with
  | [] | _ :: _ :: _ => rfl
  | [d] => exact absurd rfl h

section

variable {store : Store} {ρ : Env}

/-- The documents of a record are those of the tuple. -/
theorem documentAt_record {t : List Json} {i : Nat} (hi : i < t.length) :
    (record t).documentAt t.length i = t[i]? := by
  by_cases h : t.length = 1
  · obtain ⟨document, rfl⟩ := List.length_eq_one_iff.mp h
    obtain rfl : i = 0 := by omega
    rfl
  · rw [Json.documentAt, if_neg h, record_of_length_ne_one h]
    rfl

/-- Merging a record and a document gives the longer record. -/
theorem eval_merge {m : Nat} {t : List Json} (r : Json) (ht : 0 < t.length) :
    (Pipeline.merge t.length (.var m)).eval store (ρ.bind m (Store.pair (record t) r)) =
      some (record (t ++ [r])) := by
  by_cases h : t.length = 1
  · obtain ⟨d, rfl⟩ := List.length_eq_one_iff.mp h
    simp [Pipeline.merge, record]
  · have hlong : (t ++ [r]).length ≠ 1 := by
      rw [List.length_append, List.length_singleton]
      omega
    simp [Pipeline.merge, h, record_of_length_ne_one h, record_of_length_ne_one hlong]

/-! ## Conditions -/

/-- A document in the scope of a join condition is the one of the longer tuple. -/
theorem eval_document_pair {v v' i : Nat} {d : Term} {t : List Json} {r : Json}
    (hd : (Scope.pair (.var v) t.length (.var v')).document i = .ok d)
    (hv : ρ v = some (record t)) (hv' : ρ v' = some r) : d.eval store ρ = (t ++ [r])[i]? := by
  rw [Scope.document] at hd
  split at hd
  · rename_i hi
    cases hd
    rw [Term.eval_var, hv', hi, List.getElem?_concat_length]
  · have hi : i < t.length := (Scope.slot_eq_ok_iff.mp hd).1
    rw [Scope.eval_slot hd hv, documentAt_record hi, List.getElem?_append_left hi]

/-- A condition over the two halves of a pair has its value over the longer tuple. -/
theorem eval_condition {engine : RegexEngine} {params : Params} {e : Expr} {v v' n k : Nat}
    {body : Term} {t : List Json} {r : Json}
    (h : (e.compile engine params (.pair (.var v) t.length (.var v'))).Yields n body k)
    (hv : ρ v = some (record t)) (hv' : ρ v' = some r) :
    body.eval store ρ = e.value store params fun i => (t ++ [r])[i]? :=
  Expr.eval_of_yields_row rfl (fun _ _ hd => eval_document_pair hd hv hv') h

end

/-! ## What a pipeline stands for -/

/-- The value of the pipeline is the array of these tuples, if there are any, and
each has one document for every relation. -/
structure Pipeline.Denotes (store : Store) (ρ : Env) (p : Pipeline)
    (tuples? : Option (List (List Json))) : Prop where
  eval_term : p.term.eval store ρ = tuples?.map fun tuples => .array (tuples.map record)
  length_eq : ∀ tuples, tuples? = some tuples → ∀ t ∈ tuples, t.length = p.width

namespace Pipeline

open Compile

variable {store : Store} {s : Setting} {ρ : Env} {p p' : Pipeline} {n k : Nat}
  {tuples? : Option (List (List Json))}

theorem Denotes.items_eq (hp : p.Denotes store ρ tuples?) :
    (p.term.eval store ρ).bind Json.items? = tuples?.map (List.map record) := by
  rw [hp.eval_term]
  cases tuples? <;> rfl

/-- A loop over the elements is one over the tuples. -/
theorem Denotes.bind_flatMapM {f : Json → Option (List Json)} {g : List Json → Option (List Json)}
    (hp : p.Denotes store ρ tuples?) (h : ∀ t, t.length = p.width → f (record t) = g t) :
    ((p.term.eval store ρ).bind Json.items?).bind (List.flatMapM f) =
      tuples?.bind (List.flatMapM g) := by
  rw [hp.items_eq]
  rcases tuples? with _ | tuples
  · rfl
  · rw [Option.map_some, Option.bind_some, Option.bind_some, flatMapM_map]
    exact flatMapM_congr fun t ht => h t (hp.length_eq tuples rfl t ht)

/-- The pairs of a tuple with the documents that extend it. -/
def pairsOf (store : Store) (s : Setting) (relations : List (Option String)) (j : Join)
    (tuple : List Json) : Option (List Json) :=
  (store.rows j.source.table).flatMapM fun r => do
    let accepted ← j.accepts store s relations tuple r
    return if accepted then [Store.pair (record tuple) r] else []

theorem eval_pairByPredicate {j : Join} {t : Term} (hp : p.Denotes store ρ tuples?)
    (hj : j.condition.isTrivial = false) (ht : (p.pairByPredicate s j).Yields n t k) :
    t.eval store ρ =
      (tuples?.bind (List.flatMapM (pairsOf store s p.relations j))).map .array := by
  obtain ⟨body, hbody, rfl⟩ := yields_pairByPredicate.mp ht
  rw [Term.eval_innerJoin, Term.eval_table, Option.bind_some, Json.items?_array, Option.bind_some]
  refine congrArg (Option.map Json.array) (hp.bind_flatMapM fun tuple hwidth => ?_)
  refine flatMapM_congr fun r _ => ?_
  rw [← hwidth] at hbody
  have hleft : ((ρ.bind n (record tuple)).bind (n + 1) r) n = some (record tuple) := by
    rw [Env.bind_of_ne (by omega), Env.bind_self]
  rw [eval_condition hbody hleft (Env.bind_self _ _ _), Join.accepts, hj]
  cases j.condition.value store s.params fun i => (tuple ++ [r])[i]? <;> rfl

theorem joinField_table (db : Option String) (name : String) :
    Term.joinField store (.table db name) [] = store.primaryKey name := by
  cases db <;> rfl

theorem joinField_index (right : Term) (key : String) :
    Term.joinField store right [("index", .string key)] = key := by
  simp [Term.joinField, Entries.get?, Term.string]

/-- The one backing of an accepted join decides. -/
theorem accepts_of_resolve {relations : List (Option String)} {j : Join} {i : Nat} {link : Link}
    (hj : j.condition.isTrivial = true)
    (h : s.catalog.resolve relations j.source = .ok (i, link)) (tuple : List Json) (r : Json) :
    j.accepts store s relations tuple r =
      some ((⟨i, link.leftKey, link.rightKey⟩ : Backing).holds tuple r) := by
  obtain ⟨right, hright, hcandidates⟩ := Catalog.resolve_eq_ok.mp h
  simp [Join.accepts, hj, hright, Catalog.backings, hcandidates]

/-- With and without an index, the store looks at the right field of the link. -/
theorem eqJoin_of_pairByLink {source : Source} {t : Term}
    (hkey : store.primaryKey source.table = s.catalog.primaryKey source)
    (ht : (p.pairByLink s source).Yields n t k) :
    ∃ i link slot os, s.catalog.resolve p.relations source = .ok (i, link) ∧
      Scope.slot (.var n) p.width i = .ok slot ∧
      t = .op .eqJoin [p.term, .func [n] (slot.bracket link.leftKey),
        .table s.config.database source.table] os ∧
      Term.joinField store (.table s.config.database source.table) os = link.rightKey := by
  obtain ⟨i, link, slot, hlink, hslot, -, rfl⟩ := yields_pairByLink.mp ht
  by_cases h : link.rightKey = s.catalog.primaryKey source
  · refine ⟨i, link, slot, [], hlink, hslot, if_pos h, ?_⟩
    rw [joinField_table, hkey, h]
  · exact ⟨i, link, slot, [("index", .string link.rightKey)], hlink, hslot, if_neg h,
      joinField_index _ _⟩

theorem eval_pairByLink {j : Join} {t : Term} (hp : p.Denotes store ρ tuples?)
    (hj : j.condition.isTrivial = true)
    (hkey : store.primaryKey j.source.table = s.catalog.primaryKey j.source)
    (ht : (p.pairByLink s j.source).Yields n t k) :
    t.eval store ρ =
      (tuples?.bind (List.flatMapM (pairsOf store s p.relations j))).map .array := by
  obtain ⟨i, link, slot, os, hlink, hslot, rfl, hfield⟩ := eqJoin_of_pairByLink hkey ht
  rw [Term.eval_eqJoin, hfield, Term.eval_table, Option.bind_some, Json.items?_array,
    Option.bind_some]
  refine congrArg (Option.map Json.array) (hp.bind_flatMapM fun tuple hwidth => ?_)
  have hi : i < tuple.length := by
    rw [hwidth]
    exact Catalog.lt_of_resolve hlink
  have hholds : ∀ r, (⟨i, link.leftKey, link.rightKey⟩ : Backing).holds tuple r =
      Store.holdsKey link.rightKey (tuple[i].fieldOrNull link.leftKey) r := by
    intro r
    simp [Backing.holds, hi]
  rw [Term.eval_bracket, Scope.eval_slot hslot (Env.bind_self _ _ _), ← hwidth,
    documentAt_record hi, List.getElem?_eq_getElem hi]
  simp only [pairsOf, accepts_of_resolve hj hlink, hholds, Option.bind_eq_bind,
    Option.map_some, Option.bind_some, Option.pure_def, flatMapM_some, flatMap_if]

theorem eval_paired {j : Join} {t : Term} (hp : p.Denotes store ρ tuples?)
    (hkey : j.condition.isTrivial → store.primaryKey j.source.table = s.catalog.primaryKey j.source)
    (ht : (p.paired s j).Yields n t k) :
    t.eval store ρ =
      (tuples?.bind (List.flatMapM (pairsOf store s p.relations j))).map .array := by
  rw [paired] at ht
  split_ifs at ht with hj
  · exact eval_pairByLink hp hj (hkey hj) ht
  · exact eval_pairByPredicate hp (by simpa using hj) ht

theorem length_of_mem_extend {relations : List (Option String)} {j : Join} {w : Nat}
    {tuples tuples' : List (List Json)} (hlen : ∀ t ∈ tuples, t.length = w)
    (h : j.extend store s relations tuples = some tuples') : ∀ t ∈ tuples', t.length = w + 1 := by
  intro t' ht'
  obtain ⟨t, ht, extended, hextended, hmem⟩ := exists_of_mem_flatMapM h ht'
  obtain ⟨r, -, emitted, hemitted, hmem⟩ := exists_of_mem_flatMapM hextended hmem
  obtain ⟨accepted, -, hif⟩ := Option.bind_eq_some_iff.mp hemitted
  cases hif
  cases accepted with
  | false => cases hmem
  | true =>
      obtain rfl := List.mem_singleton.mp hmem
      rw [List.length_append, List.length_singleton, hlen t ht]

/-- Merging the pairs of a join gives the records of the longer tuples. -/
theorem mapM_merge_pairsOf {j : Join} {relations : List (Option String)} {m w : Nat}
    {tuples : List (List Json)} (hwidth : 0 < w) (hlen : ∀ t ∈ tuples, t.length = w) :
    ((tuples.flatMapM (pairsOf store s relations j)).bind fun pairs =>
      pairs.mapM fun v => (merge w (.var m)).eval store (ρ.bind m v)) =
      (j.extend store s relations tuples).map (List.map record) := by
  have hrecords : ∀ tuples? : Option (List (List Json)), tuples?.map (List.map record) =
      tuples?.bind fun ts => ts.mapM fun t => some (record t) := by
    rintro (_ | ts)
    · rfl
    · exact (List.mapM_pure (m := Option)).symm
  rw [hrecords, Join.extend, flatMapM_bind_mapM, flatMapM_bind_mapM]
  refine flatMapM_congr fun t ht => ?_
  rw [pairsOf, flatMapM_bind_mapM, flatMapM_bind_mapM]
  refine flatMapM_congr fun r _ => ?_
  have hmerge : (merge w (.var m)).eval store (ρ.bind m (Store.pair (record t) r)) =
      some (record (t ++ [r])) := by
    rw [← hlen t ht] at hwidth ⊢
    exact eval_merge r hwidth
  rcases j.accepts store s relations t r with _ | _ | _
  · rfl
  · rfl
  · simp [hmerge]

/-- One join takes what the pipeline stands for one step on. -/
theorem Denotes.join {j : Join} (hp : p.Denotes store ρ tuples?) (hwidth : 0 < p.width)
    (hkey : j.condition.isTrivial → store.primaryKey j.source.table = s.catalog.primaryKey j.source)
    (h : (p.join s j).Yields n p' k) :
    p'.Denotes store ρ (tuples?.bind (j.extend store s p.relations)) := by
  obtain ⟨t, m, ht, -, rfl⟩ := yields_join.mp h
  constructor
  · rw [Term.eval_map, eval_paired hp hkey ht, Term.bind_items?_map_array]
    rcases tuples? with _ | tuples
    · rfl
    · rw [Option.bind_some, mapM_merge_pairsOf hwidth (hp.length_eq tuples rfl), Option.map_map]
      rfl
  · intro tuples' htuples' t' ht'
    obtain ⟨tuples, rfl, hextend⟩ := Option.bind_eq_some_iff.mp htuples'
    have hlong := length_of_mem_extend (hp.length_eq tuples rfl) hextend t' ht'
    simpa [width] using hlong

/-- The joins take it to the nested loop. -/
theorem Denotes.joins {js : List Join} (hp : p.Denotes store ρ tuples?) (hwidth : 0 < p.width)
    (hkeys : ∀ j ∈ js, j.condition.isTrivial →
      store.primaryKey j.source.table = s.catalog.primaryKey j.source)
    (h : (p.joins s js).Yields n p' k) :
    p'.Denotes store ρ (tuples?.bind (nestedLoop store s p.relations js)) := by
  induction js generalizing p n tuples? with
  | nil =>
      obtain ⟨rfl, -⟩ := yields_joins_nil.mp h
      have hnil : tuples?.bind (nestedLoop store s p'.relations []) = tuples? := by
        cases tuples? <;> rfl
      rwa [hnil]
  | cons j js ih =>
      rw [List.forall_mem_cons] at hkeys
      obtain ⟨q, m, hq, hrest⟩ := yields_joins_cons.mp h
      have hrelations : q.relations = p.relations ++ [j.source.schema] := by
        obtain ⟨t, i, -, -, rfl⟩ := yields_join.mp hq
        rfl
      have hwidth' : 0 < q.width := by simp [width, hrelations]
      have hjoins := ih (hp.join hwidth hkeys.1 hq) hwidth' hkeys.2 hrest
      rwa [hrelations, Option.bind_assoc] at hjoins

end Pipeline

/-- The joins of a source compile to a term whose value is the array of the records
that the nested loop gives, in its order. The store is taken to know the primary
keys of the tables that are joined by association. -/
theorem joins_denote_nestedLoop (store : Store) (s : Setting) (source : Source) (js : List Join)
    {n k : Nat} {p : Pipeline}
    (h : ((Pipeline.ofSource s source).joins s js).Yields n p k)
    (hkeys : ∀ j ∈ js, j.condition.isTrivial →
      store.primaryKey j.source.table = s.catalog.primaryKey j.source) (ρ : Env) :
    p.term.eval store ρ =
      (nestedLoop store s [source.schema] js ((store.rows source.table).map fun d => [d])).map
        fun tuples => .array (tuples.map record) := by
  have hsource : (Pipeline.ofSource s source).Denotes store ρ
      (some ((store.rows source.table).map fun d => [d])) := by
    constructor
    · rw [Pipeline.ofSource, Term.eval_table, Option.map_some, List.map_map]
      exact congrArg (some ∘ Json.array) (List.map_id _).symm
    · rintro tuples htuples t ht
      cases htuples
      obtain ⟨d, -, rfl⟩ := List.mem_map.mp ht
      rfl
  exact (hsource.joins Nat.one_pos hkeys h).eval_term

/-- Posts with their comments, and with every user who is not the author. -/
theorem joins_denote_nestedLoop_of_posts :
    let post : Schema :=
      { name := "Post", table := "posts"
        associations := [.declare .hasMany "comments" "Comment" "post"] }
    let comment : Schema := { name := "Comment", table := "comments" }
    let s : Setting := { catalog := .ofSchemas [post, comment] }
    let js : List Join := [⟨comment.source, .literal (.bool true)⟩,
      ⟨⟨"users", none⟩, .compare .ne (.field 0 "author") (.field 2 "id")⟩]
    let moon : Json := .object [("id", .int 10), ("author", .int 1)]
    let mars : Json := .object [("id", .int 11), ("author", .int 2)]
    let nice : Json := .object [("id", .int 20), ("post", .int 11)]
    let stray : Json := .object [("id", .int 21)]
    let ann : Json := .object [("id", .int 1)]
    let bob : Json := .object [("id", .int 2)]
    let store : Store :=
      { rows := fun table =>
          if table = "posts" then [moon, mars]
          else if table = "comments" then [nice, stray]
          else [ann, bob]
        compareNumbers := Number.compareAsDoubles }
    ∃ p k, ((Pipeline.ofSource s post.source).joins s js).Yields 1 p k ∧
      (∀ j ∈ js, j.condition.isTrivial →
        store.primaryKey j.source.table = s.catalog.primaryKey j.source) ∧
      (p.term.eval store .empty).map (·.sameValue (.array [.array [mars, nice, ann]])) =
        some true := by
  intro post comment s js moon mars nice stray ann bob store
  have hkeys : ∀ j ∈ js, j.condition.isTrivial →
      store.primaryKey j.source.table = s.catalog.primaryKey j.source := by
    intro j hj _
    rcases List.mem_pair.mp hj with rfl | rfl
    · rfl
    · rfl
  refine ⟨_, _, rfl, hkeys, ?_⟩
  rw [joins_denote_nestedLoop store s post.source js rfl hkeys]
  decide +kernel

end DocQuery
