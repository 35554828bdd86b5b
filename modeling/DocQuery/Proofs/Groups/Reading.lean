import DocQuery.Proofs.Pipeline.Stages
import DocQuery.Proofs.Store.Expr

/-!
# Reading groups

Past grouping, an expression is read from the group: from its key where the
expression equals one. All rows of a group have its key, so that the value is the
one that the expression has over any of these rows.
-/

namespace DocQuery

/-- An element of a grouped sequence. -/
def Store.group (key : Json) (rows : List Json) : Json :=
  .object [("group", key), ("reduction", .array rows)]

@[simp] theorem Store.key_group (key : Json) (rows : List Json) :
    (Store.group key rows).fieldOrNull "group" = key := rfl

/-- The result of a function of one element. -/
def Term.applyTo (store : Store) (f : Term) (v : Json) : Option Json :=
  match f with
  | .func [id] body => body.eval store (Env.empty.bind id v)
  | _ => none

theorem getElem?_of_mapM_id {α : Type} {vs? : List (Option α)} {vs : List α} {i : Nat}
    {v? : Option α} (h : vs?.mapM id = some vs) (hi : vs?[i]? = some v?) : vs[i]? = v? := by
  induction vs? generalizing vs i with
  | nil => simp at hi
  | cons u? rest ih =>
      rw [List.mapM_cons] at h
      obtain ⟨u, rfl, htail⟩ := Option.bind_eq_some_iff.mp h
      obtain ⟨us, hus, hcons⟩ := Option.bind_eq_some_iff.mp htail
      cases hcons
      cases i with
      | zero => simpa using hi
      | succ i =>
          rw [List.getElem?_cons_succ] at hi ⊢
          exact ih hus hi

/-- What fits a group fits the rows of the group, as long as what equals a key is
written like it. -/
theorem Expr.FitsGroup.fitsRow {engine : RegexEngine} {params : Params} {keys : List Expr}
    {width : Nat} {e : Expr} (h : e.FitsGroup engine params keys width)
    (hkeys : ∀ key ∈ keys, key.FitsRow engine params width)
    (hflat : e.containsAggregate = false)
    (hwritten : ∀ x ∈ e.parts, ∀ key ∈ keys, key.sameAs x → key = x) :
    e.FitsRow engine params width := by
  induction h with
  | @key key e mem same =>
      obtain rfl := hwritten e e.self_mem_parts key mem same
      exact hkeys key mem
  | aggregate => cases hflat
  | plain isPlain reads _ ih =>
      refine fitsRow_iff.mpr ⟨(standsInRow_of_isPlain isPlain).mpr reads, fun x hx => ?_⟩
      refine ih x hx (containsAggregate_eq_false_of_mem_operands hx hflat) ?_
      intro y hy
      exact hwritten y (parts_subset_of_mem_operands hx hy)

namespace Pipeline

open Compile

variable {store : Store} {s : Setting} {p p' : Pipeline} {keys : List Expr} {f : Term}
  {g : Json} {rows : List Json} {n m b r : Nat}

/-- The function that groups rows gives the list of the keys. -/
theorem groupFunc_of_yields (hp : p.isGrouped = false) (h : (p.groupBy s keys).Yields n p' m)
    (hf : p'.term = (p.term.group f).ungroup) :
    ∃ t, ((Expr.list keys).compile s.engine s.params (.row (.var n) p.width)).Yields (n + 1) t m ∧
      f = .func [n] t := by
  rcases yields_groupBy.mp h with ⟨-, rfl, -⟩ | ⟨-, f', hf', rfl⟩
  · have hsize := congrArg sizeOf hf
    simp [Term.ungroup, Term.group, Term.call] at hsize
    omega
  · obtain rfl : f' = f := by simpa [Term.ungroup, Term.group, Term.call] using hf
    obtain ⟨t, ht, rfl⟩ := yields_lambda.mp hf'
    rw [elementScope, hp] at ht
    exact ⟨t, ht, rfl⟩

theorem fitsRow_of_groupBy (hp : p.isGrouped = false) (h : (p.groupBy s keys).Yields n p' m)
    (hf : p'.term = (p.term.group f).ungroup) :
    ∀ key ∈ keys, key.FitsRow s.engine s.params p.width := by
  obtain ⟨t, ht, -⟩ := groupFunc_of_yields hp h hf
  have hlist : (Expr.list keys).FitsRow s.engine s.params p.width :=
    (Expr.acceptedIff_compile_row rfl _ _).mp ⟨t, m, ht⟩
  exact (Expr.fitsRow_iff.mp hlist).2

/-- A place of the group's key holds the value of the key of this place over the row. -/
theorem eval_keySlot (hp : p.isGrouped = false) (h : (p.groupBy s keys).Yields n p' m)
    (hf : p'.term = (p.term.group f).ungroup) {x : Json} (hx : f.applyTo store x = some g)
    {i : Nat} {key : Expr} (hi : keys[i]? = some key) {ρ : Env}
    (hb : ρ b = some (Store.group g rows)) :
    (((Term.var b).bracket "group").nth i).eval store ρ =
      key.value store s.params (x.documentAt p.width) := by
  obtain ⟨t, ht, rfl⟩ := groupFunc_of_yields hp h hf
  have hrow : (Scope.row (.var n) p.width).rowWidth? = some p.width := rfl
  have hlist : t.eval store (Env.empty.bind n x) =
      (Expr.list keys).value store s.params (x.documentAt p.width) :=
    Expr.eval_of_yields_row hrow (fun _ _ hd => Scope.eval_slot hd (Env.bind_self _ _ _)) ht
  have hg : (Expr.list keys).value store s.params (x.documentAt p.width) = some g :=
    hlist.symm.trans hx
  rw [Expr.value, Expr.values_eq_map] at hg
  obtain ⟨vs, hvs, harray⟩ := Option.bind_eq_some_iff.mp hg
  cases harray
  have hvalue : vs[i]? = key.value store s.params (x.documentAt p.width) := by
    refine getElem?_of_mapM_id hvs ?_
    rw [List.getElem?_map, hi, Option.map_some]
  rw [Term.eval_nth, Term.eval_bracket, Term.eval_var, hb, Option.map_some, Store.key_group,
    Option.bind_some, Json.items?_array, Option.bind_some, hvalue]

end Pipeline

/-- Over a row the expression compiles from any number, and the term over the
variable `b` gives for the group what it gives for every row of the group. -/
def Expr.ReadsAsRow (store : Store) (engine : RegexEngine) (params : Params) (width b : Nat)
    (group : Json) (rows : List Json) (e : Expr) (t : Term) : Prop :=
  ∀ r n, ∃ t' k, (e.compile engine params (.row (.var r) width)).Yields n t' k ∧
    ∀ x ∈ rows, ∀ ρ ρ' : Env, t.eval store (ρ.bind b group) = t'.eval store (ρ'.bind r x)

/-- It is enough that the group gives the value of the expression over every row. -/
theorem Expr.readsAsRow_of_value {store : Store} {engine : RegexEngine} {params : Params}
    {width b : Nat} {group : Json} {rows : List Json} {e : Expr} {t : Term}
    (hfits : e.FitsRow engine params width)
    (h : ∀ x ∈ rows, ∀ ρ : Env,
      t.eval store (ρ.bind b group) = e.value store params (x.documentAt width)) :
    e.ReadsAsRow store engine params width b group rows t := by
  intro r n
  have hrow : (Scope.row (.var r) width).rowWidth? = some width := rfl
  obtain ⟨t', k, ht'⟩ := (acceptedIff_compile_row hrow e n).mpr hfits
  refine ⟨t', k, ht', ?_⟩
  intro x hx ρ ρ'
  rw [h x hx ρ]
  exact (eval_of_yields_row hrow (fun _ _ hd => Scope.eval_slot hd (Env.bind_self _ _ _)) ht').symm

/-- An expression without aggregates over a group has the value that it has over
every row of the group. What equals a key has to be written like it: a part that
differs from the key in the sign of a zero is read from the key all the same. -/
theorem group_reads_as_row (store : Store) (s : Setting) {p p' : Pipeline} {keys : List Expr}
    {f : Term} {g : Json} {rows : List Json} {n m : Nat} (b : Nat) (hp : p.isGrouped = false)
    (h : (p.groupBy s keys).Yields n p' m) (hf : p'.term = (p.term.group f).ungroup)
    (hkey : ∀ x ∈ rows, f.applyTo store x = some g) :
    (∀ (e : Expr) (t : Term) (i j : Nat), e.containsAggregate = false →
      (∀ x ∈ e.parts, ∀ key ∈ keys, key.sameAs x → key = x) →
      (e.compile s.engine s.params (.bucket (.var b) keys p.width)).Yields i t j →
      e.ReadsAsRow store s.engine s.params p.width b (Store.group g rows) rows t) ∧
    (∀ (i : Nat) (key : Expr), keys[i]? = some key →
      key.ReadsAsRow store s.engine s.params p.width b (Store.group g rows) rows
        (((Term.var b).bracket "group").nth i)) := by
  have hkeys : ∀ key ∈ keys, key.FitsRow s.engine s.params p.width :=
    Pipeline.fitsRow_of_groupBy hp h hf
  constructor
  · intro e t i j hflat hwritten ht
    have hfits : e.FitsGroup s.engine s.params keys p.width :=
      (Expr.acceptedIff_compile_group rfl rfl e i).mp ⟨t, j, ht⟩
    refine Expr.readsAsRow_of_value (hfits.fitsRow hkeys hflat hwritten) ?_
    intro x hx ρ
    refine Expr.eval_of_yields hflat ?_ ?_ ?_ ht
    · intro r d hd
      cases hd
    · intro r name u hu
      cases hu
    · intro y hy slot hslot
      obtain ⟨place, hplace, rfl⟩ := Option.map_eq_some_iff.mp hslot
      obtain ⟨hlt, hsame, -⟩ := List.findIdx?_eq_some_iff_getElem.mp hplace
      have hwritten_y : keys[place] = y := hwritten y hy _ (List.getElem_mem hlt) hsame
      exact Pipeline.eval_keySlot hp h hf (hkey x hx)
        (List.getElem?_eq_some_iff.mpr ⟨hlt, hwritten_y⟩) (Env.bind_self _ _ _)
  · intro i key hi
    refine Expr.readsAsRow_of_value (hkeys key (List.mem_of_getElem? hi)) ?_
    intro x hx ρ
    exact Pipeline.eval_keySlot hp h hf (hkey x hx) hi (Env.bind_self _ _ _)

/-- A filter on the year of posts grouped by author and year. -/
theorem group_reads_as_row_of_old_posts :
    let s : Setting := { params := [.int 2000] }
    let p : Pipeline := .ofSource s ⟨"posts", none⟩
    let keys : List Expr := [.field 0 "author", .field 0 "year"]
    let old : Expr := .compare .lt (.field 0 "year") (.param 0)
    let moon : Json := .object [("id", .int 10), ("author", .int 1), ("year", .int 1999)]
    let mars : Json := .object [("id", .int 11), ("author", .int 1), ("year", .int 1999)]
    let g : Json := .array [.int 1, .int 1999]
    let group : Json := Store.group g [moon, mars]
    let store : Store := { rows := fun _ => [moon, mars] }
    let key : Json → Option Json := Term.applyTo store (.func [1]
      (.makeArray [(Term.var 1).bracket "author", (Term.var 1).bracket "year"]))
    ∃ p' t, (p.groupBy s keys).Yields 1 p' 2 ∧ key moon = some g ∧ key mars = some g ∧
      (old.compile s.engine s.params (.bucket (.var 2) keys 1)).Yields 3 t 3 ∧
      old.ReadsAsRow store s.engine s.params 1 2 group [moon, mars] t ∧
      (t.eval store (Env.empty.bind 2 group)).map Json.isTrue = some true := by
  intro s p keys old moon mars g group store key
  have hrows : ∀ x ∈ [moon, mars], key x = some g := by
    intro x hx
    rcases List.mem_pair.mp hx with rfl | rfl
    · rfl
    · rfl
  have hwritten : ∀ x ∈ old.parts, ∀ k ∈ keys, k.sameAs x → k = x := by
    simp [old, keys, Expr.parts, Expr.sameAs]
  have hgroup : (p.groupBy s keys).Yields 1 _ 2 := rfl
  have hreads := group_reads_as_row store s 2 rfl hgroup rfl hrows
  refine ⟨_, _, rfl, rfl, rfl, rfl, hreads.1 old _ 3 3 rfl hwritten rfl, ?_⟩
  decide +kernel

/-- The key holds a positive zero where the expression has a negative one. Objects
compare by their text, so that the expression is above the other object over the
group and below it over the row. -/
theorem group_not_reads_as_row_of_zeros :
    let map (x : Binary64) : Expr := .map [("a", .literal (.float x))]
    let minusOne : Binary64 := { negative := true, magnitude := 0x3FF0000000000000 }
    let e : Expr := .compare .gt (map (.zero true)) (map minusOne)
    let keys : List Expr := [map (.zero false)]
    let p : Pipeline := .ofSource {} ⟨"posts", none⟩
    let store : Store := { rows := fun _ => [] }
    let row : Json := .object []
    let g : Json := .array [.object [("a", .float (.zero false))]]
    ∃ p' f t t', (p.groupBy {} keys).Yields 1 p' 2 ∧ p'.term = (p.term.group f).ungroup ∧
      f.applyTo store row = some g ∧ e.containsAggregate = false ∧
      (e.compile {} [] (.bucket (.var 2) keys 1)).Yields 3 t 3 ∧
      (e.compile {} [] (.row (.var 2) 1)).Yields 3 t' 3 ∧
      (t.eval store (Env.empty.bind 2 (Store.group g [row]))).map Json.isTrue = some true ∧
      (t'.eval store (Env.empty.bind 2 row)).map Json.isTrue = some false := by
  intro map minusOne e keys p store row g
  refine ⟨_, _, _, _, rfl, rfl, rfl, rfl, rfl, rfl, ?_, ?_⟩
  · decide +kernel
  · decide +kernel

end DocQuery
