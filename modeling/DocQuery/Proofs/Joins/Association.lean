import DocQuery.Proofs.Acceptance.Query

/-!
# Joins by association

A join whose condition is the literal `true` looks for an association between
one of the relations so far and the joined table. `Backing` is one way to join:
a relation and a field on either side. The main result is that exactly one
backing has to be declared, and what the answer is in each of the three cases.
-/

namespace DocQuery

/-- A way to join by an association: the field `leftKey` of the relation has the
value of the field `rightKey` of the joined table. -/
structure Backing where
  relation : Nat
  leftKey : String
  rightKey : String
deriving DecidableEq

/-- An association between two schemas, declared on the one or on the other. An
association of a schema with itself is not read backwards. -/
def Catalog.Associates (c : Catalog) (left right leftKey rightKey : String) : Prop :=
  (∃ s, c.find? left = some s ∧
    ∃ a ∈ s.associations, a.related = right ∧ a.ownerKey = leftKey ∧ a.relatedKey = rightKey) ∨
  left ≠ right ∧ ∃ s, c.find? right = some s ∧
    ∃ a ∈ s.associations, a.related = left ∧ a.ownerKey = rightKey ∧ a.relatedKey = leftKey

/-- A backing of a join with `source`. -/
def Source.BackedBy (source : Source) (c : Catalog) (relations : List (Option String))
    (b : Backing) : Prop :=
  ∃ left right, relations[b.relation]? = some (some left) ∧ source.schema = some right ∧
    c.Associates left right b.leftKey b.rightKey

namespace Catalog

variable {c : Catalog} {relations : List (Option String)} {source : Source}

theorem find?_eq_some_iff {name : String} {s : Schema} :
    c.find? name = some s ↔ s ∈ c.schemas ∧ s.name = name := by
  constructor
  · intro h
    exact ⟨List.mem_of_find?_eq_some h, by simpa using List.find?_some h⟩
  · rintro ⟨hs, rfl⟩
    obtain ⟨t, ht⟩ : ∃ t, c.find? s.name = some t := by
      rw [← Option.isSome_iff_exists, find?, List.find?_isSome]
      exact ⟨s, hs, by simp⟩
    -- names differ, so the schema found is the one that was put in
    have hname : t.name = s.name := by simpa using List.find?_some ht
    rw [ht, List.inj_on_of_nodup_map c.nodup_names (List.mem_of_find?_eq_some ht) hs hname]

theorem mem_links_iff {a : Association} {owner : String} {l : Link} :
    l ∈ a.links owner ↔
      l = ⟨owner, a.related, a.ownerKey, a.relatedKey⟩ ∨
        a.related ≠ owner ∧ l = ⟨a.related, owner, a.relatedKey, a.ownerKey⟩ := by
  rw [Association.links]
  split_ifs with h
  · simp [h]
  · simp [h, Link.flip]

theorem declares_iff_associates {l : Link} :
    c.Declares l ↔ c.Associates l.left l.right l.leftKey l.rightKey := by
  simp only [Declares, Associates, mem_links_iff, find?_eq_some_iff]
  constructor
  · rintro ⟨s, hs, a, ha, rfl | ⟨hne, rfl⟩⟩
    · exact Or.inl ⟨s, ⟨hs, rfl⟩, a, ha, rfl, rfl, rfl⟩
    · exact Or.inr ⟨hne, s, ⟨hs, rfl⟩, a, ha, rfl, rfl, rfl⟩
  · rintro (⟨s, ⟨hs, hname⟩, a, ha, hrel, howner, hrelated⟩ |
      ⟨hne, s, ⟨hs, hname⟩, a, ha, hrel, howner, hrelated⟩)
    · refine ⟨s, hs, a, ha, Or.inl ?_⟩
      rw [hname, hrel, howner, hrelated]
    · refine ⟨s, hs, a, ha, Or.inr ⟨?_, ?_⟩⟩
      · rwa [hrel, hname]
      · rw [hname, hrel, howner, hrelated]

/-- The candidates of a join as backings. -/
def backings (c : Catalog) (relations : List (Option String)) (right : String) : List Backing :=
  (c.candidates relations right).map fun b => ⟨b.1, b.2.leftKey, b.2.rightKey⟩

theorem mem_backings {right : String} {b : Backing} :
    b ∈ c.backings relations right ↔
      ∃ left, relations[b.relation]? = some (some left) ∧
        c.Associates left right b.leftKey b.rightKey := by
  simp only [backings, List.mem_map, mem_candidates, declares_iff_associates]
  constructor
  · rintro ⟨⟨i, l⟩, ⟨hassoc, hi, rfl⟩, rfl⟩
    exact ⟨l.left, hi, hassoc⟩
  · rintro ⟨left, hi, hassoc⟩
    exact ⟨(b.relation, ⟨left, right, b.leftKey, b.rightKey⟩), ⟨hassoc, hi, rfl⟩, rfl⟩

/-- The relation of a candidate settles the schemas of its link. -/
theorem nodup_backings (right : String) : (c.backings relations right).Nodup := by
  refine (nodup_candidates right).map_on ?_
  rintro ⟨i, l⟩ hl ⟨j, m⟩ hm heq
  obtain ⟨-, hi, hright⟩ := mem_candidates.mp hl
  obtain ⟨-, hj, hright'⟩ := mem_candidates.mp hm
  obtain ⟨rfl, hleftKey, hrightKey⟩ : i = j ∧ l.leftKey = m.leftKey ∧ l.rightKey = m.rightKey := by
    simpa using heq
  have hleft : l.left = m.left := by simpa [hi] using hj
  obtain ⟨left, right, leftKey, rightKey⟩ := l
  obtain ⟨left', right', leftKey', rightKey'⟩ := m
  simp_all

/-- Two candidates are two backings. -/
theorem ne_of_candidates {right : String} {x y : Nat × Link} {rest : List (Nat × Link)}
    (h : c.candidates relations right = x :: y :: rest) :
    (⟨x.1, x.2.leftKey, x.2.rightKey⟩ : Backing) ≠ ⟨y.1, y.2.leftKey, y.2.rightKey⟩ := by
  intro heq
  have hnodup : (c.backings relations right).Nodup := nodup_backings right
  rw [backings, h, List.map_cons, List.map_cons, List.nodup_cons, heq] at hnodup
  exact hnodup.1 List.mem_cons_self

/-- Every backing has its link, between the schemas of its two sides. -/
theorem forall₂_backings_links (right : String) :
    List.Forall₂ (fun (b : Backing) (l : Link) =>
      relations[b.relation]? = some (some l.left) ∧ l.right = right ∧
        l.leftKey = b.leftKey ∧ l.rightKey = b.rightKey)
      (c.backings relations right) ((c.candidates relations right).map (·.2)) := by
  rw [backings, List.forall₂_map_left_iff, List.forall₂_map_right_iff, List.forall₂_same]
  intro z hz
  obtain ⟨-, hleft, hright⟩ := mem_candidates.mp hz
  exact ⟨hleft, hright, rfl, rfl⟩

theorem backedBy_iff {right : String} (hs : source.schema = some right) {b : Backing} :
    source.BackedBy c relations b ↔ b ∈ c.backings relations right := by
  simp [Source.BackedBy, mem_backings, hs]

end Catalog

namespace Pipeline

open Compile

variable {s : Setting} {p : Pipeline} {source : Source} {n : Nat}

/-- The join by a backing, with `n` as the variable of its key function. The
store knows the primary key of the joined table, so only another key is named. -/
def joinedBy (s : Setting) (p : Pipeline) (source : Source) (b : Backing) (n : Nat) : Pipeline :=
  let document := if p.width = 1 then Term.var n else (Term.var n).nth b.relation
  let index := if b.rightKey = s.catalog.primaryKey source then []
    else [("index", Term.string b.rightKey)]
  let pairs := Term.op .eqJoin
    [p.term, .func [n] (document.bracket b.leftKey), .table s.config.database source.table] index
  { p with
    term := pairs.map (.func [n + 1] (merge p.width (.var (n + 1))))
    relations := p.relations ++ [source.schema] }

theorem outcome_join_of_error {r : Rejection}
    (h : s.catalog.resolve p.relations source = .error r) :
    ((p.join s ⟨source, .literal (.bool true)⟩).runFrom n).1 = .error r := by
  have hlink : (p.pairByLink s source).runFrom n = (.error r, n) := by
    rw [pairByLink, runFrom_bind, runFrom_lift, h]
  simp only [join, Expr.isTrivial, if_true, runFrom_bind, hlink]

theorem outcome_join_of_ok {i : Nat} {l : Link}
    (h : s.catalog.resolve p.relations source = .ok (i, l)) :
    ((p.join s ⟨source, .literal (.bool true)⟩).runFrom n).1 =
      .ok (p.joinedBy s source ⟨i, l.leftKey, l.rightKey⟩ n) := by
  have hlt : i < p.width := Catalog.lt_of_resolve h
  have hslot : Scope.slot (.var n) p.width i =
      .ok (if p.width = 1 then .var n else (Term.var n).nth i) :=
    Scope.slot_eq_ok_iff.mpr ⟨hlt, rfl⟩
  have hjoin : (p.join s ⟨source, .literal (.bool true)⟩).Yields n
      (p.joinedBy s source ⟨i, l.leftKey, l.rightKey⟩ n) (n + 2) := by
    refine yields_join.mpr ⟨_, n + 1, yields_pairByLink.mpr ⟨i, l, _, h, hslot, rfl, rfl⟩, rfl, ?_⟩
    rw [joinedBy]
    split_ifs <;> rfl
  rw [hjoin]

/-- The candidates settle the answer. -/
theorem outcome_join_eq (s : Setting) (p : Pipeline) (n : Nat) {right : String}
    (hs : source.schema = some right) :
    ((p.join s ⟨source, .literal (.bool true)⟩).runFrom n).1 =
      match s.catalog.candidates p.relations right with
      | [] => .error (.noLink source.table right)
      | [x] => .ok (p.joinedBy s source ⟨x.1, x.2.leftKey, x.2.rightKey⟩ n)
      | xs => .error (.ambiguousLink source.table (xs.map (·.2))) := by
  rcases hc : s.catalog.candidates p.relations right with _ | ⟨x, _ | ⟨y, rest⟩⟩
  · exact outcome_join_of_error (by simp [Catalog.resolve, hs, hc])
  · exact outcome_join_of_ok (by simp [Catalog.resolve, hs, hc])
  · exact outcome_join_of_error (by simp [Catalog.resolve, hs, hc])

end Pipeline

/-- A join by association is accepted with exactly one backing and then pairs by
it. Without a schema or without a backing there is nothing to join by, and with
several the answer lists each of them once. -/
theorem association_join (s : Setting) (p : Pipeline) (source : Source) (n : Nat) :
    let answer := ((p.join s ⟨source, .literal (.bool true)⟩).runFrom n).1
    let Backed := source.BackedBy s.catalog p.relations
    (∀ p', answer = .ok p' ↔
      ∃ b, (∀ b', Backed b' ↔ b' = b) ∧ p' = p.joinedBy s source b n) ∧
    (answer = .error (.joinWithoutSchema source.table) ↔ source.schema = none) ∧
    (∀ right, answer = .error (.noLink source.table right) ↔
      source.schema = some right ∧ ¬ ∃ b, Backed b) ∧
    ((∃ links, answer = .error (.ambiguousLink source.table links) ∧
        ∃ bs : List Backing, bs.Nodup ∧ (∀ b, b ∈ bs ↔ Backed b) ∧
          List.Forall₂ (fun b l => p.relations[b.relation]? = some (some l.left) ∧
            source.schema = some l.right ∧ l.leftKey = b.leftKey ∧ l.rightKey = b.rightKey)
            bs links) ↔
      ∃ b b', Backed b ∧ Backed b' ∧ b ≠ b') := by
  intro answer Backed
  rcases hs : source.schema with _ | right
  · have hresolve : s.catalog.resolve p.relations source =
        .error (.joinWithoutSchema source.table) := by
      rw [Catalog.resolve, hs]
    have hanswer : answer = .error (.joinWithoutSchema source.table) :=
      Pipeline.outcome_join_of_error hresolve
    have hnone : ∀ b, ¬ Backed b := by simp [Backed, Source.BackedBy, hs]
    simp [hanswer, hnone, iff_false_left]
  have hBacked : ∀ b, Backed b ↔ b ∈ s.catalog.backings p.relations right :=
    fun b => Catalog.backedBy_iff hs
  have hanswer : answer = _ := Pipeline.outcome_join_eq s p n hs
  simp only [hBacked]
  rcases hc : s.catalog.candidates p.relations right with _ | ⟨x, _ | ⟨y, rest⟩⟩
  · rw [hc] at hanswer
    simp [hanswer, Catalog.backings, hc, iff_false_left]
  · rw [hc] at hanswer
    have hmem : ∀ b, b ∈ s.catalog.backings p.relations right ↔
        b = ⟨x.1, x.2.leftKey, x.2.rightKey⟩ := by
      simp [Catalog.backings, hc]
    simp only [hmem]
    refine ⟨fun p' => ?_, by simp [hanswer], by simp [hanswer], by simp [hanswer]⟩
    rw [hanswer, Except.ok.injEq]
    constructor
    · rintro rfl
      exact ⟨_, fun b' => Iff.rfl, rfl⟩
    · rintro ⟨b, hb, rfl⟩
      rw [(hb _).mp rfl]
  · rw [hc] at hanswer
    have hne : (⟨x.1, x.2.leftKey, x.2.rightKey⟩ : Backing) ≠
        ⟨y.1, y.2.leftKey, y.2.rightKey⟩ := Catalog.ne_of_candidates hc
    have hx : ⟨x.1, x.2.leftKey, x.2.rightKey⟩ ∈ s.catalog.backings p.relations right := by
      simp [Catalog.backings, hc]
    have hy : ⟨y.1, y.2.leftKey, y.2.rightKey⟩ ∈ s.catalog.backings p.relations right := by
      simp [Catalog.backings, hc]
    refine ⟨fun p' => iff_of_false (by simp [hanswer]) ?_, by simp [hanswer], ?_, ?_⟩
    · rintro ⟨b, hb, -⟩
      exact hne (((hb _).mp hx).trans ((hb _).mp hy).symm)
    · intro right'
      refine iff_of_false (by simp [hanswer]) ?_
      rintro ⟨-, hnone⟩
      exact hnone ⟨_, hx⟩
    · refine iff_of_true ⟨_, hanswer, s.catalog.backings p.relations right,
        Catalog.nodup_backings right, fun b => Iff.rfl, ?_⟩ ⟨_, _, hx, hy, hne⟩
      rw [← hc]
      refine (Catalog.forall₂_backings_links right).imp ?_
      rintro b l ⟨hleft, rfl, hkeys⟩
      exact ⟨hleft, rfl, hkeys⟩

end DocQuery
