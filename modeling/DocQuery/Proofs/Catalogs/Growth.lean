import DocQuery.Proofs.Catalogs.Comparison
import DocQuery.Proofs.Joins.Association

/-!
# More associations

Declaring more associations gives a join more candidates and takes none away. A
join that had its one candidate keeps it or becomes ambiguous, so a query that
compiled is compiled to the same term or refused as ambiguous.
-/

namespace DocQuery

/-- The second answer is ambiguous, unless the first was a rejection already. -/
def Comparison.ambiguous : Comparison where
  Admits x y := x = none → ∃ table links, y = some (.ambiguousLink table links)
  not_values := by simp
  left _ h := fun _ => h rfl
  right _ _ := by simp

/-- The same schema with at least the same associations. -/
structure Schema.ExtendedBy (s s' : Schema) : Prop where
  name : s'.name = s.name
  table : s'.table = s.table
  primaryKey : s'.primaryKey = s.primaryKey
  associations : s.associations ⊆ s'.associations

namespace Catalog

variable {c c' : Catalog} {names earlier : List (Option String)}

/-- The same names, and under each the same schema with at least the same
associations. -/
def ExtendedBy (c c' : Catalog) : Prop :=
  ∀ name, Option.Rel Schema.ExtendedBy (c.find? name) (c'.find? name)

theorem ExtendedBy.exists_find? (h : c.ExtendedBy c') {name : String} {s : Schema}
    (hs : c.find? name = some s) : ∃ s', c'.find? name = some s' ∧ s.ExtendedBy s' := by
  have hrel := h name
  rw [hs] at hrel
  cases hs' : c'.find? name with
  | none =>
      rw [hs'] at hrel
      cases hrel
  | some s' =>
      rw [hs'] at hrel
      cases hrel with
      | some hss' => exact ⟨s', rfl, hss'⟩

theorem ExtendedBy.primaryKey_eq (h : c.ExtendedBy c') (source : Source) :
    c.primaryKey source = c'.primaryKey source := by
  refine primaryKey_congr ?_
  cases source.schema with
  | none => rfl
  | some name =>
      have hrel := h name
      rw [Option.bind_some, Option.bind_some]
      generalize c.find? name = s, c'.find? name = s' at hrel
      cases hrel with
      | none => rfl
      | some hss' => exact congrArg some hss'.primaryKey.symm

theorem ExtendedBy.associates (h : c.ExtendedBy c') {left right leftKey rightKey : String}
    (hc : c.Associates left right leftKey rightKey) :
    c'.Associates left right leftKey rightKey := by
  rcases hc with ⟨s, hs, a, ha, hkeys⟩ | ⟨hne, s, hs, a, ha, hkeys⟩
  · obtain ⟨s', hs', hss'⟩ := h.exists_find? hs
    exact Or.inl ⟨s', hs', a, hss'.associations ha, hkeys⟩
  · obtain ⟨s', hs', hss'⟩ := h.exists_find? hs
    exact Or.inr ⟨hne, s', hs', a, hss'.associations ha, hkeys⟩

theorem ExtendedBy.candidates_subset (h : c.ExtendedBy c') (right : String) :
    c.candidates earlier right ⊆ c'.candidates earlier right := by
  intro b hb
  rw [mem_candidates, declares_iff_associates] at hb ⊢
  exact ⟨h.associates hb.1, hb.2⟩

/-- The one candidate is still there, alone or among several. -/
theorem ExtendedBy.resolve (h : c.ExtendedBy c') (source : Source) :
    Comparison.ambiguous.Holds (c.resolve earlier source) (c'.resolve earlier source) := by
  rcases hx : c.resolve earlier source with r | b
  · exact Or.inr fun hnone => by simp [rejection?] at hnone
  · obtain ⟨right, hs, hc⟩ := resolve_eq_ok.mp hx
    have hb : b ∈ c'.candidates earlier right :=
      h.candidates_subset right (by simp [hc])
    rcases hc' : c'.candidates earlier right with _ | ⟨x, _ | ⟨y, rest⟩⟩
    · simp [hc'] at hb
    · obtain rfl : b = x := by simpa [hc'] using hb
      exact Or.inl (resolve_eq_ok.mpr ⟨right, hs, hc'⟩).symm
    · refine Or.inr fun _ => ⟨source.table, (x :: y :: rest).map (·.2), ?_⟩
      simp only [rejection?_eq_some, Catalog.resolve, hs, hc']

theorem ExtendedBy.compare (h : c.ExtendedBy c') : c.Compare .ambiguous names c' where
  resolve _ _ := h.resolve _
  primaryKey _ := h.primaryKey_eq _

end Catalog

/-- With more associations a query that compiled compiles to the same term, or a
join of it is ambiguous now. -/
theorem compileQuery_extended (config : Config) (engine : RegexEngine) (c c' : Catalog) (q : Query)
    (params : Params) (t : Term) (h : c.ExtendedBy c')
    (ht : Compiler.compileQuery ⟨config, c, engine⟩ q params = .ok t) :
    Compiler.compileQuery ⟨config, c', engine⟩ q params = .ok t ∨
      ∃ table links,
        Compiler.compileQuery ⟨config, c', engine⟩ q params =
          .error (.ambiguousLink table links) := by
  have hanswer : Comparison.ambiguous.Holds (Compiler.compileQuery ⟨config, c, engine⟩ q params)
      (Compiler.compileQuery ⟨config, c', engine⟩ q params) :=
    Compiler.compare_compileQuery h.compare
  rw [ht] at hanswer
  rcases hanswer with heq | hambiguous
  · exact Or.inl heq.symm
  · obtain ⟨table, links, hlinks⟩ := hambiguous rfl
    exact Or.inr ⟨table, links, rejection?_eq_some.mp hlinks⟩

/-- Posts get an editor beside their author: the comments of a post are joined as
before, its user no longer is. -/
theorem compileQuery_extended_of_editor :
    let author : Association := .declare .belongsTo "author" "User" "author_id"
    let editor : Association := .declare .belongsTo "editor" "User" "editor_id"
    let user : Schema := { name := "User", table := "users" }
    let post : Schema := { name := "Post", table := "posts", associations := [author] }
    let comment : Schema := {
      name := "Comment"
      table := "comments"
      associations := [.declare .belongsTo "post" "Post" "post_id"]
    }
    let c := Catalog.ofSchemas [user, post, comment]
    let c' := Catalog.ofSchemas [user, { post with associations := [editor, author] }, comment]
    let comments : Query := {
      source := comment.source
      joins := [⟨post.source, .literal (.bool true)⟩]
    }
    let users : Query := {
      source := post.source
      joins := [⟨user.source, .literal (.bool true)⟩]
    }
    c.ExtendedBy c' ∧
      (∃ t, Compiler.compileQuery ⟨{}, c, {}⟩ comments [] = .ok t ∧
        Compiler.compileQuery ⟨{}, c', {}⟩ comments [] = .ok t) ∧
      ∃ t table links, Compiler.compileQuery ⟨{}, c, {}⟩ users [] = .ok t ∧
        Compiler.compileQuery ⟨{}, c', {}⟩ users [] = .error (.ambiguousLink table links) := by
  intro author editor user post comment c c' comments users
  have h : c.ExtendedBy c' := by
    intro name
    simp only [c, c', Catalog.ofSchemas, List.foldl, Catalog.find?_register]
    split_ifs
    · exact .some ⟨rfl, rfl, rfl, List.Subset.refl _⟩
    · exact .some ⟨rfl, rfl, rfl, by simp [post]⟩
    · exact .some ⟨rfl, rfl, rfl, List.Subset.refl _⟩
    · exact .none
  have hcomments : (Compiler.compileQuery ⟨{}, c', {}⟩ comments []).isOk = true := by decide +kernel
  have husers : (Compiler.compileQuery ⟨{}, c', {}⟩ users []).isOk = false := by decide +kernel
  refine ⟨h, ⟨_, rfl, ?_⟩, ?_⟩
  · refine (compileQuery_extended {} {} c c' comments [] _ h rfl).resolve_right ?_
    rintro ⟨table, links, hlinks⟩
    rw [hlinks] at hcomments
    exact Bool.false_ne_true hcomments
  · rcases compileQuery_extended {} {} c c' users [] _ h rfl with hok | ⟨table, links, hlinks⟩
    · rw [hok] at husers
      exact absurd husers.symm Bool.false_ne_true
    · exact ⟨_, table, links, rfl, hlinks⟩

end DocQuery
