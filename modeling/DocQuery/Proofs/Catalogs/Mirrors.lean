import DocQuery.Proofs.Catalogs.Locality

/-!
# Associations declared from both sides

An association can be declared on either of its schemas or on both. Between two
schemas the second declaration adds nothing: every link is there already, so no join
becomes ambiguous by it. An association of a schema with itself is not read
backwards, so there the declaration from the other side is another link.
-/

namespace DocQuery

/-- The association as the related schema declares it: back to the owner, by the
same two fields. Name and kind are free. -/
structure Association.Mirrors (mirror a : Association) (owner : String) : Prop where
  related : mirror.related = owner
  ownerKey : mirror.ownerKey = a.relatedKey
  relatedKey : mirror.relatedKey = a.ownerKey

namespace Catalog

variable {c : Catalog} {owner related : Schema} {a mirror : Association}
  {declared : List Association} {l : Link}

/-! ## One more association -/

theorem mem_schemas_register {s t : Schema} :
    s ∈ (c.register t).schemas ↔ s = t ∨ s ∈ c.schemas ∧ s.name ≠ t.name := by
  have hfind : (c.register t).find? s.name = some s ↔ s ∈ (c.register t).schemas :=
    find?_eq_some_iff.trans (and_iff_left rfl)
  rw [← hfind, find?_register]
  split_ifs with hname
  · constructor
    · intro h
      exact Or.inl (Option.some.inj h).symm
    · rintro (rfl | ⟨-, hne⟩)
      · rfl
      · exact absurd hname.symm hne
  · rw [find?_eq_some_iff]
    constructor
    · rintro ⟨hs, -⟩
      exact Or.inr ⟨hs, fun h => hname h.symm⟩
    · rintro (rfl | ⟨hs, -⟩)
      · exact absurd rfl hname
      · exact ⟨hs, rfl⟩

/-- A further association of a schema adds its own links and takes none away. -/
theorem declares_register_iff (hrelated : related ∈ c.schemas)
    (hdeclared : declared.Perm (mirror :: related.associations)) :
    (c.register { related with associations := declared }).Declares l ↔
      c.Declares l ∨ l ∈ mirror.links related.name := by
  simp only [Declares, mem_schemas_register]
  constructor
  · rintro ⟨s, rfl | ⟨hs, -⟩, b, hb, hl⟩
    · rw [hdeclared.mem_iff, List.mem_cons] at hb
      rcases hb with rfl | hb
      · exact Or.inr hl
      · exact Or.inl ⟨related, hrelated, b, hb, hl⟩
    · exact Or.inl ⟨s, hs, b, hb, hl⟩
  · rintro (⟨s, hs, b, hb, hl⟩ | hl)
    · by_cases hname : s.name = related.name
      · -- names differ, so this is the schema that was registered anew
        obtain rfl : s = related := List.inj_on_of_nodup_map c.nodup_names hs hrelated hname
        refine ⟨_, Or.inl rfl, b, ?_, hl⟩
        exact hdeclared.mem_iff.mpr (List.mem_cons_of_mem _ hb)
      · exact ⟨s, Or.inr ⟨hs, hname⟩, b, hb, hl⟩
    · exact ⟨_, Or.inl rfl, mirror, hdeclared.mem_iff.mpr List.mem_cons_self, hl⟩

theorem primaryKey_register (hrelated : related ∈ c.schemas) (source : Source) :
    (c.register { related with associations := declared }).primaryKey source =
      c.primaryKey source := by
  refine primaryKey_congr ?_
  cases source.schema with
  | none => rfl
  | some name =>
      rw [Option.bind_some, Option.bind_some, find?_register]
      by_cases hname : related.name = name
      · have hfind : c.find? name = some related := find?_eq_some_iff.mpr ⟨hrelated, hname⟩
        rw [if_pos hname, hfind]
        rfl
      · rw [if_neg hname]

/-! ## The links of a mirror -/

/-- Between two schemas an association and its mirror give the same two links. -/
theorem mem_links_mirror_of_ne (hmirror : mirror.Mirrors a owner.name)
    (hne : a.related ≠ owner.name) : l ∈ mirror.links a.related ↔ l ∈ a.links owner.name := by
  rw [mem_links_iff, mem_links_iff, hmirror.related, hmirror.ownerKey, hmirror.relatedKey,
    and_iff_right hne, and_iff_right hne.symm]
  exact or_comm

theorem mem_links_mirror_of_eq (hmirror : mirror.Mirrors a owner.name)
    (hself : a.related = owner.name) :
    l ∈ mirror.links a.related ↔ l = ⟨owner.name, owner.name, a.relatedKey, a.ownerKey⟩ := by
  rw [mem_links_iff, hmirror.related, hmirror.ownerKey, hmirror.relatedKey, hself]
  simp

/-- The links of the mirror are declared already. -/
theorem declares_mirrored_iff (howner : owner ∈ c.schemas) (ha : a ∈ owner.associations)
    (hrelated : related ∈ c.schemas) (hname : related.name = a.related)
    (hmirror : mirror.Mirrors a owner.name)
    (hdeclared : declared.Perm (mirror :: related.associations)) (hne : a.related ≠ owner.name) :
    (c.register { related with associations := declared }).Declares l ↔ c.Declares l := by
  rw [declares_register_iff hrelated hdeclared, hname, mem_links_mirror_of_ne hmirror hne]
  refine or_iff_left_of_imp fun hl => ?_
  exact ⟨owner, howner, a, ha, hl⟩

/-- Catalogs that declare the same links, with the same primary keys, answer alike up
to the order of candidates. -/
theorem compare_of_declares_iff {c' : Catalog} (hlinks : ∀ l, c.Declares l ↔ c'.Declares l)
    (hkeys : ∀ source, c.primaryKey source = c'.primaryKey source)
    (names : List (Option String)) : c.Compare .reordered names c' where
  resolve _ _ := resolve_of_candidates_perm fun _ _ => candidates_perm fun l _ _ => hlinks l
  primaryKey _ := hkeys _

theorem mem_linksBetween_iff_declares {left right : String} :
    l ∈ c.linksBetween left right ↔ c.Declares l ∧ l.left = left ∧ l.right = right :=
  mem_linksBetween

/-- Read from its own schema, the mirror of an association of a schema with itself is
one more link of the schema with itself. -/
theorem mem_linksBetween_mirrored_of_eq (hrelated : related ∈ c.schemas)
    (hname : related.name = a.related) (hmirror : mirror.Mirrors a owner.name)
    (hdeclared : declared.Perm (mirror :: related.associations)) (hself : a.related = owner.name)
    {left right : String} :
    l ∈ (c.register { related with associations := declared }).linksBetween left right ↔
      l ∈ c.linksBetween left right ∨ left = owner.name ∧ right = owner.name ∧
        l = ⟨owner.name, owner.name, a.relatedKey, a.ownerKey⟩ := by
  rw [mem_linksBetween_iff_declares, declares_register_iff hrelated hdeclared, hname,
    mem_links_mirror_of_eq hmirror hself, or_and_right, mem_linksBetween_iff_declares]
  refine or_congr_right ?_
  constructor
  · rintro ⟨rfl, rfl, rfl⟩
    exact ⟨rfl, rfl, rfl⟩
  · rintro ⟨rfl, rfl, rfl⟩
    exact ⟨rfl, rfl, rfl⟩

end Catalog

/-- The mirror of an association between two schemas adds no link between any
schemas, and no query is answered otherwise, except that the candidates of a join
that was ambiguous may come in another order. The mirror of an association of a
schema with itself adds the one link that reads the association backwards. In both
cases every link is listed once. -/
theorem mirrored_association (c : Catalog) (owner related : Schema) (a mirror : Association)
    (declared : List Association) (howner : owner ∈ c.schemas) (ha : a ∈ owner.associations)
    (hrelated : c.find? a.related = some related) (hmirror : mirror.Mirrors a owner.name)
    (hdeclared : declared.Perm (mirror :: related.associations)) :
    let c' := c.register { related with associations := declared }
    (∀ left right, (c.linksBetween left right).Nodup ∧ (c'.linksBetween left right).Nodup) ∧
    (a.related ≠ owner.name →
      (∀ left right l, l ∈ c'.linksBetween left right ↔ l ∈ c.linksBetween left right) ∧
      ∀ config engine q params,
        let answer := Compiler.compileQuery ⟨config, c, engine⟩ q params
        let answer' := Compiler.compileQuery ⟨config, c', engine⟩ q params
        answer = answer' ∨ ∃ table links links', answer = .error (.ambiguousLink table links) ∧
          answer' = .error (.ambiguousLink table links') ∧ links.Perm links') ∧
    (a.related = owner.name →
      ∀ left right l, l ∈ c'.linksBetween left right ↔
        l ∈ c.linksBetween left right ∨ left = owner.name ∧ right = owner.name ∧
          l = ⟨owner.name, owner.name, a.relatedKey, a.ownerKey⟩) := by
  intro c'
  obtain ⟨hmem, hname⟩ := Catalog.find?_eq_some_iff.mp hrelated
  refine ⟨fun left right => ?_, fun hne => ?_, fun hself left right l => ?_⟩
  · exact ⟨c.nodup_linksBetween left right, c'.nodup_linksBetween left right⟩
  · have hsame (l : Link) : c.Declares l ↔ c'.Declares l :=
      (Catalog.declares_mirrored_iff howner ha hmem hname hmirror hdeclared hne).symm
    have hkeys (source : Source) : c.primaryKey source = c'.primaryKey source :=
      (Catalog.primaryKey_register hmem source).symm
    constructor
    · intro left right l
      rw [Catalog.mem_linksBetween_iff_declares, Catalog.mem_linksBetween_iff_declares, hsame]
    · intro config engine q params answer answer'
      have hcompare : c.Compare .reordered q.relations c' :=
        Catalog.compare_of_declares_iff hsame hkeys _
      rcases Compiler.compare_compileQuery hcompare with heq | hambiguous
      · exact Or.inl heq
      · obtain ⟨table, links, links', hx, hy, hperm⟩ := hambiguous
        have hanswer : answer = .error (.ambiguousLink table links) := rejection?_eq_some.mp hx
        have hanswer' : answer' = .error (.ambiguousLink table links') := rejection?_eq_some.mp hy
        exact Or.inr ⟨table, links, links', hanswer, hanswer', hperm⟩
  · exact Catalog.mem_linksBetween_mirrored_of_eq hmem hname hmirror hdeclared hself

/-- The comments of a post are declared on the post. Once a comment declares its post
as well, comments join their posts as before. -/
theorem mirrored_association_of_comments :
    let comments : Association := .declare .hasMany "comments" "Comment" "post_id"
    let back : Association := .declare .belongsTo "post" "Post" "post_id"
    let post : Schema := { name := "Post", table := "posts", associations := [comments] }
    let comment : Schema := { name := "Comment", table := "comments" }
    let c := Catalog.ofSchemas [post, comment]
    let c' := c.register { comment with associations := [back] }
    let q : Query := {
      source := comment.source
      joins := [⟨post.source, .literal (.bool true)⟩]
    }
    back.Mirrors comments post.name ∧
    (∀ l, l ∈ c'.linksBetween "Comment" "Post" ↔ l ∈ c.linksBetween "Comment" "Post") ∧
    ∃ t, Compiler.compileQuery ⟨{}, c, {}⟩ q [] = .ok t ∧
      Compiler.compileQuery ⟨{}, c', {}⟩ q [] = .ok t := by
  intro comments back post comment c c' q
  have hback : back.Mirrors comments post.name := ⟨rfl, rfl, rfl⟩
  have hpost : post ∈ c.schemas := List.mem_cons_self
  have hcomments : comments ∈ post.associations := List.mem_cons_self
  obtain ⟨-, hother, -⟩ :=
    mirrored_association c post comment comments back [back] hpost hcomments rfl hback (.refl _)
  obtain ⟨hlinks, hanswers⟩ := hother (by decide)
  refine ⟨hback, hlinks "Comment" "Post", _, rfl, ?_⟩
  rcases hanswers {} {} q [] with hanswer | ⟨table, links, links', hambiguous, -, -⟩
  · exact hanswer.symm
  · cases hambiguous

/-- An employee has a manager. With the reports of an employee declared as well there
are two links between employees, and a join by association is ambiguous. -/
theorem not_mirrored_association_of_reports :
    let manager : Association := .declare .belongsTo "manager" "Employee" "manager_id"
    let reports : Association := .declare .hasMany "reports" "Employee" "manager_id"
    let employee : Schema := {
      name := "Employee", table := "employees", associations := [manager] }
    let c := Catalog.ofSchemas [employee]
    let c' := c.register { employee with associations := [manager, reports] }
    let q : Query := {
      source := employee.source
      joins := [⟨employee.source, .literal (.bool true)⟩]
    }
    let managed : Link := ⟨"Employee", "Employee", "manager_id", "id"⟩
    employee ∈ c.schemas ∧ reports.Mirrors manager employee.name ∧
    c.linksBetween "Employee" "Employee" = [managed] ∧
    c'.linksBetween "Employee" "Employee" = [managed, managed.flip] ∧
    (∃ t, Compiler.compileQuery ⟨{}, c, {}⟩ q [] = .ok t) ∧
    Compiler.compileQuery ⟨{}, c', {}⟩ q [] =
      .error (.ambiguousLink "employees" [managed, managed.flip]) := by
  intro manager reports employee c c' q managed
  exact ⟨List.mem_cons_self, ⟨rfl, rfl, rfl⟩, by decide, by decide, ⟨_, rfl⟩, rfl⟩

end DocQuery
