import DocQuery.Proofs.Catalogs.Comparison
import DocQuery.Proofs.Joins.Association

/-!
# What a query needs of a catalog

Two catalogs that hold the same schemas under the names that a query uses give
the same answer, except that the candidates of an ambiguous join may be listed in
another order. Where these schemas also stand in the same order, nothing differs
at all: schemas under other names can come, go, change and move.
-/

namespace DocQuery

/-- The candidates of an ambiguous join are listed in another order. -/
def Comparison.reordered : Comparison where
  Admits x y := ∃ table links links', x = some (.ambiguousLink table links) ∧
    y = some (.ambiguousLink table links') ∧ links.Perm links'
  not_values := by simp
  left := by simp
  right := by simp

/-- Nothing differs. -/
def Comparison.exact : Comparison where
  Admits _ _ := False
  not_values := id
  left _ := id
  right _ := id

namespace Catalog

variable {c c' : Catalog} {names earlier : List (Option String)}

/-- Both catalogs hold the same schema, or none, under each of the names. -/
def AgreeOn (names : List (Option String)) (c c' : Catalog) : Prop :=
  ∀ name, some name ∈ names → c.find? name = c'.find? name

/-- The schemas under the names, in the order of the catalog. -/
def named (names : List (Option String)) (c : Catalog) : List Schema :=
  c.schemas.filter fun s => some s.name ∈ names

theorem AgreeOn.primaryKey_eq (h : AgreeOn names c c') {source : Source}
    (hs : source.schema ∈ names) : c.primaryKey source = c'.primaryKey source := by
  refine primaryKey_congr ?_
  cases hname : source.schema with
  | none => rfl
  | some name => rw [Option.bind_some, Option.bind_some, h name (hname ▸ hs)]

/-! ## Another order of the candidates -/

/-- An association between two named schemas is declared on one of them. -/
theorem AgreeOn.associates_iff (h : AgreeOn names c c') {left right leftKey rightKey : String}
    (hl : some left ∈ names) (hr : some right ∈ names) :
    c.Associates left right leftKey rightKey ↔ c'.Associates left right leftKey rightKey := by
  rw [Associates, Associates, h left hl, h right hr]

theorem candidates_perm {right : String}
    (h : ∀ l : Link, some l.left ∈ earlier → l.right = right → (c.Declares l ↔ c'.Declares l)) :
    (c.candidates earlier right).Perm (c'.candidates earlier right) := by
  rw [List.perm_ext_iff_of_nodup (nodup_candidates right) (nodup_candidates right)]
  rintro ⟨i, l⟩
  simp only [mem_candidates]
  refine and_congr_left ?_
  rintro ⟨hi, hright⟩
  exact h l (List.mem_of_getElem? hi) hright

theorem AgreeOn.candidates_perm (h : AgreeOn names c c') {right : String}
    (hearlier : earlier ⊆ names) (hr : some right ∈ names) :
    (c.candidates earlier right).Perm (c'.candidates earlier right) := by
  refine Catalog.candidates_perm fun l hl hright => ?_
  subst hright
  rw [declares_iff_associates, declares_iff_associates]
  exact h.associates_iff (hearlier hl) hr

/-- With as many candidates on both sides there are none, one and the same, or
several. -/
theorem resolve_of_candidates_perm {source : Source}
    (h : ∀ right, source.schema = some right →
      (c.candidates earlier right).Perm (c'.candidates earlier right)) :
    Comparison.reordered.Holds (c.resolve earlier source) (c'.resolve earlier source) := by
  rw [Catalog.resolve, Catalog.resolve]
  cases hname : source.schema with
  | none => exact Or.inl rfl
  | some right =>
      have hperm := h right hname
      rcases hc : c.candidates earlier right with _ | ⟨x, _ | ⟨y, rest⟩⟩ <;> rw [hc] at hperm
      · rw [List.nil_perm] at hperm
        exact Or.inl (by simp only [hc, hperm])
      · rw [List.singleton_perm] at hperm
        exact Or.inl (by simp only [hc, ← hperm])
      · rcases hc' : c'.candidates earlier right with _ | ⟨x', _ | ⟨y', rest'⟩⟩ <;>
          rw [hc'] at hperm
        · exact absurd hperm.length_eq (by simp)
        · exact absurd hperm.length_eq (by simp)
        · simp only [hc, hc']
          exact Or.inr ⟨_, _, _, rfl, rfl, hperm.map _⟩

theorem AgreeOn.resolve (h : AgreeOn names c c') {source : Source} (hearlier : earlier ⊆ names)
    (hs : source.schema ∈ names) :
    Comparison.reordered.Holds (c.resolve earlier source) (c'.resolve earlier source) :=
  resolve_of_candidates_perm fun _ hname => h.candidates_perm hearlier (hname ▸ hs)

theorem AgreeOn.compare (h : AgreeOn names c c') : c.Compare .reordered names c' where
  resolve hearlier hs := h.resolve hearlier hs
  primaryKey hs := h.primaryKey_eq hs

/-! ## The same order -/

theorem filter_distinct (links : List Link) (p : Link → Bool) :
    (Link.distinct links).filter p = Link.distinct (links.filter p) := by
  have hfoldl : ∀ done : List Link, (links.foldl Link.addTo done).filter p =
      (links.filter p).foldl Link.addTo (done.filter p) := by
    induction links with
    | nil => exact fun _ => rfl
    | cons l rest ih =>
        intro done
        rw [List.foldl_cons, ih]
        by_cases hmem : l ∈ done <;> by_cases hl : p l = true <;> simp [Link.addTo, hmem, hl]
  exact hfoldl []

theorem linksBetween_eq {left right : String} (hl : some left ∈ names)
    (hr : some right ∈ names) :
    c.linksBetween left right =
      Link.distinct ((c.named names).flatMap fun s => (s.associations.flatMap fun a =>
        a.links s.name).filter fun l => l.left = left ∧ l.right = right) := by
  -- a schema gives links between itself and others only
  have hother : ∀ s : Schema, some s.name ∉ names → (s.associations.flatMap fun a =>
      a.links s.name).filter (fun l => l.left = left ∧ l.right = right) = [] := by
    intro s hs
    rw [List.filter_eq_nil_iff]
    intro l hl'
    obtain ⟨a, -, hmem⟩ := List.mem_flatMap.mp hl'
    rw [decide_eq_true_eq]
    rintro ⟨rfl, rfl⟩
    rcases mem_links_iff.mp hmem with rfl | ⟨-, rfl⟩
    · exact hs hl
    · exact hs hr
  rw [linksBetween, links, filter_distinct, List.filter_flatMap, named]
  congr 1
  induction c.schemas with
  | nil => rfl
  | cons s rest ih =>
      by_cases hs : some s.name ∈ names
      · rw [List.flatMap_cons, ih, List.filter_cons_of_pos (by simpa using hs), List.flatMap_cons]
      · rw [List.flatMap_cons, ih, List.filter_cons_of_neg (by simpa using hs), hother s hs,
          List.nil_append]

theorem find?_named {name : String} (hn : some name ∈ names) :
    c.find? name = (c.named names).find? fun s => s.name = name := by
  rw [find?, named, List.find?_filter]
  congr 1
  funext s
  by_cases hs : s.name = name <;> simp [hs, hn]

theorem compare_of_named_eq (h : c.named names = c'.named names) :
    c.Compare .exact names c' where
  resolve {earlier source} hearlier hs := by
    rw [Catalog.resolve, Catalog.resolve]
    cases hname : source.schema with
    | none => exact Or.inl rfl
    | some right =>
        have hcand : c.candidates earlier right = c'.candidates earlier right := by
          refine List.flatMap_congr ?_
          rintro ⟨_ | left, i⟩ hmem
          · rfl
          · have hl : some left ∈ names :=
              hearlier (List.mem_of_getElem? (List.mem_zipIdx_iff_getElem?.mp hmem))
            have hr : some right ∈ names := hname ▸ hs
            simp only [linksBetween_eq hl hr, h]
        exact Or.inl (by simp only [hcand])
  primaryKey {source} hs := by
    have hagree : AgreeOn names c c' := fun name hn => by
      rw [find?_named hn, find?_named hn, h]
    exact hagree.primaryKey_eq hs

/-! ## Registering other schemas -/

theorem named_register {s : Schema} (hs : some s.name ∉ names) :
    (c.register s).named names = c.named names := by
  show (s.placeIn c.schemas).filter _ = c.schemas.filter _
  induction c.schemas with
  | nil => simp [Schema.placeIn, hs]
  | cons t rest ih =>
      by_cases ht : t.name = s.name
      · simp [Schema.placeIn, ht, hs]
      · simp only [Schema.placeIn, ht, if_false, List.filter_cons, ih]

theorem named_foldl_register {others : List Schema} (h : ∀ s ∈ others, some s.name ∉ names) :
    (others.foldl register c).named names = c.named names := by
  induction others generalizing c with
  | nil => rfl
  | cons s others ih =>
      rw [List.forall_mem_cons] at h
      rw [List.foldl_cons, ih h.2, named_register h.1]

end Catalog

/-- Catalogs with the same schemas under the names of a query give the same
answer up to the order of candidates, in whatever order schemas were registered
and replaced. With these schemas in one order the answers are the same, so
registering schemas under other names changes nothing. -/
theorem compileQuery_local (config : Config) (engine : RegexEngine) (q : Query) (params : Params) :
    (∀ c c' : Catalog, Catalog.AgreeOn q.relations c c' →
      let answer := Compiler.compileQuery ⟨config, c, engine⟩ q params
      let answer' := Compiler.compileQuery ⟨config, c', engine⟩ q params
      answer = answer' ∨ ∃ table links links', answer = .error (.ambiguousLink table links) ∧
        answer' = .error (.ambiguousLink table links') ∧ links.Perm links') ∧
    (∀ c c' : Catalog, c.named q.relations = c'.named q.relations →
      Compiler.compileQuery ⟨config, c, engine⟩ q params =
        Compiler.compileQuery ⟨config, c', engine⟩ q params) ∧
    (∀ (c : Catalog) (others : List Schema), (∀ s ∈ others, some s.name ∉ q.relations) →
      Compiler.compileQuery ⟨config, others.foldl Catalog.register c, engine⟩ q params =
        Compiler.compileQuery ⟨config, c, engine⟩ q params) := by
  have hexact : ∀ c c' : Catalog, c.named q.relations = c'.named q.relations →
      Compiler.compileQuery ⟨config, c, engine⟩ q params =
        Compiler.compileQuery ⟨config, c', engine⟩ q params := fun c c' h =>
    (Compiler.compare_compileQuery (Catalog.compare_of_named_eq h)).resolve_right id
  refine ⟨fun c c' h => ?_, hexact, fun c others h => ?_⟩
  · refine (Compiler.compare_compileQuery h.compare).imp id ?_
    rintro ⟨table, links, links', hx, hy, hperm⟩
    exact ⟨table, links, links', rejection?_eq_some.mp hx, rejection?_eq_some.mp hy, hperm⟩
  · exact hexact _ c (Catalog.named_foldl_register h)

/-- Users are registered again, which puts their associations before those of
messages, and tags are about messages too. -/
theorem compileQuery_local_of_messages :
    let message : Schema := {
      name := "Message"
      table := "messages"
      associations := [.declare .belongsTo "sender" "User" "sender_id"]
    }
    let user : Schema := {
      name := "User"
      table := "users"
      associations := [.declare .hasMany "inbox" "Message" "recipient_id"]
    }
    let tag : Schema := {
      name := "Tag"
      table := "tags"
      associations := [.declare .belongsTo "message" "Message" "message_id"]
    }
    let q : Query := {
      source := message.source
      joins := [⟨user.source, .literal (.bool true)⟩]
    }
    let c := Catalog.ofSchemas [message, user]
    let c' := Catalog.ofSchemas [tag, { user with associations := [] }, message, user]
    let answer := Compiler.compileQuery ⟨{}, c, {}⟩ q []
    let answer' := Compiler.compileQuery ⟨{}, c', {}⟩ q []
    (Catalog.AgreeOn q.relations c c' ∧
      (answer = answer' ∨ ∃ table links links', answer = .error (.ambiguousLink table links) ∧
        answer' = .error (.ambiguousLink table links') ∧ links.Perm links')) ∧
    (c.named q.relations = (Catalog.ofSchemas [tag, message, user]).named q.relations ∧
      answer = Compiler.compileQuery ⟨{}, Catalog.ofSchemas [tag, message, user], {}⟩ q []) ∧
    ((∀ s ∈ [tag, tag], some s.name ∉ q.relations) ∧
      Compiler.compileQuery ⟨{}, [tag, tag].foldl Catalog.register c, {}⟩ q [] = answer) := by
  intro message user tag q c c' answer answer'
  obtain ⟨hreordered, hexact, hothers⟩ := compileQuery_local {} {} q []
  have hagree : Catalog.AgreeOn q.relations c c' := by
    intro name hname
    have hnames : name = "Message" ∨ name = "User" := by
      simpa [Query.relations, q, message, user, Schema.source] using hname
    rcases hnames with rfl | rfl <;> rfl
  have hnamed : c.named q.relations =
      (Catalog.ofSchemas [tag, message, user]).named q.relations := by decide
  have htag : ∀ s ∈ [tag, tag], some s.name ∉ q.relations := by decide
  exact ⟨⟨hagree, hreordered c c' hagree⟩, ⟨hnamed, hexact _ _ hnamed⟩,
    ⟨htag, hothers c [tag, tag] htag⟩⟩

end DocQuery
