import DocQuery.Schema.Catalog

/-!
# Links between schemas

Every declared association can be followed from either side, so it gives a link
in both directions; an association of a schema with itself gives one. Links are
listed in the order in which they are declared and no link is listed twice, so
a `hasMany` and the `belongsTo` that answers it count once.
-/

namespace DocQuery

/-- Documents of `left` and `right` belong together when the field `leftKey` of
the one equals the field `rightKey` of the other. -/
structure Link where
  left : String
  right : String
  leftKey : String
  rightKey : String
deriving DecidableEq

namespace Link

/-- The same link from the other side. -/
def flip (l : Link) : Link := ⟨l.right, l.left, l.rightKey, l.leftKey⟩

/-- Adds a link at the end unless it is already listed. -/
def addTo (links : List Link) (l : Link) : List Link :=
  if l ∈ links then links else links ++ [l]

def distinct (links : List Link) : List Link := links.foldl addTo []

theorem mem_foldl_addTo (l : Link) (links done : List Link) :
    l ∈ links.foldl addTo done ↔ l ∈ done ∨ l ∈ links := by
  induction links generalizing done with
  | nil => simp
  | cons k rest ih =>
    rw [List.foldl_cons, ih, List.mem_cons]
    by_cases hk : k ∈ done
    · rw [addTo, if_pos hk]
      constructor
      · rintro (h | h)
        · exact Or.inl h
        · exact Or.inr (Or.inr h)
      · rintro (h | rfl | h)
        · exact Or.inl h
        · exact Or.inl hk
        · exact Or.inr h
    · rw [addTo, if_neg hk, List.mem_append, List.mem_singleton, or_assoc]

theorem nodup_foldl_addTo (links done : List Link) (h : done.Nodup) :
    (links.foldl addTo done).Nodup := by
  induction links generalizing done with
  | nil => exact h
  | cons k rest ih =>
    rw [List.foldl_cons]
    apply ih
    by_cases hk : k ∈ done
    · rwa [addTo, if_pos hk]
    · rw [addTo, if_neg hk, List.nodup_append]
      refine ⟨h, by simp, ?_⟩
      intro a ha b hb
      rw [List.mem_singleton] at hb
      intro hab
      exact hk (hb ▸ hab ▸ ha)

theorem mem_distinct (l : Link) (links : List Link) : l ∈ distinct links ↔ l ∈ links := by
  rw [distinct, mem_foldl_addTo]
  simp

theorem nodup_distinct (links : List Link) : (distinct links).Nodup :=
  nodup_foldl_addTo links [] List.nodup_nil

end Link

/-- The links that one association of a schema gives. -/
def Association.links (a : Association) (owner : String) : List Link :=
  let l : Link := ⟨owner, a.related, a.ownerKey, a.relatedKey⟩
  if a.related = owner then [l] else [l, l.flip]

namespace Catalog

/-- All links, in the order of the schemas and of their associations. -/
def links (c : Catalog) : List Link :=
  Link.distinct (c.schemas.flatMap fun s => s.associations.flatMap fun a => a.links s.name)

def linksBetween (c : Catalog) (left right : String) : List Link :=
  c.links.filter fun l => l.left = left ∧ l.right = right

theorem nodup_linksBetween (c : Catalog) (left right : String) :
    (c.linksBetween left right).Nodup :=
  (Link.nodup_distinct _).filter _

theorem mem_linksBetween {c : Catalog} {left right : String} {l : Link} :
    l ∈ c.linksBetween left right ↔
      (∃ s ∈ c.schemas, ∃ a ∈ s.associations, l ∈ a.links s.name) ∧
        l.left = left ∧ l.right = right := by
  rw [linksBetween, List.mem_filter, links, Link.mem_distinct]
  simp only [List.mem_flatMap, decide_eq_true_eq]

end Catalog

end DocQuery
