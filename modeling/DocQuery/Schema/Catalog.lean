import DocQuery.Schema.Basic

/-!
# Catalogs of schemas

The schemas known to a compiler, in the order of their first registration. A
name occurs once: registering it again replaces the schema in its place.
-/

namespace DocQuery

/-- Puts a schema in the place of the one with its name, or at the end. -/
def Schema.placeIn (s : Schema) : List Schema → List Schema
  | [] => [s]
  | t :: rest => if t.name = s.name then s :: rest else t :: s.placeIn rest

theorem Schema.mem_names_placeIn (s : Schema) (name : String) (schemas : List Schema) :
    name ∈ (s.placeIn schemas).map Schema.name ↔
      name = s.name ∨ name ∈ schemas.map Schema.name := by
  induction schemas with
  | nil => simp [placeIn]
  | cons t rest ih =>
    by_cases h : t.name = s.name
    · simp [placeIn, h]
    · simp only [placeIn, h, if_false, List.map_cons, List.mem_cons, ih]
      constructor
      · rintro (ht | hs | hr)
        · exact Or.inr (Or.inl ht)
        · exact Or.inl hs
        · exact Or.inr (Or.inr hr)
      · rintro (hs | ht | hr)
        · exact Or.inr (Or.inl hs)
        · exact Or.inl ht
        · exact Or.inr (Or.inr hr)

theorem Schema.nodup_names_placeIn (s : Schema) {schemas : List Schema}
    (h : (schemas.map Schema.name).Nodup) : ((s.placeIn schemas).map Schema.name).Nodup := by
  induction schemas with
  | nil => simp [placeIn]
  | cons t rest ih =>
    rw [List.map_cons, List.nodup_cons] at h
    by_cases ht : t.name = s.name
    · simp only [placeIn, ht, if_true, List.map_cons, List.nodup_cons]
      exact ⟨ht ▸ h.1, h.2⟩
    · simp only [placeIn, ht, if_false, List.map_cons, List.nodup_cons]
      refine ⟨?_, ih h.2⟩
      rw [Schema.mem_names_placeIn]
      rintro (hs | hr)
      · exact ht hs
      · exact h.1 hr

/-- Schemas with pairwise different names. -/
structure Catalog where
  schemas : List Schema := []
  nodup_names : (schemas.map Schema.name).Nodup := by exact List.nodup_nil

namespace Catalog

def register (c : Catalog) (s : Schema) : Catalog :=
  ⟨s.placeIn c.schemas, s.nodup_names_placeIn c.nodup_names⟩

def ofSchemas (schemas : List Schema) : Catalog := schemas.foldl register {}

def find? (c : Catalog) (name : String) : Option Schema :=
  c.schemas.find? fun s => s.name = name

theorem find?_register (c : Catalog) (s : Schema) (name : String) :
    (c.register s).find? name = if s.name = name then some s else c.find? name := by
  show (s.placeIn c.schemas).find? _ = if s.name = name then some s else c.schemas.find? _
  induction c.schemas with
  | nil => by_cases h : s.name = name <;> simp [Schema.placeIn, h]
  | cons t rest ih =>
    by_cases ht : t.name = s.name
    · by_cases h : s.name = name <;> simp [Schema.placeIn, ht, h]
    · by_cases hn : t.name = name
      · have hs : s.name ≠ name := fun hs => ht (hn.trans hs.symm)
        simp [Schema.placeIn, hn, hs, Ne.symm hs]
      · simp [Schema.placeIn, ht, hn, ih]

end Catalog

end DocQuery
