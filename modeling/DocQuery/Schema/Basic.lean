import DocQuery.Query

/-!
# Schemas and associations

A schema says which table holds its documents, which field is the primary key
and how it relates to other schemas.
-/

namespace DocQuery

inductive AssociationKind
  | belongsTo
  | hasOne
  | hasMany
deriving DecidableEq

/-- A relationship declared on an owning schema: a document of the owner and a
document of the related schema belong together when the owner's `ownerKey`
field equals the other's `relatedKey` field. -/
structure Association where
  name : String
  kind : AssociationKind
  related : String
  ownerKey : String
  relatedKey : String
deriving DecidableEq

namespace Association

/-- The side that holds the foreign key depends on the kind; the other side is
keyed by `id` until `references` says otherwise. -/
def declare (kind : AssociationKind) (name related foreignKey : String) : Association :=
  match kind with
  | .belongsTo => ⟨name, kind, related, foreignKey, "id"⟩
  | .hasOne | .hasMany => ⟨name, kind, related, "id", foreignKey⟩

/-- Replaces the key of the side that does not hold the foreign key. -/
def references (a : Association) (key : String) : Association :=
  match a.kind with
  | .belongsTo => { a with relatedKey := key }
  | .hasOne | .hasMany => { a with ownerKey := key }

end Association

structure Schema where
  name : String
  table : String
  primaryKey : String := "id"
  associations : List Association := []
deriving DecidableEq

/-- A query source that reads the table of the schema. -/
def Schema.source (s : Schema) : Source := ⟨s.table, some s.name⟩

end DocQuery
