/-!
# Entries in insertion order

A finite map that remembers the order in which its keys first came. Putting a
key that is present replaces its value and keeps its place; a new key goes to
the end. Objects, field lists and optional arguments are all kept this way.
-/

namespace DocQuery

/-- Keys with values, in order. -/
abbrev Entries (α : Type) := List (String × α)

namespace Entries

variable {α : Type}

/-- The value of the first entry with this key. -/
def get? (key : String) : Entries α → Option α
  | [] => none
  | (k, v) :: rest => if k = key then some v else get? key rest

/-- Replaces the value of the first entry with this key, or adds an entry. -/
def put (key : String) (value : α) : Entries α → Entries α
  | [] => [(key, value)]
  | (k, v) :: rest => if k = key then (k, value) :: rest else (k, v) :: put key value rest

/-- All pairs put one after another: a repeated key keeps its first place and
its last value. -/
def ofPairs (pairs : List (String × α)) : Entries α :=
  pairs.foldl (fun es p => put p.1 p.2 es) []

theorem get?_put (key other : String) (value : α) (es : Entries α) :
    get? other (put key value es) = if key = other then some value else get? other es := by
  induction es with
  | nil => simp [put, get?]
  | cons e rest ih =>
    obtain ⟨k, v⟩ := e
    by_cases hk : k = key
    · subst hk
      by_cases ho : k = other <;> simp [put, get?, ho]
    · by_cases ho : k = other
      · subst ho
        simp [put, get?, hk, Ne.symm hk]
      · simp [put, get?, hk, ho, ih]

theorem put_of_not_mem {key : String} {value : α} {es : Entries α} (h : key ∉ es.map (·.1)) :
    put key value es = es ++ [(key, value)] := by
  induction es with
  | nil => rfl
  | cons e rest ih =>
    obtain ⟨k, v⟩ := e
    rw [List.map_cons, List.mem_cons, not_or] at h
    rw [put, if_neg (Ne.symm h.1), ih h.2, List.cons_append]

theorem foldl_put_of_nodup {ps : List (String × α)} {es : Entries α}
    (h : ((es ++ ps).map (·.1)).Nodup) :
    ps.foldl (fun es p => put p.1 p.2 es) es = es ++ ps := by
  induction ps generalizing es with
  | nil => rw [List.foldl_nil, List.append_nil]
  | cons p rest ih =>
    have hsplit : es ++ p :: rest = (es ++ [p]) ++ rest := by simp
    have hnew : p.1 ∉ es.map (·.1) := by
      intro hmem
      rw [List.map_append, List.map_cons, List.nodup_append] at h
      exact h.2.2 p.1 hmem p.1 List.mem_cons_self rfl
    rw [List.foldl_cons, put_of_not_mem hnew, hsplit]
    exact ih (hsplit ▸ h)

/-- Where no key comes twice, all pairs stay as they are. -/
theorem ofPairs_of_nodup {ps : List (String × α)} (h : (ps.map (·.1)).Nodup) :
    ofPairs ps = ps :=
  foldl_put_of_nodup h

example : ofPairs [("a", 1), ("b", 2), ("a", 3)] = [("a", 3), ("b", 2)] := by decide

end Entries

end DocQuery
