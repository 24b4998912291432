import HtmlTemplate.Value.Basic

/-!
# Equality of values

Two values are equal if they are of one kind and cannot be told apart through their views. Maps are compared
key by key, so the order of their entries does not matter. Objects are equal only to themselves. A NaN is
not equal to itself, and neither is a map that holds one.

## Contents

* `Value.equal` — the test.
-/

namespace HtmlTemplate

/-- What is found under a key is one of the entries. -/
theorem mem_of_lookup_eq_some {α : Type} {key : String} {value : α} {entries : List (String × α)}
    (h : entries.lookup key = some value) : (key, value) ∈ entries := by
  induction entries with
  | nil => cases h
  | cons entry entries ih =>
    rw [List.lookup_cons] at h
    split at h
    · rename_i hk
      rw [beq_iff_eq] at hk
      cases h
      exact List.mem_cons.2 (.inl (Prod.ext hk rfl))
    · exact List.mem_cons_of_mem _ (ih h)

namespace Value

/-- A value found in a map is smaller than the map. -/
theorem sizeOf_lt_of_lookup {key : String} {value : Value} {entries : List (String × Value)}
    (h : entries.lookup key = some value) : sizeOf value < sizeOf (map entries) := by
  have := List.sizeOf_lt_of_mem (mem_of_lookup_eq_some h)
  simp only [Prod.mk.sizeOf_spec, map.sizeOf_spec] at this ⊢
  omega

/-- Whether two values are equal. -/
def equal : Value → Value → Bool
  | string a, string b => a = b
  | number a, number b => a.equal b
  | bool a, bool b => a = b
  | map a, map b =>
    (a.map Prod.fst ++ b.map Prod.fst).all fun key =>
      match _h : a.lookup key, b.lookup key with
      | some v, some w => equal v w
      | Option.none, Option.none => true
      | _, _ => false
  | object a, object b => a.id = b.id
  | none, none => true
  | _, _ => false
termination_by a => sizeOf a
decreasing_by exact sizeOf_lt_of_lookup _h

end Value

end HtmlTemplate
