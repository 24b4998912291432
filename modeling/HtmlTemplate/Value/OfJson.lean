import HtmlTemplate.Json.Basic
import HtmlTemplate.Value.Basic

/-!
# Values from JSON

A JSON document becomes a value: an array is a map keyed by the decimal indices of its items, so that a path
can have an index as a segment, and of members of the same name the last one counts.

## Contents

* `Value.ofJson` — the conversion.
-/

namespace HtmlTemplate

/-- What is found under a key after all entries are changed is what was found there, changed. -/
theorem lookup_map_snd {α β : Type} (f : α → β) (entries : List (String × α)) (key : String) :
    (entries.map fun entry => (entry.1, f entry.2)).lookup key = (entries.lookup key).map f := by
  induction entries with
  | nil => rfl
  | cons entry entries ih =>
    rw [List.map_cons, List.lookup_cons, List.lookup_cons, ih]
    cases key == entry.1 <;> rfl

namespace Value

mutual

/-- The value of a JSON document. -/
def ofJson : Json → Value
  | .null => none
  | .bool value => bool value
  | .number value => number value
  | .string text => string text
  | .array items => ofList (ofJsonAll items)
  | .object members => ofEntries (ofJsonMembers members)

/-- The values of some documents. -/
def ofJsonAll : List Json → List Value
  | [] => []
  | item :: items => ofJson item :: ofJsonAll items

/-- The values of some members. -/
def ofJsonMembers : List (String × Json) → List (String × Value)
  | [] => []
  | (key, member) :: members => (key, ofJson member) :: ofJsonMembers members

end

theorem ofJsonAll_eq_map (items : List Json) : ofJsonAll items = items.map ofJson := by
  induction items with
  | nil => rfl
  | cons item items ih => rw [ofJsonAll, ih, List.map_cons]

theorem ofJsonMembers_eq_map (members : List (String × Json)) :
    ofJsonMembers members = members.map fun member => (member.1, ofJson member.2) := by
  induction members with
  | nil => rfl
  | cons member members ih => rw [ofJsonMembers, ih, List.map_cons]

end Value

end HtmlTemplate
