import HtmlTemplate.Number.Display

/-!
# Parameter values

What a host hands to a template: texts, numbers, truth values, maps, objects of its own, and nothing.

## Contents

* `HostObject`, `Value` — the values;
* `Value.ofEntries`, `Value.ofList` — maps from keyed entries and from sequences;
* `ValueKind`, `Value.kind` — the kind of a value and its name;
* `Value.text` — the text that a value is rendered as;
* `Value.get?`, `Value.field?` — the value under a key.
-/

namespace HtmlTemplate

/-- An object of the host. It is known by `id`, looked into field by field, and rendered as `text` if it
    has one. -/
structure HostObject (α : Type) where
  id : Nat
  text : Option String
  field : String → Option α

/-- A parameter value. -/
inductive Value where
  | string (text : String)
  | number (value : Number)
  | bool (value : Bool)
  /-- Entries by key. Under each key only the first entry is seen. -/
  | map (entries : List (String × Value))
  | object (host : HostObject Value)
  | none
deriving Inhabited

/-- The kinds of values. -/
inductive ValueKind where
  | string
  | number
  | bool
  | map
  | object
  | none
deriving DecidableEq, Inhabited

/-- The name of a kind. -/
def ValueKind.name : ValueKind → String
  | .string => "string"
  | .number => "number"
  | .bool => "bool"
  | .map => "map"
  | .object => "object"
  | .none => "none"

namespace Value

/-! ## Maps -/

/-- The map without entries. -/
def emptyMap : Value := map []

/-- The map that holds the last value given to each key. -/
def ofEntries (entries : List (String × Value)) : Value := map entries.reverse

/-- A sequence as a map, its items keyed by their decimal index. -/
def ofList (items : List Value) : Value :=
  map (items.zipIdx.map fun (item, index) => (index.repr, item))

/-! ## Views -/

/-- The kind of a value. -/
def kind : Value → ValueKind
  | string _ => .string
  | number _ => .number
  | bool _ => .bool
  | map _ => .map
  | object _ => .object
  | none => .none

/-- The text that a value is rendered as. A map has none, and nothing is the empty text. -/
def text : Value → Option String
  | string content => some content
  | number x => some x.display
  | bool true => some "true"
  | bool false => some "false"
  | map _ => Option.none
  | object host => host.text
  | none => some ""

/-- The value under a key of a map. -/
def get? (key : String) : Value → Option Value
  | map entries => entries.lookup key
  | _ => Option.none

/-- The value under a key of a map or in a field of an object. -/
def field? (key : String) : Value → Option Value
  | object host => host.field key
  | value => value.get? key

@[simp] theorem get?_map (key : String) (entries : List (String × Value)) :
    (map entries).get? key = entries.lookup key := rfl

@[simp] theorem field?_map (key : String) (entries : List (String × Value)) :
    (map entries).field? key = entries.lookup key := rfl

@[simp] theorem field?_object (key : String) (host : HostObject Value) :
    (object host).field? key = host.field key := rfl

end Value

end HtmlTemplate
