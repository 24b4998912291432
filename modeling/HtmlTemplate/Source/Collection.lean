import HtmlTemplate.Source.Position

/-!
# The sources of an engine

Sources are numbered in the order in which they are added and never removed, so a `Location` keeps its
meaning. A number that was never given out stands for an empty source of unknown name.

## Contents

* `Source` — a name and a text;
* `Sources`, `Sources.add`, `Sources.name`, `Sources.code` — the numbered sources.
-/

namespace HtmlTemplate

/-- A template text and the name it goes by. -/
structure Source where
  name : String
  code : String
deriving DecidableEq, Inhabited

/-- Sources by number, the first one having number 0. -/
structure Sources where
  toList : List Source
deriving DecidableEq, Inhabited

namespace Sources

/-- No source at all. -/
def empty : Sources := ⟨[]⟩

/-- How many sources there are, which is the number of the next one. -/
def size (sources : Sources) : Nat := sources.toList.length

/-- Adds a source under the number `sources.size`. -/
def add (sources : Sources) (source : Source) : Sources := ⟨sources.toList ++ [source]⟩

/-- The source with the given number. -/
def get? (sources : Sources) (file : Nat) : Option Source := sources.toList[file]?

/-- The name of a source. -/
def name (sources : Sources) (file : Nat) : String :=
  ((sources.get? file).map Source.name).getD "<unknown>"

/-- The text of a source. -/
def code (sources : Sources) (file : Nat) : String :=
  ((sources.get? file).map Source.code).getD ""

@[simp] theorem size_add (sources : Sources) (source : Source) :
    (sources.add source).size = sources.size + 1 := by
  simp [size, add]

/-- The source just added has the next number. -/
@[simp] theorem get?_add_self (sources : Sources) (source : Source) :
    (sources.add source).get? sources.size = some source := by
  simp [get?, add, size]

/-- Adding a source leaves those with lower numbers alone. -/
theorem get?_add_of_lt {sources : Sources} {file : Nat} (h : file < sources.size) (source : Source) :
    (sources.add source).get? file = sources.get? file :=
  List.getElem?_append_left h

end Sources

end HtmlTemplate
