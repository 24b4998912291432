import HtmlTemplate.Render.Registry

/-!
# Ready-made host functions

Functions that can be registered as external templates. All but the counter leave the state of the host
alone.

## Contents

* `Native.constant`, `Native.text`, `Native.upperCase`, `Native.kind`, `Native.join`, `Native.path` — they
  answer from their arguments;
* `Counters`, `Native.count` — a function that counts its calls.
-/

namespace HtmlTemplate

namespace Native

variable {σ : Type}

/-- A function that needs no state. -/
def ofArguments (function : Arguments → String) : Native σ := fun args host => (function args, host)

/-- Always the same text. -/
def constant (text : String) : Native σ := ofArguments fun _ => text

/-- The text of an argument in parentheses, or a word for its absence. -/
def text (name : String) : Native σ := ofArguments fun args =>
  match args.getText name with
  | some content => "some(" ++ content ++ ")"
  | none => "none"

/-- The text of an argument in upper-case ASCII letters, empty if there is none. -/
def upperCase (name : String) : Native σ := ofArguments fun args => ((args.getText name).getD "").toUpper

/-- The name of the kind of an argument. -/
def kind (name : String) : Native σ := ofArguments fun args =>
  match args.get name with
  | some value => value.kind.name
  | none => "missing"

/-- The texts of some arguments with bars between them, a question mark for each that has none. -/
def join (names : List String) : Native σ := ofArguments fun args =>
  "|".intercalate (names.map fun name => (args.getText name).getD "?")

/-- Kind and text of the value of a path. -/
def path (path : Path) : Native σ := ofArguments fun args =>
  match args.getPath path with
  | some value => value.kind.name ++ ":" ++ value.text.getD "?"
  | none => "missing"

end Native

/-- How often each of some functions was called, by their numbers. -/
structure Counters where
  toList : List Nat
deriving DecidableEq, Inhabited

namespace Counters

/-- No function yet. -/
def empty : Counters := ⟨[]⟩

/-- The number of the next function. -/
def size (counters : Counters) : Nat := counters.toList.length

/-- Adds a function that has not been called. -/
def add (counters : Counters) : Counters := ⟨counters.toList ++ [0]⟩

/-- How often a function was called. -/
def get (counters : Counters) (index : Nat) : Nat := counters.toList[index]?.getD 0

/-- Counts a call. -/
def bump (counters : Counters) (index : Nat) : Counters := ⟨counters.toList.modify index (· + 1)⟩

end Counters

/-- Answers how often it has been called, this call included. -/
def Native.count (index : Nat) : Native Counters := fun _ counters =>
  let counters := counters.bump index
  ("#" ++ (counters.get index).repr, counters)

end HtmlTemplate
