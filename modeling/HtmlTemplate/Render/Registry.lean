import Std.Data.TreeMap
import HtmlTemplate.Render.Environment
import HtmlTemplate.Tree.Basic

/-!
# The templates of an engine

An engine keeps two tables. The internal one holds the tree of every template defined so far. The external
one holds what goes by a name when it is called from outside: the tree of a template, or a function of the
host. The last write of a name wins, and a definition writes to both tables.

Host functions may keep a state `σ`, which they are given and hand on.

## Contents

* `Native`, `Template`, `Registry` — host functions, entries of the external table, and both tables;
* `Registry.define`, `Registry.register` — the writes;
* `Registry.internal?`, `Registry.external?`, `Registry.names` — the views, with one equation for each
  write.
-/

namespace HtmlTemplate

/-- A function of the host. It may read and change the state of the host, but not the engine. -/
abbrev Native (σ : Type) : Type := Arguments → σ → String × σ

/-- What a name can stand for when it is called from outside. -/
inductive Template (σ : Type) where
  | native (function : Native σ)
  | compiled (tree : Node)

/-- The two tables of an engine. -/
structure Registry (σ : Type) where
  internal : Std.TreeMap String Node
  external : Std.TreeMap String (Template σ)

namespace Registry

variable {σ : Type}

/-- The tables without entries. -/
def empty : Registry σ := ⟨∅, ∅⟩

/-- Makes `tree` the template `name`. -/
def define (registry : Registry σ) (name : String) (tree : Node) : Registry σ :=
  ⟨registry.internal.insert name tree, registry.external.insert name (.compiled tree)⟩

/-- Makes `function` the external template `name`. Internal calls still find the former tree. -/
def register (registry : Registry σ) (name : String) (function : Native σ) : Registry σ :=
  { registry with external := registry.external.insert name (.native function) }

/-- The tree of an internal template. -/
def internal? (registry : Registry σ) (name : String) : Option Node := registry.internal[name]?

/-- What goes by a name outside. -/
def external? (registry : Registry σ) (name : String) : Option (Template σ) := registry.external[name]?

/-- Whether there is an internal template of this name. -/
def isInternal (registry : Registry σ) (name : String) : Bool := (registry.internal? name).isSome

/-- Whether the name can be called from outside. -/
def isDefined (registry : Registry σ) (name : String) : Bool := (registry.external? name).isSome

/-- The names that can be called from outside, in the order of their characters. -/
def names (registry : Registry σ) : List String := registry.external.keys

@[simp] theorem internal?_empty (name : String) : (empty : Registry σ).internal? name = none := by
  simp [empty, internal?]

@[simp] theorem external?_empty (name : String) : (empty : Registry σ).external? name = none := by
  simp [empty, external?]

theorem internal?_define (registry : Registry σ) (name other : String) (tree : Node) :
    (registry.define name tree).internal? other =
      if name = other then some tree else registry.internal? other := by
  simp [internal?, define, Std.TreeMap.getElem?_insert]

theorem external?_define (registry : Registry σ) (name other : String) (tree : Node) :
    (registry.define name tree).external? other =
      if name = other then some (.compiled tree) else registry.external? other := by
  simp [external?, define, Std.TreeMap.getElem?_insert]

@[simp] theorem internal?_register (registry : Registry σ) (name other : String) (function : Native σ) :
    (registry.register name function).internal? other = registry.internal? other := rfl

theorem external?_register (registry : Registry σ) (name other : String) (function : Native σ) :
    (registry.register name function).external? other =
      if name = other then some (.native function) else registry.external? other := by
  simp [external?, register, Std.TreeMap.getElem?_insert]

/-- Exactly the defined names are listed. -/
theorem mem_names {registry : Registry σ} {name : String} :
    name ∈ registry.names ↔ registry.isDefined name = true := by
  simp [names, isDefined, external?]

end Registry

end HtmlTemplate
