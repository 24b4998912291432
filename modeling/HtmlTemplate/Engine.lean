import HtmlTemplate.Definition.OfTokens
import HtmlTemplate.Diagnostic
import HtmlTemplate.Render.Evaluate
import HtmlTemplate.Tree.Flatten

/-!
# Engines

An engine compiles sources and renders the templates that they define. Engines are values: a copy is
independent of what it was copied from. Only the state of the host is shared, because it is handed from call
to call and does not belong to an engine.

## Contents

* `Engine` — templates, sources, resolver, and whether trees are flattened;
* `Engine.define`, `Engine.register`, `Engine.compile` — putting templates in;
* `Engine.renderInto`, `Engine.render` — getting text out.
-/

namespace HtmlTemplate

/-- The version of the engine. -/
def version : String := "0.1.0"

/-- A template engine. -/
structure Engine (σ : Type) where
  registry : Registry σ
  sources : Sources
  /-- How segments of a path are looked up. -/
  resolver : Resolver
  /-- Whether trees are flattened when they are defined. -/
  optimize : Bool

namespace Engine

variable {σ : Type}

/-- An engine without templates. -/
def new (optimize : Bool) : Engine σ := ⟨.empty, .empty, .default, optimize⟩

/-- Chooses whether the trees defined from now on are flattened. -/
def setOptimize (engine : Engine σ) (optimize : Bool) : Engine σ := { engine with optimize }

/-- Replaces the way in which segments of a path are looked up. -/
def setResolver (engine : Engine σ) (resolver : Resolver) : Engine σ := { engine with resolver }

/-- The names of all templates that can be rendered. -/
def names (engine : Engine σ) : List String := engine.registry.names

/-! ## Putting templates in -/

/-- Makes a tree the template `name`. -/
def define (engine : Engine σ) (name : String) (tree : Node) : Engine σ :=
  { engine with registry := engine.registry.define name (if engine.optimize then tree.flatten else tree) }

/-- Makes a function of the host the external template `name`. -/
def register (engine : Engine σ) (name : String) (function : Native σ) : Engine σ :=
  { engine with registry := engine.registry.register name function }

/-- Defines the templates of a token list one by one, so that each can make internal calls of those before
    it. At an error the ones before stay. The bound is on the number of tokens left. -/
def defineAll (file : Nat) :
    (bound : Nat) → Engine σ → List Token → Engine σ × Option SyntaxError
  | 0, engine, _ => (engine, none)
  | bound + 1, engine, tokens =>
    match Definition.nextDefinition ⟨file, engine.registry.isInternal⟩ tokens with
    | .ok none _ => (engine, none)
    | .ok (some definition) rest =>
      defineAll file bound (engine.define definition.name definition.body) rest
    | .error error _ => (engine, some error)

/-- The error to report for a source: what is wrong with its tokens, or else with its text. That the tokens
    end too early is no error of its own where the text could not be read to the end. -/
def firstError : Option SyntaxError → Option ScanError → Option Cause
  | some (.endOfTokens _), some error => some (.scan error)
  | some error, _ => some (.parse error)
  | none, some error => some (.scan error)
  | none, none => none

/-- Compiles a source and defines its templates. At an error the ones before it stay, and the source is
    kept in any case. -/
def compile (engine : Engine σ) (code fileName : String) : Engine σ × Except Diagnostic Unit :=
  let file := engine.sources.size
  let engine := { engine with sources := engine.sources.add ⟨fileName, code⟩ }
  let found := scan code file
  let (engine, error) := defineAll file found.tokens.length engine found.tokens
  match firstError error found.error with
  | none => (engine, .ok ())
  | some cause => (engine, .error (.ofCause cause engine.sources))

/-! ## Getting text out -/

/-- What a render works with. -/
def stage (engine : Engine σ) : Stage σ := ⟨engine.registry, engine.resolver⟩

/-- The reason for a halt as the user is told it. -/
def explain (engine : Engine σ) : Halt RenderError → Halt Diagnostic
  | .error error => .error (.ofCause (.render error) engine.sources)
  | .tooDeep => .tooDeep

/-- Renders a template behind what has been written already. If that fails, the text written up to then
    stays. No more than `depth` calls may be nested in one another. -/
def renderInto (engine : Engine σ) (depth : Nat) (name : String) (params : Value) (output : Output σ) :
    Except (Halt Diagnostic) Unit × Output σ :=
  let (result, output) := engine.stage.render depth name params output
  (result.mapError engine.explain, output)

/-- Renders a template to a text of its own. -/
def render (engine : Engine σ) (depth : Nat) (name : String) (params : Value) (host : σ) :
    Except (Halt Diagnostic) String × σ :=
  let (result, output) := engine.renderInto depth name params ⟨"", host⟩
  (result.map fun () => output.written, output.host)

end Engine

end HtmlTemplate
