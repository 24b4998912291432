import HtmlTemplate.Token.Basic
import HtmlTemplate.Value.Basic

/-!
# Environments

The parameters that a template sees: those of the render, and over them one layer of arguments for each call
that is being made. A name that no layer has is looked up in the parameters of the render.

## Contents

* `Resolver`, `Resolver.walk` — how one segment of a path is looked up, and a whole path;
* `Environment`, `Environment.lookup`, `Environment.resolve` — names and paths in an environment;
* `Arguments` — what a host function is called with.
-/

namespace HtmlTemplate

/-- How the value under a key is found in a container; nothing is found if the key is missing. -/
abbrev Resolver : Type := Value → String → Option Value

namespace Resolver

/-- Finds map entries and fields of objects. -/
def default : Resolver := fun container key => container.field? key

/-- Follows the segments of a path from a value on. The first segment that is missing is the error. -/
def walk (resolver : Resolver) : Value → Path → Except String Value
  | value, [] => .ok value
  | value, segment :: path =>
    match resolver value segment with
    | none => .error segment
    | some inner => resolver.walk inner path

@[simp] theorem walk_nil (resolver : Resolver) (value : Value) : resolver.walk value [] = .ok value := rfl

/-- A path is followed part by part. -/
theorem walk_append (resolver : Resolver) (value : Value) (path more : Path) :
    resolver.walk value (path ++ more) =
      (resolver.walk value path).bind fun inner => resolver.walk inner more := by
  induction path generalizing value with
  | nil => rfl
  | cons segment path ih =>
    simp only [List.cons_append, walk]
    cases resolver value segment with
    | none => rfl
    | some inner => exact ih inner

end Resolver

/-- The parameters that a template sees. -/
inductive Environment where
  /-- The parameters of the render. -/
  | params (value : Value)
  /-- The arguments of a call over what the caller sees. -/
  | layer (args : List (String × Value)) (caller : Environment)
deriving Inhabited

namespace Environment

/-- The value of a name: the argument of the innermost call that has one of this name, else whatever the
    resolver finds in the parameters of the render. -/
def lookup (resolver : Resolver) (name : String) : Environment → Option Value
  | params value => resolver value name
  | layer args caller =>
    match args.lookup name with
    | some value => some value
    | none => caller.lookup resolver name

/-- The value of a path. Its first segment is a name, and the resolver follows the others; the first segment
    that is missing is the error. The empty path has no value. -/
def resolve (resolver : Resolver) (environment : Environment) : Path → Except String Value
  | [] => .error ""
  | name :: path =>
    match environment.lookup resolver name with
    | none => .error name
    | some value => resolver.walk value path

@[simp] theorem lookup_params (resolver : Resolver) (name : String) (value : Value) :
    (params value).lookup resolver name = resolver value name := rfl

theorem lookup_layer (resolver : Resolver) (name : String) (args : List (String × Value))
    (caller : Environment) :
    (layer args caller).lookup resolver name =
      (args.lookup name).or (caller.lookup resolver name) := by
  rw [lookup]
  cases args.lookup name <;> rfl

end Environment

/-- What a host function is called with: everything that its caller sees, under the arguments of the call,
    and the way to look into it. -/
structure Arguments where
  environment : Environment
  resolver : Resolver

namespace Arguments

/-- The value of a name. -/
def get (args : Arguments) (name : String) : Option Value :=
  args.environment.lookup args.resolver name

/-- The value of a path. -/
def getPath (args : Arguments) (path : Path) : Option Value :=
  (args.environment.resolve args.resolver path).toOption

/-- The text of the value of a name, if it has one. -/
def getText (args : Arguments) (name : String) : Option String := (args.get name).bind Value.text

end Arguments

end HtmlTemplate
