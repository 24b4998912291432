import HtmlTemplate.Number.Rounding
import HtmlTemplate.Render.Environment

/-!
# Ready-made resolvers

Ways to look up a segment of a path other than the default one.

## Contents

* `Resolver.upperCase`, `Resolver.characters`, `Resolver.fallback`, `Resolver.echo`, `Resolver.never`.
-/

namespace HtmlTemplate

/-- A number written in decimal digits, with or without a plus sign. -/
def decimalIndex? (text : String) : Option Nat :=
  let digits := match text.toList with
    | '+' :: digits => digits
    | digits => digits
  if digits ≠ [] ∧ digits.all Char.isDigit then
    some (digits.foldl (fun n c => 10 * n + (c.toNat - '0'.toNat)) 0)
  else
    none

namespace Resolver

/-- Finds map entries under the key in lower-case letters, and turns texts into upper case. Both concern
    ASCII letters only. -/
def upperCase : Resolver := fun container key =>
  (container.get? key.toLower).map fun
    | .string text => .string text.toUpper
    | value => value

/-- Finds what the default resolver does, and in a text also its length under `len` and its characters
    under their indices. -/
def characters : Resolver := fun container key =>
  match Resolver.default container key, container with
  | some value, _ => some value
  | none, .string text =>
    if key = "len" then
      some (.number (.ofInt text.length))
    else
      (decimalIndex? key).bind fun index =>
        text.toList[index]?.map fun c => .string (String.singleton c)
  | none, _ => none

/-- Finds what the default resolver does, and nothing at all under any other key. -/
def fallback : Resolver := fun container key =>
  some ((Resolver.default container key).getD .none)

/-- Finds every key, and under it the key itself. -/
def echo : Resolver := fun _ key => some (.string key)

/-- Finds no key. -/
def never : Resolver := fun _ _ => none

end Resolver

end HtmlTemplate
