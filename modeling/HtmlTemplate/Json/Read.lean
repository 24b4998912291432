import HtmlTemplate.Json.Basic
import HtmlTemplate.Json.Numeral

/-!
# Reading JSON

A strict reader: no comments, no trailing commas, no lone surrogates and no control characters in strings,
and no more than 127 arrays and objects inside one another.

The readers that call each other take a bound on the number of characters that are left; when it is zero
there is none, so the bound is never missed.

## Contents

* `Json.string?`, `Json.value?`, `Json.items?`, `Json.members?` — the readers of the parts;
* `Json.ofString?` — the document that a text holds.
-/

namespace HtmlTemplate

namespace Json

/-- The characters that may stand between the parts of a document. -/
def isSpace (c : Char) : Bool := c = ' ' || c = '\n' || c = '\t' || c = '\r'

/-- Skips space. -/
def skipSpace (cs : List Char) : List Char := cs.dropWhile isSpace

/-! ## Strings -/

/-- The value of a hexadecimal digit. -/
def hexDigit? (c : Char) : Option Nat :=
  if c.isDigit then some (c.toNat - '0'.toNat)
  else if 'a' ≤ c ∧ c ≤ 'f' then some (c.toNat - 'a'.toNat + 10)
  else if 'A' ≤ c ∧ c ≤ 'F' then some (c.toNat - 'A'.toNat + 10)
  else none

/-- The value of four hexadecimal digits. -/
def codeUnit? (a b c d : Char) : Option Nat := do
  return (((← hexDigit? a) * 16 + (← hexDigit? b)) * 16 + (← hexDigit? c)) * 16 + (← hexDigit? d)

/-- The character that a code unit stands for on its own. -/
def single? (unit : Nat) : Option Char :=
  if 0xD800 ≤ unit ∧ unit < 0xE000 then none else some (Char.ofNat unit)

/-- The character that two code units stand for together. -/
def pair? (high low : Nat) : Option Char :=
  if (0xD800 ≤ high ∧ high < 0xDC00) ∧ (0xDC00 ≤ low ∧ low < 0xE000) then
    some (Char.ofNat (0x10000 + (high - 0xD800) * 0x400 + (low - 0xDC00)))
  else
    none

/-- The character that a backslash and a letter stand for. -/
def escaped? : Char → Option Char
  | '"' => some '"'
  | '\\' => some '\\'
  | '/' => some '/'
  | 'b' => some '\x08'
  | 'f' => some '\x0c'
  | 'n' => some '\n'
  | 'r' => some '\r'
  | 't' => some '\t'
  | _ => none

/-- Reads a string behind its opening quote. -/
def stringBody? : List Char → Option (List Char × List Char)
  | [] => none
  | '"' :: cs => some ([], cs)
  | '\\' :: 'u' :: a :: b :: c :: d :: '\\' :: 'u' :: e :: f :: g :: h :: cs =>
    match codeUnit? a b c d with
    | none => none
    | some unit =>
      match single? unit with
      | some char => do
        let (text, rest) ← stringBody? ('\\' :: 'u' :: e :: f :: g :: h :: cs)
        return (char :: text, rest)
      | none => do
        -- A code unit that is no character needs a partner.
        let char ← pair? unit (← codeUnit? e f g h)
        let (text, rest) ← stringBody? cs
        return (char :: text, rest)
  | '\\' :: 'u' :: a :: b :: c :: d :: cs => do
    let char ← single? (← codeUnit? a b c d)
    let (text, rest) ← stringBody? cs
    return (char :: text, rest)
  | '\\' :: c :: cs => do
    let char ← escaped? c
    let (text, rest) ← stringBody? cs
    return (char :: text, rest)
  | c :: cs =>
    if c = '\\' ∨ c.toNat < 0x20 then
      none
    else do
      let (text, rest) ← stringBody? cs
      return (c :: text, rest)

/-- Reads a string. -/
def string? : List Char → Option (String × List Char)
  | '"' :: cs => (stringBody? cs).map fun (text, rest) => (String.ofList text, rest)
  | _ => none

/-! ## Documents -/

/-- How many arrays and objects may contain one another. -/
def maxDepth : Nat := 127

mutual

/-- Reads a value, which may have `depth` levels of arrays and objects. -/
def value? : (bound depth : Nat) → List Char → Option (Json × List Char)
  | 0, _, _ => none
  | bound + 1, depth, cs =>
    match cs with
    | 'n' :: 'u' :: 'l' :: 'l' :: rest => some (.null, rest)
    | 't' :: 'r' :: 'u' :: 'e' :: rest => some (.bool true, rest)
    | 'f' :: 'a' :: 'l' :: 's' :: 'e' :: rest => some (.bool false, rest)
    | '"' :: _ => (string? cs).map fun (text, rest) => (.string text, rest)
    | '[' :: cs =>
      if depth = 0 then
        none
      else
        match skipSpace cs with
        | ']' :: rest => some (.array [], rest)
        | cs => (items? bound (depth - 1) cs).map fun (items, rest) => (.array items, rest)
    | '{' :: cs =>
      if depth = 0 then
        none
      else
        match skipSpace cs with
        | '}' :: rest => some (.object [], rest)
        | cs => (members? bound (depth - 1) cs).map fun (members, rest) => (.object members, rest)
    | cs => do
      let (numeral, rest) ← Numeral.read? cs
      return (.number (← numeral.value?), rest)

/-- Reads one item or more and the closing bracket. -/
def items? : (bound depth : Nat) → List Char → Option (List Json × List Char)
  | 0, _, _ => none
  | bound + 1, depth, cs => do
    let (item, cs) ← value? bound depth cs
    match skipSpace cs with
    | ']' :: rest => some ([item], rest)
    | ',' :: cs => do
      let (items, rest) ← items? bound depth (skipSpace cs)
      return (item :: items, rest)
    | _ => none

/-- Reads one member or more and the closing brace. -/
def members? : (bound depth : Nat) → List Char → Option (List (String × Json) × List Char)
  | 0, _, _ => none
  | bound + 1, depth, cs => do
    let (key, cs) ← string? cs
    match skipSpace cs with
    | ':' :: cs => do
      let (member, cs) ← value? bound depth (skipSpace cs)
      match skipSpace cs with
      | '}' :: rest => some ([(key, member)], rest)
      | ',' :: cs => do
        let (members, rest) ← members? bound depth (skipSpace cs)
        return ((key, member) :: members, rest)
      | _ => none
    | _ => none

end

/-- The document that a text holds, space around it apart. -/
def ofString? (text : String) : Option Json :=
  let cs := skipSpace text.toList
  match value? (2 * cs.length + 1) maxDepth cs with
  | some (json, rest) => if skipSpace rest = [] then some json else none
  | none => none

end Json

end HtmlTemplate
