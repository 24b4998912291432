import HtmlTemplate.Text.Unprintable
import HtmlTemplate.Text.GraphemeExtend

/-!
# Quoted text

A text between double quotes in which every character can be seen: quotes and backslashes are escaped,
and so are control characters, unprintable characters, letters that are drawn as nothing, and marks that
would be drawn onto the character in front of them.

## Contents

* `Quoted.isSeen` — whether a character can be seen on its own;
* `Quoted.escape`, `Quoted.encode` — the escape of one character and of a text;
* `quoted` — a text between its quotes.
-/

namespace HtmlTemplate

namespace Quoted

/-- The Hangul fillers: letters that hold an empty place in a syllable, without ink. -/
def isHangulFiller (c : Char) : Bool :=
  c == '\u115f' || c == '\u1160' || c == '\u3164' || c == '\uffa0'

/-- The halfwidth voiced and semi-voiced sound marks: they extend the kana in front of them, yet they are
letters with a place of their own in the line. -/
def isHalfwidthSoundMark (c : Char) : Bool := c == '\uff9e' || c == '\uff9f'

/-- Whether `c` can be seen on its own: it has ink, and is not drawn onto the character in front of it. -/
def isSeen (c : Char) : Bool :=
  !isUnprintable c && !isHangulFiller c && (!extendsGrapheme c || isHalfwidthSoundMark c)

/-- The escape of a character by its code point, in lower-case hexadecimal digits without padding. -/
def codePoint (c : Char) : List Char := ['\\', 'u', '{'] ++ Nat.toDigits 16 c.toNat ++ ['}']

/-- How one character is written between quotes. The single quote needs no escape. -/
def escape (c : Char) : List Char :=
  match c with
  | '\x00' => ['\\', '0']
  | '\t' => ['\\', 't']
  | '\r' => ['\\', 'r']
  | '\n' => ['\\', 'n']
  | '"' => ['\\', '"']
  | '\\' => ['\\', '\\']
  | c => if isSeen c then [c] else codePoint c

/-- How a text is written between quotes. -/
def encode (cs : List Char) : List Char := cs.flatMap escape

@[simp] theorem encode_nil : encode [] = [] := rfl

@[simp] theorem encode_cons (c : Char) (cs : List Char) : encode (c :: cs) = escape c ++ encode cs := rfl

end Quoted

/-- A text between double quotes. -/
def quoted (text : String) : String := String.ofList ('"' :: Quoted.encode text.toList ++ ['"'])

end HtmlTemplate
