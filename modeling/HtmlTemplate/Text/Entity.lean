/-!
# HTML entities

Escaping replaces the four characters that HTML gives a meaning to by their named entities. Every other
character, the single quote among them, stays as it is, and so does a text that has none of the four.

## Contents

* `Entity.name?` — the entity of a character;
* `Entity.escape` — the escaped form of some characters, one by one;
* `Entity.isSpecial`, `escapeHtml` — the escaped form of a text, which is the text itself if nothing in it is special.
-/

namespace HtmlTemplate

namespace Entity

/-- The entity that stands for a character, if it needs one. -/
def name? : Char → Option (List Char)
  | '<' => some ['&', 'l', 't', ';']
  | '>' => some ['&', 'g', 't', ';']
  | '&' => some ['&', 'a', 'm', 'p', ';']
  | '"' => some ['&', 'q', 'u', 'o', 't', ';']
  | _ => none

/-- How a character is written in HTML text. -/
def escapeChar (c : Char) : List Char := (name? c).getD [c]

/-- How some characters are written in HTML text. -/
def escape (cs : List Char) : List Char := cs.flatMap escapeChar

@[simp] theorem escape_nil : escape [] = [] := rfl

@[simp] theorem escape_cons (c : Char) (cs : List Char) : escape (c :: cs) = escapeChar c ++ escape cs :=
  rfl

theorem escape_append (cs ds : List Char) : escape (cs ++ ds) = escape cs ++ escape ds :=
  List.flatMap_append

/-- Whether a character makes a text one that has to be escaped. -/
def isSpecial (c : Char) : Bool := ['<', '>', '&', '"'].contains c

/-- What is not special has no entity. -/
theorem name?_eq_none {c : Char} (h : isSpecial c = false) : name? c = none := by
  unfold name?
  split
  case h_5 => rfl
  all_goals exact absurd h (by decide)

/-- Where nothing is special there is nothing to replace. -/
theorem escape_eq_self {cs : List Char} (h : cs.any isSpecial = false) : escape cs = cs := by
  induction cs with
  | nil => rfl
  | cons c cs ih =>
    rw [List.any_cons, Bool.or_eq_false_iff] at h
    rw [escape_cons, ih h.2, escapeChar, name?_eq_none h.1]
    rfl

end Entity

/-- A text with its HTML delimiters replaced by entities. A text without any is handed back as it is. -/
def escapeHtml (text : String) : String :=
  if text.toList.any Entity.isSpecial then String.ofList (Entity.escape text.toList) else text

/-- The way out for clean texts gives what going through them would. -/
theorem escapeHtml_eq_ofList (text : String) : escapeHtml text = String.ofList (Entity.escape text.toList) := by
  unfold escapeHtml
  split
  · rfl
  · rename_i hclean
    rw [Entity.escape_eq_self (Bool.not_eq_true _ ▸ hclean), String.ofList_toList]

theorem toList_escapeHtml (text : String) : (escapeHtml text).toList = Entity.escape text.toList := by
  rw [escapeHtml_eq_ofList, String.toList_ofList]

end HtmlTemplate
