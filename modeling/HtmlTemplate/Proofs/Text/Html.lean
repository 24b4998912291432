import HtmlTemplate.Proofs.Render.Delimiters

/-!
# Balanced HTML

The texts whose tags are balanced, as a grammar, with `*` for repetition:

* Html = (Text | `<` Name Attributes `>` Html `</` Name `>`)*, the names of both tags being the same
* Attributes = (` ` Name `="` Text `"`)*

A name is an identifier of the template language, and a text has none of the characters `<`, `>` and `"`. So a text
ends where a tag begins, the value of an attribute ends at the next quotation mark, and nothing that stands for a text
can be read as a tag.

## Contents

* `IsIdentifier`, `IsPlain` — names and texts;
* `IsAttributes`, `IsHtml` — the grammar;
* `IsHtml.append` — balanced texts one after the other.
-/

namespace HtmlTemplate

/-- An identifier of the template language. -/
def IsIdentifier (name : String) : Prop :=
  ∃ c cs, name.toList = c :: cs ∧ Lexeme.isNameStart c = true ∧ cs.all Lexeme.isNamePart = true

/-- A text without delimiters. -/
def IsPlain (text : String) : Prop := delimiters text = []

instance (text : String) : Decidable (IsPlain text) := inferInstanceAs (Decidable (delimiters text = []))

/-- Some attributes as they stand in an opening tag. -/
inductive IsAttributes : String → Prop where
  | nil : IsAttributes ""
  | cons {name value more : String} (hname : IsIdentifier name) (hvalue : IsPlain value)
      (hmore : IsAttributes more) : IsAttributes (" " ++ name ++ "=\"" ++ value ++ "\"" ++ more)

/-- Texts and elements in any order, each element with a text of this kind between its tags. -/
inductive IsHtml : String → Prop where
  | nil : IsHtml ""
  | text {text more : String} (htext : IsPlain text) (hmore : IsHtml more) : IsHtml (text ++ more)
  | element {name attributes inner more : String} (hname : IsIdentifier name) (hattributes : IsAttributes attributes)
      (hinner : IsHtml inner) (hmore : IsHtml more) :
      IsHtml ("<" ++ name ++ attributes ++ ">" ++ inner ++ "</" ++ name ++ ">" ++ more)

/-! ## Names and texts -/

theorem isIdentifier_ofList {c : Char} {cs : List Char} (h : Lexeme.isNameStart c = true) :
    IsIdentifier (String.ofList (c :: cs.takeWhile Lexeme.isNamePart)) :=
  ⟨c, _, String.toList_ofList, h, List.all_takeWhile⟩

theorem isIdentifier_id : IsIdentifier "id" := ⟨'i', ['d'], rfl, rfl, rfl⟩

theorem isIdentifier_class : IsIdentifier "class" := ⟨'c', ['l', 'a', 's', 's'], rfl, rfl, rfl⟩

theorem IsPlain.append {text more : String} (h : IsPlain text) (hmore : IsPlain more) : IsPlain (text ++ more) := by
  unfold IsPlain at *
  rw [delimiters_append, h, hmore, List.nil_append]

/-- No character of an identifier is a delimiter. -/
theorem IsIdentifier.isPlain {name : String} (h : IsIdentifier name) : IsPlain name := by
  obtain ⟨c, cs, hname, hstart, hparts⟩ := h
  have hpart : ∀ c, Lexeme.isNamePart c = true → isDelimiter c = false := by
    intro c hc
    by_contra hdelimiter
    simp only [Bool.not_eq_false, isDelimiter, Bool.or_eq_true, decide_eq_true_eq] at hdelimiter
    rcases hdelimiter with (rfl | rfl) | rfl <;> exact absurd hc (by decide)
  have hfirst : Lexeme.isNamePart c = true := by
    unfold Lexeme.isNamePart
    unfold Lexeme.isNameStart at hstart
    rw [Char.isAlphanum]
    grind
  rw [IsPlain, delimiters, hname, List.filter_eq_nil_iff]
  intro other hother
  rw [Bool.not_eq_true]
  rcases List.mem_cons.mp hother with rfl | hmem
  · exact hpart other hfirst
  · exact hpart other (List.all_eq_true.mp hparts other hmem)

/-! ## One after the other -/

theorem IsAttributes.append {text more : String} (h : IsAttributes text) (hmore : IsAttributes more) :
    IsAttributes (text ++ more) := by
  induction h with
  | nil => rwa [String.empty_append]
  | cons hname hvalue _ ih =>
    rw [String.append_assoc]
    exact .cons hname hvalue ih

theorem IsHtml.append {text more : String} (h : IsHtml text) (hmore : IsHtml more) : IsHtml (text ++ more) := by
  induction h with
  | nil => rwa [String.empty_append]
  | text htext _ ih =>
    rw [String.append_assoc]
    exact .text htext ih
  | element hname hattributes hinner _ _ ih =>
    rw [String.append_assoc]
    exact .element hname hattributes hinner ih

theorem IsPlain.isHtml {text : String} (h : IsPlain text) : IsHtml text := by
  rw [← String.append_empty (s := text)]
  exact .text h .nil

/-- One attribute. -/
theorem IsPlain.isAttributes {name value : String} (h : IsPlain value) (hname : IsIdentifier name) :
    IsAttributes (" " ++ name ++ "=\"" ++ value ++ "\"") := by
  rw [← String.append_empty (s := " " ++ name ++ "=\"" ++ value ++ "\"")]
  exact .cons hname h .nil

/-- One element. -/
theorem IsHtml.enclose {name attributes inner : String} (h : IsHtml inner) (hname : IsIdentifier name)
    (hattributes : IsAttributes attributes) :
    IsHtml ("<" ++ name ++ attributes ++ ">" ++ inner ++ "</" ++ name ++ ">") := by
  rw [← String.append_empty (s := _ ++ ">")]
  exact .element hname hattributes h .nil

end HtmlTemplate
