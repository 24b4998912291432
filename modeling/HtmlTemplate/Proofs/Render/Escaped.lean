import HtmlTemplate.Proofs.Render.Composition
import HtmlTemplate.Proofs.Render.Delimiters

/-!
# Escaping loses nothing

An escaped text is safe to put between tags and into the value of an attribute: it has no delimiters, and each
ampersand in it begins an entity. And it is the text again once the entities are replaced from the left to the right
(`Entity.unescape_escape`). An ampersand of the text itself is escaped like the other characters, so an entity that the
text already contains is not taken for one that escaping has made.

What a sequence of escaped references emits is the escaped form of all their texts together, because escaping goes
character by character (`Action.emitAll_escaped`). So these texts can be read off the output, up to the first reference
that has none.

## Contents

* `Entity.all`, `Entity.unescape`, `unescapeHtml` — the entities, and how they are replaced again;
* `Entity.exists_prefix_of_escape` — the ampersands of an escaped text;
* `Entity.escape_eq_self_iff` — the texts that escaping leaves alone;
* `Stage.textAt` — the text of the value of a path;
* `escapeHtml_reversible` — the main statement.
-/

namespace HtmlTemplate

variable {σ : Type}

/-! ## Entities and back -/

namespace Entity

/-- The texts of the entities. -/
def all : List String := ["&lt;", "&gt;", "&amp;", "&quot;"]

/-- The characters with their entities replaced, from left to right. What was replaced is not looked at again. -/
def unescape : List Char → List Char
  | '&' :: 'l' :: 't' :: ';' :: cs => '<' :: unescape cs
  | '&' :: 'g' :: 't' :: ';' :: cs => '>' :: unescape cs
  | '&' :: 'a' :: 'm' :: 'p' :: ';' :: cs => '&' :: unescape cs
  | '&' :: 'q' :: 'u' :: 'o' :: 't' :: ';' :: cs => '"' :: unescape cs
  | c :: cs => c :: unescape cs
  | [] => []

/-- Only an ampersand begins an entity. -/
theorem unescape_cons {c : Char} (h : c ≠ '&') (cs : List Char) : unescape (c :: cs) = c :: unescape cs := by
  conv_lhs => unfold unescape
  split <;> simp_all

theorem isSpecial_iff {c : Char} : isSpecial c = true ↔ c = '<' ∨ c = '>' ∨ c = '&' ∨ c = '"' := by
  rw [isSpecial, List.contains_iff_mem]
  simp

/-- A character that is not special is written as itself. -/
theorem escapeChar_of_not_special {c : Char} (h : isSpecial c = false) : escapeChar c = [c] := by
  rw [escapeChar, name?_eq_none h]
  rfl

/-- A special character is written as an entity, in which the first character is the only ampersand. -/
theorem escapeChar_of_special {c : Char} (h : isSpecial c = true) :
    ∃ entity ∈ all, escapeChar c = entity.toList ∧ ∃ tail, entity.toList = '&' :: tail ∧ '&' ∉ tail ∧ tail ≠ [] := by
  rcases isSpecial_iff.mp h with rfl | rfl | rfl | rfl
  · exact ⟨"&lt;", by decide, rfl, _, rfl, by decide, by decide⟩
  · exact ⟨"&gt;", by decide, rfl, _, rfl, by decide, by decide⟩
  · exact ⟨"&amp;", by decide, rfl, _, rfl, by decide, by decide⟩
  · exact ⟨"&quot;", by decide, rfl, _, rfl, by decide, by decide⟩

theorem unescape_escapeChar (c : Char) (cs : List Char) : unescape (escapeChar c ++ cs) = c :: unescape cs := by
  cases h : isSpecial c with
  | true => rcases isSpecial_iff.mp h with rfl | rfl | rfl | rfl <;> simp [escapeChar, name?, unescape]
  | false =>
    rw [escapeChar_of_not_special h]
    exact unescape_cons (by rintro rfl; exact absurd h (by decide)) cs

/-- **Escaping is undone from the left to the right.** -/
theorem unescape_escape (cs : List Char) : unescape (escape cs) = cs := by
  induction cs with
  | nil => rfl
  | cons c cs ih => rw [escape_cons, unescape_escapeChar, ih]

/-- An ampersand in the written form of a character is the first character of an entity. -/
theorem eq_nil_of_escapeChar_eq {c : Char} {front more : List Char} (h : escapeChar c = front ++ '&' :: more) :
    front = [] ∧ ∃ entity ∈ all, entity.toList = '&' :: more := by
  cases hc : isSpecial c with
  | true =>
    obtain ⟨entity, hmem, hentity, tail, htail, hnot, -⟩ := escapeChar_of_special hc
    rw [hentity, htail] at h
    cases front with
    | nil => exact ⟨rfl, entity, hmem, htail.trans h⟩
    | cons d front =>
      obtain ⟨-, rfl⟩ := List.cons.inj h
      exact absurd (List.mem_append_right front List.mem_cons_self) hnot
  | false =>
    rw [escapeChar_of_not_special hc] at h
    have hmem : '&' ∈ [c] := h ▸ List.mem_append_right front List.mem_cons_self
    obtain rfl := List.mem_singleton.mp hmem
    exact absurd hc (by decide)

/-- **Each ampersand of an escaped text begins an entity.** -/
theorem exists_prefix_of_escape {cs front more : List Char} (h : escape cs = front ++ '&' :: more) :
    ∃ entity ∈ all, entity.toList <+: '&' :: more := by
  induction cs generalizing front with
  | nil => simp at h
  | cons c cs ih =>
    rw [escape_cons] at h
    -- The ampersand stands in what is written for the first character, or behind it.
    rcases List.append_eq_append_iff.mp h with ⟨behind, -, hbehind⟩ | ⟨inside, hinside, hmore⟩
    · exact ih hbehind
    · cases inside with
      | nil => exact @ih [] hmore.symm
      | cons d inside =>
        obtain ⟨rfl, rfl⟩ := List.cons.inj hmore
        obtain ⟨-, entity, hmem, hentity⟩ := eq_nil_of_escapeChar_eq hinside
        exact ⟨entity, hmem, hentity ▸ List.prefix_append ('&' :: inside) (escape cs)⟩

theorem escapeChar_ne_nil (c : Char) : escapeChar c ≠ [] := by
  cases hc : isSpecial c with
  | true =>
    obtain ⟨entity, -, hentity, tail, htail, -⟩ := escapeChar_of_special hc
    rw [hentity, htail]
    exact List.cons_ne_nil _ _
  | false =>
    rw [escapeChar_of_not_special hc]
    exact List.cons_ne_nil _ _

/-- Nothing is written shorter than it is. -/
theorem length_le_length_escape (cs : List Char) : cs.length ≤ (escape cs).length := by
  induction cs with
  | nil => exact Nat.le_refl 0
  | cons c cs ih =>
    have hc := List.length_pos_iff.mpr (escapeChar_ne_nil c)
    rw [escape_cons, List.length_cons, List.length_append]
    omega

/-- **Escaping leaves a text alone** only if nothing in it is special. -/
theorem escape_eq_self_iff {cs : List Char} : escape cs = cs ↔ cs.any isSpecial = false := by
  refine ⟨fun h => ?_, escape_eq_self⟩
  induction cs with
  | nil => rfl
  | cons c cs ih =>
    rw [escape_cons] at h
    cases hc : isSpecial c with
    | true =>
      -- An entity is longer than the character, and the rest does not get shorter.
      obtain ⟨entity, -, hentity, tail, htail, -, hne⟩ := escapeChar_of_special hc
      have hlength := congrArg List.length h
      rw [hentity, htail, List.length_append, List.length_cons, List.length_cons] at hlength
      have hrest := length_le_length_escape cs
      have htailPos := List.length_pos_iff.mpr hne
      omega
    | false =>
      rw [escapeChar_of_not_special hc] at h
      rw [List.any_cons, hc, ih (List.cons.inj h).2, Bool.or_self]

end Entity

/-- A text with its entities replaced by the characters that they stand for. -/
def unescapeHtml (text : String) : String := String.ofList (Entity.unescape text.toList)

theorem unescapeHtml_escapeHtml (text : String) : unescapeHtml (escapeHtml text) = text := by
  rw [unescapeHtml, toList_escapeHtml, Entity.unescape_escape, String.ofList_toList]

theorem escapeHtml_append (text more : String) : escapeHtml (text ++ more) = escapeHtml text ++ escapeHtml more := by
  apply String.toList_injective
  rw [toList_escapeHtml, String.toList_append, String.toList_append, toList_escapeHtml, toList_escapeHtml,
    Entity.escape_append]

/-! ## Sequences of escaped references -/

/-- The text of the value of a path, or the reason why it has none. -/
def Stage.textAt (stage : Stage σ) (environment : Environment) (place : Location) (path : Path) :
    Except RenderError String :=
  match environment.resolve stage.resolver path with
  | .error segment => .error (.paramNotFound place segment path)
  | .ok value =>
    match value.text with
    | none => .error (.notRenderable place path value.kind)
    | some text => .ok text

theorem Stage.evaluate_escaped (stage : Stage σ) (environment : Environment) (place : Location) (path : Path) :
    stage.evaluate environment place ⟨path, true⟩ = (stage.textAt environment place path).map escapeHtml := by
  unfold evaluate textAt
  cases environment.resolve stage.resolver path with
  | error segment => rfl
  | ok value =>
    dsimp only
    cases value.text with
    | none => rfl
    | some text => rfl

/-- Texts that are escaped one by one are escaped together. -/
theorem upToFailure_escapeHtml {ε : Type} (parts : List (Except ε String)) :
    upToFailure (parts.map fun part => part.map escapeHtml) =
      (escapeHtml (upToFailure parts).1, (upToFailure parts).2) := by
  induction parts with
  | nil => rfl
  | cons part parts ih =>
    cases part with
    | error error => rfl
    | ok text =>
      rw [List.map_cons]
      show upToFailure (.ok (escapeHtml text) :: _) = _
      rw [upToFailure, ih, upToFailure, escapeHtml_append]

/-- Escaped references write the escaped form of their texts. -/
theorem Node.renderAll_escaped (stage : Stage σ) (invoke : Node → Environment → Action σ Unit)
    (environment : Environment) (refs : List (Location × Path)) :
    renderAll stage invoke (refs.map fun ref => .reference ref.1 .escaped ref.2) environment =
      .emitAll ((refs.map fun ref => stage.textAt environment ref.1 ref.2).map fun part => part.map escapeHtml) := by
  apply renderAll_of_writesPiece
  rw [List.map_map, List.forall₂_map_left_iff, List.forall₂_map_right_iff, List.forall₂_same]
  intro ref _
  show WritesPiece stage invoke environment _ ((stage.textAt environment ref.1 ref.2).map escapeHtml)
  rw [← Stage.evaluate_escaped]
  exact writesPiece_ofReference ref.1 ⟨ref.2, true⟩

theorem upToFailure_ok {ε : Type} (texts : List String) :
    upToFailure (texts.map (.ok : String → Except ε String)) = (String.join texts, none) := by
  induction texts with
  | nil => rfl
  | cons text texts ih => rw [List.map_cons, upToFailure, ih, String.join_cons]

/-! ## The main statement -/

/-- **Escaping is safe and can be undone.** An escaped text has no delimiters, each ampersand in it begins an entity,
    and it is the text again when the entities are replaced from left to right, so no two texts are escaped alike. Parts
    of a text are escaped by themselves. Clean texts, which are handed back, are the very ones that going through the
    characters leaves alone. A sequence of escaped references emits what is the texts of their values again, one behind
    the other, up to the first that has none. -/
theorem escapeHtml_reversible :
    (∀ text : String,
      (∀ c ∈ (escapeHtml text).toList, c ≠ '<' ∧ c ≠ '>' ∧ c ≠ '"') ∧
      (∀ front more, (escapeHtml text).toList = front ++ '&' :: more →
        ∃ entity ∈ Entity.all, entity.toList <+: '&' :: more) ∧
      unescapeHtml (escapeHtml text) = text) ∧
    Function.Injective escapeHtml ∧
    (∀ text more : String, escapeHtml (text ++ more) = escapeHtml text ++ escapeHtml more) ∧
    (∀ text : String, escapeHtml text = String.ofList (Entity.escape text.toList) ∧
      (text.toList.any Entity.isSpecial = false ↔ String.ofList (Entity.escape text.toList) = text)) ∧
    ∀ {σ : Type} (stage : Stage σ) (depth : Nat) (place : Location) (refs : List (Location × Path))
      (environment : Environment) (output : Output σ),
      let texts := refs.map fun ref => stage.textAt environment ref.1 ref.2
      ∃ emitted,
        stage.renderTree depth (.body place (refs.map fun ref => .reference ref.1 .escaped ref.2)) environment output =
          ((upToFailure texts).2.elim (.ok ()) fun error => .error (.error error),
            { output with written := output.written ++ emitted }) ∧
        unescapeHtml emitted = (upToFailure texts).1 ∧
        ∀ values, texts = values.map .ok → unescapeHtml emitted = String.join values := by
  refine ⟨fun text => ⟨?_, ?_, unescapeHtml_escapeHtml text⟩, ?_, escapeHtml_append, fun text => ⟨?_, ?_⟩, ?_⟩
  · intro c hc
    have hdelimiter := List.filter_eq_nil_iff.mp (delimiters_escapeHtml text) c hc
    simpa [isDelimiter, and_assoc] using hdelimiter
  · intro front more h
    rw [toList_escapeHtml] at h
    exact Entity.exists_prefix_of_escape h
  · intro text text' h
    rw [← unescapeHtml_escapeHtml text, h, unescapeHtml_escapeHtml]
  · exact escapeHtml_eq_ofList text
  · rw [← Entity.escape_eq_self_iff, ← String.toList_inj, String.toList_ofList]
  · intro σ stage depth place refs environment output texts
    obtain ⟨invoke, hinvoke⟩ := stage.exists_invoke depth
    refine ⟨escapeHtml (upToFailure texts).1, ?_, unescapeHtml_escapeHtml _, ?_⟩
    · rw [hinvoke, Node.render, Node.renderAll_escaped]
      unfold Action.emitAll
      rw [upToFailure_escapeHtml]
      cases (upToFailure texts).2 with
      | none => rfl
      | some error => rfl
    · intro values hvalues
      rw [unescapeHtml_escapeHtml, hvalues, upToFailure_ok]

/-- A text with an entity in it is escaped to one in which the same entity stands for something else, and is read back
    with the entity in it. -/
theorem escapeHtml_reversible_entity :
    escapeHtml "a&lt;<" = "a&amp;lt;&lt;" ∧
      (∃ entity ∈ Entity.all, entity.toList <+: ['&', 'a', 'm', 'p', ';', 'l', 't', ';', '&', 'l', 't', ';']) ∧
      unescapeHtml "a&amp;lt;&lt;" = "a&lt;<" := by
  have hescaped : escapeHtml "a&lt;<" = "a&amp;lt;&lt;" := by decide
  obtain ⟨-, hampersand, hback⟩ := escapeHtml_reversible.1 "a&lt;<"
  rw [hescaped] at hampersand hback
  exact ⟨hescaped, hampersand ['a'] _ rfl, hback⟩

end HtmlTemplate
