import HtmlTemplate.Proofs.Grammar.Basic

/-!
# When the small readers succeed

For each reader that calls no other block, exactly which tokens it accepts: a reader answers with a value
and a rest if and only if the tokens are those of a phrase that stands for the value, followed by the rest.
Readers that look ahead say what the rest must not start with.

## Contents

* `TokenReader.bind_eq_ok`, `next_eq_ok`, `expect_eq_ok`, `ident_eq_ok`, `skipComments_eq_ok` — the readers
  for single tokens;
* `Definition.selectorValue_eq_ok`, `attrValue_eq_ok`, `attr_eq_ok` — the values of tags;
* `Definition.modifiers_sound`, `modifiers_complete` — the modifiers of a tag;
* `Definition.argumentName_eq_ok` — the name of an argument.
-/

namespace HtmlTemplate

open Grammar

/-! ## Single tokens -/

namespace TokenReader

variable {α β : Type} {tokens rest : List Token}

theorem bind_eq_ok {reader : TokenReader α} {next : α → TokenReader β} {value : β} :
    (reader >>= next) tokens = .ok value rest ↔
      ∃ first middle, reader tokens = .ok first middle ∧ next first middle = .ok value rest := by
  rw [bind_apply]
  cases reader tokens with
  | ok first middle =>
    constructor
    · exact fun h => ⟨first, middle, rfl, h⟩
    · rintro ⟨_, _, hfirst, h⟩
      cases hfirst
      exact h
  | error error middle =>
    constructor
    · exact nofun
    · rintro ⟨_, _, hfirst, _⟩
      cases hfirst

theorem pure_eq_ok {value other : α} :
    (pure value : TokenReader α) tokens = .ok other rest ↔ value = other ∧ tokens = rest := by
  rw [pure_apply, Reading.ok.injEq]

theorem fail_ne_ok {error : SyntaxError} {value : α} : (fail error : TokenReader α) tokens ≠ .ok value rest :=
  nofun

theorem next_eq_ok {file : Nat} {token : Token} : next file tokens = .ok token rest ↔ tokens = token :: rest := by
  cases tokens with
  | nil => exact ⟨nofun, nofun⟩
  | cons first tokens => rw [next, Reading.ok.injEq, List.cons.injEq]

/-- Taking a token and going on. -/
theorem next_bind_cons {file : Nat} {token : Token} {next' : Token → TokenReader β} :
    (next file >>= next') (token :: tokens) = next' token tokens := rfl

theorem next_bind_eq_ok {file : Nat} {next' : Token → TokenReader β} {value : β} :
    (next file >>= next') tokens = .ok value rest ↔
      ∃ token middle, tokens = token :: middle ∧ next' token middle = .ok value rest := by
  simp only [bind_eq_ok, next_eq_ok]

/-- Looking at the next token takes nothing. -/
theorem peekKind_bind {next' : Option (TokenKind Range) → TokenReader β} :
    (peekKind >>= next') tokens = next' (tokens.head?.map Token.kind) tokens := rfl

theorem expect_eq_ok {file : Nat} {kind : TokenKind Range} {cause : SyntaxFault} {token : Token} :
    expect file kind cause tokens = .ok token rest ↔ token.kind = kind ∧ tokens = token :: rest := by
  rw [expect, next_bind_eq_ok]
  constructor
  · rintro ⟨first, middle, rfl, h⟩
    by_cases hkind : first.kind = kind
    · rw [if_pos hkind] at h
      obtain ⟨rfl, rfl⟩ := pure_eq_ok.mp h
      exact ⟨hkind, rfl⟩
    · rw [if_neg hkind] at h
      exact absurd h fail_ne_ok
  · rintro ⟨hkind, rfl⟩
    exact ⟨token, rest, rfl, by rw [if_pos hkind]; rfl⟩

/-- A token is known by its kind and its place. -/
theorem eq_token {token : Token} {kind : TokenKind Range} (h : token.kind = kind) :
    token = token.location.token kind := by
  rw [← h, Token.token_location]

theorem ident_eq_ok {file : Nat} {name : String} :
    ident file tokens = .ok name rest ↔ ∃ place : Location, tokens = place.token (.ident name) :: rest := by
  rw [ident, next_bind_eq_ok]
  constructor
  · rintro ⟨⟨kind, range, file'⟩, middle, rfl, h⟩
    cases kind with
    | ident other =>
      obtain ⟨rfl, rfl⟩ := pure_eq_ok.mp h
      exact ⟨⟨file', range⟩, rfl⟩
    | _ => exact absurd h fail_ne_ok
  · rintro ⟨place, rfl⟩
    exact ⟨_, rest, rfl, rfl⟩

/-- The next token is no comment. -/
def NoComment (tokens : List Token) : Prop := ∀ text, tokens.head?.map Token.kind ≠ some (.comment text)

theorem skipComments_of_noComment (h : NoComment tokens) : skipComments tokens = .ok () tokens := by
  cases tokens with
  | nil => rfl
  | cons token tokens =>
    rw [skipComments]
    split
    · rename_i text hkind
      exact absurd (congrArg some hkind) (h text)
    · rfl

theorem noComment_rparen (rparen : Location) (rest : List Token) : NoComment (rparen.token .rparen :: rest) := by
  rintro text hkind
  cases hkind

theorem noComment_comma (comma : Location) (rest : List Token) : NoComment (comma.token .comma :: rest) := by
  rintro text hkind
  cases hkind

/-- Comments in front of other tokens are skipped. -/
@[simp] theorem skipComments_append (comments : List Comment) (tokens : List Token) :
    skipComments (commentTokens comments ++ tokens) = skipComments tokens := by
  induction comments with
  | nil => rfl
  | cons comment comments ih => exact ih

theorem skipComments_eq_ok {skipped : Unit} :
    skipComments tokens = .ok skipped rest ↔
      ∃ comments, tokens = commentTokens comments ++ rest ∧ NoComment rest := by
  constructor
  · intro h
    induction tokens with
    | nil =>
      cases h
      exact ⟨[], rfl, nofun⟩
    | cons token tokens ih =>
      rw [skipComments] at h
      split at h
      · rename_i text hkind
        obtain ⟨comments, rfl, hrest⟩ := ih h
        exact ⟨⟨token.location, text⟩ :: comments, by rw [eq_token hkind]; rfl, hrest⟩
      · rename_i hkind
        cases h
        exact ⟨[], rfl, fun text heq => hkind text (Option.some.inj heq)⟩
  · rintro ⟨comments, rfl, hrest⟩
    rw [skipComments_append, skipComments_of_noComment hrest]

/-- There are no comments left behind skipped ones. -/
theorem skipComments_bind_noComment {comments : List Comment} {next' : Unit → TokenReader β}
    (h : NoComment tokens) : (skipComments >>= next') (commentTokens comments ++ tokens) = next' () tokens := by
  rw [bind_apply, skipComments_append, skipComments_of_noComment h]

end TokenReader

/-! ## Tags -/

namespace Definition

open TokenReader

variable {file : Nat} {tokens rest : List Token}

theorem selectorValue_eq_ok {node : Node} :
    selectorValue file tokens = .ok node rest ↔
      ∃ value : SelectorValue, tokens = value.token :: rest ∧ value.node = node := by
  rw [selectorValue, next_bind_eq_ok]
  constructor
  · rintro ⟨⟨kind, range, file'⟩, middle, rfl, h⟩
    cases kind with
    | ident name =>
      obtain ⟨rfl, rfl⟩ := pure_eq_ok.mp h
      exact ⟨.ident ⟨file', range⟩ name, rfl, rfl⟩
    | reference ref =>
      obtain ⟨rfl, rfl⟩ := pure_eq_ok.mp h
      exact ⟨.reference ⟨file', range⟩ ref, rfl, rfl⟩
    | _ => exact absurd h fail_ne_ok
  · rintro ⟨value, rfl, rfl⟩
    cases value with
    | ident place name => exact ⟨_, rest, rfl, rfl⟩
    | reference place ref => exact ⟨_, rest, rfl, rfl⟩

theorem attrValue_eq_ok {node : Node} :
    attrValue file tokens = .ok node rest ↔
      ∃ value : AttrValue, tokens = value.token :: rest ∧ value.node = node := by
  rw [attrValue, next_bind_eq_ok]
  constructor
  · rintro ⟨⟨kind, range, file'⟩, middle, rfl, h⟩
    cases kind with
    | quote text =>
      obtain ⟨rfl, rfl⟩ := pure_eq_ok.mp h
      exact ⟨.quote ⟨file', range⟩ text, rfl, rfl⟩
    | reference ref =>
      obtain ⟨rfl, rfl⟩ := pure_eq_ok.mp h
      exact ⟨.reference ⟨file', range⟩ ref, rfl, rfl⟩
    | _ => exact absurd h fail_ne_ok
  · rintro ⟨value, rfl, rfl⟩
    cases value with
    | quote place text => exact ⟨_, rest, rfl, rfl⟩
    | reference place ref => exact ⟨_, rest, rfl, rfl⟩

theorem attr_eq_ok {modifier : Modifier} :
    attr file tokens = .ok modifier rest ↔
      ∃ (namePlace : Location) (name : String) (equal : Location) (value : AttrValue) (rbracket : Location),
        tokens = namePlace.token (.ident name) :: equal.token .equal :: value.token ::
          rbracket.token .rbracket :: rest ∧
        .attr name value.node = modifier := by
  simp only [attr, bind_eq_ok, ident_eq_ok, expect_eq_ok, attrValue_eq_ok, pure_eq_ok]
  constructor
  · rintro ⟨name, _, ⟨namePlace, rfl⟩, equal, _, ⟨hequal, rfl⟩, _, _, ⟨value, rfl, rfl⟩, rbracket, _,
      ⟨hrbracket, rfl⟩, rfl, rfl⟩
    refine ⟨namePlace, name, equal.location, value, rbracket.location, ?_, rfl⟩
    rw [← eq_token hequal, ← eq_token hrbracket]
  · rintro ⟨namePlace, name, equal, value, rbracket, rfl, rfl⟩
    exact ⟨name, _, ⟨namePlace, rfl⟩, _, _, ⟨rfl, rfl⟩, _, _, ⟨value, rfl, rfl⟩, _, _, ⟨rfl, rfl⟩, rfl, rfl⟩

/-- The kinds of tokens that a modifier of a tag starts with. -/
def startsModifier : TokenKind Range → Bool
  | .hash | .dot | .lbracket => true
  | _ => false

/-- The next token starts no modifier. -/
def NoModifier (tokens : List Token) : Prop :=
  ∀ kind, tokens.head?.map Token.kind = some kind → startsModifier kind = false

theorem modifiers_sound {bound : Nat} {found : List Modifier} :
    modifiers file bound tokens = .ok found rest →
      ∃ mods : List TagModifier,
        tokens = mods.flatMap TagModifier.tokens ++ rest ∧ mods.map TagModifier.modifier = found := by
  induction bound generalizing tokens found with
  | zero =>
    intro h
    obtain ⟨rfl, rfl⟩ := pure_eq_ok.mp h
    exact ⟨[], rfl, rfl⟩
  | succ bound ih =>
    intro h
    rw [modifiers, peekKind_bind] at h
    cases tokens with
    | nil =>
      obtain ⟨rfl, rfl⟩ := pure_eq_ok.mp h
      exact ⟨[], rfl, rfl⟩
    | cons token tokens =>
      obtain ⟨kind, range, file'⟩ := token
      cases kind with
      | hash =>
        simp only [List.head?_cons, Option.map_some, next_bind_cons, bind_eq_ok, selectorValue_eq_ok,
          pure_eq_ok] at h
        obtain ⟨_, _, ⟨value, rfl, rfl⟩, _, _, hmore, rfl, rfl⟩ := h
        obtain ⟨mods, rfl, rfl⟩ := ih hmore
        exact ⟨.id ⟨file', range⟩ value :: mods, rfl, rfl⟩
      | dot =>
        simp only [List.head?_cons, Option.map_some, next_bind_cons, bind_eq_ok, selectorValue_eq_ok,
          pure_eq_ok] at h
        obtain ⟨_, _, ⟨value, rfl, rfl⟩, _, _, hmore, rfl, rfl⟩ := h
        obtain ⟨mods, rfl, rfl⟩ := ih hmore
        exact ⟨.styleClass ⟨file', range⟩ value :: mods, rfl, rfl⟩
      | lbracket =>
        simp only [List.head?_cons, Option.map_some, next_bind_cons, bind_eq_ok, attr_eq_ok, pure_eq_ok] at h
        obtain ⟨_, _, ⟨namePlace, name, equal, value, rbracket, rfl, rfl⟩, _, _, hmore, rfl, rfl⟩ := h
        obtain ⟨mods, rfl, rfl⟩ := ih hmore
        exact ⟨.attr ⟨file', range⟩ namePlace name equal value rbracket :: mods, rfl, rfl⟩
      | _ =>
        obtain ⟨rfl, rfl⟩ := pure_eq_ok.mp h
        exact ⟨[], rfl, rfl⟩

theorem modifiers_complete (mods : List TagModifier) (hrest : NoModifier rest) :
    ∀ bound, mods.length ≤ bound →
      modifiers file bound (mods.flatMap TagModifier.tokens ++ rest) =
        .ok (mods.map TagModifier.modifier) rest := by
  induction mods with
  | nil =>
    intro bound _
    cases bound with
    | zero => rfl
    | succ bound =>
      rw [modifiers, peekKind_bind]
      cases rest with
      | nil => rfl
      | cons token rest =>
        obtain ⟨kind, range, file'⟩ := token
        have hkind := hrest kind rfl
        cases kind <;> first | rfl | cases hkind
  | cons mod mods ih =>
    intro bound hbound
    -- Each modifier uses up one of the bound, however many tokens it has.
    obtain ⟨bound, rfl⟩ : ∃ less, bound = less + 1 := ⟨bound - 1, by simp at hbound; omega⟩
    have hmore := ih bound (by simpa using hbound)
    rw [modifiers, peekKind_bind]
    cases mod with
    | id hash value =>
      have hvalue : selectorValue file (value.token :: (mods.flatMap TagModifier.tokens ++ rest)) =
          .ok value.node _ := selectorValue_eq_ok.mpr ⟨value, rfl, rfl⟩
      exact bind_eq_ok.mpr ⟨_, _, rfl, bind_eq_ok.mpr ⟨_, _, hvalue, bind_eq_ok.mpr ⟨_, _, hmore, rfl⟩⟩⟩
    | styleClass dot value =>
      have hvalue : selectorValue file (value.token :: (mods.flatMap TagModifier.tokens ++ rest)) =
          .ok value.node _ := selectorValue_eq_ok.mpr ⟨value, rfl, rfl⟩
      exact bind_eq_ok.mpr ⟨_, _, rfl, bind_eq_ok.mpr ⟨_, _, hvalue, bind_eq_ok.mpr ⟨_, _, hmore, rfl⟩⟩⟩
    | attr lbracket namePlace name equal value rbracket =>
      have hattr : attr file (namePlace.token (.ident name) :: equal.token .equal :: value.token ::
          rbracket.token .rbracket :: (mods.flatMap TagModifier.tokens ++ rest)) =
            .ok (.attr name value.node) _ :=
        attr_eq_ok.mpr ⟨namePlace, name, equal, value, rbracket, rfl, rfl⟩
      exact bind_eq_ok.mpr ⟨_, _, rfl, bind_eq_ok.mpr ⟨_, _, hattr, bind_eq_ok.mpr ⟨_, _, hmore, rfl⟩⟩⟩

/-! ## Arguments -/

theorem argumentName_eq_ok {name : String} :
    argumentName file tokens = .ok name rest ↔
      ∃ place colon : Location, tokens = place.token (.ident name) :: colon.token .colon :: rest := by
  rw [argumentName, next_bind_eq_ok]
  constructor
  · rintro ⟨⟨kind, range, file'⟩, middle, rfl, h⟩
    cases kind with
    | ident other =>
      obtain ⟨⟨kind, colonRange, colonFile⟩, middle, rfl, h⟩ := next_bind_eq_ok.mp h
      cases kind with
      | colon =>
        obtain ⟨rfl, rfl⟩ := pure_eq_ok.mp h
        exact ⟨⟨file', range⟩, ⟨colonFile, colonRange⟩, rfl⟩
      | _ => exact absurd h fail_ne_ok
    | _ => exact absurd h fail_ne_ok
  · rintro ⟨place, colon, rfl⟩
    exact ⟨_, _, rfl, rfl⟩

end Definition

end HtmlTemplate
