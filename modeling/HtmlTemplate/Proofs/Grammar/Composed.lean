import HtmlTemplate.Definition.OfTokens

/-!
# How the readers are put together

All readers of tokens are put together from the same few: those that take a token, look at the next one or skip
comments, and those that end with a value or an error. The only errors are that the tokens run out, and that the token
taken last does not fit. So what is kept when readers are put one behind the other can be shown of all of them at once,
by induction on how they are put together (`Definition.items_composed`).

## Contents

* `TokenReader.Composed` — how a reader is put together;
* `TokenReader.ident_composed`, `expect_composed` — the readers for single tokens;
* `Definition.modifiers_composed`, `items_composed`, `afterKeyword_composed` — the readers for tags, blocks and definitions.
-/

namespace HtmlTemplate

namespace TokenReader

/-- How a reader of source number `file` is put together. It can blame `last`, the token that was taken right before,
    if there is one. -/
inductive Composed (file : Nat) : {α : Type} → (last : Option Token) → TokenReader α → Prop where
  | pure {α : Type} {last : Option Token} (value : α) : Composed file last (pure value)
  | fault {α : Type} (cause : SyntaxFault) (token : Token) :
    Composed file (some token) (fail (.fault cause token) : TokenReader α)
  | endOfTokens {α : Type} {last : Option Token} : Composed file last (fail (.endOfTokens file) : TokenReader α)
  | next {α : Type} {last : Option Token} {behind : Token → TokenReader α}
    (h : ∀ token, Composed file (some token) (behind token)) : Composed file last (next file >>= behind)
  | peekKind {α : Type} {last : Option Token} {behind : Option (TokenKind Range) → TokenReader α}
    (h : ∀ kind, Composed file last (behind kind)) : Composed file last (peekKind >>= behind)
  | skipComments {α : Type} {last : Option Token} {behind : Unit → TokenReader α}
    (h : Composed file none (behind ())) : Composed file last (skipComments >>= behind)
  | bind {α β : Type} {last : Option Token} {reader : TokenReader α} {behind : α → TokenReader β}
    (h : Composed file last reader) (hbehind : ∀ value, Composed file none (behind value)) :
    Composed file last (reader >>= behind)

variable {file : Nat} {last : Option Token}

theorem skipComments_ne_error {tokens rest : List Token} {error : SyntaxError} :
    skipComments tokens ≠ .error error rest := by
  induction tokens with
  | nil => exact nofun
  | cons token tokens ih =>
    rw [skipComments]
    split
    · exact ih
    · exact nofun

theorem map_eq_error {α β : Type} {f : α → β} {reader : TokenReader α} {tokens rest : List Token}
    {error : SyntaxError} : (f <$> reader) tokens = .error error rest ↔ reader tokens = .error error rest := by
  show (reader >>= fun first => pure (f first)) tokens = .error error rest ↔ _
  rw [bind_apply]
  cases reader tokens <;> simp

theorem ident_composed : Composed file last (ident file) := by
  apply Composed.next
  intro token
  split
  · exact .pure _
  · exact .fault _ token

theorem expect_composed (kind : TokenKind Range) (cause : SyntaxFault) : Composed file last (expect file kind cause) := by
  apply Composed.next
  intro token
  by_cases hkind : token.kind = kind
  · rw [if_pos hkind]
    exact .pure token
  · rw [if_neg hkind]
    exact .fault cause token

end TokenReader

namespace Definition

open TokenReader

variable {scope : CallScope} {file bound : Nat} {last : Option Token}

/-! ## Tags -/

theorem selectorValue_composed : Composed file last (selectorValue file) := by
  apply Composed.next
  intro token
  split
  · exact .pure _
  · exact .pure _
  · exact .fault _ token

theorem attrValue_composed : Composed file last (attrValue file) := by
  apply Composed.next
  intro token
  split
  · exact .pure _
  · exact .pure _
  · exact .fault _ token

theorem attr_composed : Composed file last (attr file) := by
  apply ident_composed.bind
  intro name
  apply (expect_composed .equal _).bind
  intro equal
  apply attrValue_composed.bind
  intro value
  apply (expect_composed .rbracket _).bind
  intro rbracket
  exact .pure _

theorem modifiers_composed : Composed file last (modifiers file bound) := by
  induction bound generalizing last with
  | zero => exact .pure _
  | succ bound ih =>
    have hmore : ∀ modifier : Modifier,
        Composed file none (modifiers file bound >>= fun more => pure (modifier :: more)) :=
      fun modifier => ih.bind fun _ => .pure _
    apply Composed.peekKind
    intro kind
    split
    · exact .next fun _ => selectorValue_composed.bind fun _ => hmore _
    · exact .next fun _ => selectorValue_composed.bind fun _ => hmore _
    · exact .next fun _ => attr_composed.bind fun _ => hmore _
    · exact .pure _

/-- A reader of what is in a block, behind any token. -/
abbrev ItemsComposed (file : Nat) (items : TokenReader (List Node)) : Prop := ∀ {last}, Composed file last items

theorem tag_composed {items : TokenReader (List Node)} (hitems : ItemsComposed file items) (token : Token)
    (name : String) : Composed file last (tag file bound items token name) := by
  apply modifiers_composed.bind
  intro found
  apply Composed.peekKind
  intro kind
  split
  · exact .next fun _ => hitems.bind fun _ => .pure _
  · exact .pure _

/-! ## Blocks and calls -/

theorem argumentValue_composed {items : TokenReader (List Node)} (hitems : ItemsComposed file items) :
    Composed file last (argumentValue file items) := by
  apply Composed.next
  intro token
  dsimp only
  split
  · split
    · exact .pure _
    · exact .pure _
  · exact .pure _
  · exact .pure _
  · exact hitems.bind fun _ => .pure _
  all_goals exact .fault _ token

theorem argumentName_composed : Composed file last (argumentName file) := by
  apply Composed.next
  intro token
  split
  · apply Composed.next
    intro colon
    split
    · exact .pure _
    · exact .fault _ colon
    · exact .fault _ colon
  · exact .fault _ token
  · exact .fault _ token

theorem call_composed {arguments : TokenReader (List (String × Node))}
    (harguments : ∀ {last}, Composed scope.file last arguments) (token : Token) (name : String) :
    Composed scope.file last (call scope arguments token name) := by
  apply Composed.next
  intro lparen
  apply Composed.skipComments
  apply Composed.peekKind
  intro kind
  dsimp only
  split
  · exact .next fun _ => .pure _
  · exact harguments.bind fun _ => .pure _

/-- **The readers that call each other**, by induction on their bound. -/
theorem items_composed (scope : CallScope) (bound : Nat) :
    ItemsComposed scope.file (items scope bound) ∧
      ∀ {last args}, Composed scope.file last (arguments scope bound args) := by
  induction bound with
  | zero => exact ⟨.endOfTokens, .endOfTokens⟩
  | succ bound ih =>
    obtain ⟨hitems, harguments⟩ := ih
    have hmore : ∀ node : Node, Composed scope.file none (items scope bound >>= fun more => pure (node :: more)) :=
      fun node => hitems.bind fun _ => .pure _
    constructor
    · intro last
      apply Composed.next
      intro token
      split
      · exact .pure _
      · exact .fault _ token
      · exact hitems
      · exact hitems.bind fun _ => .pure _
      · exact hitems.bind fun _ => .pure _
      · apply Composed.peekKind
        intro kind
        dsimp only
        split
        · exact (call_composed harguments token _).bind hmore
        · exact (tag_composed hitems token _).bind hmore
      · exact .fault _ token
    · intro last args
      apply Composed.skipComments
      apply argumentName_composed.bind
      intro name
      apply (argumentValue_composed hitems).bind
      intro value
      apply Composed.skipComments
      apply Composed.next
      intro token
      split
      · exact harguments
      · exact .pure _
      · exact .fault _ token

/-- Behind a keyword, where the number of tokens is known. -/
theorem afterKeyword_composed (keyword : Token) (tokens : List Token) :
    ∃ reader, Composed scope.file last reader ∧ afterKeyword scope keyword tokens = reader tokens := by
  unfold afterKeyword
  refine ⟨_, ?_, rfl⟩
  apply ident_composed.bind
  intro name
  apply (expect_composed .lbrace _).bind
  intro brace
  apply (items_composed scope tokens.length).1.bind
  intro children
  exact .pure _

end Definition

end HtmlTemplate
