import HtmlTemplate.Proofs.Alike.Trees

/-!
# Reading tokens that are alike

Readers look at what tokens say, and never at where they stand. So two token lists that say the same are read in
step, up to trees and errors that say the same again (`Definition.nextDefinition_alike`). What the two readings know
about the templates that can be called shows in the bindings of the calls and nowhere else.

## Contents

* `TokenReader.Alike` — two readers that go in step;
* `TokenReader.Alike.bind`, `.next`, `.peekKind`, `.fail` — the basic readers;
* `Definition.attr_alike`, `modifiers_alike`, `tag_alike`, `call_alike` — the readers that call no other block;
* `Definition.items_alike`, `arguments_alike` — blocks and arguments, however deep;
* `Definition.nextDefinition_alike` — definitions.
-/

namespace HtmlTemplate

variable {α β γ δ : Type}

/-- The answers say the same, and the tokens that are left do. -/
inductive Reading.Alike (place : Location → Location → Prop) (V : α → β → Prop) : Reading α → Reading β → Prop where
  | ok {value : α} {value' : β} {rest rest' : List Token} (hvalue : V value value')
    (hrest : List.Forall₂ (Token.Alike place) rest rest') : Alike place V (.ok value rest) (.ok value' rest')
  | error {error error' : SyntaxError} {rest rest' : List Token} (herror : error.Alike place error')
    (hrest : List.Forall₂ (Token.Alike place) rest rest') : Alike place V (.error error rest) (.error error' rest')

namespace TokenReader

/-- On token lists that are alike the readers give answers that are. -/
def Alike (place : Location → Location → Prop) (V : α → β → Prop) (reader : TokenReader α) (reader' : TokenReader β) :
    Prop :=
  ∀ tokens tokens', List.Forall₂ (Token.Alike place) tokens tokens' → (reader tokens).Alike place V (reader' tokens')

namespace Alike

variable {place : Location → Location → Prop} {V : α → β → Prop} {W : γ → δ → Prop}

theorem pure {value : α} {value' : β} (h : V value value') :
    TokenReader.Alike place V (Pure.pure value) (Pure.pure value') :=
  fun _ _ htokens => .ok h htokens

theorem fail {error error' : SyntaxError} (h : error.Alike place error') :
    TokenReader.Alike place V (TokenReader.fail error) (TokenReader.fail error') :=
  fun _ _ htokens => .error h htokens

/-- Readers one after the other go in step if each of them does. -/
theorem bind {reader : TokenReader α} {reader' : TokenReader β} {next : α → TokenReader γ} {next' : β → TokenReader δ}
    (h : reader.Alike place V reader')
    (hnext : ∀ value value', V value value' → (next value).Alike place W (next' value')) :
    TokenReader.Alike place W (reader >>= next) (reader' >>= next') := by
  intro tokens tokens' htokens
  have hfirst := h tokens tokens' htokens
  rw [bind_apply, bind_apply]
  generalize reader tokens = answer, reader' tokens' = answer' at hfirst
  cases hfirst with
  | ok hvalue hrest => exact hnext _ _ hvalue _ _ hrest
  | error herror hrest => exact .error herror hrest

theorem next (file file' : Nat) :
    TokenReader.Alike place (Token.Alike place) (TokenReader.next file) (TokenReader.next file') := by
  intro tokens tokens' htokens
  cases htokens with
  | nil => exact .error (.endOfTokens file file') .nil
  | cons htoken hmore => exact .ok htoken hmore

/-- Going on with what the next token is, or with its absence. -/
theorem peekKind_bind {next next' : Option (TokenKind Range) → TokenReader γ} {V : γ → γ → Prop}
    (hnone : (next none).Alike place V (next' none))
    (hsome : ∀ token token' : Token, token.Alike place token' →
      (next (some token.kind)).Alike place V (next' (some token'.kind))) :
    TokenReader.Alike place V (TokenReader.peekKind >>= next) (TokenReader.peekKind >>= next') := by
  intro tokens tokens' htokens
  cases htokens with
  | nil => exact hnone _ _ .nil
  | cons htoken hmore => exact hsome _ _ htoken _ _ (.cons htoken hmore)

theorem skipComments :
    TokenReader.Alike place (fun _ _ => True) TokenReader.skipComments TokenReader.skipComments := by
  intro tokens tokens' htokens
  induction htokens with
  | nil => exact .ok trivial .nil
  | cons htoken hmore ih =>
    cases htoken with
    | literal hplace hsegments => exact .ok trivial (.cons (.literal hplace hsegments) hmore)
    | @other kind _ _ _ _ hplace hkind =>
      cases kind with
      | comment text => exact ih
      | _ => exact .ok trivial (.cons (.other hplace hkind) hmore)

theorem expect (file file' : Nat) {kind : TokenKind Range} (hkind : ∀ segments, kind ≠ .literal segments)
    (cause : SyntaxFault) :
    TokenReader.Alike place (Token.Alike place) (TokenReader.expect file kind cause)
      (TokenReader.expect file' kind cause) := by
  apply (next file file').bind
  intro token token' htoken
  have hfault : SyntaxError.Alike place (.fault cause token) (.fault cause token') := .fault cause htoken
  cases htoken with
  | literal hplace hsegments =>
    dsimp only
    rw [if_neg (hkind _).symm, if_neg (hkind _).symm]
    exact fail hfault
  | other hplace hother =>
    dsimp only
    split
    · exact pure (.other hplace hother)
    · exact fail hfault

theorem ident (file file' : Nat) :
    TokenReader.Alike place Eq (TokenReader.ident file) (TokenReader.ident file') := by
  apply (next file file').bind
  intro token token' htoken
  have hfault : SyntaxError.Alike place (.fault .expectedIdentifier token) (.fault .expectedIdentifier token') :=
    .fault _ htoken
  cases htoken with
  | literal _ _ => exact fail hfault
  | @other kind _ _ _ _ _ _ =>
    cases kind with
    | ident name => exact pure rfl
    | _ => exact fail hfault

end Alike

end TokenReader

namespace Definition

open TokenReader

variable {place : Location → Location → Prop} {binding : String → Binding → Binding → Prop}

/-! ## Tags -/

theorem selectorValue_alike (file file' : Nat) :
    (selectorValue file).Alike place (Node.Alike place binding) (selectorValue file') := by
  apply (Alike.next file file').bind
  intro token token' htoken
  have hfault : SyntaxError.Alike place (.fault .expectedIdentifier token) (.fault .expectedIdentifier token') :=
    .fault _ htoken
  cases htoken with
  | literal _ _ => exact .fail hfault
  | @other kind _ _ _ _ hplace _ =>
    cases kind with
    | ident name => exact .pure (.literal hplace name)
    | reference ref => exact .pure (.ofReference hplace ref)
    | _ => exact .fail hfault

theorem attrValue_alike (file file' : Nat) :
    (attrValue file).Alike place (Node.Alike place binding) (attrValue file') := by
  apply (Alike.next file file').bind
  intro token token' htoken
  have hfault : SyntaxError.Alike place (.fault .unexpectedToken token) (.fault .unexpectedToken token') :=
    .fault _ htoken
  cases htoken with
  | literal _ _ => exact .fail hfault
  | @other kind _ _ _ _ hplace _ =>
    cases kind with
    | quote text => exact .pure (.literal hplace text)
    | reference ref => exact .pure (.ofReference hplace ref)
    | _ => exact .fail hfault

theorem attr_alike (file file' : Nat) : (attr file).Alike place (Modifier.Alike place binding) (attr file') := by
  have hequal : ∀ segments : List (Segment × Range), TokenKind.equal ≠ .literal segments := nofun
  have hbracket : ∀ segments : List (Segment × Range), TokenKind.rbracket ≠ .literal segments := nofun
  apply (Alike.ident file file').bind
  rintro name _ rfl
  apply (Alike.expect file file' hequal _).bind
  intro _ _ _
  apply (attrValue_alike file file').bind
  intro value value' hvalue
  apply (Alike.expect file file' hbracket _).bind
  intro _ _ _
  exact .pure (.attr name hvalue)

theorem modifiers_alike (file file' bound : Nat) :
    (modifiers file bound).Alike place (List.Forall₂ (Modifier.Alike place binding)) (modifiers file' bound) := by
  induction bound with
  | zero => exact .pure .nil
  | succ bound ih =>
    rw [modifiers, modifiers]
    apply Alike.peekKind_bind
    · exact .pure .nil
    intro token token' htoken
    cases htoken with
    | literal _ _ => exact .pure .nil
    | @other kind _ _ _ _ _ _ =>
      cases kind with
      | hash =>
        apply (Alike.next file file').bind
        intro _ _ _
        apply (selectorValue_alike file file').bind
        intro value value' hvalue
        apply ih.bind
        intro _ _ hmore
        exact .pure (.cons (.id hvalue) hmore)
      | dot =>
        apply (Alike.next file file').bind
        intro _ _ _
        apply (selectorValue_alike file file').bind
        intro value value' hvalue
        apply ih.bind
        intro _ _ hmore
        exact .pure (.cons (.styleClass hvalue) hmore)
      | lbracket =>
        apply (Alike.next file file').bind
        intro _ _ _
        apply (attr_alike file file').bind
        intro modifier modifier' hmodifier
        apply ih.bind
        intro _ _ hmore
        exact .pure (.cons hmodifier hmore)
      | _ => exact .pure .nil

theorem tag_alike (file file' bound : Nat) {items items' : TokenReader (List Node)}
    (hitems : items.Alike place (List.Forall₂ (Node.Alike place binding)) items') {token token' : Token}
    (htoken : token.Alike place token') (name : String) :
    (tag file bound items token name).Alike place (Node.Alike place binding) (tag file' bound items' token' name) := by
  have hplace := htoken.location
  apply (modifiers_alike file file' bound).bind
  intro modifiers modifiers' hmodifiers
  have hempty : TokenReader.Alike place (Node.Alike place binding)
      (pure (Node.tag token.location name modifiers none)) (pure (Node.tag token'.location name modifiers' none)) :=
    .pure (.tag hplace name hmodifiers .none)
  apply Alike.peekKind_bind
  · exact hempty
  intro next next' hnext
  cases hnext with
  | literal _ _ => exact hempty
  | @other kind _ _ _ _ _ _ =>
    cases kind with
    | lbrace =>
      apply (Alike.next file file').bind
      intro brace brace' hbrace
      apply hitems.bind
      intro children children' hchildren
      exact .pure (.tag hplace name hmodifiers (.some (.body hbrace.location hchildren)))
    | _ => exact hempty

/-! ## Calls -/

theorem argumentName_alike (file file' : Nat) :
    (argumentName file).Alike place Eq (argumentName file') := by
  apply (Alike.next file file').bind
  intro token token' htoken
  have hfault : ∀ cause, SyntaxError.Alike place (.fault cause token) (.fault cause token') := (.fault · htoken)
  cases htoken with
  | literal _ _ => exact .fail (hfault _)
  | @other kind _ _ _ _ _ _ =>
    cases kind with
    | ident name =>
      apply (Alike.next file file').bind
      intro colon colon' hcolon
      have hcolonFault : ∀ cause, SyntaxError.Alike place (.fault cause colon) (.fault cause colon') :=
        (.fault · hcolon)
      cases hcolon with
      | literal _ _ => exact .fail (hcolonFault _)
      | @other kind _ _ _ _ _ _ =>
        cases kind with
        | colon => exact .pure rfl
        | eof => exact .fail (hcolonFault _)
        | _ => exact .fail (hcolonFault _)
    | eof => exact .fail (hfault _)
    | _ => exact .fail (hfault _)

theorem argumentValue_alike (file file' : Nat) {items items' : TokenReader (List Node)}
    (hitems : items.Alike place (List.Forall₂ (Node.Alike place binding)) items') :
    (argumentValue file items).Alike place (Node.Alike place binding) (argumentValue file' items') := by
  apply (Alike.next file file').bind
  intro token token' htoken
  have hfault : ∀ cause, SyntaxError.Alike place (.fault cause token) (.fault cause token') := (.fault · htoken)
  cases htoken with
  | literal hplace hsegments => exact .pure (.deferred hplace (.ofLiteral hplace hsegments _ _))
  | @other kind _ _ _ _ hplace hkind =>
    cases kind with
    | reference ref =>
      dsimp only
      split
      · exact .pure (.deferred hplace (.ofReference hplace ref))
      · exact .pure (.reference hplace .passed ref.path)
    | quote text => exact .pure (.deferred hplace (.literal hplace text))
    | literal segments => exact absurd rfl (hkind segments)
    | lbrace =>
      apply hitems.bind
      intro children children' hchildren
      exact .pure (.deferred hplace (.body hplace hchildren))
    | comma | rparen | eof => exact .fail (hfault _)
    | _ => exact .fail (hfault _)

/-- What is known about the templates that can be called shows in the bindings of calls only. -/
def ScopesAlike (binding : String → Binding → Binding → Prop) (scope scope' : CallScope) : Prop :=
  ∀ name, binding name (scope.binding name) (scope'.binding name)

variable {scope scope' : CallScope}

theorem call_alike (hscope : ScopesAlike binding scope scope') {arguments arguments' : TokenReader (List (String × Node))}
    (harguments : arguments.Alike place (List.Forall₂ (Node.ArgAlike place binding)) arguments') {token token' : Token}
    (htoken : token.Alike place token') (name : String) :
    (call scope arguments token name).Alike place (Node.Alike place binding)
      (call scope' arguments' token' name) := by
  apply (Alike.next scope.file scope'.file).bind
  intro _ _ _
  apply Alike.skipComments.bind
  intro _ _ _
  have hcall : ∀ args args', List.Forall₂ (Node.ArgAlike place binding) args args' →
      TokenReader.Alike place (Node.Alike place binding)
        (pure (Node.call token.location (scope.binding name) name args))
        (pure (Node.call token'.location (scope'.binding name) name args')) :=
    fun _ _ hargs => .pure (.call htoken.location name (hscope name) hargs)
  apply Alike.peekKind_bind
  · exact harguments.bind hcall
  intro next next' hnext
  cases hnext with
  | literal _ _ => exact harguments.bind hcall
  | @other kind _ _ _ _ _ _ =>
    cases kind with
    | rparen =>
      apply (Alike.next scope.file scope'.file).bind
      intro _ _ _
      exact hcall [] [] .nil
    | _ => exact harguments.bind hcall

/-! ## Blocks -/

/-- The readers of blocks and of arguments with a bound on the tokens that are left go in step. -/
structure BlocksAlike (place : Location → Location → Prop) (binding : String → Binding → Binding → Prop)
    (scope scope' : CallScope) (bound : Nat) : Prop where
  items : (items scope bound).Alike place (List.Forall₂ (Node.Alike place binding)) (items scope' bound)
  arguments : ∀ args args', List.Forall₂ (Node.ArgAlike place binding) args args' →
    (arguments scope bound args).Alike place (List.Forall₂ (Node.ArgAlike place binding))
      (arguments scope' bound args')

theorem items_succ_alike (hscope : ScopesAlike binding scope scope') {bound : Nat}
    (h : BlocksAlike place binding scope scope' bound) :
    (items scope (bound + 1)).Alike place (List.Forall₂ (Node.Alike place binding)) (items scope' (bound + 1)) := by
  rw [items, items]
  apply (Alike.next scope.file scope'.file).bind
  intro token token' htoken
  have hfault : ∀ cause, SyntaxError.Alike place (.fault cause token) (.fault cause token') := (.fault · htoken)
  have hmore : ∀ node node' : Node, node.Alike place binding node' →
      TokenReader.Alike place (List.Forall₂ (Node.Alike place binding))
        (do return node :: (← items scope bound)) (do return node' :: (← items scope' bound)) := by
    intro node node' hnode
    apply h.items.bind
    intro _ _ hnodes
    exact .pure (.cons hnode hnodes)
  have hcopy := htoken
  cases hcopy with
  | literal hplace hsegments => exact hmore _ _ (.ofLiteral hplace hsegments _ _)
  | @other kind _ _ _ _ hplace hkind =>
    cases kind with
    | rbrace => exact .pure .nil
    | eof => exact .fail (hfault _)
    | comment text => exact h.items
    | literal segments => exact absurd rfl (hkind segments)
    | reference ref => exact hmore _ _ (.ofReference hplace ref)
    | ident name =>
      -- Both readings tell a call from a tag by the same token behind the name.
      have htag := (tag_alike scope.file scope'.file bound h.items htoken name).bind hmore
      have hcall := (call_alike hscope (h.arguments [] [] .nil) htoken name).bind hmore
      apply Alike.peekKind_bind
      · exact htag
      intro next next' hnext
      cases hnext with
      | literal _ _ => exact htag
      | @other kind _ _ _ _ _ _ =>
        cases kind with
        | lparen => exact hcall
        | _ => exact htag
    | _ => exact .fail (hfault _)

theorem arguments_succ_alike {bound : Nat} (h : BlocksAlike place binding scope scope' bound)
    {args args' : List (String × Node)} (hargs : List.Forall₂ (Node.ArgAlike place binding) args args') :
    (arguments scope (bound + 1) args).Alike place (List.Forall₂ (Node.ArgAlike place binding))
      (arguments scope' (bound + 1) args') := by
  rw [arguments, arguments]
  apply Alike.skipComments.bind
  intro _ _ _
  apply (argumentName_alike scope.file scope'.file).bind
  rintro name _ rfl
  apply (argumentValue_alike scope.file scope'.file h.items).bind
  intro value value' hvalue
  have hset := setArgument_alike hargs name hvalue
  apply Alike.skipComments.bind
  intro _ _ _
  apply (Alike.next scope.file scope'.file).bind
  intro token token' htoken
  have hfault : ∀ cause, SyntaxError.Alike place (.fault cause token) (.fault cause token') := (.fault · htoken)
  cases htoken with
  | literal _ _ => exact .fail (hfault _)
  | @other kind _ _ _ _ _ _ =>
    cases kind with
    | comma => exact h.arguments _ _ hset
    | rparen => exact .pure hset
    | _ => exact .fail (hfault _)

/-- **Blocks are read in step**, however deep they are nested. -/
theorem blocks_alike (hscope : ScopesAlike binding scope scope') (bound : Nat) :
    BlocksAlike place binding scope scope' bound := by
  induction bound with
  | zero =>
    have hend : SyntaxError.Alike place (.endOfTokens scope.file) (.endOfTokens scope'.file) := .endOfTokens _ _
    constructor
    · rw [items, items]
      exact .fail hend
    · intro args args' _
      rw [arguments, arguments]
      exact .fail hend
  | succ bound ih => exact ⟨items_succ_alike hscope ih, fun _ _ hargs => arguments_succ_alike ih hargs⟩

end Definition

/-! ## Definitions -/

/-- The definitions have the same name, and trees that are alike. -/
structure Definition.Alike (place : Location → Location → Prop) (binding : String → Binding → Binding → Prop)
    (definition definition' : Definition) : Prop where
  name : definition.name = definition'.name
  location : place definition.location definition'.location
  body : definition.body.Alike place binding definition'.body

namespace Definition

open TokenReader (ident expect)

variable {place : Location → Location → Prop} {binding : String → Binding → Binding → Prop} {scope scope' : CallScope}

theorem afterKeyword_alike (hscope : ScopesAlike binding scope scope') {keyword keyword' : Token}
    (hkeyword : keyword.Alike place keyword') :
    (afterKeyword scope keyword).Alike place (Definition.Alike place binding) (afterKeyword scope' keyword') := by
  intro tokens tokens' htokens
  have hbrace : ∀ segments : List (Segment × Range), TokenKind.lbrace ≠ .literal segments := nofun
  have hbody : ∀ bound : Nat, TokenReader.Alike place (Definition.Alike place binding)
      (do
        let name ← ident scope.file
        let brace ← expect scope.file .lbrace .unexpectedToken
        let children ← items scope bound
        return (⟨name, keyword.location, .body brace.location children⟩ : Definition))
      (do
        let name ← ident scope'.file
        let brace ← expect scope'.file .lbrace .unexpectedToken
        let children ← items scope' bound
        return (⟨name, keyword'.location, .body brace.location children⟩ : Definition)) := by
    intro bound
    apply (TokenReader.Alike.ident scope.file scope'.file).bind
    rintro name _ rfl
    apply (TokenReader.Alike.expect scope.file scope'.file hbrace _).bind
    intro brace brace' hbraces
    apply (blocks_alike hscope bound).items.bind
    intro children children' hchildren
    exact .pure ⟨rfl, hkeyword.location, .body hbraces.location hchildren⟩
  unfold afterKeyword
  rw [← htokens.length_eq]
  exact hbody tokens.length tokens tokens' htokens

/-- **Definitions are read in step.** -/
theorem nextDefinition_alike (hscope : ScopesAlike binding scope scope') :
    (nextDefinition scope).Alike place (Option.Rel (Definition.Alike place binding)) (nextDefinition scope') := by
  intro tokens tokens' htokens
  induction htokens with
  | nil => exact .ok .none .nil
  | cons htoken hmore ih =>
    rename_i token token' tokens tokens'
    have hfault : SyntaxError.Alike place (.fault .expectedDefinition token) (.fault .expectedDefinition token') :=
      .fault _ htoken
    have hcopy := htoken
    cases hcopy with
    | literal _ _ => exact .error hfault hmore
    | @other kind _ _ _ _ _ _ =>
      cases kind with
      | comment text => exact ih
      | eof => exact .ok .none hmore
      | ident name =>
        rw [nextDefinition, nextDefinition]
        dsimp only
        split
        · have hsome := (afterKeyword_alike hscope htoken).bind fun _ _ hdefinition =>
            TokenReader.Alike.pure (Option.Rel.some hdefinition)
          exact hsome _ _ hmore
        · exact .error hfault hmore
      | _ => exact .error hfault hmore

end Definition

end HtmlTemplate
