import HtmlTemplate.Proofs.Grammar.Comments
import HtmlTemplate.Proofs.Session.Joined
import HtmlTemplate.Proofs.Token.Layout

/-!
# The format of sources

Blank and comments are there for the reader. A source that is laid out in another way has tokens that say the same,
and one with other comments has the same definitions. So if some of the sources that an engine compiles are
reformatted, then its trees are the same but for their places, and it renders the same texts (`format_unobservable`).

## Contents

* `Reformatted`, `History.Reformatted` — sources with another format, and engines that compile such;
* `tokens_alike` — tokens that say the same are alike;
* `Engine.defineParts_bareDefs` — comments do not matter to what is put in;
* `Engine.Alike`, `Engine.Alike.perform` — engines that differ in places only, and what keeps them so;
* `Cause.said`, `Halt.said` — what errors say, wherever they are found;
* `Engine.Alike.renderInto` — such engines render alike;
* `format_unobservable` — the main statement.
-/

namespace HtmlTemplate

open Grammar

variable {σ : Type}

/-! ## Other formats -/

/-- The second source says the same as the first, perhaps in another format: the texts of its tokens may have other
    blank between them, or it may have other comments, and then any blank. -/
inductive Reformatted : String → String → Prop where
  | same (code : String) : Reformatted code code
  | layout {code : String} {tokens : List Token} {front : List Char} {parts : List Laid}
    (h : tokenize code 0 = .ok tokens) (htexts : Laid.HasTexts code tokens parts) (hspaced : Laid.Spaced front parts) :
    Reformatted code (Laid.source front parts)
  | comments {code code' : String} {parts parts' : List Part} {rest tokens : List Token}
    (h : tokenize code 0 = .ok (parts.flatMap Part.tokens ++ rest)) (hrest : Definition.IsEnd rest)
    (h' : tokenize code' 0 = .ok tokens) (hcontents : contents tokens = contents (parts'.flatMap Part.tokens ++ rest))
    (hbare : bareDefs parts' = bareDefs parts) : Reformatted code code'

/-- The edits are the same, but for the format of the source and the name of its file. -/
inductive Edit.Reformatted : Edit σ → Edit σ → Prop where
  | compile {code code' : String} (h : HtmlTemplate.Reformatted code code') (fileName fileName' : String) :
    Reformatted (.compile code fileName) (.compile code' fileName')
  | same (edit : Edit σ) : Reformatted edit edit

/-- The engines came about in the same way, but for the formats of sources. -/
structure History.Reformatted (history history' : History σ) : Prop where
  optimize : history.optimize = history'.optimize
  edits : List.Forall₂ Edit.Reformatted history.edits history'.edits

/-! ## Tokens that say the same -/

/-- All places may stand for one another. -/
def anyPlace (_ _ : Location) : Prop := True

theorem Token.alike_of_map {token token' : Token} (h : token.kind.map (fun _ => ()) = token'.kind.map fun _ => ()) :
    token.Alike anyPlace token' := by
  obtain ⟨kind, range, file⟩ := token
  obtain ⟨kind', range', file'⟩ := token'
  cases kind with
  | literal segments =>
    cases kind' with
    | literal segments' =>
      have hsegments : segments.map (fun segment => (segment.1, ())) = segments'.map fun segment => (segment.1, ()) :=
        TokenKind.literal.inj h
      refine .literal trivial ?_
      rw [← List.forall₂_eq_eq_eq, List.forall₂_map_left_iff, List.forall₂_map_right_iff] at hsegments
      exact hsegments.imp fun _ _ hsegment => ⟨(Prod.mk.inj hsegment).1, trivial⟩
    | _ => cases h
  | _ =>
    cases kind' <;> cases h
    exact .other trivial nofun

/-- **Tokens that say the same are alike.** -/
theorem tokens_alike {tokens tokens' : List Token} (h : contents tokens = contents tokens') :
    List.Forall₂ (Token.Alike anyPlace) tokens tokens' := by
  unfold contents at h
  rw [← List.forall₂_eq_eq_eq, List.forall₂_map_left_iff, List.forall₂_map_right_iff] at h
  exact h.imp fun _ _ => Token.alike_of_map

/-- A source without fault says the same under every number. -/
theorem exists_scan_eq {code : String} {file : Nat} {tokens : List Token} (h : tokenize code file = .ok tokens)
    (file' : Nat) : ∃ found, scan code file' = ⟨found, none⟩ ∧ contents found = contents tokens := by
  obtain ⟨hfault, rfl⟩ := tokenize_eq_ok h
  refine ⟨(scan code file').tokens, ?_, ?_⟩
  · rw [scan_eq_scanFrom, scanFrom, hfault]
  · rw [scan_eq_scanFrom, scanFrom, hfault, contents_append, contents_append, contents_tokens, contents_tokens]
    rfl

/-! ## Engines -/

/-- What an error says, wherever it is found: its code, its sentence, and how to mend it. -/
def Cause.said (cause : Cause) : String × String × Option String := (cause.code, cause.message, cause.help)

theorem Cause.Alike.said {place : Location → Location → Prop} {cause cause' : Cause}
    (h : cause.Alike place cause') : cause.said = cause'.said := by
  unfold Cause.said
  rw [h.code, h.message, h.help]

/-- What is said where a render stops. Nothing is said of calls that are nested too deep. -/
def Halt.said : Halt Diagnostic → Option (String × String × Option String)
  | .error diagnostic => some diagnostic.cause.said
  | .tooDeep => none

namespace Engine

/-- Comments do not matter to what is put in. -/
theorem defineParts_bareDefs (file : Nat) (engine : Engine σ) (parts : List Part) :
    engine.defineParts file ((bareDefs parts).map Part.definition) = engine.defineParts file parts := by
  induction parts generalizing engine with
  | nil => rfl
  | cons part parts ih =>
    cases part with
    | comment comment => exact ih engine
    | definition d =>
      show defineParts file (engine.define _ (d.bare.definition ⟨file, engine.registry.isInternal⟩).body) _ = _
      rw [d.definition_bare]
      exact ih _

theorem defineAll_of_isEnd (file bound : Nat) (engine : Engine σ) {rest : List Token} (h : Definition.IsEnd rest) :
    defineAll file bound engine rest = (engine, none) := by
  cases bound with
  | zero => rfl
  | succ bound =>
    cases rest with
    | nil => rfl
    | cons token rest =>
      obtain ⟨kind, range, file⟩ := token
      obtain rfl : kind = .eof := h _ rfl
      rfl

/-- The engines differ in the places of their trees and in their sources only. -/
structure Alike (engine engine' : Engine σ) : Prop where
  registry : engine.registry.Alike anyPlace sameBinding engine'.registry
  resolver : engine.resolver = engine'.resolver
  optimize : engine.optimize = engine'.optimize

namespace Alike

variable {engine engine' : Engine σ} {code code' : String}

theorem new (optimize : Bool) : Alike (Engine.new optimize : Engine σ) (.new optimize) :=
  ⟨.refl (fun _ => trivial) (fun _ _ => rfl) _, rfl, rfl⟩

theorem define (h : engine.Alike engine') (name : String) (tree : Node) :
    (engine.define name tree).Alike (engine'.define name tree) where
  registry := by
    unfold Engine.define
    rw [h.optimize]
    exact h.registry.define name (.refl (fun _ => trivial) (fun _ _ => rfl) _)
  resolver := h.resolver
  optimize := h.optimize

theorem register (h : engine.Alike engine') (name : String) (function : Native σ) :
    (engine.register name function).Alike (engine'.register name function) :=
  ⟨h.registry.register name function, h.resolver, h.optimize⟩

/-- **Reformatted sources put in the same**, up to the same error. -/
theorem defineAll (h : engine.Alike engine') (hcode : Reformatted code code') (file file' : Nat) :
    let found := scan code file
    let found' := scan code' file'
    let done := Engine.defineAll file found.tokens.length engine found.tokens
    let done' := Engine.defineAll file' found'.tokens.length engine' found'.tokens
    done.1.registry.Alike anyPlace sameBinding done'.1.registry ∧
      Option.Rel (SyntaxError.Alike anyPlace) done.2 done'.2 ∧
      Option.Rel (ScanError.Alike anyPlace) found.error found'.error := by
  -- It is enough that the tokens say the same.
  have hsame : ∀ {tokens tokens' : List Token}, List.Forall₂ (Token.Alike anyPlace) tokens tokens' →
      (Engine.defineAll file tokens.length engine tokens).1.registry.Alike anyPlace sameBinding
          (Engine.defineAll file' tokens'.length engine' tokens').1.registry ∧
        Option.Rel (SyntaxError.Alike anyPlace) (Engine.defineAll file tokens.length engine tokens).2
          (Engine.defineAll file' tokens'.length engine' tokens').2 := by
    intro tokens tokens' htokens
    rw [← htokens.length_eq]
    exact defineAll_alike (fun _ _ => id) file file' tokens.length h.optimize h.registry htokens
  intro found found'
  cases hcode with
  | same =>
    have halike : found.Alike anyPlace found' := scan_renumbered code fun _ => trivial
    obtain ⟨hregistry, herror⟩ := hsame halike.tokens
    exact ⟨hregistry, herror, halike.error⟩
  | layout htokens htexts hspaced =>
    obtain ⟨tokens, hscan, hcontents⟩ := exists_scan_eq htokens file
    obtain ⟨relaid, hrelaid, hrelays⟩ := tokenize_relaid htokens htexts hspaced 0
    obtain ⟨tokens', hscan', hcontents'⟩ := exists_scan_eq hrelaid file'
    obtain ⟨hregistry, herror⟩ := hsame (tokens_alike (hcontents.trans (hrelays.symm.trans hcontents'.symm)))
    rw [show found = _ from hscan, show found' = _ from hscan']
    exact ⟨hregistry, herror, .none⟩
  | @comments _ parts parts' rest _ htokens hrest htokens' hrecomments hbare =>
    obtain ⟨tokens, hscan, hcontents⟩ := exists_scan_eq htokens file
    obtain ⟨tokens', hscan', hcontents'⟩ := exists_scan_eq htokens' file'
    have halike := tokens_alike (hrecomments.symm.trans hcontents'.symm)
    -- The tokens of each source are like the parts that it has, and these put in the same but for comments.
    have hput : ∀ parts : List Part, Engine.defineAll file' (parts.flatMap Part.tokens ++ rest).length engine'
        (parts.flatMap Part.tokens ++ rest) =
          (engine'.defineParts file' ((bareDefs parts).map Part.definition), none) := by
      intro parts
      rw [defineAll_parts file' engine' (Nat.le_refl _), defineAll_of_isEnd _ _ _ hrest, defineParts_bareDefs]
    obtain ⟨hregistry, herror⟩ := hsame (tokens_alike hcontents)
    obtain ⟨hregistry', herror'⟩ := defineAll_alike (fun _ _ => id) file' file' tokens'.length rfl
      (.refl (fun _ => trivial) (fun _ _ => rfl) engine'.registry) halike
    rw [hput] at hregistry herror
    rw [← halike.length_eq, hput, hbare] at hregistry' herror'
    rw [show found = _ from hscan, show found' = _ from hscan']
    dsimp only
    rw [← halike.length_eq]
    refine ⟨hregistry.trans (fun _ _ _ _ _ => trivial) (fun _ _ _ _ => Eq.trans) hregistry', ?_, .none⟩
    generalize (Engine.defineAll file _ engine tokens).2 = error at herror ⊢
    generalize (Engine.defineAll file' _ engine' tokens').2 = error' at herror' ⊢
    cases herror
    cases herror'
    exact .none

/-- **Compiling a reformatted source** has the same result. -/
theorem compile (h : engine.Alike engine') (hcode : Reformatted code code') (fileName fileName' : String) :
    (engine.compile code fileName).1.Alike (engine'.compile code' fileName').1 ∧
      (engine.compile code fileName).2.mapError (·.cause.said) =
        (engine'.compile code' fileName').2.mapError (·.cause.said) := by
  obtain ⟨hregistry, herror, hfault⟩ := h.defineAll hcode engine.sources.size engine'.sources.size
  refine ⟨⟨?_, ?_, ?_⟩, ?_⟩
  · rw [compile_eq engine code fileName rfl rfl, compile_eq engine' code' fileName' rfl rfl]
    exact hregistry
  · rw [compile_resolver, compile_resolver, h.resolver]
  · rw [compile_optimize, compile_optimize, h.optimize]
  · have hcauses := firstError_alike herror hfault
    rw [compile_eq engine code fileName rfl rfl, compile_eq engine' code' fileName' rfl rfl]
    dsimp only
    generalize firstError _ (scan code _).error = cause, firstError _ (scan code' _).error = cause' at hcauses
    cases hcauses with
    | none => rfl
    | some hcause =>
      show Except.error (Diagnostic.ofCause _ _).cause.said = Except.error (Diagnostic.ofCause _ _).cause.said
      rw [Diagnostic.cause_ofCause, Diagnostic.cause_ofCause, hcause.said]

/-- **One edit keeps engines alike**, and a source may be reformatted in it. -/
theorem perform (h : engine.Alike engine') {edit edit' : Edit σ} (hedit : edit.Reformatted edit') :
    (engine.perform edit).1.Alike (engine'.perform edit').1 := by
  cases hedit with
  | compile hcode fileName fileName' => exact (h.compile hcode fileName fileName').1
  | same edit =>
    cases edit with
    | compile code fileName => exact (h.compile (.same code) fileName fileName).1
    | define name tree => exact h.define name tree
    | register name function => exact h.register name function
    | setResolver resolver => exact ⟨h.registry, rfl, h.optimize⟩
    | setOptimize optimize => exact ⟨h.registry, h.resolver, rfl⟩

/-- **All edits do.** -/
theorem history {history history' : History σ} (h : history.Reformatted history') :
    history.engine.Alike history'.engine := by
  obtain ⟨optimize, edits⟩ := history
  obtain ⟨optimize', edits'⟩ := history'
  obtain ⟨hoptimize, hedits⟩ := h
  obtain rfl : optimize = optimize' := hoptimize
  have hrun : ∀ {engine engine' : Engine σ}, engine.Alike engine' →
      (edits.foldl (fun engine edit => (engine.perform edit).1) engine).Alike
        (edits'.foldl (fun engine edit => (engine.perform edit).1) engine') := by
    dsimp only at hedits
    induction hedits with
    | nil => exact id
    | cons hedit _ ih => exact fun h => ih (h.perform hedit)
  exact hrun (.new optimize)

/-! ## Renders -/

theorem stage (h : engine.Alike engine') : engine.stage.Alike anyPlace sameBinding Eq engine'.stage where
  resolver := h.resolver
  target name target target' htarget := by
    obtain rfl : target = target' := htarget
    cases target with
    | internal =>
      have hname := h.registry.internal name
      show Option.Rel _ ((engine.registry.internal? name).map _) ((engine'.registry.internal? name).map _)
      generalize engine.registry.internal? name = found, engine'.registry.internal? name = found' at hname
      cases hname with
      | none => exact .none
      | some htree => exact .some (.compiled htree)
    | external => exact h.registry.external name
  external _ := rfl
  out _ htarget := nomatch htarget
  inward _ htarget := nomatch htarget

/-- **Engines that are alike render alike**: the same text, also that of a render that fails, for the same reason. -/
theorem renderInto (h : engine.Alike engine') (depth : Nat) (name : String) (params : Value) (output : Output σ) :
    (engine.renderInto depth name params output).1.mapError Halt.said =
        (engine'.renderInto depth name params output).1.mapError Halt.said ∧
      (engine.renderInto depth name params output).2 = (engine'.renderInto depth name params output).2 := by
  have hagrees := @Stage.render_alike σ _ _ _ (fun _ => rfl) _ _ h.stage depth name params
  have hend := hagrees output output rfl rfl
  unfold Engine.renderInto
  generalize engine.stage.render depth name params output = done,
    engine'.stage.render depth name params output = done' at hend
  rcases done with ⟨halt | ⟨⟩, written, host⟩ <;> rcases done' with ⟨halt' | ⟨⟩, written', host'⟩
  · obtain hlenient | ⟨hhalt, hwritten, hhost⟩ := hend
    · exact hlenient.elim
    · obtain rfl : written = written' := hwritten
      obtain rfl : host = host' := hhost
      refine ⟨congrArg Except.error ?_, rfl⟩
      cases hhalt with
      | tooDeep => rfl
      | error herror =>
        show some (Diagnostic.ofCause _ _).cause.said = some (Diagnostic.ofCause _ _).cause.said
        rw [Diagnostic.cause_ofCause, Diagnostic.cause_ofCause]
        cases herror <;> rfl
  · exact hend.elim
  · exact hend.elim
  · obtain ⟨-, hwritten, hhost⟩ := hend
    obtain rfl : written = written' := hwritten
    obtain rfl : host = host' := hhost
    exact ⟨rfl, rfl⟩

end Alike

end Engine

/-! ## The main statement -/

/-- **The format of sources is unobservable.** A source without fault is the texts of its tokens and blank. Whatever
    blank stands between them instead, as long as there is some between any two, the tokens say the same. If
    definitions can be read from some tokens, then the same are read without the comments among them. These tokens are
    comments and definitions up to the end, and the same definitions are read from others that differ in comments only.
    So engines that came about in the same way but for the formats of sources know the same names, compile with the
    same results, and render the same texts, also where a render fails, and then for the same reason. -/
theorem format_unobservable :
    (∀ (code : String) (file : Nat) (tokens : List Token), tokenize code file = .ok tokens →
      (∃ front parts, Laid.source front parts = code ∧ Laid.HasTexts code tokens parts ∧
        (∀ c ∈ front, Lexeme.isBlank c = true) ∧ ∀ part ∈ parts, ∀ c ∈ part.blank, Lexeme.isBlank c = true) ∧
      ∀ front parts, Laid.HasTexts code tokens parts → Laid.Spaced front parts → ∀ file',
        ∃ relaid, tokenize (Laid.source front parts) file' = .ok relaid ∧ contents relaid = contents tokens) ∧
    (∀ (scope : CallScope) (tokens : List Token) (found : List Definition), definitions scope tokens = .ok found →
      definitions scope (tokens.filter Token.isOther) = .ok found ∧
      (∃ (parts : List Part) (rest : List Token),
        tokens = parts.flatMap Part.tokens ++ rest ∧ Definition.IsEnd rest) ∧
      ∀ (parts parts' : List Part) (rest : List Token), tokens = parts.flatMap Part.tokens ++ rest →
        Definition.IsEnd rest → bareDefs parts' = bareDefs parts →
          definitions scope (parts'.flatMap Part.tokens ++ rest) = .ok found) ∧
    ∀ (σ : Type) (history history' : History σ), history.Reformatted history' →
      history.engine.names = history'.engine.names ∧
      (∀ code code', Reformatted code code' → ∀ fileName fileName',
        (history.engine.compile code fileName).2.mapError (·.cause.said) =
          (history'.engine.compile code' fileName').2.mapError (·.cause.said)) ∧
      ∀ depth name params output,
        (history.engine.renderInto depth name params output).1.mapError Halt.said =
            (history'.engine.renderInto depth name params output).1.mapError Halt.said ∧
          (history.engine.renderInto depth name params output).2 =
            (history'.engine.renderInto depth name params output).2 := by
  refine ⟨?_, ?_, ?_⟩
  · intro code file tokens h
    exact ⟨exists_laid h, fun front parts htexts hspaced => tokenize_relaid h htexts hspaced⟩
  · intro scope tokens found h
    refine ⟨Definition.definitions_filter h, Definition.exists_parts_of_definitions h, ?_⟩
    rintro parts parts' rest rfl hrest hbare
    rw [Definition.definitions_recommented hbare hrest, h]
  · intro σ history history' h
    have halike := Engine.Alike.history h
    exact ⟨halike.registry.names, fun _ _ hcode fileName fileName' => (halike.compile hcode fileName fileName').2,
      halike.renderInto⟩

/-- A reference between a literal and a dot that touch it; and comments and blank in and around a call, in a render
    that fails behind some text. -/
theorem format_unobservable_call :
    let spot (column width : Nat) : Location := ⟨0, ⟨⟨1, column⟩, ⟨1, column + width⟩⟩⟩
    let b : Def := ⟨spot 1 3, "def", by decide +kernel, spot 5 1, "b", .mk (spot 6 1)
      [.literal (spot 7 4) [(.text "v:", (spot 8 2).range)], .reference (spot 11 2) ⟨["v"], false⟩] (spot 13 1)⟩
    let arg (before after : List Comment) : Argument :=
      .mk before (spot 22 1) "v" (spot 23 1) (.reference (spot 24 2) ⟨["x"], false⟩) after
    let a (before after : List Comment) (more : List Item) : Def := ⟨spot 14 3, "def", by decide +kernel, spot 18 1,
      "a", .mk (spot 19 1) (.call (spot 20 1) "b" (spot 21 1) [] (.last (arg before after) (spot 26 1)) :: more)
        (spot 27 1)⟩
    let parts : List Part := [.definition b, .definition (a [] [] [])]
    let parts' : List Part := [.definition b, .comment ⟨default, "1"⟩,
      .definition (a [⟨default, "2"⟩] [⟨default, "3"⟩] [.comment ⟨default, "4"⟩])]
    let eof := (spot 28 0).token .eof
    let scope : CallScope := ⟨0, fun _ => false⟩
    let code := "def b\x7b~v:~@v\x7ddef a\x7bb(v:@x)\x7d"
    let code' := "def b\n\x7b~v:~ @v \x7d/*1*/def a\x7bb(/*2*/ v:@x /*3*/)/*4*/\x7d"
    let history : History Unit := ⟨true, [.compile code "a.tl"]⟩
    let history' : History Unit := ⟨true, [.compile code' "a.tl"]⟩
    let params := Value.map [("x", .map [])]
    (∃ relaid, tokenize " ~a~\t@b\r\n." 0 = .ok relaid ∧ contents relaid = contents (scan "~a~@b." 0).tokens) ∧
      (∃ found, definitions scope (parts.flatMap Part.tokens ++ [eof]) = .ok found ∧
        definitions scope (parts'.flatMap Part.tokens ++ [eof]) = .ok found ∧
        definitions scope ((parts'.flatMap Part.tokens ++ [eof]).filter Token.isOther) = .ok found) ∧
      history.Reformatted history' ∧
      (history.engine.renderInto 1 "a" params ⟨"", ()⟩).2.written = "v:" ∧
      (history'.engine.renderInto 1 "a" params ⟨"", ()⟩).2.written = "v:" := by
  intro spot b arg a parts parts' eof scope code code' history history' params
  obtain ⟨hlayout, hcomments, hrender⟩ := format_unobservable
  let laid : List Laid := [⟨['~', 'a', '~'], ['\t']⟩, ⟨['@', 'b'], ['\r', '\n']⟩, ⟨['.'], []⟩]
  have htokens : tokenize "~a~@b." 0 = .ok (scan "~a~@b." 0).tokens := by decide +kernel
  have htexts : Laid.HasTexts "~a~@b." (scan "~a~@b." 0).tokens laid := by
    unfold Laid.HasTexts
    decide +kernel
  have hspaced : Laid.Spaced [' '] laid :=
    ⟨by simp [Lexeme.isBlank], by simp [laid, Lexeme.isBlank], by simp [laid]⟩
  have hrelaid := (hlayout _ 0 _ htokens).2 _ _ htexts hspaced 0
  rw [show Laid.source [' '] laid = " ~a~\t@b\r\n." by decide +kernel] at hrelaid
  have hend : Definition.IsEnd [eof] := by
    rintro token htoken
    cases htoken
    rfl
  have hcode : tokenize code 0 = .ok (parts.flatMap Part.tokens ++ [eof]) := by decide +kernel
  have hcode' : tokenize code' 0 = .ok (scan code' 0).tokens := by decide +kernel
  have hcontents : contents (scan code' 0).tokens = contents (parts'.flatMap Part.tokens ++ [eof]) := by
    decide +kernel
  have hreformatted : Reformatted code code' := .comments hcode hend hcode' hcontents rfl
  have hhistory : history.Reformatted history' := ⟨rfl, .cons (.compile hreformatted _ _) .nil⟩
  have hfound := @Definition.definitions_parts scope [eof] parts hend
  have hfound' := (hcomments scope _ _ hfound).2.2 parts parts' [eof] rfl hend rfl
  have hwritten : (history.engine.renderInto 1 "a" params ⟨"", ()⟩).2.written = "v:" := by decide +kernel
  refine ⟨hrelaid, ⟨_, hfound, hfound', (hcomments scope _ _ hfound').1⟩, hhistory, hwritten, ?_⟩
  rw [← ((hrender Unit history history' hhistory).2.2 1 "a" params ⟨"", ()⟩).2, hwritten]

end HtmlTemplate
