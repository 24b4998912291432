import Mathlib
import HtmlTemplate.Proofs.Grammar.Viable
import HtmlTemplate.Proofs.Session.Completed
import HtmlTemplate.Proofs.Token.Cut

/-!
# Compiles that fail

A failing compile leaves the engine as if the source had ended behind its last complete definition, and reports
the earliest error. The first part follows the definitions as they are put in, and cuts the source behind the
last of them. For the second part the automaton tells whether the tokens in front of the error are the
beginning of a source. If they are not, the first token that does not fit is blamed. If they are, only the text
behind them can be wrong: where it is not, the tokens end with the end of the source, and then no goals are left.

## Contents

* `Kept`, `ReportsEarliest` — what a failing compile keeps, and what it reports;
* `exists_kept` — the source cut behind its last complete definition;
* `Engine.defineAll_tracks`, `defineAll_cut` — definitions put in one by one;
* `Engine.reportsEarliest` — the error that comes of them and of the text;
* `Engine.compile_error` — the main statement.
-/

namespace HtmlTemplate

open Grammar

variable {σ : Type}

/-! ## What is kept, and what is reported -/

/-- Behind comments a definition comes first. -/
def StartsDefinition (tokens : List Token) : Prop :=
  ∃ (comments : List Comment) (d : Def) (more : List Token), tokens = commentTokens comments ++ (d.tokens ++ more)

/-- All the comments and definitions at the beginning of some tokens, up to the last of the definitions. -/
structure Leading (parts : List Part) (rest tokens : List Token) : Prop where
  append : tokens = parts.flatMap Part.tokens ++ rest
  rest : ¬ StartsDefinition rest
  last : parts = [] ∨ ∃ before d, parts = before ++ [.definition d]

/-- The text of a source up to the closing brace of the last definition in front of anything else than definitions
    and comments; it is empty if there is none. -/
def Kept (code : String) (file : Nat) (kept : String) : Prop :=
  kept.toList <+: code.toList ∧
    ∃ (parts : List Part) (rest : List Token) (eof : Location), Leading parts rest (scan code file).tokens ∧
      scan kept file = ⟨parts.flatMap Part.tokens ++ [eof.token .eof], none⟩ ∧
      (parts = [] ∧ kept = "" ∨ parts ≠ [] ∧ ∃ front, kept.toList = front ++ ['}'])

/-- Where the tokens in front of a fault of the text are the beginning of no source, the first one that does not
    fit is blamed, and otherwise the fault of the text is. All the tokens end in front of that fault. -/
structure ReportsEarliest (found : Scan) (cause : Cause) : Prop where
  ofTokens : ¬ Viable found.tokens →
    ∃ fault token, cause = .parse (.fault fault token) ∧ FirstMisfit found.tokens token
  ofText : Viable found.tokens →
    ∃ fault place, found.error = some (.fault fault place) ∧ cause = .scan (.fault fault place)
  inFront : ∀ fault place, found.error = some (.fault fault place) →
    ∀ token ∈ found.tokens, token.range.stop ≤ place.range.start

/-! ## Cutting the source -/

theorem scan_empty (file : Nat) : scan "" file = ⟨[⟨.eof, ⟨Position.first, Position.first⟩, file⟩], none⟩ := by
  unfold scan
  rw [String.toList_empty, List.dropWhile_nil, lexemes]
  rfl

/-- The source can be cut behind the last of the definitions at its beginning. -/
theorem exists_kept {code : String} {file : Nat} {parts : List Part} {rest : List Token}
    (h : Leading parts rest (scan code file).tokens) :
    ∃ (kept : String) (eof : Location), kept.toList <+: code.toList ∧
      scan kept file = ⟨parts.flatMap Part.tokens ++ [eof.token .eof], none⟩ ∧
      (parts = [] ∧ kept = "" ∨ parts ≠ [] ∧ ∃ front, kept.toList = front ++ ['}']) := by
  obtain ⟨happend, -, hlast⟩ := h
  rcases hlast with rfl | ⟨before, d, rfl⟩
  · exact ⟨"", ⟨file, ⟨.first, .first⟩⟩, List.nil_prefix, scan_empty file, .inl ⟨rfl, rfl⟩⟩
  · obtain ⟨front, rbrace, hd⟩ := d.tokens_eq_append
    have hparts : (before ++ [Part.definition d]).flatMap Part.tokens =
        (before.flatMap Part.tokens ++ front) ++ [rbrace.token .rbrace] := by
      rw [List.flatMap_append, List.flatMap_singleton, Part.tokens, hd, List.append_assoc]
    have htokens : (scan code file).tokens =
        (before.flatMap Part.tokens ++ front) ++ rbrace.token .rbrace :: rest := by
      rw [happend, hparts, List.append_assoc, List.singleton_append]
    have heof : (rbrace.token .rbrace).kind ≠ .eof := by simp
    obtain ⟨kept, hfront, hstop, hscan⟩ := scan_cut htokens heof
    refine ⟨kept, ⟨file, rbrace.range.stop, rbrace.range.stop⟩, hfront, ?_, .inr ⟨by simp, ?_⟩⟩
    · rw [hscan, hparts, List.append_assoc _ [_] [_]]
      rfl
    · have hmem : rbrace.token .rbrace ∈ (scan code file).tokens := by
        rw [htokens]
        exact List.mem_append_right _ List.mem_cons_self
      obtain ⟨-, ahead, ⟨kind, text, blank⟩, hcovers, hkind, hspelled, -⟩ := covers_of_mem_scan hmem heof
      cases kind with
      | rbrace =>
        obtain rfl : text = ['}'] := hspelled
        -- The text is cut where the brace ends, so its last character is the brace.
        refine ⟨ahead, Position.eq_of_after_eq hfront hcovers.isPrefix ?_⟩
        rw [hstop, hcovers.stop, hcovers.start, Position.after_append]
      | _ => cases hkind

namespace Engine

/-! ## Definitions put in one by one -/

/-- The end of reading with an error or without. -/
def ending : Option SyntaxError → Reading Unit
  | none => .ok () []
  | some error => .error error []

theorem defineAll_tracks (file : Nat) {bound : Nat} (engine : Engine σ) {tokens : List Token}
    (hbound : tokens.length ≤ bound) :
    Tracks [.source] [] tokens (ending (defineAll file bound engine tokens).2) := by
  induction bound generalizing engine tokens with
  | zero =>
    rw [List.eq_nil_of_length_eq_zero (Nat.le_zero.mp hbound)]
    exact .doneAtEnd () [.source] []
  | succ bound ih =>
    have hnext := Definition.nextDefinition_tracks ⟨file, engine.registry.isInternal⟩ tokens
    unfold defineAll
    cases hfound : Definition.nextDefinition ⟨file, engine.registry.isInternal⟩ tokens with
    | ok found rest =>
      rw [hfound] at hnext
      cases found with
      | none =>
        obtain ⟨left, hrun⟩ := hnext.exists_run
        exact .of_run () hrun
      | some definition =>
        have hlength := Definition.length_lt_of_nextDefinition hfound
        exact hnext.trans (ih (engine.define definition.name definition.body) (by omega))
    | error error rest =>
      rw [hfound] at hnext
      exact hnext

theorem defineAll_eof (file : Nat) (engine : Engine σ) (eof : Location) {bound : Nat} (hbound : 0 < bound) :
    defineAll file bound engine [eof.token .eof] = (engine, none) := by
  obtain ⟨bound, rfl⟩ := Nat.exists_eq_succ_of_ne_zero hbound.ne'
  rfl

/-- The comments and definitions at the beginning of some tokens come to the same as all of the tokens. -/
def CutsAtLast (file bound : Nat) (engine : Engine σ) (tokens : List Token) : Prop :=
  ∃ (parts : List Part) (rest : List Token), Leading parts rest tokens ∧
    ∀ (eof : Location) (enough : Nat), (parts.flatMap Part.tokens).length < enough →
      defineAll file enough engine (parts.flatMap Part.tokens ++ [eof.token .eof]) =
        ((defineAll file bound engine tokens).1, none)

theorem cutsAtLast_nil {file bound : Nat} {engine : Engine σ} {tokens : List Token}
    (hengine : (defineAll file bound engine tokens).1 = engine)
    (hnext : ∀ definition rest, Definition.nextDefinition ⟨file, engine.registry.isInternal⟩ tokens ≠
      .ok (some definition) rest) : CutsAtLast file bound engine tokens := by
  refine ⟨[], tokens, ⟨rfl, ?_, .inl rfl⟩, ?_⟩
  · rintro ⟨comments, d, more, rfl⟩
    exact hnext _ _ (Definition.nextDefinition_eq_some.mpr ⟨comments, d, rfl, rfl⟩)
  · intro eof enough henough
    rw [hengine]
    exact defineAll_eof file engine eof henough

theorem cutsAtLast_cons {file bound : Nat} {engine : Engine σ} {tokens rest : List Token} {definition : Definition}
    (hnext : Definition.nextDefinition ⟨file, engine.registry.isInternal⟩ tokens = .ok (some definition) rest)
    (hrest : CutsAtLast file bound (engine.define definition.name definition.body) rest) :
    CutsAtLast file (bound + 1) engine tokens := by
  obtain ⟨parts, behind, ⟨rfl, hbehind, hlast⟩, hcut⟩ := hrest
  obtain ⟨comments, d, rfl, hd⟩ := Definition.nextDefinition_eq_some.mp hnext
  refine ⟨commentParts comments ++ .definition d :: parts, behind, ⟨?_, hbehind, .inr ?_⟩, ?_⟩
  · simp only [List.flatMap_append, tokens_commentParts, List.flatMap_cons, Part.tokens, List.append_assoc]
  · rcases hlast with rfl | ⟨before, last, rfl⟩
    · exact ⟨commentParts comments, d, rfl⟩
    · exact ⟨commentParts comments ++ .definition d :: before, last, by simp⟩
  · intro eof enough henough
    obtain ⟨enough, rfl⟩ := Nat.exists_eq_succ_of_ne_zero (Nat.ne_zero_of_lt henough)
    -- The first definition is read again: which names are internal is the same, and so is its target.
    have hagain : Definition.nextDefinition ⟨file, engine.registry.isInternal⟩
        (commentTokens comments ++ (d.tokens ++ (parts.flatMap Part.tokens ++ [eof.token .eof]))) =
          .ok (some definition) (parts.flatMap Part.tokens ++ [eof.token .eof]) :=
      Definition.nextDefinition_eq_some.mpr ⟨comments, d, rfl, hd⟩
    have hlength : 0 < d.tokens.length := List.length_pos_iff.mpr d.tokens_ne_nil
    simp only [List.flatMap_append, tokens_commentParts, List.flatMap_cons, Part.tokens, List.length_append,
      List.append_assoc] at henough ⊢
    unfold defineAll
    rw [hagain, hnext]
    exact hcut eof enough (by omega)

/-- **What is put in stands at the beginning**, in front of anything else than definitions and comments. -/
theorem defineAll_cut (file : Nat) {bound : Nat} (engine : Engine σ) {tokens : List Token}
    (hbound : tokens.length ≤ bound) : CutsAtLast file bound engine tokens := by
  induction bound generalizing engine tokens with
  | zero =>
    rw [List.eq_nil_of_length_eq_zero (Nat.le_zero.mp hbound)]
    exact cutsAtLast_nil rfl fun _ _ => by simp [Definition.nextDefinition]
  | succ bound ih =>
    cases hfound : Definition.nextDefinition ⟨file, engine.registry.isInternal⟩ tokens with
    | ok found rest =>
      cases found with
      | some definition =>
        have hlength := Definition.length_lt_of_nextDefinition hfound
        exact cutsAtLast_cons hfound (ih (engine.define definition.name definition.body) (by omega))
      | none =>
        apply cutsAtLast_nil
        · rw [defineAll, hfound]
        · rw [hfound]
          simp
    | error error rest =>
      apply cutsAtLast_nil
      · rw [defineAll, hfound]
      · rw [hfound]
        simp

/-! ## The error -/

/-- Where the text has no fault, a token is blamed. -/
theorem reportsEarliest_of_end {inner : List Token} {eof : Token} (heof : eof.kind = .eof)
    (hinner : ∀ token ∈ inner, token.kind ≠ .eof) {error : Option SyntaxError} {cause : Cause}
    (htracks : Tracks [.source] [] (inner ++ [eof]) (ending error)) (h : firstError error none = some cause) :
    ReportsEarliest ⟨inner ++ [eof], none⟩ cause := by
  cases error with
  | none => cases h
  | some error =>
    cases error with
    | fault fault token =>
      cases h
      have hviable := not_viable_of_run htracks
      refine ⟨fun _ => ⟨fault, token, rfl, ?_⟩, fun hv => absurd hv hviable, fun _ _ herror => by cases herror⟩
      apply Explains.firstMisfit _ htracks
      rw [List.dropLast_concat]
      exact hinner
    | endOfTokens file =>
      -- Behind the end of the source there are no goals left.
      obtain ⟨left, hleft, hrun⟩ := htracks
      exact absurd (left_eq_nil_of_run_eof heof hinner hrun) hleft

/-- Where the text has a fault, it is blamed if the tokens in front can be gone on with. -/
theorem reportsEarliest_of_fault {tokens : List Token} {fault : ScanFault} {place : Location}
    (htokens : ∀ token ∈ tokens, token.kind ≠ .eof) (hstop : ∀ token ∈ tokens, token.range.stop ≤ place.range.start)
    {error : Option SyntaxError} {cause : Cause} (htracks : Tracks [.source] [] tokens (ending error))
    (h : firstError error (some (.fault fault place)) = some cause) :
    ReportsEarliest ⟨tokens, some (.fault fault place)⟩ cause := by
  have hfront : ∀ fault' place', some (ScanError.fault fault place) = some (.fault fault' place') →
      ∀ token ∈ tokens, token.range.stop ≤ place'.range.start := by
    intro fault' place' herror
    cases herror
    exact hstop
  have htext : (∃ left, run [.source] tokens = .ok left) → cause = .scan (.fault fault place) →
      ReportsEarliest ⟨tokens, some (.fault fault place)⟩ cause := by
    rintro ⟨left, hrun⟩ rfl
    have hviable := viable_of_run htokens hrun
    exact ⟨fun hn => absurd hviable hn, fun _ => ⟨fault, place, rfl, rfl⟩, hfront⟩
  cases error with
  | none =>
    cases h
    exact htext htracks.exists_run rfl
  | some error =>
    cases error with
    | fault fault' token =>
      cases h
      have hviable := not_viable_of_run htracks
      refine ⟨fun _ => ⟨fault', token, rfl, ?_⟩, fun hv => absurd hv hviable, hfront⟩
      exact Explains.firstMisfit (fun token htoken => htokens token (List.mem_of_mem_dropLast htoken)) htracks
    | endOfTokens file =>
      cases h
      obtain ⟨left, -, hrun⟩ := htracks
      exact htext ⟨left, hrun⟩ rfl

/-- **The earliest error is reported.** -/
theorem reportsEarliest {code : String} {file : Nat} {error : Option SyntaxError} {cause : Cause}
    (htracks : Tracks [.source] [] (scan code file).tokens (ending error))
    (h : firstError error (scan code file).error = some cause) : ReportsEarliest (scan code file) cause := by
  rcases scan_eq code file with ⟨inner, eof, hscan, hinner⟩ | ⟨tokens, fault, place, hscan, htokens, hstop⟩
  · rw [hscan] at htracks h ⊢
    exact reportsEarliest_of_end rfl hinner htracks h
  · rw [hscan] at htracks h ⊢
    exact reportsEarliest_of_fault htokens hstop htracks h

/-! ## Failing compiles -/

theorem compile_eq_error {engine : Engine σ} {code fileName : String} {diagnostic : Diagnostic}
    (h : (engine.compile code fileName).2 = .error diagnostic) :
    firstError (defineAll engine.sources.size (scan code engine.sources.size).tokens.length
      (engine.addSource code fileName) (scan code engine.sources.size).tokens).2
      (scan code engine.sources.size).error = some diagnostic.cause := by
  unfold compile at h
  dsimp only at h
  split at h
  · cases h
  · rename_i cause hcause
    cases h
    rw [Diagnostic.cause_ofCause]
    exact hcause

/-- Sources that were added already do not matter for what is put in. -/
theorem defineAll_addSource (file bound : Nat) (engine : Engine σ) (tokens : List Token) (sources : Sources) :
    defineAll file bound { engine with sources } tokens =
      ({ (defineAll file bound engine tokens).1 with sources }, (defineAll file bound engine tokens).2) := by
  induction bound generalizing engine tokens with
  | zero => rfl
  | succ bound ih =>
    unfold defineAll
    cases Definition.nextDefinition ⟨file, engine.registry.isInternal⟩ tokens with
    | ok found rest =>
      cases found with
      | none => rfl
      | some definition => exact ih (engine.define definition.name definition.body) rest
    | error error rest => rfl

/-- **A failing compile keeps the complete definitions and reports the earliest error.** There is a text, cut
    from the source behind the last complete definition in front of the error, whose compile succeeds on the same
    engine and leaves the same engine but for the source that was added. What is reported is the first token
    behind which the source cannot go on, or else a fault of the text behind the tokens; that the source or its
    tokens end too early is never reported. -/
theorem compile_error (engine : Engine σ) (code fileName : String) {diagnostic : Diagnostic}
    (h : (engine.compile code fileName).2 = .error diagnostic) :
    (∃ kept, Kept code engine.sources.size kept ∧ ∀ keptName,
      engine.compile kept keptName =
        ({ (engine.compile code fileName).1 with sources := engine.sources.add ⟨keptName, kept⟩ }, .ok ())) ∧
    (engine.compile code fileName).1.sources = engine.sources.add ⟨fileName, code⟩ ∧
    ReportsEarliest (scan code engine.sources.size) diagnostic.cause ∧
    ∀ file, diagnostic.cause ≠ .scan (.endOfSource file) ∧ diagnostic.cause ≠ .parse (.endOfTokens file) := by
  -- The sources have no bearing on what is put in, so both compiles are compared without them.
  have herror := compile_eq_error h
  have hfst := compile_fst_eq_defineAll engine code fileName
  unfold addSource at herror hfst
  rw [defineAll_addSource] at herror hfst
  have hreports := reportsEarliest (defineAll_tracks engine.sources.size engine (Nat.le_refl _)) herror
  refine ⟨?_, ?_, hreports, ?_⟩
  · obtain ⟨parts, rest, hleading, hcut⟩ := defineAll_cut engine.sources.size engine
      (Nat.le_refl (scan code engine.sources.size).tokens.length)
    obtain ⟨kept, eof, hfront, hscan, hends⟩ := exists_kept hleading
    refine ⟨kept, ⟨hfront, parts, rest, eof, hleading, hscan, hends⟩, fun keptName => ?_⟩
    have hkept := hcut eof (parts.flatMap Part.tokens ++ [eof.token .eof]).length (by simp)
    rw [hfst]
    unfold compile
    dsimp only
    rw [hscan, defineAll_addSource, hkept]
    rfl
  · rw [hfst]
  · intro file
    by_cases hviable : Viable (scan code engine.sources.size).tokens
    · obtain ⟨fault, place, -, hcause⟩ := hreports.ofText hviable
      rw [hcause]
      simp
    · obtain ⟨fault, token, hcause, -⟩ := hreports.ofTokens hviable
      rw [hcause]
      simp

/-- A definition and a parenthesis that nothing opens, in front of a comment that nothing closes. The parenthesis
    is blamed, and the definition is kept. -/
theorem compile_error_parenthesis :
    ∃ diagnostic, ((Engine.new true : Engine Unit).compile "def a \x7b\x7d ) /*" "a.tl").2 = .error diagnostic ∧
      diagnostic.cause = .parse (.fault .expectedDefinition ⟨.rparen, ⟨⟨1, 10⟩, ⟨1, 11⟩⟩, 0⟩) ∧
      ((∃ kept, Kept "def a \x7b\x7d ) /*" 0 kept ∧ ∀ keptName, (Engine.new true : Engine Unit).compile kept keptName =
        ({ ((Engine.new true : Engine Unit).compile "def a \x7b\x7d ) /*" "a.tl").1 with
          sources := Sources.empty.add ⟨keptName, kept⟩ }, .ok ())) ∧
      ((Engine.new true : Engine Unit).compile "def a \x7b\x7d ) /*" "a.tl").1.sources =
        Sources.empty.add ⟨"a.tl", "def a \x7b\x7d ) /*"⟩ ∧
      ReportsEarliest (scan "def a \x7b\x7d ) /*" 0) diagnostic.cause ∧
      ∀ file, diagnostic.cause ≠ .scan (.endOfSource file) ∧ diagnostic.cause ≠ .parse (.endOfTokens file)) := by
  have herror : ((Engine.new true : Engine Unit).compile "def a \x7b\x7d ) /*" "a.tl").2 =
      .error ⟨.parse (.fault .expectedDefinition ⟨.rparen, ⟨⟨1, 10⟩, ⟨1, 11⟩⟩, 0⟩), some "a.tl", "def a \x7b\x7d ) /*",
        ⟨9, 1⟩, some ⟨1, 10⟩⟩ := by
    cbv
  exact ⟨_, herror, rfl, compile_error (Engine.new true) _ "a.tl" herror⟩

end Engine

end HtmlTemplate
