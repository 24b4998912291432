import HtmlTemplate.Proofs.Alike.Trees
import HtmlTemplate.Token.Scan

/-!
# One text at two places

What the tokens of a text say does not depend on where the text stands: on the number of its source, and on what lies
in front of it there. So a text that is read at two places gives tokens that are alike, and stops at the same fault
(`scanFrom_alike`).

## Contents

* `ScanError.Alike`, `Scan.Alike` — results that differ in places only;
* `Position.InStep` — walking over the same characters from two places;
* `scanFrom`, `scanFrom_alike` — the tokens of a text from some place on;
* `scan_renumbered`, `scan_alike` — a text in two sources, and its tokens.
-/

namespace HtmlTemplate

/-- The errors are the same, but for their places. -/
inductive ScanError.Alike (place : Location → Location → Prop) : ScanError → ScanError → Prop where
  | fault (cause : ScanFault) {location location' : Location} (hplace : place location location') :
    Alike place (.fault cause location) (.fault cause location')
  | endOfSource (file file' : Nat) : Alike place (.endOfSource file) (.endOfSource file')

/-- The tokens say the same, and so does the fault that ended them if there is one. -/
structure Scan.Alike (place : Location → Location → Prop) (found found' : Scan) : Prop where
  tokens : List.Forall₂ (Token.Alike place) found.tokens found'.tokens
  error : Option.Rel (ScanError.Alike place) found.error found'.error

/-- Places in two sources that are kept by walking over the same characters, and that give ranges which may stand for
    one another. -/
structure Position.InStep (place : Location → Location → Prop) (file file' : Nat)
    (step : Position → Position → Prop) : Prop where
  next : ∀ p p' c, step p p' → step (p.next c) (p'.next c)
  range : ∀ p p' q q', step p p' → step q q' → place ⟨file, ⟨p, q⟩⟩ ⟨file', ⟨p', q'⟩⟩

variable {place : Location → Location → Prop} {file file' : Nat} {step : Position → Position → Prop}
variable {start start' : Position}

theorem Position.InStep.after (h : InStep place file file' step) (hstart : step start start') (cs : List Char) :
    step (start.after cs) (start'.after cs) := by
  induction cs generalizing start start' with
  | nil => exact hstart
  | cons c cs ih => exact ih (h.next start start' c hstart)

/-- The range of one column is that of a blank. -/
theorem Position.InStep.oneColumn (h : InStep place file file' step) (hstart : step start start') :
    place ⟨file, start.oneColumn⟩ ⟨file', start'.oneColumn⟩ :=
  h.range _ _ _ _ hstart (h.next start start' ' ' hstart)

/-! ## Lexemes -/

/-- Segments are laid out in step. -/
theorem layOut_alike (h : Position.InStep place file file' step) (hstart : step start start')
    (segments : List (Segment × List Char)) :
    List.Forall₂ (fun segment segment' => segment.1 = segment'.1 ∧ place ⟨file, segment.2⟩ ⟨file', segment'.2⟩)
      (layOut start segments) (layOut start' segments) := by
  induction segments generalizing start start' with
  | nil => exact .nil
  | cons segment segments ih =>
    have hstop := h.after hstart segment.2
    exact .cons ⟨rfl, h.range _ _ _ _ hstart hstop⟩ (ih hstop)

theorem TokenKind.layOut_alike (h : Position.InStep place file file' step) (hstart : step start start')
    (kind : TokenKind (List Char)) {range range' : Range} (hplace : place ⟨file, range⟩ ⟨file', range'⟩) :
    Token.Alike place ⟨kind.layOut start, range, file⟩ ⟨kind.layOut start', range', file'⟩ := by
  cases kind with
  | literal segments => exact .literal hplace (HtmlTemplate.layOut_alike h (h.next start start' '~' hstart) segments)
  | _ => exact .other hplace nofun

/-- The lexemes of a text give tokens that say the same wherever they stand. -/
theorem Lexeme.tokens_alike (h : Position.InStep place file file' step) (hstart : step start start')
    (found : List Lexeme) :
    List.Forall₂ (Token.Alike place) (Lexeme.tokens file start found) (Lexeme.tokens file' start' found) := by
  induction found generalizing start start' with
  | nil => exact .nil
  | cons lexeme found ih =>
    have hstop := h.after hstart lexeme.text
    exact .cons (lexeme.kind.layOut_alike h hstart (h.range _ _ _ _ hstart hstop)) (ih (h.after hstop lexeme.blank))

theorem Lexeme.behind_inStep (h : Position.InStep place file file' step) (hstart : step start start')
    (found : List Lexeme) : step (Lexeme.behind start found) (Lexeme.behind start' found) := by
  induction found generalizing start start' with
  | nil => exact hstart
  | cons lexeme found ih => exact ih (h.after (h.after hstart lexeme.text) lexeme.blank)

/-! ## A whole text -/

/-- The tokens of the lexemes from some place of a source up to its end, or up to the fault behind them. -/
def scanFrom (file : Nat) (start : Position) (found : List Lexeme × Option Fault) : Scan :=
  let tokens := Lexeme.tokens file start found.1
  let behind := Lexeme.behind start found.1
  match found.2 with
  | none => ⟨tokens ++ [⟨.eof, ⟨behind, behind⟩, file⟩], none⟩
  | some fault => ⟨tokens, some (.fault fault.cause ⟨file, (behind.after fault.skipped).oneColumn⟩)⟩

theorem scan_eq_scanFrom (code : String) (file : Nat) :
    scan code file = scanFrom file (Position.first.after (code.toList.takeWhile Lexeme.isBlank))
      (lexemes (code.toList.dropWhile Lexeme.isBlank)) := rfl

/-- **A text is read alike from two places on.** -/
theorem scanFrom_alike (h : Position.InStep place file file' step) (hstart : step start start')
    (found : List Lexeme × Option Fault) : (scanFrom file start found).Alike place (scanFrom file' start' found) := by
  obtain ⟨found, fault⟩ := found
  have htokens := Lexeme.tokens_alike h hstart found
  have hbehind := Lexeme.behind_inStep h hstart found
  unfold scanFrom
  dsimp only
  cases fault with
  | none =>
    refine ⟨List.rel_append htokens (.cons (.other ?_ nofun) .nil), .none⟩
    exact h.range _ _ _ _ hbehind hbehind
  | some fault => exact ⟨htokens, .some (.fault fault.cause (h.oneColumn (h.after hbehind fault.skipped)))⟩

/-- **A text is read alike in two sources**, at the same ranges. -/
theorem scan_renumbered (code : String) (hplace : ∀ range, place ⟨file, range⟩ ⟨file', range⟩) :
    (scan code file).Alike place (scan code file') := by
  have hstep : Position.InStep place file file' Eq := by
    constructor
    · rintro p _ c rfl
      rfl
    · rintro p _ q _ rfl rfl
      exact hplace _
  rw [scan_eq_scanFrom, scan_eq_scanFrom]
  exact scanFrom_alike hstep rfl _

/-- **A text has the same tokens in two sources**, at the same ranges. -/
theorem scan_alike (code : String) (hplace : ∀ range, place ⟨file, range⟩ ⟨file', range⟩) :
    List.Forall₂ (Token.Alike place) (scan code file).tokens (scan code file').tokens :=
  (scan_renumbered code hplace).tokens

end HtmlTemplate
