import HtmlTemplate.Proofs.Session.FailedCompile
import HtmlTemplate.Proofs.Session.Joined
import HtmlTemplate.Proofs.Token.Faults

/-!
# Errors stand on the text that is malformed

What is underlined in a source that is rejected is a piece of the source. For a token it is the text of its lexeme, and
for a fault of the text it is one character, with which the construct begins that is at fault. Only the end of the
source has no text, and there a single byte behind it is underlined.

Every range that is reported covers a text of the source (`Range.Covers`), and this alone gives the offset of its
position and the boundaries of characters (`Diagnostic.placedIn_of_covers`). It remains to find the text: among the
lexemes for a token (`exists_lexeme_of_mem_scan`), and at the beginning of what is not read for a fault
(`covers_of_scan_error`).

## Contents

* `Span.Marks` — a piece of a source that is underlined;
* `ScanFault.opening`, `FaultAt.exists_opening` — what stands at the place that a fault is blamed on;
* `Underlines`, `Diagnostic.PlacedIn` — what is underlined for each error, and how it is placed;
* `Rejects` — a source that is not read or not compiled;
* `Rejects.placedIn` — the main statement.
-/

namespace HtmlTemplate

variable {σ : Type}

/-! ## Pieces of a source -/

/-- The span is the place of a text, behind `front`, in a source. -/
structure Span.Marks (span : Span) (code : String) (front text : List Char) : Prop where
  isPrefix : front ++ text <+: code.toList
  start : span.start = Position.byteLength front
  length : span.length = Position.byteLength text
  bytes : span.bytes code = (String.ofList text).toByteArray

theorem Range.Covers.marks {range : Range} {code : String} {front text : List Char} (h : range.Covers code front text)
    (htext : text ≠ []) : (range.span code).Marks code front text := by
  have hbytes := h.bytes_span htext
  rw [h.span_eq htext] at hbytes ⊢
  exact ⟨h.isPrefix, rfl, rfl, hbytes⟩

/-- Behind some characters of a source there is a boundary of characters. -/
theorem isValid_of_isPrefix {code : String} {front : List Char} (h : front <+: code.toList) :
    String.Pos.Raw.IsValid code ⟨Position.byteLength front⟩ := by
  obtain ⟨more, hcode⟩ := h
  rw [String.Pos.Raw.isValid_iff_exists_append]
  refine ⟨String.ofList front, String.ofList more, ?_, ?_⟩
  · apply String.toList_injective
    simp [← hcode]
  · rw [String.Pos.Raw.ext_iff]
    show Position.byteLength front = (String.ofList front).toByteArray.size
    rw [String.toByteArray_ofList, size_utf8Encode]

theorem byteLength_toList (code : String) : Position.byteLength code.toList = code.utf8ByteSize := by
  rw [← size_utf8Encode, String.utf8Encode_toList]
  rfl

/-! ## What is underlined -/

/-- The characters at the place that a fault of the text is blamed on: the one that is unexpected, or those with which
    the construct begins. -/
def ScanFault.opening : ScanFault → List Char
  | .unexpectedCharacter c => [c]
  | .unterminatedComment => ['/', '*']
  | .unterminatedLiteral => ['~']
  | .unterminatedQuote => ['"']
  | .invalidReference => ['@']

/-- What is underlined for an error in the source with this number. For a token it is the text of its lexeme, for the
    end of the source a byte behind it, and for a fault the first character at the place that is blamed. -/
def Underlines (code : String) (file : Nat) (span : Span) : Cause → Prop
  | .parse (.fault _ token) =>
    token ∈ (scan code file).tokens ∧
      (token.kind = .eof → span = ⟨code.utf8ByteSize, 1⟩) ∧
      (token.kind ≠ .eof → ∃ before lexeme after,
        (lexemes (code.toList.dropWhile Lexeme.isBlank)).1 = before ++ lexeme :: after ∧
        token.kind = lexeme.kind.layOut token.range.start ∧
        span.Marks code (code.toList.takeWhile Lexeme.isBlank ++ before.flatMap Lexeme.chars) lexeme.text)
  | .scan (.fault fault _) =>
    ∃ u skipped c more, code.toList = u ++ (skipped ++ c :: more) ∧ FaultAt (skipped ++ c :: more) fault skipped ∧
      fault.opening <+: c :: more ∧ span.Marks code (u ++ skipped) [c]
  | _ => False

/-- The diagnostic points into the source with this number: from the byte at its position on, between boundaries of
    characters, its span underlines what the cause is about. -/
structure Diagnostic.PlacedIn (diagnostic : Diagnostic) (code : String) (file : Nat) : Prop where
  source : diagnostic.source = code
  position : ∃ front, front <+: code.toList ∧ diagnostic.position = some (Position.first.after front) ∧
    diagnostic.span.start = (Position.first.after front).offset code
  start_isValid : String.Pos.Raw.IsValid code ⟨diagnostic.span.start⟩
  /-- At the end of a source the span runs one byte over it. -/
  stop_isValid : String.Pos.Raw.IsValid code
    ⟨min (diagnostic.span.start + diagnostic.span.length) code.utf8ByteSize⟩
  underlines : Underlines code file diagnostic.span diagnostic.cause

/-! ## From ranges to diagnostics -/

/-- A range that covers a text of the source, or that is empty at its end, is placed in it. -/
theorem Diagnostic.placedIn_of_covers {cause : Cause} {sources : Sources} {code : String} {file : Nat} {range : Range}
    {front text : List Char} (horigin : cause.origin = some (file, some range)) (hcode : sources.code file = code)
    (hcovers : range.Covers code front text) (htext : text = [] → front = code.toList)
    (hunderlines : Underlines code file (range.span code) cause) :
    (Diagnostic.ofCause cause sources).PlacedIn code file := by
  have hplaced : Diagnostic.ofCause cause sources =
      ⟨cause, sources.name file, code, range.span code, some range.start⟩ := by
    unfold Diagnostic.ofCause
    rw [horigin, ← hcode]
  have hstart : (range.span code).start = Position.byteLength front := hcovers.offset_start
  have hfront : front <+: code.toList := (List.prefix_append front text).trans hcovers.isPrefix
  rw [hplaced]
  refine ⟨rfl, ⟨front, hfront, congrArg some hcovers.start, ?_⟩, ?_, ?_, hunderlines⟩
  · rw [← hcovers.start]
    rfl
  · show String.Pos.Raw.IsValid code ⟨(range.span code).start⟩
    rw [hstart]
    exact isValid_of_isPrefix hfront
  · show String.Pos.Raw.IsValid code ⟨min ((range.span code).start + (range.span code).length) code.utf8ByteSize⟩
    rw [hstart]
    by_cases hempty : text = []
    · rw [htext hempty, byteLength_toList, Nat.min_eq_right (Nat.le_add_right _ _), ← byteLength_toList]
      exact isValid_of_isPrefix (List.prefix_refl _)
    · obtain ⟨more, hmore⟩ := hcovers.isPrefix
      have hle : Position.byteLength (front ++ text) ≤ code.utf8ByteSize := by
        rw [← byteLength_toList, ← hmore, Position.byteLength_append (front ++ text)]
        exact Nat.le_add_right _ _
      rw [hcovers.span_eq hempty, ← Position.byteLength_append, Nat.min_eq_left hle]
      exact isValid_of_isPrefix hcovers.isPrefix

/-! ## Tokens -/

/-- The end of a source stands behind all of its text. -/
theorem range_of_mem_scan {code : String} {file : Nat} {token : Token} (h : token ∈ (scan code file).tokens)
    (heof : token.kind = .eof) : token.file = file ∧ token.range.Covers code code.toList [] := by
  unfold scan at h
  dsimp only at h
  split at h
  · rename_i hfault
    rcases List.mem_append.mp h with hmem | hlast
    · exact absurd heof (ne_eof_of_mem_tokens hmem)
    · rw [List.mem_singleton.mp hlast]
      refine ⟨rfl, by simp, ?_, rfl⟩
      rw [Lexeme.behind_eq_after, lexemes_eq_of_no_fault hfault, ← Position.after_append,
        List.takeWhile_append_dropWhile]
  · exact absurd heof (ne_eof_of_mem_tokens h)

theorem placedIn_of_token {code : String} {file : Nat} {sources : Sources} (hcode : sources.code file = code)
    {fault : SyntaxFault} {token : Token} (h : token ∈ (scan code file).tokens) :
    (Diagnostic.ofCause (.parse (.fault fault token)) sources).PlacedIn code file := by
  by_cases heof : token.kind = .eof
  · obtain ⟨rfl, hcovers⟩ := range_of_mem_scan h heof
    refine Diagnostic.placedIn_of_covers rfl hcode hcovers (fun _ => rfl) ⟨h, fun _ => ?_, fun hne => absurd heof hne⟩
    unfold Range.span
    rw [hcovers.offset_start, hcovers.offset_stop, byteLength_toList]
    simp [Position.byteLength]
  · obtain ⟨rfl, before, lexeme, after, hfound, hkind, hcovers⟩ := exists_lexeme_of_mem_scan h heof
    have hmem : lexeme ∈ (lexemes (code.toList.dropWhile Lexeme.isBlank)).1 := by
      rw [hfound]
      exact List.mem_append_right _ List.mem_cons_self
    have hne : lexeme.text ≠ [] := (lexemes_spelledBy hmem).2
    exact Diagnostic.placedIn_of_covers rfl hcode hcovers (fun hempty => absurd hempty hne)
      ⟨h, fun hend => absurd hend heof, fun _ => ⟨before, lexeme, after, hfound, hkind, hcovers.marks hne⟩⟩

/-! ## Faults of the text -/

/-- The construct that is at fault begins at the place that is blamed, and not with the end of a line. -/
theorem FaultAt.exists_opening {v skipped : List Char} {cause : ScanFault} (h : FaultAt v cause skipped)
    (hhead : ∀ c ∈ v.head?, Lexeme.isBlank c = false) :
    ∃ c more, v = skipped ++ c :: more ∧ cause.opening <+: c :: more ∧ c ≠ '\n' := by
  cases h with
  | @comment cs => exact ⟨'/', '*' :: cs, rfl, ⟨cs, rfl⟩, by decide⟩
  | @reference cs => exact ⟨'@', cs, rfl, ⟨cs, rfl⟩, by decide⟩
  | @referenceInLiteral content cs => exact ⟨'@', cs, rfl, ⟨cs, rfl⟩, by decide⟩
  | @literal content tail => exact ⟨'~', content ++ tail, rfl, ⟨_, rfl⟩, by decide⟩
  | @quote content tail => exact ⟨'"', content ++ tail, rfl, ⟨_, rfl⟩, by decide⟩
  | @other c cs =>
    refine ⟨c, cs, rfl, ⟨cs, rfl⟩, ?_⟩
    rintro rfl
    exact absurd (hhead '\n' rfl) (by decide)

theorem covers_oneColumn {code : String} {front more : List Char} {c : Char} (hcode : code.toList = front ++ c :: more)
    (hc : c ≠ '\n') : (Position.first.after front).oneColumn.Covers code front [c] := by
  refine ⟨⟨more, ?_⟩, rfl, ?_⟩
  · rw [hcode, List.append_assoc, List.singleton_append]
  · show _ = (Position.first.after front).next c
    rw [Position.next, if_neg hc]
    rfl

theorem placedIn_of_scan {code : String} {file : Nat} {sources : Sources} (hcode : sources.code file = code)
    {error : ScanError} (h : (scan code file).error = some error) :
    (Diagnostic.ofCause (.scan error) sources).PlacedIn code file := by
  cases hfault : (lexemes (code.toList.dropWhile Lexeme.isBlank)).2 with
  | none =>
    simp only [scan, hfault] at h
    cases h
  | some fault =>
    obtain ⟨u, c, v, hchars, hc, hlexeme, hscan, -⟩ := scan_of_fault file hfault
    rw [hscan] at h
    cases h
    have hat : FaultAt (c :: v) fault.cause fault.skipped := Lexeme.lexeme_eq_error.mp hlexeme
    obtain ⟨first, more, hv, hopening, hfirst⟩ := hat.exists_opening (Lexeme.stops_cons hc)
    rw [hv] at hchars hat
    have hcovers := covers_oneColumn (hchars.trans (List.append_assoc u _ _).symm) hfirst
    exact Diagnostic.placedIn_of_covers rfl hcode hcovers (fun hempty => absurd hempty (List.cons_ne_nil _ _))
      ⟨u, fault.skipped, first, more, hchars, hat, hopening, hcovers.marks (List.cons_ne_nil _ _)⟩

/-! ## The main statement -/

/-- The source with this number is rejected, by a compile or already by its reader. -/
inductive Rejects (code : String) : (file : Nat) → Diagnostic → Prop where
  | compile {σ : Type} (engine : Engine σ) (fileName : String) {diagnostic : Diagnostic}
    (fails : (engine.compile code fileName).2 = .error diagnostic) : Rejects code engine.sources.size diagnostic
  | tokenize {file : Nat} {error : ScanError} (fails : tokenize code file = .error error) {sources : Sources}
    (source : sources.code file = code) : Rejects code file (.ofCause (.scan error) sources)

theorem code_add (sources : Sources) (fileName code : String) :
    (sources.add ⟨fileName, code⟩).code sources.size = code := by
  unfold Sources.code
  rw [Sources.get?_add_self]
  rfl

theorem mem_of_firstMisfit {tokens : List Token} {token : Token} (h : Grammar.FirstMisfit tokens token) :
    token ∈ tokens := by
  obtain ⟨before, after, rfl, -⟩ := h
  exact List.mem_append_right _ List.mem_cons_self

/-- **Errors stand on the text that is malformed.** -/
theorem Rejects.placedIn {code : String} {file : Nat} {diagnostic : Diagnostic} (h : Rejects code file diagnostic) :
    diagnostic.PlacedIn code file := by
  cases h with
  | compile engine fileName fails =>
    have hreports := Engine.reportsEarliest
      (Engine.defineAll_tracks engine.sources.size (engine.addSource code fileName) (Nat.le_refl _))
      (Engine.compile_eq_error fails)
    rw [Engine.compile_eq engine code fileName rfl rfl] at fails
    dsimp only at fails
    split at fails
    · cases fails
    · rename_i cause hcause
      cases fails
      rw [Diagnostic.cause_ofCause] at hreports
      have hcode := code_add engine.sources fileName code
      by_cases hviable : Grammar.Viable (scan code engine.sources.size).tokens
      · obtain ⟨fault, place, hscan, rfl⟩ := hreports.ofText hviable
        exact placedIn_of_scan hcode hscan
      · obtain ⟨fault, token, rfl, hmisfit⟩ := hreports.ofTokens hviable
        exact placedIn_of_token hcode (mem_of_firstMisfit hmisfit)
  | tokenize fails source =>
    apply placedIn_of_scan source
    unfold HtmlTemplate.tokenize at fails
    split at fails
    · cases fails
    · rename_i other hother
      cases fails
      exact hother

/-- Behind characters of several bytes and an end of line of two characters, one more such character that no token
    starts with is underlined as a whole. -/
theorem Rejects.placedIn_accent :
    let code := "/*\u00e9*/\r\ndef a \x7b\x7d \u00e9"
    ∃ diagnostic, ((Engine.new true : Engine Unit).compile code "a.tl").2 = .error diagnostic ∧
      diagnostic.span = ⟨17, 2⟩ ∧ diagnostic.position = some ⟨2, 10⟩ ∧ diagnostic.PlacedIn code 0 := by
  have herror : ((Engine.new true : Engine Unit).compile "/*\u00e9*/\r\ndef a \x7b\x7d \u00e9" "a.tl").2 =
      .error ⟨.scan (.fault (.unexpectedCharacter '\u00e9') ⟨0, ⟨⟨2, 10⟩, ⟨2, 11⟩⟩⟩), some "a.tl",
        "/*\u00e9*/\r\ndef a \x7b\x7d \u00e9", ⟨17, 2⟩, some ⟨2, 10⟩⟩ := by
    cbv
  exact ⟨_, herror, rfl, rfl, Rejects.placedIn (.compile (Engine.new true) "a.tl" herror)⟩

end HtmlTemplate
