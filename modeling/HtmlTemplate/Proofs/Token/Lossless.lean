import HtmlTemplate.Proofs.Token.Cut

/-!
# Tokens are the whole source

A source that has no fault is blank and the texts of its tokens in turn. Each of these texts is found again in the
bytes from the offset of the start of the token to the offset of its end, and it says what the token says:
characters behind a backslash stand for themselves, and all others too. The same holds inside a literal, whose
segments lie one behind the other from its first tilde to its last.

## Contents

* `Range.Precedes` — ranges one behind the other;
* `unescaped`, `Segment.WrittenAs`, `TokenKind.WrittenAs` — how tokens are written;
* `Tiles` — segments that lie one behind the other;
* `Written`, `Lossless` — tokens with their texts and the blank between them, and what holds of all of them;
* `Lexeme.written` — the lexemes of a source with their texts;
* `tokenize_lossless` — the main statement.
-/

namespace HtmlTemplate

/-! ## Ranges one behind the other -/

/-- The range is not empty, and `later` does not begin in front of its end. -/
structure Range.Precedes (range later : Range) (code : String) : Prop where
  start_lt : range.start < range.stop
  stop_le : range.stop ≤ later.start
  offset_lt : range.start.offset code < range.stop.offset code
  offset_le : range.stop.offset code ≤ later.start.offset code

/-- Texts one behind the other have ranges one behind the other. -/
theorem Range.Covers.precedes {range later : Range} {code : String} {front text front' text' : List Char}
    (h : range.Covers code front text) (h' : later.Covers code front' text') (htext : text ≠ [])
    (hfront : front ++ text <+: front') : range.Precedes later code where
  start_lt := by
    rw [h.stop]
    exact Position.lt_after htext range.start
  stop_le := by
    obtain ⟨between, rfl⟩ := hfront
    rw [h'.start, h.stop, h.start, ← Position.after_append, Position.after_append _ (front ++ text)]
    exact Position.le_after between _
  offset_lt := by
    rw [h.offset_start, h.offset_stop]
    have hpos := byteLength_pos htext
    omega
  offset_le := by
    obtain ⟨between, rfl⟩ := hfront
    rw [h'.offset_start, h.offset_stop, Position.byteLength_append, Position.byteLength_append]
    omega

/-! ## How tokens are written -/

/-- What a text with backslashes stands for. A backslash is left out, and the character behind it stands for
    itself, whatever it is. -/
def unescaped : List Char → List Char
  | [] => []
  | '\\' :: c :: cs => c :: unescaped cs
  | c :: cs => c :: unescaped cs

/-- The ways to write a reference: bare or in parentheses, with a tilde if its text is escaped. -/
def Reference.spellings (ref : Reference) : List String :=
  let sign := if ref.escape then "@~" else "@"
  [sign ++ Path.display ref.path, sign ++ "(" ++ Path.display ref.path ++ ")"]

/-- The segment can be written with these characters. -/
def Segment.WrittenAs (text : List Char) : Segment → Prop
  | .text content => unescaped text = content.toList
  | .reference ref => String.ofList text ∈ ref.spellings

/-- The token can be written with these characters, where `literal` is what is known about the segments of a
    literal. -/
def TokenKind.WrittenAs {α : Type} (literal : List (Segment × α) → Prop) (text : List Char) : TokenKind α → Prop
  | .literal segments => literal segments
  | .quote content => ∃ raw, text = '"' :: (raw ++ ['"']) ∧ unescaped raw = content.toList
  | .reference ref => String.ofList text ∈ ref.spellings
  | kind => text = kind.display.toList

/-- The segments lie one behind the other from `start` to `stop`, the bytes in the range of each are characters that
    it can be written with, and all these together are `text`. -/
inductive Tiles (code : String) : (start : Position) → List (Segment × Range) → (text : List Char) →
    (stop : Position) → Prop where
  | nil (start : Position) : Tiles code start [] [] start
  | cons {segment : Segment} {range : Range} {segments : List (Segment × Range)} {text more : List Char}
    {stop : Position} (nonempty : range.start < range.stop)
    (bytes : range.bytes code = (String.ofList text).toByteArray) (written : segment.WrittenAs text)
    (rest : Tiles code range.stop segments more stop) :
    Tiles code range.start ((segment, range) :: segments) (text ++ more) stop

/-- A token as it stands in a source, with the blank in front of it. -/
structure Written where
  blank : List Char
  text : List Char
  token : Token

/-- The token is written as its text says, and the segments of a literal lie between its tildes. -/
def Written.Spelled (code : String) (written : Written) : Prop :=
  written.token.kind.WrittenAs (fun segments => ∃ inner stop, written.text = '~' :: (inner ++ ['~']) ∧
    Tiles code (written.token.range.start.next '~') segments inner stop ∧
    stop.next '~' = written.token.range.stop) written.text

/-- **Tokens with their texts and the blank between them are a whole source.** -/
structure Lossless (code : String) (file : Nat) (tokens : List Token) (written : List Written) : Prop where
  /-- They are the tokens. -/
  map_token : written.map Written.token = tokens
  /-- Nothing else is in the source. -/
  chars : written.flatMap (fun part => part.blank ++ part.text) = code.toList
  blank : ∀ part ∈ written, ∀ c ∈ part.blank, Lexeme.isBlank c = true
  /-- Each text is what stands between the offsets of the token's range. -/
  bytes : ∀ part ∈ written, part.token.range.bytes code = (String.ofList part.text).toByteArray
  spelled : ∀ part ∈ written, part.Spelled code
  sameFile : ∀ part ∈ written, part.token.file = file
  ordered : tokens.Pairwise fun token later => token.range.Precedes later.range code
  /-- There is one end, it is the last token, and its range is empty. -/
  ends : ∃ (inner : List Token) (stop : Position), tokens = inner ++ [⟨.eof, ⟨stop, stop⟩, file⟩] ∧
    (∀ token ∈ inner, token.kind ≠ .eof) ∧ stop = Position.first.after code.toList ∧
    stop.offset code = code.utf8ByteSize

/-! ## What the readers of texts read -/

namespace Lexeme

variable {cs : List Char}

theorem unescaped_escapedRun (stop : Char → Bool) (cs : List Char) :
    unescaped (escapedRun stop cs).text = (escapedRun stop cs).value := by
  fun_induction escapedRun stop cs with
  | case1 | case3 => rfl
  | case2 c cs run ih =>
    show unescaped ('\\' :: c :: run.text) = c :: run.value
    rw [unescaped, ih]
  | case4 c cs hbackslash hstop run ih =>
    have hc : c ≠ '\\' := by
      rintro rfl
      exact hstop rfl
    show unescaped (c :: run.text) = c :: run.value
    rw [unescaped, ih]
    exact fun _ _ hc' _ => hc hc'

theorem commentBody_text {depth : Nat} {body : Piece (List Char)} (h : commentBody depth cs = some body) :
    body.text = body.value ++ ['*', '/'] := by
  fun_induction commentBody depth cs generalizing body with
  | case1 => cases h
  | case2 =>
    cases h
    rfl
  | case3 depth cs ih | case4 depth cs ih | case5 depth c cs _ _ _ ih =>
    obtain ⟨inner, hinner, rfl⟩ := Option.map_eq_some_iff.mp h
    simp [ih hinner]

theorem reference_writtenAs {piece : Piece Reference} (h : reference cs = some piece) :
    String.ofList ('@' :: piece.text) ∈ piece.value.spellings := by
  have hspelled : ∀ (sign text : List Char) (path : Path),
      text = path.display.toList ∨ text = '(' :: path.display.toList ++ [')'] →
        String.ofList (sign ++ text) = String.ofList sign ++ path.display ∨
          String.ofList (sign ++ text) = String.ofList sign ++ "(" ++ path.display ++ ")" := by
    intro sign text path htext
    rcases htext with rfl | rfl
    · left
      simp
    · right
      apply String.toList_injective
      simp
  unfold reference at h
  split at h
  · obtain ⟨path, hpath, rfl⟩ := Option.map_eq_some_iff.mp h
    have hmem := hspelled ['@', '~'] path.text path.value (pathOrGroup_text hpath)
    simpa [Reference.spellings] using hmem
  · obtain ⟨path, hpath, rfl⟩ := Option.map_eq_some_iff.mp h
    have hmem := hspelled ['@'] path.text path.value (pathOrGroup_text hpath)
    simpa [Reference.spellings] using hmem

/-- The segments of a literal are not empty, and are written as their texts say. -/
def SegmentsWritten (segments : List (Segment × List Char)) : Prop :=
  ∀ segment ∈ segments, segment.2 ≠ [] ∧ segment.1.WrittenAs segment.2

theorem segmentsWritten_textSegments {stop : Char → Bool} {value text rest : List Char}
    (h : escapedRun stop cs = ⟨value, text, rest⟩) : SegmentsWritten (textSegments value text) := by
  have hunescaped := unescaped_escapedRun stop cs
  rw [h] at hunescaped
  intro segment hmem
  unfold textSegments at hmem
  by_cases hvalue : value = []
  · rw [if_pos hvalue] at hmem
    cases hmem
  · rw [if_neg hvalue] at hmem
    obtain rfl := List.mem_singleton.mp hmem
    refine ⟨?_, ?_⟩
    · rintro rfl
      exact hvalue hunescaped.symm
    · show unescaped text = _
      rw [hunescaped, String.toList_ofList]

theorem literalBody_written {piece : Piece (List (Segment × List Char))} (h : literalBody cs = .ok piece) :
    SegmentsWritten piece.value := by
  fun_induction literalBody cs generalizing piece with
  | case1 cs value text rest hrun =>
    cases h
    exact segmentsWritten_textSegments hrun
  | case2 | case3 | case5 => cases h
  | case4 cs value text cs' hrun ref href tail htail ih =>
    cases h
    intro segment hmem
    rcases List.mem_append.mp hmem with hbefore | hmem
    · exact segmentsWritten_textSegments hrun segment hbefore
    · rcases List.mem_cons.mp hmem with rfl | hafter
      · exact ⟨List.cons_ne_nil _ _, reference_writtenAs href⟩
      · exact ih htail segment hafter

theorem quoteBody_text {piece : Piece (List Char)} (h : quoteBody cs = some piece) :
    ∃ raw, piece.text = raw ++ ['"'] ∧ unescaped raw = piece.value := by
  have hunescaped := unescaped_escapedRun (· = '"') cs
  unfold quoteBody at h
  split at h
  · rename_i value text rest hrun
    cases h
    rw [hrun] at hunescaped
    exact ⟨text, rfl, hunescaped⟩
  · cases h

theorem punctuation_writtenAs {c : Char} {kind : TokenKind (List Char)} (h : punctuation c = some kind)
    (literal : List (Segment × List Char) → Prop) : kind.WrittenAs literal [c] := by
  unfold punctuation at h
  split at h <;> cases h <;> rfl

/-- **A token is written as the characters say that it was read from.** -/
theorem lexeme_writtenAs {c : Char} {piece : Piece (TokenKind (List Char))} (h : lexeme c cs = .ok piece) :
    piece.value.WrittenAs (fun segments => piece.text = '~' :: (segments.flatMap Prod.snd ++ ['~']) ∧
      SegmentsWritten segments) piece.text := by
  unfold lexeme at h
  split at h
  · split at h
    · cases h
    · rename_i body hbody
      cases h
      show '/' :: '*' :: body.text = _
      rw [commentBody_text hbody]
      simp [TokenKind.display]
  · split at h
    · cases h
    · rename_i body hbody
      cases h
      exact ⟨congrArg ('~' :: ·) (literalBody_segments hbody).1, literalBody_written hbody⟩
  · split at h
    · cases h
    · rename_i body hbody
      cases h
      obtain ⟨raw, htext, hraw⟩ := quoteBody_text hbody
      refine ⟨raw, congrArg ('"' :: ·) htext, ?_⟩
      rw [hraw, String.toList_ofList]
  · split at h
    · cases h
    · rename_i ref href
      cases h
      exact reference_writtenAs href
  · split at h
    · rename_i kind hkind
      cases h
      exact punctuation_writtenAs hkind _
    · split at h
      · cases h
        exact String.toList_ofList.symm
      · cases h

end Lexeme

/-- What the reader of lexemes makes sure of. -/
structure Lexeme.Read (lexeme : Lexeme) : Prop where
  nonempty : lexeme.text ≠ []
  written : lexeme.kind.WrittenAs (fun segments => lexeme.text = '~' :: (segments.flatMap Prod.snd ++ ['~']) ∧
    Lexeme.SegmentsWritten segments) lexeme.text
  blank : ∀ c ∈ lexeme.blank, Lexeme.isBlank c = true

theorem lexemes_read {cs : List Char} {lexeme : Lexeme} (h : lexeme ∈ (lexemes cs).1) : lexeme.Read := by
  obtain ⟨c, rest, piece, hpiece, rfl⟩ := exists_of_mem_lexemes h
  exact ⟨(Lexeme.lexeme_readFrom hpiece).nonempty, Lexeme.lexeme_writtenAs hpiece,
    fun _ hc => List.mem_takeWhile_imp hc⟩

/-- Without a fault the lexemes are the whole text. -/
theorem lexemes_eq_of_no_fault {cs : List Char} (h : (lexemes cs).2 = none) :
    (lexemes cs).1.flatMap Lexeme.chars = cs := by
  fun_induction lexemes cs with
  | case1 => rfl
  | case2 => cases h
  | case3 c cs piece hpiece following ih =>
    rw [List.flatMap_cons, ih h, Lexeme.chars, List.append_assoc, List.takeWhile_append_dropWhile,
      (Lexeme.lexeme_readFrom hpiece).append]

/-! ## Tokens with their texts -/

/-- The lexemes of a source behind some blank, with their texts, and the end of the source. -/
def Lexeme.written (file : Nat) : (blank : List Char) → (start : Position) → List Lexeme → List Written
  | blank, start, [] => [⟨blank, [], ⟨.eof, ⟨start, start⟩, file⟩⟩]
  | blank, start, lexeme :: more =>
    let stop := start.after lexeme.text
    ⟨blank, lexeme.text, ⟨lexeme.kind.layOut start, ⟨start, stop⟩, file⟩⟩ ::
      written file lexeme.blank (stop.after lexeme.blank) more

section

variable {code : String} {file : Nat} {found : List Lexeme}

theorem map_token_written (blank : List Char) (start : Position) :
    (Lexeme.written file blank start found).map Written.token =
      Lexeme.tokens file start found ++ [⟨.eof, ⟨Lexeme.behind start found, Lexeme.behind start found⟩, file⟩] := by
  induction found generalizing blank start with
  | nil => rfl
  | cons lexeme found ih =>
    have hmore := ih lexeme.blank ((start.after lexeme.text).after lexeme.blank)
    exact congrArg (_ :: ·) hmore

theorem map_text_written (blank : List Char) (start : Position) :
    (Lexeme.written file blank start found).map Written.text = found.map Lexeme.text ++ [[]] := by
  induction found generalizing blank start with
  | nil => rfl
  | cons lexeme found ih =>
    have hmore := ih lexeme.blank ((start.after lexeme.text).after lexeme.blank)
    exact congrArg (_ :: ·) hmore

theorem chars_written (blank : List Char) (start : Position) :
    (Lexeme.written file blank start found).flatMap (fun part => part.blank ++ part.text) =
      blank ++ found.flatMap Lexeme.chars := by
  induction found generalizing blank start with
  | nil => simp [Lexeme.written]
  | cons lexeme found ih =>
    rw [Lexeme.written, List.flatMap_cons, ih, List.flatMap_cons, Lexeme.chars]
    simp only [List.append_assoc]

theorem blank_of_mem_written {blank : List Char} {start : Position} (hfound : ∀ lexeme ∈ found, lexeme.Read)
    (hblank : ∀ c ∈ blank, Lexeme.isBlank c = true) {part : Written}
    (h : part ∈ Lexeme.written file blank start found) : ∀ c ∈ part.blank, Lexeme.isBlank c = true := by
  induction found generalizing blank start with
  | nil =>
    obtain rfl := List.mem_singleton.mp h
    exact hblank
  | cons lexeme found ih =>
    rcases List.mem_cons.mp h with rfl | hmore
    · exact hblank
    · have hlexeme := hfound lexeme List.mem_cons_self
      exact ih (fun later hlater => hfound later (List.mem_cons_of_mem _ hlater)) hlexeme.blank hmore

/-- Segments that are laid out one behind the other lie so in the source. -/
theorem tiles_layOut {segments : List (Segment × List Char)} (h : Lexeme.SegmentsWritten segments)
    {front : List Char} (hsource : front ++ segments.flatMap Prod.snd <+: code.toList) :
    Tiles code (Position.first.after front) (layOut (Position.first.after front) segments)
      (segments.flatMap Prod.snd) ((Position.first.after front).after (segments.flatMap Prod.snd)) := by
  induction segments generalizing front with
  | nil => exact .nil _
  | cons segment segments ih =>
    obtain ⟨segment, text⟩ := segment
    obtain ⟨htext, hwritten⟩ := h _ List.mem_cons_self
    rw [List.flatMap_cons, ← List.append_assoc] at hsource
    have hmore := ih (fun later hlater => h later (List.mem_cons_of_mem _ hlater)) hsource
    let range : Range := ⟨Position.first.after front, (Position.first.after front).after text⟩
    have hcovers : range.Covers code front text := ⟨(List.prefix_append _ _).trans hsource, rfl, rfl⟩
    have hnonempty : range.start < range.stop := Position.lt_after htext _
    rw [Position.after_append] at hmore
    rw [List.flatMap_cons, Position.after_append]
    exact .cons hnonempty hcovers.bytes_eq hwritten hmore

/-- A lexeme that stands in the source is a token there that is written as the lexeme is. -/
theorem Lexeme.Read.spelled {lexeme : Lexeme} (h : lexeme.Read) {range : Range} {front : List Char}
    (hcovers : range.Covers code front lexeme.text) (blank : List Char) :
    Written.Spelled code ⟨blank, lexeme.text, ⟨lexeme.kind.layOut range.start, range, file⟩⟩ := by
  obtain ⟨kind, text, behind⟩ := lexeme
  have hwritten := h.written
  unfold Written.Spelled
  cases kind with
  | literal segments =>
    obtain ⟨htext, hsegments⟩ := hwritten
    dsimp only at htext
    have hsource : front ++ ['~'] ++ segments.flatMap Prod.snd <+: code.toList := by
      refine List.IsPrefix.trans ⟨['~'], ?_⟩ hcovers.isPrefix
      rw [htext]
      simp
    have htiles := tiles_layOut hsegments hsource
    rw [Position.after_append, ← hcovers.start] at htiles
    have hstop : range.stop = ((range.start.next '~').after (segments.flatMap Prod.snd)).next '~' := by
      rw [hcovers.stop, htext, Position.after_cons, Position.after_append]
      rfl
    exact ⟨segments.flatMap Prod.snd, _, htext, htiles, hstop.symm⟩
  | _ => exact hwritten

/-- The first of some lexemes in a source covers its text there, and the others stand behind it. -/
theorem covers_of_cons {front : List Char} {lexeme : Lexeme}
    (hcode : front ++ (lexeme :: found).flatMap Lexeme.chars = code.toList) :
    Range.Covers ⟨Position.first.after front, (Position.first.after front).after lexeme.text⟩ code front lexeme.text ∧
      (front ++ lexeme.text ++ lexeme.blank) ++ found.flatMap Lexeme.chars = code.toList := by
  have hmore : (front ++ lexeme.text ++ lexeme.blank) ++ found.flatMap Lexeme.chars = code.toList := by
    rw [← hcode, List.flatMap_cons, Lexeme.chars]
    simp only [List.append_assoc]
  refine ⟨⟨?_, rfl, rfl⟩, hmore⟩
  rw [← hmore, List.append_assoc _ lexeme.blank]
  exact List.prefix_append _ _

/-- Each token covers its text in the source and is written as this text says. -/
theorem mem_written {front blank : List Char} (hcode : front ++ found.flatMap Lexeme.chars = code.toList)
    (hfound : ∀ lexeme ∈ found, lexeme.Read) {part : Written}
    (h : part ∈ Lexeme.written file blank (Position.first.after front) found) :
    part.token.file = file ∧ part.Spelled code ∧
      ∃ before, front <+: before ∧ part.token.range.Covers code before part.text := by
  induction found generalizing front blank with
  | nil =>
    obtain rfl := List.mem_singleton.mp h
    rw [List.flatMap_nil, List.append_nil] at hcode
    have hall : front ++ [] <+: code.toList := ⟨[], by rw [List.append_nil, List.append_nil, hcode]⟩
    exact ⟨rfl, rfl, front, List.prefix_rfl, hall, rfl, rfl⟩
  | cons lexeme found ih =>
    obtain ⟨hcovers, hmore⟩ := covers_of_cons hcode
    rcases List.mem_cons.mp h with rfl | hlater
    · have hlexeme := hfound lexeme List.mem_cons_self
      exact ⟨rfl, hlexeme.spelled hcovers blank, front, List.prefix_rfl, hcovers⟩
    · rw [← Position.after_append, ← Position.after_append, ← List.append_assoc] at hlater
      have hread : ∀ later ∈ found, later.Read := fun later hmem => hfound later (List.mem_cons_of_mem _ hmem)
      obtain ⟨hfile, hspelled, before, hbefore, hpart⟩ := ih hmore hread hlater
      rw [List.append_assoc] at hbefore
      exact ⟨hfile, hspelled, before, (List.prefix_append _ _).trans hbefore, hpart⟩

/-- **The tokens stand one behind the other.** -/
theorem pairwise_written {front blank : List Char} (hcode : front ++ found.flatMap Lexeme.chars = code.toList)
    (hfound : ∀ lexeme ∈ found, lexeme.Read) :
    ((Lexeme.written file blank (Position.first.after front) found).map Written.token).Pairwise
      fun token later => token.range.Precedes later.range code := by
  induction found generalizing front blank with
  | nil => exact List.pairwise_singleton _ _
  | cons lexeme found ih =>
    obtain ⟨hcovers, hmore⟩ := covers_of_cons hcode
    have hread : ∀ later ∈ found, later.Read := fun later hmem => hfound later (List.mem_cons_of_mem _ hmem)
    have htail := @ih _ lexeme.blank hmore hread
    rw [Position.after_append, Position.after_append] at htail
    apply List.Pairwise.cons _ htail
    intro later hlater
    obtain ⟨part, hpart, rfl⟩ := List.mem_map.mp hlater
    rw [← Position.after_append, ← Position.after_append, ← List.append_assoc] at hpart
    obtain ⟨-, -, before, hbefore, hlaterCovers⟩ := mem_written hmore hread hpart
    have hlexeme := hfound lexeme List.mem_cons_self
    exact hcovers.precedes hlaterCovers hlexeme.nonempty ((List.prefix_append _ _).trans hbefore)

end

/-! ## The main statement -/

theorem offset_after_toList (code : String) :
    (Position.first.after code.toList).offset code = code.utf8ByteSize := by
  have hbefore := Position.textBefore_after code.toList []
  rw [List.append_nil] at hbefore
  unfold Position.offset
  rw [hbefore, ← size_utf8Encode, String.utf8Encode_toList]
  rfl

/-- The tokens of a source without fault are its lexemes, and its end. -/
theorem tokenize_eq_ok {code : String} {file : Nat} {tokens : List Token} (h : tokenize code file = .ok tokens) :
    let start := Position.first.after (code.toList.takeWhile Lexeme.isBlank)
    let found := lexemes (code.toList.dropWhile Lexeme.isBlank)
    found.2 = none ∧ tokens = Lexeme.tokens file start found.1 ++
      [⟨.eof, ⟨Lexeme.behind start found.1, Lexeme.behind start found.1⟩, file⟩] := by
  intro start found
  unfold tokenize scan at h
  dsimp only at h
  cases hfault : found.2 with
  | none =>
    rw [hfault] at h
    exact ⟨rfl, (Except.ok.inj h).symm⟩
  | some fault =>
    rw [hfault] at h
    cases h

/-- No token stands in a source twice. -/
theorem nodup_of_tokenize {code : String} {file : Nat} {tokens : List Token} (h : tokenize code file = .ok tokens) :
    tokens.Nodup := by
  obtain ⟨hfault, rfl⟩ := tokenize_eq_ok h
  have hcode : code.toList.takeWhile Lexeme.isBlank ++
      (lexemes (code.toList.dropWhile Lexeme.isBlank)).1.flatMap Lexeme.chars = code.toList := by
    rw [lexemes_eq_of_no_fault hfault, List.takeWhile_append_dropWhile]
  have hordered := @pairwise_written code file _ _ (code.toList.takeWhile Lexeme.isBlank) hcode
    (fun lexeme hmem => lexemes_read hmem)
  rw [map_token_written] at hordered
  apply hordered.imp
  rintro token later hprecedes rfl
  have hlt := Position.lt_of_lt_of_le hprecedes.start_lt hprecedes.stop_le
  rw [Position.lt_def] at hlt
  omega

/-- **Tokenizing loses nothing, and its ranges are exact.** -/
theorem tokenize_lossless {code : String} {file : Nat} {tokens : List Token} (h : tokenize code file = .ok tokens) :
    ∃ written, Lossless code file tokens written := by
  unfold tokenize at h
  cases herror : (scan code file).error with
  | some error =>
    rw [herror] at h
    cases h
  | none =>
    rw [herror] at h
    obtain rfl : (scan code file).tokens = tokens := by simpa using h
    let blank := code.toList.takeWhile Lexeme.isBlank
    let found := (lexemes (code.toList.dropWhile Lexeme.isBlank)).1
    let behind := Lexeme.behind (Position.first.after blank) found
    have hfault : (lexemes (code.toList.dropWhile Lexeme.isBlank)).2 = none := by
      unfold scan at herror
      dsimp only at herror
      split at herror
      · assumption
      · cases herror
    have htokens : (scan code file).tokens =
        Lexeme.tokens file (Position.first.after blank) found ++ [⟨.eof, ⟨behind, behind⟩, file⟩] := by
      unfold scan
      dsimp only
      rw [hfault]
    have hcode : blank ++ found.flatMap Lexeme.chars = code.toList := by
      rw [lexemes_eq_of_no_fault hfault, List.takeWhile_append_dropWhile]
    have hread : ∀ lexeme ∈ found, lexeme.Read := fun lexeme hmem => lexemes_read hmem
    have hblank : ∀ c ∈ blank, Lexeme.isBlank c = true := fun c hc => List.mem_takeWhile_imp hc
    have hbehind : behind = Position.first.after code.toList := by
      show Lexeme.behind _ _ = _
      rw [Lexeme.behind_eq_after, ← Position.after_append, hcode]
    refine ⟨Lexeme.written file blank (Position.first.after blank) found, ?_⟩
    exact {
      map_token := by rw [map_token_written, htokens]
      chars := by rw [chars_written, hcode]
      blank := fun part hpart => blank_of_mem_written hread hblank hpart
      bytes := by
        intro part hpart
        obtain ⟨-, -, before, -, hcovers⟩ := mem_written hcode hread hpart
        exact hcovers.bytes_eq
      spelled := fun part hpart => (mem_written hcode hread hpart).2.1
      sameFile := fun part hpart => (mem_written hcode hread hpart).1
      ordered := by
        have hordered := @pairwise_written code file found blank blank hcode hread
        rw [map_token_written, ← htokens] at hordered
        exact hordered
      ends := by
        refine ⟨_, behind, htokens, fun token => ne_eof_of_mem_tokens, hbehind, ?_⟩
        rw [hbehind]
        exact offset_after_toList code }

/-- A comment and a literal with characters of two bytes, a backslash and a line feed. -/
theorem tokenize_lossless_lines :
    let code := "a /*é*/\n ~\\~ü\n@~(b.c)~ "
    let tokens : List Token := [⟨.ident "a", ⟨⟨1, 1⟩, ⟨1, 2⟩⟩, 0⟩, ⟨.comment "é", ⟨⟨1, 3⟩, ⟨1, 8⟩⟩, 0⟩,
      ⟨.literal [(.text "~ü\n", ⟨⟨2, 3⟩, ⟨3, 1⟩⟩), (.reference ⟨["b", "c"], true⟩, ⟨⟨3, 1⟩, ⟨3, 8⟩⟩)],
        ⟨⟨2, 2⟩, ⟨3, 9⟩⟩, 0⟩,
      ⟨.eof, ⟨⟨3, 10⟩, ⟨3, 10⟩⟩, 0⟩]
    tokenize code 0 = .ok tokens ∧ ∃ written, Lossless code 0 tokens written := by
  intro code tokens
  have htokens : tokenize code 0 = .ok tokens := by decide +kernel
  exact ⟨htokens, tokenize_lossless htokens⟩

end HtmlTemplate
