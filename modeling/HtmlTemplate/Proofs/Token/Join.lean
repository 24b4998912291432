import HtmlTemplate.Proofs.Alike.Scans
import HtmlTemplate.Proofs.Source.Joined
import HtmlTemplate.Proofs.Token.Lossless

/-!
# Joining texts behind a token

A closing brace and a comment say themselves where they end. If the last token of a text is one of them, then another
text can be put behind it without anything between the two: the tokens of both are read, and those of the second say
what they said before (`scan_append`). Only the blank behind the last token grows by the blank at the seam.

## Contents

* `TokenKind.closes`, `Lexeme.lexeme_of_closes` — tokens that are read in front of any text;
* `lexemes_joined` — the lexemes of a joined text;
* `Location.Behind` — places of the second text before and after joining;
* `scan_append` — the tokens of a joined text.
-/

namespace HtmlTemplate

/-! ## Lexemes -/

/-- The token says itself where it ends. -/
def TokenKind.closes {α : Type} : TokenKind α → Bool
  | .rbrace | .comment _ => true
  | _ => false

namespace Lexeme

variable {c : Char} {cs : List Char} {piece : Piece (TokenKind (List Char))}

/-- **A closing token is read in front of any text.** -/
theorem lexeme_of_closes (h : lexeme c cs = .ok piece) (hcloses : piece.value.closes = true) (less : List Char) :
    ∃ tail, piece.text = c :: tail ∧ lexeme c (tail ++ less) = .ok (piece.cut less) := by
  unfold lexeme at h
  split at h
  · split at h
    · cases h
    · rename_i body hbody
      cases h
      refine ⟨'*' :: body.text, rfl, ?_⟩
      show lexeme '/' ('*' :: (body.text ++ less)) = _
      simp only [lexeme, commentBody_cut hbody less]
      rfl
  · split at h
    · cases h
    · cases h
      cases hcloses
  · split at h
    · cases h
    · cases h
      cases hcloses
  · split at h
    · cases h
    · cases h
      cases hcloses
  · split at h
    · rename_i kind hkind
      cases h
      exact ⟨[], rfl, lexeme_punctuation hkind⟩
    · split at h
      · cases h
        cases hcloses
      · cases h

/-- Behind a text that goes on up to a closing token, more text looks the same. -/
theorem ahead_append {before : List Lexeme} {last : Lexeme}
    (h : (lexemes (cs.dropWhile isBlank)).1 = before ++ [last]) (hcloses : last.kind.closes = true)
    (more : List Char) : Ahead (cs ++ more) cs := by
  match cs with
  | _ :: _ :: _ => exact .cons fun _ _ hnext => hnext
  | [] =>
    rw [List.dropWhile_nil, lexemes] at h
    exact absurd h.symm (by simp)
  | [c] =>
    refine .cons ?_
    rintro (rfl | rfl)
    · have hdot : lexemes ['.'] = ([⟨.dot, ['.'], []⟩], none) := by
        rw [lexemes_cons (lexeme_punctuation rfl), List.dropWhile_nil, lexemes]
        rfl
      change (lexemes ['.']).1 = _ at h
      have hlast := congrArg List.getLast? h
      rw [hdot, List.getLast?_singleton, List.getLast?_concat] at hlast
      rw [← Option.some.inj hlast] at hcloses
      cases hcloses
    · change (lexemes ['\\']).1 = _ at h
      obtain ⟨first, rest, hfound⟩ := List.exists_cons_of_ne_nil (List.concat_ne_nil last before)
      rw [hfound] at h
      obtain ⟨_, _, _, hread, hpiece, -, -⟩ := lexemes_eq_cons h
      cases hread
      cases hpiece

end Lexeme

section

variable {p : Char → Bool} {cs : List Char}

/-- A run that ends in the front of a text ends there. -/
theorem takeWhile_append_of_dropWhile_ne_nil (h : cs.dropWhile p ≠ []) (more : List Char) :
    (cs ++ more).takeWhile p = cs.takeWhile p := by
  rw [List.takeWhile_append, if_neg]
  intro hlength
  have hall := (List.takeWhile_prefix p).eq_of_length hlength
  exact h (List.dropWhile_eq_nil_iff.mpr (List.takeWhile_eq_self_iff.mp hall))

theorem dropWhile_append_of_dropWhile_ne_nil (h : cs.dropWhile p ≠ []) (more : List Char) :
    (cs ++ more).dropWhile p = cs.dropWhile p ++ more := by
  rw [List.dropWhile_append, if_neg]
  rwa [List.isEmpty_iff]

end

/-- Without a fault there are lexemes as long as there is text. -/
theorem eq_nil_of_lexemes_eq_nil {cs : List Char} (h : (lexemes cs).1 = []) (hfault : (lexemes cs).2 = none) :
    cs = [] := by
  rw [← lexemes_eq_of_no_fault hfault, h]
  rfl

/-- **The lexemes of a joined text**, if the front ends with a closing token. -/
theorem lexemes_joined {cs : List Char} {before : List Lexeme} {last : Lexeme}
    (h : (lexemes cs).1 = before ++ [last]) (hfault : (lexemes cs).2 = none) (hcloses : last.kind.closes = true)
    (more : List Char) :
    lexemes (cs ++ more) =
      (before ++ { last with blank := last.blank ++ more.takeWhile Lexeme.isBlank } ::
        (lexemes (more.dropWhile Lexeme.isBlank)).1, (lexemes (more.dropWhile Lexeme.isBlank)).2) := by
  -- By induction on the lexemes in front of the last one: the reader of each of them sees what it saw.
  induction before generalizing cs with
  | nil =>
    obtain ⟨c, rest, piece, rfl, hpiece, rfl, hmore⟩ := lexemes_eq_cons h
    rw [lexemes_cons hpiece] at hfault
    have hblank := eq_nil_of_lexemes_eq_nil hmore hfault
    obtain ⟨tail, htext, hcut⟩ := Lexeme.lexeme_of_closes hpiece hcloses (piece.rest ++ more)
    have hall : ∀ c ∈ piece.rest, Lexeme.isBlank c = true := List.dropWhile_eq_nil_iff.mp hblank
    have hread : c :: rest ++ more = c :: (tail ++ (piece.rest ++ more)) := by
      rw [← (Lexeme.lexeme_readFrom hpiece).append, htext, List.append_assoc, List.cons_append]
    have htake : piece.rest.takeWhile Lexeme.isBlank = piece.rest := List.takeWhile_eq_self_iff.mpr hall
    rw [hread, lexemes_cons hcut]
    unfold Piece.cut
    dsimp only
    rw [List.takeWhile_append_of_pos hall, List.dropWhile_append_of_pos hall, htake]
    rfl
  | cons first before ih =>
    rw [List.cons_append] at h
    obtain ⟨c, rest, piece, rfl, hpiece, rfl, hmore⟩ := lexemes_eq_cons h
    rw [lexemes_cons hpiece] at hfault
    obtain ⟨tail, htext, hcut⟩ := Lexeme.lexeme_cut hpiece (.inl (Lexeme.ahead_append hmore hcloses more))
    have hread : c :: rest ++ more = c :: (tail ++ (piece.rest ++ more)) := by
      rw [← (Lexeme.lexeme_readFrom hpiece).append, htext, List.append_assoc, List.cons_append]
    have hne : piece.rest.dropWhile Lexeme.isBlank ≠ [] := by
      intro hnil
      rw [hnil, lexemes] at hmore
      exact absurd hmore.symm (by simp)
    rw [hread, lexemes_cons hcut]
    unfold Piece.cut
    dsimp only
    rw [takeWhile_append_of_dropWhile_ne_nil hne, dropWhile_append_of_dropWhile_ne_nil hne, ih hmore hfault]
    rfl

/-! ## Places -/

/-- The place in the joined text for a place in the other text, which has the next number in a source of its own. -/
inductive Location.Behind (file : Nat) (front : List Char) : (joined place : Location) → Prop where
  | range (range : Range) : Behind file front ⟨file, range.behind front⟩ ⟨file + 1, range⟩

/-- Walking over the same characters keeps places together. -/
theorem Location.behind_inStep (file : Nat) (front : List Char) :
    Position.InStep (Location.Behind file front) file (file + 1)
      fun joined p => Position.first ≤ p ∧ joined = p.behind front := by
  constructor
  · rintro _ p c ⟨hp, rfl⟩
    exact ⟨Position.le_trans hp (Position.le_after [c] p), (Position.behind_next hp c).symm⟩
  · rintro _ p _ q ⟨-, rfl⟩ ⟨-, rfl⟩
    exact .range ⟨p, q⟩

/-! ## Tokens -/

theorem Lexeme.tokens_append (file : Nat) (start : Position) (found more : List Lexeme) :
    Lexeme.tokens file start (found ++ more) =
      Lexeme.tokens file start found ++ Lexeme.tokens file (Lexeme.behind start found) more := by
  induction found generalizing start with
  | nil => rfl
  | cons lexeme found ih => exact congrArg (_ :: ·) (ih _)

/-- Lexemes in front only add their tokens. -/
theorem scanFrom_append (file : Nat) (start : Position) (before found : List Lexeme) (fault : Option Fault) :
    scanFrom file start (before ++ found, fault) =
      ⟨Lexeme.tokens file start before ++ (scanFrom file (Lexeme.behind start before) (found, fault)).tokens,
        (scanFrom file (Lexeme.behind start before) (found, fault)).error⟩ := by
  have hbehind : Lexeme.behind start (before ++ found) = Lexeme.behind (Lexeme.behind start before) found :=
    List.foldl_append
  unfold scanFrom
  dsimp only
  rw [Lexeme.tokens_append, hbehind]
  cases fault with
  | none => simp only [List.append_assoc]
  | some fault => rfl

/-- The blank behind the last token does not show in the tokens. -/
theorem Lexeme.tokens_blank (file : Nat) (start : Position) (before : List Lexeme) (last : Lexeme) (blank : List Char) :
    Lexeme.tokens file start (before ++ [{ last with blank }]) = Lexeme.tokens file start (before ++ [last]) := by
  rw [Lexeme.tokens_append, Lexeme.tokens_append]
  rfl

theorem Lexeme.behind_blank (start : Position) (before : List Lexeme) (last : Lexeme) (blank : List Char) :
    Lexeme.behind start (before ++ [{ last with blank := last.blank ++ blank }]) =
      (start.after ((before ++ [last]).flatMap Lexeme.chars)).after blank := by
  rw [Lexeme.behind_eq_after, List.flatMap_append, List.flatMap_append, List.flatMap_singleton,
    List.flatMap_singleton, ← Position.after_append, List.append_assoc]
  unfold Lexeme.chars
  rw [List.append_assoc]

/-- The last token of lexemes says what the last lexeme says. -/
theorem Lexeme.getLast?_tokens {file : Nat} {start : Position} {before : List Lexeme} {last : Lexeme} :
    (Lexeme.tokens file start (before ++ [last])).getLast?.map (·.kind.closes) = some last.kind.closes := by
  rw [Lexeme.tokens_append, Lexeme.tokens, Lexeme.tokens, List.getLast?_concat, Option.map_some]
  cases last.kind <;> rfl

/-- A source without a fault is read to its end. -/
theorem exists_of_scan_eq {code : String} {file : Nat} {inner : List Token} {eof : Token}
    (h : scan code file = ⟨inner ++ [eof], none⟩) :
    inner = Lexeme.tokens file (Position.first.after (code.toList.takeWhile Lexeme.isBlank))
        (lexemes (code.toList.dropWhile Lexeme.isBlank)).1 ∧
      (lexemes (code.toList.dropWhile Lexeme.isBlank)).2 = none := by
  unfold scan at h
  dsimp only at h
  split at h
  · rename_i hfault
    obtain ⟨htokens, -⟩ := Scan.mk.inj h
    exact ⟨(List.append_inj' htokens rfl).1.symm, hfault⟩
  · obtain ⟨-, herror⟩ := Scan.mk.inj h
    cases herror

/-- **The tokens of a joined text.** If the front is read to its end, and its last token is a closing one, then the
    tokens of the joined text are those of the front and then those of the other text, which say what they would say in
    a source of their own. The fault that ends them is the same, too. -/
theorem scan_append {front : String} {file : Nat} {inner : List Token} {eof : Token}
    (h : scan front file = ⟨inner ++ [eof], none⟩) (hlast : ∀ token ∈ inner.getLast?, token.kind.closes = true)
    (code : String) :
    ∃ found : Scan, scan (front ++ code) file = ⟨inner ++ found.tokens, found.error⟩ ∧
      found.Alike (Location.Behind file front.toList) (scan code (file + 1)) := by
  obtain ⟨htokens, hfault⟩ := exists_of_scan_eq h
  -- All that is read behind the front is read from there on.
  have hfrom : scan (front ++ code) file = ⟨inner ++ (scanFrom file (Position.first.after (front.toList ++
      code.toList.takeWhile Lexeme.isBlank)) (lexemes (code.toList.dropWhile Lexeme.isBlank))).tokens,
      (scanFrom file (Position.first.after (front.toList ++ code.toList.takeWhile Lexeme.isBlank))
        (lexemes (code.toList.dropWhile Lexeme.isBlank))).error⟩ := by
    rw [scan_eq_scanFrom, String.toList_append]
    rcases List.eq_nil_or_concat (lexemes (front.toList.dropWhile Lexeme.isBlank)).1 with hnil | ⟨before, last, hfound⟩
    · rw [hnil] at htokens
      have hblank := List.dropWhile_eq_nil_iff.mp (eq_nil_of_lexemes_eq_nil hnil hfault)
      rw [List.takeWhile_append_of_pos hblank, List.dropWhile_append_of_pos hblank, htokens]
      rfl
    · rw [List.concat_eq_append] at hfound
      have hne : front.toList.dropWhile Lexeme.isBlank ≠ [] := by
        intro hnil
        rw [hnil, lexemes] at hfound
        exact absurd hfound.symm (by simp)
      have hcloses : last.kind.closes = true := by
        obtain ⟨token, htoken, hkind⟩ := Option.map_eq_some_iff.mp Lexeme.getLast?_tokens
        rw [htokens, hfound] at hlast
        rw [← hkind, hlast token htoken]
      have hchars := lexemes_eq_of_no_fault hfault
      rw [hfound] at htokens hchars
      rw [takeWhile_append_of_dropWhile_ne_nil hne, dropWhile_append_of_dropWhile_ne_nil hne,
        lexemes_joined hfound hfault hcloses, ← List.singleton_append, ← List.append_assoc, scanFrom_append,
        Lexeme.tokens_blank, ← htokens, Lexeme.behind_blank, hchars, ← Position.after_append,
        ← Position.after_append, ← List.append_assoc (front.toList.takeWhile _), List.takeWhile_append_dropWhile]
  refine ⟨_, hfrom, ?_⟩
  rw [scan_eq_scanFrom code]
  apply scanFrom_alike (Location.behind_inStep file front.toList)
  exact ⟨Position.le_after _ _, Position.first_after_append _ _⟩

end HtmlTemplate
