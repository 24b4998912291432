import HtmlTemplate.Proofs.Token.Lossless
import HtmlTemplate.Proofs.Token.Paths

/-!
# Reading references

Where a path is written out, the reader of paths finds it again, as long as what follows does not go on with it
(`Lexeme.path_display`). So a reference in parentheses is read in front of any text (`Lexeme.reference_display`), and
the reader of references fails exactly where no spelling of a reference stands (`Lexeme.reference_eq_none`).

## Contents

* `IsReference`, `StartsReference` — the texts that are references, and those that start with one;
* `Lexeme.path_display`, `reference_display` — paths and references that are written out;
* `IsReference.Parts`, `IsReference.exists_parts` — the characters of a reference;
* `Lexeme.reference_eq_none` — where no reference stands.
-/

namespace HtmlTemplate

/-- The text is a reference, as it can be written in a source. -/
def IsReference (text : List Char) : Prop :=
  ∃ ref : Reference, ref.path.IsProper ∧ String.ofList text ∈ ref.spellings

/-- A reference stands at the beginning of the text. -/
def StartsReference (cs : List Char) : Prop := ∃ text, IsReference text ∧ text <+: cs

namespace Lexeme

variable {cs rest : List Char}

/-! ## Characters of names -/

theorem isNamePart_of_isNameStart {c : Char} (h : isNameStart c = true) : isNamePart c = true := by
  unfold isNameStart at h
  unfold isNamePart Char.isAlphanum
  rcases Bool.or_eq_true_iff.mp h with h | h <;> simp [h]

theorem isNamePart_of_isDigit {c : Char} (h : c.isDigit = true) : isNamePart c = true := by
  unfold isNamePart Char.isAlphanum
  simp [h]

theorem isNameStart_of_isDigit {c : Char} (h : c.isDigit = true) : isNameStart c = false := by
  apply Bool.eq_false_iff.mpr
  intro hstart
  rcases Bool.or_eq_true_iff.mp hstart with halpha | hunderscore
  · have hdigit : c.val ≤ '9'.val := of_decide_eq_true (Bool.and_eq_true_iff.mp h).2
    have hletter : 'A'.val ≤ c.val := by
      rcases Bool.or_eq_true_iff.mp halpha with hupper | hlower
      · exact (of_decide_eq_true hupper).1
      · have hsmall : 'a'.val ≤ c.val := of_decide_eq_true (Bool.and_eq_true_iff.mp hlower).1
        exact UInt32.le_trans (by decide) hsmall
    exact absurd (UInt32.le_trans hletter hdigit) (by decide)
  · obtain rfl := of_decide_eq_true hunderscore
    revert h
    decide

/-! ## Paths -/

/-- The characters of a segment can all stand in a name. -/
theorem isNamePart_of_mem_segment {segment : String} (h : IsIdentifier segment ∨ IsNumeral segment) :
    ∀ c ∈ segment.toList, isNamePart c = true := by
  rcases h with ⟨first, more, hsegment, hfirst, hmore⟩ | ⟨-, hdigits⟩
  · rw [hsegment]
    exact List.forall_mem_cons.mpr ⟨isNamePart_of_isNameStart hfirst, List.all_eq_true.mp hmore⟩
  · intro c hc
    exact isNamePart_of_isDigit (List.all_eq_true.mp hdigits c hc)

theorem pathSegment_append {segment : String} (h : IsIdentifier segment ∨ IsNumeral segment)
    (hrest : ∀ c ∈ rest.head?, isNamePart c = false) :
    pathSegment (segment.toList ++ rest) = some ⟨segment, segment.toList, rest⟩ := by
  rcases h with ⟨first, more, hsegment, hfirst, hmore⟩ | ⟨hne, hdigits⟩
  · have hall : ∀ c ∈ more, isNamePart c = true := List.all_eq_true.mp hmore
    rw [hsegment, List.cons_append, pathSegment, if_pos hfirst, takeWhile_append_of_stop hall hrest,
      dropWhile_append_of_stop hall hrest]
    dsimp only
    rw [← hsegment, String.ofList_toList]
  · obtain ⟨first, more, hsegment⟩ := List.exists_cons_of_ne_nil hne
    rw [hsegment, List.all_cons, Bool.and_eq_true] at hdigits
    obtain ⟨hfirst, hmore⟩ := hdigits
    have hall : ∀ c ∈ more, c.isDigit = true := List.all_eq_true.mp hmore
    have hstop : ∀ c ∈ rest.head?, c.isDigit = false := by
      intro c hc
      apply Bool.eq_false_iff.mpr
      intro hdigit
      exact Bool.noConfusion ((isNamePart_of_isDigit hdigit).symm.trans (hrest c hc))
    have hname : ¬ isNameStart first = true := by simp [isNameStart_of_isDigit hfirst]
    rw [hsegment, List.cons_append, pathSegment, if_neg hname, if_pos hfirst, takeWhile_append_of_stop hall hstop,
      dropWhile_append_of_stop hall hstop]
    dsimp only
    rw [← hsegment, String.ofList_toList]

theorem toList_display_cons {segment : String} {path : Path} (h : path ≠ []) :
    (Path.display (segment :: path)).toList = segment.toList ++ '.' :: path.display.toList := by
  unfold Path.display
  rw [String.intercalate_cons_of_ne_nil h, String.toList_append, String.toList_append, List.append_assoc]
  rfl

/-- **A path that is written out is read** in front of what does not go on with it. -/
theorem path_display {path : Path} (h : path.IsProper) (hrest : ∀ c ∈ rest.head?, isNamePart c = false ∧ c ≠ '.') :
    Lexeme.path (path.display.toList ++ rest) = some ⟨path, path.display.toList, rest⟩ := by
  obtain ⟨hne, hsegments⟩ := h
  have hstop : ∀ c ∈ rest.head?, isNamePart c = false := fun c hc => (hrest c hc).1
  induction path with
  | nil => exact absurd rfl hne
  | cons segment path ih =>
    obtain ⟨hsegment, hmore⟩ := List.forall_mem_cons.mp hsegments
    by_cases hpath : path = []
    · subst hpath
      rw [Path.display, String.intercalate_singleton]
      apply path_eq_some (pathSegment_append hsegment hstop)
      intro more hdot
      change rest = '.' :: more at hdot
      exact absurd rfl (hrest '.' (by rw [hdot]; rfl)).2
    · rw [toList_display_cons hpath, List.append_assoc, List.cons_append]
      have hdot : ∀ c ∈ ('.' :: ((Path.display path).toList ++ rest)).head?, isNamePart c = false := by
        rintro c hc
        cases hc
        rfl
      exact path_eq_some_cons (pathSegment_append hsegment hdot) rfl (ih hpath hmore)

/-- The characters of a path can stand in a name, but for the dots. -/
theorem mem_display {path : Path} (h : path.IsProper) {c : Char} (hc : c ∈ path.display.toList) :
    isNamePart c = true ∨ c = '.' := by
  obtain ⟨hne, hsegments⟩ := h
  induction path with
  | nil => exact absurd rfl hne
  | cons segment path ih =>
    obtain ⟨hsegment, hmore⟩ := List.forall_mem_cons.mp hsegments
    by_cases hpath : path = []
    · subst hpath
      rw [Path.display, String.intercalate_singleton] at hc
      exact .inl (isNamePart_of_mem_segment hsegment c hc)
    · rw [toList_display_cons hpath] at hc
      rcases List.mem_append.mp hc with hc | hc
      · exact .inl (isNamePart_of_mem_segment hsegment c hc)
      · rcases List.mem_cons.mp hc with rfl | hc
        · exact .inr rfl
        · exact ih hc hpath hmore

/-! ## References -/

theorem pathOrGroup_group {path : Path} (h : path.IsProper) (rest : List Char) :
    pathOrGroup ('(' :: (path.display.toList ++ ')' :: rest)) =
      some ⟨path, '(' :: path.display.toList ++ [')'], rest⟩ := by
  have hstop : ∀ c ∈ (')' :: rest).head?, isNamePart c = false ∧ c ≠ '.' := by
    rintro c hc
    cases hc
    exact ⟨rfl, by decide⟩
  simp only [pathOrGroup, path_display h hstop]

/-- **A reference that is written out is read** in front of any text. -/
theorem reference_display {ref : Reference} (h : ref.path.IsProper) (rest : List Char) :
    ∃ text, ref.display.toList = '@' :: text ∧ reference (text ++ rest) = some ⟨ref, text, rest⟩ := by
  obtain ⟨path, escape⟩ := ref
  have hgroup := pathOrGroup_group h rest
  cases escape with
  | false =>
    refine ⟨'(' :: path.display.toList ++ [')'], ?_, ?_⟩
    · simp [Reference.display]
    · rw [List.append_assoc, List.singleton_append, List.cons_append]
      show (pathOrGroup ('(' :: (path.display.toList ++ ')' :: rest))).map _ = _
      rw [hgroup]
      rfl
  | true =>
    refine ⟨'~' :: '(' :: path.display.toList ++ [')'], ?_, ?_⟩
    · simp [Reference.display]
    · rw [List.append_assoc, List.singleton_append, List.cons_append, List.cons_append]
      show (pathOrGroup ('(' :: (path.display.toList ++ ')' :: rest))).map _ = _
      rw [hgroup]
      rfl

theorem reference_of_head_ne (h : ∀ c ∈ cs.head?, c ≠ '~') :
    reference cs = (pathOrGroup cs).map fun path => ⟨⟨path.value, false⟩, path.text, path.rest⟩ := by
  unfold reference
  split
  · exact absurd rfl (h '~' rfl)
  · rfl

/-- A path stands where its first segment starts. -/
theorem exists_pathOrGroup_display {path : Path} (h : path.IsProper) (rest : List Char) :
    ∃ piece, pathOrGroup (path.display.toList ++ rest) = some piece := by
  have hread : Lexeme.path (path.display.toList ++ []) = some ⟨path, path.display.toList, []⟩ := path_display h nofun
  rw [List.append_nil] at hread
  have hne : path.display.toList ≠ [] := (path_readFrom hread).nonempty
  have hhead : ∀ c ∈ path.display.toList.head?, c ∈ (path.display.toList ++ rest).head? := by
    intro c hc
    rw [List.head?_append_of_ne_nil _ hne]
    exact hc
  have hsome : Lexeme.path (path.display.toList ++ rest) ≠ none := by
    intro hnone
    cases hread.symm.trans (path_eq_none hnone hhead)
  unfold pathOrGroup
  split
  · rename_i more hmore
    have hparen : '(' ∈ path.display.toList := by
      have hhead : (path.display.toList ++ rest).head? = path.display.toList.head? :=
        List.head?_append_of_ne_nil _ hne
      rw [hmore] at hhead
      exact List.mem_of_mem_head? hhead.symm
    rcases mem_display h hparen with hpart | hdot
    · exact absurd hpart (by decide)
    · exact absurd hdot (by decide)
  · exact Option.ne_none_iff_exists'.mp hsome

end Lexeme

/-! ## Where references stand -/

/-- The character stands for itself in a literal. -/
def IsPlainInLiteral (c : Char) : Prop := Lexeme.endsLiteralText c = false ∧ c ≠ '\\'

theorem isPlainInLiteral_of_isNamePart {c : Char} (h : Lexeme.isNamePart c = true) : IsPlainInLiteral c := by
  refine ⟨?_, ?_⟩
  · apply Bool.eq_false_iff.mpr
    intro hends
    rcases Bool.or_eq_true_iff.mp hends with htilde | hat
    · rw [of_decide_eq_true htilde] at h
      exact absurd h (by decide)
    · rw [of_decide_eq_true hat] at h
      exact absurd h (by decide)
  · rintro rfl
    exact absurd h (by decide)

theorem isPlainInLiteral_of_mem_display {path : Path} (h : path.IsProper) :
    ∀ c ∈ path.display.toList, IsPlainInLiteral c := by
  intro c hc
  rcases Lexeme.mem_display h hc with hpart | rfl
  · exact isPlainInLiteral_of_isNamePart hpart
  · exact ⟨rfl, by decide⟩

theorem isPlainInLiteral_of_mem_group {path : Path} (h : path.IsProper) :
    ∀ c ∈ '(' :: path.display.toList ++ [')'], IsPlainInLiteral c := by
  rw [List.forall_mem_append, List.forall_mem_cons, List.forall_mem_singleton]
  exact ⟨⟨⟨rfl, by decide⟩, isPlainInLiteral_of_mem_display h⟩, ⟨rfl, by decide⟩⟩

theorem Lexeme.isPlainInLiteral_of_pathOrGroup {cs : List Char} {piece : Piece Path}
    (h : Lexeme.pathOrGroup cs = some piece) : ∀ c ∈ piece.text, IsPlainInLiteral c := by
  have hproper := Lexeme.pathOrGroup_isProper h
  rcases Lexeme.pathOrGroup_text h with htext | htext
  · rw [htext]
    exact isPlainInLiteral_of_mem_display hproper
  · rw [htext]
    exact isPlainInLiteral_of_mem_group hproper

/-- Behind its sign, and a tilde if its text is escaped, a reference has no character that means anything else in a
    literal. -/
structure IsReference.Parts (text escape body : List Char) : Prop where
  eq_append : text = '@' :: (escape ++ body)
  escape : escape = [] ∨ escape = ['~']
  nonempty : body ≠ []
  plain : ∀ c ∈ body, IsPlainInLiteral c
  read : ∀ rest, ∃ piece, Lexeme.pathOrGroup (body ++ rest) = some piece

theorem IsReference.exists_parts {text : List Char} (h : IsReference text) :
    ∃ escape body, IsReference.Parts text escape body := by
  obtain ⟨⟨path, escape⟩, hpath, hspelling⟩ := h
  have hbare : path.display.toList ≠ [] := by
    obtain ⟨piece, hpiece⟩ := Lexeme.exists_pathOrGroup_display hpath []
    rw [List.append_nil] at hpiece
    intro hnil
    have hread := (Lexeme.pathOrGroup_readFrom hpiece).length
    rw [hnil] at hread
    exact absurd hread (Nat.not_lt_zero _)
  have hgroupRead : ∀ rest, ∃ piece,
      Lexeme.pathOrGroup ('(' :: path.display.toList ++ [')'] ++ rest) = some piece := by
    intro rest
    rw [List.append_assoc, List.singleton_append]
    exact ⟨_, Lexeme.pathOrGroup_group hpath rest⟩
  refine ⟨if escape then ['~'] else [], ?_⟩
  have hsign : (if escape then "@~" else "@").toList = '@' :: (if escape then ['~'] else []) := by
    cases escape <;> rfl
  have hescape : (if escape then ['~'] else []) = [] ∨ (if escape then ['~'] else []) = ['~'] := by
    cases escape
    · exact .inl rfl
    · exact .inr rfl
  rcases List.mem_cons.mp hspelling with htext | hspelling
  · refine ⟨path.display.toList, ?_, hescape, hbare, isPlainInLiteral_of_mem_display hpath,
      Lexeme.exists_pathOrGroup_display hpath⟩
    rw [← String.toList_ofList (l := text), htext, String.toList_append, hsign]
    rfl
  · have htext := List.mem_singleton.mp hspelling
    refine ⟨'(' :: path.display.toList ++ [')'], ?_, hescape, List.cons_ne_nil _ _, isPlainInLiteral_of_mem_group hpath,
      hgroupRead⟩
    rw [← String.toList_ofList (l := text), htext, String.toList_append, String.toList_append, String.toList_append,
      hsign]
    simp

theorem Lexeme.isReference_of_reference {cs : List Char} {piece : Piece Reference}
    (h : Lexeme.reference cs = some piece) : IsReference ('@' :: piece.text) :=
  ⟨piece.value, Lexeme.reference_isProper h, Lexeme.reference_writtenAs h⟩

/-- The reader of references sees a tilde where one is written, and only there. -/
theorem IsReference.Parts.exists_reference {text escape body : List Char} (h : IsReference.Parts text escape body)
    (rest : List Char) :
    ∃ piece : Piece Reference, Lexeme.reference (escape ++ body ++ rest) = some piece ∧
      ∃ body', piece.text = escape ++ body' ∧ ∀ c ∈ body', IsPlainInLiteral c := by
  obtain ⟨path, hpath⟩ := h.read rest
  rcases h.escape with rfl | rfl
  · have hhead : ∀ c ∈ ([] ++ body ++ rest).head?, c ≠ '~' := by
      rintro c hc rfl
      rw [List.nil_append, List.head?_append_of_ne_nil _ h.nonempty] at hc
      exact Bool.noConfusion (h.plain '~' (List.mem_of_mem_head? hc)).1
    rw [Lexeme.reference_of_head_ne hhead, List.nil_append, hpath]
    exact ⟨_, rfl, path.text, rfl, Lexeme.isPlainInLiteral_of_pathOrGroup hpath⟩
  · refine ⟨⟨⟨path.value, true⟩, '~' :: path.text, path.rest⟩, ?_, path.text, rfl,
      Lexeme.isPlainInLiteral_of_pathOrGroup hpath⟩
    show (Lexeme.pathOrGroup (body ++ rest)).map _ = _
    rw [hpath]
    rfl

/-- **The reader of references fails where none stands**, and only there. -/
theorem Lexeme.reference_eq_none {cs : List Char} : Lexeme.reference cs = none ↔ ¬ StartsReference ('@' :: cs) := by
  constructor
  · rintro hnone ⟨text, href, more, hmore⟩
    obtain ⟨escape, body, hparts⟩ := href.exists_parts
    rw [hparts.eq_append, List.cons_append] at hmore
    obtain ⟨piece, hpiece, -⟩ := hparts.exists_reference more
    rw [(List.cons.inj hmore).2, hnone] at hpiece
    cases hpiece
  · intro hstarts
    apply Option.eq_none_iff_forall_not_mem.mpr
    intro piece hpiece
    apply hstarts
    refine ⟨_, Lexeme.isReference_of_reference hpiece, piece.rest, ?_⟩
    rw [List.cons_append, (Lexeme.reference_readFrom hpiece).append]

end HtmlTemplate
