/-!
# The order of texts is the order of their bytes

Texts are compared character by character. Their UTF-8 bytes, compared one by one, stand in the same order, since the
bytes of two characters differ before either of them comes to its end, and the smaller character has the smaller byte
where they differ first (`diverges_utf8EncodeChar`).

## Contents

* `utf8Bytes` — the bytes of a text;
* `Diverges` — lists of bytes that differ, the first of them being smaller there;
* `utf8Bytes_lt` — a smaller text has smaller bytes.
-/

namespace HtmlTemplate

/-- The bytes of a text. -/
def utf8Bytes (text : String) : List UInt8 := text.toByteArray.data.toList

theorem utf8Bytes_eq_flatMap (text : String) : utf8Bytes text = text.toList.flatMap String.utf8EncodeChar := by
  unfold utf8Bytes
  rw [← String.utf8Encode_toList]
  simp [List.utf8Encode]

/-! ## Where bytes differ -/

/-- The lists are equal up to a place where both have a byte, and the first has the smaller one there. -/
inductive Diverges : List UInt8 → List UInt8 → Prop where
  | head {byte byte' : UInt8} (h : byte < byte') (more more' : List UInt8) : Diverges (byte :: more) (byte' :: more')
  | cons (byte : UInt8) {bytes bytes' : List UInt8} (h : Diverges bytes bytes') :
    Diverges (byte :: bytes) (byte :: bytes')

namespace Diverges

variable {bytes bytes' : List UInt8}

theorem append_lt (h : Diverges bytes bytes') (more more' : List UInt8) : bytes ++ more < bytes' ++ more' := by
  induction h with
  | head hbyte => exact .rel hbyte
  | cons byte _ ih => exact .cons ih

/-- One byte after the other, a smaller one settles it. -/
theorem of_le {m n : Nat} (h : m ≤ n) (hn : n < 256) (hmore : m = n → Diverges bytes bytes') :
    Diverges (UInt8.ofNat m :: bytes) (UInt8.ofNat n :: bytes') := by
  rcases Nat.lt_or_eq_of_le h with hlt | rfl
  · apply head
    rw [UInt8.lt_iff_toNat_lt, UInt8.toNat_ofNat_of_lt' (Nat.lt_trans hlt hn), UInt8.toNat_ofNat_of_lt' hn]
    exact hlt
  · exact cons _ (hmore rfl)

end Diverges

/-- **The bytes of a smaller character diverge** from those of a greater one. -/
theorem diverges_utf8EncodeChar {c d : Char} (h : c < d) :
    Diverges (String.utf8EncodeChar c) (String.utf8EncodeChar d) := by
  have hlt : c.val.toNat < d.val.toNat := h
  have hbound : d.val.toNat < 0x110000 := by
    have := d.valid
    unfold UInt32.isValidChar Nat.isValidChar at this
    omega
  unfold String.utf8EncodeChar
  generalize c.val.toNat = m at hlt
  generalize d.val.toNat = n at hlt hbound
  dsimp only
  -- With more bytes the first one is greater. With as many the digits are compared from the front.
  split
  · repeat' split
    all_goals exact .of_le (by omega) (by omega) (by omega)
  split
  · split
    · omega
    split
    · exact .of_le (by omega) (by omega) fun _ => .of_le (by omega) (by omega) (by omega)
    split
    all_goals exact .of_le (by omega) (by omega) (by omega)
  split
  · split
    · omega
    split
    · omega
    split
    · refine .of_le (by omega) (by omega) fun _ => .of_le (by omega) (by omega) fun _ => ?_
      exact .of_le (by omega) (by omega) (by omega)
    · exact .of_le (by omega) (by omega) (by omega)
  split
  · omega
  split
  · omega
  split
  · omega
  · refine .of_le (by omega) (by omega) fun _ => .of_le (by omega) (by omega) fun _ => ?_
    exact .of_le (by omega) (by omega) fun _ => .of_le (by omega) (by omega) (by omega)

/-- **A smaller text has smaller bytes.** -/
theorem utf8Bytes_lt {text text' : String} (h : text < text') : utf8Bytes text < utf8Bytes text' := by
  rw [utf8Bytes_eq_flatMap, utf8Bytes_eq_flatMap]
  have hchars : text.toList < text'.toList := String.lt_iff.mp h
  generalize text.toList = cs, text'.toList = ds at hchars
  induction hchars with
  | @nil d ds =>
    rw [List.flatMap_cons]
    have hne : String.utf8EncodeChar d ≠ [] := by simp
    obtain ⟨byte, bytes, hbytes⟩ := List.exists_cons_of_ne_nil hne
    rw [hbytes]
    exact .nil
  | @cons c cs ds _ ih =>
    rw [List.flatMap_cons, List.flatMap_cons]
    exact List.append_left_lt ih
  | @rel c cs d ds hlt =>
    rw [List.flatMap_cons, List.flatMap_cons]
    exact (diverges_utf8EncodeChar hlt).append_lt _ _

end HtmlTemplate
