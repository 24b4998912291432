import Mathlib.Data.List.Forall2
import HtmlTemplate.Value.Equality

/-!
# Equality is a partial equivalence

Equality of values is symmetric and transitive. It is not reflexive: a NaN is not equal to itself, and so neither is a
map with a NaN in it, at whatever depth. Every other value is. An object of the host is equal to itself in any case,
since it is known by its identity and not looked into.

Equality does not tell the two zeros apart, nor the orders in which the entries of maps come. But these differences
are never seen: values that are equal have the same kind, the same text, and equal values under the same keys
(`Value.Interchangeable`). For objects this is a matter of their identities, which have to be theirs alone.

## Contents

* `Number.equal_trans`, `Number.display_eq_of_equal` — numbers that are equal, and their texts;
* `Value.entriesRec` — induction on the depth of maps;
* `Value.equal_map_iff` — maps are equal if they are equal under every key;
* `Value.equal_symm`, `Value.equal_trans` — the equivalence;
* `Value.Occurs`, `Value.equal_self_iff` — values that are equal to themselves;
* `Value.Interchangeable`, `Value.interchangeable_of_equal` — what is the same about equal values.
-/

namespace HtmlTemplate

/-! ## Numbers -/

namespace Number

variable {x y z : Number}

/-- Numbers are equal if neither is a NaN, and they are the same or both zero. -/
theorem equal_iff : x.equal y = true ↔
    x.isNaN = false ∧ y.isNaN = false ∧ (x = y ∨ x.magnitude = 0 ∧ y.magnitude = 0) := by
  have hbits : x.bits = y.bits ↔ x = y := ⟨fun h => by cases x; cases y; exact congrArg mk h, congrArg bits⟩
  simp [equal, hbits, and_assoc]

theorem equal_trans (h : x.equal y = true) (h' : y.equal z = true) : x.equal z = true := by
  rw [equal_iff] at h h' ⊢
  obtain ⟨hx, -, h⟩ := h
  obtain ⟨-, hz, h'⟩ := h'
  refine ⟨hx, hz, ?_⟩
  rcases h with rfl | ⟨hx0, hy0⟩
  · exact h'
  · rcases h' with rfl | ⟨-, hz0⟩
    · exact .inr ⟨hx0, hy0⟩
    · exact .inr ⟨hx0, hz0⟩

/-- Both zeros are written without a sign. -/
theorem display_of_magnitude_eq_zero (h : x.magnitude = 0) : x.display = "0" := by
  have hexponent : x.exponentField = 0 := by simp [exponentField, h]
  have hmantissa : x.mantissa = 0 := by simp [mantissa, hexponent, fraction, h]
  have hfinite : x.isFinite = true := by simp [isFinite, hexponent, maxExponentField]
  have hint : x.isInt = true := by simp [isInt, hfinite, hmantissa]
  have htruncated : x.truncated = 0 := by simp [truncated, hmantissa]
  have hinteger : x.toInt64 = 0 := by
    unfold toInt64
    rw [htruncated]
    cases x.isNaN <;> cases x.negative <;> rfl
  simp only [display, hint, htruncated, integerLimit, hinteger]
  rfl

/-- **Equal numbers are written alike.** -/
theorem display_eq_of_equal (h : x.equal y = true) : x.display = y.display := by
  obtain ⟨-, -, rfl | ⟨hx, hy⟩⟩ := equal_iff.mp h
  · rfl
  · rw [display_of_magnitude_eq_zero hx, display_of_magnitude_eq_zero hy]

end Number

namespace Value

/-! ## Maps -/

/-- Induction on the depth of maps: what holds of all values found in a map holds of the map. -/
@[elab_as_elim]
theorem entriesRec {motive : Value → Prop} (string : ∀ text, motive (.string text)) (number : ∀ x, motive (.number x))
    (bool : ∀ value, motive (.bool value))
    (map : ∀ entries, (∀ key inner, entries.lookup key = some inner → motive inner) → motive (.map entries))
    (object : ∀ host, motive (.object host)) (none : motive .none) : ∀ value, motive value
  | .string text => string text
  | .number x => number x
  | .bool value => bool value
  | .map entries => map entries fun _ inner _h => entriesRec string number bool map object none inner
  | .object host => object host
  | .none => none
termination_by value => sizeOf value
decreasing_by exact sizeOf_lt_of_lookup _h

theorem lookup_eq_none_of_not_mem {key : String} {entries : List (String × Value)}
    (h : key ∉ entries.map Prod.fst) : entries.lookup key = Option.none := by
  rw [Option.eq_none_iff_forall_ne_some]
  exact fun value hfound => h (List.mem_map_of_mem (mem_of_lookup_eq_some hfound))

/-- What is found in two places is related in another way if that follows where both have something. -/
theorem rel_of_forall {α β : Type} {R S : α → β → Prop} {found : Option α} {found' : Option β}
    (h : Option.Rel R found found')
    (himp : ∀ value value', found = some value → found' = some value' → R value value' → S value value') :
    Option.Rel S found found' := by
  cases h with
  | none => exact .none
  | some hvalue => exact .some (himp _ _ rfl rfl hvalue)

/-- **Maps are equal** if under each key there are equal values, or none. -/
theorem equal_map_iff {entries entries' : List (String × Value)} :
    (map entries).equal (map entries') = true ↔
      ∀ key, Option.Rel (fun value value' => value.equal value' = true) (entries.lookup key) (entries'.lookup key) := by
  rw [equal, List.all_eq_true]
  constructor
  · intro h key
    by_cases hkey : key ∈ entries.map Prod.fst ++ entries'.map Prod.fst
    · have htest := h key hkey
      revert htest
      generalize entries.lookup key = found, entries'.lookup key = found'
      rcases found with _ | value <;> rcases found' with _ | value' <;> simp
    · -- A key that neither map has is not tested.
      obtain ⟨hmem, hmem'⟩ := not_or.mp (mt List.mem_append.mpr hkey)
      rw [lookup_eq_none_of_not_mem hmem, lookup_eq_none_of_not_mem hmem']
      exact .none
  · intro h key _
    have hkey := h key
    generalize entries.lookup key = found, entries'.lookup key = found' at hkey
    cases hkey with
    | none => rfl
    | some hequal => exact hequal

/-! ## The equivalence -/

theorem equal_symm_of {value value' : Value} (h : value.equal value' = true) : value'.equal value = true := by
  induction value using entriesRec generalizing value' with
  | map entries ih =>
    cases value' with
    | map entries' =>
      rw [equal_map_iff] at h ⊢
      intro key
      have hkey := h key
      have hinner := ih key
      generalize entries.lookup key = found, entries'.lookup key = found' at hkey hinner
      cases hkey with
      | none => exact .none
      | some hequal => exact .some (hinner _ rfl hequal)
    | _ => simp [equal] at h
  | number x =>
    cases value' with
    | number y => rwa [equal, Number.equal_symm, ← equal]
    | _ => simp [equal] at h
  | _ => cases value' <;> simp_all [equal]

/-- **Equality is symmetric.** -/
theorem equal_symm (value value' : Value) : value.equal value' = value'.equal value :=
  Bool.eq_iff_iff.mpr ⟨equal_symm_of, equal_symm_of⟩

/-- **Equality is transitive.** -/
theorem equal_trans {value value' other : Value} (h : value.equal value' = true) (h' : value'.equal other = true) :
    value.equal other = true := by
  induction value using entriesRec generalizing value' other with
  | map entries ih =>
    cases value' with
    | map entries' =>
      cases other with
      | map others =>
        rw [equal_map_iff] at h h' ⊢
        intro key
        -- The entry of the map in the middle, if there is one, links the other two.
        have hkey := h key
        have hkey' := h' key
        have hinner := ih key
        generalize entries.lookup key = found, entries'.lookup key = found', others.lookup key = last
          at hkey hkey' hinner
        cases hkey with
        | none => exact hkey'
        | some hequal =>
          cases hkey' with
          | some hequal' => exact .some (hinner _ rfl hequal hequal')
      | _ => simp [equal] at h'
    | _ => simp [equal] at h
  | number x =>
    cases value' with
    | number y =>
      cases other with
      | number z =>
        rw [equal] at h h' ⊢
        exact Number.equal_trans h h'
      | _ => simp [equal] at h'
    | _ => simp [equal] at h
  | _ => cases value' <;> cases other <;> simp_all [equal]

/-! ## Values that are equal to themselves -/

/-- The first value is the second one, or is found in its entries, at any depth. -/
inductive Occurs (inner : Value) : Value → Prop where
  | here : Occurs inner inner
  | entry {entries : List (String × Value)} {key : String} {value : Value} (hfound : entries.lookup key = some value)
    (h : Occurs inner value) : Occurs inner (.map entries)

/-- **A value is equal to itself** if no NaN occurs in it. -/
theorem equal_self_iff (value : Value) :
    value.equal value = true ↔ ∀ x, (number x).Occurs value → x.isNaN = false := by
  induction value using entriesRec with
  | number x =>
    rw [equal, Number.equal_self, Bool.not_eq_true']
    constructor
    · rintro h _ ⟨⟩
      exact h
    · exact fun h => h x .here
  | map entries ih =>
    rw [equal_map_iff]
    constructor
    · intro h x hoccurs
      cases hoccurs with
      | @entry _ key value hfound hoccurs =>
        have hkey := h key
        rw [hfound] at hkey
        cases hkey with
        | some hequal => exact (ih key value hfound).mp hequal x hoccurs
    · intro h key
      cases hfound : entries.lookup key with
      | none => exact .none
      | some value => exact .some ((ih key value hfound).mpr fun x hoccurs => h x (.entry hfound hoccurs))
  | string _ | bool _ | object _ | none =>
    refine ⟨?_, fun _ => by simp [equal]⟩
    rintro - x ⟨⟩

/-! ## What is the same about equal values -/

/-- Values that cannot be told apart by kinds, texts and entries: at most the signs of zeros and the orders of entries
    are different. -/
inductive Interchangeable : Value → Value → Prop where
  | refl (value : Value) : Interchangeable value value
  | number {x y : Number} (h : x.equal y = true) : Interchangeable (.number x) (.number y)
  | map {entries entries' : List (String × Value)}
    (h : ∀ key, Option.Rel Interchangeable (entries.lookup key) (entries'.lookup key)) :
    Interchangeable (.map entries) (.map entries')

namespace Interchangeable

variable {value value' : Value}

theorem kind (h : value.Interchangeable value') : value.kind = value'.kind := by
  cases h <;> rfl

theorem text (h : value.Interchangeable value') : value.text = value'.text := by
  cases h with
  | refl => rfl
  | number h => exact congrArg some (Number.display_eq_of_equal h)
  | map _ => rfl

theorem field? (h : value.Interchangeable value') (key : String) :
    Option.Rel Interchangeable (value.field? key) (value'.field? key) := by
  cases h with
  | refl =>
    cases value.field? key with
    | none => exact .none
    | some inner => exact .some (.refl inner)
  | number _ => exact .none
  | map h => exact h key

end Interchangeable

/-- **Equal values are interchangeable**, if objects that occur in them are the same whenever their identities are. -/
theorem interchangeable_of_equal {value value' : Value} (h : value.equal value' = true)
    (hobjects : ∀ host host', (object host).Occurs value → (object host').Occurs value' → host.id = host'.id →
      host = host') : value.Interchangeable value' := by
  induction value using entriesRec generalizing value' with
  | map entries ih =>
    cases value' with
    | map entries' =>
      refine .map fun key => rel_of_forall (equal_map_iff.mp h key) ?_
      intro inner inner' hfound hfound' hequal
      apply ih key inner hfound hequal
      intro host host' hoccurs hoccurs'
      exact hobjects host host' (.entry hfound hoccurs) (.entry hfound' hoccurs')
    | _ => simp [equal] at h
  | number x =>
    cases value' with
    | number y => exact .number (by rwa [equal] at h)
    | _ => simp [equal] at h
  | object host =>
    cases value' with
    | object host' =>
      have hid : host.id = host'.id := by simpa [equal] using h
      rw [hobjects host host' .here .here hid]
      exact .refl _
    | _ => simp [equal] at h
  | _ => cases value' <;> simp_all [equal, Interchangeable.refl]

end Value

end HtmlTemplate
