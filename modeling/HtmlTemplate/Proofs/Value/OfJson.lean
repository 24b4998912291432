import Mathlib.Data.List.Nodup
import HtmlTemplate.Proofs.Text.Numeral
import HtmlTemplate.Render.Environment
import HtmlTemplate.Value.Equality
import HtmlTemplate.Value.OfJson

/-!
# Paths into JSON

A path leads to the same place in a JSON document and in the value that the document becomes. A document is followed by
its own rules: a segment is the name of a member, or the decimal numeral of the place of an item (`Json.child?`). In the
value both are keys of maps, and the path is followed by the default resolver.

Everything rests on one step (`Value.default_ofJson`). For an object it says that the last member of a name is the one
that is found, and for an array that the keys are numerals. A number has one numeral only, digits without a zero in
front, so no key stands for two items and no other text is a key (`numeral?_eq_some_iff`).

## Contents

* `Json.child?` — one step into a document;
* `Path.follow` — a path, followed by steps of any kind up to the first that is missing;
* `Value.Holds` — the entries of a map, each under a key of its own;
* `Value.ofJson_addressed` — the main statement.
-/

namespace HtmlTemplate

/-! ## Steps into a document -/

/-- The document under a segment of a path: the last member of this name, or the item whose place has this numeral. -/
def Json.child? (document : Json) (segment : String) : Option Json :=
  match document with
  | .array items => (numeral? segment).bind fun place => items[place]?
  | .object members => members.reverse.lookup segment
  | _ => none

namespace Value

/-- Items that are numbered from `start` on are found by the numerals of their numbers. -/
theorem lookup_zipIdx (items : List Value) (start : Nat) (key : String) :
    ((items.zipIdx start).map fun item => (item.2.repr, item.1)).lookup key =
      (numeral? key).bind fun number => if start ≤ number then items[number - start]? else Option.none := by
  induction items generalizing start with
  | nil => simp
  | cons item items ih =>
    rw [List.zipIdx_cons, List.map_cons, List.lookup_cons, ih]
    cases hkey : numeral? key with
    | none =>
      have hne : (key == start.repr) = false := by
        rw [beq_eq_false_iff_ne]
        intro heq
        rw [numeral?_eq_some_iff.mpr heq] at hkey
        cases hkey
      rw [hne]
      rfl
    | some number =>
      obtain rfl := numeral?_eq_some_iff.mp hkey
      simp only [Option.bind_some]
      by_cases hnumber : number = start
      · subst hnumber
        rw [beq_self_eq_true, if_pos (Nat.le_refl _), Nat.sub_self]
        rfl
      · have hne : (number.repr == start.repr) = false := by
          rw [beq_eq_false_iff_ne]
          intro heq
          rw [numeral?_eq_some_iff.mpr heq] at hkey
          exact hnumber (Option.some.inj hkey).symm
        rw [hne]
        dsimp only
        by_cases hle : start + 1 ≤ number
        · rw [if_pos hle, if_pos (by omega), show number - start = number - (start + 1) + 1 by omega,
            List.getElem?_cons_succ]
        · rw [if_neg hle, if_neg (by omega)]

/-- **One step** into a value from a document finds what the step into the document finds. -/
theorem default_ofJson (document : Json) (segment : String) :
    Resolver.default (ofJson document) segment = (document.child? segment).map ofJson := by
  unfold Resolver.default Json.child?
  cases document with
  | array items =>
    rw [ofJson, ofJsonAll_eq_map, ofList, field?_map, lookup_zipIdx, Option.map_bind]
    congr 1
    funext place
    rw [if_pos (Nat.zero_le _), Nat.sub_zero, List.getElem?_map]
    rfl
  | object members =>
    rw [ofJson, ofJsonMembers_eq_map, ofEntries, field?_map, ← List.map_reverse, lookup_map_snd]
  | null | bool _ | number _ | string _ =>
    rw [ofJson]
    rfl

end Value

/-! ## Whole paths -/

/-- Follows a path by steps. The error is the number of steps that were made before the first one that is missing. -/
def Path.follow {α : Type} (step : α → String → Option α) : α → Path → Except Nat α
  | value, [] => .ok value
  | value, segment :: path =>
    match step value segment with
    | none => .error 0
    | some inner => (follow step inner path).mapError (· + 1)

/-- Steps that correspond to one another lead to places that do, and the same one is the first that is missing. -/
theorem Path.follow_map {α β : Type} {step : α → String → Option α} {step' : β → String → Option β} {f : α → β}
    (h : ∀ value segment, step' (f value) segment = (step value segment).map f) (value : α) (path : Path) :
    follow step' (f value) path = (follow step value path).map f := by
  induction path generalizing value with
  | nil => rfl
  | cons segment path ih =>
    rw [follow, follow, h]
    cases step value segment with
    | none => rfl
    | some inner =>
      dsimp only [Option.map_some]
      rw [ih]
      cases follow step inner path <;> rfl

/-- The resolver reports the segment of the first step that is missing. -/
theorem Resolver.walk_eq_follow (resolver : Resolver) (value : Value) (path : Path) :
    resolver.walk value path = (path.follow resolver value).mapError fun missing => path.getD missing "" := by
  induction path generalizing value with
  | nil => rfl
  | cons segment path ih =>
    rw [walk, Path.follow]
    cases resolver value segment with
    | none => rfl
    | some inner =>
      dsimp only
      rw [ih]
      cases Path.follow resolver inner path <;> rfl

/-- A path is followed from the parameters of a render on like from any value. -/
theorem Environment.resolve_params (resolver : Resolver) (value : Value) (segment : String) (path : Path) :
    resolve resolver (.params value) (segment :: path) = resolver.walk value (segment :: path) := by
  rw [resolve, lookup_params, Resolver.walk]

/-! ## All entries -/

namespace Value

/-- The value is a map with exactly these entries, each under a key of its own. -/
structure Holds (value : Value) (entries : List (String × Value)) : Prop where
  isMap : value.kind = .map
  nodup : (entries.map Prod.fst).Nodup
  get?_eq_some_iff : ∀ key inner, value.get? key = some inner ↔ (key, inner) ∈ entries

theorem lookup_eq_some_iff_mem {entries : List (String × Value)} (h : (entries.map Prod.fst).Nodup) {key : String}
    {inner : Value} : entries.lookup key = some inner ↔ (key, inner) ∈ entries := by
  refine ⟨mem_of_lookup_eq_some, fun hmem => ?_⟩
  induction entries with
  | nil => cases hmem
  | cons entry entries ih =>
    rw [List.map_cons, List.nodup_cons] at h
    rw [List.lookup_cons]
    rcases List.mem_cons.mp hmem with rfl | hmem
    · rw [beq_self_eq_true]
    · have hne : (key == entry.1) = false := by
        rw [beq_eq_false_iff_ne]
        rintro rfl
        exact h.1 (List.mem_map.mpr ⟨_, hmem, rfl⟩)
      rw [hne]
      exact ih h.2 hmem

theorem holds_map {entries : List (String × Value)} (h : (entries.map Prod.fst).Nodup) : (map entries).Holds entries :=
  ⟨rfl, h, fun _ _ => lookup_eq_some_iff_mem h⟩

/-- **Each item of an array has an entry**, under the numeral of its place. -/
theorem holds_array (items : List Json) :
    (ofJson (.array items)).Holds (items.zipIdx.map fun item => (item.2.repr, ofJson item.1)) := by
  have hentries : ofJson (.array items) = map (items.zipIdx.map fun item => (item.2.repr, ofJson item.1)) := by
    rw [ofJson, ofJsonAll_eq_map, ofList, List.zipIdx_map, List.map_map]
    rfl
  rw [hentries]
  apply holds_map
  rw [List.map_map]
  show (items.zipIdx.map (Nat.repr ∘ Prod.snd)).Nodup
  rw [← List.map_map, List.zipIdx_map_snd]
  -- Two numbers with one numeral are one number.
  apply List.Nodup.map _ List.nodup_range'
  intro m n hrepr
  have hnumeral := numeral?_eq_some_iff.mpr hrepr
  rw [numeral?_eq_some_iff.mpr rfl] at hnumeral
  exact Option.some.inj hnumeral

/-- **Each member of an object has an entry**, under its name. -/
theorem holds_object {members : List (String × Json)} (h : (members.map Prod.fst).Nodup) :
    (ofJson (.object members)).Holds (members.map fun member => (member.1, ofJson member.2)) := by
  have hnodup : ((members.map fun member => (member.1, ofJson member.2)).map Prod.fst).Nodup := by
    rwa [List.map_map]
  refine ⟨by rw [ofJson, ofEntries]; rfl, hnodup, fun key inner => ?_⟩
  rw [ofJson, ofJsonMembers_eq_map, ofEntries, get?_map, lookup_eq_some_iff_mem, List.mem_reverse]
  rwa [List.map_reverse, List.nodup_reverse]

/-! ## The main statement -/

/-- **A path leads to the same place in a document and in its value.** From the value it comes to the value of the
    document that it leads to, or the same step is the first one that is missing, and a render reports the segment of
    this step. Nothing is lost on the way: an array becomes a map with one entry for each item, and an object, in which
    no name is given twice, a map with one entry for each member. -/
theorem ofJson_addressed :
    (∀ (document : Json) (segment : String) (path : Path),
      let reached := Path.follow Json.child? document (segment :: path)
      Path.follow Resolver.default (ofJson document) (segment :: path) = reached.map ofJson ∧
      Environment.resolve .default (.params (ofJson document)) (segment :: path) =
        (reached.map ofJson).mapError fun missing => (segment :: path).getD missing "") ∧
    (∀ items : List Json,
      (ofJson (.array items)).Holds (items.zipIdx.map fun item => (item.2.repr, ofJson item.1))) ∧
    ∀ members : List (String × Json), (members.map Prod.fst).Nodup →
      (ofJson (.object members)).Holds (members.map fun member => (member.1, ofJson member.2)) := by
  refine ⟨fun document segment path => ?_, holds_array, fun members => holds_object⟩
  have hfollow := Path.follow_map default_ofJson document (segment :: path)
  refine ⟨hfollow, ?_⟩
  rw [Environment.resolve_params, Resolver.walk_eq_follow, hfollow]

/-- The text in an object that is the second item of an array, and a numeral with a zero in front, which is no key of
    the array. -/
theorem ofJson_addressed_nested :
    let members : List (String × Json) := [("list", .array [.null, .object [("x", .string "y")]]), ("other", .null)]
    Environment.resolve .default (.params (ofJson (.object members))) ["list", "1", "x"] = .ok (.string "y") ∧
      Path.follow Resolver.default (ofJson (.object members)) ["list", "01", "x"] = .error 1 ∧
      (members.map Prod.fst).Nodup ∧
      (ofJson (.object members)).Holds
        [("list", ofJson (.array [.null, .object [("x", .string "y")]])), ("other", none)] := by
  intro members
  obtain ⟨hpath, -, hobject⟩ := ofJson_addressed
  have hnodup : (members.map Prod.fst).Nodup := by decide
  refine ⟨?_, ?_, hnodup, ?_⟩
  · have hreached : Path.follow Json.child? (.object members) ["list", "1", "x"] = .ok (.string "y") := rfl
    rw [(hpath (.object members) "list" ["1", "x"]).2, hreached]
    rfl
  · rw [(hpath (.object members) "list" ["01", "x"]).1]
    rfl
  · exact hobject members hnodup

end Value

end HtmlTemplate
