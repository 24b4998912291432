import HtmlTemplate.Proofs.Alike.Compiles
import HtmlTemplate.Proofs.Alike.Renders
import HtmlTemplate.Proofs.Session.FailedCompile
import HtmlTemplate.Proofs.Session.Optimization
import HtmlTemplate.Proofs.Token.Join

/-!
# Compiling joined sources

If a source compiles, then compiling it with another text behind it comes to compiling the two one after the other
(`Engine.compile_append`). The first source is nothing but comments and definitions, so it ends with a closing token,
and what is read behind it in the joined source is what would be read from a source of its own. The definitions of the
first source are put in alike (`Engine.defineAll_parts`), and those of the second are read against the same names
(`Engine.defineAll_alike`).

## Contents

* `Registry.Alike` — tables with trees that are alike;
* `Engine.defineParts`, `defineAll_parts` — the definitions in front are put in first;
* `Engine.defineAll_alike` — definitions that are read against the same names;
* `Cause.Alike`, `Diagnostic.Behind` — the errors of two compiles;
* `Engine.compile_append` — the main statement.
-/

namespace HtmlTemplate

open Grammar

variable {σ : Type}

/-! ## Tables -/

/-- Calls look into the same table. -/
def sameBinding (_name : String) (target target' : Binding) : Prop := target = target'

/-- The place is the same, or that of a text which is put behind another one in source `file`. -/
def Location.Joined (file : Nat) (front : String) (joined place : Location) : Prop :=
  joined = place ∨ Location.Behind file front.toList joined place

/-- The tables have the same names, with the same functions of the host and with trees that are alike. -/
structure Registry.Alike (place : Location → Location → Prop) (binding : String → Binding → Binding → Prop)
    (registry registry' : Registry σ) : Prop where
  internal : ∀ name, Option.Rel (Node.Alike place binding) (registry.internal? name) (registry'.internal? name)
  external : ∀ name, Option.Rel (Template.Alike place binding) (registry.external? name) (registry'.external? name)

namespace Registry.Alike

variable {place : Location → Location → Prop} {binding : String → Binding → Binding → Prop}
variable {registry registry' : Registry σ}

theorem refl (hplace : ∀ location, place location location) (hbinding : ∀ name target, binding name target target)
    (registry : Registry σ) : registry.Alike place binding registry where
  internal name := by
    cases registry.internal? name with
    | none => exact .none
    | some tree => exact .some (Node.Alike.refl hplace hbinding tree)
  external name := by
    cases registry.external? name with
    | none => exact .none
    | some template =>
      cases template with
      | native function => exact .some (.native function)
      | compiled tree => exact .some (.compiled (Node.Alike.refl hplace hbinding tree))

theorem define (h : registry.Alike place binding registry') (name : String) {tree tree' : Node}
    (htree : tree.Alike place binding tree') :
    (registry.define name tree).Alike place binding (registry'.define name tree') where
  internal other := by
    rw [internal?_define, internal?_define]
    split
    · exact .some htree
    · exact h.internal other
  external other := by
    rw [external?_define, external?_define]
    split
    · exact .some (.compiled htree)
    · exact h.external other

theorem register (h : registry.Alike place binding registry') (name : String) (function : Native σ) :
    (registry.register name function).Alike place binding (registry'.register name function) where
  internal := h.internal
  external other := by
    rw [external?_register, external?_register]
    split
    · exact .some (.native function)
    · exact h.external other

theorem trans {other : Registry σ} (hplace : ∀ a b c, place a b → place b c → place a c)
    (hbinding : ∀ name a b c, binding name a b → binding name b c → binding name a c)
    (h : registry.Alike place binding registry') (h' : registry'.Alike place binding other) :
    registry.Alike place binding other where
  internal name := by
    have hname := h.internal name
    have hname' := h'.internal name
    generalize registry.internal? name = found, registry'.internal? name = found' at hname hname'
    cases hname with
    | none => exact hname'
    | some htree =>
      generalize other.internal? name = last at hname'
      cases hname' with
      | some htree' => exact .some (htree.trans hplace hbinding htree')
  external name := by
    have hname := h.external name
    have hname' := h'.external name
    generalize registry.external? name = found, registry'.external? name = found' at hname hname'
    cases hname with
    | none => exact hname'
    | some htemplate =>
      generalize other.external? name = last at hname'
      cases hname' with
      | some htemplate' => exact .some (htemplate.trans hplace hbinding htemplate')

theorem isInternal (h : registry.Alike place binding registry') : registry.isInternal = registry'.isInternal := by
  funext name
  have hname := h.internal name
  unfold Registry.isInternal
  generalize registry.internal? name = found, registry'.internal? name = found' at hname
  cases hname <;> rfl

theorem names (h : registry.Alike place binding registry') : registry.names = registry'.names := by
  apply names_eq_of_isDefined
  intro name
  have hname := h.external name
  unfold Registry.isDefined
  generalize registry.external? name = found, registry'.external? name = found' at hname
  cases hname <;> rfl

end Registry.Alike

namespace Engine

/-! ## Definitions in front -/

theorem defineAll_of_length_le (file : Nat) {bound bound' : Nat} (engine : Engine σ) {tokens : List Token}
    (h : tokens.length ≤ bound) (h' : tokens.length ≤ bound') :
    defineAll file bound engine tokens = defineAll file bound' engine tokens := by
  induction bound generalizing bound' engine tokens with
  | zero =>
    rw [List.eq_nil_of_length_eq_zero (Nat.le_zero.mp h)]
    cases bound' <;> rfl
  | succ bound ih =>
    cases bound' with
    | zero =>
      rw [List.eq_nil_of_length_eq_zero (Nat.le_zero.mp h')]
      rfl
    | succ bound' =>
      unfold defineAll
      cases hfound : Definition.nextDefinition ⟨file, engine.registry.isInternal⟩ tokens with
      | error error rest => rfl
      | ok found rest =>
        cases found with
        | none => rfl
        | some definition =>
          have hlength := Definition.length_lt_of_nextDefinition hfound
          exact ih _ (by omega) (by omega)

/-- Puts in the definitions among some parts of a source, each read against those before it. -/
def defineParts (file : Nat) : Engine σ → List Part → Engine σ
  | engine, [] => engine
  | engine, .comment _ :: parts => defineParts file engine parts
  | engine, .definition d :: parts =>
    let definition := d.definition ⟨file, engine.registry.isInternal⟩
    defineParts file (engine.define definition.name definition.body) parts

/-- **The definitions in front are put in first**, whatever comes behind them. -/
theorem defineAll_parts (file : Nat) {bound : Nat} (engine : Engine σ) {parts : List Part} {more : List Token}
    (hbound : (parts.flatMap Part.tokens ++ more).length ≤ bound) :
    defineAll file bound engine (parts.flatMap Part.tokens ++ more) =
      defineAll file more.length (engine.defineParts file parts) more := by
  induction parts generalizing bound engine with
  | nil => exact defineAll_of_length_le file engine hbound (Nat.le_refl _)
  | cons part parts ih =>
    cases part with
    | comment comment =>
      have hmore : (parts.flatMap Part.tokens ++ more).length ≤ bound := Nat.le_of_succ_le hbound
      obtain ⟨bound, rfl⟩ := Nat.exists_eq_succ_of_ne_zero (Nat.ne_zero_of_lt hbound)
      exact ih engine hmore
    | definition d =>
      have hfound : Definition.nextDefinition ⟨file, engine.registry.isInternal⟩
          (d.tokens ++ (parts.flatMap Part.tokens ++ more)) =
            .ok (some (d.definition ⟨file, engine.registry.isInternal⟩)) (parts.flatMap Part.tokens ++ more) :=
        Definition.nextDefinition_eq_some.mpr ⟨[], d, rfl, rfl⟩
      have hlength : 0 < d.tokens.length := List.length_pos_iff.mpr d.tokens_ne_nil
      rw [List.flatMap_cons, Part.tokens, List.append_assoc] at hbound ⊢
      rw [List.length_append] at hbound
      obtain ⟨bound, rfl⟩ := Nat.exists_eq_succ_of_ne_zero (show bound ≠ 0 by omega)
      rw [defineAll, hfound]
      exact ih _ (by omega)

/-- A source that is put in without an error consists of comments and definitions. -/
theorem exists_parts_of_defineAll (file : Nat) {bound : Nat} {engine : Engine σ} {inner : List Token} {eof : Location}
    (hbound : inner.length < bound) (hinner : ∀ token ∈ inner, token.kind ≠ .eof)
    (h : (defineAll file bound engine (inner ++ [eof.token .eof])).2 = none) :
    ∃ parts : List Part, inner = parts.flatMap Part.tokens := by
  induction bound generalizing engine inner with
  | zero => exact absurd hbound (Nat.not_lt_zero _)
  | succ bound ih =>
    unfold defineAll at h
    cases hfound : Definition.nextDefinition ⟨file, engine.registry.isInternal⟩ (inner ++ [eof.token .eof]) with
    | error error rest =>
      rw [hfound] at h
      cases h
    | ok found rest =>
      rw [hfound] at h
      cases found with
      | none =>
        obtain ⟨comments, ⟨hcomments, -⟩ | ⟨eof', hcomments⟩⟩ := Definition.nextDefinition_eq_none.mp hfound
        · have hmem : eof.token .eof ∈ commentTokens comments := by
            rw [← hcomments]
            exact List.mem_append_right _ List.mem_cons_self
          exact absurd rfl (commentTokens_ne_eof hmem)
        · obtain ⟨rfl, -, -⟩ := append_eof_inj hinner (fun _ => commentTokens_ne_eof) rfl rfl hcomments
          exact ⟨commentParts comments, (tokens_commentParts comments).symm⟩
      | some definition =>
        obtain ⟨comments, d, htokens, -⟩ := Definition.nextDefinition_eq_some.mp hfound
        obtain ⟨more, rfl, rfl⟩ := Def.eof_behind htokens
        have hlength : 0 < d.tokens.length := List.length_pos_iff.mpr d.tokens_ne_nil
        rw [List.length_append, List.length_append] at hbound
        obtain ⟨parts, hparts⟩ := ih (by omega) (fun token htoken => hinner token (by simp [htoken])) h
        refine ⟨commentParts comments ++ .definition d :: parts, ?_⟩
        rw [List.flatMap_append, tokens_commentParts, List.flatMap_cons, ← hparts]
        rfl

/-- Comments and definitions end with closing tokens. -/
theorem closes_of_mem_getLast? {parts : List Part} {token : Token}
    (h : token ∈ (parts.flatMap Part.tokens).getLast?) : token.kind.closes = true := by
  obtain rfl | ⟨before, last, rfl⟩ := List.eq_nil_or_concat parts
  · cases h
  · rw [List.concat_eq_append, List.flatMap_append, List.flatMap_singleton] at h
    cases last with
    | comment comment =>
      rw [Part.tokens, List.getLast?_concat] at h
      cases h
      rfl
    | definition d =>
      obtain ⟨front, rbrace, hd⟩ := d.tokens_eq_append
      rw [Part.tokens, hd, ← List.append_assoc, List.getLast?_concat] at h
      cases h
      rfl

/-! ## Definitions behind -/

/-- **Definitions that are read against the same names** leave tables that are alike, and stop at the same error. The
    places in the trees that were there before may be others than those in what is read. -/
theorem defineAll_alike {place place' : Location → Location → Prop}
    (hplace : ∀ location location', place location location' → place' location location') (file file' bound : Nat)
    {engine engine' : Engine σ} (hoptimize : engine.optimize = engine'.optimize)
    (h : engine.registry.Alike place' sameBinding engine'.registry) {tokens tokens' : List Token}
    (htokens : List.Forall₂ (Token.Alike place) tokens tokens') :
    (defineAll file bound engine tokens).1.registry.Alike place' sameBinding
        (defineAll file' bound engine' tokens').1.registry ∧
      Option.Rel (SyntaxError.Alike place) (defineAll file bound engine tokens).2
        (defineAll file' bound engine' tokens').2 := by
  induction bound generalizing engine engine' tokens tokens' with
  | zero => exact ⟨h, .none⟩
  | succ bound ih =>
    have hscope : Definition.ScopesAlike sameBinding ⟨file, engine.registry.isInternal⟩
        ⟨file', engine'.registry.isInternal⟩ := by
      intro name
      unfold sameBinding CallScope.binding
      rw [h.isInternal]
    have hnext := Definition.nextDefinition_alike hscope tokens tokens' htokens
    unfold defineAll
    generalize Definition.nextDefinition _ tokens = answer, Definition.nextDefinition _ tokens' = answer' at hnext
    cases hnext with
    | error herror _ => exact ⟨h, .some herror⟩
    | ok hfound hrest =>
      cases hfound with
      | none => exact ⟨h, .none⟩
      | @some definition definition' hdefinition =>
        have hbody := hdefinition.body.mono hplace
        have hdefined : (engine.define definition.name definition.body).registry.Alike place' sameBinding
            (engine'.define definition'.name definition'.body).registry := by
          unfold define
          rw [hdefinition.name, hoptimize]
          apply h.define
          split
          · exact hbody.flatten
          · exact hbody
        have hkept : (engine.define definition.name definition.body).optimize =
            (engine'.define definition'.name definition'.body).optimize := hoptimize
        exact ih hkept hdefined hrest

end Engine

/-! ## Errors -/

theorem Token.Alike.describe {place : Location → Location → Prop} {token token' : Token}
    (h : token.Alike place token') : token.describe = token'.describe := by
  cases h with
  | other _ _ => rfl
  | @literal segments segments' _ _ _ _ hplace hsegments =>
    have hshown : segments.map (fun segment => segment.1.display) =
        segments'.map fun segment => segment.1.display := by
      clear hplace
      induction hsegments with
      | nil => rfl
      | cons hsegment _ ih => rw [List.map_cons, List.map_cons, hsegment.1, ih]
    unfold Token.describe TokenKind.display
    dsimp only
    rw [hshown]

/-- The causes are the same, but for their places. -/
inductive Cause.Alike (place : Location → Location → Prop) : Cause → Cause → Prop where
  | scan {error error' : ScanError} (h : error.Alike place error') : Alike place (.scan error) (.scan error')
  | parse {error error' : SyntaxError} (h : error.Alike place error') : Alike place (.parse error) (.parse error')

namespace Cause.Alike

variable {place : Location → Location → Prop} {cause cause' : Cause}

theorem code (h : cause.Alike place cause') : cause.code = cause'.code := by
  cases h with
  | scan h =>
    cases h with
    | fault fault _ => cases fault <;> rfl
    | endOfSource _ _ => rfl
  | parse h =>
    cases h with
    | fault fault _ => cases fault <;> rfl
    | endOfTokens _ _ => rfl

theorem message (h : cause.Alike place cause') : cause.message = cause'.message := by
  cases h with
  | scan h =>
    cases h with
    | fault fault _ => cases fault <;> rfl
    | endOfSource _ _ => rfl
  | parse h =>
    cases h with
    | fault fault htoken =>
      unfold Cause.message SyntaxError.message
      dsimp only
      rw [htoken.describe]
    | endOfTokens file file' => rfl

theorem help (h : cause.Alike place cause') : cause.help = cause'.help := by
  cases h with
  | scan h =>
    cases h with
    | fault fault _ => cases fault <;> rfl
    | endOfSource _ _ => rfl
  | parse h =>
    cases h with
    | fault fault _ => cases fault <;> rfl
    | endOfTokens _ _ => rfl

/-- If one error has a place, then both have, and these may stand for one another. -/
theorem exists_origin (h : cause.Alike place cause') {spot : Location}
    (hspot : cause'.origin = some (spot.file, some spot.range)) :
    ∃ location location' : Location, cause.origin = some (location.file, some location.range) ∧
      cause'.origin = some (location'.file, some location'.range) ∧ place location location' := by
  cases h with
  | scan h =>
    cases h with
    | fault fault hplace => exact ⟨_, _, rfl, rfl, hplace⟩
    | endOfSource _ _ => cases hspot
  | parse h =>
    cases h with
    | fault fault htoken => exact ⟨_, _, rfl, rfl, htoken.location⟩
    | endOfTokens _ _ => cases hspot

end Cause.Alike

theorem Engine.firstError_alike {place : Location → Location → Prop} {error error' : Option SyntaxError}
    {fault fault' : Option ScanError} (herror : Option.Rel (SyntaxError.Alike place) error error')
    (hfault : Option.Rel (ScanError.Alike place) fault fault') :
    Option.Rel (Cause.Alike place) (firstError error fault) (firstError error' fault') := by
  cases herror with
  | none =>
    cases hfault with
    | none => exact .none
    | some hfault => exact .some (.scan hfault)
  | some herror =>
    cases herror with
    | fault cause htoken => exact .some (.parse (.fault cause htoken))
    | endOfTokens file file' =>
      cases hfault with
      | none => exact .some (.parse (.endOfTokens file file'))
      | some hfault => exact .some (.scan hfault)

/-- The errors are the same, at the same token or character, and the one in the joined source stands behind the front
    there. -/
structure Diagnostic.Behind (file : Nat) (front : String) (joined diagnostic : Diagnostic) : Prop where
  cause : joined.cause.Alike (Location.Behind file front.toList) diagnostic.cause
  code : joined.cause.code = diagnostic.cause.code
  message : joined.message = diagnostic.message
  start : joined.span.start = front.utf8ByteSize + diagnostic.span.start
  length : joined.span.length = diagnostic.span.length

/-- Errors that have places are found behind the front. -/
theorem Diagnostic.behind_ofCause {file : Nat} {front code : String} {sources sources' : Sources}
    (hsource : sources.code file = front ++ code) (hsource' : sources'.code (file + 1) = code) {cause cause' : Cause}
    (h : cause.Alike (Location.Behind file front.toList) cause') {place : Location}
    (hplace : cause'.origin = some (place.file, some place.range)) :
    (Diagnostic.ofCause cause sources).Behind file front (.ofCause cause' sources') := by
  have horigins : ∃ range : Range, cause.origin = some (file, some (range.behind front.toList)) ∧
      cause'.origin = some (file + 1, some range) := by
    obtain ⟨_, _, horigin, horigin', hbehind⟩ := h.exists_origin hplace
    cases hbehind with
    | range range => exact ⟨range, horigin, horigin'⟩
  obtain ⟨range, horigin, horigin'⟩ := horigins
  have hsize : front.utf8ByteSize = Position.byteLength front.toList := by
    rw [← size_utf8Encode, String.utf8Encode_toList, String.size_toByteArray]
  have hspan := range.span_behind front code
  have hjoined : (Diagnostic.ofCause cause sources).span =
      ⟨Position.byteLength front.toList + (range.span code).start, (range.span code).length⟩ := by
    unfold Diagnostic.ofCause
    rw [horigin]
    dsimp only
    rw [hsource, hspan]
  have hparted : (Diagnostic.ofCause cause' sources').span = range.span code := by
    unfold Diagnostic.ofCause
    rw [horigin']
    dsimp only
    rw [hsource']
  refine ⟨?_, ?_, ?_, ?_, ?_⟩
  · rw [Diagnostic.cause_ofCause, Diagnostic.cause_ofCause]
    exact h
  · rw [Diagnostic.cause_ofCause, Diagnostic.cause_ofCause, h.code]
  · unfold Diagnostic.message
    rw [Diagnostic.cause_ofCause, Diagnostic.cause_ofCause, h.message]
  · rw [hjoined, hparted, hsize]
  · rw [hjoined, hparted]

namespace Engine

/-! ## Compiles -/

/-- **A compile** puts in the definitions of a source, keeps the source, and reports the first error. -/
theorem compile_eq (engine : Engine σ) (code fileName : String) {found : Scan}
    (hfound : scan code engine.sources.size = found) {done : Engine σ × Option SyntaxError}
    (hdone : defineAll engine.sources.size found.tokens.length engine found.tokens = done) :
    engine.compile code fileName = ({ done.1 with sources := engine.sources.add ⟨fileName, code⟩ },
      match firstError done.2 found.error with
      | none => .ok ()
      | some cause => .error (.ofCause cause (engine.sources.add ⟨fileName, code⟩))) := by
  subst hfound hdone
  unfold compile
  dsimp only
  rw [defineAll_addSource]
  dsimp only
  cases firstError _ _ <;> rfl

theorem firstError_eq_none {error : Option SyntaxError} {fault : Option ScanError}
    (h : firstError error fault = none) : error = none ∧ fault = none := by
  unfold firstError at h
  split at h <;> first | exact ⟨rfl, rfl⟩ | cases h

/-- A source that compiles is read to its end, and consists of comments and definitions. -/
theorem exists_parts_of_compile {engine : Engine σ} {code fileName : String}
    (h : (engine.compile code fileName).2 = .ok ()) :
    ∃ (parts : List Part) (eof : Location),
      scan code engine.sources.size = ⟨parts.flatMap Part.tokens ++ [eof.token .eof], none⟩ ∧
      (engine.compile code fileName).1 =
        { engine.defineParts engine.sources.size parts with sources := engine.sources.add ⟨fileName, code⟩ } := by
  have hnone : (defineAll engine.sources.size (scan code engine.sources.size).tokens.length engine
      (scan code engine.sources.size).tokens).2 = none ∧ (scan code engine.sources.size).error = none := by
    rw [compile_eq engine code fileName rfl rfl] at h
    dsimp only at h
    split at h
    · exact firstError_eq_none ‹_›
    · cases h
  rcases scan_eq code engine.sources.size with ⟨inner, eof, hscan, hinner⟩ | ⟨tokens, fault, place, hscan, -, -⟩
  · rw [hscan] at hnone
    let place : Location := ⟨engine.sources.size, ⟨eof, eof⟩⟩
    have hput : (defineAll engine.sources.size (inner ++ [place.token .eof]).length engine
        (inner ++ [place.token .eof])).2 = none := hnone.1
    obtain ⟨parts, rfl⟩ := exists_parts_of_defineAll engine.sources.size (by simp) hinner hput
    have hdone := defineAll_parts engine.sources.size engine
      (Nat.le_refl (parts.flatMap Part.tokens ++ [place.token .eof]).length)
    refine ⟨parts, place, hscan, ?_⟩
    rw [compile_eq engine code fileName hscan hdone]
    rfl
  · rw [hscan] at hnone
    cases hnone.2

/-- What is reported of a source has a place in it. -/
theorem exists_origin_of_firstError {file : Nat} {engine : Engine σ} {code : String} {cause : Cause}
    (h : firstError (defineAll file (scan code file).tokens.length engine (scan code file).tokens).2
      (scan code file).error = some cause) :
    ∃ place : Location, cause.origin = some (place.file, some place.range) := by
  have hreports := reportsEarliest (defineAll_tracks file engine (Nat.le_refl _)) h
  by_cases hviable : Viable (scan code file).tokens
  · obtain ⟨fault, place, -, rfl⟩ := hreports.ofText hviable
    exact ⟨place, rfl⟩
  · obtain ⟨fault, token, rfl, -⟩ := hreports.ofTokens hviable
    exact ⟨token.location, rfl⟩

/-- **Compiling joined sources is compiling them one after the other.** If a source compiles, then compiling another
    text joined to it leaves the same names as compiling the text after it, with the same functions of the host and the
    same trees: those that come from the text stand behind the first source in the joined one, and their calls look into
    the same tables. Both ways succeed, or both fail for the same reason at the same token or character of the text, and
    the bytes of the joined source that are underlined are those of the text, moved by the length of the first
    source. -/
theorem compile_append (engine : Engine σ) {front frontName : String}
    (hfront : (engine.compile front frontName).2 = .ok ()) (code fileName joinedName : String) :
    let joined := engine.compile (front ++ code) joinedName
    let parted := (engine.compile front frontName).1.compile code fileName
    joined.1.names = parted.1.names ∧
    joined.1.registry.Alike (Location.Joined engine.sources.size front) sameBinding parted.1.registry ∧
    (joined.2 = .ok () ∧ parted.2 = .ok () ∨
      ∃ diagnostic diagnostic', joined.2 = .error diagnostic ∧ parted.2 = .error diagnostic' ∧
        diagnostic.Behind engine.sources.size front diagnostic') := by
  obtain ⟨parts, eof, hscan, hcompiled⟩ := exists_parts_of_compile hfront
  obtain ⟨found, hjoined, halike⟩ := scan_append hscan (fun token => closes_of_mem_getLast?) code
  have hput := defineAll_parts engine.sources.size engine
    (Nat.le_refl (parts.flatMap Part.tokens ++ found.tokens).length)
  -- What stands in front is put in alike. So both ways the text meets the same engine, but for the sources.
  generalize engine.defineParts engine.sources.size parts = ready at hcompiled hput
  have hsize : (engine.sources.add ⟨frontName, front⟩).size = engine.sources.size + 1 := Sources.size_add _ _
  have hparted := compile_eq { ready with sources := engine.sources.add ⟨frontName, front⟩ } code fileName
    (by rw [hsize]) (by rw [hsize, defineAll_addSource])
  have hplace : ∀ location, Location.Joined engine.sources.size front location location := fun _ => .inl rfl
  have hsource : (engine.sources.add ⟨joinedName, front ++ code⟩).code engine.sources.size = front ++ code := by
    rw [Sources.code, Sources.get?_add_self]
    rfl
  have hsource' : ((engine.sources.add ⟨frontName, front⟩).add ⟨fileName, code⟩).code (engine.sources.size + 1) =
      code := by
    rw [← hsize, Sources.code, Sources.get?_add_self]
    rfl
  obtain ⟨hregistry, herror⟩ := defineAll_alike (fun _ _ => .inr) engine.sources.size (engine.sources.size + 1)
    found.tokens.length rfl (Registry.Alike.refl hplace (fun _ _ => rfl) ready.registry) halike.tokens
  rw [halike.tokens.length_eq] at hregistry herror hput
  rw [compile_eq engine (front ++ code) joinedName hjoined hput, hcompiled, hparted]
  refine ⟨hregistry.names, hregistry, ?_⟩
  have hcauses := firstError_alike herror halike.error
  dsimp only
  generalize hcause : firstError _ found.error = cause, hcause' : firstError _ (scan code _).error = cause' at hcauses ⊢
  cases hcauses with
  | none => exact .inl ⟨rfl, rfl⟩
  | some hcauses =>
    obtain ⟨place, horigin⟩ := exists_origin_of_firstError hcause'
    exact .inr ⟨_, _, rfl, rfl, Diagnostic.behind_ofCause hsource hsource' hcauses horigin⟩

/-- A name where a brace has to follow, in a text that is put directly behind a comment with a character of two
    bytes. -/
theorem compile_append_misplaced :
    ((new true : Engine Unit).compile "def a \x7b\x7d/*é*/" "a.tl").2 = .ok () ∧
    ∃ diagnostic,
      ((new true : Engine Unit).compile ("def a \x7b\x7d/*é*/" ++ "def b \x7b a() \x7d\ndef c d") "ab.tl").2 =
        .error diagnostic ∧ diagnostic.message = "Unexpected token `d`" ∧ diagnostic.span.start = 14 + 20 ∧
        diagnostic.span.length = 1 := by
  have hfront : ((new true : Engine Unit).compile "def a \x7b\x7d/*é*/" "a.tl").2 = .ok () := by cbv
  obtain ⟨-, -, hresult⟩ := (new true : Engine Unit).compile_append hfront "def b \x7b a() \x7d\ndef c d" "b.tl" "ab.tl"
  have hparted : (((new true : Engine Unit).compile "def a \x7b\x7d/*é*/" "a.tl").1.compile
      "def b \x7b a() \x7d\ndef c d" "b.tl").2 =
      .error ⟨.parse (.fault .unexpectedToken ⟨.ident "d", ⟨⟨2, 7⟩, ⟨2, 8⟩⟩, 1⟩),
        some "b.tl", "def b \x7b a() \x7d\ndef c d", ⟨20, 1⟩, some ⟨2, 7⟩⟩ := by cbv
  refine ⟨hfront, ?_⟩
  rcases hresult with ⟨-, hok⟩ | ⟨diagnostic, _, hjoined, herror, hbehind⟩
  · cases hparted.symm.trans hok
  · cases hparted.symm.trans herror
    exact ⟨diagnostic, hjoined, hbehind.message, hbehind.start, hbehind.length⟩
end Engine

end HtmlTemplate
