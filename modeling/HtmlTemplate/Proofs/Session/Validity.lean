import HtmlTemplate.Proofs.Session.Joined
import HtmlTemplate.Proofs.Session.LastWrite
import HtmlTemplate.Proofs.Session.Order

/-!
# Whether a source is valid does not depend on the engine

While a source is read, the engine is asked which templates are internal, and the answers change with each definition.
They decide about the bindings of calls and about nothing else: not about the tokens that are taken next, nor about the
error that is reported, nor about what is done to the trees when they are flattened. So a source can be checked on any
engine, and what two engines make of it is the same up to the number of the source and the bindings
(`Engine.compile_alike`).

## Contents

* `Location.Renumbered` — a range of one source, under two numbers;
* `Diagnostic.looksLike_ofCause` — errors at such places look alike;
* `CompilesLike` — results of two compiles between which a user sees no difference;
* `Write.Alike` — trees that are written under the same name and are alike;
* `Engine.compile_alike` — the main statement.
-/

namespace HtmlTemplate

variable {σ σ' : Type}

/-- The same range, in a source that has one number here and the other one there. -/
structure Location.Renumbered (file file' : Nat) (location location' : Location) : Prop where
  here : location.file = file
  there : location'.file = file'
  range : location.range = location'.range

theorem Location.renumbered (file file' : Nat) (range : Range) :
    Location.Renumbered file file' ⟨file, range⟩ ⟨file', range⟩ := ⟨rfl, rfl, rfl⟩

/-- Errors of one source look alike, whatever its number is. -/
theorem Diagnostic.looksLike_ofCause {file file' : Nat} {sources sources' : Sources} {source : Source}
    (hsource : sources.get? file = some source) (hsource' : sources'.get? file' = some source) {cause cause' : Cause}
    (h : cause.Alike (Location.Renumbered file file') cause') {spot : Location}
    (hspot : cause'.origin = some (spot.file, some spot.range)) :
    (Diagnostic.ofCause cause sources).LooksLike (.ofCause cause' sources') := by
  obtain ⟨location, location', horigin, horigin', hplace⟩ := h.exists_origin hspot
  obtain ⟨rfl, rfl, hrange⟩ := hplace
  have hname : sources.name location.file = sources'.name location'.file := by
    rw [Sources.name, hsource, Sources.name, hsource']
  have htext : sources.code location.file = sources'.code location'.file := by
    rw [Sources.code, hsource, Sources.code, hsource']
  have hmessage : cause.message = cause'.message := h.message
  unfold Diagnostic.ofCause
  rw [horigin, horigin']
  dsimp only
  rw [hname, htext, hrange]
  exact ⟨h.code, hmessage, h.help, rfl, rfl, rfl, rfl⟩

/-- Both compiles succeed, or both fail for the same reason at the same place of the source, and a user sees no
    difference between the errors. -/
inductive CompilesLike (file file' : Nat) : Except Diagnostic Unit → Except Diagnostic Unit → Prop where
  | ok : CompilesLike file file' (.ok ()) (.ok ())
  | error {diagnostic diagnostic' : Diagnostic}
    (hcause : diagnostic.cause.Alike (Location.Renumbered file file') diagnostic'.cause)
    (hlooks : diagnostic.LooksLike diagnostic') : CompilesLike file file' (.error diagnostic) (.error diagnostic')

/-- Templates of the same name are written, and their trees are alike. -/
inductive Write.Alike (place : Location → Location → Prop) (binding : String → Binding → Binding → Prop) :
    Write σ → Write σ' → Prop where
  | define (name : String) {tree tree' : Node} (h : tree.Alike place binding tree') :
    Alike place binding (.define name tree) (.define name tree')

namespace Engine

variable {place : Location → Location → Prop}

/-- The same is reported of a source in every engine. -/
theorem compile_snd_alike (engine : Engine σ) (engine' : Engine σ') (code fileName : String) :
    CompilesLike engine.sources.size engine'.sources.size (engine.compile code fileName).2
      (engine'.compile code fileName).2 := by
  have hscan : (scan code engine.sources.size).Alike (Location.Renumbered engine.sources.size engine'.sources.size)
      (scan code engine'.sources.size) := scan_renumbered code (Location.renumbered _ _)
  obtain ⟨-, herror⟩ := completedIn_alike engine.sources.size engine'.sources.size
    (scan code engine.sources.size).tokens.length engine engine' _ _ hscan.tokens
  have hcauses := firstError_alike herror hscan.error
  rw [hscan.tokens.length_eq] at hcauses
  rw [compile_eq engine code fileName rfl rfl, compile_eq engine' code fileName rfl rfl, hscan.tokens.length_eq]
  dsimp only
  generalize hcause : firstError _ (scan code engine.sources.size).error = cause,
    hcause' : firstError _ (scan code engine'.sources.size).error = cause' at hcauses ⊢
  cases hcauses with
  | none => exact .ok
  | some hcauses =>
    -- An error without a place would point to the end of its source, and none is reported.
    obtain ⟨spot, hspot⟩ := exists_origin_of_firstError hcause'
    apply CompilesLike.error
    · rw [Diagnostic.cause_ofCause, Diagnostic.cause_ofCause]
      exact hcauses
    · exact Diagnostic.looksLike_ofCause (Sources.get?_add_self _ _) (Sources.get?_add_self _ _) hcauses hspot

/-- The same is stored for a definition, if both engines flatten trees or neither does. -/
theorem stored_alike {binding : String → Binding → Binding → Prop} {engine : Engine σ} {engine' : Engine σ'}
    (hoptimize : engine.optimize = engine'.optimize) {tree tree' : Node} (h : tree.Alike place binding tree') :
    (engine.stored tree).Alike place binding (engine'.stored tree') := by
  unfold stored
  rw [hoptimize]
  split
  · exact h.flatten
  · exact h

/-- **Whether a source is valid does not depend on the engine.** Take any two engines, and a source. Either both compile
    it, or both fail with the same kind of error, which says the same and points to the same place. Both write trees
    under the same names, in the same order. If both flatten trees or neither does, then the trees are the same but for
    the number of the source and for the tables that the calls look into. -/
theorem compile_alike (engine : Engine σ) (engine' : Engine σ') (code fileName : String) :
    let compiled := engine.compile code fileName
    let compiled' := engine'.compile code fileName
    let writes := engine.writes (.compile code fileName)
    let writes' := engine'.writes (.compile code fileName)
    CompilesLike engine.sources.size engine'.sources.size compiled.2 compiled'.2 ∧
      compiled.1.registry = writes.foldl Registry.write engine.registry ∧
      compiled'.1.registry = writes'.foldl Registry.write engine'.registry ∧
      writes.map Write.name = writes'.map Write.name ∧
      (engine.optimize = engine'.optimize → List.Forall₂
        (Write.Alike (Location.Renumbered engine.sources.size engine'.sources.size) anyBinding) writes writes') := by
  intro compiled compiled' writes writes'
  have hcompleted : List.Forall₂
      (Definition.Alike (Location.Renumbered engine.sources.size engine'.sources.size) anyBinding)
      (engine.completed code fileName) (engine'.completed code fileName) :=
    engine.completed_alike engine' code fileName fileName (Location.renumbered _ _)
  have hnames : List.Forall₂ Eq (writes.map Write.name) (writes'.map Write.name) := by
    unfold writes writes' Engine.writes
    rw [List.map_map, List.map_map]
    exact List.rel_map (fun _ _ hdefinition => hdefinition.name) hcompleted
  rw [List.forall₂_eq_eq_eq] at hnames
  refine ⟨engine.compile_snd_alike engine' code fileName, engine.perform_registry (.compile code fileName),
    engine'.perform_registry (.compile code fileName), hnames, ?_⟩
  intro hoptimize
  apply List.rel_map _ hcompleted
  intro definition definition' hdefinition
  dsimp only
  rw [hdefinition.name]
  exact .define _ (stored_alike hoptimize hdefinition.body)

/-- The call is internal on the engine that has an `a` already, and external on the fresh one. Both stop at the name
    where a brace has to follow. -/
theorem compile_alike_fresh :
    let code := "def b \x7b a() \x7d\ndef c d"
    let fresh : Engine Unit := new true
    let used : Engine Unit := (fresh.compile "def a \x7b\x7d" "a.tl").1
    (∃ diagnostic diagnostic', (fresh.compile code "b.tl").2 = .error diagnostic ∧
      (used.compile code "b.tl").2 = .error diagnostic' ∧ diagnostic.LooksLike diagnostic' ∧
      diagnostic.position = some ⟨2, 7⟩) ∧
    ((fresh.compile code "b.tl").1.registry.internal? "b").map (fun tree => tree.calls.map CallSite.target) =
      some [.external] ∧
    ((used.compile code "b.tl").1.registry.internal? "b").map (fun tree => tree.calls.map CallSite.target) =
      some [.internal] ∧
    List.Forall₂ (Write.Alike (Location.Renumbered 0 1) anyBinding) (fresh.writes (.compile code "b.tl"))
      (used.writes (.compile code "b.tl")) := by
  intro code fresh used
  have hfails : (fresh.compile code "b.tl").2 = .error ⟨.parse (.fault .unexpectedToken
      ⟨.ident "d", ⟨⟨2, 7⟩, ⟨2, 8⟩⟩, 0⟩), some "b.tl", code, ⟨20, 1⟩, some ⟨2, 7⟩⟩ := by
    cbv
  have hsize : used.sources.size = 1 := by decide +kernel
  obtain ⟨hresult, -, -, -, hwrites⟩ := fresh.compile_alike used code "b.tl"
  have hwrites := hwrites (by decide +kernel)
  rw [hsize] at hwrites
  refine ⟨?_, by decide +kernel, by decide +kernel, hwrites⟩
  rw [hfails] at hresult ⊢
  generalize (used.compile code "b.tl").2 = result at hresult
  cases hresult with
  | error _ hlooks => exact ⟨_, _, rfl, rfl, hlooks, rfl⟩

end Engine

end HtmlTemplate
