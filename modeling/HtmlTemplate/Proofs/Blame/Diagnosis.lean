import Mathlib
import HtmlTemplate.Proofs.Blame.Failure
import HtmlTemplate.Proofs.Blame.Spelling

/-!
# Errors of rendering point at the text that failed

What a render fails with is placed in the source of the compile that the failing part of the template came
from, and the bytes it underlines are what was written for the reference or the call that failed.

The place of a spot is taken on a long way: from the text to the tokens (`scan_spots`), into the tree of a
definition (`Grammar.Def.spots_subset`), into the tables (`History.holds`), through flattening
(`Node.spots_flatten`), out of a render (`Stage.render_fails`), and back to bytes (`Range.Covers.bytes_span`).

## Contents

* `Diagnostic.PointsAt` — a diagnostic underlines a spelling of a spot in a source;
* `Engine.FailsWith` — some render of an engine fails;
* `run_failsWith_pointsAt` — the main statement, about the engines of any session.
-/

namespace HtmlTemplate

variable {σ : Type}

/-- The diagnostic is about the source, underlines the bytes of a spelling of the spot in it, and tells the
    line and the column of the first of them. -/
structure Diagnostic.PointsAt (diagnostic : Diagnostic) (spot : Spot) (code fileName : String) : Prop where
  fileName : diagnostic.fileName = some fileName
  source : diagnostic.source = code
  underlined : ∃ text ∈ spot.spellings, diagnostic.span.bytes code = text.toByteArray ∧
    diagnostic.span.length = text.utf8ByteSize
  position : ∃ front, front <+: code.toList ∧ diagnostic.span.start = Position.byteLength front ∧
    diagnostic.position = some (Position.lineColumn front)

/-- Some render of the engine fails with the diagnostic. -/
def Engine.FailsWith (engine : Engine σ) (diagnostic : Diagnostic) : Prop :=
  (∃ depth name params output, (engine.renderInto depth name params output).1 = .error (.error diagnostic)) ∨
    ∃ depth name params host, (engine.render depth name params host).1 = .error (.error diagnostic)

/-! ## From a diagnostic to the tables -/

namespace Engine

/-- A render that fails has its error explained. -/
theorem exists_of_renderInto {engine : Engine σ} {depth : Nat} {name : String} {params : Value} {output : Output σ}
    {diagnostic : Diagnostic} (h : (engine.renderInto depth name params output).1 = .error (.error diagnostic)) :
    ∃ error, (engine.stage.render depth name params output).1 = .error (.error error) ∧
      diagnostic = .ofCause (.render error) engine.sources := by
  unfold renderInto at h
  rcases hrender : engine.stage.render depth name params output with ⟨_ | _, output'⟩
  · rename_i halt
    rw [hrender] at h
    cases halt with
    | error error =>
      cases h
      exact ⟨error, rfl, rfl⟩
    | tooDeep => cases h
  · rw [hrender] at h
    cases h

theorem renderInto_of_render {engine : Engine σ} {depth : Nat} {name : String} {params : Value} {host : σ}
    {diagnostic : Diagnostic} (h : (engine.render depth name params host).1 = .error (.error diagnostic)) :
    (engine.renderInto depth name params ⟨"", host⟩).1 = .error (.error diagnostic) := by
  unfold render at h
  rcases hrender : engine.renderInto depth name params ⟨"", host⟩ with ⟨_ | _, output'⟩
  · rw [hrender] at h
    cases h
    rfl
  · rw [hrender] at h
    cases h

/-- What a render fails with is an error of its stage, placed in the sources. -/
theorem FailsWith.exists_error {engine : Engine σ} {diagnostic : Diagnostic} (h : engine.FailsWith diagnostic)
    {error : RenderError} (hcause : diagnostic.cause = .render error) :
    (∃ depth name params output, (engine.stage.render depth name params output).1 = .error (.error error)) ∧
      diagnostic = .ofCause (.render error) engine.sources := by
  obtain ⟨depth, name, params, output, hrender⟩ : ∃ depth name params output,
      (engine.renderInto depth name params output).1 = .error (.error diagnostic) := by
    rcases h with h | ⟨depth, name, params, host, h⟩
    · exact h
    · exact ⟨depth, name, params, ⟨"", host⟩, renderInto_of_render h⟩
  obtain ⟨found, hfound, rfl⟩ := exists_of_renderInto hrender
  rw [Diagnostic.cause_ofCause] at hcause
  obtain rfl := Cause.render.inj hcause
  exact ⟨⟨depth, name, params, output, hfound⟩, rfl⟩

/-- The tables are to blame for an error that is blamed on a spot. -/
theorem FailsWith.blames {engine : Engine σ} {diagnostic : Diagnostic} (h : engine.FailsWith diagnostic)
    {error : RenderError} (hcause : diagnostic.cause = .render error) (hspot : error.spot? ≠ none) :
    engine.registry.Blames error ∧ diagnostic = .ofCause (.render error) engine.sources := by
  obtain ⟨⟨depth, name, params, output, hrender⟩, hdiagnostic⟩ := h.exists_error hcause
  refine ⟨?_, hdiagnostic⟩
  rcases engine.stage.render_fails depth name params output error hrender with rfl | hblames
  · exact absurd rfl hspot
  · exact hblames

/-- A template that is not defined was called, and this call found nothing. -/
theorem FailsWith.misses {engine : Engine σ} {diagnostic : Diagnostic} (h : engine.FailsWith diagnostic)
    {error : RenderError} (hcause : diagnostic.cause = .render error) : engine.registry.Misses error := by
  obtain ⟨⟨depth, name, params, output, hrender⟩, -⟩ := h.exists_error hcause
  exact engine.stage.render_fails_call depth name params output error hrender

end Engine

/-! ## From the tables to the text -/

theorem Diagnostic.pointsAt {sources : Sources} {place : Location} {code fileName : String} {spot : Spot}
    {error : RenderError} (hspot : error.spot? = some (place, spot))
    (hsource : sources.get? place.file = some ⟨fileName, code⟩) {front text : List Char}
    (hcovers : place.range.Covers code front text) (hne : text ≠ [])
    (hspelled : String.ofList text ∈ spot.spellings) :
    (Diagnostic.ofCause (.render error) sources).PointsAt spot code fileName := by
  have hlocation : error.location = some place := by
    cases error <;> cases hspot <;> rfl
  have hname : sources.name place.file = fileName := by
    unfold Sources.name
    rw [hsource]
    rfl
  have hcode : sources.code place.file = code := by
    unfold Sources.code
    rw [hsource]
    rfl
  have hplaced : Diagnostic.ofCause (.render error) sources =
      ⟨.render error, some fileName, code, place.range.span code, some place.range.start⟩ := by
    unfold Diagnostic.ofCause Cause.origin
    simp only [hlocation, Option.map_some, hname, hcode]
  rw [hplaced]
  refine ⟨rfl, rfl, ⟨String.ofList text, hspelled, hcovers.bytes_span hne, ?_⟩, front, ?_, ?_, ?_⟩
  · show (place.range.span code).length = _
    rw [hcovers.span_eq hne, ← String.size_toByteArray, String.toByteArray_ofList, size_utf8Encode]
  · exact (List.prefix_append front text).trans hcovers.isPrefix
  · show (place.range.span code).start = _
    rw [hcovers.span_eq hne]
  · show some place.range.start = _
    rw [hcovers.start, Position.first_after]

/-! ## Sessions -/

/-- A tree is defined by hand. -/
def Operation.isDefine : Operation σ → Bool
  | .edit _ change => change.isDefine
  | _ => false

theorem History.step_isDefine {histories : List (History σ)} {operation : Operation σ}
    (hop : operation.isDefine = false)
    (h : ∀ history ∈ histories, ∀ edit ∈ history.edits, edit.isDefine = false) :
    ∀ history ∈ History.step histories operation, ∀ edit ∈ history.edits, edit.isDefine = false := by
  intro history hhistory
  cases operation with
  | new optimize =>
    rcases List.mem_append.mp hhistory with hmem | hnew
    · exact h history hmem
    · cases List.mem_singleton.mp hnew
      exact nofun
  | clone number =>
    unfold History.step at hhistory
    cases hfound : histories[number]? with
    | none =>
      simp only [hfound] at hhistory
      exact h history hhistory
    | some found =>
      simp only [hfound] at hhistory
      rcases List.mem_append.mp hhistory with hmem | hcopy
      · exact h history hmem
      · rw [List.mem_singleton.mp hcopy]
        exact h found (List.mem_of_getElem? hfound)
  | edit number change =>
    unfold History.step at hhistory
    cases hfound : histories[number]? with
    | none =>
      simp only [hfound] at hhistory
      exact h history hhistory
    | some found =>
      simp only [hfound] at hhistory
      rcases List.mem_or_eq_of_mem_set hhistory with hmem | hextend
      · exact h history hmem
      · intro edit hedit
        rw [hextend] at hedit
        rcases List.mem_append.mp hedit with hbefore | hlast
        · exact h found (List.mem_of_getElem? hfound) edit hbefore
        · rw [List.mem_singleton.mp hlast]
          exact hop
  | _ => exact h history hhistory

/-- Without trees defined by hand in a session, there are none behind its engines. -/
theorem histories_isDefine {operations : List (Operation σ)}
    (hops : ∀ operation ∈ operations, operation.isDefine = false) :
    ∀ history ∈ histories operations, ∀ edit ∈ history.edits, edit.isDefine = false := by
  induction operations using List.reverseRecOn with
  | nil => exact nofun
  | append_singleton operations operation ih =>
    unfold histories
    rw [List.foldl_append]
    apply History.step_isDefine (hops operation (List.mem_append_right _ (List.mem_singleton_self _)))
    exact ih fun op hop => hops op (List.mem_append_left _ hop)

/-- **Errors of rendering point at the text that failed.** Take any session without trees defined by hand, one
    of its engines, and a render of it that fails because of a reference or a call. One of the compiles behind
    the engine completed a definition in which the failing reference or call stands, and whose tree the engine
    still has. The error is placed in the source of this compile, and it underlines what was written there for
    the reference or the call. -/
theorem run_failsWith_pointsAt (host : σ) (operations : List (Operation σ))
    (hops : ∀ operation ∈ operations, operation.isDefine = false) {number : Nat} {engine : Engine σ}
    (hengine : ((Session.start host).run operations).engines[number]? = some engine) {diagnostic : Diagnostic}
    (hfails : engine.FailsWith diagnostic) {error : RenderError} (hcause : diagnostic.cause = .render error)
    {place : Location} {spot : Spot} (hspot : error.spot? = some (place, spot)) :
    ∃ (history : History σ) (before : List (Edit σ)) (code fileName : String) (after : List (Edit σ)),
      (histories operations)[number]? = some history ∧ history.edits = before ++ .compile code fileName :: after ∧
      (∃ definition ∈ (⟨history.optimize, before⟩ : History σ).engine.completed code fileName,
        (place, spot) ∈ definition.body.spots ∧
          engine.registry.Holds definition.name
            ((⟨history.optimize, before⟩ : History σ).engine.stored definition.body)) ∧
      diagnostic.PointsAt spot code fileName := by
  rw [Session.run_engines, List.getElem?_map] at hengine
  obtain ⟨⟨optimize, edits⟩, hhistory, rfl⟩ := Option.map_eq_some_iff.mp hengine
  have hedits := histories_isDefine hops _ (List.mem_of_getElem? hhistory)
  obtain ⟨⟨name, tree, _, hholds, hmem, hblamed⟩, rfl⟩ := hfails.blames hcause (by rw [hspot]; exact nofun)
  cases hspot.symm.trans hblamed
  obtain ⟨before, code, fileName, after, rfl, definition, hdefinition, rfl, rfl⟩ := History.holds hedits hholds
  have hbody : (place, spot) ∈ definition.body.spots := by
    unfold Engine.stored at hmem
    split at hmem
    · rwa [Node.spots_flatten] at hmem
    · exact hmem
  refine ⟨_, before, code, fileName, after, hhistory, rfl, ⟨definition, hdefinition, hbody, hholds⟩, ?_⟩
  obtain ⟨scope, d, rfl, hphrase⟩ := Engine.exists_def_of_mem_completedIn hdefinition
  obtain ⟨token, htoken, htokenSpot⟩ := List.mem_flatMap.mp (d.spots_subset scope hbody)
  obtain ⟨hfile, front, text, hcovers, hne, hspelled⟩ := scan_spots (hphrase.subset htoken) htokenSpot
  have hsource := History.source optimize before code fileName after
  rw [← hfile] at hsource
  exact Diagnostic.pointsAt hspot hsource hcovers hne hspelled

/-- A call of a template that does not exist, behind a comment with a character of two bytes. -/
theorem run_failsWith_pointsAt_call :
    ∃ engine : Engine Unit,
      ((Session.start ()).run [.new true, .edit 0 (.compile "def a \x7b\n/*é*/ b() \x7d" "a.tl")]).engines[0]? =
        some engine ∧
      engine.FailsWith ⟨.render (.notDefined ⟨0, ⟨⟨2, 7⟩, ⟨2, 8⟩⟩⟩ "b"), some "a.tl",
        "def a \x7b\n/*é*/ b() \x7d", ⟨15, 1⟩, some ⟨2, 7⟩⟩ ∧
      Diagnostic.PointsAt ⟨.render (.notDefined ⟨0, ⟨⟨2, 7⟩, ⟨2, 8⟩⟩⟩ "b"), some "a.tl",
        "def a \x7b\n/*é*/ b() \x7d", ⟨15, 1⟩, some ⟨2, 7⟩⟩ (.call "b") "def a \x7b\n/*é*/ b() \x7d" "a.tl" := by
  have hengine :
      ((Session.start ()).run [.new true, .edit 0 (.compile "def a \x7b\n/*é*/ b() \x7d" "a.tl")]).engines[0]? =
        some (History.engine ⟨true, [.compile "def a \x7b\n/*é*/ b() \x7d" "a.tl"]⟩ : Engine Unit) := rfl
  have hrender : ((History.engine ⟨true, [.compile "def a \x7b\n/*é*/ b() \x7d" "a.tl"]⟩ : Engine Unit).render 5 "a"
      (.ofEntries []) ()).1 = .error (.error ⟨.render (.notDefined ⟨0, ⟨⟨2, 7⟩, ⟨2, 8⟩⟩⟩ "b"), some "a.tl",
        "def a \x7b\n/*é*/ b() \x7d", ⟨15, 1⟩, some ⟨2, 7⟩⟩) := by
    cbv
  refine ⟨_, hengine, .inr ⟨_, _, _, _, hrender⟩, ?_⟩
  obtain ⟨history, before, code, fileName, after, -, -, -, hpoints⟩ :=
    run_failsWith_pointsAt () _ (by simp [Operation.isDefine, Edit.isDefine]) hengine (.inr ⟨_, _, _, _, hrender⟩)
      rfl rfl
  have hcode : code = "def a \x7b\n/*é*/ b() \x7d" := hpoints.source.symm
  have hname : fileName = "a.tl" := (Option.some.inj hpoints.fileName).symm
  rw [hcode, hname] at hpoints
  exact hpoints

end HtmlTemplate
