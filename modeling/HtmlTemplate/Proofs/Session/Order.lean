import HtmlTemplate.Proofs.Alike.Compiles
import HtmlTemplate.Proofs.Alike.Renders
import HtmlTemplate.Proofs.Session.Optimization

/-!
# The order of definitions

What a template renders to does not depend on the order in which the templates are defined, only on which definition
of each name is the last one. Where every source holds one definition and there are no functions of the host, two
engines that compile sources in different orders, or some sources more than once, render alike if each name is
defined last by the same source (`Engine.compileEach_render`). A call that finds its target defined before it looks
into another table than one that does not, but it finds the same tree there.

## Contents

* `Source.template?`, `lastDefining` — the template that a source defines, and the last source that defines one;
* `Engine.compileEach` — compiling sources one after the other;
* `Engine.Entry`, `Engine.Reflects` — engines whose tables hold the last definition of each name;
* `Diagnostic.LooksLike`, `RendersLike` — results between which a user sees no difference;
* `Engine.Reflects.stage` — tables with the same last definitions are alike;
* `Engine.compileEach_render` — the main statement.
-/

namespace HtmlTemplate

variable {σ : Type}

/-! ## Sources with one definition -/

/-- The name of the template that a source defines, if it holds one definition and no other. -/
def Source.template? (source : Source) : Option String :=
  match (Engine.new false : Engine Unit).completed source.code source.name with
  | [definition] => some definition.name
  | _ => none

/-- The last of some sources that defines the template `name`. -/
def lastDefining (sources : List Source) (name : String) : Option Source :=
  sources.reverse.find? fun source => source.template? = some name

theorem lastDefining_append_singleton (sources : List Source) (source : Source) (name : String) :
    lastDefining (sources ++ [source]) name =
      if source.template? = some name then some source else lastDefining sources name := by
  unfold lastDefining
  rw [List.reverse_append, List.reverse_singleton, List.singleton_append, List.find?_cons]
  by_cases h : source.template? = some name <;> simp [h]

/-- In every engine the source has its one definition. -/
theorem Source.exists_completed {source : Source} {name : String} (h : source.template? = some name)
    (engine : Engine σ) :
    ∃ definition, engine.completed source.code source.name = [definition] ∧ definition.name = name := by
  have halike : List.Forall₂ (Definition.Alike (fun _ _ => True) anyBinding)
      ((Engine.new false : Engine Unit).completed source.code source.name)
      (engine.completed source.code source.name) := Engine.completed_alike _ _ _ _ _ fun _ => trivial
  unfold template? at h
  generalize (Engine.new false : Engine Unit).completed source.code source.name = found,
    engine.completed source.code source.name = found' at h halike
  cases halike with
  | nil => cases h
  | cons hdefinition hmore =>
    cases hmore with
    | nil =>
      refine ⟨_, rfl, ?_⟩
      rw [← hdefinition.name]
      exact Option.some.inj h
    | cons _ _ => cases h

namespace Engine

/-- Compiles some sources, one after the other. -/
def compileEach (engine : Engine σ) (sources : List Source) : Engine σ :=
  sources.foldl (fun engine source => (engine.compile source.code source.name).1) engine

theorem compileEach_append_singleton (engine : Engine σ) (sources : List Source) (source : Source) :
    engine.compileEach (sources ++ [source]) =
      ((engine.compileEach sources).compile source.code source.name).1 := by
  simp [compileEach]

theorem compileEach_resolver (engine : Engine σ) (sources : List Source) :
    (engine.compileEach sources).resolver = engine.resolver := by
  induction sources generalizing engine with
  | nil => rfl
  | cons source sources ih => exact (ih _).trans (engine.compile_resolver source.code source.name)

/-! ## Tables that hold the last definitions -/

/-- What stands under a name in both tables: nothing, or the tree of the one definition of a source that the engine
    has compiled. -/
inductive Entry (engine : Engine σ) (name : String) : Option Source → Prop where
  | missing (hinternal : engine.registry.internal? name = none) (hexternal : engine.registry.external? name = none) :
    Entry engine name none
  | defined {source : Source} {definition : Definition} (before : Engine σ)
    (hcompleted : before.completed source.code source.name = [definition])
    (hsource : engine.sources.get? before.sources.size = some source)
    (hinternal : engine.registry.internal? name = some definition.body)
    (hexternal : engine.registry.external? name = some (.compiled definition.body)) :
    Entry engine name (some source)

/-- Trees are stored as they are read, and the tables hold the last definition of each name. -/
structure Reflects (engine : Engine σ) (sources : List Source) : Prop where
  optimize : engine.optimize = false
  entry : ∀ name, engine.Entry name (lastDefining sources name)

/-- A name that is not written keeps its entry, whatever sources are added. -/
theorem Entry.keep {engine : Engine σ} {name : String} {last : Option Source} (h : engine.Entry name last)
    {next : Engine σ} (hinternal : next.registry.internal? name = engine.registry.internal? name)
    (hexternal : next.registry.external? name = engine.registry.external? name)
    (hsources : ∀ file source, engine.sources.get? file = some source → next.sources.get? file = some source) :
    next.Entry name last := by
  cases h with
  | missing hnone hnone' => exact .missing (hinternal.trans hnone) (hexternal.trans hnone')
  | defined before hcompleted hsource hsome hsome' =>
    exact .defined before hcompleted (hsources _ _ hsource) (hinternal.trans hsome) (hexternal.trans hsome')

namespace Reflects

theorem new (resolver : Resolver) : ((Engine.new false).setResolver resolver : Engine σ).Reflects [] where
  optimize := rfl
  entry name := .missing (Registry.internal?_empty name) (Registry.external?_empty name)

/-- Compiling a source with one definition makes this the last one of its name. -/
theorem compile {engine : Engine σ} {sources : List Source} (h : engine.Reflects sources) {source : Source}
    {name : String} (hname : source.template? = some name) :
    (engine.compile source.code source.name).1.Reflects (sources ++ [source]) := by
  obtain ⟨definition, hcompleted, hdefined⟩ := source.exists_completed hname engine
  have hcompile : (engine.compile source.code source.name).1 =
      (engine.addSource source.code source.name).define definition.name definition.body := by
    rw [compile_fst, hcompleted]
    rfl
  have hregistry : (engine.compile source.code source.name).1.registry =
      engine.registry.define name definition.body := by
    rw [hcompile, hdefined]
    show engine.registry.define name (if engine.optimize then _ else _) = _
    simp [h.optimize]
  have hsources : (engine.compile source.code source.name).1.sources = engine.sources.add source := by
    rw [hcompile]
    rfl
  constructor
  · rw [hcompile]
    exact h.optimize
  · intro other
    rw [lastDefining_append_singleton, hname]
    by_cases hother : name = other
    · rw [if_pos (congrArg some hother)]
      refine .defined engine hcompleted ?_ ?_ ?_
      · rw [hsources, Sources.get?_add_self]
      · rw [hregistry, Registry.internal?_define, if_pos hother]
      · rw [hregistry, Registry.external?_define, if_pos hother]
    · have hne : some name ≠ some other := fun heq => hother (Option.some.inj heq)
      rw [if_neg hne]
      apply (h.entry other).keep
      · rw [hregistry, Registry.internal?_define, if_neg hother]
      · rw [hregistry, Registry.external?_define, if_neg hother]
      · intro file old hold
        have hlt : file < engine.sources.size := (List.getElem?_eq_some_iff.mp hold).1
        rw [hsources, Sources.get?_add_of_lt hlt, hold]

/-- **Compiling sources one after the other** leaves the last definition of each name. -/
theorem compileEach (resolver : Resolver) {sources : List Source}
    (hone : ∀ source ∈ sources, ∃ name, source.template? = some name) :
    (((Engine.new false).setResolver resolver : Engine σ).compileEach sources).Reflects sources := by
  induction sources using List.reverseRecOn with
  | nil => exact new resolver
  | append_singleton sources source ih =>
    obtain ⟨name, hname⟩ := hone source (List.mem_append_right _ (List.mem_singleton_self source))
    have hbefore := ih fun earlier hearlier => hone earlier (List.mem_append_left _ hearlier)
    rw [compileEach_append_singleton]
    exact hbefore.compile hname

/-- The same range of the same source, whatever its numbers are. -/
def SamePlace (sources sources' : Sources) (location location' : Location) : Prop :=
  ∃ source, sources.get? location.file = some source ∧ sources'.get? location'.file = some source ∧
    location.range = location'.range

variable {engine engine' : Engine σ} {sources sources' : List Source}

/-- **Where each name is defined last by the same source, calls find the same**, whichever table they look into. -/
theorem target (h : engine.Reflects sources) (h' : engine'.Reflects sources')
    (hlast : ∀ name, lastDefining sources name = lastDefining sources' name) (name : String)
    (binding binding' : Binding) :
    Option.Rel (Template.Alike (SamePlace engine.sources engine'.sources) anyBinding)
      (engine.registry.target? binding name) (engine'.registry.target? binding' name) := by
  have hentry := h.entry name
  have hentry' := h'.entry name
  rw [← hlast] at hentry'
  generalize lastDefining sources name = last at hentry hentry'
  cases hentry with
  | missing hinternal hexternal =>
    cases hentry' with
    | missing hinternal' hexternal' =>
      have hnone : engine.registry.target? binding name = none := by
        cases binding <;> simp [Registry.target?, hinternal, hexternal]
      have hnone' : engine'.registry.target? binding' name = none := by
        cases binding' <;> simp [Registry.target?, hinternal', hexternal']
      rw [hnone, hnone']
      exact .none
  | @defined source definition before hcompleted hsource hinternal hexternal =>
    cases hentry' with
    | @defined _ definition' before' hcompleted' hsource' hinternal' hexternal' =>
      have hsome : engine.registry.target? binding name = some (.compiled definition.body) := by
        cases binding <;> simp [Registry.target?, hinternal, hexternal]
      have hsome' : engine'.registry.target? binding' name = some (.compiled definition'.body) := by
        cases binding' <;> simp [Registry.target?, hinternal', hexternal']
      -- The two engines have read the one definition of the same source.
      have hplace : ∀ range, SamePlace engine.sources engine'.sources ⟨before.sources.size, range⟩
          ⟨before'.sources.size, range⟩ := fun range => ⟨source, hsource, hsource', rfl⟩
      have halike := completed_alike before before' source.code source.name source.name hplace
      rw [hcompleted, hcompleted'] at halike
      rw [hsome, hsome']
      cases halike with
      | cons hdefinition _ => exact .some (.compiled hdefinition.body)

theorem names (h : engine.Reflects sources) (h' : engine'.Reflects sources')
    (hlast : ∀ name, lastDefining sources name = lastDefining sources' name) : engine.names = engine'.names := by
  apply Registry.names_eq_of_isDefined
  intro name
  have hfound : Option.Rel _ (engine.registry.external? name) (engine'.registry.external? name) :=
    h.target h' hlast name .external .external
  unfold Registry.isDefined
  generalize engine.registry.external? name = found, engine'.registry.external? name = found' at hfound
  cases hfound with
  | none => rfl
  | some _ => rfl

theorem stage (h : engine.Reflects sources) (h' : engine'.Reflects sources')
    (hlast : ∀ name, lastDefining sources name = lastDefining sources' name)
    (hresolver : engine.resolver = engine'.resolver) :
    engine.stage.Alike (SamePlace engine.sources engine'.sources) anyBinding (fun _ _ => True) engine'.stage where
  resolver := hresolver
  target name binding binding' _ := h.target h' hlast name binding binding'
  external _ := trivial
  out _ _ _ _ := trivial
  inward _ _ _ _ := trivial

end Reflects

end Engine

/-! ## Results that look alike -/

/-- A user sees no difference between the errors. -/
structure Diagnostic.LooksLike (diagnostic diagnostic' : Diagnostic) : Prop where
  code : diagnostic.cause.code = diagnostic'.cause.code
  message : diagnostic.message = diagnostic'.message
  help : diagnostic.cause.help = diagnostic'.cause.help
  fileName : diagnostic.fileName = diagnostic'.fileName
  source : diagnostic.source = diagnostic'.source
  position : diagnostic.position = diagnostic'.position
  span : diagnostic.span = diagnostic'.span

/-- The same text, errors that look alike, or two renders that both nest their calls too deep. -/
inductive RendersLike : Except (Halt Diagnostic) String → Except (Halt Diagnostic) String → Prop where
  | text (text : String) : RendersLike (.ok text) (.ok text)
  | error {diagnostic diagnostic' : Diagnostic} (h : diagnostic.LooksLike diagnostic') :
    RendersLike (.error (.error diagnostic)) (.error (.error diagnostic'))
  | tooDeep : RendersLike (.error .tooDeep) (.error .tooDeep)

theorem Diagnostic.ofCause_render (error : RenderError) (sources : Sources) :
    ofCause (.render error) sources =
      match error.location with
      | none => ⟨.render error, none, "", ⟨0, 0⟩, none⟩
      | some location => ⟨.render error, sources.name location.file, sources.code location.file,
          location.range.span (sources.code location.file), location.range.start⟩ := by
  unfold ofCause Cause.origin
  dsimp only
  cases error.location <;> rfl

/-- Errors at the same place of the same source look alike. -/
theorem RenderError.Alike.looksLike {sources sources' : Sources} {error error' : RenderError}
    (h : error.Alike (Engine.Reflects.SamePlace sources sources') error') :
    (Diagnostic.ofCause (.render error) sources).LooksLike (Diagnostic.ofCause (.render error') sources') := by
  have hcode : (Cause.render error).code = (Cause.render error').code := by cases h <;> rfl
  have hmessage : (Cause.render error).message = (Cause.render error').message := by cases h <;> rfl
  have hhelp : (Cause.render error).help = (Cause.render error').help := by cases h <;> rfl
  have hlocation : Option.Rel (Engine.Reflects.SamePlace sources sources') error.location error'.location := by
    cases h with
    | templateNotFound name => exact .none
    | paramNotFound hplace _ _ | notDefined hplace _ | notRenderable hplace _ _ => exact .some hplace
  rw [Diagnostic.ofCause_render, Diagnostic.ofCause_render]
  generalize error.location = location, error'.location = location' at hlocation
  cases hlocation with
  | none => exact ⟨hcode, hmessage, hhelp, rfl, rfl, rfl, rfl⟩
  | @some location location' hplace =>
    obtain ⟨source, hsource, hsource', hrange⟩ := hplace
    have hname : sources.name location.file = sources'.name location'.file := by
      rw [Sources.name, hsource, Sources.name, hsource']
    have htext : sources.code location.file = sources'.code location'.file := by
      rw [Sources.code, hsource, Sources.code, hsource']
    dsimp only
    rw [hname, htext, hrange]
    exact ⟨hcode, hmessage, hhelp, rfl, rfl, rfl, rfl⟩

/-! ## The main statement -/

namespace Engine

theorem compileEach_forms {engine engine' : Engine σ} (h : engine.Forms engine') (sources : List Source) :
    (engine.compileEach sources).Forms (engine'.compileEach sources) := by
  induction sources generalizing engine engine' with
  | nil => exact h
  | cons source sources ih => exact ih (h.compile source.code source.name).1

/-- Engines with the same last definitions and the same resolver render alike. -/
theorem Reflects.render {engine engine' : Engine σ} {sources sources' : List Source} (h : engine.Reflects sources)
    (h' : engine'.Reflects sources') (hlast : ∀ name, lastDefining sources name = lastDefining sources' name)
    (hresolver : engine.resolver = engine'.resolver) (depth : Nat) (name : String) (params : Value) (host : σ) :
    RendersLike (engine.render depth name params host).1 (engine'.render depth name params host).1 ∧
      (engine.render depth name params host).2 = (engine'.render depth name params host).2 := by
  have hagrees := @Stage.render_alike σ _ _ _ (fun _ => trivial) _ _ (h.stage h' hlast hresolver) depth name params
  have hend := hagrees ⟨"", host⟩ ⟨"", host⟩ rfl rfl
  unfold Engine.render renderInto
  generalize engine.stage.render depth name params ⟨"", host⟩ = done,
    engine'.stage.render depth name params ⟨"", host⟩ = done' at hend
  rcases done with ⟨halt | ⟨⟩, output⟩ <;> rcases done' with ⟨halt' | ⟨⟩, output'⟩
  · obtain hlenient | ⟨hhalt, -, hhost⟩ := hend
    · exact hlenient.elim
    · refine ⟨?_, hhost⟩
      cases hhalt with
      | error herror => exact .error herror.looksLike
      | tooDeep => exact .tooDeep
  · exact hend.elim
  · exact hend.elim
  · obtain ⟨-, htext, hhost⟩ := hend
    refine ⟨?_, hhost⟩
    show RendersLike (.ok output.written) (.ok output'.written)
    have hwritten : output.written = output'.written := htext
    rw [hwritten]
    exact .text _

/-- **The order of definitions does not change what templates render.** Where every source holds one definition and
    each name is defined last by the same source, two new engines with the same resolver that compile the sources
    know the same names, and for each template and all parameters both renders have the same text, fail with errors
    that look alike, or nest their calls deeper than the bound, whatever the bound is. -/
theorem compileEach_render {sources sources' : List Source}
    (hone : ∀ source ∈ sources, ∃ name, source.template? = some name)
    (hone' : ∀ source ∈ sources', ∃ name, source.template? = some name)
    (hlast : ∀ name, lastDefining sources name = lastDefining sources' name) (resolver : Resolver)
    (optimize optimize' : Bool) :
    let engine : Engine σ := ((Engine.new optimize).setResolver resolver).compileEach sources
    let engine' : Engine σ := ((Engine.new optimize').setResolver resolver).compileEach sources'
    engine.names = engine'.names ∧ ∀ depth name params host,
      RendersLike (engine.render depth name params host).1 (engine'.render depth name params host).1 ∧
        (engine.render depth name params host).2 = (engine'.render depth name params host).2 := by
  intro engine engine'
  -- Flattening does not show, so that trees may be taken to be stored as they are read.
  have hforms : engine.Forms (((Engine.new false).setResolver resolver).compileEach sources) :=
    compileEach_forms ((Forms.new optimize false).setResolver resolver) sources
  have hforms' : engine'.Forms (((Engine.new false).setResolver resolver).compileEach sources') :=
    compileEach_forms ((Forms.new optimize' false).setResolver resolver) sources'
  have h : (((Engine.new false).setResolver resolver : Engine σ).compileEach sources).Reflects sources :=
    .compileEach resolver hone
  have h' : (((Engine.new false).setResolver resolver : Engine σ).compileEach sources').Reflects sources' :=
    .compileEach resolver hone'
  constructor
  · exact hforms.registry.names.trans ((h.names h' hlast).trans hforms'.registry.names.symm)
  · intro depth name params host
    rw [hforms.render, hforms'.render]
    apply h.render h' hlast
    rw [compileEach_resolver, compileEach_resolver]

/-- A call that finds its target defined before it, and one that does not: the trees differ, and a value that is
    missing is reported alike. -/
theorem compileEach_render_forward :
    let item : Source := ⟨"b.tl", "def b \x7b ~<~ @~v ~>~ \x7d"⟩
    let other : Source := ⟨"b.tl", "def b \x7b ~-~ \x7d"⟩
    let page : Source := ⟨"a.tl", "def a \x7b b(v: @x) \x7d"⟩
    let engine : Engine Unit := ((Engine.new true).setResolver .default).compileEach [item, page]
    let engine' : Engine Unit := ((Engine.new true).setResolver .default).compileEach [page, other, item]
    engine.registry.internal? "a" ≠ engine'.registry.internal? "a" ∧ engine.names = engine'.names ∧
      (engine.render 1 "a" (.map [("x", .string "&")]) ()).1 = .ok "<&amp;>" ∧
      (engine'.render 1 "a" (.map [("x", .string "&")]) ()).1 = .ok "<&amp;>" ∧
      RendersLike (engine.render 1 "a" (.map []) ()).1 (engine'.render 1 "a" (.map []) ()).1 := by
  intro item other page engine engine'
  have hitem : item.template? = some "b" := by decide +kernel
  have hother : other.template? = some "b" := by decide +kernel
  have hpage : page.template? = some "a" := by decide +kernel
  have hone : ∀ source ∈ [item, page], ∃ name, source.template? = some name := by
    simp [hitem, hpage]
  have hone' : ∀ source ∈ [page, other, item], ∃ name, source.template? = some name := by
    simp [hitem, hother, hpage]
  have hlast : ∀ name, lastDefining [item, page] name = lastDefining [page, other, item] name := by
    intro name
    by_cases ha : "a" = name
    · subst ha
      simp [lastDefining, hitem, hother, hpage]
    · by_cases hb : "b" = name <;> simp [lastDefining, hitem, hother, hpage, ha, hb]
  have hsame := @compileEach_render Unit _ _ hone hone' hlast .default true true
  have hdiffer : engine.registry.internal? "a" ≠ engine'.registry.internal? "a" := by decide +kernel
  have htext : (engine.render 1 "a" (.map [("x", .string "&")]) ()).1 = .ok "<&amp;>" := by decide +kernel
  have htext' : (engine'.render 1 "a" (.map [("x", .string "&")]) ()).1 = .ok "<&amp;>" := by
    have hlike : RendersLike (.ok "<&amp;>") (engine'.render 1 "a" (.map [("x", .string "&")]) ()).1 := by
      rw [← htext]
      exact (hsame.2 1 "a" (.map [("x", .string "&")]) ()).1
    generalize (engine'.render 1 "a" (.map [("x", .string "&")]) ()).1 = result at hlike ⊢
    cases hlike
    rfl
  exact ⟨hdiffer, hsame.1, htext, htext', (hsame.2 1 "a" (.map []) ()).1⟩

end Engine

end HtmlTemplate
