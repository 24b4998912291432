import Mathlib.Data.List.Forall2
import HtmlTemplate.Proofs.Render.Flattened
import HtmlTemplate.Proofs.Session.Basic

/-!
# Optimization does not show

Two sessions that differ only in which of their definitions are flattened give the host the same answers:
the same results of compiling, the same names, the same texts, errors and partial texts. They also call the
functions of the host alike, which a ledger makes visible: it records each call with its arguments.

The engines of the two sessions are related by `Engine.Forms`. Every edit keeps the relation
(`Engine.perform_forms`), because reading a definition only asks the tables which names are internal, and
every question of the host has the same answer on both sides (`Session.step_forms`).

## Contents

* `Ledger`, `Native.logged`, `Operation.logged` — functions of the host that record their calls;
* `Operation.settled`, `SameButOptimize` — operations without the choice whether to flatten;
* `Engine.Forms`, `Session.Forms` — engines and sessions up to flattening, and what keeps them so;
* `run_of_sameButOptimize` — the main statement.
-/

namespace HtmlTemplate

variable {σ : Type}

/-! ## Recording the calls of host functions -/

/-- The state of the host, and the calls of its functions up to now, each with the arguments it was given. -/
structure Ledger (σ : Type) where
  state : σ
  calls : List (Native σ × Arguments)

/-- The function, recording that it was called. -/
def Native.logged (function : Native σ) : Native (Ledger σ) := fun args ledger =>
  let (text, state) := function args ledger.state
  (text, ⟨state, ledger.calls ++ [(function, args)]⟩)

/-- The edit with the function it registers, if it registers one, recording its calls. -/
def Edit.logged : Edit σ → Edit (Ledger σ)
  | .compile code fileName => .compile code fileName
  | .define name tree => .define name tree
  | .register name function => .register name (Native.logged function)
  | .setResolver resolver => .setResolver resolver
  | .setOptimize optimize => .setOptimize optimize

/-- The operation with all functions recording their calls. -/
def Operation.logged : Operation σ → Operation (Ledger σ)
  | .new optimize => .new optimize
  | .clone engine => .clone engine
  | .edit engine change => .edit engine change.logged
  | .names engine => .names engine
  | .isInternal engine name => .isInternal engine name
  | .isDefined engine name => .isDefined engine name
  | .render engine depth name params => .render engine depth name params
  | .renderInto engine depth name params written => .renderInto engine depth name params written

/-! ## Operations without the setting -/

/-- The operation without the choice whether to flatten; nothing is left of an operation that only makes
    this choice. -/
def Operation.settled : Operation σ → Option (Operation σ)
  | .new _ => some (.new true)
  | .edit _ (.setOptimize _) => none
  | operation => some operation

/-- The operations are the same but for when flattening is switched on and off. -/
def SameButOptimize (operations operations' : List (Operation σ)) : Prop :=
  operations.filterMap Operation.settled = operations'.filterMap Operation.settled

/-! ## Tables with forms of the same trees -/

/-- Tables in which the same names are defined list them alike. -/
theorem Registry.names_eq_of_isDefined {registry registry' : Registry σ}
    (h : ∀ name, registry.isDefined name = registry'.isDefined name) : registry.names = registry'.names := by
  refine List.Perm.eq_of_pairwise (fun a b _ _ hab hba => ?_) registry.external.ordered_keys
    registry'.external.ordered_keys ?_
  · exact absurd hba (Std.OrientedCmp.not_lt_of_lt hab)
  · refine (List.perm_ext_iff_of_nodup registry.external.nodup_keys registry'.external.nodup_keys).mpr ?_
    intro name
    rw [← Registry.names, ← Registry.names, mem_names, mem_names, h]

namespace Registry.Forms

variable {registry registry' : Registry σ}

theorem isInternal (h : registry.Forms registry') (name : String) :
    registry.isInternal name = registry'.isInternal name := by
  have hfound := h.internal name
  rw [Registry.isInternal, Registry.isInternal]
  generalize registry.internal? name = found, registry'.internal? name = found' at hfound ⊢
  cases hfound with
  | none => rfl
  | some _ => rfl

theorem isDefined (h : registry.Forms registry') (name : String) :
    registry.isDefined name = registry'.isDefined name := by
  have hfound := h.external name
  rw [Registry.isDefined, Registry.isDefined]
  generalize registry.external? name = found, registry'.external? name = found' at hfound ⊢
  cases hfound with
  | none => rfl
  | some _ => rfl

theorem names (h : registry.Forms registry') : registry.names = registry'.names :=
  names_eq_of_isDefined h.isDefined

end Registry.Forms

/-! ## Engines -/

/-- Two engines that differ only in which of their trees are flattened, and in whether they go on
    flattening. -/
structure Engine.Forms (engine engine' : Engine σ) : Prop where
  registry : engine.registry.Forms engine'.registry
  sources : engine.sources = engine'.sources
  resolver : engine.resolver = engine'.resolver

namespace Engine.Forms

variable {engine engine' : Engine σ}

theorem new (optimize optimize' : Bool) : Forms (Engine.new optimize : Engine σ) (.new optimize') where
  registry := ⟨fun name => by simp [Engine.new], fun name => by simp [Engine.new]⟩
  sources := rfl
  resolver := rfl

theorem define (h : engine.Forms engine') (name : String) (tree : Node) :
    (engine.define name tree).Forms (engine'.define name tree) where
  registry := by
    refine ⟨fun other => ?_, fun other => ?_⟩
    · rw [Engine.define, Engine.define, Registry.internal?_define, Registry.internal?_define]
      by_cases hname : name = other
      · rw [if_pos hname, if_pos hname]
        exact .some (Node.Forms.of_choice tree _ _)
      · rw [if_neg hname, if_neg hname]
        exact h.registry.internal other
    · rw [Engine.define, Engine.define, Registry.external?_define, Registry.external?_define]
      by_cases hname : name = other
      · rw [if_pos hname, if_pos hname]
        exact .some (.compiled (Node.Forms.of_choice tree _ _))
      · rw [if_neg hname, if_neg hname]
        exact h.registry.external other
  sources := h.sources
  resolver := h.resolver

theorem register (h : engine.Forms engine') (name : String) (function : Native σ) :
    (engine.register name function).Forms (engine'.register name function) where
  registry := by
    refine ⟨h.registry.internal, fun other => ?_⟩
    rw [Engine.register, Engine.register, Registry.external?_register, Registry.external?_register]
    by_cases hname : name = other
    · rw [if_pos hname, if_pos hname]
      exact .some (.native function)
    · rw [if_neg hname, if_neg hname]
      exact h.registry.external other
  sources := h.sources
  resolver := h.resolver

theorem setResolver (h : engine.Forms engine') (resolver : Resolver) :
    (engine.setResolver resolver).Forms (engine'.setResolver resolver) :=
  ⟨h.registry, h.sources, rfl⟩

/-- Reading a definition asks the tables for nothing but the internal names, so both engines read the same
    definitions up to the same error. -/
theorem defineAll (file bound : Nat) :
    ∀ (engine engine' : Engine σ) (tokens : List Token), engine.Forms engine' →
      (Engine.defineAll file bound engine tokens).1.Forms (Engine.defineAll file bound engine' tokens).1 ∧
        (Engine.defineAll file bound engine tokens).2 = (Engine.defineAll file bound engine' tokens).2 := by
  induction bound with
  | zero => exact fun _ _ _ h => ⟨h, rfl⟩
  | succ bound ih =>
    intro engine engine' tokens h
    rw [Engine.defineAll, Engine.defineAll, funext h.registry.isInternal]
    rcases Definition.nextDefinition ⟨file, engine'.registry.isInternal⟩ tokens with ⟨_ | definition, rest⟩ | _
    · exact ⟨h, rfl⟩
    · exact ih _ _ rest (h.define _ _)
    · exact ⟨h, rfl⟩

theorem compile (h : engine.Forms engine') (code fileName : String) :
    (engine.compile code fileName).1.Forms (engine'.compile code fileName).1 ∧
      (engine.compile code fileName).2 = (engine'.compile code fileName).2 := by
  have hadd : Forms { engine with sources := engine.sources.add ⟨fileName, code⟩ }
      { engine' with sources := engine'.sources.add ⟨fileName, code⟩ } :=
    ⟨h.registry, by rw [h.sources], h.resolver⟩
  simp only [Engine.compile, ← h.sources]
  generalize scan code engine.sources.size = found
  obtain ⟨hengine, herror⟩ := defineAll engine.sources.size found.tokens.length _ _ found.tokens hadd
  rw [← h.sources] at hengine herror
  rw [← herror]
  generalize Engine.defineAll _ _ { engine with sources := _ } _ = done at hengine ⊢
  generalize (Engine.defineAll _ _ { engine' with sources := _ } _).1 = engine₂ at hengine ⊢
  obtain ⟨engine₁, error⟩ := done
  cases Engine.firstError error found.error with
  | none => exact ⟨hengine, rfl⟩
  | some cause => exact ⟨hengine, by rw [hengine.sources]⟩

/-- Every edit has the same result on both engines, and leaves them as alike as they were. -/
theorem perform (h : engine.Forms engine') (edit : Edit σ) :
    (engine.perform edit).1.Forms (engine'.perform edit).1 ∧
      (engine.perform edit).2 = (engine'.perform edit).2 := by
  cases edit with
  | compile code fileName =>
    obtain ⟨hengine, hresult⟩ := h.compile code fileName
    exact ⟨hengine, congrArg some hresult⟩
  | define name tree => exact ⟨h.define name tree, rfl⟩
  | register name function => exact ⟨h.register name function, rfl⟩
  | setResolver resolver => exact ⟨h.setResolver resolver, rfl⟩
  | setOptimize optimize => exact ⟨⟨h.registry, h.sources, h.resolver⟩, rfl⟩

/-- Switching flattening on or off on one side leaves the engines as alike as they were. -/
theorem setOptimize_left (h : engine.Forms engine') (optimize : Bool) :
    (engine.setOptimize optimize).Forms engine' := ⟨h.registry, h.sources, h.resolver⟩

theorem stage (h : engine.Forms engine') : engine.stage.Forms engine'.stage := ⟨h.registry, h.resolver⟩

theorem renderInto (h : engine.Forms engine') (depth : Nat) (name : String) (params : Value)
    (output : Output σ) :
    engine.renderInto depth name params output = engine'.renderInto depth name params output := by
  have hexplain : engine.explain = engine'.explain := by
    funext halt
    cases halt with
    | error error => rw [Engine.explain, Engine.explain, h.sources]
    | tooDeep => rfl
  rw [Engine.renderInto, Engine.renderInto, Stage.render_forms h.stage, hexplain]

theorem render (h : engine.Forms engine') (depth : Nat) (name : String) (params : Value) (host : σ) :
    engine.render depth name params host = engine'.render depth name params host := by
  rw [Engine.render, Engine.render, h.renderInto]

end Engine.Forms

/-! ## Sessions -/

/-- Two sessions whose engines differ only in which of their trees are flattened, and that look the same to
    the host. -/
structure Session.Forms (session session' : Session σ) : Prop where
  engines : List.Forall₂ Engine.Forms session.engines session'.engines
  host : session.host = session'.host
  answers : session.answers = session'.answers

namespace Session.Forms

variable {session session' : Session σ}

/-- Engines of the same number are alike, and a number is given out in both sessions or in neither. -/
theorem engine (h : session.Forms session') (number : Nat) :
    Option.Rel Engine.Forms session.engines[number]? session'.engines[number]? := by
  have hengines := h.engines
  generalize session.engines = engines, session'.engines = engines' at hengines ⊢
  induction hengines generalizing number with
  | nil => exact .none
  | cons hengine _ ih =>
    cases number with
    | zero => exact .some hengine
    | succ number => exact ih number

theorem append (h : session.Forms session') {engine engine' : Engine σ} (hengine : engine.Forms engine') :
    List.Forall₂ Engine.Forms (session.engines ++ [engine]) (session'.engines ++ [engine']) :=
  List.rel_append h.engines (.cons hengine .nil)

theorem set (h : session.Forms session') (number : Nat) {engine engine' : Engine σ}
    (hengine : engine.Forms engine') :
    List.Forall₂ Engine.Forms (session.engines.set number engine) (session'.engines.set number engine') := by
  have hengines := h.engines
  generalize session.engines = engines, session'.engines = engines' at hengines ⊢
  induction hengines generalizing number with
  | nil => exact .nil
  | cons hfirst hrest ih =>
    cases number with
    | zero => exact .cons hengine hrest
    | succ number => exact .cons hfirst (ih number)

/-- An answer that is the same in both sessions. -/
theorem answer (h : session.Forms session') {one other : Answer} (hanswer : one = other) :
    (session.answer one).Forms (session'.answer other) :=
  ⟨h.engines, h.host, by rw [Session.answer, Session.answer, h.answers, hanswer]⟩

/-- Sessions stay alike if they go on alike with engines that are alike. -/
theorem withEngine (h : session.Forms session') (number : Nat) {next next' : Engine σ → Session σ}
    (hnext : ∀ engine engine' : Engine σ, engine.Forms engine' → (next engine).Forms (next' engine')) :
    (session.withEngine number next).Forms (session'.withEngine number next') := by
  have hengine := h.engine number
  rw [Session.withEngine, Session.withEngine]
  generalize session.engines[number]? = found, session'.engines[number]? = found' at hengine ⊢
  cases hengine with
  | none => exact h
  | some hengine => exact hnext _ _ hengine

/-- **One operation keeps two sessions alike**, and an engine may be made with any setting. -/
theorem step (h : session.Forms session') {operation settled : Operation σ}
    (hsettled : operation.settled = some settled) :
    (session.step operation).Forms (session'.step settled) := by
  cases operation with
  | new optimize =>
    cases hsettled
    exact ⟨h.append (.new _ _), h.host, h.answers⟩
  | clone number =>
    cases hsettled
    exact h.withEngine number fun _ _ hengine => ⟨h.append hengine, h.host, h.answers⟩
  | edit number edit =>
    have hsame : settled = .edit number edit := by
      cases edit <;> cases hsettled <;> rfl
    subst hsame
    refine h.withEngine number fun _ _ hengine => ?_
    obtain ⟨hedited, hresult⟩ := hengine.perform edit
    exact ⟨h.set number hedited, h.host, by simp only [hresult, h.answers]⟩
  | names number =>
    cases hsettled
    exact h.withEngine number fun _ _ hengine => h.answer (congrArg Answer.names hengine.registry.names)
  | isInternal number name =>
    cases hsettled
    exact h.withEngine number fun _ _ hengine =>
      h.answer (congrArg Answer.truth (hengine.registry.isInternal name))
  | isDefined number name =>
    cases hsettled
    exact h.withEngine number fun _ _ hengine =>
      h.answer (congrArg Answer.truth (hengine.registry.isDefined name))
  | render number depth name params =>
    cases hsettled
    refine h.withEngine number fun _ _ hengine => ?_
    simp only [hengine.render, h.host, h.answers]
    exact ⟨h.engines, rfl, rfl⟩
  | renderInto number depth name params written =>
    cases hsettled
    refine h.withEngine number fun _ _ hengine => ?_
    simp only [hengine.renderInto, h.host, h.answers]
    exact ⟨h.engines, rfl, rfl⟩

/-- Choosing whether to flatten leaves a session like one in which nothing is done. -/
theorem step_left (h : session.Forms session') {operation : Operation σ} (hsettled : operation.settled = none) :
    (session.step operation).Forms session' := by
  cases operation with
  | edit number edit =>
    cases edit with
    | setOptimize optimize =>
      have hengine := h.engine number
      rw [Session.step, Session.withEngine]
      generalize hfound : session.engines[number]? = found at hengine ⊢
      generalize hfound' : session'.engines[number]? = found' at hengine
      cases hengine with
      | none => exact h
      | some hengine =>
        -- Putting the engine of a number back in its place changes nothing.
        have hset := h.set number (hengine.setOptimize_left optimize)
        obtain ⟨hlt, hget⟩ := List.getElem?_eq_some_iff.mp hfound'
        rw [← hget, List.set_getElem_self] at hset
        exact ⟨hset, h.host, by simpa [Engine.perform] using h.answers⟩
    | _ => cases hsettled
  | _ => cases hsettled

/-- **A session is like the one in which nothing is said about flattening.** -/
theorem run (operations : List (Operation σ)) :
    ∀ session session' : Session σ, session.Forms session' →
      (session.run operations).Forms (session'.run (operations.filterMap Operation.settled)) := by
  induction operations with
  | nil => exact fun _ _ h => h
  | cons operation operations ih =>
    intro session session' h
    rw [Session.run_cons]
    cases hsettled : operation.settled with
    | none =>
      rw [List.filterMap_cons_none hsettled]
      exact ih _ _ (h.step_left hsettled)
    | some settled =>
      rw [List.filterMap_cons_some hsettled, Session.run_cons]
      exact ih _ _ (h.step hsettled)

end Session.Forms

/-! ## The main statement -/

/-- What is left of an operation without the setting does not depend on whether calls are recorded. -/
theorem Operation.settled_logged (operation : Operation σ) :
    operation.logged.settled = operation.settled.map Operation.logged := by
  cases operation with
  | edit number edit => cases edit <;> rfl
  | _ => rfl

theorem filterMap_settled_logged (operations : List (Operation σ)) :
    (operations.map Operation.logged).filterMap Operation.settled =
      (operations.filterMap Operation.settled).map Operation.logged := by
  rw [List.filterMap_map, List.map_filterMap]
  exact List.filterMap_congr fun operation _ => operation.settled_logged

/-- **Flattening is unobservable over whole runs.** Two sessions with the same operations but for when
    flattening is switched on and off give the same answers: the results of compiling, the names and tables,
    and the texts, errors and partial texts of all renders, those included that a bound on the nesting of
    calls cuts off. Functions of the host are called in the same order with the same arguments, and leave
    the same state. -/
theorem run_of_sameButOptimize (host : σ) {operations operations' : List (Operation σ)}
    (h : SameButOptimize operations operations') :
    let session := (Session.start ⟨host, []⟩).run (operations.map Operation.logged)
    let session' := (Session.start ⟨host, []⟩).run (operations'.map Operation.logged)
    session.answers = session'.answers ∧
      session.host.calls = session'.host.calls ∧ session.host.state = session'.host.state ∧
      session.engines.length = session'.engines.length ∧
      ∀ (number : Nat) (engine engine' : Engine (Ledger σ)),
        session.engines[number]? = some engine → session'.engines[number]? = some engine' →
          engine.names = engine'.names ∧
          (∀ name, engine.registry.isInternal name = engine'.registry.isInternal name) ∧
          ∀ name, engine.registry.isDefined name = engine'.registry.isDefined name := by
  intro session session'
  have hstart : (Session.start ⟨host, []⟩ : Session (Ledger σ)).Forms (Session.start ⟨host, []⟩) :=
    ⟨.nil, rfl, rfl⟩
  -- Both sessions are like the one in which nothing is said about flattening.
  have hsession : session.Forms _ := Session.Forms.run (operations.map Operation.logged) _ _ hstart
  have hsession' : session'.Forms _ := Session.Forms.run (operations'.map Operation.logged) _ _ hstart
  rw [filterMap_settled_logged] at hsession hsession'
  rw [← h] at hsession'
  generalize Session.run _ _ = common at hsession hsession'
  have hhost : session.host = session'.host := hsession.host.trans hsession'.host.symm
  refine ⟨hsession.answers.trans hsession'.answers.symm, congrArg Ledger.calls hhost,
    congrArg Ledger.state hhost, ?_, ?_⟩
  · exact hsession.engines.length_eq.trans hsession'.engines.length_eq.symm
  · intro number engine engine' hget hget'
    have hengine := hsession.engine number
    have hengine' := hsession'.engine number
    rw [hget] at hengine
    rw [hget'] at hengine'
    generalize common.engines[number]? = found at hengine hengine'
    cases hengine with
    | some hforms =>
      cases hengine' with
      | some hforms' =>
        exact ⟨hforms.registry.names.trans hforms'.registry.names.symm,
          fun name => (hforms.registry.isInternal name).trans (hforms'.registry.isInternal name).symm,
          fun name => (hforms.registry.isDefined name).trans (hforms'.registry.isDefined name).symm⟩

/-- A function of the host that counts its calls. -/
def tick : Native Nat := fun _ count => (count.repr, count + 1)

/-- Two runs of a session, one with flattening and one that switches it off before it compiles. -/
theorem run_of_sameButOptimize_tick :
    let before := [Operation.edit 0 (.register "tick" tick)]
    let after := [Operation.edit 0 (.compile "def a \x7b ~x~ b(v: \x7b ~y~ tick(v: @v) \x7d) \x7d" "a.tl"),
      .edit 0 (.define "b" (.body default [.literal default "<", .reference default .raw ["v"]])),
      .render 0 5 "a" (.ofEntries [("v", .string "1")])]
    let operations := Operation.new true :: before ++ after
    let operations' := Operation.new true :: before ++ .edit 0 (.setOptimize false) :: after
    SameButOptimize operations operations' ∧
      ((Session.start ⟨0, []⟩).run (operations.map Operation.logged)).answers =
        ((Session.start ⟨0, []⟩).run (operations'.map Operation.logged)).answers := by
  intro before after operations operations'
  have h : SameButOptimize operations operations' := rfl
  exact ⟨h, (run_of_sameButOptimize 0 h).1⟩

end HtmlTemplate
