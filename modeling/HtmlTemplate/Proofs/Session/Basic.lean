import Mathlib.Data.List.Induction
import HtmlTemplate.Engine

/-!
# Sessions

What a host does with its engines, as data. A session is run operation by operation: it makes engines, copies
them, edits them and asks them for texts, and the answers that the host sees are kept in order. The state of
the host is one for all engines, since the functions that a host registers are shared by the copies of an
engine.

Engines are values, so an engine is determined by the edits that were made to it, or to the engine it was
copied from before that (`Session.run_engines`).

## Contents

* `Edit`, `Engine.perform` — what changes one engine;
* `Operation`, `Answer`, `Session`, `Session.run` — what a host does with all its engines;
* `History`, `histories` — the edits that lie behind each engine;
* `History.log` — what is recorded of them;
* `Session.run_engines` — the engines of a session are those that their histories give.
-/

namespace HtmlTemplate

variable {σ : Type}

/-! ## Editing one engine -/

/-- What can be done to an engine. -/
inductive Edit (σ : Type) where
  | compile (code fileName : String)
  | define (name : String) (tree : Node)
  | register (name : String) (function : Native σ)
  | setResolver (resolver : Resolver)
  | setOptimize (optimize : Bool)

/-- Edits an engine. Only compiling has a result that the host sees. -/
def Engine.perform (engine : Engine σ) : Edit σ → Engine σ × Option (Except Diagnostic Unit)
  | .compile code fileName =>
    let (engine, result) := engine.compile code fileName
    (engine, some result)
  | .define name tree => (engine.define name tree, none)
  | .register name function => (engine.register name function, none)
  | .setResolver resolver => (engine.setResolver resolver, none)
  | .setOptimize optimize => (engine.setOptimize optimize, none)

/-! ## Running a session -/

/-- What a host can do. Engines are numbered in the order in which they are made. -/
inductive Operation (σ : Type) where
  | new (optimize : Bool)
  | clone (engine : Nat)
  | edit (engine : Nat) (edit : Edit σ)
  | names (engine : Nat)
  | isInternal (engine : Nat) (name : String)
  | isDefined (engine : Nat) (name : String)
  | render (engine depth : Nat) (name : String) (params : Value)
  | renderInto (engine depth : Nat) (name : String) (params : Value) (written : String)

/-- What the host sees of an operation. -/
inductive Answer where
  | compiled (result : Except Diagnostic Unit)
  | names (names : List String)
  | truth (value : Bool)
  | rendered (result : Except (Halt Diagnostic) String)
  | renderedInto (result : Except (Halt Diagnostic) Unit) (written : String)

/-- The engines by number, the state of the host, and the answers up to now. -/
structure Session (σ : Type) where
  engines : List (Engine σ)
  host : σ
  answers : List Answer

namespace Session

/-- Before the first operation. -/
def start (host : σ) : Session σ := ⟨[], host, []⟩

/-- Adds what the host sees of an operation. -/
def answer (session : Session σ) (answer : Answer) : Session σ :=
  { session with answers := session.answers ++ [answer] }

/-- Goes on with the engine of a number. Where there is none, nothing happens. -/
def withEngine (session : Session σ) (number : Nat) (next : Engine σ → Session σ) : Session σ :=
  match session.engines[number]? with
  | none => session
  | some engine => next engine

/-- Does one operation. -/
def step (session : Session σ) : Operation σ → Session σ
  | .new optimize => { session with engines := session.engines ++ [.new optimize] }
  | .clone number =>
    session.withEngine number fun engine => { session with engines := session.engines ++ [engine] }
  | .edit number edit =>
    session.withEngine number fun engine =>
      let (edited, result) := engine.perform edit
      { session with
        engines := session.engines.set number edited
        answers := session.answers ++ (result.map Answer.compiled).toList }
  | .names number => session.withEngine number fun engine => session.answer (.names engine.names)
  | .isInternal number name =>
    session.withEngine number fun engine => session.answer (.truth (engine.registry.isInternal name))
  | .isDefined number name =>
    session.withEngine number fun engine => session.answer (.truth (engine.registry.isDefined name))
  | .render number depth name params =>
    session.withEngine number fun engine =>
      let (result, host) := engine.render depth name params session.host
      { session with host, answers := session.answers ++ [.rendered result] }
  | .renderInto number depth name params written =>
    session.withEngine number fun engine =>
      let (result, output) := engine.renderInto depth name params ⟨written, session.host⟩
      { session with
        host := output.host
        answers := session.answers ++ [.renderedInto result output.written] }

/-- Does some operations one after the other. -/
def run (session : Session σ) (operations : List (Operation σ)) : Session σ :=
  operations.foldl step session

@[simp] theorem run_nil (session : Session σ) : session.run [] = session := rfl

@[simp] theorem run_cons (session : Session σ) (operation : Operation σ) (operations : List (Operation σ)) :
    session.run (operation :: operations) = (session.step operation).run operations := rfl

theorem run_append (session : Session σ) (operations more : List (Operation σ)) :
    session.run (operations ++ more) = (session.run operations).run more := List.foldl_append

end Session

/-! ## Histories -/

/-- How an engine came about: the setting it was made with, and the edits made to it since, or made to the
    engine that it was copied from before that. -/
structure History (σ : Type) where
  optimize : Bool
  edits : List (Edit σ)

namespace History

/-- The engine that a history leads to. -/
def engine (history : History σ) : Engine σ :=
  history.edits.foldl (fun engine edit => (engine.perform edit).1) (.new history.optimize)

/-- A history with one more edit. -/
def extend (history : History σ) (edit : Edit σ) : History σ :=
  { history with edits := history.edits ++ [edit] }

@[simp] theorem engine_nil (optimize : Bool) : (⟨optimize, []⟩ : History σ).engine = .new optimize := rfl

@[simp] theorem engine_extend (history : History σ) (edit : Edit σ) :
    (history.extend edit).engine = (history.engine.perform edit).1 := by
  rw [engine, extend, List.foldl_append]
  rfl

/-- What is recorded of the edits of a history, each at the engine that it was made to. -/
def log {α : Type} (record : Engine σ → Edit σ → List α) (history : History σ) : List α :=
  (history.edits.foldl (fun (engine, log) edit => ((engine.perform edit).1, log ++ record engine edit))
    (.new history.optimize, [])).2

@[simp] theorem log_nil {α : Type} (record : Engine σ → Edit σ → List α) (optimize : Bool) :
    (⟨optimize, []⟩ : History σ).log record = [] := rfl

/-- One more edit is recorded at the engine that the history leads to. -/
theorem log_extend {α : Type} (record : Engine σ → Edit σ → List α) (history : History σ) (edit : Edit σ) :
    (history.extend edit).log record = history.log record ++ record history.engine edit := by
  have hengine : ∀ (edits : List (Edit σ)) (engine : Engine σ) (found : List α),
      (edits.foldl (fun (engine, log) edit => ((engine.perform edit).1, log ++ record engine edit))
        (engine, found)).1 = edits.foldl (fun engine edit => (engine.perform edit).1) engine := by
    intro edits
    induction edits with
    | nil => exact fun _ _ => rfl
    | cons edit edits ih => exact fun _ _ => ih _ _
  rw [log, log, extend, List.foldl_append]
  show _ ++ record (history.edits.foldl _ (Engine.new history.optimize, [])).1 edit = _
  rw [hengine]
  rfl

/-- What one operation does to the histories of the engines. -/
def step (histories : List (History σ)) : Operation σ → List (History σ)
  | .new optimize => histories ++ [⟨optimize, []⟩]
  | .clone number =>
    match histories[number]? with
    | none => histories
    | some history => histories ++ [history]
  | .edit number edit =>
    match histories[number]? with
    | none => histories
    | some history => histories.set number (history.extend edit)
  | _ => histories

end History

/-- The histories of the engines that some operations make. -/
def histories (operations : List (Operation σ)) : List (History σ) := operations.foldl History.step []

namespace Session

/-- One operation changes the engines as it changes their histories. -/
theorem step_engines {session : Session σ} {histories : List (History σ)}
    (h : session.engines = histories.map History.engine) (operation : Operation σ) :
    (session.step operation).engines = (History.step histories operation).map History.engine := by
  have hget : ∀ number : Nat, session.engines[number]? = histories[number]?.map History.engine := by
    intro number
    rw [h, List.getElem?_map]
  cases operation with
  | new optimize => simp only [step, History.step, h, List.map_append, List.map_cons, List.map_nil, History.engine_nil]
  | clone number =>
    simp only [step, withEngine, History.step, hget]
    cases histories[number]? with
    | none => exact h
    | some history => simp only [Option.map_some, List.map_append, List.map_cons, List.map_nil, h]
  | edit number edit =>
    simp only [step, withEngine, History.step, hget]
    cases histories[number]? with
    | none => exact h
    | some history => simp only [Option.map_some, List.map_set, History.engine_extend, h]
  | names number | isInternal number name | isDefined number name | render number depth name params
  | renderInto number depth name params written =>
    simp only [step, withEngine, History.step]
    cases session.engines[number]? with
    | none => exact h
    | some engine => exact h

/-- **The engines of a session are those that their histories give.** -/
theorem run_engines (host : σ) (operations : List (Operation σ)) :
    ((start host).run operations).engines = (histories operations).map History.engine := by
  induction operations using List.reverseRecOn with
  | nil => rfl
  | append_singleton operations operation ih =>
    rw [run_append, histories, List.foldl_append]
    exact step_engines ih operation

end Session

end HtmlTemplate
