import HtmlTemplate.Engine
import HtmlTemplate.Proofs.Render.Agreement
import HtmlTemplate.Proofs.Session.Completed

/-!
# Escaped templates keep their delimiters

A template that escapes all it emits cannot be injected into. Which of the characters `<`, `>` and `"` its output
has, and in which order, is settled by the trees in the tables alone: they come from literals, since the text of an
escaped reference has none of them. This is a statement about two renders of one template. A value that is passed to
a call as it is can be any value, and a text that a call is given can hold delimiters, so the two renders are
followed with environments that need not have anything in common.

## Contents

* `delimiters` — the delimiters in a text, and none in an escaped one (`delimiters_escapeHtml`);
* `Node.escapedOnly` — trees that escape all they emit;
* `Node.render_sameDelimiters`, `Stage.renderTree_sameDelimiters` — one tree, and calls however deep;
* `Engine.delimiters_render` — the main statement.
-/

namespace HtmlTemplate

/-! ## Delimiters of a text -/

/-- Whether a character delimits a tag or the value of an attribute. -/
def isDelimiter (c : Char) : Bool := c = '<' || c = '>' || c = '"'

/-- The delimiters of a text, in order. -/
def delimiters (text : String) : List Char := text.toList.filter isDelimiter

theorem delimiters_append (text more : String) : delimiters (text ++ more) = delimiters text ++ delimiters more := by
  simp [delimiters]

theorem filter_escapeChar (c : Char) : (Entity.escapeChar c).filter isDelimiter = [] := by
  unfold Entity.escapeChar Entity.name?
  split
  case h_5 hlt hgt _ hquote =>
    have hc : isDelimiter c = false := by simpa [isDelimiter] using ⟨⟨hlt, hgt⟩, hquote⟩
    simp [hc]
  all_goals decide

/-- **An escaped text has no delimiters.** -/
theorem delimiters_escapeHtml (text : String) : delimiters (escapeHtml text) = [] := by
  unfold delimiters
  rw [toList_escapeHtml, Entity.escape, List.filter_flatMap]
  simp [filter_escapeChar]

/-! ## Trees that escape -/

namespace Node

mutual

/-- Whether the tree escapes all that it emits for references. A reference may be passed as an argument of a
    call, and stands nowhere else unless it is escaped. -/
def escapedOnly : Node → Bool
  | literal _ _ => true
  | deferred _ inner => inner.escapedOnly
  | reference _ mode _ => mode = .escaped
  | call _ _ _ args => escapedOnlyArgs args
  | body _ children => escapedOnlyAll children

def escapedOnlyAll : List Node → Bool
  | [] => true
  | node :: nodes => node.escapedOnly && escapedOnlyAll nodes

def escapedOnlyArgs : List (String × Node) → Bool
  | [] => true
  | (_, reference _ .passed _) :: args => escapedOnlyArgs args
  | (_, node) :: args => node.escapedOnly && escapedOnlyArgs args

end

theorem escapedOnlyArgs_cons {node : Node} (h : ∀ location path, node ≠ reference location .passed path)
    (name : String) (args : List (String × Node)) :
    escapedOnlyArgs ((name, node) :: args) = (node.escapedOnly && escapedOnlyArgs args) := by
  cases node with
  | reference location mode path =>
    cases mode with
    | passed => exact absurd rfl (h location path)
    | raw | escaped => simp [escapedOnlyArgs]
  | _ => simp [escapedOnlyArgs]

end Node

/-! ## Two renders -/

variable {σ : Type}

/-- The texts have the same delimiters, as long as both renders go on. -/
def Agreement.sameDelimiters : Agreement σ σ where
  text written written' := delimiters written = delimiters written'
  host _ _ := True
  halt _ _ := True
  left _ _ := True
  lenient := True
  text_empty := rfl
  text_append hwritten hmore := by rw [delimiters_append, delimiters_append, hwritten, hmore]
  left_of_text _ := trivial

open HtmlTemplate.Action (Agrees)
open Agreement (sameDelimiters)

variable {stage : Stage σ}

/-- Whatever values two environments have for a path. -/
theorem Stage.valueOf_sameDelimiters (location : Location) (path : Path) (environment environment' : Environment) :
    Agrees sameDelimiters (fun _ _ => True) (stage.valueOf location path environment)
      (stage.valueOf location path environment') := by
  unfold Stage.valueOf
  cases environment.resolve stage.resolver path with
  | error segment => exact .of_halt_left trivial _ _
  | ok value =>
    cases environment'.resolve stage.resolver path with
    | error segment => exact .of_halt_right trivial _ _
    | ok value' => exact .pure trivial

theorem Stage.textOf_sameDelimiters (location : Location) (path : Path) (environment environment' : Environment) :
    Agrees sameDelimiters (fun _ _ => True) (stage.textOf location path environment)
      (stage.textOf location path environment') := by
  unfold Stage.textOf
  apply (Stage.valueOf_sameDelimiters location path environment environment').bind
  intro value value' _
  cases value.text with
  | none => exact .of_halt_left trivial _ _
  | some text =>
    cases value'.text with
    | none => exact .of_halt_right trivial _ _
    | some text' => exact .pure trivial

namespace Node

variable {invoke invoke' : Node → Environment → Action σ Unit}

mutual

/-- One tree that escapes all it emits, rendered in any two environments. -/
theorem render_sameDelimiters (hnative : stage.registry.NoNatives)
    (hinvoke : ∀ name tree environment environment', stage.registry.Holds name tree →
      Agrees sameDelimiters (fun _ _ => True) (invoke tree environment) (invoke' tree environment')) :
    ∀ (node : Node) (environment environment' : Environment), node.escapedOnly = true →
      Agrees sameDelimiters (fun _ _ => True) (node.render stage invoke environment)
        (node.render stage invoke' environment')
  | literal _ text, _, _, _ => .emit rfl
  | reference location mode path, environment, environment', h => by
    obtain rfl : mode = .escaped := by simpa [escapedOnly] using h
    rw [render, render]
    apply (Stage.textOf_sameDelimiters location path environment environment').bind
    intro text text' _
    have hescaped : delimiters (escapeHtml text) = delimiters (escapeHtml text') := by
      rw [delimiters_escapeHtml, delimiters_escapeHtml]
    exact .emit hescaped
  | deferred _ inner, environment, environment', h => by
    rw [escapedOnly] at h
    rw [render, render]
    apply (render_sameDelimiters hnative hinvoke inner environment environment' h).privately.bind
    intro text text' htext
    exact .emit htext
  | call location .internal name args, environment, environment', h => by
    rw [escapedOnly] at h
    rw [render, render]
    cases hfound : stage.registry.internal? name with
    | none => exact .of_halt_left trivial _ _
    | some tree =>
      apply (collect_sameDelimiters hnative hinvoke args environment environment' h).bind
      intro layer layer' _
      exact hinvoke name tree _ _ (.inl hfound)
  | call location .external name args, environment, environment', h => by
    rw [escapedOnly] at h
    rw [render, render]
    cases hfound : stage.registry.external? name with
    | none => exact .of_halt_left trivial _ _
    | some template =>
      apply (collect_sameDelimiters hnative hinvoke args environment environment' h).bind
      intro layer layer' _
      cases template with
      | native function => exact absurd hfound (hnative name function)
      | compiled tree =>
        have htree := hinvoke name tree (.layer layer environment) (.layer layer' environment') (.inr hfound)
        apply htree.privately.bind
        intro text text' htext
        exact .emit htext
  | body _ children, environment, environment', h => by
    rw [escapedOnly] at h
    rw [render, render]
    exact renderAll_sameDelimiters hnative hinvoke children environment environment' h

theorem renderAll_sameDelimiters (hnative : stage.registry.NoNatives)
    (hinvoke : ∀ name tree environment environment', stage.registry.Holds name tree →
      Agrees sameDelimiters (fun _ _ => True) (invoke tree environment) (invoke' tree environment')) :
    ∀ (nodes : List Node) (environment environment' : Environment), escapedOnlyAll nodes = true →
      Agrees sameDelimiters (fun _ _ => True) (renderAll stage invoke nodes environment)
        (renderAll stage invoke' nodes environment')
  | [], _, _, _ => .pure trivial
  | node :: nodes, environment, environment', h => by
    simp only [escapedOnlyAll, Bool.and_eq_true] at h
    rw [renderAll, renderAll]
    apply (render_sameDelimiters hnative hinvoke node environment environment' h.1).bind
    intro _ _ _
    exact renderAll_sameDelimiters hnative hinvoke nodes environment environment' h.2

theorem collect_sameDelimiters (hnative : stage.registry.NoNatives)
    (hinvoke : ∀ name tree environment environment', stage.registry.Holds name tree →
      Agrees sameDelimiters (fun _ _ => True) (invoke tree environment) (invoke' tree environment')) :
    ∀ (args : List (String × Node)) (environment environment' : Environment), escapedOnlyArgs args = true →
      Agrees sameDelimiters (fun _ _ => True) (collect stage invoke args environment)
        (collect stage invoke' args environment')
  | [], _, _, _ => .pure trivial
  | (name, node) :: args, environment, environment', h => by
    obtain ⟨location, path, rfl⟩ | hne := node.passed_or_ne
    · rw [escapedOnlyArgs] at h
      rw [collect, collect]
      apply (Stage.valueOf_sameDelimiters location path environment environment').bind
      intro value value' _
      apply (collect_sameDelimiters hnative hinvoke args environment environment' h).bind
      intro _ _ _
      exact .pure trivial
    · simp only [escapedOnlyArgs_cons hne, Bool.and_eq_true] at h
      rw [collect_cons stage invoke hne, collect_cons stage invoke' hne]
      apply (render_sameDelimiters hnative hinvoke node environment environment' h.1).privately.bind
      intro text text' _
      apply (collect_sameDelimiters hnative hinvoke args environment environment' h.2).bind
      intro _ _ _
      exact .pure trivial

end

end Node

namespace Stage

/-- Renders of one tree in any two environments, calls being nested up to bounds of their own. -/
theorem renderTree_sameDelimiters (hnative : stage.registry.NoNatives)
    (hescaped : stage.registry.Every fun tree => tree.escapedOnly = true) (depth depth' : Nat) :
    ∀ (name : String) (tree : Node) (environment environment' : Environment), stage.registry.Holds name tree →
      Agrees sameDelimiters (fun _ _ => True) (stage.renderTree depth tree environment)
        (stage.renderTree depth' tree environment') := by
  induction depth generalizing depth' with
  | zero =>
    intro name tree environment environment' hholds
    -- No call comes to its end, so there is nothing to compare behind one.
    cases depth' <;>
      exact Node.render_sameDelimiters hnative (fun _ _ _ _ _ => .of_halt_left trivial _ _) tree _ _
        (hescaped name tree hholds)
  | succ depth ih =>
    intro name tree environment environment' hholds
    cases depth' with
    | zero =>
      exact Node.render_sameDelimiters hnative (fun _ _ _ _ _ => .of_halt_right trivial _ _) tree _ _
        (hescaped name tree hholds)
    | succ depth' => exact Node.render_sameDelimiters hnative (ih depth') tree _ _ (hescaped name tree hholds)

end Stage

namespace Engine

/-- A render that succeeds has written its text to an empty buffer. -/
theorem exists_of_render_eq_ok {engine : Engine σ} {depth : Nat} {name : String} {params : Value} {host : σ}
    {text : String} (h : (engine.render depth name params host).1 = .ok text) :
    ∃ output, engine.stage.render depth name params ⟨"", host⟩ = (.ok (), output) ∧ output.written = text := by
  unfold render renderInto at h
  rcases hrender : engine.stage.render depth name params ⟨"", host⟩ with ⟨_ | ⟨⟩, output⟩
  · rw [hrender] at h
    cases h
  · rw [hrender] at h
    cases h
    exact ⟨output, rfl, rfl⟩

/-- **Escaped templates cannot be injected into.** Where no function of the host is registered and all trees escape
    what they emit, two renders of a template that both succeed have the same delimiters, whatever their parameters
    and the resolver are. -/
theorem delimiters_render {engine : Engine σ} (hnative : engine.registry.NoNatives)
    (hescaped : engine.registry.Every fun tree => tree.escapedOnly = true) {depth depth' : Nat} {name : String}
    {params params' : Value} {host host' : σ} {text text' : String}
    (h : (engine.render depth name params host).1 = .ok text)
    (h' : (engine.render depth' name params' host').1 = .ok text') : delimiters text = delimiters text' := by
  obtain ⟨output, hrender, rfl⟩ := exists_of_render_eq_ok h
  obtain ⟨output', hrender', rfl⟩ := exists_of_render_eq_ok h'
  cases hfound : engine.stage.registry.external? name with
  | none =>
    simp only [Stage.render, hfound] at hrender
    cases hrender
  | some template =>
    cases template with
    | native function => exact absurd hfound (hnative name function)
    | compiled tree =>
      simp only [Stage.render, hfound] at hrender hrender'
      have hstage : engine.stage.registry.NoNatives := hnative
      have hagrees := Stage.renderTree_sameDelimiters hstage hescaped depth depth' name tree (.params params)
        (.params params') (.inr hfound)
      have hend := hagrees ⟨"", host⟩ ⟨"", host'⟩ rfl trivial
      rw [hrender, hrender'] at hend
      exact hend.2.1

/-- A text with a delimiter and a truth value, each of them passed on, and written into a text that is passed on. -/
theorem delimiters_render_passed :
    let item := Node.body default [.literal default ">", .reference default .escaped ["v"]]
    let page := Node.body default [.call default .external "b" [("v", .reference default .passed ["x"])],
      .call default .internal "b" [("v", .deferred default (.body default
        [.literal default "<", .reference default .escaped ["x"]]))]]
    let engine : Engine Unit := ⟨(Registry.empty.define "b" item).define "a" page, .empty, .default, false⟩
    engine.registry.NoNatives ∧ engine.registry.Every (fun tree => tree.escapedOnly = true) ∧
      (engine.render 1 "a" (.map [("x", .string "<")]) ()).1 = .ok ">&lt;>&lt;&amp;lt;" ∧
      (engine.render 2 "a" (.map [("x", .bool true)]) ()).1 = .ok ">true>&lt;true" ∧
      delimiters ">&lt;>&lt;&amp;lt;" = delimiters ">true>&lt;true" := by
  intro item page engine
  have hnative : engine.registry.NoNatives := (Registry.noNatives_empty.define "b" item).define "a" page
  have hescaped : engine.registry.Every fun tree => tree.escapedOnly = true :=
    ((Registry.every_empty _).define "b" (by decide)).define "a" (by decide)
  have h : (engine.render 1 "a" (.map [("x", .string "<")]) ()).1 = .ok ">&lt;>&lt;&amp;lt;" := by decide +kernel
  have h' : (engine.render 2 "a" (.map [("x", .bool true)]) ()).1 = .ok ">true>&lt;true" := by decide +kernel
  exact ⟨hnative, hescaped, h, h', delimiters_render hnative hescaped h h'⟩

end Engine

end HtmlTemplate
