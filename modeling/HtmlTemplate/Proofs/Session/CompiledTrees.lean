import HtmlTemplate.Proofs.Grammar.Compiled
import HtmlTemplate.Proofs.Render.InPlace

/-!
# Renders of compiled trees

Compiled trees are well formed. So no render of a compiled tree renders a passed reference or a deferred tree in place
or resolves an empty path, and if the tables hold compiled trees only, neither does any call that it makes
(`Node.compiled_wellFormed`). The tables of an engine are like this unless trees are defined by hand
(`History.every_isCompiled`).

## Contents

* `Node.compiled_wellFormed` — the main statement;
* `History.every_isCompiled`, `History.renderTreeOr_eq` — the trees of an engine.
-/

namespace HtmlTemplate

variable {σ : Type}

namespace Node

theorem IsCompiled.every_built {registry : Registry σ}
    (h : registry.Every fun tree => ∃ isInternal file, tree.IsCompiled isInternal file) :
    registry.Every fun tree => ∃ isInternal file, Built isInternal file false tree := by
  intro name tree hholds
  obtain ⟨isInternal, file, hcompiled⟩ := h name tree hholds
  exact ⟨isInternal, file, hcompiled.built⟩

/-- **Compiled trees are well formed.** When one is rendered, it does not matter what is done about passed references and
deferred trees in place and about empty paths; and neither does it where the calls lead, if they lead to compiled trees. -/
theorem compiled_wellFormed {isInternal : String → Bool} {file : Nat} {tree : Node}
    (h : tree.IsCompiled isInternal file) :
    tree.WellFormed isInternal file ∧
    (∀ {σ : Type} (misuse : Misuse σ) (stage : Stage σ) (invoke : Node → Environment → Action σ Unit)
      (environment : Environment),
      tree.renderOr misuse stage invoke environment = tree.render stage invoke environment) ∧
    ∀ {σ : Type} (misuse : Misuse σ) (stage : Stage σ),
      (stage.registry.Every fun other => ∃ isInternal file, other.IsCompiled isInternal file) →
      ∀ (depth : Nat) (environment : Environment),
        stage.renderTreeOr misuse depth tree environment = stage.renderTree depth tree environment := by
  have hbuilt : Built isInternal file false tree := h.built
  refine ⟨hbuilt.wellFormed, fun misuse stage invoke environment => hbuilt.renderOr_eq misuse stage invoke environment, ?_⟩
  intro σ misuse stage hregistry depth environment
  exact Stage.renderTreeOr_eq (IsCompiled.every_built hregistry) misuse depth hbuilt environment

/-- A tag and a call that is given a reference and a text, read from a source whose last tokens are cut off. -/
theorem compiled_wellFormed_call :
    let place (file first behind : Nat) : Location := ⟨file, ⟨⟨1, first⟩, ⟨1, behind⟩⟩⟩
    let code := "def a{b c(v:@x.0,w:@~y)} ("
    let scope : CallScope := ⟨3, fun name => name = "c"⟩
    let called := call (place 3 9 10) .internal "c" [("v", reference (place 3 13 17) .passed ["x", "0"]),
      ("w", deferred (place 3 20 23) (reference (place 3 20 23) .escaped ["y"]))]
    let tag := body (place 3 7 8) (["<b", ">", "</b>"].map (literal (place 3 7 8)))
    let tree := body (place 3 6 7) [literal (place 3 7 8) "<b></b>", called]
    let callee := body (place 4 6 7) [reference (place 4 7 9) .raw ["v"], reference (place 4 9 12) .escaped ["w"]]
    let stage : Stage Unit := ⟨Registry.empty.define "c" callee, .default⟩
    let params : Value := .map [("x", .map [("0", .string "<")]), ("y", .string "1")]
    Definition.nextDefinition scope ((scan code 3).tokens.take 15) =
        .ok (some ⟨"a", place 3 1 4, body (place 3 6 7) [tag, called]⟩) [] ∧
      (body (place 3 6 7) [tag, called]).flatten = tree ∧ tree.WellFormed scope.isInternal 3 ∧
      ∀ misuse : Misuse Unit,
        stage.renderTreeOr misuse 1 tree (.params params) ⟨"", ()⟩ = (.ok (), ⟨"<b></b><1", ()⟩) := by
  intro place code scope called tag tree callee stage params
  have hread : Definition.nextDefinition scope ((scan code 3).tokens.take 15) =
      .ok (some ⟨"a", place 3 1 4, body (place 3 6 7) [tag, called]⟩) [] := by decide +kernel
  have hflatten : (body (place 3 6 7) [tag, called]).flatten = tree := by decide +kernel
  have hcompiled : tree.IsCompiled scope.isInternal 3 := by
    rw [← hflatten]
    exact .flattened (.read (List.take_prefix 15 _) rfl (.next List.suffix_rfl hread))
  have hcallee : callee.IsCompiled (fun _ => false) 4 := by
    have hall : definitions ⟨4, fun _ => false⟩ (scan "def c{@v@~w}" 4).tokens = .ok [⟨"c", place 4 1 4, callee⟩] := by
      decide +kernel
    exact .read List.prefix_rfl rfl (.all hall List.mem_cons_self)
  have hregistry : stage.registry.Every fun other => ∃ isInternal file, other.IsCompiled isInternal file :=
    (Registry.every_empty _).define "c" ⟨_, _, hcallee⟩
  have hrender : stage.renderTree 1 tree (.params params) ⟨"", ()⟩ = (.ok (), ⟨"<b></b><1", ()⟩) := by decide +kernel
  obtain ⟨hwell, -, hdepth⟩ := compiled_wellFormed hcompiled
  refine ⟨hread, hflatten, hwell, fun misuse => ?_⟩
  rw [hdepth misuse stage hregistry 1, hrender]

end Node

namespace History

/-- **Without trees defined by hand, an engine holds compiled trees only.** -/
theorem every_isCompiled {optimize : Bool} {edits : List (Edit σ)} (hedits : ∀ edit ∈ edits, edit.isDefine = false) :
    (⟨optimize, edits⟩ : History σ).engine.registry.Every fun tree =>
      ∃ isInternal file, tree.IsCompiled isInternal file := by
  intro name tree h
  obtain ⟨before, code, fileName, after, -, definition, hcompleted, -, rfl⟩ := holds hedits h
  obtain ⟨scope, d, hd, hphrase⟩ := Engine.exists_def_of_mem_completedIn hcompleted
  have hbody : definition.body.IsCompiled scope.isInternal (⟨optimize, before⟩ : History σ).engine.sources.size :=
    .read List.prefix_rfl rfl (Definition.returned_iff.mpr ⟨d, hphrase, hd⟩)
  unfold Engine.stored
  split
  · exact ⟨_, _, hbody.flattened⟩
  · exact ⟨_, _, hbody⟩

/-- Such an engine never renders a passed reference or a deferred tree in place, and never resolves an empty path. -/
theorem renderTreeOr_eq {optimize : Bool} {edits : List (Edit σ)} (hedits : ∀ edit ∈ edits, edit.isDefine = false)
    {name : String} {tree : Node} (h : (⟨optimize, edits⟩ : History σ).engine.registry.Holds name tree)
    (misuse : Misuse σ) (depth : Nat) (environment : Environment) :
    (⟨optimize, edits⟩ : History σ).engine.stage.renderTreeOr misuse depth tree environment =
      (⟨optimize, edits⟩ : History σ).engine.stage.renderTree depth tree environment := by
  have hregistry : (⟨optimize, edits⟩ : History σ).engine.registry.Every fun tree =>
      ∃ isInternal file, tree.IsCompiled isInternal file := every_isCompiled hedits
  obtain ⟨_, _, hcompiled⟩ := hregistry name tree h
  exact Stage.renderTreeOr_eq (Node.IsCompiled.every_built hregistry) misuse depth hcompiled.built environment

end History

end HtmlTemplate
