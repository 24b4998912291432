import HtmlTemplate.Proofs.Session.Joined

/-!
# Calls that look into the other table

Where a name stands for the same tree in both tables, an internal call of it may be made an external one. The call then
finds the same, but what it writes goes to a buffer of its own first. So nothing changes as long as a render goes on,
and if it fails, it fails for the same reason at the same place. Only what is left behind may be less: the text of a
call that has not come to its end is gone (`Stage.renderTree_outward`).

It does not matter which calls are changed, nor where they stand: in the tree that is rendered, in the trees of the
tables, or in arguments of calls.

## Contents

* `Registry.outward` — the calls that may be changed;
* `Stage.alike_outward` — tables in which some of them are changed;
* `Stage.renderTree_outward` — the main statement.
-/

namespace HtmlTemplate

variable {σ : Type}

/-- A call of `name` stays as it is, or it is an internal one that becomes external, and this finds what it has found
    before. -/
def Registry.outward (registry : Registry σ) (name : String) (target target' : Binding) : Prop :=
  target' = target ∨
    target = .internal ∧ target' = .external ∧ registry.target? .external name = registry.target? .internal name

/-- Calls that stay as they are find what is alike. -/
theorem Registry.Alike.target? {place : Location → Location → Prop} {binding : String → Binding → Binding → Prop}
    {registry registry' : Registry σ} (h : registry.Alike place binding registry') (target : Binding) (name : String) :
    Option.Rel (Template.Alike place binding) (registry.target? target name) (registry'.target? target name) := by
  cases target with
  | external => exact h.external name
  | internal =>
    have hinternal := h.internal name
    unfold Registry.target?
    dsimp only
    generalize registry.internal? name = found, registry'.internal? name = found' at hinternal
    cases hinternal with
    | none => exact .none
    | some htree => exact .some (.compiled htree)

/-- Errors that are the same and stand at the same place are equal. -/
theorem Halt.Alike.eq {reason reason' : Halt RenderError} (h : reason.Alike Eq reason') : reason = reason' := by
  cases h with
  | tooDeep => rfl
  | error herror =>
    cases herror with
    | templateNotFound name => rfl
    | paramNotFound hplace segment path => rw [hplace]
    | notDefined hplace name => rw [hplace]
    | notRenderable hplace path kind => rw [hplace]

namespace Stage

/-- What a failing render leaves behind when calls of it are changed is the front of what it has left before. -/
theorem alike_outward {registry registry' : Registry σ} (h : registry.Alike Eq registry.outward registry')
    (resolver : Resolver) :
    (Stage.mk registry resolver).Alike Eq registry.outward (fun written written' => ∃ more, written = written' ++ more)
      (Stage.mk registry' resolver) where
  resolver := rfl
  target name target target' hbinding := by
    rcases hbinding with rfl | ⟨rfl, rfl, hsame⟩
    · exact h.target? _ name
    · have hexternal := h.target? .external name
      rw [hsame] at hexternal
      exact hexternal
  external _ := .inl rfl
  out _ _ _ more := ⟨more, rfl⟩
  inward name hbinding := by
    rcases hbinding with hsame | ⟨hinternal, -⟩
    · cases hsame
    · cases hinternal

/-- **Internal calls may be made external where both tables have the same for them.** Take any tables and any tree, and
    make some internal calls external, in the tree and in the trees of the tables, each of which finds the same in both
    tables. In every environment, with every resolver and every bound on nested calls, the tree ends as it did before:
    well, with the same error at the same place, or cut off by the bound. The functions of the host have done the same,
    and the same text is written if the render succeeds. If it does not, then what is written now is the front of what
    was written before. -/
theorem renderTree_outward {registry registry' : Registry σ} (h : registry.Alike Eq registry.outward registry')
    {tree tree' : Node} (htree : tree.Alike Eq registry.outward tree') (resolver : Resolver) (depth : Nat)
    (environment : Environment) (output : Output σ) :
    let before := (Stage.mk registry resolver).renderTree depth tree environment output
    let after := (Stage.mk registry' resolver).renderTree depth tree' environment output
    after.1 = before.1 ∧ after.2.host = before.2.host ∧
      ∃ text more, after.2.written = output.written ++ text ∧ before.2.written = output.written ++ text ++ more ∧
        (before.1 = .ok () → more = "") := by
  intro before after
  have hagrees := @renderTree_alike σ _ _ _ (fun text => ⟨"", by simp⟩) _ _ (alike_outward h resolver) depth tree tree'
    environment htree
  have hend := hagrees output output rfl rfl
  have happends := (Stage.mk registry' resolver).renderTree_appends depth tree' environment
  obtain ⟨text, htext⟩ := happends.exists_written output
  change after.2.written = output.written ++ text at htext
  change (Agreement.alike Eq _ _).Outcome _ before after at hend
  generalize before = before, after = after at hend htext
  rcases before with ⟨reason | ⟨⟩, left⟩ <;> rcases after with ⟨reason' | ⟨⟩, left'⟩
  · obtain hlenient | ⟨hreason, ⟨more, hmore⟩, hhost⟩ := hend
    · exact hlenient.elim
    · refine ⟨by rw [hreason.eq], hhost.symm, text, more, htext, ?_, nofun⟩
      rw [← htext]
      exact hmore
  · exact hend.elim
  · exact hend.elim
  · obtain ⟨-, hwritten, hhost⟩ := hend
    have hleft : left.written = left'.written := hwritten
    refine ⟨rfl, hhost.symm, text, "", htext, ?_, fun _ => rfl⟩
    rw [← htext]
    simp [hleft]

/-- The second of two calls in a stored tree is made external. It fails behind the first character that it writes, for
    its argument has no text; the first call stays as it is, and so does the call in its argument. -/
theorem renderTree_outward_second :
    let item := Node.body default [.literal default "<", .reference default .escaped ["v"]]
    let inner := Node.call default .internal "item" [("v", .reference default .passed ["x"])]
    let page (target : Binding) := Node.body default [.literal default "-",
      .call default .internal "item" [("v", .deferred default inner)],
      .call default target "item" [("v", .reference default .passed ["y"])]]
    let registry : Registry Unit := (Registry.empty.define "item" item).define "page" (page .internal)
    let registry' : Registry Unit := (Registry.empty.define "item" item).define "page" (page .external)
    let tree := Node.call default .internal "page" []
    let environment := Environment.params (.map [("x", .string "1"), ("y", .emptyMap)])
    let before := (Stage.mk registry .default).renderTree 2 tree environment ⟨"", ()⟩
    let after := (Stage.mk registry' .default).renderTree 2 tree environment ⟨"", ()⟩
    registry.Alike Eq registry.outward registry' ∧ tree.Alike Eq registry.outward tree ∧ after.1 = before.1 ∧
      before.2.written = "-<&lt;1<" ∧ after.2.written = "-<&lt;1" := by
  intro item inner page registry registry' tree environment before after
  have hsame : registry.target? .external "item" = registry.target? .internal "item" := by
    simp [registry, Registry.target?, Registry.internal?_define, Registry.external?_define]
  have hself : ∀ node : Node, node.Alike Eq registry.outward node :=
    Node.Alike.refl (fun _ => rfl) (fun _ _ => .inl rfl)
  have hsecond : (Node.call default .internal "item" [("v", .reference default .passed ["y"])]).Alike Eq
      registry.outward (.call default .external "item" [("v", .reference default .passed ["y"])]) :=
    .call rfl "item" (.inr ⟨rfl, rfl, hsame⟩) (.cons (.arg "v" (hself _)) .nil)
  have hpage : (page .internal).Alike Eq registry.outward (page .external) :=
    .body rfl (.cons (hself _) (.cons (hself _) (.cons hsecond .nil)))
  have hempty : (Registry.empty : Registry Unit).Alike Eq registry.outward .empty :=
    .refl (fun _ => rfl) (fun _ _ => .inl rfl) _
  have halike : registry.Alike Eq registry.outward registry' := (hempty.define "item" (hself item)).define "page" hpage
  obtain ⟨hend, -⟩ := renderTree_outward halike (hself tree) .default 2 environment ⟨"", ()⟩
  exact ⟨halike, hself tree, hend, by decide +kernel, by decide +kernel⟩

end Stage

end HtmlTemplate
