import HtmlTemplate.Proofs.Render.Following
import HtmlTemplate.Proofs.Render.Nesting
import HtmlTemplate.Proofs.Session.Bindings

/-!
# Internal calls and recursion

A call is internal only if a template of its name had been completed before the definition around it. So internal calls
go back in the order of definitions, and they cannot come round again unless a name has been defined more than once. The
engine does not keep this order. It is that of the names in the log of what was completed (`Definition.rank`), and each
internal call of a tree in the tables goes to a smaller rank (`Registry.Follows.rank_lt`).

Then the only way to render without end is by external calls of templates. Where no such call can be reached, the number
of completed definitions bounds the nesting of calls (`History.internal_calls_end`).

## Contents

* `Registry.CallsInternally` — internal calls between the names of templates;
* `Definition.rank`, `Registry.Follows.rank_lt` — the order of definitions, and that internal calls go back in it;
* `Registry.OnlyInternal` — trees from which no template is called externally;
* `Registry.Follows.callsWithin` — the bound on chains of calls;
* `History.internal_calls_end` — the main statement.
-/

namespace HtmlTemplate

variable {σ : Type}

namespace Registry

/-- A tree that the tables hold under the first name has an internal call of the second, in an argument perhaps. -/
def CallsInternally (registry : Registry σ) (name callee : String) : Prop :=
  ∃ tree, registry.Holds name tree ∧ ∃ site ∈ tree.calls, site.target = .internal ∧ site.name = callee

/-- No external call of a template can be reached from the tree. -/
def OnlyInternal (registry : Registry σ) (tree : Node) : Prop :=
  ∀ reached, Relation.ReflTransGen registry.Calls tree reached → ∀ site ∈ reached.calls, site.target = .external →
    ∀ callee, registry.external? site.name ≠ some (.compiled callee)

/-- What cannot be reached from a tree cannot be reached from those that it calls. -/
theorem OnlyInternal.callee {registry : Registry σ} {tree callee : Node} (h : registry.OnlyInternal tree)
    (hcalls : registry.Calls tree callee) : registry.OnlyInternal callee :=
  fun reached hreached => h reached (.head hcalls hreached)

/-- Where no tree of the tables calls a template externally, none is reached. -/
theorem Every.onlyInternal {registry : Registry σ}
    (h : registry.Every fun tree => ∀ site ∈ tree.calls, site.target = .external →
      ∀ callee, registry.external? site.name ≠ some (.compiled callee)) :
    registry.Every registry.OnlyInternal := by
  intro name tree hholds reached hreached
  cases hreached with
  | refl => exact h name tree hholds
  | tail _ hcalls =>
    obtain ⟨site, -, hfound⟩ := hcalls
    exact h site.name reached (holds_of_target? hfound)

end Registry

/-! ## The order of definitions -/

/-- The number of definitions in a log before the first one of a name. -/
def Definition.rank (log : List Definition) (name : String) : Nat := (log.map Definition.name).idxOf name

namespace Registry.Follows

variable {registry : Registry σ} {log : List Definition}

/-- **Internal calls go back in the order of definitions**, if each name has been defined once. -/
theorem rank_lt (h : registry.Follows log) (hnames : (log.map Definition.name).Nodup) {name callee : String}
    (hcalls : registry.CallsInternally name callee) : Definition.rank log callee < Definition.rank log name := by
  obtain ⟨tree, hholds, site, hsite, htarget, rfl⟩ := hcalls
  obtain ⟨before, definition, after, rfl, rfl, -, -, hbound⟩ := h.current name tree hholds
  have hearlier : site.name ∈ before.map Definition.name := List.mem_map.mpr ((hbound site hsite).mp htarget)
  -- The callee is counted among the definitions in front, and the caller is not, because it is defined only here.
  have hnotMem : definition.name ∉ before.map Definition.name := by
    intro hmem
    rw [List.map_append, List.map_cons] at hnames
    exact List.disjoint_of_nodup_append hnames hmem List.mem_cons_self
  unfold Definition.rank
  rw [List.map_append, List.idxOf_append_of_mem hearlier, List.idxOf_append_of_notMem hnotMem]
  have hlt := List.idxOf_lt_length_of_mem hearlier
  omega

/-- So they do not come round again. -/
theorem not_transGen_callsInternally (h : registry.Follows log) (hnames : (log.map Definition.name).Nodup)
    (name : String) : ¬ Relation.TransGen registry.CallsInternally name name := by
  have hlt : ∀ {callee}, Relation.TransGen registry.CallsInternally name callee →
      Definition.rank log callee < Definition.rank log name := by
    intro callee hpath
    induction hpath with
    | single hcalls => exact h.rank_lt hnames hcalls
    | tail _ hcalls ih => exact (h.rank_lt hnames hcalls).trans ih
  exact fun hcycle => Nat.lt_irrefl _ (hlt hcycle)

/-- Where only internal calls are made, a tree that is called is held under a name of a smaller rank. -/
theorem exists_rank_lt (h : registry.Follows log) (hnames : (log.map Definition.name).Nodup) {name : String}
    {tree callee : Node} (hholds : registry.Holds name tree) (honly : registry.OnlyInternal tree)
    (hcalls : registry.Calls tree callee) :
    ∃ other, registry.Holds other callee ∧ Definition.rank log other < Definition.rank log name := by
  obtain ⟨site, hsite, hfound⟩ := hcalls
  cases htarget : site.target with
  | internal =>
    exact ⟨site.name, holds_of_target? hfound, h.rank_lt hnames ⟨tree, hholds, site, hsite, htarget, rfl⟩⟩
  | external =>
    rw [htarget] at hfound
    exact absurd hfound (honly tree .refl site hsite htarget callee)

/-- A chain of such calls is not longer than the rank of the name that it starts with. -/
theorem callsWithin (h : registry.Follows log) (hnames : (log.map Definition.name).Nodup) {bound : Nat} {name : String}
    {tree : Node} (hholds : registry.Holds name tree) (hrank : Definition.rank log name ≤ bound)
    (honly : registry.OnlyInternal tree) : registry.CallsWithin bound tree := by
  -- Each call takes the rank down, so the bound may be taken down with it.
  induction bound generalizing name tree with
  | zero =>
    intro callee hcalls
    obtain ⟨other, -, hlt⟩ := h.exists_rank_lt hnames hholds honly hcalls
    omega
  | succ bound ih =>
    intro callee hcalls
    obtain ⟨other, hother, hlt⟩ := h.exists_rank_lt hnames hholds honly hcalls
    exact ih hother (by omega) (honly.callee hcalls)

end Registry.Follows

namespace History

/-- **Without a second definition of a name, internal calls come to an end.** Take an engine that was made without trees
    defined by hand, on which no name was completed more than once. Then internal calls between its templates have no
    cycle. And where no external call of a template can be reached from the tree of a template, its renders are never
    cut off if as many calls may be nested as definitions were completed, whatever the resolver, the parameters and the
    functions of the host are; with every greater bound they do the same. -/
theorem internal_calls_end {history : History σ} (hedits : ∀ edit ∈ history.edits, edit.isDefine = false)
    (hnames : (history.completed.map Definition.name).Nodup) :
    (∀ name, ¬ Relation.TransGen history.engine.registry.CallsInternally name name) ∧
    ∀ name, (∀ tree, history.engine.registry.external? name = some (.compiled tree) →
        history.engine.registry.OnlyInternal tree) →
      ∀ resolver params depth, history.completed.length ≤ depth →
        let engine := history.engine.setResolver resolver
        (∀ output, (engine.renderInto depth name params output).1 ≠ .error .tooDeep ∧
          engine.renderInto depth name params output =
            engine.renderInto history.completed.length name params output) ∧
        ∀ host, (engine.render depth name params host).1 ≠ .error .tooDeep := by
  have hfollows := follows hedits
  refine ⟨hfollows.not_transGen_callsInternally hnames, ?_⟩
  intro name honly resolver params depth hdepth engine
  have hends : ∀ bound, history.completed.length ≤ bound → (engine.stage.render bound name params).Ends := by
    intro bound hbound
    apply Stage.render_ends
    intro tree hfound
    have hrank : Definition.rank history.completed name ≤ history.completed.length := by
      rw [← List.length_map Definition.name]
      exact List.idxOf_le_length
    exact hfollows.callsWithin hnames (.inr hfound) (hrank.trans hbound) (honly tree hfound)
  have hinto : ∀ bound, history.completed.length ≤ bound →
      ∀ output, (engine.renderInto bound name params output).1 ≠ .error .tooDeep :=
    fun bound hbound output hcut => hends bound hbound output (Engine.renderInto_eq_tooDeep.mp hcut)
  refine ⟨fun output => ⟨hinto depth hdepth output, ?_⟩, ?_⟩
  · exact Engine.renderInto_of_le hdepth (hinto _ (Nat.le_refl _) output)
  · exact fun host hcut => hinto depth hdepth ⟨"", host⟩ (Engine.render_eq_tooDeep.mp hcut)

/-- Both templates were completed by a compile that fails. The second one calls the first one twice, in an argument too,
    and this one calls a function that is registered later. -/
theorem internal_calls_end_argument :
    let code := "def a \x7b f() \x7d def b \x7b a(x: \x7b a() \x7d) \x7d def"
    let history : History Unit := ⟨true, [.compile code "one.tl", .register "f" fun _ host => ("f", host)]⟩
    history.completed.map Definition.name = ["a", "b"] ∧
      history.engine.registry.CallsInternally "b" "a" ∧
      ¬ Relation.TransGen history.engine.registry.CallsInternally "a" "a" ∧
      ∀ params,
        ((history.engine.setResolver fun _ _ => none).renderInto 2 "b" params ⟨"", ()⟩).1 ≠ .error .tooDeep := by
  intro code history
  have hedits : ∀ edit ∈ history.edits, edit.isDefine = false := by simp [history, Edit.isDefine]
  have hcompleted : history.completed.map Definition.name = ["a", "b"] := by decide +kernel
  have hcalls : ∃ tree, history.engine.registry.internal? "b" = some tree ∧
      ∃ site ∈ tree.calls, site.target = .internal ∧ site.name = "a" := by
    have hany : (history.engine.registry.internal? "b").any (fun tree =>
        tree.calls.any fun site => site.target = .internal ∧ site.name = "a") = true := by
      decide +kernel
    obtain ⟨tree, htree, hsites⟩ := (Option.any_eq_true _ _).mp hany
    obtain ⟨site, hsite, hcall⟩ := List.any_eq_true.mp hsites
    exact ⟨tree, htree, site, hsite, of_decide_eq_true hcall⟩
  have hsites : ∀ definition ∈ (Engine.new true : Engine Unit).completed code "one.tl",
      ∀ site ∈ ((Engine.new true : Engine Unit).stored definition.body).calls,
        site.target = .external → site.name = "f" := by
    decide +kernel
  have honly : history.engine.registry.Every history.engine.registry.OnlyInternal := by
    apply Registry.Every.onlyInternal
    intro name tree hholds site hsite htarget callee hfound
    rcases Engine.holds_compile (Engine.holds_register hholds) with ⟨definition, hmem, -, rfl⟩ | hempty
    · rw [hsites definition hmem site hsite htarget] at hfound
      rw [show history.engine.registry = (Registry.register _ "f" _) from rfl, Registry.external?_register,
        if_pos rfl] at hfound
      cases hfound
    · exact (Registry.every_empty (fun _ => False) name tree hempty).elim
  obtain ⟨hcycle, hends⟩ := internal_calls_end hedits (by rw [hcompleted]; decide)
  have hlength : history.completed.length = 2 := by
    rw [← List.length_map Definition.name, hcompleted]
    rfl
  obtain ⟨tree, hinternal, hsite⟩ := hcalls
  refine ⟨hcompleted, ⟨tree, .inl hinternal, hsite⟩, hcycle "a", ?_⟩
  intro params
  have hinto := (hends "b" (fun tree hfound => honly "b" tree (.inr hfound)) (fun _ _ => none) params 2 hlength.le).1
  exact (hinto ⟨"", ()⟩).1

end History

end HtmlTemplate
