import HtmlTemplate.Proofs.Render.Monotone

/-!
# Free names

Scope is dynamic: a template sees what its callers see, so the names that a tree needs are its own and those of
everything that it calls, as far as the calls do not bind them. Calls may be recursive, and a name is free in a tree
only if a finite chain of calls leads to a reference of it (`Node.Free`).

Nothing else of the parameters matters. Two renders of a template do the same if their parameters agree on the names
that are free in it (`Engine.render_eq_of_free`). Agreeing is weaker than being equal: the order in which the entries of
a map come is not seen.

## Contents

* `Node.Free` — the names that a tree needs;
* `Value.Same` — values that cannot be told apart;
* `Value.Same.field?`, `.text`, `.kind` — fields, texts and kinds do not tell them apart;
* `Environment.AgreesOn` — environments that agree on the free names of a tree;
* `Stage.standsIn_agreesOn` — such environments stand in for each other;
* `Engine.render_eq_of_free` — the main statement.
-/

namespace HtmlTemplate

variable {σ : Type}

/-! ## Names that a tree needs -/

/-- A name is free in a tree if the tree refers to it, in arguments of calls too, or if it is free in a tree that is
    called and no argument of the call has this name. -/
inductive Node.Free (registry : Registry σ) (name : String) : Node → Prop where
  | reference (location : Location) (mode : RefMode) (path : Path) :
    Free registry name (.reference location mode (name :: path))
  | deferred {location : Location} {inner : Node} (h : inner.Free registry name) :
    Free registry name (.deferred location inner)
  | child {location : Location} {children : List Node} {node : Node} (hmem : node ∈ children)
    (h : node.Free registry name) : Free registry name (.body location children)
  | argument {location : Location} {target : Binding} {callee : String} {args : List (String × Node)}
    {arg : String × Node} (hmem : arg ∈ args) (h : arg.2.Free registry name) :
    Free registry name (.call location target callee args)
  | callee {location : Location} {target : Binding} {callee : String} {args : List (String × Node)} {tree : Node}
    (hname : name ∉ args.map Prod.fst) (hfound : registry.target? target callee = some (.compiled tree))
    (h : tree.Free registry name) : Free registry name (.call location target callee args)

/-! ## Values that cannot be told apart -/

/-- Each value extends the other, so at most the order of entries in maps is different. -/
def Value.Same (value value' : Value) : Prop := value.ExtendsTo value' ∧ value'.ExtendsTo value

namespace Value.Same

variable {value value' : Value}

theorem refl (value : Value) : value.Same value := ⟨.refl value, .refl value⟩

/-- Maps cannot be told apart if their entries cannot. -/
theorem of_lookup {entries entries' : List (String × Value)}
    (h : ∀ key, Option.Rel Same (entries.lookup key) (entries'.lookup key)) :
    (Value.map entries).Same (.map entries') := by
  constructor
  · apply Value.ExtendsTo.of_lookup
    intro key inner hinner
    have hkey := h key
    rw [hinner] at hkey
    generalize entries'.lookup key = found' at hkey
    cases hkey with
    | some hsame => exact ⟨_, rfl, hsame.1⟩
  · apply Value.ExtendsTo.of_lookup
    intro key inner' hinner'
    have hkey := h key
    rw [hinner'] at hkey
    generalize entries.lookup key = found at hkey
    cases hkey with
    | some hsame => exact ⟨_, rfl, hsame.2⟩

theorem field? (h : value.Same value') (key : String) : Option.Rel Same (value.field? key) (value'.field? key) := by
  cases hfield : value.field? key with
  | none =>
    cases hfield' : value'.field? key with
    | none => exact .none
    | some inner' =>
      obtain ⟨inner, hinner, -⟩ := h.2.field? hfield'
      cases hfield.symm.trans hinner
  | some inner =>
    obtain ⟨inner', hinner', hextends⟩ := h.1.field? hfield
    obtain ⟨found, hfound, hback⟩ := h.2.field? hinner'
    cases hfield.symm.trans hfound
    rw [hinner']
    exact .some ⟨hextends, hback⟩

theorem text (h : value.Same value') : value.text = value'.text := by
  obtain ⟨hextends, -⟩ := h
  cases hextends with
  | refl => rfl
  | map keys values => rfl

theorem kind (h : value.Same value') : value.kind = value'.kind := by
  obtain ⟨hextends, -⟩ := h
  cases hextends with
  | refl => rfl
  | map keys values => rfl

end Value.Same

/-! ## Environments -/

/-- Each name that is free in the tree has the same value in both environments, or none in both. -/
def Environment.AgreesOn (registry : Registry σ) (tree : Node) (environment environment' : Environment) : Prop :=
  ∀ name, tree.Free registry name →
    Option.Rel Value.Same (environment.lookup .default name) (environment'.lookup .default name)

namespace Environment.AgreesOn

variable {registry : Registry σ} {environment environment' : Environment}

/-- **What agrees on a call agrees on the tree that is called**, once the arguments are put over it: a name that is free
    there is bound by the call, or free in the call. -/
theorem callee {location : Location} {target : Binding} {name : String} {args : List (String × Node)} {tree : Node}
    (h : AgreesOn registry (.call location target name args) environment environment')
    (hfound : registry.target? target name = some (.compiled tree)) {layer layer' : List (String × Value)}
    (hnames : layer.map Prod.fst = args.map Prod.fst) (hlayers : LayersAlike Value.Same layer layer') :
    AgreesOn registry tree (.layer layer environment) (.layer layer' environment') := by
  intro other hfree
  have hbound := hlayers.lookup other
  -- Both layers have the names that the call gives, so a name that they leave open is not bound by it.
  have hlayer : layer.lookup other = none → other ∉ args.map Prod.fst := by
    intro hnone hmem
    rw [← hnames] at hmem
    obtain ⟨arg, harg, rfl⟩ := List.mem_map.mp hmem
    simpa using List.lookup_eq_none_iff.mp hnone arg harg
  rw [lookup_layer, lookup_layer]
  generalize layer.lookup other = found, layer'.lookup other = found' at hbound hlayer
  cases hbound with
  | some hvalue => exact .some hvalue
  | none => exact h other (.callee (hlayer rfl) hfound hfree)

end Environment.AgreesOn

/-! ## Renders -/

namespace Stage

/-- Environments that agree on the free names of a tree may stand in for each other. -/
theorem standsIn_agreesOn {registry : Registry σ} (hnatives : registry.NoNatives) :
    (Stage.mk registry .default).StandsIn (fun _ => True) Value.Same (Environment.AgreesOn registry) where
  deferred h name hfree := h name (.deferred hfree)
  child h _ hmem name hfree := h name (.child hmem hfree)
  argument h _ hmem name hfree := h name (.argument hmem hfree)
  value {location mode path _ _} h := by
    refine Stage.valueOf_related (fun _ _ => Value.Same.field?) location fun name hname => h name ?_
    cases path with
    | nil => cases hname
    | cons first path =>
      cases hname
      exact .reference location mode path
  text location path h := by
    rw [h.text, h.kind]
    exact .refl (fun _ => rfl) _
  string text := .refl (.string text)
  callee h hfound hnames hlayers := h.callee hfound hnames hlayers
  native _ hfound _ := absurd hfound (hnatives.target?_ne _ _ _)

end Stage

namespace Engine

/-- **A render depends only on the free names of its template.** Take an engine with the default resolver and without
    functions of the host, and two maps of parameters that agree on the names that are free in the tree of a template:
    each of these has the same value in both, or none in both. Then both renders of the template do the same. They have
    the same result, the error included, and leave the same behind, the text of a render that fails included. -/
theorem render_eq_of_free {engine : Engine σ} (hresolver : engine.resolver = .default)
    (hnatives : engine.registry.NoNatives) (name : String) {params params' : List (String × Value)}
    (h : ∀ tree, engine.registry.external? name = some (.compiled tree) →
      ∀ other, tree.Free engine.registry other → Option.Rel Value.Same (params.lookup other) (params'.lookup other))
    (depth : Nat) :
    (∀ output, engine.renderInto depth name (.map params) output = engine.renderInto depth name (.map params') output) ∧
      ∀ host, engine.render depth name (.map params) host = engine.render depth name (.map params') host := by
  have hrender : engine.stage.render depth name (.map params) = engine.stage.render depth name (.map params') := by
    rw [stage_eq hresolver]
    refine (Stage.render_follows (Stage.standsIn_agreesOn hnatives) (Nat.le_refl depth) (fun _ => rfl) ?_ ?_).eq
    · exact h
    · exact fun function hfound => absurd hfound (hnatives name function)
  have hinto : ∀ output,
      engine.renderInto depth name (.map params) output = engine.renderInto depth name (.map params') output := by
    intro output
    unfold renderInto
    rw [hrender]
  refine ⟨hinto, ?_⟩
  intro host
  unfold render
  rw [hinto]

/-- The call binds `x` for a template that calls itself, so the `x` of the parameters is not seen, and neither is the
    order of the entries of `y`. The text written before the innermost call misses its `y` is the same. -/
theorem render_eq_of_free_bound :
    let row := Node.body default [.reference default .escaped ["x"], .reference default .raw ["y", "text"],
      .call default .external "row" [("y", .reference default .passed ["y", "next"])]]
    let page := Node.body default [.call default .internal "row" [("x", .deferred default (.literal default "<"))]]
    let engine : Engine Unit := ((Engine.new false).define "row" row).define "page" page
    let last := Value.map [("text", .string "b")]
    let params := [("x", .bool true), ("y", .map [("text", .string "a"), ("next", last)])]
    let params' := [("y", .map [("next", last), ("text", .string "a")])]
    engine.resolver = .default ∧ engine.registry.NoNatives ∧ ¬ page.Free engine.registry "x" ∧
      (engine.renderInto 3 "page" (.map params) ⟨"", ()⟩).2.written = "&lt;a" ∧
      engine.renderInto 3 "page" (.map params') ⟨"", ()⟩ = engine.renderInto 3 "page" (.map params) ⟨"", ()⟩ := by
  intro row page engine last params params'
  have hnatives : engine.registry.NoNatives := (Registry.noNatives_empty.define "row" row).define "page" page
  have hbound : ¬ page.Free engine.registry "x" := by
    intro hfree
    dsimp only [page] at hfree
    cases hfree with
    | child hmem hcall =>
      cases List.mem_singleton.mp hmem
      cases hcall with
      | argument hmem harg =>
        cases List.mem_singleton.mp hmem
        cases harg with
        | deferred hinner => cases hinner
      | callee hname => exact hname (List.mem_singleton_self "x")
  have hsame : (Value.map [("text", .string "a"), ("next", last)]).Same
      (.map [("next", last), ("text", .string "a")]) := by
    apply Value.Same.of_lookup
    intro key
    by_cases htext : key = "text"
    · subst htext
      exact .some (.refl _)
    · by_cases hnext : key = "next"
      · subst hnext
        exact .some (.refl _)
      · simp [List.lookup_cons, beq_false_of_ne htext, beq_false_of_ne hnext]
  have hagrees : ∀ tree, engine.registry.external? "page" = some (.compiled tree) → ∀ other,
      tree.Free engine.registry other → Option.Rel Value.Same (params.lookup other) (params'.lookup other) := by
    intro tree htree other hfree
    obtain rfl : page = tree := by
      simpa [engine, define, Engine.new, Registry.external?_define] using htree
    have hx : other ≠ "x" := by
      rintro rfl
      exact hbound hfree
    by_cases hy : other = "y"
    · subst hy
      exact .some hsame
    · simp [params, params', List.lookup_cons, beq_false_of_ne hx, beq_false_of_ne hy]
  exact ⟨rfl, hnatives, hbound, by decide +kernel, ((render_eq_of_free rfl hnatives "page" hagrees 3).1 ⟨"", ()⟩).symm⟩

end Engine

end HtmlTemplate
