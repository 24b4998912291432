import HtmlTemplate.Host.Functions
import HtmlTemplate.Proofs.Render.Monotone
import HtmlTemplate.Proofs.Value.Equality

/-!
# Equal parameters render alike

A render sees no more of its parameters than their kinds, their texts, and what is found in them, and these are the
same for values that are equal. So parameters that are equal give the same render, with the same text or the same
error, if the paths are followed by the default resolver and the functions of the host look at no more than that
(`Value.equal_renders`).

## Contents

* `Arguments.kindAndText`, `Native.OnlyLooks`, `Registry.OnlyLooks` — functions that look at kinds and texts;
* `Environment.Interchangeable` — environments with interchangeable values;
* `Stage.standsIn_interchangeable` — such environments stand in for each other;
* `Engine.render_interchangeable` — renders with interchangeable parameters;
* `Value.equal_renders` — the main statement.
-/

namespace HtmlTemplate

variable {σ : Type}

/-! ## Functions of the host -/

/-- Kind and text of the value of a path. The value of a name is that of the path with no other segment. -/
def Arguments.kindAndText (args : Arguments) (path : Path) : Option (ValueKind × Option String) :=
  (args.getPath path).map fun value => (value.kind, value.text)

/-- A function that looks at nothing but the kinds and texts of values. -/
def Native.OnlyLooks (function : Native σ) : Prop :=
  ∀ args args' : Arguments, (∀ path, args.kindAndText path = args'.kindAndText path) → function args = function args'

/-- Answering with the kind and the text of a value is such a function. -/
theorem Native.onlyLooks_path (path : Path) : (Native.path path : Native σ).OnlyLooks := by
  intro args args' h
  have hpath := h path
  funext host
  simp only [Arguments.kindAndText, Native.path, ofArguments] at hpath ⊢
  generalize args.getPath path = found, args'.getPath path = found' at hpath
  rcases found with _ | value <;> rcases found' with _ | value' <;> simp_all

namespace Registry

variable {registry : Registry σ}

/-- All functions of the host look at nothing but the kinds and texts of values. -/
def OnlyLooks (registry : Registry σ) : Prop :=
  ∀ name function, registry.external? name = some (.native function) → function.OnlyLooks

theorem onlyLooks_empty : (empty : Registry σ).OnlyLooks := by
  intro name function hfound
  simp at hfound

theorem OnlyLooks.define (h : registry.OnlyLooks) (name : String) (tree : Node) :
    (registry.define name tree).OnlyLooks := by
  intro other function hfound
  rw [external?_define] at hfound
  split_ifs at hfound
  · cases hfound
  · exact h other function hfound

theorem OnlyLooks.register (h : registry.OnlyLooks) (name : String) {function : Native σ}
    (hfunction : function.OnlyLooks) : (registry.register name function).OnlyLooks := by
  intro other found hfound
  rw [external?_register] at hfound
  split_ifs at hfound
  · cases hfound
    exact hfunction
  · exact h other found hfound

end Registry

/-! ## Environments -/

/-- Each name has interchangeable values in both environments, or none in both. -/
def Environment.Interchangeable (environment environment' : Environment) : Prop :=
  ∀ name, Option.Rel Value.Interchangeable (environment.lookup .default name) (environment'.lookup .default name)

namespace Environment.Interchangeable

variable {environment environment' : Environment}

/-- Arguments may be put over both. -/
theorem layer (h : environment.Interchangeable environment') {layer layer' : List (String × Value)}
    (hlayers : LayersAlike Value.Interchangeable layer layer') :
    (Environment.layer layer environment).Interchangeable (.layer layer' environment') := by
  intro name
  have hname := hlayers.lookup name
  rw [lookup_layer, lookup_layer]
  generalize layer.lookup name = found, layer'.lookup name = found' at hname
  cases hname with
  | none => exact h name
  | some hvalue => exact .some hvalue

/-- Functions that look at kinds and texts see no difference. -/
theorem kindAndText (h : environment.Interchangeable environment') (path : Path) :
    Arguments.kindAndText ⟨environment, .default⟩ path = Arguments.kindAndText ⟨environment', .default⟩ path := by
  have hfound := @Environment.resolve_related Value.Interchangeable environment environment'
    (fun _ _ => Value.Interchangeable.field?) path fun name _ => h name
  unfold Arguments.kindAndText Arguments.getPath
  rcases hfound with ⟨value, value', hresolve, hresolve', hvalue⟩ | ⟨segment, hresolve, hresolve'⟩
  · simp only [hresolve, hresolve', Except.toOption, Option.map_some, hvalue.kind, hvalue.text]
  · simp only [hresolve, hresolve', Except.toOption]

end Environment.Interchangeable

/-! ## Renders -/

/-- Environments with interchangeable values may stand in for each other. -/
theorem Stage.standsIn_interchangeable {registry : Registry σ}
    (hnatives : registry.OnlyLooks) :
    (Stage.mk registry .default).StandsIn (fun _ => True) Value.Interchangeable
      fun _ => Environment.Interchangeable where
  deferred h := h
  child h _ _ := h
  argument h _ _ := h
  value h := Stage.valueOf_related (fun _ _ => Value.Interchangeable.field?) _ fun name _ => h name
  text location path h := by
    rw [h.text, h.kind]
    exact .refl (fun _ => rfl) _
  string text := .refl (.string text)
  callee h _ _ hlayers := h.layer hlayers
  native {_ target name _ _ _ function _ _} h hfound hlayers := by
    -- Only a call from outside can find a function of the host.
    have hlooks : function.OnlyLooks := by
      cases target with
      | internal => simp [Registry.target?] at hfound
      | external => exact hnatives name function hfound
    exact hlooks _ _ (h.layer hlayers).kindAndText

/-- **Interchangeable parameters give the same render.** -/
theorem Engine.render_interchangeable {engine : Engine σ} (hresolver : engine.resolver = .default)
    (hnatives : engine.registry.OnlyLooks) {params params' : Value} (h : params.Interchangeable params') (depth : Nat)
    (name : String) :
    engine.stage.render depth name params = engine.stage.render depth name params' := by
  have henvironments : (Environment.params params).Interchangeable (.params params') := h.field?
  rw [stage_eq hresolver]
  refine (Stage.render_follows (Stage.standsIn_interchangeable hnatives) (Nat.le_refl depth) (fun _ => rfl) ?_ ?_).eq
  · exact fun _ _ => henvironments
  · exact fun function hfound => hnatives name function hfound _ _ henvironments.kindAndText

/-- **Equality is a partial equivalence that rendering respects.** It is symmetric and transitive, and a value is equal
    to itself if and only if no NaN occurs in it. Take an engine with the default resolver whose functions of the host
    look at nothing but kinds and texts, and two values that are equal, where objects of the same identity are the
    same. Then each render with one of them as its parameters does the same as with the other. It has the same result,
    the error included, and leaves the same behind, the text of a render that fails included. -/
theorem Value.equal_renders :
    (∀ value value' : Value, value.equal value' = value'.equal value) ∧
    (∀ value value' other : Value, value.equal value' = true → value'.equal other = true → value.equal other = true) ∧
    (∀ value : Value, value.equal value = true ↔ ∀ x, (Value.number x).Occurs value → x.isNaN = false) ∧
    ∀ (σ : Type) (engine : Engine σ) (params params' : Value),
      engine.resolver = .default → engine.registry.OnlyLooks → params.equal params' = true →
      (∀ host host', (Value.object host).Occurs params → (Value.object host').Occurs params' → host.id = host'.id →
        host = host') →
      ∀ depth name,
        (∀ output, engine.renderInto depth name params output = engine.renderInto depth name params' output) ∧
          ∀ host, engine.render depth name params host = engine.render depth name params' host := by
  refine ⟨equal_symm, fun _ _ _ => equal_trans, equal_self_iff, ?_⟩
  intro σ engine params params' hresolver hnatives hequal hobjects depth name
  have hrender := Engine.render_interchangeable hresolver hnatives (interchangeable_of_equal hequal hobjects) depth name
  have hinto : ∀ output, engine.renderInto depth name params output = engine.renderInto depth name params' output := by
    intro output
    unfold Engine.renderInto
    rw [hrender]
  refine ⟨hinto, fun host => ?_⟩
  unfold Engine.render
  rw [hinto]

/-- Two maps with their entries in different orders, and with zeros of different signs. The function is told the same
    text of `m.n`, and both renders fail at the last reference behind the same text. The map with a NaN is not equal to
    itself. -/
theorem Value.equal_renders_zero :
    let page := Node.body default [.reference default .raw ["n"], .literal default "|",
      .call default .external "look" [("x", .reference default .passed ["m"])], .reference default .raw ["o"],
      .reference default .raw ["m", "gone"]]
    let engine : Engine Unit := ((Engine.new false).register "look" (.path ["x", "n"])).define "page" page
    let host : HostObject Value := ⟨7, some "!", fun _ => Option.none⟩
    let zero : Value := .number ⟨0⟩
    let zero' : Value := .number ⟨0x8000000000000000⟩
    let params := Value.map [("n", zero), ("m", .map [("k", .bool true), ("n", zero')]), ("o", .object host)]
    let params' := Value.map [("m", .map [("n", zero), ("k", .bool true)]), ("o", .object host), ("n", zero')]
    let nan := Value.map [("x", .number ⟨0x7ff8000000000000⟩)]
    params.equal params' = true ∧ params'.equal params = true ∧ params.equal params = true ∧ nan.equal nan = false ∧
      (engine.renderInto 1 "page" params ⟨"", ()⟩).1.isOk = false ∧
      (engine.renderInto 1 "page" params ⟨"", ()⟩).2.written = "0|number:0!" ∧
      engine.renderInto 1 "page" params' ⟨"", ()⟩ = engine.renderInto 1 "page" params ⟨"", ()⟩ := by
  intro page engine host zero zero' params params' nan
  obtain ⟨hsymm, htrans, hself, hrenders⟩ := equal_renders
  have hlooks : engine.registry.OnlyLooks :=
    (Registry.onlyLooks_empty.register "look" (Native.onlyLooks_path _)).define "page" page
  have hequal : params.equal params' = true := by
    simp [params, params', zero, zero', equal, Number.equal, List.lookup_cons]
    decide +kernel
  have hequal' : params'.equal params = true := by rw [hsymm, hequal]
  have hmap : ∀ entries, (∀ entry ∈ entries, ∀ found, (Value.object found).Occurs entry.2 → found = host) →
      ∀ found, (Value.object found).Occurs (.map entries) → found = host := by
    rintro entries h found (_ | ⟨hfound, hoccurs⟩)
    exact h _ (mem_of_lookup_eq_some hfound) found hoccurs
  have hnumber : ∀ found x, ¬ (Value.object found).Occurs (.number x) := by rintro found x ⟨⟩
  have hbool : ∀ found value, ¬ (Value.object found).Occurs (.bool value) := by rintro found value ⟨⟩
  have hobject : ∀ found, (Value.object found).Occurs (.object host) → found = host := by
    rintro found ⟨⟩
    rfl
  have hparams : ∀ found, (Value.object found).Occurs params → found = host := by
    have hinner := hmap [("k", .bool true), ("n", zero')] (by simp [zero', hnumber, hbool])
    exact hmap _ (by simpa [zero, hnumber] using ⟨hinner, hobject⟩)
  have hparams' : ∀ found, (Value.object found).Occurs params' → found = host := by
    have hinner := hmap [("n", zero), ("k", .bool true)] (by simp [zero, hnumber, hbool])
    exact hmap _ (by simpa [zero', hnumber] using ⟨hinner, hobject⟩)
  have hsame := hrenders Unit engine params params' rfl hlooks hequal
    (fun found found' h h' _ => (hparams found h).trans (hparams' found' h').symm) 1 "page"
  have hnan : nan.equal nan = false := by
    simp [nan, equal]
    decide +kernel
  exact ⟨hequal, hequal', htrans _ _ _ hequal hequal', hnan, by decide +kernel, by decide +kernel, (hsame.1 _).symm⟩

end HtmlTemplate
