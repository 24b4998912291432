import HtmlTemplate.Proofs.Render.Delimiters
import HtmlTemplate.Proofs.Render.Following

/-!
# More parameters do no harm

A template cannot ask whether a parameter is missing. If parameters are added, at whatever depth, then a render that
succeeded does the same as before, and a render that failed gets at least as far (`Engine.render_extendsTo`). A value
that is passed on to a call may be extended too, and it still has the text that it had, since only maps can be extended
and these have none.

## Contents

* `Value.ExtendsTo` — values in which entries of maps have been added;
* `Value.ExtendsTo.of_lookup`, `.walk`, `.text` — what makes a map extended, and that paths and texts are kept;
* `Environment.ExtendsTo` — environments in which nothing is missing that was there before;
* `Stage.standsIn_extendsTo` — such environments stand in for the old ones;
* `Engine.render_extendsTo` — the main statement.
-/

namespace HtmlTemplate

variable {σ : Type}

/-! ## Values -/

/-- The second value is the first one, or both are maps and the second one has every key of the first, with a value to
    which the former value extends. -/
inductive Value.ExtendsTo : Value → Value → Prop where
  | refl (value : Value) : ExtendsTo value value
  | map {entries entries' : List (String × Value)}
    (keys : ∀ key, (entries.lookup key).isSome = true → (entries'.lookup key).isSome = true)
    (values : ∀ key value value', entries.lookup key = some value → entries'.lookup key = some value' →
      ExtendsTo value value') :
    ExtendsTo (.map entries) (.map entries')

namespace Value.ExtendsTo

variable {value value' inner : Value}

/-- What is found under a key is found there still, and may be extended. -/
theorem field? (h : value.ExtendsTo value') {key : String} (hinner : value.field? key = some inner) :
    ∃ inner', value'.field? key = some inner' ∧ inner.ExtendsTo inner' := by
  cases h with
  | refl => exact ⟨inner, hinner, .refl inner⟩
  | @map entries entries' keys values =>
    rw [field?_map] at hinner
    have hkey : (entries'.lookup key).isSome = true := keys key (by simp [hinner])
    obtain ⟨inner', hinner'⟩ := Option.isSome_iff_exists.mp hkey
    exact ⟨inner', hinner', values key inner inner' hinner hinner'⟩

/-- A map is extended if what is found in it is found still, and may be extended. -/
theorem of_lookup {entries entries' : List (String × Value)}
    (h : ∀ key inner, entries.lookup key = some inner →
      ∃ inner', entries'.lookup key = some inner' ∧ inner.ExtendsTo inner') :
    (Value.map entries).ExtendsTo (.map entries') := by
  refine .map ?_ ?_
  · intro key hkey
    obtain ⟨inner, hinner⟩ := Option.isSome_iff_exists.mp hkey
    obtain ⟨inner', hinner', -⟩ := h key inner hinner
    exact Option.isSome_iff_exists.mpr ⟨inner', hinner'⟩
  · intro key inner inner' hinner hinner'
    obtain ⟨found, hfound, hextends⟩ := h key inner hinner
    cases hinner'.symm.trans hfound
    exact hextends

/-- Each map extends the one without entries. -/
theorem emptyMap (entries : List (String × Value)) : Value.emptyMap.ExtendsTo (.map entries) :=
  of_lookup (by simp)

/-- One more entry on both sides. -/
theorem cons (h : value.ExtendsTo value') {entries entries' : List (String × Value)}
    (hentries : (Value.map entries).ExtendsTo (.map entries')) (key : String) :
    (Value.map ((key, value) :: entries)).ExtendsTo (.map ((key, value') :: entries')) := by
  apply of_lookup
  intro other inner hinner
  rw [List.lookup_cons] at hinner ⊢
  cases hkey : other == key with
  | true =>
    simp only [hkey] at hinner
    cases hinner
    exact ⟨value', rfl, h⟩
  | false =>
    simp only [hkey] at hinner
    exact hentries.field? hinner

theorem walk (h : value.ExtendsTo value') {path : Path} (hwalk : Resolver.default.walk value path = .ok inner) :
    ∃ inner', Resolver.default.walk value' path = .ok inner' ∧ inner.ExtendsTo inner' := by
  induction path generalizing value value' with
  | nil =>
    cases hwalk
    exact ⟨value', rfl, h⟩
  | cons segment path ih =>
    cases hfield : value.field? segment with
    | none =>
      simp only [Resolver.walk, Resolver.default, hfield] at hwalk
      cases hwalk
    | some next =>
      obtain ⟨next', hfield', hnext⟩ := h.field? hfield
      simp only [Resolver.walk, Resolver.default, hfield] at hwalk
      simp only [Resolver.walk, Resolver.default, hfield']
      exact ih hnext hwalk

/-- A text is kept, because values that have one are not extended. -/
theorem text (h : value.ExtendsTo value') {text : String} (htext : value.text = some text) :
    value' = value := by
  cases h with
  | refl => rfl
  | map keys values => cases htext

end Value.ExtendsTo

/-! ## Environments -/

/-- Each name that has a value in the first environment has one in the second, to which it extends. -/
def Environment.ExtendsTo (environment environment' : Environment) : Prop :=
  ∀ name value, environment.lookup .default name = some value →
    ∃ value', environment'.lookup .default name = some value' ∧ value.ExtendsTo value'

namespace Environment.ExtendsTo

variable {environment environment' : Environment}

theorem params {value value' : Value} (h : value.ExtendsTo value') :
    (Environment.params value).ExtendsTo (.params value') :=
  fun _ _ hfound => h.field? hfound

/-- Arguments that have been extended are put over an environment that has been. -/
theorem layer (h : environment.ExtendsTo environment') {args args' : List (String × Value)}
    (hargs : LayersAlike Value.ExtendsTo args args') :
    (Environment.layer args environment).ExtendsTo (.layer args' environment') := by
  intro name value hfound
  have hname := hargs.lookup name
  rw [lookup_layer] at hfound ⊢
  generalize args.lookup name = found, args'.lookup name = found' at hname hfound
  cases hname with
  | none => exact h name value hfound
  | some hvalue =>
    cases hfound
    exact ⟨_, rfl, hvalue⟩

theorem resolve (h : environment.ExtendsTo environment') {path : Path} {value : Value}
    (hresolve : environment.resolve .default path = .ok value) :
    ∃ value', environment'.resolve .default path = .ok value' ∧ value.ExtendsTo value' := by
  cases path with
  | nil => cases hresolve
  | cons name path =>
    cases hfound : environment.lookup .default name with
    | none =>
      simp only [Environment.resolve, hfound] at hresolve
      cases hresolve
    | some first =>
      obtain ⟨first', hfound', hfirst⟩ := h name first hfound
      simp only [Environment.resolve, hfound] at hresolve
      simp only [Environment.resolve, hfound']
      exact hfirst.walk hresolve

end Environment.ExtendsTo

/-! ## Renders -/

/-- Calls do not find functions of the host where there are none. -/
theorem Registry.NoNatives.target?_ne {registry : Registry σ} (h : registry.NoNatives) (target : Binding)
    (name : String) (function : Native σ) : registry.target? target name ≠ some (.native function) := by
  cases target with
  | internal => simp [Registry.target?]
  | external => exact h name function

namespace Stage

/-- An environment that has been extended may stand in for the one it was, as far as a render goes with the old one. -/
theorem standsIn_extendsTo {registry : Registry σ} (hnatives : registry.NoNatives) :
    (Stage.mk registry .default).StandsIn (fun _ => False) Value.ExtendsTo
      fun _ environment environment' => environment.ExtendsTo environment' where
  deferred h := h
  child h _ _ := h
  argument h _ _ := h
  value {location _ path environment environment'} h := by
    unfold Stage.valueOf
    cases hresolve : environment.resolve .default path with
    | error segment =>
      apply Action.FollowedBy.halt_left not_false
      cases environment'.resolve .default path with
      | error segment' => exact .halt _
      | ok value' => exact .pure value'
    | ok value =>
      obtain ⟨value', hresolve', hvalue⟩ := h.resolve hresolve
      simp only [hresolve']
      exact .pure hvalue
  text {value value'} location path h := by
    cases htext : value.text with
    | none => exact .halt_left not_false (.orFail _ _)
    | some text =>
      rw [h.text htext, htext]
      exact .pure rfl
  string text := .refl (.string text)
  callee h _ _ hlayers := h.layer hlayers
  native _ hfound _ := absurd hfound (hnatives.target?_ne _ _ _)

/-- A render with more parameters goes on for at least as long, if it is not cut off before. -/
theorem follows_of_extendsTo {registry : Registry σ} (hnatives : registry.NoNatives) {params params' : Value}
    (h : params.ExtendsTo params') {depth depth' : Nat} {name : String} {output : Output σ}
    (hbound : depth ≤ depth' ∨
      ((Stage.mk registry .default).render depth' name params' output).1 ≠ .error .tooDeep) :
    Follows (fun _ => False) (fun _ _ => True) ((Stage.mk registry .default).render depth name params output)
      ((Stage.mk registry .default).render depth' name params' output) := by
  have hfollows : ∀ {bound}, depth ≤ bound →
      Follows (fun _ => False) (fun _ _ => True) ((Stage.mk registry .default).render depth name params output)
        ((Stage.mk registry .default).render bound name params' output) := by
    intro bound hle
    exact render_follows (standsIn_extendsTo hnatives) hle False.elim (fun _ _ => .params h)
      (fun function hfound => absurd hfound (hnatives name function)) output
  by_cases hle : depth ≤ depth'
  · exact hfollows hle
  · -- The bound has not been reached, so it may as well be the greater one.
    have hend := hbound.resolve_left hle
    have hgreater := render_of_le (Stage.mk registry .default) (show depth' ≤ depth by omega) hend
    rw [← hgreater]
    exact hfollows (Nat.le_refl depth)

end Stage

namespace Engine

/-- What an engine with the default resolver renders with. -/
theorem stage_eq {engine : Engine σ} (hresolver : engine.resolver = .default) :
    engine.stage = ⟨engine.registry, .default⟩ := by
  rw [← hresolver]
  rfl

/-- A render behind what has been written already, and one with more parameters. -/
theorem renderInto_of_extendsTo {engine : Engine σ} (hresolver : engine.resolver = .default)
    (hnatives : engine.registry.NoNatives) {params params' : Value} (h : params.ExtendsTo params') {name : String}
    {depth depth' : Nat} {output : Output σ}
    (hbound : depth ≤ depth' ∨ (engine.renderInto depth' name params' output).1 ≠ .error .tooDeep) :
    ((engine.renderInto depth name params output).1 = .ok () →
      engine.renderInto depth' name params' output = engine.renderInto depth name params output) ∧
    ∃ more, (engine.renderInto depth' name params' output).2.written =
      (engine.renderInto depth name params output).2.written ++ more := by
  have hstage := stage_eq hresolver
  have hbound' := hbound.imp_right fun hend hcut => hend (renderInto_eq_tooDeep.mpr hcut)
  rw [hstage] at hbound'
  have hfollows := Stage.follows_of_extendsTo hnatives h hbound'
  unfold renderInto
  rw [hstage]
  generalize (Stage.mk engine.registry .default).render depth name params output = done,
    (Stage.mk engine.registry .default).render depth' name params' output = done' at hfollows
  cases hfollows with
  | value after _ => exact ⟨fun _ => rfl, "", by simp⟩
  | halt _ hmore => exact ⟨nofun, hmore⟩

/-- **Rendering is monotone in its parameters.** Take an engine with the default resolver and without functions of the
    host, and parameters to which others extend: each key is there still, at every depth, and nothing but maps has
    changed. If a render with the former ones succeeds, then a render with the others has the same text and leaves the
    same behind. If it fails, then what it has written stands in front of all that the other one has written, whether
    this succeeds or not. The bounds on nested calls may be different ones, but the second render must not be cut off by
    a smaller bound. -/
theorem render_extendsTo {engine : Engine σ} (hresolver : engine.resolver = .default)
    (hnatives : engine.registry.NoNatives) {params params' : Value} (h : params.ExtendsTo params') (name : String)
    {depth depth' : Nat} :
    (∀ host text, (engine.render depth name params host).1 = .ok text →
      depth ≤ depth' ∨ (engine.render depth' name params' host).1 ≠ .error .tooDeep →
        engine.render depth' name params' host = engine.render depth name params host) ∧
    ∀ output, depth ≤ depth' ∨ (engine.renderInto depth' name params' output).1 ≠ .error .tooDeep →
      ((engine.renderInto depth name params output).1 = .ok () →
        engine.renderInto depth' name params' output = engine.renderInto depth name params output) ∧
      ∃ more, (engine.renderInto depth' name params' output).2.written =
        (engine.renderInto depth name params output).2.written ++ more := by
  refine ⟨?_, fun output hbound => renderInto_of_extendsTo hresolver hnatives h hbound⟩
  intro host text htext hbound
  obtain ⟨output, hrender, rfl⟩ := exists_of_render_eq_ok htext
  have hok : (engine.renderInto depth name params ⟨"", host⟩).1 = .ok () := by
    unfold renderInto
    rw [hrender]
    rfl
  have hbound' := hbound.imp_right fun hend hcut => hend (render_eq_tooDeep.mpr hcut)
  have hsame := (renderInto_of_extendsTo hresolver hnatives h hbound').1 hok
  unfold render
  rw [hsame]

/-- The value of an argument is extended, and so is the one that is missing at first. What has been written by then,
    with the text of an external call in it, is written again. -/
theorem render_extendsTo_passed :
    let card := Node.body default [.reference default .escaped ["item", "name"]]
    let page := Node.body default [.literal default "<",
      .call default .external "card" [("item", .reference default .passed ["user"])],
      .reference default .raw ["extra", "note"]]
    let engine : Engine Unit := ((Engine.new false).define "card" card).define "page" page
    let params := Value.map [("user", .map [("name", .string "A&B")]), ("extra", .map [])]
    let params' := Value.map [("user", .map [("name", .string "A&B"), ("age", .none)]),
      ("extra", .map [("note", .bool true)])]
    engine.resolver = .default ∧ engine.registry.NoNatives ∧ params.ExtendsTo params' ∧
      (engine.renderInto 1 "page" params ⟨"", ()⟩).1 ≠ .ok () ∧
      (engine.renderInto 1 "page" params ⟨"", ()⟩).2.written = "<A&amp;B" ∧
      (∃ more, (engine.renderInto 1 "page" params' ⟨"", ()⟩).2.written = "<A&amp;B" ++ more) ∧
      (engine.render 1 "page" params' ()).1 = .ok "<A&amp;Btrue" := by
  intro card page engine params params'
  have hnatives : engine.registry.NoNatives := (Registry.noNatives_empty.define "card" card).define "page" page
  have hextends : params.ExtendsTo params' :=
    .cons (.cons (.refl _) (.emptyMap _) "name") (.cons (.emptyMap _) (.refl _) "extra") "user"
  have hwritten : (engine.renderInto 1 "page" params ⟨"", ()⟩).2.written = "<A&amp;B" := by decide +kernel
  obtain ⟨more, hmore⟩ := ((render_extendsTo rfl hnatives hextends "page").2 ⟨"", ()⟩ (.inl (Nat.le_refl 1))).2
  rw [hwritten] at hmore
  refine ⟨rfl, hnatives, hextends, ?_, hwritten, ⟨more, hmore⟩, ?_⟩
  · intro hok
    have hfails : (engine.renderInto 1 "page" params ⟨"", ()⟩).1.isOk = false := by decide +kernel
    rw [hok] at hfails
    cases hfails
  · cbv

end Engine

end HtmlTemplate
