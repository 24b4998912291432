import HtmlTemplate.Proofs.Command.Files
import HtmlTemplate.Proofs.Render.Monotone
import HtmlTemplate.Proofs.Session.SafeSources

/-!
# Rendering from the command line is all or nothing

A command line that asks for a render may fail while it reads files, compiles them, reads the parameters, looks for the
template, renders it, or opens the file that it writes to. In whatever order this is tried, nothing is printed and no
file changes unless all of it has succeeded. What is then printed or written is the text of the template that the files
define, rendered with the parameters of the file and those of the command line, which replace them
(`FileTree.run_render`).

## Contents

* `Engine.render_of_lookup`, `Engine.isDefined_of_render` — what a render of an engine depends on;
* `Options.argument?`, `HasMembers`, `Options.Supplies` — the parameters that a command line gives;
* `Renders`, `render_eq_ok` — the text that is asked for, and that the command finds it;
* `SameForms`, `render_of_noOptimize` — it is all the same whether trees are flattened;
* `Delivered`, `FileTree.Writable` — where the text goes;
* `FileTree.run_render` — the main statement.
-/

namespace HtmlTemplate

namespace Engine

variable {σ : Type}

/-! ## Engines -/

theorem noNatives_compileEach {engine : Engine σ} (h : engine.registry.NoNatives) (sources : List Source) :
    (engine.compileEach sources).registry.NoNatives := by
  induction sources generalizing engine with
  | nil => exact h
  | cons source sources ih =>
    have hcompile : (engine.compile source.code source.name).1.registry.NoNatives := by
      have hadded : (engine.addSource source.code source.name).registry.NoNatives := h
      rw [compile_fst]
      exact noNatives_defineEach hadded _
    exact ih hcompile

/-- Only the values under the keys count, and not how a map holds them. -/
theorem render_of_lookup {engine : Engine σ} (hresolver : engine.resolver = .default)
    (hnatives : engine.registry.NoNatives) {entries entries' : List (String × Value)}
    (hsame : ∀ key, entries.lookup key = entries'.lookup key) {depth : Nat} {name : String} {host : σ} {text : String}
    (h : (engine.render depth name (.map entries) host).1 = .ok text) :
    (engine.render depth name (.map entries') host).1 = .ok text := by
  have hextends : (Value.map entries).ExtendsTo (.map entries') := by
    apply Value.ExtendsTo.of_lookup
    intro key value hvalue
    exact ⟨value, (hsame key).symm.trans hvalue, .refl value⟩
  obtain ⟨output, hrender, rfl⟩ := exists_of_render_eq_ok h
  have hinto : engine.renderInto depth name (.map entries) ⟨"", host⟩ = (.ok (), output) := by
    unfold renderInto
    rw [hrender]
    rfl
  have hinto' := (renderInto_of_extendsTo hresolver hnatives hextends (.inl (Nat.le_refl depth))).1 (by rw [hinto])
  unfold render
  rw [hinto', hinto]
  rfl

/-- What has been rendered is a template. -/
theorem isDefined_of_render {engine : Engine σ} {depth : Nat} {name : String} {params : Value} {host : σ}
    {text : String} (h : (engine.render depth name params host).1 = .ok text) : engine.registry.isDefined name = true := by
  obtain ⟨output, hrender, -⟩ := exists_of_render_eq_ok h
  unfold Stage.render at hrender
  unfold Registry.isDefined
  cases hfound : engine.registry.external? name with
  | some template => rfl
  | none =>
    rw [show engine.stage.registry.external? name = none from hfound] at hrender
    cases hrender

end Engine

namespace Command

variable {look : String → Entry}

/-! ## Parameters -/

/-- The last text given to a name on the command line. -/
def Options.argument? (options : Options) (name : String) : Option String := options.args.reverse.lookup name

/-- The members of the object that the file of parameters holds. Without a file there are none. -/
inductive HasMembers (look : String → Entry) (options : Options) : List (String × Json) → Prop where
  | missing (h : options.params = none) : HasMembers look options []
  | file {path text : String} {members : List (String × Json)} (hpath : options.params = some path)
    (htext : look path = .file text) (hobject : Json.ofString? text = some (.object members)) :
    HasMembers look options members

/-- The map has the members of the object, those apart that the command line replaces by texts. -/
def Options.Supplies (options : Options) (members : List (String × Json)) (entries : List (String × Value)) : Prop :=
  ∀ name, entries.lookup name =
    ((options.argument? name).map Value.string).or ((Value.ofJson (.object members)).get? name)

/-- The parameters that are made of the members: the texts of the command line stand behind them. -/
def Options.supplied (options : Options) (members : List (String × Json)) : List (String × Value) :=
  (Value.ofJsonMembers (members ++ options.args.map fun (name, text) => (name, .string text))).reverse

theorem Options.supplies_supplied (options : Options) (members : List (String × Json)) :
    options.Supplies members (options.supplied members) := by
  intro name
  unfold supplied
  have hstrings : ((options.args.map fun (name, text) => (name, Json.string text)).map
      fun member => (member.1, Value.ofJson member.2)) = options.args.map fun arg => (arg.1, .string arg.2) := by
    rw [List.map_map]
    rfl
  rw [Value.ofJsonMembers_eq_map, List.map_append, hstrings, List.reverse_append, List.lookup_append,
    ← List.map_reverse, lookup_map_snd, Value.ofJson, Value.ofJsonMembers_eq_map]
  rfl

theorem readParams_eq_ok {options : Options} {params : Value} :
    readParams look options = .ok params ↔
      ∃ members, HasMembers look options members ∧ params = .map (options.supplied members) := by
  unfold readParams
  cases hparams : options.params with
  | none =>
    constructor
    · rintro ⟨⟩
      exact ⟨[], .missing hparams, rfl⟩
    · rintro ⟨members, _ | ⟨hpath, -, -⟩, rfl⟩
      · rfl
      · cases hparams.symm.trans hpath
  | some path =>
    constructor
    · intro h
      cases htext : look path with
      | missing | directory =>
        simp only [readFile, htext] at h
        cases h
      | file text =>
        simp only [readFile_eq_ok.mpr htext, bind, Except.bind] at h
        cases hobject : Json.ofString? text with
        | none =>
          rw [hobject] at h
          cases h
        | some json =>
          rw [hobject] at h
          cases json with
          | object members =>
            cases h
            exact ⟨members, .file hparams htext hobject, rfl⟩
          | _ => cases h
    · rintro ⟨members, hnone | ⟨hpath, htext, hobject⟩, rfl⟩
      · cases hparams.symm.trans hnone
      · cases hparams.symm.trans hpath
        simp only [readFile_eq_ok.mpr htext, hobject, bind, Except.bind]
        rfl

/-! ## The text that is asked for -/

/-- The template that the options name renders to this text, in an engine into which the files have been compiled in
    order and with the parameters that the command line supplies. -/
inductive Renders (look : String → Entry) (depth : Nat) (options : Options) (html : String) : Prop where
  | intro {name : String} {sources : List Source} {members : List (String × Json)} {entries : List (String × Value)}
    (htemplate : options.template = some name) (hreads : List.Forall₂ (ReadFrom look) options.files sources)
    (hvalids : ∀ source ∈ sources, source.IsValid) (hmembers : HasMembers look options members)
    (hentries : options.Supplies members entries)
    (hhtml : (((Engine.new (!options.noOptimize)).compileEach sources).render depth name (.map entries) ()).1 =
      .ok html)

/-- The command succeeds if each of its steps does. That there are files and that the template is defined follows from
    the last one. -/
theorem render_eq_ok_iff_steps {depth : Nat} {options : Options} {html : String} :
    render look depth options = .ok html ↔
      ∃ name engine params, options.template = some name ∧
        compileFiles look (!options.noOptimize) options.files = .ok engine ∧ readParams look options = .ok params ∧
        (engine.render depth name params ()).1 = .ok html := by
  constructor
  · intro h
    unfold render at h
    cases htemplate : options.template with
    | none =>
      rw [htemplate] at h
      cases h
    | some name =>
      rw [htemplate] at h
      dsimp only at h
      split at h
      · cases h
      · obtain ⟨engine, hengine, h⟩ := exists_of_bind h
        obtain ⟨params, hparams, h⟩ := exists_of_bind h
        split at h
        · cases h
        · split at h
          · rename_i html' hhtml
            cases h
            exact ⟨name, engine, params, rfl, hengine, hparams, hhtml⟩
          · cases h
          · cases h
  · rintro ⟨name, engine, params, htemplate, hengine, hparams, hhtml⟩
    have hdefined := Engine.isDefined_of_render hhtml
    have hfiles : options.files.isEmpty = false := by
      cases hnone : options.files with
      | cons path files => rfl
      | nil =>
        rw [hnone] at hengine
        cases hengine
        simp [Engine.new, Registry.isDefined] at hdefined
    unfold render
    rw [htemplate, hfiles, hengine, hparams]
    dsimp only [bind, Except.bind]
    rw [hdefined, hhtml]
    rfl

/-- **The command finds the text that is asked for**, and no other. -/
theorem render_eq_ok {depth : Nat} {options : Options} {html : String} :
    render look depth options = .ok html ↔ Renders look depth options html := by
  rw [render_eq_ok_iff_steps]
  constructor
  · rintro ⟨name, engine, params, htemplate, hengine, hparams, hhtml⟩
    obtain ⟨sources, hreads, hvalids, rfl⟩ := compileFiles_eq_ok.mp hengine
    obtain ⟨members, hmembers, rfl⟩ := readParams_eq_ok.mp hparams
    exact .intro htemplate hreads hvalids hmembers (options.supplies_supplied members) hhtml
  · rintro ⟨htemplate, hreads, hvalids, hmembers, hentries, hhtml⟩
    rename_i name sources members entries
    -- The command puts the texts behind the members, which is one of the ways to hold these entries.
    refine ⟨name, _, _, htemplate, compileFiles_eq_ok.mpr ⟨sources, hreads, hvalids, rfl⟩,
      readParams_eq_ok.mpr ⟨members, hmembers, rfl⟩, ?_⟩
    apply Engine.render_of_lookup (Engine.compileEach_resolver _ sources)
      (Engine.noNatives_compileEach Registry.noNatives_empty sources) _ hhtml
    intro key
    exact (hentries key).trans (options.supplies_supplied members key).symm

/-! ## Flattened trees -/

/-- Files are compiled into engines that differ in which of their trees are flattened, or both times the same goes
    wrong. -/
inductive SameForms : Except Failure (Engine Unit) → Except Failure (Engine Unit) → Prop where
  | ok {engine engine' : Engine Unit} (h : engine.Forms engine') : SameForms (.ok engine) (.ok engine')
  | error (failure : Failure) : SameForms (.error failure) (.error failure)

theorem compileFile_forms {engine engine' : Engine Unit} (h : engine.Forms engine') (path : String) :
    SameForms (compileFile look engine path) (compileFile look engine' path) := by
  cases hread : look path with
  | missing | directory =>
    simp only [compileFile, readFile, hread]
    exact .error _
  | file code =>
    obtain ⟨hforms, hresult⟩ := h.compile code path
    rw [compileFile_of_code hread, compileFile_of_code hread, ← hresult]
    cases (engine.compile code path).2 with
    | error diagnostic => exact .error _
    | ok => exact .ok hforms

theorem foldlM_compileFile_forms {engine engine' : Engine Unit} (h : engine.Forms engine') (files : List String) :
    SameForms (files.foldlM (compileFile look) engine) (files.foldlM (compileFile look) engine') := by
  induction files generalizing engine engine' with
  | nil => exact .ok h
  | cons path files ih =>
    have hfirst : SameForms (compileFile look engine path) (compileFile look engine' path) := compileFile_forms h path
    rw [List.foldlM_cons, List.foldlM_cons]
    generalize compileFile look engine path = first, compileFile look engine' path = first' at hfirst
    cases hfirst with
    | error failure => exact .error failure
    | ok hnext => exact ih hnext

/-- **It is all the same whether trees are flattened**: the same text comes out, or the same goes wrong. -/
theorem render_of_noOptimize (depth : Nat) (options : Options) (noOptimize : Bool) :
    render look depth { options with noOptimize } = render look depth options := by
  have hforms : SameForms (compileFiles look (!noOptimize) options.files)
      (compileFiles look (!options.noOptimize) options.files) := by
    rw [compileFiles_eq, compileFiles_eq]
    exact foldlM_compileFile_forms (.new _ _) options.files
  have hparams : readParams look { options with noOptimize } = readParams look options := rfl
  unfold render
  dsimp only
  rw [hparams]
  cases options.template with
  | none => rfl
  | some name =>
    dsimp only
    generalize compileFiles look (!noOptimize) options.files = compiled,
      compileFiles look (!options.noOptimize) options.files = compiled' at hforms
    cases hforms with
    | error failure => rfl
    | @ok engine engine' hengines =>
      have hnames : engine.names = engine'.names := hengines.registry.names
      simp only [hnames, hengines.registry.isDefined, hengines.render, bind, Except.bind]

/-! ## Where the text goes -/

/-- The rendered text with a line end behind it is printed, and the tree stays as it is, or nothing is printed, and it
    is what a file holds now. No other file has changed. -/
inductive Delivered (tree : FileTree) (html : String) : Option String → String → FileTree → Prop where
  | printed : Delivered tree html none (html ++ "\n") tree
  | written {path : String} {place : Place} {after : FileTree} (hplace : tree.resolve? path = some place)
    (hcurrent : after.current = tree.current) (hhere : after.entryAt place = .file (html ++ "\n"))
    (helsewhere : ∀ other, other ≠ place → after.files.lookup other = tree.files.lookup other) :
    Delivered tree html (some path) "" after

namespace FileTree

/-- The path leads to a file, or to where one can be created. -/
def Writable (tree : FileTree) (path : String) : Prop :=
  ∃ place, tree.resolve? path = some place ∧ tree.entryAt place ≠ .directory

theorem write?_eq_none {tree : FileTree} {path content : String} :
    tree.write? path content = none ↔ ¬ tree.Writable path := by
  unfold write? Writable
  cases tree.resolve? path with
  | none => simp
  | some place =>
    by_cases h : tree.entryAt place = .directory <;> simp [h]

theorem delivered_of_write? {tree after : FileTree} {path html : String}
    (h : tree.write? path (html ++ "\n") = some after) : Delivered tree html (some path) "" after := by
  cases hplace : tree.resolve? path with
  | none =>
    rw [write?, hplace] at h
    cases h
  | some place =>
    have hcurrent : after.current = tree.current := by
      rw [write?, hplace] at h
      dsimp only at h
      split at h <;> cases h
      rfl
    exact .written hplace hcurrent (entryAt_of_write? hplace h) fun other => lookup_of_write? hplace h

variable {tree : FileTree} {depth : Nat} {texts : List String} {options : Options}

/-- A text that is found is delivered, unless it is to be written to where nothing can be written. -/
theorem run_of_render_ok (hline : Invocation.ofArguments texts = .ok (.render options)) {html : String}
    (h : render tree.find depth options = .ok html) :
    (∃ printed after, tree.run depth texts = (printed, .ok (), after) ∧
        Delivered tree html options.output printed after) ∨
      ∃ path, options.output = some path ∧ ¬ tree.Writable path ∧
        tree.run depth texts = ("", .error (.unwritable path), tree) := by
  unfold run
  rw [hline]
  dsimp only [Invocation.perform]
  rw [h]
  cases options.output with
  | none => exact .inl ⟨_, _, rfl, .printed⟩
  | some path =>
    dsimp only
    cases hwrite : tree.write? path (html ++ "\n") with
    | none => exact .inr ⟨path, rfl, write?_eq_none.mp hwrite, rfl⟩
    | some after => exact .inl ⟨_, _, rfl, delivered_of_write? hwrite⟩

theorem run_of_render_error (hline : Invocation.ofArguments texts = .ok (.render options)) {failure : Failure}
    (h : render tree.find depth options = .error failure) : tree.run depth texts = ("", .error failure, tree) := by
  unfold run
  rw [hline]
  dsimp only [Invocation.perform]
  rw [h]
  rfl

/-- Command lines that differ in whether trees are flattened do the same. -/
theorem run_of_noOptimize (hline : Invocation.ofArguments texts = .ok (.render options)) {texts' : List String}
    {noOptimize : Bool} (hline' : Invocation.ofArguments texts' = .ok (.render { options with noOptimize })) :
    tree.run depth texts' = tree.run depth texts := by
  unfold run
  rw [hline, hline']
  dsimp only [Invocation.perform]
  rw [render_of_noOptimize]

/-- **A render from the command line is all or nothing.** If it does not succeed, then nothing is printed and no file
    changes. If it does, then the text that is asked for is printed or written, and nothing else. It succeeds whenever
    there is such a text and, where it is to be written, it can be. All this is the same with flattened trees and
    without. -/
theorem run_render (tree : FileTree) (depth : Nat) {texts : List String} {options : Options}
    (hline : Invocation.ofArguments texts = .ok (.render options)) :
    let ran := tree.run depth texts
    (ran.2.1 ≠ .ok () → ran.1 = "" ∧ ran.2.2 = tree) ∧
    (ran.2.1 = .ok () →
      ∃ html, Renders tree.find depth options html ∧ Delivered tree html options.output ran.1 ran.2.2) ∧
    (∀ html, Renders tree.find depth options html → (∀ path, options.output = some path → tree.Writable path) →
      ran.2.1 = .ok () ∧ Delivered tree html options.output ran.1 ran.2.2) ∧
    ∀ texts' noOptimize, Invocation.ofArguments texts' = .ok (.render { options with noOptimize }) →
      tree.run depth texts' = ran := by
  intro ran
  -- The flag aside, everything is decided by whether there is a text and whether it can be written.
  rw [← and_assoc, ← and_assoc]
  refine ⟨?_, fun texts' noOptimize hline' => run_of_noOptimize hline hline'⟩
  cases hrender : render tree.find depth options with
  | error failure =>
    rw [show ran = ("", .error failure, tree) from run_of_render_error hline hrender]
    refine ⟨⟨fun _ => ⟨rfl, rfl⟩, nofun⟩, ?_⟩
    intro html hrenders
    cases hrender.symm.trans (render_eq_ok.mpr hrenders)
  | ok html =>
    have hrenders : Renders tree.find depth options html := render_eq_ok.mp hrender
    obtain ⟨printed, after, hran, hdelivered⟩ | ⟨path, houtput, hunwritable, hran⟩ := run_of_render_ok hline hrender
    · rw [show ran = (printed, .ok (), after) from hran]
      refine ⟨⟨fun hfails => absurd rfl hfails, fun _ => ⟨html, hrenders, hdelivered⟩⟩, ?_⟩
      intro html' hrenders' _
      cases hrender.symm.trans (render_eq_ok.mpr hrenders')
      exact ⟨rfl, hdelivered⟩
    · rw [show ran = ("", .error (.unwritable path), tree) from hran]
      refine ⟨⟨fun _ => ⟨rfl, rfl⟩, nofun⟩, ?_⟩
      intro html' _ hwritable
      exact absurd (hwritable path houtput) hunwritable

/-- Two files with templates, and a parameter in a third file that is replaced twice. The text replaces what is in a
    fourth file. -/
theorem run_render_replaced :
    let item : Source := ⟨"a", "def i \x7b @x \x7d"⟩
    let page : Source := ⟨"b", "def g \x7b i() @y \x7d"⟩
    let tree : FileTree := ⟨[(["a"], item.code), (["b"], page.code), (["p"], "\x7b\"x\":\"1\",\"y\":\"2\"\x7d"),
      (["o"], "old")], []⟩
    let texts := ["-t", "g", "a", "b", "-p", "p", "--arg", "x", "3", "--arg", "x", "4", "-oo"]
    let ran := tree.run 1 texts
    ran.1 = "" ∧ ran.2.1 = .ok () ∧ ran.2.2.entryAt ["o"] = .file "42\n" ∧
      ran.2.2.files.lookup ["p"] = tree.files.lookup ["p"] ∧ tree.run 1 ("--no-optimize" :: texts) = ran := by
  intro item page tree texts ran
  let options : Options := ⟨some "g", some "p", [("x", "3"), ("x", "4")], false, some "o", false, ["a", "b"]⟩
  have hline : Invocation.ofArguments texts = .ok (.render options) := by decide +kernel
  have hreads : List.Forall₂ (ReadFrom tree.find) ["a", "b"] [item, page] :=
    .cons ⟨rfl, by cbv⟩ (.cons ⟨rfl, by cbv⟩ .nil)
  have hvalids : ∀ source ∈ [item, page], source.IsValid := by
    unfold Source.IsValid
    decide +kernel
  have hmembers : HasMembers tree.find options [("x", .string "1"), ("y", .string "2")] :=
    .file rfl (show tree.find "p" = _ by cbv) (by cbv)
  have hrenders : Renders tree.find 1 options "42" :=
    .intro rfl hreads hvalids hmembers (options.supplies_supplied _) (by decide +kernel)
  have hplace : tree.resolve? "o" = some ["o"] := by cbv
  have hwritable : ∀ path, options.output = some path → tree.Writable path := by
    rintro _ ⟨⟩
    exact ⟨["o"], hplace, by decide +kernel⟩
  obtain ⟨-, -, hsucceeds, hsame⟩ := run_render tree 1 hline
  obtain ⟨hok, hdelivered⟩ := hsucceeds "42" hrenders hwritable
  have hflag : tree.run 1 ("--no-optimize" :: texts) = ran := hsame _ true (by decide +kernel)
  change Delivered tree "42" (some "o") ran.1 ran.2.2 at hdelivered
  generalize ran.1 = printed, ran.2.2 = after at hdelivered
  cases hdelivered with
  | written hplace' _ hhere helsewhere =>
    cases hplace.symm.trans hplace'
    exact ⟨rfl, hok, hhere, helsewhere ["p"] (by decide), hflag⟩

end FileTree

end Command

end HtmlTemplate
