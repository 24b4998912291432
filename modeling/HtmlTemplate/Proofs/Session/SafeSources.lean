import HtmlTemplate.Proofs.Alike.Scans
import HtmlTemplate.Proofs.Grammar.Safe
import HtmlTemplate.Proofs.Session.Completed
import HtmlTemplate.Proofs.Token.Paths

/-!
# Safe sources render to balanced HTML

Where all sources that an engine has compiled are safe, every text that a render of it gives is balanced HTML
(`History.render_isHtml`). The tokens of a source are followed into the definitions that a compile completes, whether
it fails behind them or not, and from there into the tables, where the trees may have been flattened.

## Contents

* `isSafeSource`, `sound_scan` — safe sources and their tokens;
* `Edit.isSafe` — edits that compile safe sources, and define or register nothing by hand;
* `History.noNatives`, `History.emits` — what they leave in the tables;
* `History.render_isHtml` — the main statement.
-/

namespace HtmlTemplate

variable {σ : Type}

/-! ## Sources -/

/-- Whether a source is safe: the texts of its literals and quotes have no delimiters, and its references are escaped,
    but for those that are the value of an argument, which stand behind a colon. -/
def isSafeSource (code : String) : Bool := Token.allSafe false (scan code 0).tokens

namespace Token

variable {place : Location → Location → Prop}

theorem Alike.isSafe_eq {token token' : Token} (h : token.Alike place token') (isValue : Bool) :
    token.isSafe isValue = token'.isSafe isValue := by
  cases h with
  | literal _ hsegments =>
    show List.all _ _ = List.all _ _
    induction hsegments with
    | nil => rfl
    | cons hsegment _ ih => rw [List.all_cons, List.all_cons, hsegment.1, ih]
  | other _ _ => rfl

theorem Alike.valueFollows_eq {token token' : Token} (h : token.Alike place token') (isValue : Bool) :
    token.valueFollows isValue = token'.valueFollows isValue := by
  cases h <;> rfl

theorem allSafe_alike {tokens tokens' : List Token} (h : List.Forall₂ (Token.Alike place) tokens tokens')
    (isValue : Bool) : allSafe isValue tokens = allSafe isValue tokens' := by
  induction h generalizing isValue with
  | nil => rfl
  | cons htoken _ ih => rw [allSafe, allSafe, htoken.isSafe_eq, htoken.valueFollows_eq, ih]

end Token

/-- The tokens of a safe source are safe in whichever place it is compiled. -/
theorem sound_scan {code : String} (h : isSafeSource code = true) (file : Nat) :
    Sound false (scan code file).tokens := by
  have halike : List.Forall₂ (Token.Alike fun _ _ => True) (scan code file).tokens (scan code 0).tokens :=
    scan_alike code fun _ => trivial
  exact ⟨(Token.allSafe_alike halike false).trans h, fun _ htoken _ hname => isIdentifier_of_mem_scan htoken hname⟩

/-! ## Histories -/

/-- A compile of a safe source, or a setting. -/
def Edit.isSafe : Edit σ → Bool
  | .compile code _ => isSafeSource code
  | .define _ _ | .register _ _ => false
  | .setResolver _ | .setOptimize _ => true

/-- Defining templates registers no function of the host. -/
theorem Engine.noNatives_defineEach {engine : Engine σ} (h : engine.registry.NoNatives)
    (definitions : List Definition) : (engine.defineEach definitions).registry.NoNatives := by
  induction definitions generalizing engine with
  | nil => exact h
  | cons definition definitions ih => exact ih (h.define _ _)

namespace History

theorem noNatives {optimize : Bool} {edits : List (Edit σ)} (hedits : ∀ edit ∈ edits, edit.isSafe = true) :
    (⟨optimize, edits⟩ : History σ).engine.registry.NoNatives := by
  induction edits using List.reverseRecOn with
  | nil => exact Registry.noNatives_empty
  | append_singleton edits edit ih =>
    have hbefore := ih fun edit hedit => hedits edit (List.mem_append_left _ hedit)
    have hlast := hedits edit (List.mem_append_right _ (List.mem_singleton_self edit))
    rw [show (⟨optimize, edits ++ [edit]⟩ : History σ) = (⟨optimize, edits⟩ : History σ).extend edit from rfl,
      engine_extend]
    cases edit with
    | compile code fileName =>
      show (Engine.compile _ code fileName).1.registry.NoNatives
      rw [Engine.compile_fst]
      have hadded : ((⟨optimize, edits⟩ : History σ).engine.addSource code fileName).registry.NoNatives := hbefore
      exact Engine.noNatives_defineEach hadded _
    | define name tree | register name function => cases hlast
    | setResolver resolver | setOptimize optimize => exact hbefore

/-- Every tree that safe sources leave in the tables writes HTML. -/
theorem emits {optimize : Bool} {edits : List (Edit σ)} (hedits : ∀ edit ∈ edits, edit.isSafe = true) :
    (⟨optimize, edits⟩ : History σ).engine.registry.Every fun tree => Node.Emits [tree] IsHtml := by
  intro name tree hholds
  have hdefine : ∀ edit ∈ edits, edit.isDefine = false := by
    intro edit hedit
    cases edit with
    | define name tree => cases hedits _ hedit
    | _ => rfl
  obtain ⟨before, code, fileName, after, rfl, definition, hdefinition, -, rfl⟩ := holds hdefine hholds
  have hcode : isSafeSource code = true := hedits _ (List.mem_append_right _ List.mem_cons_self)
  obtain ⟨scope, d, rfl, front, more, htokens⟩ := Engine.exists_def_of_mem_completedIn hdefinition
  have hsound := sound_scan hcode (⟨optimize, before⟩ : History σ).engine.sources.size
  rw [← htokens, List.append_assoc] at hsound
  -- A definition starts with a keyword, so it does not matter whether the value of an argument could stand there.
  obtain ⟨_, hd⟩ := hsound.of_append
  have hbody := Grammar.Def.emits scope hd
  unfold Engine.stored
  split
  · exact hbody.flatten
  · exact hbody

/-- **Safe sources render to balanced HTML.** -/
theorem render_isHtml {history : History σ} (hedits : ∀ edit ∈ history.edits, edit.isSafe = true) {depth : Nat}
    {name : String} {params : Value} {host : σ} {text : String}
    (h : (history.engine.render depth name params host).1 = .ok text) : IsHtml text := by
  obtain ⟨output, hrender, rfl⟩ := Engine.exists_of_render_eq_ok h
  have hnative : history.engine.stage.registry.NoNatives := noNatives hedits
  have hemits : history.engine.stage.registry.Every fun tree => Node.Emits [tree] IsHtml := emits hedits
  obtain ⟨text, hwritten, htext⟩ := Stage.render_writes hnative hemits depth name params _ _ _ hrender
  rw [hwritten, String.empty_append]
  exact htext

/-- A list with an item that is defined in a source of its own and shows a value that is passed on to it. -/
theorem render_isHtml_list :
    let item := "def item \x7b li.u[title=\"t\"] \x7b ~\\~ ~ @~v \x7d \x7d"
    let list := "def list \x7b ul#l \x7b item(v: @x) item(v: ~a~) \x7d \x7d"
    let history : History Unit := ⟨true, [.compile item "item.tl", .compile list "list.tl"]⟩
    let text := "<ul id=\"l\"><li class=\"u\" title=\"t\">~ &lt;</li><li class=\"u\" title=\"t\">~ a</li></ul>"
    (∀ edit ∈ history.edits, edit.isSafe = true) ∧
      (history.engine.render 2 "list" (.map [("x", .string "<")]) ()).1 = .ok text ∧ IsHtml text := by
  intro item list history text
  have hedits : ∀ edit ∈ history.edits, edit.isSafe = true := by
    have hitem : isSafeSource item = true := by decide +kernel
    have hlist : isSafeSource list = true := by decide +kernel
    intro edit hedit
    rcases List.mem_pair.mp hedit with rfl | rfl
    · exact hitem
    · exact hlist
  have h : (history.engine.render 2 "list" (.map [("x", .string "<")]) ()).1 = .ok text := by decide +kernel
  exact ⟨hedits, h, render_isHtml hedits h⟩

end History

end HtmlTemplate
