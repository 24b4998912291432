import HtmlTemplate.Proofs.Session.Completed
import HtmlTemplate.Proofs.Text.ByteOrder

/-!
# The last write of a name counts

Whatever is done to an engine comes to a list of writes to its tables: trees that are defined by hand or by a compile,
and functions of the host. The internal table holds the last tree that was written under each name, and the external
table the last tree or function, whichever came later (`History.lastWriterWins`). So each internal name is defined, no
name disappears, and a name that an edit does not write keeps its entries.

## Contents

* `Write`, `Registry.write` — one write, and the tables after it;
* `Engine.writes`, `History.writes` — what an edit writes, and what all edits of a history have written;
* `Registry.internal?_foldl_write`, `external?_foldl_write` — the tables after some writes;
* `Registry.LastWriterWins` — the entries told by the writes alone;
* `Registry.pairwise_names` — names are listed in the order of their bytes;
* `History.lastWriterWins` — the main statement.
-/

namespace HtmlTemplate

variable {σ : Type}

/-! ## Writes -/

/-- A write to the tables of an engine. -/
inductive Write (σ : Type) where
  | define (name : String) (tree : Node)
  | register (name : String) (function : Native σ)

namespace Write

/-- The name that is written. -/
def name : Write σ → String
  | define name _ | register name _ => name

/-- The tree that is written under a name. -/
def tree? (name : String) : Write σ → Option Node
  | define other tree => if other = name then some tree else none
  | register _ _ => none

/-- What goes by a name outside because of the write. -/
def template? (name : String) : Write σ → Option (Template σ)
  | define other tree => if other = name then some (.compiled tree) else none
  | register other function => if other = name then some (.native function) else none

theorem tree?_eq_some {write : Write σ} {name : String} {tree : Node} :
    write.tree? name = some tree ↔ write = .define name tree := by
  cases write with
  | define other tree' => simp [tree?]
  | register other function => simp [tree?]

theorem tree?_eq_none {write : Write σ} {name : String} :
    write.tree? name = none ↔ ∀ tree, write ≠ .define name tree := by
  rw [Option.eq_none_iff_forall_ne_some]
  exact forall_congr' fun tree => not_congr tree?_eq_some

theorem template?_eq_compiled {write : Write σ} {name : String} {tree : Node} :
    write.template? name = some (.compiled tree) ↔ write = .define name tree := by
  cases write with
  | define other tree' => simp [template?]
  | register other function => simp [template?]

theorem template?_eq_native {write : Write σ} {name : String} {function : Native σ} :
    write.template? name = some (.native function) ↔ write = .register name function := by
  cases write with
  | define other tree' => simp [template?]
  | register other function' => simp [template?]

theorem template?_eq_none {write : Write σ} {name : String} : write.template? name = none ↔ write.name ≠ name := by
  cases write with
  | define other tree' => simp [template?, Write.name]
  | register other function => simp [template?, Write.name]

end Write

namespace Registry

/-- The tables after a write. -/
def write (registry : Registry σ) : Write σ → Registry σ
  | .define name tree => registry.define name tree
  | .register name function => registry.register name function

theorem internal?_write (registry : Registry σ) (write : Write σ) (name : String) :
    (registry.write write).internal? name = (write.tree? name).or (registry.internal? name) := by
  cases write with
  | define other tree =>
    rw [Registry.write, internal?_define, Write.tree?]
    split <;> rfl
  | register other function => rfl

theorem external?_write (registry : Registry σ) (write : Write σ) (name : String) :
    (registry.write write).external? name = (write.template? name).or (registry.external? name) := by
  cases write with
  | define other tree =>
    rw [Registry.write, external?_define, Write.template?]
    split <;> rfl
  | register other function =>
    rw [Registry.write, external?_register, Write.template?]
    split <;> rfl

/-- The internal table holds the last tree that was written, or else what it held before. -/
theorem internal?_foldl_write (writes : List (Write σ)) (registry : Registry σ) (name : String) :
    (writes.foldl write registry).internal? name =
      (writes.reverse.findSome? (Write.tree? name)).or (registry.internal? name) := by
  induction writes using List.reverseRecOn with
  | nil => rfl
  | append_singleton writes write ih =>
    rw [List.foldl_concat, internal?_write, ih, List.reverse_concat, List.findSome?_cons]
    cases write.tree? name with
    | none => rfl
    | some tree => rfl

/-- The external table holds what was written last, or else what it held before. -/
theorem external?_foldl_write (writes : List (Write σ)) (registry : Registry σ) (name : String) :
    (writes.foldl write registry).external? name =
      (writes.reverse.findSome? (Write.template? name)).or (registry.external? name) := by
  induction writes using List.reverseRecOn with
  | nil => rfl
  | append_singleton writes write ih =>
    rw [List.foldl_concat, external?_write, ih, List.reverse_concat, List.findSome?_cons]
    cases write.template? name with
    | none => rfl
    | some template => rfl

end Registry

/-! ## What edits write -/

namespace Engine

/-- What an edit writes to the tables. A compile writes the definitions that it completes, also if it fails. -/
def writes (engine : Engine σ) : Edit σ → List (Write σ)
  | .compile code fileName =>
    (engine.completed code fileName).map fun definition => .define definition.name (engine.stored definition.body)
  | .define name tree => [.define name (engine.stored tree)]
  | .register name function => [.register name function]
  | .setResolver _ | .setOptimize _ => []

theorem defineEach_registry (engine : Engine σ) (definitions : List Definition) :
    (engine.defineEach definitions).registry =
      (definitions.map fun definition => Write.define definition.name (engine.stored definition.body)).foldl
        Registry.write engine.registry := by
  induction definitions generalizing engine with
  | nil => rfl
  | cons definition definitions ih => exact ih (engine.define definition.name definition.body)

/-- **An edit changes the tables by its writes** and in no other way. -/
theorem perform_registry (engine : Engine σ) (edit : Edit σ) :
    (engine.perform edit).1.registry = (engine.writes edit).foldl Registry.write engine.registry := by
  cases edit with
  | compile code fileName =>
    show (engine.compile code fileName).1.registry = _
    rw [compile_fst, defineEach_registry]
    rfl
  | define name tree | register name function | setResolver resolver | setOptimize optimize => rfl

end Engine

namespace History

/-- All that the edits of a history have written, in order. -/
def writes (history : History σ) : List (Write σ) := history.log Engine.writes

/-- The tables of an engine are what was written to them. -/
theorem engine_registry (history : History σ) :
    history.engine.registry = history.writes.foldl Registry.write .empty := by
  obtain ⟨optimize, edits⟩ := history
  induction edits using List.reverseRecOn with
  | nil => rfl
  | append_singleton edits edit ih =>
    have hextend : (⟨optimize, edits ++ [edit]⟩ : History σ) = (⟨optimize, edits⟩ : History σ).extend edit := rfl
    rw [hextend, engine_extend, Engine.perform_registry, ih, writes, writes, log_extend, List.foldl_append]

end History

/-! ## Entries told by the writes -/

/-- What is found first from the end stands in front of nothing else that could be found. -/
theorem findSome?_reverse_eq_some {α β : Type} {f : α → Option β} {found : List α} {a : α} {b : β}
    (hf : ∀ other, f other = some b ↔ other = a) :
    found.reverse.findSome? f = some b ↔
      ∃ before after, found = before ++ a :: after ∧ ∀ later ∈ after, f later = none := by
  rw [List.findSome?_eq_some_iff]
  constructor
  · rintro ⟨after, other, before, hfound, hother, hafter⟩
    obtain rfl := (hf other).mp hother
    refine ⟨before.reverse, after.reverse, ?_, fun later hlater => hafter later (List.mem_reverse.mp hlater)⟩
    rw [← List.reverse_reverse found, hfound]
    simp
  · rintro ⟨before, after, rfl, hafter⟩
    refine ⟨after.reverse, a, before.reverse, by simp, (hf a).mpr rfl, fun later hlater => ?_⟩
    exact hafter later (List.mem_reverse.mp hlater)

namespace Registry

/-- The entries of the tables, told by what was written to them. -/
structure LastWriterWins (registry : Registry σ) (writes : List (Write σ)) : Prop where
  /-- The internal entry of a name is the last tree that was written under it. -/
  internal : ∀ name tree, registry.internal? name = some tree ↔
    ∃ before after, writes = before ++ .define name tree :: after ∧ ∀ later, .define name later ∉ after
  /-- The external entry is this tree if no function was written under the name after it. -/
  compiled : ∀ name tree, registry.external? name = some (.compiled tree) ↔
    ∃ before after, writes = before ++ .define name tree :: after ∧ ∀ later ∈ after, later.name ≠ name
  /-- It is the last function if no tree was written under the name after it. -/
  native : ∀ name function, registry.external? name = some (.native function) ↔
    ∃ before after, writes = before ++ .register name function :: after ∧ ∀ later ∈ after, later.name ≠ name
  noInternal : ∀ name, registry.internal? name = none ↔ ∀ tree, .define name tree ∉ writes
  noExternal : ∀ name, registry.external? name = none ↔ ∀ write ∈ writes, write.name ≠ name

/-- **The last write of a name counts**, whatever else is written before it and behind it. -/
theorem lastWriterWins_foldl_write (writes : List (Write σ)) :
    (writes.foldl write (empty : Registry σ)).LastWriterWins writes where
  internal name tree := by
    rw [internal?_foldl_write, internal?_empty, Option.or_none,
      findSome?_reverse_eq_some fun _ => Write.tree?_eq_some]
    simp only [Write.tree?_eq_none]
    constructor
    · rintro ⟨before, after, hwrites, hafter⟩
      exact ⟨before, after, hwrites, fun later hlater => hafter _ hlater later rfl⟩
    · rintro ⟨before, after, hwrites, hafter⟩
      refine ⟨before, after, hwrites, ?_⟩
      rintro _ hlater later rfl
      exact hafter later hlater
  compiled name tree := by
    rw [external?_foldl_write, external?_empty, Option.or_none,
      findSome?_reverse_eq_some fun _ => Write.template?_eq_compiled]
    simp only [Write.template?_eq_none]
  native name function := by
    rw [external?_foldl_write, external?_empty, Option.or_none,
      findSome?_reverse_eq_some fun _ => Write.template?_eq_native]
    simp only [Write.template?_eq_none]
  noInternal name := by
    rw [internal?_foldl_write, internal?_empty, Option.or_none, List.findSome?_eq_none_iff]
    simp only [List.mem_reverse, Write.tree?_eq_none]
    constructor
    · intro hwrites tree hmem
      exact hwrites _ hmem tree rfl
    · rintro hwrites _ hmem tree rfl
      exact hwrites tree hmem
  noExternal name := by
    rw [external?_foldl_write, external?_empty, Option.or_none, List.findSome?_eq_none_iff]
    simp only [List.mem_reverse, Write.template?_eq_none]

namespace LastWriterWins

variable {registry : Registry σ} {writes : List (Write σ)}

/-- Each internal name is defined. -/
theorem isDefined (h : registry.LastWriterWins writes) {name : String} (hname : registry.isInternal name = true) :
    registry.isDefined name = true := by
  obtain ⟨tree, htree⟩ := Option.isSome_iff_exists.mp hname
  obtain ⟨before, after, rfl, -⟩ := (h.internal name tree).mp htree
  rw [Registry.isDefined, Option.isSome_iff_ne_none]
  intro hnone
  exact (h.noExternal name).mp hnone (.define name tree) (by simp) rfl

end LastWriterWins

/-- Names are listed in the order of their bytes, each of them once. -/
theorem pairwise_names (registry : Registry σ) :
    registry.names.Pairwise fun name name' => utf8Bytes name < utf8Bytes name' := by
  apply registry.external.ordered_keys.imp
  intro name name' hlt
  exact utf8Bytes_lt (compareOfLessAndEq_eq_lt.mp hlt)

/-! ### What one write keeps -/

theorem isInternal_foldl_write {registry : Registry σ} {name : String} (h : registry.isInternal name = true)
    (writes : List (Write σ)) : (writes.foldl write registry).isInternal name = true := by
  rw [isInternal, internal?_foldl_write, Option.isSome_or]
  exact Bool.or_eq_true_iff.mpr (.inr h)

theorem isDefined_foldl_write {registry : Registry σ} {name : String} (h : registry.isDefined name = true)
    (writes : List (Write σ)) : (writes.foldl write registry).isDefined name = true := by
  rw [isDefined, external?_foldl_write, Option.isSome_or]
  exact Bool.or_eq_true_iff.mpr (.inr h)

/-- A name that is not written keeps its entries. -/
theorem foldl_write_of_name_ne {writes : List (Write σ)} {name : String} (h : ∀ write ∈ writes, write.name ≠ name)
    (registry : Registry σ) :
    (writes.foldl write registry).internal? name = registry.internal? name ∧
      (writes.foldl write registry).external? name = registry.external? name := by
  have hinternal : writes.reverse.findSome? (Write.tree? name) = none := by
    rw [List.findSome?_eq_none_iff]
    intro write hwrite
    rw [Write.tree?_eq_none]
    rintro tree rfl
    exact h _ (List.mem_reverse.mp hwrite) rfl
  have hexternal : writes.reverse.findSome? (Write.template? name) = none := by
    rw [List.findSome?_eq_none_iff]
    intro write hwrite
    exact Write.template?_eq_none.mpr (h write (List.mem_reverse.mp hwrite))
  rw [internal?_foldl_write, external?_foldl_write, hinternal, hexternal]
  exact ⟨rfl, rfl⟩

end Registry

/-! ## The main statement -/

theorem History.registry_lastWriterWins (history : History σ) :
    history.engine.registry.LastWriterWins history.writes := by
  rw [engine_registry]
  exact Registry.lastWriterWins_foldl_write history.writes

/-- **The tables of an engine follow the last write of each name.** Whatever edits led to an engine, its entries are
    told by what they have written. So each internal name is defined, and the names are listed in the order of their
    bytes and are exactly the defined ones. Another edit makes no name disappear from either table, and leaves the
    entries of each name that it does not write. -/
theorem History.lastWriterWins (history : History σ) :
    history.engine.registry.LastWriterWins history.writes ∧
    (∀ name, history.engine.registry.isInternal name = true → history.engine.registry.isDefined name = true) ∧
    history.engine.names.Pairwise (fun name name' => utf8Bytes name < utf8Bytes name') ∧
    (∀ name, name ∈ history.engine.names ↔ history.engine.registry.isDefined name = true) ∧
    ∀ edit,
      (∀ name, history.engine.registry.isInternal name = true →
        (history.extend edit).engine.registry.isInternal name = true) ∧
      (∀ name, history.engine.registry.isDefined name = true →
        (history.extend edit).engine.registry.isDefined name = true) ∧
      ∀ name, (∀ write ∈ history.engine.writes edit, write.name ≠ name) →
        (history.extend edit).engine.registry.internal? name = history.engine.registry.internal? name ∧
        (history.extend edit).engine.registry.external? name = history.engine.registry.external? name := by
  have hwins := history.registry_lastWriterWins
  refine ⟨hwins, fun _ => hwins.isDefined, Registry.pairwise_names _, fun _ => Registry.mem_names, fun edit => ?_⟩
  rw [engine_extend, Engine.perform_registry]
  exact ⟨fun _ hname => Registry.isInternal_foldl_write hname _, fun _ hname => Registry.isDefined_foldl_write hname _,
    fun _ hname => Registry.foldl_write_of_name_ne hname _⟩

end HtmlTemplate
