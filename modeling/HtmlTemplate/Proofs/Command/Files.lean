import HtmlTemplate.Command.Run
import HtmlTemplate.Proofs.Session.Validity

/-!
# Files that are compiled

The files on a command line are compiled one after the other, and the first one that cannot be read or compiled ends
this. Whether a file compiles does not depend on those in front of it. So all of them compile in one engine if and only
if each of them does in an engine of its own (`compileFiles_eq_ok`).

## Contents

* `Source.IsValid` — sources that compile, no matter in which engine;
* `ReadFrom` — what is read from a file;
* `compileFile` — compiling one more file;
* `compileFiles_eq_ok` — what comes of compiling files, and when it succeeds.
-/

namespace HtmlTemplate

/-- The source compiles in an engine of its own. -/
def Source.IsValid (source : Source) : Prop :=
  ((Engine.new true : Engine Unit).compile source.code source.name).2 = .ok ()

/-- It is all the same in which engine a source is compiled. -/
theorem Source.isValid_iff {σ : Type} (source : Source) (engine : Engine σ) :
    source.IsValid ↔ (engine.compile source.code source.name).2 = .ok () := by
  have halike := (Engine.new true : Engine Unit).compile_snd_alike engine source.code source.name
  unfold IsValid
  generalize ((Engine.new true : Engine Unit).compile source.code source.name).2 = result,
    (engine.compile source.code source.name).2 = result' at halike
  cases halike with
  | ok => exact ⟨fun _ => rfl, fun _ => rfl⟩
  | error _ _ => constructor <;> nofun

namespace Command

/-- What succeeds step by step succeeds at each step. -/
theorem exists_of_bind {α β : Type} {action : Except Failure α} {next : α → Except Failure β} {result : β}
    (h : (action >>= next) = .ok result) : ∃ value, action = .ok value ∧ next value = .ok result := by
  cases action with
  | error failure => cases h
  | ok value => exact ⟨value, rfl, h⟩

/-- The source that is read when a file is compiled. It goes by the name by which the file is called. -/
structure ReadFrom (look : String → Entry) (path : String) (source : Source) : Prop where
  name : source.name = path
  code : look path = .file source.code

variable {look : String → Entry}

theorem readFile_eq_ok {path code : String} : readFile look path = .ok code ↔ look path = .file code := by
  unfold readFile
  cases look path <;> simp

/-- Compiles one more file. -/
def compileFile (look : String → Entry) (engine : Engine Unit) (path : String) : Except Failure (Engine Unit) := do
  let code ← readFile look path
  match engine.compile code path with
  | (engine, .ok ()) => return engine
  | (_, .error diagnostic) => .error (.template diagnostic)

theorem compileFiles_eq (look : String → Entry) (optimize : Bool) (files : List String) :
    compileFiles look optimize files = files.foldlM (compileFile look) (.new optimize) := rfl

theorem compileFile_of_code {path code : String} (h : look path = .file code) (engine : Engine Unit) :
    compileFile look engine path =
      ((engine.compile code path).2.mapError Failure.template).map fun () => (engine.compile code path).1 := by
  unfold compileFile
  rw [readFile_eq_ok.mpr h]
  dsimp only [bind, Except.bind]
  rcases engine.compile code path with ⟨after, diagnostic | ⟨⟩⟩ <;> rfl

theorem compileFile_eq_ok {engine after : Engine Unit} {path : String} :
    compileFile look engine path = .ok after ↔
      ∃ source, ReadFrom look path source ∧ source.IsValid ∧ after = (engine.compile source.code source.name).1 := by
  constructor
  · intro h
    obtain ⟨code, hread, -⟩ := exists_of_bind h
    have hcode := readFile_eq_ok.mp hread
    rw [compileFile_of_code hcode] at h
    cases hcompile : (engine.compile code path).2 with
    | error diagnostic =>
      rw [hcompile] at h
      cases h
    | ok =>
      rw [hcompile] at h
      cases h
      exact ⟨⟨path, code⟩, ⟨rfl, hcode⟩, (Source.isValid_iff _ engine).mpr hcompile, rfl⟩
  · rintro ⟨source, ⟨rfl, hcode⟩, hvalid, rfl⟩
    rw [source.isValid_iff engine] at hvalid
    rw [compileFile_of_code hcode, hvalid]
    rfl

/-- **Files are compiled** as the sources in them are, and this succeeds if each of the sources is valid. -/
theorem foldlM_compileFile_eq_ok {engine after : Engine Unit} {files : List String} :
    files.foldlM (compileFile look) engine = .ok after ↔
      ∃ sources, List.Forall₂ (ReadFrom look) files sources ∧ (∀ source ∈ sources, source.IsValid) ∧
        after = engine.compileEach sources := by
  induction files generalizing engine with
  | nil =>
    constructor
    · rintro ⟨⟩
      exact ⟨[], .nil, by simp, rfl⟩
    · rintro ⟨_, ⟨⟩, -, rfl⟩
      rfl
  | cons path files ih =>
    rw [List.foldlM_cons]
    constructor
    · intro h
      obtain ⟨next, hfirst, hmore⟩ := exists_of_bind h
      obtain ⟨source, hread, hvalid, rfl⟩ := compileFile_eq_ok.mp hfirst
      obtain ⟨sources, hreads, hvalids, rfl⟩ := ih.mp hmore
      exact ⟨source :: sources, .cons hread hreads, List.forall_mem_cons.mpr ⟨hvalid, hvalids⟩, rfl⟩
    · rintro ⟨_, ⟨⟩ | ⟨hread, hreads⟩, hvalids, rfl⟩
      obtain ⟨hvalid, hvalids⟩ := List.forall_mem_cons.mp hvalids
      rw [compileFile_eq_ok.mpr ⟨_, hread, hvalid, rfl⟩]
      exact ih.mpr ⟨_, hreads, hvalids, rfl⟩

theorem compileFiles_eq_ok {optimize : Bool} {files : List String} {engine : Engine Unit} :
    compileFiles look optimize files = .ok engine ↔
      ∃ sources, List.Forall₂ (ReadFrom look) files sources ∧ (∀ source ∈ sources, source.IsValid) ∧
        engine = (Engine.new optimize).compileEach sources := by
  rw [compileFiles_eq]
  exact foldlM_compileFile_eq_ok

end Command

end HtmlTemplate
