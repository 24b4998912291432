import HtmlTemplate.Proofs.Command.Files

/-!
# Checking files and listing what they define

Files are checked each for itself, and the check goes on behind a fault. They are listed from one engine, into which
they are compiled up to the first fault. Still one command line succeeds if and only if the other does, since a file
that compiles in one engine compiles in every engine (`FileTree.check_iff_list`). And since a check keeps nothing from
file to file, the order of the files decides about the order of the reports only.

## Contents

* `Engine.exists_position_of_compile` — an error in a source has a line and a column;
* `Remark`, `check_eq` — what a check says of files that can be read;
* `check_eq_ok`, `list_eq_ok` — when the commands succeed;
* `filesOf_behind_dashes`, `Invocation.ofArguments_check`, `.ofArguments_list` — their command lines;
* `FileTree.check_iff_list` — the main statement.
-/

namespace HtmlTemplate

theorem Engine.exists_position_of_compile {σ : Type} {engine : Engine σ} {code fileName : String}
    {diagnostic : Diagnostic} (h : (engine.compile code fileName).2 = .error diagnostic) :
    ∃ position, diagnostic.position = some position := by
  rw [compile_eq engine code fileName rfl rfl] at h
  dsimp only at h
  split at h
  · cases h
  · rename_i cause hcause
    obtain ⟨place, horigin⟩ := exists_origin_of_firstError hcause
    cases h
    unfold Diagnostic.ofCause
    rw [horigin]
    exact ⟨_, rfl⟩

namespace Command

/-! ## Checks -/

/-- What a check says of a source: nothing if it is valid, and otherwise its name, what is wrong with it, and at which
    line and column. -/
inductive Remark (source : Source) : String → Prop where
  | valid (h : source.IsValid) : Remark source ""
  | faulty {diagnostic : Diagnostic} {line column : Nat}
    (h : ((Engine.new true : Engine Unit).compile source.code source.name).2 = .error diagnostic)
    (hposition : diagnostic.position = some ⟨line, column⟩) :
    Remark source ("Checking: " ++ source.name ++ "\n  Error: " ++ diagnostic.message ++ " at line " ++ line.repr ++
      ", column " ++ column.repr ++ "\n")

variable {look : String → Entry}

/-- **Files that can be read** are remarked upon one after the other, and all is well if they are all valid. -/
theorem check_eq {files : List String} {sources : List Source} (h : List.Forall₂ (ReadFrom look) files sources) :
    ∃ remarks result, List.Forall₂ Remark sources remarks ∧ check look files = (String.join remarks, result) ∧
      ((∀ source ∈ sources, source.IsValid) ∧ result = .ok () ∨
        (∃ source ∈ sources, ¬ source.IsValid) ∧ result = .error .syntaxErrors) := by
  induction h with
  | nil => exact ⟨[], .ok (), .nil, rfl, .inl ⟨by simp, rfl⟩⟩
  | @cons path source files sources hread _ ih =>
    obtain ⟨remarks, result, hremarks, hcheck, hresult⟩ := ih
    obtain ⟨rfl, hcode⟩ := hread
    rw [check, readFile_eq_ok.mpr hcode]
    dsimp only
    rcases hcompile : (Engine.new true : Engine Unit).compile source.code source.name with ⟨after, diagnostic | ⟨⟩⟩
    · have herror : ((Engine.new true : Engine Unit).compile source.code source.name).2 = .error diagnostic := by
        rw [hcompile]
      obtain ⟨⟨line, column⟩, hposition⟩ := Engine.exists_position_of_compile herror
      have hfaulty : ¬ source.IsValid := by
        unfold Source.IsValid
        rw [herror]
        nofun
      refine ⟨_, .error .syntaxErrors, .cons (.faulty herror hposition) hremarks, ?_,
        .inr ⟨⟨source, List.mem_cons_self, hfaulty⟩, rfl⟩⟩
      rw [hcheck, String.join_cons]
      unfold faultReport
      dsimp only
      rw [hposition]
      -- Whether or not there are faults further on, this one is reported.
      obtain ⟨-, rfl⟩ | ⟨-, rfl⟩ := hresult <;> rfl
    · have hvalid : source.IsValid := by
        unfold Source.IsValid
        rw [hcompile]
      refine ⟨"" :: remarks, result, .cons (.valid hvalid) hremarks, ?_, ?_⟩
      · rw [String.join_cons, String.empty_append]
        exact hcheck
      · obtain ⟨hvalids, hok⟩ | ⟨⟨other, hmem, hfaulty⟩, herror⟩ := hresult
        · exact .inl ⟨List.forall_mem_cons.mpr ⟨hvalid, hvalids⟩, hok⟩
        · exact .inr ⟨⟨other, List.mem_cons_of_mem _ hmem, hfaulty⟩, herror⟩

/-! ## When both succeed -/

/-- Sources that are read and valid can be chosen file by file. -/
theorem exists_valid_iff {files : List String} :
    (∃ sources, List.Forall₂ (ReadFrom look) files sources ∧ ∀ source ∈ sources, source.IsValid) ↔
      ∀ path ∈ files, ∃ source, ReadFrom look path source ∧ source.IsValid := by
  induction files with
  | nil => exact ⟨fun _ => by simp, fun _ => ⟨[], .nil, by simp⟩⟩
  | cons path files ih =>
    rw [List.forall_mem_cons, ← ih]
    constructor
    · rintro ⟨_, ⟨⟩ | ⟨hread, hreads⟩, hvalids⟩
      obtain ⟨hvalid, hvalids⟩ := List.forall_mem_cons.mp hvalids
      exact ⟨⟨_, hread, hvalid⟩, _, hreads, hvalids⟩
    · rintro ⟨⟨source, hread, hvalid⟩, sources, hreads, hvalids⟩
      exact ⟨source :: sources, .cons hread hreads, List.forall_mem_cons.mpr ⟨hvalid, hvalids⟩⟩

theorem list_eq_ok {optimize : Bool} {files : List String} :
    (∃ text, list look optimize files = .ok text) ↔
      ∀ path ∈ files, ∃ source, ReadFrom look path source ∧ source.IsValid := by
  rw [← exists_valid_iff]
  unfold list
  constructor
  · rintro ⟨text, h⟩
    obtain ⟨engine, hcompile, -⟩ := exists_of_bind h
    obtain ⟨sources, hreads, hvalids, -⟩ := compileFiles_eq_ok.mp hcompile
    exact ⟨sources, hreads, hvalids⟩
  · rintro ⟨sources, hreads, hvalids⟩
    rw [compileFiles_eq_ok.mpr ⟨sources, hreads, hvalids, rfl⟩]
    exact ⟨_, rfl⟩

/-- A check that succeeds has read every file. -/
theorem exists_readFrom_of_check {files : List String} (h : (check look files).2 = .ok ()) :
    ∃ sources, List.Forall₂ (ReadFrom look) files sources := by
  induction files with
  | nil => exact ⟨[], .nil⟩
  | cons path files ih =>
    rw [check] at h
    cases hread : look path with
    | missing | directory =>
      unfold readFile at h
      rw [hread] at h
      cases h
    | file code =>
      rw [readFile_eq_ok.mpr hread] at h
      dsimp only at h
      rcases hcompile : (Engine.new true : Engine Unit).compile code path with ⟨after, diagnostic | ⟨⟩⟩
      · rw [hcompile] at h
        dsimp only at h
        split at h <;> cases h
      · rw [hcompile] at h
        obtain ⟨sources, hreads⟩ := ih h
        exact ⟨⟨path, code⟩ :: sources, .cons ⟨rfl, hread⟩ hreads⟩

theorem check_eq_ok {files : List String} :
    (check look files).2 = .ok () ↔ ∀ path ∈ files, ∃ source, ReadFrom look path source ∧ source.IsValid := by
  rw [← exists_valid_iff]
  constructor
  · intro h
    obtain ⟨sources, hreads⟩ := exists_readFrom_of_check h
    obtain ⟨remarks, result, -, hcheck, ⟨hvalids, -⟩ | ⟨-, hresult⟩⟩ := check_eq hreads
    · exact ⟨sources, hreads, hvalids⟩
    · rw [hcheck, hresult] at h
      cases h
  · rintro ⟨sources, hreads, hvalids⟩
    obtain ⟨remarks, result, -, hcheck, ⟨-, hresult⟩ | ⟨⟨source, hmem, hfaulty⟩, -⟩⟩ := check_eq hreads
    · rw [hcheck, hresult]
    · exact absurd (hvalids source hmem) hfaulty

/-- Where all files can be read, the verdict does not depend on their order. -/
theorem check_of_perm {files files' : List String} (h : files.Perm files') {sources : List Source}
    (hreads : List.Forall₂ (ReadFrom look) files sources) : (check look files).2 = (check look files').2 := by
  have hok : (check look files).2 = .ok () ↔ (check look files').2 = .ok () := by
    rw [check_eq_ok, check_eq_ok]
    exact forall_congr' fun path => by rw [h.mem_iff]
  -- What can go wrong apart from errors in the files is that one cannot be read, and all of them can.
  obtain ⟨sources', hreads', -⟩ : Relation.Comp (List.Forall₂ (ReadFrom look)) List.Perm files' sources :=
    List.perm_comp_forall₂ h.symm hreads
  obtain ⟨_, result, -, hcheck, hresult⟩ := check_eq hreads
  obtain ⟨_, result', -, hcheck', hresult'⟩ := check_eq hreads'
  rw [hcheck, hcheck'] at hok ⊢
  obtain ⟨-, rfl⟩ | ⟨-, rfl⟩ := hresult
  · exact (hok.mp rfl).symm
  · obtain ⟨-, rfl⟩ | ⟨-, rfl⟩ := hresult'
    · exact hok.mpr rfl
    · rfl

/-! ## Command lines -/

theorem Progress.foldlM_file (options : Options) (paths files : List String) (wantsMore : Bool) :
    ∃ more, files.foldlM Progress.file ⟨options, some (.files, paths), wantsMore⟩ =
      .ok ⟨options, some (.files, paths ++ files), more⟩ := by
  induction files generalizing paths wantsMore with
  | nil => exact ⟨wantsMore, by simp [pure, Except.pure]⟩
  | cons path files ih =>
    obtain ⟨more, hmore⟩ := ih (paths ++ [path]) true
    rw [List.append_assoc, List.singleton_append] at hmore
    exact ⟨more, hmore⟩

/-- Every list of files can be given, if each of them has a name. -/
theorem filesOf_behind_dashes (files : List String) :
    filesOf ("--" :: files) = if files.any String.isEmpty then .error .invalidValue else .ok files := by
  cases files with
  | nil => rfl
  | cons path files =>
    obtain ⟨more, hmore⟩ := Progress.foldlM_file .none [path] files true
    have htake : Progress.start.takeAll .filesOnly ("--" :: path :: files) =
        .ok (⟨.none, some (.files, path :: files), more⟩, none) := by
      rw [Progress.takeAll]
      change (do return (← files.foldlM Progress.file ⟨.none, some (.files, [path]), true⟩, none)) = _
      rw [hmore]
      rfl
    unfold filesOf
    rw [htake]
    change (Options.none.addFiles (path :: files)).map _ = _
    unfold Options.addFiles
    split <;> rfl

theorem Invocation.ofArguments_check (texts : List String) :
    Invocation.ofArguments ("check" :: texts) = (filesOf texts).map Invocation.check := by
  unfold ofArguments
  rw [show Progress.start.takeAll .program ("check" :: texts) = .ok (.start, some (.check, texts)) from rfl]
  dsimp only [bind, Except.bind]
  cases filesOf texts <;> rfl

theorem Invocation.ofArguments_list (texts : List String) :
    Invocation.ofArguments ("list" :: texts) = (filesOf texts).map (Invocation.list .none) := by
  unfold ofArguments
  rw [show Progress.start.takeAll .program ("list" :: texts) = .ok (.start, some (.list, texts)) from rfl]
  dsimp only [bind, Except.bind]
  cases filesOf texts <;> rfl

namespace FileTree

theorem run_check (tree : FileTree) (depth : Nat) (texts : List String) :
    tree.run depth ("check" :: texts) =
      match filesOf texts with
      | .error refusal => ("", .error (.refused refusal), tree)
      | .ok files => ((check tree.find files).1, (check tree.find files).2, tree) := by
  unfold run
  rw [Invocation.ofArguments_check]
  cases filesOf texts <;> rfl

theorem run_list (tree : FileTree) (depth : Nat) (texts : List String) :
    tree.run depth ("list" :: texts) =
      match filesOf texts with
      | .error refusal => ("", .error (.refused refusal), tree)
      | .ok files =>
        match list tree.find true files with
        | .error failure => ("", .error failure, tree)
        | .ok text => (text, .ok (), tree) := by
  unfold run
  rw [Invocation.ofArguments_list]
  cases filesOf texts with
  | error refusal => rfl
  | ok files =>
    dsimp only [Except.map, Invocation.perform]
    rw [show (!Options.none.noOptimize) = true from rfl]
    cases list tree.find true files <;> rfl

/-- **A check succeeds if and only if a listing of the same files does.** If all files can be read, then the check
    prints what is wrong with each of them, one after the other, and succeeds if they are all valid. So its verdict is
    the same for the same files in a different order. -/
theorem check_iff_list (tree : FileTree) (depth : Nat) (texts : List String) :
    let checked := tree.run depth ("check" :: texts)
    let listed := tree.run depth ("list" :: texts)
    (checked.2.1 = .ok () ↔ listed.2.1 = .ok ()) ∧
    ∀ files sources, filesOf texts = .ok files → List.Forall₂ (ReadFrom tree.find) files sources →
      (∃ remarks, List.Forall₂ Remark sources remarks ∧ checked.1 = String.join remarks) ∧
      (checked.2.1 = .ok () ↔ ∀ source ∈ sources, source.IsValid) ∧
      ∀ texts' files', filesOf texts' = .ok files' → files.Perm files' →
        (tree.run depth ("check" :: texts')).2.1 = checked.2.1 := by
  intro checked listed
  constructor
  · unfold checked listed
    rw [run_check, run_list]
    cases filesOf texts with
    | error refusal => constructor <;> nofun
    | ok files =>
      dsimp only
      rw [check_eq_ok, ← list_eq_ok]
      cases list tree.find true files with
      | error failure => constructor <;> nofun
      | ok text => exact ⟨fun _ => rfl, fun _ => ⟨text, rfl⟩⟩
  · intro files sources hfiles hreads
    have hchecked : checked = ((check tree.find files).1, (check tree.find files).2, tree) := by
      unfold checked
      rw [run_check, hfiles]
    obtain ⟨remarks, result, hremarks, hcheck, hresult⟩ := check_eq hreads
    rw [hchecked, hcheck]
    refine ⟨⟨remarks, hremarks, rfl⟩, ?_, ?_⟩
    · obtain ⟨hvalids, rfl⟩ | ⟨⟨source, hmem, hfaulty⟩, rfl⟩ := hresult
      · exact ⟨fun _ => hvalids, fun _ => rfl⟩
      · exact ⟨nofun, fun hvalids => absurd (hvalids source hmem) hfaulty⟩
    · intro texts' files' hfiles' hperm
      rw [run_check, hfiles']
      dsimp only
      rw [← check_of_perm hperm hreads, hcheck]

/-- A file with an error stands twice on the line, around one in which nothing is wrong but that the template that it
    calls is missing. -/
theorem check_iff_list_twice :
    let tree : FileTree := ⟨[(["a"], "def a \x7b c() \x7d"), (["b"], "def b d")], []⟩
    let fault := "Checking: b\n  Error: Unexpected token `d` at line 1, column 7\n"
    let checked := tree.run 0 ["check", "--", "b", "a", "b"]
    checked.1 = fault ++ fault ∧ checked.2.1 ≠ .ok () ∧ (tree.run 0 ["list", "--", "b", "a", "b"]).2.1 ≠ .ok () ∧
      (tree.run 0 ["check", "--", "a", "b", "b"]).2.1 = checked.2.1 := by
  intro tree fault checked
  have hvalid : Source.IsValid ⟨"a", "def a \x7b c() \x7d"⟩ := by
    unfold Source.IsValid
    cbv
  have hfaulty : ((Engine.new true : Engine Unit).compile "def b d" "b").2 = .error ⟨.parse (.fault .unexpectedToken
      ⟨.ident "d", ⟨⟨1, 7⟩, ⟨1, 8⟩⟩, 0⟩), some "b", "def b d", ⟨6, 1⟩, some ⟨1, 7⟩⟩ := by
    cbv
  have hinvalid : ¬ Source.IsValid ⟨"b", "def b d"⟩ := by
    unfold Source.IsValid
    rw [hfaulty]
    intro h
    cases h
  have hnothing : ∀ remark, Remark ⟨"a", "def a \x7b c() \x7d"⟩ remark → remark = "" := by
    rintro remark (_ | ⟨h, -⟩)
    · rfl
    · cases hvalid.symm.trans h
  have hfault : ∀ remark, Remark ⟨"b", "def b d"⟩ remark → remark = fault := by
    rintro remark (h | ⟨h, hposition⟩)
    · exact absurd h hinvalid
    · cases hfaulty.symm.trans h
      cases hposition
      rfl
  have ha : ReadFrom tree.find "a" ⟨"a", "def a \x7b c() \x7d"⟩ := ⟨rfl, by cbv⟩
  have hb : ReadFrom tree.find "b" ⟨"b", "def b d"⟩ := ⟨rfl, by cbv⟩
  obtain ⟨hlist, hreadable⟩ := check_iff_list tree 0 ["--", "b", "a", "b"]
  obtain ⟨⟨remarks, hremarks, hprinted⟩, hok, horder⟩ := hreadable _ _ (filesOf_behind_dashes ["b", "a", "b"])
    (.cons hb (.cons ha (.cons hb .nil)))
  have hfails : checked.2.1 ≠ .ok () := fun h => hinvalid (hok.mp h _ List.mem_cons_self)
  refine ⟨?_, hfails, fun h => hfails (hlist.mpr h), ?_⟩
  · obtain _ | ⟨hfirst, _ | ⟨hsecond, _ | ⟨hthird, ⟨⟩⟩⟩⟩ := hremarks
    refine hprinted.trans ?_
    rw [hfault _ hfirst, hnothing _ hsecond, hfault _ hthird]
    rfl
  · exact horder _ _ (filesOf_behind_dashes ["a", "b", "b"]) (.swap "a" "b" ["b"])

end FileTree

end Command

end HtmlTemplate
