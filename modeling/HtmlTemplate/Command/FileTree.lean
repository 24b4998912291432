/-!
# File trees

The files that a command works on, as a value: what a path leads to, and what the tree is once a file has
been written.

## Contents

* `Entry` — what a path leads to;
* `FileTree` — files by their places, and the place from which relative paths start;
* `FileTree.isPath`, `FileTree.resolve?` — which paths lead anywhere, and where;
* `FileTree.find`, `FileTree.write?` — reading and writing.

What is written is found again (`entryAt_of_write?`), and no other file is touched (`lookup_of_write?`).
-/

namespace HtmlTemplate

namespace Command

/-- What a path leads to. -/
inductive Entry where
  | file (content : String)
  | directory
  | missing
deriving DecidableEq, Inhabited

/-- The names on the way from the root to a file or a directory. -/
abbrev Place : Type := List String

/-- Files by their places. A directory is there if it holds something or lies on the way to where relative
    paths start. -/
structure FileTree where
  files : List (Place × String)
  /-- Where relative paths start. -/
  current : Place
deriving DecidableEq, Inhabited

namespace FileTree

/-- The names in a path that is written with slashes. -/
def namesOf (path : String) : List String := (path.splitOn "/").filter (· ≠ "")

/-- A tree with files in the directory `current` and below it, by their paths from there. -/
def ofFiles (current : Place) (files : List (String × String)) : FileTree :=
  ⟨files.map fun (path, content) => (current ++ namesOf path, content), current⟩

/-- What is at a place. -/
def entryAt (tree : FileTree) (place : Place) : Entry :=
  match tree.files.lookup place with
  | some content => .file content
  | none =>
    if place.isPrefixOf tree.current || tree.files.any fun file => place.isPrefixOf file.1 then .directory
    else .missing

/-- The place that some names lead to from a place. All but the last name must be those of directories; two
    dots lead one directory up, one dot or nothing nowhere. -/
def follow? (tree : FileTree) : Place → List String → Option Place
  | place, [] => some place
  | place, name :: names =>
    if tree.entryAt place ≠ .directory then none
    else if name = "" ∨ name = "." then tree.follow? place names
    else if name = ".." then tree.follow? place.dropLast names
    else tree.follow? (place ++ [name]) names

/-- The greatest length of a path in bytes. -/
def maxPathSize : Nat := 4095

/-- The greatest length of a name in bytes. -/
def maxNameSize : Nat := 255

/-- Whether a path can lead anywhere: it and its names keep to the greatest lengths, and it has no NUL. -/
def isPath (path : String) : Bool :=
  path.utf8ByteSize ≤ maxPathSize && path.toList.all (· ≠ '\x00')
    && (namesOf path).all fun name => name.utf8ByteSize ≤ maxNameSize

/-- The place that a path leads to. A path that begins with a slash starts at the root. -/
def resolve? (tree : FileTree) (path : String) : Option Place :=
  if isPath path then
    match path.splitOn "/" with
    | "" :: names => tree.follow? [] names
    | names => tree.follow? tree.current names
  else none

/-- What a path leads to. -/
def find (tree : FileTree) (path : String) : Entry :=
  match tree.resolve? path with
  | some place => tree.entryAt place
  | none => .missing

/-- Writes a file, which replaces one that is there. Its directory must be there, and it must not be a
    directory itself. -/
def write? (tree : FileTree) (path content : String) : Option FileTree :=
  match tree.resolve? path with
  | none => none
  | some place =>
    if tree.entryAt place = .directory then none
    else some { tree with files := (place, content) :: tree.files.filter fun file => file.1 ≠ place }

/-- What has been written is found where it was written. -/
theorem entryAt_of_write? {tree written : FileTree} {path content : String} {place : Place}
    (hr : tree.resolve? path = some place) (hw : tree.write? path content = some written) :
    written.entryAt place = .file content := by
  simp only [write?, hr] at hw
  split at hw
  · cases hw
  · cases hw
    simp [entryAt]

/-- A file is still found when other places are dropped. -/
theorem lookup_filter_ne {place other : Place} (hne : other ≠ place) (files : List (Place × String)) :
    (files.filter fun file => file.1 ≠ place).lookup other = files.lookup other := by
  induction files with
  | nil => rfl
  | cons file files ih =>
    by_cases hf : file.1 = place
    · rw [List.filter_cons_of_neg (by simpa using hf), ih, List.lookup_cons, hf, beq_false_of_ne hne]
    · rw [List.filter_cons_of_pos (by simpa using hf), List.lookup_cons, List.lookup_cons, ih]

/-- Writing a file leaves the other files alone. -/
theorem lookup_of_write? {tree written : FileTree} {path content : String} {place other : Place}
    (hr : tree.resolve? path = some place) (hw : tree.write? path content = some written)
    (hne : other ≠ place) : written.files.lookup other = tree.files.lookup other := by
  simp only [write?, hr] at hw
  split at hw
  · cases hw
  · cases hw
    rw [List.lookup_cons, beq_false_of_ne hne]
    exact lookup_filter_ne hne tree.files

end FileTree

end Command

end HtmlTemplate
