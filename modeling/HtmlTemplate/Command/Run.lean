import HtmlTemplate.Command.Arguments
import HtmlTemplate.Command.FileTree
import HtmlTemplate.Engine
import HtmlTemplate.Json.Read
import HtmlTemplate.Value.OfJson

/-!
# Running a command

What a command line prints and writes, given what the paths on it lead to. Nothing is written before
everything else has succeeded.

## Contents

* `Failure` — what can go wrong, with its `message`;
* `render`, `check`, `list` — the commands;
* `Report`, `Invocation.perform` — what a command prints, and what it asks to have written;
* `FileTree.run` — a command line run in a file tree.
-/

namespace HtmlTemplate

namespace Command

/-! ## Failures -/

/-- Why a command did not succeed. -/
inductive Failure where
  | refused (refusal : Refusal)
  | noTemplate
  | noFiles
  | fileNotFound (path : String)
  /-- What a path leads to cannot be read. -/
  | unreadable (path : String)
  /-- A file with parameters does not hold JSON. -/
  | malformedParams (path : String)
  /-- A file with parameters holds JSON that is no object. -/
  | paramsNotObject (path : String)
  /-- A template file or the template in it is faulty. -/
  | template (diagnostic : Diagnostic)
  /-- The template to render is none of those there are. -/
  | undefined (name : String) (available : List String)
  /-- Templates call each other more deeply than was allowed. -/
  | tooDeep
  /-- Some of the checked files have errors, which have been reported. -/
  | syntaxErrors
  | unwritable (path : String)
deriving DecidableEq, Inhabited

namespace Failure

/-- The reason as the program puts it, where the words are its own. -/
def message : Failure → Option String
  | noTemplate => some "No template specified. Use --template NAME"
  | noFiles => some "No template files specified"
  | fileNotFound path => some ("File not found: " ++ path)
  | paramsNotObject path => some ("Parameters file must contain a JSON object: " ++ path)
  | undefined name available =>
    some ("Template '" ++ name ++ "' is not defined. Available: " ++ ", ".intercalate available)
  | syntaxErrors => some "Syntax errors found in template files"
  | template diagnostic => some diagnostic.message
  | refused _ | unreadable _ | malformedParams _ | tooDeep | unwritable _ => none

end Failure

/-! ## Files -/

/-- The text of a file. -/
def readFile (look : String → Entry) (path : String) : Except Failure String :=
  match look path with
  | .file content => .ok content
  | .directory => .error (.unreadable path)
  | .missing => .error (.fileNotFound path)

/-- Compiles one file after the other into one engine. Messages name a file as it was written. -/
def compileFiles (look : String → Entry) (optimize : Bool) (files : List String) :
    Except Failure (Engine Unit) :=
  files.foldlM (fun engine path => do
    let code ← readFile look path
    match engine.compile code path with
    | (engine, .ok ()) => return engine
    | (_, .error diagnostic) => .error (.template diagnostic)) (.new optimize)

/-- The parameters: those of the file, if there is one, and those of the command line, which come later and
    so count more. -/
def readParams (look : String → Entry) (options : Options) : Except Failure Value := do
  let members ← match options.params with
    | none => pure []
    | some path => do
      match Json.ofString? (← readFile look path) with
      | none => .error (.malformedParams path)
      | some (.object members) => pure members
      | some _ => .error (.paramsNotObject path)
  return .ofJson (.object (members ++ options.args.map fun (name, value) => (name, .string value)))

/-! ## Commands -/

/-- The text of the template that the options ask for. Calls may nest as deep as `depth`. -/
def render (look : String → Entry) (depth : Nat) (options : Options) : Except Failure String := do
  let some name := options.template | .error .noTemplate
  if options.files.isEmpty then .error .noFiles
  let engine ← compileFiles look (!options.noOptimize) options.files
  let params ← readParams look options
  if !engine.registry.isDefined name then .error (.undefined name engine.names)
  match (engine.render depth name params ()).1 with
  | .ok html => return html
  | .error (.error diagnostic) => .error (.template diagnostic)
  | .error .tooDeep => .error .tooDeep

/-- What is said about a file with an error. -/
def faultReport (path : String) (diagnostic : Diagnostic) : String :=
  let (line, column) := match diagnostic.position with
    | some position => (position.line, position.column)
    | none => (0, 0)
  "Checking: " ++ path ++ "\n  Error: " ++ diagnostic.message ++ " at line " ++ line.repr ++ ", column "
    ++ column.repr ++ "\n"

/-- Checks files, each for itself, and reports the first error in each. A file that cannot be read ends the
    check. -/
def check (look : String → Entry) : List String → String × Except Failure Unit
  | [] => ("", .ok ())
  | path :: paths =>
    match readFile look path with
    | .error failure => ("", .error failure)
    | .ok code =>
      match (Engine.new true : Engine Unit).compile code path with
      | (_, .ok ()) => check look paths
      | (_, .error diagnostic) =>
        -- A file that cannot be read weighs more than errors in those that can.
        let (report, result) := check look paths
        (faultReport path diagnostic ++ report,
          match result with
          | .ok () => .error .syntaxErrors
          | .error failure => .error failure)

/-- The names of the templates that files define, a line each. -/
def list (look : String → Entry) (optimize : Bool) (files : List String) : Except Failure String := do
  let engine ← compileFiles look optimize files
  return String.join (engine.names.map fun name => name ++ "\n")

/-! ## Reports -/

/-- What becomes of a command. -/
structure Report where
  /-- What it prints. -/
  printed : String
  /-- The file to write, and what to write into it. -/
  written : Option (String × String)
  result : Except Failure Unit
deriving Inhabited

namespace Report

/-- A report on a command that prints its result, if it has one. -/
def ofPrinted : Except Failure String → Report
  | .ok text => ⟨text, none, .ok ()⟩
  | .error failure => ⟨"", none, .error failure⟩

end Report

/-- Carries an invocation out as far as that is possible without writing. A rendered text ends with a line
    end of its own. -/
def Invocation.perform (look : String → Entry) (depth : Nat) : Invocation → Report
  | .render options =>
    match Command.render look depth options, options.output with
    | .ok html, some path => ⟨"", some (path, html ++ "\n"), .ok ()⟩
    | .ok html, none => .ofPrinted (.ok (html ++ "\n"))
    | .error failure, _ => .ofPrinted (.error failure)
  | .check files =>
    let (printed, result) := Command.check look files
    ⟨printed, none, result⟩
  | .list options files => .ofPrinted (Command.list look (!options.noOptimize) files)

/-- The files that carrying an invocation out may look at. -/
def Invocation.reads : Invocation → List String
  | .render options => options.files ++ options.params.toList
  | .check files | .list _ files => files

/-- Runs a command line in a file tree: what is printed, how it ends, and the tree that it leaves. -/
def FileTree.run (tree : FileTree) (depth : Nat) (texts : List String) :
    String × Except Failure Unit × FileTree :=
  match Invocation.ofArguments texts with
  | .error refusal => ("", .error (.refused refusal), tree)
  | .ok invocation =>
    let report := invocation.perform tree.find depth
    match report.written with
    | none => (report.printed, report.result, tree)
    | some (path, content) =>
      match tree.write? path content with
      | some tree => (report.printed, report.result, tree)
      | none => (report.printed, .error (.unwritable path), tree)

end Command

end HtmlTemplate
