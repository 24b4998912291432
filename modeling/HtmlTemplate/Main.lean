import HtmlTemplate.Command.Run

/-!
# The program

Reads the files that a command line names, carries the command out, and writes what comes of it. What goes
wrong is told on the standard error stream.
-/

namespace HtmlTemplate

namespace Command

/-- How the program is used. -/
def usage : String := String.join ([
  "Compiles HTML templates and renders them.",
  "",
  "  [OPTIONS] [FILES]...     render a template",
  "  check [FILES]...         check syntax errors in template files",
  "  list [FILES]...          list the templates defined by the files",
  "",
  "Options:",
  "  -t, --template NAME      name of the template to render",
  "  -p, --params FILE        load render parameters from a JSON file",
  "      --arg NAME VALUE     set a string parameter, overriding the parameters file",
  "      --no-optimize        compile templates without flattening their bodies",
  "  -o, --output FILE        output to the specified file",
  "  -v, --verbose            accepted and ignored",
  "  -h, --help               print help",
  "  -V, --version            print version"].map (· ++ "\n"))

/-- How deep calls of templates may nest. -/
def maxDepth : Nat := 10000

/-- What a path leads to. What is there and cannot be read counts as a directory. -/
def look (path : String) : IO Entry := do
  try
    return .file (← IO.FS.readFile path)
  catch
    | .noFileOrDirectory .. | .invalidArgument .. => return .missing
    | _ =>
      try
        let _ ← IO.FS.realPath path
        return .directory
      catch _ => return .missing

/-- What is wrong with a command line. -/
def Refusal.explain : Refusal → String
  | help => usage
  | version => HtmlTemplate.version ++ "\n"
  | argumentConflict => "an option was given more than once\n"
  | invalidSubcommand => "there is no such command\n"
  | invalidValue => "an option lacks its value, or a file its name\n"
  | tooManyValues => "a flag was given a value\n"
  | unknownArgument => "there is no such option\n"
  | wrongNumberOfValues => "an option was given the wrong number of values\n"

/-- Tells where a fault in a template is. -/
def place (diagnostic : Diagnostic) : String :=
  match diagnostic.fileName, diagnostic.position with
  | some file, some position => file ++ ":" ++ position.line.repr ++ ":" ++ position.column.repr ++ ": "
  | _, _ => ""

/-- What went wrong, in a line or two. -/
def Failure.explain : Failure → String
  | template diagnostic =>
    place diagnostic ++ diagnostic.message ++ "\n" ++ (diagnostic.cause.help.map (· ++ "\n")).getD ""
  | refused refusal => refusal.explain
  | unreadable path => "cannot read " ++ path ++ "\n"
  | malformedParams path => "not a JSON document: " ++ path ++ "\n"
  | unwritable path => "cannot write " ++ path ++ "\n"
  | tooDeep => "templates call each other too deeply\n"
  | failure => failure.message.getD "" ++ "\n"

/-- Writes a report out and answers with the exit code of the program. -/
def Report.deliver (report : Report) : IO UInt32 := do
  IO.print report.printed
  match report.result with
  | .error failure => do
    IO.eprint failure.explain
    return 1
  | .ok () =>
    match report.written with
    | none => return 0
    | some (path, content) =>
      try
        IO.FS.writeFile path content
        return 0
      catch _ => do
        IO.eprint (Failure.unwritable path).explain
        return 1

end Command

end HtmlTemplate

open HtmlTemplate.Command in
/-- Runs a command line. Wishes for help and for the version are met on the standard output. -/
def main (texts : List String) : IO UInt32 := do
  match Invocation.ofArguments texts with
  | .error refusal =>
    if refusal = .help ∨ refusal = .version then
      IO.print refusal.explain
      return 0
    else
      IO.eprint refusal.explain
      return 2
  | .ok invocation =>
    let entries ← invocation.reads.mapM fun path => return (path, ← look path)
    (invocation.perform (fun path => (entries.lookup path).getD .missing) maxDepth).deliver
