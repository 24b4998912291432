/-!
# Command lines

What the words of a command line ask for. An option that takes a value may have it attached
(`--template=page`, `-tpage`, `-t=page`) or in the words behind it; flags of one letter may share a word;
behind `--` every word names a file.

The values of an option are looked at when the next option, flag or file begins, or the line ends. So of two
faults the earlier one is reported, but an unknown option before a fault that has not been looked at.

## Contents

* `Options`, `Invocation` — what a command line asks for;
* `Refusal` — why it asks for nothing that can be done;
* `Grammar` — the options that a command knows;
* `Progress` — the words read so far;
* `Invocation.ofArguments` — the invocation that a command line stands for.
-/

namespace HtmlTemplate

namespace Command

/-! ## What can be asked for -/

/-- The options of a command line. -/
structure Options where
  /-- The template to render. -/
  template : Option String
  /-- The file with the parameters. -/
  params : Option String
  /-- Parameters given on the command line itself, by name. -/
  args : List (String × String)
  /-- Whether trees stay as they were written. -/
  noOptimize : Bool
  /-- The file to write to. -/
  output : Option String
  verbose : Bool
  /-- The template files, in the order in which they are compiled. -/
  files : List String
deriving DecidableEq, Inhabited

/-- No option and no file. -/
def Options.none : Options := ⟨.none, .none, [], false, .none, false, []⟩

/-- What a command line asks for: to render a template, to check files for syntax errors, or to list the
    templates that files define. -/
inductive Invocation where
  | render (options : Options)
  | check (files : List String)
  | list (options : Options) (files : List String)
deriving DecidableEq, Inhabited

/-- Why a command line is not carried out. -/
inductive Refusal where
  /-- It asks how the program is used. -/
  | help
  /-- It asks for the version. -/
  | version
  /-- An option stands twice that may stand once. -/
  | argumentConflict
  /-- Help is wanted on a command that there is not. -/
  | invalidSubcommand
  /-- An option has no value, or a file no name. -/
  | invalidValue
  /-- A flag has a value. -/
  | tooManyValues
  | unknownArgument
  /-- An option has more or fewer values than it needs. -/
  | wrongNumberOfValues
deriving DecidableEq, Inhabited

/-! ## Grammars -/

/-- An option without a value. -/
inductive Flag where
  | noOptimize
  | verbose
  | help
  | version
deriving DecidableEq, Inhabited

/-- An option with values. -/
inductive Setting where
  | template
  | params
  | arg
  | output
deriving DecidableEq, Inhabited

/-- An option. -/
inductive Switch where
  | flag (flag : Flag)
  | setting (setting : Setting)
deriving DecidableEq, Inhabited

/-- A word that makes the rest of the line a command of its own. -/
inductive Subcommand where
  | check
  | list
  | help
deriving DecidableEq, Inhabited

/-- The options and commands that may stand on a line, by their names and letters. -/
structure Grammar where
  long? : String → Option Switch
  short? : Char → Option Switch
  subcommand? : String → Option Subcommand

namespace Grammar

/-- What the program understands. -/
def program : Grammar where
  long?
    | "template" => some (.setting .template)
    | "params" => some (.setting .params)
    | "arg" => some (.setting .arg)
    | "output" => some (.setting .output)
    | "no-optimize" => some (.flag .noOptimize)
    | "verbose" => some (.flag .verbose)
    | "help" => some (.flag .help)
    | "version" => some (.flag .version)
    | _ => none
  short?
    | 't' => some (.setting .template)
    | 'p' => some (.setting .params)
    | 'o' => some (.setting .output)
    | 'v' => some (.flag .verbose)
    | 'h' => some (.flag .help)
    | 'V' => some (.flag .version)
    | _ => none
  subcommand?
    | "check" => some .check
    | "list" => some .list
    | "help" => some .help
    | _ => none

/-- What a command that takes nothing but files understands. -/
def filesOnly : Grammar where
  long?
    | "help" => some (.flag .help)
    | _ => none
  short?
    | 'h' => some (.flag .help)
    | _ => none
  subcommand? _ := none

end Grammar

/-! ## Words read so far -/

/-- What values belong to. -/
inductive Target where
  | setting (setting : Setting)
  | files
deriving DecidableEq, Inhabited

namespace Setting

/-- How many values an option has. -/
def arity : Setting → Nat
  | arg => 2
  | template | params | output => 1

end Setting

namespace Options

/-- Gives an option its values. -/
def assign (options : Options) (setting : Setting) (values : List String) : Except Refusal Options :=
  match setting, values with
  | _, [] => .error .invalidValue
  | .arg, [name, value] => .ok { options with args := options.args ++ [(name, value)] }
  | .template, [name] =>
    if options.template.isSome then .error .argumentConflict
    else .ok { options with template := name }
  | .params, [path] =>
    if options.params.isSome then .error .argumentConflict
    else if path.isEmpty then .error .invalidValue
    else .ok { options with params := path }
  | .output, [path] =>
    if options.output.isSome then .error .argumentConflict
    else if path.isEmpty then .error .invalidValue
    else .ok { options with output := path }
  | _, _ => .error .wrongNumberOfValues

/-- Adds files. Each needs a name. -/
def addFiles (options : Options) (paths : List String) : Except Refusal Options :=
  if paths.any String.isEmpty then .error .invalidValue
  else .ok { options with files := options.files ++ paths }

/-- Sets a flag. -/
def raise (options : Options) : Flag → Except Refusal Options
  | .help => .error .help
  | .version => .error .version
  | .noOptimize =>
    if options.noOptimize then .error .argumentConflict else .ok { options with noOptimize := true }
  | .verbose =>
    if options.verbose then .error .argumentConflict else .ok { options with verbose := true }

end Options

/-- What has been read: the options, and behind them values that have not been looked at. -/
structure Progress where
  options : Options
  /-- The values to look at next and what they belong to. -/
  pending : Option (Target × List String)
  /-- Whether the next word goes to the pending values if it can be one. -/
  wantsMore : Bool
deriving DecidableEq, Inhabited

namespace Progress

/-- Nothing has been read. -/
def start : Progress := ⟨.none, none, false⟩

/-- The options once the pending values are looked at. -/
def settled (progress : Progress) : Except Refusal Options :=
  match progress.pending with
  | none => .ok progress.options
  | some (.files, paths) => progress.options.addFiles paths
  | some (.setting setting, values) => progress.options.assign setting values

/-- Reads a flag. -/
def flag (progress : Progress) (flag : Flag) : Except Refusal Progress := do
  return ⟨← (← progress.settled).raise flag, none, false⟩

/-- Reads an option with its value attached. -/
def attach (progress : Progress) (setting : Setting) (value : String) : Except Refusal Progress := do
  return ⟨← (← progress.settled).assign setting [value], none, false⟩

/-- Reads an option whose values come in the next words. -/
def await (progress : Progress) (setting : Setting) : Except Refusal Progress := do
  return ⟨← progress.settled, some (.setting setting, []), true⟩

/-- Reads the name of a file. Files that come one behind the other are looked at together. -/
def file (progress : Progress) (path : String) : Except Refusal Progress :=
  match progress.pending with
  | some (.files, paths) => .ok { progress with pending := some (.files, paths ++ [path]), wantsMore := true }
  | _ => do return ⟨← progress.settled, some (.files, [path]), true⟩

/-- Reads a word that is no option: a value where one is wanted, otherwise a file. -/
def word (progress : Progress) (text : String) : Except Refusal Progress :=
  match progress.pending, progress.wantsMore with
  | some (.setting setting, values), true =>
    .ok { progress with
      pending := some (.setting setting, values ++ [text])
      wantsMore := values.length + 1 < setting.arity }
  | _, _ => progress.file text

/-- Reads an option that is written by its name, with the text behind an equals sign if there is one. -/
def long (grammar : Grammar) (progress : Progress) (name : String) (value : Option String) :
    Except Refusal Progress :=
  match grammar.long? name, value with
  | none, _ => .error .unknownArgument
  | some (.flag flag), none => progress.flag flag
  | some (.flag _), some _ => .error .tooManyValues
  | some (.setting setting), none => progress.await setting
  | some (.setting setting), some value => progress.attach setting value

/-- Reads options that are written as letters in one word. What stands behind the letter of an option with
    values is its value, an equals sign apart. -/
def letters (grammar : Grammar) : Progress → List Char → Except Refusal Progress
  | progress, [] => .ok progress
  | progress, letter :: rest =>
    match grammar.short? letter, rest with
    | none, _ => .error .unknownArgument
    | some (.flag flag), rest => do letters grammar (← progress.flag flag) rest
    | some (.setting setting), [] => progress.await setting
    | some (.setting setting), '=' :: value => progress.attach setting (String.ofList value)
    | some (.setting setting), value => progress.attach setting (String.ofList value)

/-- Reads a word. A minus sign alone is no option. -/
def take (grammar : Grammar) (progress : Progress) (text : String) : Except Refusal Progress :=
  match text.toList with
  | '-' :: '-' :: cs =>
    let name := String.ofList (cs.takeWhile (· ≠ '='))
    match cs.dropWhile (· ≠ '=') with
    | _ :: value => progress.long grammar name (String.ofList value)
    | [] => progress.long grammar name none
  | '-' :: letter :: cs => progress.letters grammar (letter :: cs)
  | _ => progress.word text

/-- The command that a word begins, unless the word is wanted as a value or stands behind a file. -/
def subcommand? (grammar : Grammar) (progress : Progress) (text : String) : Option Subcommand :=
  if progress.wantsMore then none else grammar.subcommand? text

/-- Reads words up to the end of the line or to a command, which is answered with the words behind it. -/
def takeAll (grammar : Grammar) :
    List String → Progress → Except Refusal (Progress × Option (Subcommand × List String))
  | [], progress => .ok (progress, none)
  | text :: texts, progress =>
    match progress.subcommand? grammar text with
    | some subcommand => .ok (progress, some (subcommand, texts))
    | none =>
      if text = "--" then do
        -- From here on nothing is an option.
        return (← texts.foldlM file progress, none)
      else do
        takeAll grammar texts (← progress.take grammar text)

end Progress

/-! ## Whole lines -/

/-- Answers a wish for help on a command. The commands take no commands of their own. -/
def helpOn : List String → Refusal
  | [] => .help
  | [name] => if (Grammar.program.subcommand? name).isSome then .help else .invalidSubcommand
  | _ => .invalidSubcommand

/-- The files of a command that takes nothing else. -/
def filesOf (texts : List String) : Except Refusal (List String) := do
  let (progress, _) ← Progress.start.takeAll .filesOnly texts
  return (← progress.settled).files

/-- The invocation that a command line stands for, the name of the program apart. What is wrong behind a
    command is reported before the values in front of it are looked at. -/
def Invocation.ofArguments (texts : List String) : Except Refusal Invocation := do
  let (progress, subcommand) ← Progress.start.takeAll .program texts
  match subcommand with
  | none => return .render (← progress.settled)
  | some (.help, names) => .error (helpOn names)
  | some (.check, texts) => do
    let files ← filesOf texts
    -- The options in front have no bearing on the check, but must be well formed.
    let _ ← progress.settled
    return .check files
  | some (.list, texts) => do
    let files ← filesOf texts
    return .list (← progress.settled) files

end Command

end HtmlTemplate
