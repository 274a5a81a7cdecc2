import HandlerWeave.Project

/-!
The command line: what its arguments ask for, and what is printed.
-/
namespace HandlerWeave.CommandLine

def programName : String := "samgen"

def versionText : String := programName ++ " 0.1.0\n"

inductive UsageError
  | unexpectedArgument (argument : String)
  | unexpectedValue (flag value : String)
  | repeated (flag : String)
deriving DecidableEq, Repr

def UsageError.message : UsageError → String
  | unexpectedArgument argument => "unexpected argument '" ++ argument ++ "' found"
  | unexpectedValue flag value =>
    "unexpected value '" ++ value ++ "' for '" ++ flag ++ "' found; no more were expected"
  | repeated flag => "the argument '" ++ flag ++ "' cannot be used multiple times"

structure Options where
  verbosity : Nat := 0
  /-- Nothing is to be written. -/
  dry : Bool := false
deriving DecidableEq, Repr

inductive Request
  | run (options : Options)
  | version
  | help
deriving DecidableEq, Repr

inductive Flag
  | verbose | dry | version | help
deriving DecidableEq, Repr

def Flag.ofLong? : String → Option Flag
  | "verbose" => some verbose
  | "no-op" => some dry
  | "version" => some version
  | "help" => some help
  | _ => none

def Flag.ofShort? : Char → Option Flag
  | 'v' => some verbose
  | 'V' => some version
  | 'h' => some help
  | _ => none

/-- Flags with a meaning of their own settle the request, whatever follows them. -/
inductive Step
  | further (options : Options)
  | settled (request : Request)

def Flag.apply (options : Options) : Flag → Except UsageError Step
  | verbose => .ok (.further { options with verbosity := options.verbosity + 1 })
  | dry =>
    if options.dry then .error (.repeated "--no-op")
    else .ok (.further { options with dry := true })
  | version => .ok (.settled .version)
  | help => .ok (.settled .help)

/-- A flag behind two hyphens. No flag takes a value. -/
def applyLong (options : Options) (cs : List Char) : Except UsageError Step :=
  let (name, value) := cs.span (· != '=')
  match Flag.ofLong? (String.ofList name), value with
  | some flag, [] => flag.apply options
  | some _, _ :: value =>
    .error (.unexpectedValue ("--" ++ String.ofList name) (String.ofList value))
  | none, _ => .error (.unexpectedArgument ("--" ++ String.ofList name))

/-- Flags of one letter each behind one hyphen. -/
def applyShorts (options : Options) : List Char → Except UsageError Step
  | [] => .ok (.further options)
  | c :: cs =>
    match Flag.ofShort? c with
    | none => .error (.unexpectedArgument ("-" ++ String.singleton c))
    | some flag =>
      match flag.apply options with
      | .ok (.further options) => applyShorts options cs
      | outcome => outcome

def applyArgument (options : Options) (argument : String) : Except UsageError Step :=
  match argument.toList with
  | '-' :: '-' :: cs => applyLong options cs
  | '-' :: c :: cs => applyShorts options (c :: cs)
  | _ => .error (.unexpectedArgument argument)

def request (options : Options) : List String → Except UsageError Request
  | [] => .ok (.run options)
  | "--" :: [] => .ok (.run options)
  | "--" :: argument :: _ => .error (.unexpectedArgument argument)
  | argument :: rest =>
    match applyArgument options argument with
    | .error e => .error e
    | .ok (.settled r) => .ok r
    | .ok (.further options) => request options rest

def lines (texts : List String) : String := String.join (texts.map (· ++ "\n"))

def usageText : String := lines ["Usage: " ++ programName ++ " [OPTIONS]"]

def helpText : String := lines [
  "generate an AWS SAM template, shared types and an Angular client from decorated handlers",
  ""] ++ usageText ++ lines [
  "",
  "Options:",
  "  -v, --verbose...  more logging (-v debug, -vv trace); RUST_LOG takes precedence",
  "      --no-op       analyse and report, write nothing",
  "  -h, --help        Print help",
  "  -V, --version     Print version"]

def usageErrorText (e : UsageError) : String :=
  lines ["error: " ++ e.message, ""] ++ usageText
    ++ lines ["", "For more information, try '--help'."]

def handlerLine : String × Option (String × String) → String
  | (name, some (method, path)) => "  " ++ name ++ " " ++ Text.uppercase method ++ " " ++ path
  | (name, none) => "  " ++ name ++ " (no http trigger)"

def summary (r : Report) : String :=
  let verb := if r.written then "wrote" else "would write"
  let total := "✔ " ++ toString r.handlers.length ++ " function(s) from " ++ toString r.sources
    ++ " source file(s); " ++ verb ++ " " ++ toString r.files.length ++ " file(s) to " ++ r.output
  let warnings :=
    if r.diagnostics.isEmpty then []
    else ["! " ++ toString r.diagnostics.length ++ " warning(s)"]
  lines (r.handlers.map handlerLine ++ [total] ++ warnings)

/-- The error with what lies under it. -/
def errorText (e : RunError) : String :=
  lines ["error: generation failed: " ++ e.message ++ ((e.reason?.map (": " ++ ·)).getD "")]

structure Outcome where
  exitCode : Nat
  output : String := ""
  errors : String := ""
deriving DecidableEq, Repr

def execute (directory : String) (arguments : List String) : StateM FileTree Outcome := do
  match request {} arguments with
  | .error e => return { exitCode := 2, errors := usageErrorText e }
  | .ok .version => return { exitCode := 0, output := versionText }
  | .ok .help => return { exitCode := 0, output := helpText }
  | .ok (.run options) =>
    match ← (Project.run directory options.dry).run with
    | .ok report => return { exitCode := 0, output := summary report }
    | .error e => return { exitCode := 1, errors := errorText e }

end HandlerWeave.CommandLine
