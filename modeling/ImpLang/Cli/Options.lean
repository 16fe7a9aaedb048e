/-!
The command line: options with their values, in the order of the arguments.
-/

namespace ImpLang.Cli

structure Options where
  inputs : List String
  output : Option String
  format : Option String
  verbosity : Nat
deriving DecidableEq, Repr

/-- What the arguments ask for. -/
inductive Request where
  | version
  | compile (options : Options)
deriving DecidableEq, Repr

/-- The options that take a value. -/
inductive ValueOption where
  | input
  | output
  | format
deriving DecidableEq, Repr

namespace Options

def none : Options := ⟨[], .none, .none, 0⟩

/-- Give an option its value. Only inputs may be given more than once, and a path is never empty. -/
def set? (options : Options) (option : ValueOption) (value : String) : Option Options :=
  match option with
  | .input =>
    if value = "" then .none else some { options with inputs := options.inputs ++ [value] }
  | .output =>
    if value = "" ∨ options.output.isSome then .none
    else some { options with output := some value }
  | .format =>
    if options.format.isSome then .none else some { options with format := some value }

def louder (options : Options) : Options := { options with verbosity := options.verbosity + 1 }

end Options

/-- Whether an argument can be the value of the option before it. Other arguments with a hyphen in
front are options themselves. -/
def isValue (arg : String) : Bool :=
  match arg.toList with
  | '-' :: _ :: _ => false
  | _ => true

/-- An argument, or a group of short options, after its hyphens have been read. -/
inductive Argument where
  | flag
  | version
  /-- An option with a value attached to it, or with the value still to come. -/
  | valued (option : ValueOption) (attached : Option String)
deriving DecidableEq, Repr

/-- A long option: a word, possibly with a value behind an equals sign. -/
def longArgument? (text : List Char) : Option Argument :=
  let word := String.ofList (text.takeWhile (· != '='))
  let attached :=
    match text.dropWhile (· != '=') with
    | [] => none
    | _ :: value => some (String.ofList value)
  if word = "input" then some (.valued .input attached)
  else if word = "output" then some (.valued .output attached)
  else if word = "emit" then some (.valued .format attached)
  else if word = "verbose" ∧ attached = none then some .flag
  else if word = "version" ∧ attached = none then some .version
  else none

/-- A group of short options behind one hyphen. One that takes a value takes the rest of the group,
without an equals sign in front. -/
def shortArguments? : List Char → Option (List Argument)
  | [] => some []
  | 'v' :: rest => (shortArguments? rest).map (.flag :: ·)
  | 'V' :: _ => some [.version]
  | 'i' :: rest => some [.valued .input (attachedValue rest)]
  | 'o' :: rest => some [.valued .output (attachedValue rest)]
  | _ => none
where
  attachedValue : List Char → Option String
    | [] => none
    | '=' :: value => some (String.ofList value)
    | value => some (String.ofList value)

/-- The options of one argument; none if it is not known. -/
def arguments? (arg : String) : Option (List Argument) :=
  match arg.toList with
  | '-' :: '-' :: word => (longArgument? word).map ([·])
  | '-' :: c :: group => shortArguments? (c :: group)
  | _ => none

/-- Take in the options of one argument. The result is a request for the version, or the options
with an option that waits for its value. -/
def takeArguments? : List Argument → Options → Option (Request × Option ValueOption)
  | [], options => some (.compile options, none)
  | .version :: _, _ => some (.version, none)
  | .flag :: rest, options => takeArguments? rest options.louder
  | .valued option (some value) :: rest, options => do
    takeArguments? rest (← options.set? option value)
  | .valued option none :: _, options => some (.compile options, some option)

/-- Read arguments from left to right; none if one of them is rejected. A request for the version
ends the reading. -/
def readArguments? : List String → Options → Option ValueOption → Option Request
  | [], options, none => some (.compile options)
  | [], _, some _ => none
  | arg :: args, options, some option =>
    if isValue arg then do
      readArguments? args (← options.set? option arg) none
    else none
  | arg :: args, options, none =>
    if arg = "--" then
      if args = [] then some (.compile options) else none
    else do
      match ← takeArguments? (← arguments? arg) options with
      | (.version, _) => return .version
      | (.compile options, waiting) => readArguments? args options waiting

/-- What a command line asks for; none if an argument is rejected. -/
def request? (args : List String) : Option Request := readArguments? args Options.none none

end ImpLang.Cli
