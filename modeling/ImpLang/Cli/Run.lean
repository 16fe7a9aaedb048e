import ImpLang.Cli.Input
import ImpLang.Cli.Options
import ImpLang.Cli.Path
import ImpLang.Cli.Unit

/-!
A run of the command line: collect the sources, compile them, write reports and output.
-/

namespace ImpLang.Cli

/-- Why a run fails. -/
inductive RunError where
  | unsupportedFormat (name : String)
  | stdin (cause : FileError)
  | walk (directory : String) (cause : FileError)
  | input (path : String) (cause : FileError)
  | emission (unit : String) (cause : SlotError)
  | parent (path : String) (cause : FileError)
  | output (path : String) (cause : FileError)
  | compilation (errors : Nat)
deriving DecidableEq, Repr

namespace RunError

def message : RunError → String
  | unsupportedFormat name => "unsupported emit format: " ++ name
  | stdin _ => "failed to read stdin"
  | walk directory _ => "failed to walk " ++ directory
  | input path _ => "failed to read input file " ++ path
  | emission unit _ => "failed to emit " ++ unit
  | parent path _ => "failed to create directory " ++ Text.quoted path
  | output path _ => "failed to write output file " ++ path
  | compilation errors => "compilation failed with " ++ toString errors ++ " error(s)"

def cause? : RunError → Option String
  | unsupportedFormat _ => none
  | compilation _ => none
  | emission _ cause => some cause.message
  | stdin cause => some cause.message
  | walk _ cause => some cause.message
  | input _ cause => some cause.message
  | parent _ cause => some cause.message
  | output _ cause => some cause.message

/-- A failed run ends with its reason and, if there is one, the cause behind it. -/
def report (e : RunError) : String :=
  let cause := match e.cause? with
    | some cause => "\nCaused by:\n    " ++ cause ++ "\n"
    | none => ""
  "Error: " ++ e.message ++ "\n" ++ cause

end RunError

variable {m : Type → Type} [Monad m] [Host m]

/-- How deep directories can be nested in a path of the greatest length. -/
def depthLimit : Nat := 2048

/-- The source files below a directory, in the order of their names, with those of a directory at
the place of its name. -/
def walk : (depth : Nat) → String → ExceptT FileError m (List String)
  | 0, _ => return []
  | depth + 1, directory => do
    let entries ← ExceptT.mk (Host.entries directory)
    let sorted := entries.mergeSort fun a b => decide (a.name ≤ b.name)
    let found ← sorted.mapM fun entry => do
      let path := Path.join directory entry.name
      if entry.isDir then walk depth path
      else if entry.isFile && Path.hasExtension "imp" entry.name then return [path]
      else return []
    return found.flatten

/-- The files that an input stands for: itself, or the source files of a directory. -/
def filesOf (input : String) : ExceptT RunError m (List String) := do
  if ← (Host.isDir input : m Bool) then
    (walk depthLimit input : ExceptT FileError m (List String)).adapt (RunError.walk input)
  else return [input]

/-- Run a request to the host, with a reason for its failure. -/
def trying {α : Type} (reason : FileError → RunError) (request : m (Except FileError α)) :
    ExceptT RunError m α :=
  (ExceptT.mk request).adapt reason

def readSource (path : String) : ExceptT RunError m Source := do
  return ⟨path, ← trying (.input path) (readText path)⟩

/-- The sources that the inputs stand for; without inputs, what the standard input holds. -/
def collect (inputs : List String) : ExceptT RunError m (List Source) := do
  if inputs = [] then return [⟨"<stdin>", ← trying .stdin readStdin⟩]
  else
    let paths ← inputs.mapM filesOf
    paths.flatten.mapM readSource

/-- A directory that exists already is as good as one that was made. -/
def settle (path : String) (made : Except FileError Unit) : m (Except FileError Unit) := do
  match made with
  | .ok () => return .ok ()
  | .error cause => if ← Host.isDir path then return .ok () else return .error cause

/-- Make a directory and those above it. -/
def makeDirs : (depth : Nat) → String → m (Except FileError Unit)
  | 0, _ => return .ok ()
  | depth + 1, path => do
    if path = "" then return .ok ()
    else
      let made : Except FileError Unit ← Host.makeDir path
      match made, Path.parent? path with
      | .error .notFound, some parent =>
        let above : Except FileError Unit ← makeDirs depth parent
        match above with
        | .ok () => settle path (← Host.makeDir path)
        | .error cause => return .error cause
      | made, _ => settle path made

/-- Write the output of a run to a file, in a directory that is made if need be. -/
def writeOutput (path text : String) : ExceptT RunError m Unit := do
  match Path.parent? path with
  | some parent => trying (.parent parent) (makeDirs depthLimit parent)
  | none => pure ()
  trying (.output path) (Host.write path text)

/-- The output of a run goes to its file, or to the output stream if it has none. -/
def deliver (options : Options) (output : String) : ExceptT RunError m Unit :=
  match options.output with
  | some path => writeOutput path output
  | none => Host.putOut (m := m) output

/-- The counts of several units together. -/
def totals (results : List (Source × UnitResult)) : DiagnosticCounts :=
  results.foldl (fun counts result => counts.merge result.2.counts) DiagnosticCounts.zero

/-- The output of a unit, headed by its name if it is one of several. -/
def headed (several : Bool) (source : Source) (text : String) : String :=
  if several then "// " ++ source.name ++ "\n" ++ text else text

def outputOf (several : Bool) (result : Source × UnitResult) : Except RunError String :=
  match result.2.output with
  | .ok text => .ok (headed several result.1 text)
  | .error cause => .error (.emission result.1.name cause)

/-- The outputs of the units one behind the other. -/
def outputs (results : List (Source × UnitResult)) : Except RunError String := do
  let texts ← results.mapM (outputOf (1 < results.length))
  return String.join texts

/-- What remains to do with the results of the units: their reports and totals go to the error stream,
their output to where it belongs. -/
def conclude (options : Options) (format : Format) (results : List (Source × UnitResult)) :
    ExceptT RunError m Unit := do
  let output ← (ExceptT.mk (pure (outputs results)) : ExceptT RunError m String)
  let counts := totals results
  let reports := results.flatMap fun result => result.2.rendered
  Host.putErr (m := m) (String.join ((reports ++ [toString counts]).map (· ++ "\n")))
  if format ≠ .none then deliver options output
  if counts.hasErrors then throw (.compilation counts.errors)

/-- Compile the inputs. -/
def compile (options : Options) : ExceptT RunError m Unit := do
  let name := options.format.getD "none"
  let some format := Format.ofName? name | throw (.unsupportedFormat name)
  let sources ← collect options.inputs
  conclude options format (compileAll format sources Interner.empty)

/-- The exit code of a run whose arguments were accepted. -/
def execute (request : Request) : m Nat := do
  match request with
  | .version =>
    Host.putOut "imp-cli 0.1.0\n"
    return 0
  | .compile options =>
    match ← (compile options : ExceptT RunError m Unit).run with
    | .ok () => return 0
    | .error e =>
      Host.putErr e.report
      return 1

/-- The exit code for arguments that are not accepted. -/
def usageCode : Nat := 2

end ImpLang.Cli
