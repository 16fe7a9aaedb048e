import ImpLang.Cli.Run

/-!
The program: the command line on the host that it is started on.
-/

namespace ImpLang.Cli

/-- The reason of a failed request as the system words it. -/
def FileError.ofSystem : IO.Error → FileError
  | .noFileOrDirectory _ code text => .system text code.toNat
  | .alreadyExists _ code text => .system text code.toNat
  | .permissionDenied _ code text => .system text code.toNat
  | .inappropriateType _ code text => .system text code.toNat
  | .invalidArgument _ code text => .system text code.toNat
  | .resourceExhausted _ code text => .system text code.toNat
  | .noSuchThing _ code text => .system text code.toNat
  | .resourceBusy code text => .system text code.toNat
  | .hardwareFault code text => .system text code.toNat
  | .otherError code text => .system text code.toNat
  | e => .system (toString e) 0

/-- Missing files and directories are told apart by their codes. -/
def FileError.sort : FileError → FileError
  | .system _ 2 => .notFound
  | .system _ 17 => .alreadyExists
  | .system _ 20 => .notADirectory
  | .system _ 21 => .isADirectory
  | .system _ 36 => .nameTooLong
  | e => e

/-- Run a request and catch its failure. -/
def attempt {α : Type} (request : IO α) : IO (Except FileError α) := do
  match ← request.toBaseIO with
  | .ok a => return .ok a
  | .error e => return .error (FileError.ofSystem e).sort

/-- The directory of a given path, as the entry that stands for the directory itself. -/
def directoryAt (path : String) : IO.FS.DirEntry := ⟨path, "."⟩

/-- All bytes that are left in a stream, behind those read before. -/
partial def readAll (stream : IO.FS.Stream) (before : ByteArray) : IO ByteArray := do
  let bytes ← stream.read 65536
  if bytes.isEmpty then return before else readAll stream (before ++ bytes)

instance : Host IO where
  stdin := attempt do readAll (← IO.getStdin) ByteArray.empty
  isDir path := (directoryAt path).path.isDir
  entries path := attempt do
    let found ← (directoryAt path).path.readDir
    found.toList.mapM fun entry => do
      let kind := (← entry.path.metadata).type
      return ⟨entry.fileName, kind == .dir, kind == .file⟩
  read path := attempt (IO.FS.readBinFile path)
  makeDir path := attempt (IO.FS.createDir path)
  write path text := attempt (IO.FS.writeFile path text)
  putOut text := IO.print text
  putErr text := IO.eprint text

end ImpLang.Cli

open ImpLang.Cli in
def main (args : List String) : IO UInt32 := do
  match request? args with
  | some request => return (← (execute request : IO Nat)).toUInt32
  | none =>
    IO.eprintln "error: invalid arguments"
    return usageCode.toUInt32
