import Smalltalk.Command.Run

/-!
# The command

Runs the command on the files of the disk.
-/

namespace Smalltalk

/-- The failure of a step on the disk, by its number. Some steps report the number negated. -/
def FileError.ofCode (code : UInt32) (description : String) : FileError :=
  let number := if code.toNat < 2147483648 then code.toNat else (-code).toNat
  match number with
  | 2 => .notFound
  | 17 => .alreadyExists
  | 20 => .notDirectory
  | 21 => .isDirectory
  | 36 => .nameTooLong
  | _ => .other number description

/-- The failure of a step on the disk. -/
def FileError.ofDisk : IO.Error → FileError
  | .alreadyExists _ code description
  | .invalidArgument _ code description
  | .permissionDenied _ code description
  | .resourceExhausted _ code description
  | .inappropriateType _ code description
  | .noSuchThing _ code description
  | .interrupted _ code description
  | .noFileOrDirectory _ code description
  | .otherError code description
  | .resourceBusy code description
  | .resourceVanished code description
  | .unsupportedOperation code description
  | .hardwareFault code description
  | .unsatisfiedConstraints code description
  | .illegalOperation code description
  | .protocolError code description
  | .timeExpired code description => FileError.ofCode code description
  | .unexpectedEof => .other 0 "unexpected end of file"
  | .userError description => .other 0 description

/-- A step on the disk, with its failure as a value. -/
def onDisk {α : Type} (step : IO α) : IO (Except FileError α) := do
  try
    return .ok (← step)
  catch e =>
    return .error (FileError.ofDisk e)

/-- The files of the disk. -/
def diskAccess : FileAccess IO where
  read path := onDisk (IO.FS.readBinFile path)
  write path text := onDisk (IO.FS.writeFile path text)
  makeDirectory path := onDisk (IO.FS.createDir path)
  isDirectory path := do
    match ← onDisk (IO.FS.realPath path) with
    | .ok found => found.isDir
    | .error _ => return false

end Smalltalk

open Smalltalk.Command in
/-- Does what the arguments ask for. -/
def main (arguments : List String) : IO UInt32 := do
  match Request.ofArguments arguments with
  | .error e =>
    IO.eprint ("error: " ++ e.message ++ "\n\n" ++ usageText)
    return usageStatus.toUInt32
  | .ok .help =>
    IO.print usageText
    return 0
  | .ok .version =>
    IO.print versionText
    return 0
  | .ok (.compile a) =>
    let outcome ← a.run Smalltalk.diskAccess
    IO.eprint outcome.report
    return outcome.status.toUInt32
