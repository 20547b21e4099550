import StyleFlip.Command.Run

/-!
# The command

Carries out `StyleFlip.runOn` on the files of the system.
-/

namespace StyleFlip.System

/-- Error codes of the system come with either sign. -/
def unsignedCode (code : UInt32) : Nat := min code.toNat (Nat.pow 2 32 - code.toNat)

def fileErrorOf (e : IO.Error) : FileError :=
  match e with
  | .noFileOrDirectory _ _ _ => .notFound
  | .inappropriateType _ code _ =>
    if unsignedCode code = 21 then .isDirectory else .notADirectory
  | .invalidArgument _ code _ =>
    if unsignedCode code = 36 then .nameTooLong else .other (toString e).toList
  | e => .other (toString e).toList

def fileSystem : FileSystem IO where
  readText path := ExceptT.mk do
    match ← (IO.FS.readBinFile (String.ofList path)).toBaseIO with
    | .error e => return .error (fileErrorOf e)
    | .ok bytes =>
      match Content.ofBytes bytes with
      | .text text => return .ok text
      | .binary _ => return .error .notText
  writeText path text := ExceptT.mk do
    match ← (IO.FS.writeFile (String.ofList path) (String.ofList text)).toBaseIO with
    | .error e => return .error (fileErrorOf e)
    | .ok () => return .ok ()

def usageMessage : UsageError → String
  | .unknownArgument => "error: unexpected argument"
  | .conflict => "error: an argument cannot be used with another one, or is used twice"
  | .tooManyValues => "error: a switch takes no value"
  | .invalidValue => "error: a path is missing or empty"
  | .missingArgument => "error: the input and the output are required"

end StyleFlip.System

def main (args : List String) : IO UInt32 := do
  let outcome ← StyleFlip.runOn StyleFlip.System.fileSystem (args.map String.toList)
  IO.print (String.ofList outcome.stdout)
  match outcome with
  | .stopped (.usage error) => IO.eprintln (StyleFlip.System.usageMessage error)
  | _ => IO.eprint (String.ofList outcome.stderr)
  return outcome.exitCode.toUInt32
