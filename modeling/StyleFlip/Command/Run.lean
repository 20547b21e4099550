import StyleFlip.Command.Arguments
import StyleFlip.Command.Files
import StyleFlip.Config.Reader
import StyleFlip.Transform

/-!
# Running the command

The arguments and the configuration file give a request; the request reads the input, transforms it
and writes the output. Nothing is written unless everything before it succeeded.
-/

namespace StyleFlip

structure Request where
  config : Config
  input : Text
  output : Text
deriving DecidableEq, Repr

/-- Why the command fails after its arguments were read. -/
inductive Failure
  | tooManySwitches
  | directionNeeded
  | invalidConfig (path : Text) (fault : Json.Fault)
  | unreadable (path : Text) (error : FileError)
  | unwritable (path : Text) (error : FileError)
deriving DecidableEq, Repr

namespace Failure

/-- Whether the arguments, taken together, are to blame. -/
def isUsage : Failure → Bool
  | .tooManySwitches => true
  | .directionNeeded => true
  | _ => false

def exitCode (f : Failure) : Nat := if f.isUsage then 2 else 1

def message : Failure → Text
  | .tooManySwitches => "Invalid option(s): at most 2 options can be combined".toList
  | .directionNeeded =>
    "Invalid option(s): --clean-only requires a direction (-r or -l)".toList
  | .invalidConfig path _ => "invalid config ".toList ++ path
  | .unreadable path error => "failed to read ".toList ++ path ++ ": ".toList ++ error.message
  | .unwritable path error => "failed to write ".toList ++ path ++ ": ".toList ++ error.message

end Failure

def maxSwitches : Nat := 2

namespace Config

def apply (config : Config) : Switch → Config
  | .rtl => { config with direction := some .rtl }
  | .ltr => { config with direction := some .ltr }
  | .warnings => { config with flip := { config.flip with warnings := true } }
  | .cleanOnly => { config with cleanOnly := true }
  | .swapPseudo => { config with flip := { config.flip with swapPseudo := true } }
  | .ignoreUrls => { config with flip := { config.flip with flipUrls := false } }
  | .ignoreSelectors => { config with flip := { config.flip with flipSelectors := false } }

end Config

/-- What a request prints: one line for each diagnostic, if warnings are on. -/
def Request.report (r : Request) (flipped : Flipped) : Text :=
  if r.config.flip.warnings then flipped.diagnostics.flatMap (·.display ++ ['\n']) else []

inductive Outcome
  /-- The command did its work and printed this. -/
  | done (printed : Text)
  | stopped (stop : Stop)
  | failed (failure : Failure)
deriving DecidableEq, Repr

def helpText : Text :=
  "Flip CSS between left-to-right and right-to-left layouts

Usage: flipcss [OPTIONS] <INFILE> <OUTFILE>

Arguments:
  <INFILE>   Stylesheet to read
  <OUTFILE>  Where to write the result

Options:
  -r, --rtl               Flip CSS LTR>RTL
  -l, --ltr               Flip CSS RTL>LTR
  -w, --warnings          Output warnings
  -c, --clean-only        Clean only (requires a direction, -r or -l)
  -p, --swap-pseudo       Swap :before and :after
  -u, --ignore-urls       Do not swap the words left and right inside url()
  -s, --ignore-selectors  Do not swap the words left and right in selectors
      --config <FILE>     Read defaults from a JSON config file
  -h, --help              Print help

If no direction is given, the CSS is just flipped (with no cleaning of direction specific rules).
".toList

namespace Outcome

def ofResult : Except Failure Text → Outcome
  | .ok printed => .done printed
  | .error failure => .failed failure

def exitCode : Outcome → Nat
  | .done _ => 0
  | .stopped .help => 0
  | .stopped (.usage _) => 2
  | .failed failure => failure.exitCode

def stdout : Outcome → Text
  | .done printed => printed
  | .stopped .help => helpText
  | _ => []

def stderr : Outcome → Text
  | .failed failure =>
    failure.message ++ '\n' :: if failure.isUsage then '\n' :: (helpText ++ ['\n']) else []
  | _ => []

end Outcome

/-! ## The steps of a run -/

/-- A system that keeps files: what a run asks of it. -/
structure FileSystem (m : Type → Type) where
  readText (path : Text) : ExceptT FileError m Text
  writeText (path text : Text) : ExceptT FileError m Unit

section Steps

variable {m : Type → Type} [Monad m]

def Config.load (readText : Text → ExceptT FileError m Text) (path : Text) :
    ExceptT Failure m Config := do
  let text ← (readText path).adapt (.unreadable path)
  MonadExcept.ofExcept ((Config.parse text).mapError (.invalidConfig path))

def Arguments.makeRequest (readText : Text → ExceptT FileError m Text) (a : Arguments) :
    ExceptT Failure m Request := do
  if maxSwitches < a.switches.length then throw .tooManySwitches
  let loaded ←
    match a.config with
    | some path => Config.load readText path
    | none => pure {}
  let config := a.switches.foldl Config.apply loaded
  if config.cleanOnly && config.direction.isNone then throw .directionNeeded
  return ⟨config, a.input, a.output⟩

def Request.perform (system : FileSystem m) (r : Request) : ExceptT Failure m Text := do
  let css ← (system.readText r.input).adapt (.unreadable r.input)
  let flipped := transform css r.config
  (system.writeText r.output flipped.css).adapt (.unwritable r.output)
  return r.report flipped

def Arguments.carryOut (system : FileSystem m) (a : Arguments) : ExceptT Failure m Text := do
  let request ← a.makeRequest system.readText
  request.perform system

def runOn (system : FileSystem m) (arguments : List Text) : m Outcome :=
  match Arguments.read arguments with
  | .error stop => pure (.stopped stop)
  | .ok a => Outcome.ofResult <$> (a.carryOut system).run

end Steps

/-! ## Runs on a tree of files -/

/-- The request that arguments make, where reading has no effects. -/
def Arguments.request (readText : Text → Except FileError Text) (a : Arguments) :
    Except Failure Request :=
  a.makeRequest (m := Id) readText

def Files.system : FileSystem (StateM Files) where
  readText path := ExceptT.mk do return (← get).readText path
  writeText path text := ExceptT.mk <| modifyGet fun files =>
    match files.writeText path text with
    | .ok after => (.ok (), after)
    | .error error => (.error error, files)

def run (arguments : List Text) (files : Files) : Outcome × Files :=
  (runOn Files.system arguments).run files

end StyleFlip
