import StyleFlip.Text.Basic

/-!
# Command line arguments

Arguments are read from left to right. A path is settled, and so checked, only when the next
argument asks for it or the arguments end; what is unknown is reported at once.
-/

namespace StyleFlip

inductive Switch
  | rtl
  | ltr
  | warnings
  | cleanOnly
  | swapPseudo
  | ignoreUrls
  | ignoreSelectors
deriving DecidableEq, Repr

namespace Switch

def table : List (Char × String × Switch) :=
  [('r', "rtl", .rtl),
    ('l', "ltr", .ltr),
    ('w', "warnings", .warnings),
    ('c', "clean-only", .cleanOnly),
    ('p', "swap-pseudo", .swapPseudo),
    ('u', "ignore-urls", .ignoreUrls),
    ('s', "ignore-selectors", .ignoreSelectors)]

def ofLetter? (letter : Char) : Option Switch :=
  (table.find? fun row => row.1 = letter).map (·.2.2)

def ofName? (name : Text) : Option Switch :=
  (table.find? fun row => row.2.1.toList = name).map (·.2.2)

end Switch

inductive UsageError
  | unknownArgument
  /-- Something is given twice, or with what it excludes. -/
  | conflict
  /-- A switch is given a value. -/
  | tooManyValues
  /-- A path is empty or missing. -/
  | invalidValue
  /-- The input or the output is missing. -/
  | missingArgument
deriving DecidableEq, Repr

inductive Stop
  | help
  | usage (error : UsageError)
deriving DecidableEq, Repr

structure Arguments where
  switches : List Switch
  config : Option Text
  input : Text
  output : Text
deriving DecidableEq, Repr

namespace Arguments

/-- A path that is not settled yet. -/
inductive Pending
  /-- The option `--config`, with its value once that is met. -/
  | config (value : Option Text)
  | positional (path : Text)
deriving DecidableEq, Repr

structure Selection where
  switches : List Switch := []
  config : Option Text := none
  paths : List Text := []
  pending : Option Pending := none
  /-- Whether all further arguments are paths. -/
  pathsOnly : Bool := false
deriving DecidableEq, Repr

namespace Selection

def setConfig (s : Selection) (path : Text) : Except Stop Selection :=
  if s.config.isSome then .error (.usage .conflict)
  else if path.isEmpty then .error (.usage .invalidValue)
  else .ok { s with config := some path, pending := none }

def settle (s : Selection) : Except Stop Selection :=
  match s.pending with
  | none => .ok s
  | some (.config none) => .error (.usage .invalidValue)
  | some (.config (some path)) => s.setConfig path
  | some (.positional path) =>
    if path.isEmpty then .error (.usage .invalidValue)
    else .ok { s with paths := s.paths ++ [path], pending := none }

def addSwitch (s : Selection) (switch : Switch) : Except Stop Selection := do
  let s ← s.settle
  if s.switches.contains switch then .error (.usage .conflict)
  else .ok { s with switches := s.switches ++ [switch] }

def showHelp (s : Selection) : Except Stop Selection := do
  let _ ← s.settle
  .error .help

def pathCount (s : Selection) : Nat :=
  match s.pending with
  | some (.positional _) => s.paths.length + 1
  | _ => s.paths.length

def addPath (s : Selection) (path : Text) : Except Stop Selection :=
  if 2 ≤ s.pathCount then .error (.usage .unknownArgument)
  else do
    let s ← s.settle
    .ok { s with pending := some (.positional path) }

/-- Reads an argument that starts with two hyphens: a name, perhaps with `=` and a value. -/
def readLong (s : Selection) (text : Text) : Except Stop Selection :=
  let name := text.takeWhile (· != '=')
  let value := text.dropWhile (· != '=')
  if name = "config".toList then do
    let s ← s.settle
    match value with
    | [] => .ok { s with pending := some (.config none) }
    | _ :: path => s.setConfig path
  else if name = "help".toList then
    if value.isEmpty then s.showHelp else .error (.usage .tooManyValues)
  else
    match Switch.ofName? name with
    | some switch => if value.isEmpty then s.addSwitch switch else .error (.usage .tooManyValues)
    | none => .error (.usage .unknownArgument)

/-- Reads the letters of an argument that starts with one hyphen. -/
def readLetters (s : Selection) : Text → Except Stop Selection
  | [] => .ok s
  | 'h' :: _ => s.showHelp
  | c :: rest =>
    match Switch.ofLetter? c with
    | some switch => do
      let s ← s.addSwitch switch
      s.readLetters rest
    | none => .error (.usage .unknownArgument)

def read (s : Selection) (argument : Text) : Except Stop Selection :=
  if s.pathsOnly then s.addPath argument
  else
    match argument with
    | ['-', '-'] => .ok { s with pathsOnly := true }
    | '-' :: '-' :: text => s.readLong text
    | '-' :: c :: letters => s.readLetters (c :: letters)
    | _ =>
      match s.pending with
      | some (.config none) => .ok { s with pending := some (.config (some argument)) }
      | _ => s.addPath argument

def finish (s : Selection) : Except Stop Arguments := do
  let s ← s.settle
  if s.switches.contains .rtl && s.switches.contains .ltr then .error (.usage .conflict)
  else
    match s.paths with
    | [input, output] => .ok ⟨s.switches, s.config, input, output⟩
    | _ => .error (.usage .missingArgument)

end Selection

def read (arguments : List Text) : Except Stop Arguments := do
  let s ← arguments.foldlM Selection.read {}
  s.finish

end Arguments

end StyleFlip
