import StyleFlip.Config.Basic
import StyleFlip.Json.Reader
import StyleFlip.Json.Writer

/-!
# Reading configurations

A configuration is a JSON object. Its direction and its `cleanOnly` are checked where they stand in
the text; the flip options are checked in order once the object is complete. Other members are
ignored, but they have to be JSON.
-/

namespace StyleFlip

open Json (Fault Reader ShapeError)

/-! ## Flip options -/

namespace FlipOptions

def names : List Text := ["warnings", "swapPseudo", "flipUrls", "flipSelectors"].map String.toList

def set (options : FlipOptions) (name : Text) (on : Bool) : FlipOptions :=
  if name = "warnings".toList then { options with warnings := on }
  else if name = "swapPseudo".toList then { options with swapPseudo := on }
  else if name = "flipUrls".toList then { options with flipUrls := on }
  else if name = "flipSelectors".toList then { options with flipSelectors := on }
  else options

def boolean : Json → Except ShapeError Bool
  | .bool b => .ok b
  | json => .error (.wrongType json.describe "a boolean".toList)

/-- Sets options from members in order. `seen` holds the names that have been set. -/
def ofMembers (options : FlipOptions) (seen : List Text) :
    List (Text × Json) → Except ShapeError FlipOptions
  | [] => .ok options
  | (name, json) :: rest =>
    if names.contains name then
      if seen.contains name then .error (.duplicateField name)
      else do
        let on ← boolean json
        ofMembers (options.set name on) (name :: seen) rest
    else ofMembers options seen rest

/-- Sets options from values in the order of `names`; those without a value keep their default. -/
def ofElements (elements : List Json) : Except ShapeError FlipOptions := do
  let options ← (names.zip elements).foldlM
    (fun (options : FlipOptions) entry => (boolean entry.2).map (options.set entry.1)) {}
  if names.length < elements.length then
    .error (.wrongLength elements.length "fewer elements in array".toList)
  else .ok options

/-- Options from a value that was read before: an object, whose members are checked in the order of
their names, or an array. -/
def ofJson : Json → Except ShapeError FlipOptions
  | .object members => ofMembers {} [] (Json.inNameOrder members)
  | .array elements => ofElements elements
  | json => .error (.wrongType json.describe "struct FlipOptions".toList)

end FlipOptions

/-! ## Directions -/

namespace Direction

def ofVariant (name : Text) : Except ShapeError Direction :=
  match ofName? name with
  | some d => .ok d
  | none => .error (.unknownVariant name)

end Direction

namespace Config

def lift {α : Type} (result : Except ShapeError α) : Except Fault α := result.mapError .shape

/-- Reads a direction that is given by an object, after the opening brace: the name is the only key
and null is its value. -/
def readDirectionObject : Reader Direction := fun text =>
  match Reader.skipSpace text with
  | '"' :: rest => do
    let (name, rest) ← Reader.string rest
    let d ← lift (Direction.ofVariant name)
    let ((), rest) ← Reader.colon rest
    match Reader.skipSpace rest with
    | 'n' :: rest =>
      let ((), rest) ← Reader.literal "ull".toList rest
      match Reader.skipSpace rest with
      | '}' :: rest => .ok (d, rest)
      | [] => .error .endOfInput
      | _ => .error .malformed
    | rest => .error (Reader.wrongTypeAt "unit".toList rest)
  | [] => .error .endOfInput
  | _ => .error .malformed

def readDirection : Reader (Option Direction) := fun text =>
  match Reader.skipSpace text with
  | [] => .error .endOfInput
  | 'n' :: rest => (Reader.literal "ull".toList rest).map fun r => (none, r.2)
  | '"' :: rest => do
    let (name, rest) ← Reader.string rest
    let d ← lift (Direction.ofVariant name)
    .ok (some d, rest)
  | '{' :: rest => (readDirectionObject rest).map fun r => (some r.1, r.2)
  | _ => .error .malformed

def readBoolean : Reader Bool := fun text =>
  match Reader.skipSpace text with
  | 't' :: rest => (Reader.literal "rue".toList rest).map fun r => (true, r.2)
  | 'f' :: rest => (Reader.literal "alse".toList rest).map fun r => (false, r.2)
  | rest => .error (Reader.wrongTypeAt "a boolean".toList rest)

/-- What has been read of a configuration; `others` is in reverse order. -/
structure Draft where
  direction : Option (Option Direction) := none
  cleanOnly : Option Bool := none
  others : List (Text × Json) := []

def Draft.finish (draft : Draft) : Except ShapeError Config := do
  let flip ← FlipOptions.ofMembers {} [] draft.others.reverse
  .ok ⟨draft.direction.getD none, draft.cleanOnly.getD false, flip⟩

/-- Reads the value of a member, after its key. -/
def readMember (draft : Draft) (key : Text) : Reader Draft := fun text => do
  if key = "direction".toList then
    if draft.direction.isSome then .error (.shape (.duplicateField key))
    let ((), rest) ← Reader.colon text
    let (d, rest) ← readDirection rest
    .ok ({ draft with direction := some d }, rest)
  else if key = "cleanOnly".toList then
    if draft.cleanOnly.isSome then .error (.shape (.duplicateField key))
    let ((), rest) ← Reader.colon text
    let (on, rest) ← readBoolean rest
    .ok ({ draft with cleanOnly := some on }, rest)
  else
    let ((), rest) ← Reader.colon text
    let (json, rest) ← Reader.value (Reader.maxDepth - 1) rest
    .ok ({ draft with others := (key, json) :: draft.others }, rest)

/-- Reads a member, after the opening quote of its key. -/
def readEntry (draft : Draft) : Reader Draft := fun text => do
  let (key, rest) ← Reader.string text
  readMember draft key rest

def parse (text : Text) : Except Fault Config :=
  match Reader.skipSpace text with
  | '{' :: rest => do
    let (draft, rest) ← Reader.entries Reader.nextMember readEntry true {} rest
    let config ← lift draft.finish
    if (Reader.skipSpace rest).isEmpty then .ok config else .error .malformed
  | rest => .error (Reader.wrongTypeAt "struct Config".toList rest)

/-- A configuration from a value that was read before: what the text of the value says. -/
def ofJson (json : Json) : Except Fault Config := parse json.render

end Config

end StyleFlip
