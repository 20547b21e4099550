import StyleFlip.Flip.Edit
import StyleFlip.Flip.Table
import StyleFlip.Text.Blank
import StyleFlip.Text.Break
import StyleFlip.Value.Basic

/-!
# Flipping keywords and urls in values
-/

namespace StyleFlip

namespace Component

mutual

/-- Replaces the texts of the leaves of a component, inside those functions that `enter` admits. -/
def mapLeaves (enter : Text → Bool) (f : LeafKind → Text → Text) : Component → Component
  | .leaf kind text => .leaf kind (f kind text)
  | .function name args closed =>
    .function name (if enter name then mapLeavesAll enter f args else args) closed

def mapLeavesAll (enter : Text → Bool) (f : LeafKind → Text → Text) :
    List Component → List Component
  | [] => []
  | c :: rest => mapLeaves enter f c :: mapLeavesAll enter f rest

end

mutual

/-- Whether some leaf of a component is one of those asked for, inside those functions that `enter`
admits. -/
def anyLeaf (enter : Text → Bool) (p : LeafKind → Text → Bool) : Component → Bool
  | .leaf kind text => p kind text
  | .function name args _ => enter name && anyLeafAll enter p args

def anyLeafAll (enter : Text → Bool) (p : LeafKind → Text → Bool) : List Component → Bool
  | [] => false
  | c :: rest => anyLeaf enter p c || anyLeafAll enter p rest

end

mutual

def urls : Component → List Text
  | .leaf .url text => [text]
  | .leaf _ _ => []
  | .function _ args _ => urlsAll args

def urlsAll : List Component → List Text
  | [] => []
  | c :: rest => urls c ++ urlsAll rest

end

end Component

/-- Goes through a text from one word to the next and flips the words that say a side. A word takes
all the letters and digits that follow its first one. -/
def scanWords : Text → Edit Text
  | [] => .start []
  | c :: rest =>
    if c.isAlphanum then
      let word := c :: rest.takeWhile Char.isAlphanum
      let after := scanWords (rest.dropWhile Char.isAlphanum)
      match sideWords.counterpart? word with
      | some other => ⟨Text.inCaseOf word other ++ after.value, true⟩
      | none => ⟨word ++ after.value, after.changed⟩
    else
      let after := scanWords rest
      ⟨c :: after.value, after.changed⟩
termination_by text => text.length
decreasing_by
  · exact Nat.lt_add_one_of_le (List.dropWhile_suffix _).length_le
  · exact Nat.lt_add_one _

/-- The text with its words flipped, if some word of it says a side. -/
def flipWords? (text : Text) : Option Text :=
  if (scanWords text).changed then some (scanWords text).value else none

def flipWords (text : Text) : Text := (flipWords? text).getD text

/-- A url that holds its data; what stands in it is no path. -/
def isDataUrl (inner : Text) : Bool :=
  let body := (Text.trim inner).dropWhile fun c => c == '"' || c == '\''
  Text.sameIgnoringCase (body.take 5) "data:".toList

/-- A url literal with the words between its parentheses flipped, if some word says a side there and
it is no data url. -/
def flipUrl? (url : Text) : Option Text :=
  match Text.breakAfterFirst? '(' url with
  | none => none
  | some (opening, rest) =>
    match Text.breakLast ')' rest with
    | (inner, closing) =>
      if isDataUrl inner then none
      else (flipWords? inner).map fun inner' => opening ++ inner' ++ closing

def flipUrl (url : Text) : Text := (flipUrl? url).getD url

namespace Value

/-- Flips the keywords of a value. The arguments of `var` are names and not keywords. -/
def flipKeywords (value : Value) : Value :=
  Component.mapLeavesAll (fun name => !Text.sameIgnoringCase name "var".toList)
    (fun kind text => if kind = .ident then sideKeywords.flip text else text) value

def saysSide (value : Value) : Bool :=
  Component.anyLeafAll (fun name => !Text.sameIgnoringCase name "var".toList)
    (fun kind text => kind = .ident && sideKeywords.covers text) value

def flipUrls (value : Value) : Value :=
  Component.mapLeavesAll (fun _ => true)
    (fun kind text => if kind = .url then flipUrl text else text) value

def hasSideUrl (value : Value) : Bool :=
  Component.anyLeafAll (fun _ => true) (fun kind text => kind = .url && (flipUrl? text).isSome) value

end Value

end StyleFlip
