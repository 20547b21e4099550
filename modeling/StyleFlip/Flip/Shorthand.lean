import StyleFlip.Flip.Edit
import StyleFlip.Flip.Table
import StyleFlip.Value.Basic

/-!
# Flipping shorthands

The slots of a value are its components, trivia aside, up to `!important`. Flipping a shorthand
works on the positions of the slots: it moves components between them and leaves what stands between
the slots in place.
-/

namespace StyleFlip

/-- Which corner of the given list each corner of the flipped list shows. Nothing moves in a list of
one corner. -/
def cornerOrder : Nat → Option (List Nat)
  | 2 => some [1, 0]
  | 3 => some [1, 0, 1, 2]
  | 4 => some [1, 0, 3, 2]
  | _ => none

namespace Value

/-- The components before the first exclamation mark. -/
def front (value : Value) : Value := value.takeWhile (!·.isDelim '!')

def slots (value : Value) : List Component := (front value).filter (!·.isTrivia)

def groupsAt (mark : Char) : List Component → List (List Component)
  | [] => [[]]
  | c :: rest =>
    if c.isDelim mark then [] :: groupsAt mark rest
    else
      match groupsAt mark rest with
      | group :: more => (c :: group) :: more
      | [] => [[c]]

def slotPlaces (value : Value) : List Nat :=
  ((value.zipIdx.takeWhile fun entry => !entry.1.isDelim '!').filter fun entry =>
    !entry.1.isTrivia).map (·.2)

def swap (i j : Nat) (value : Value) : Value :=
  match value[i]?, value[j]? with
  | some a, some b => (value.set i b).set j a
  | _, _ => value

/-- Top, right, bottom, left: the second and the fourth change places, unless they are the same.
Fewer slots give the left and the right side the same component. -/
def permuteBox (value : Value) : Edit Value :=
  match slotPlaces value with
  | [_, right, _, left] =>
    if value[right]? = value[left]? then .start value else ⟨swap right left value, true⟩
  | _ => .start value

def overwrite (value : Value) (entries : List (Nat × Component)) : Value :=
  entries.foldl (fun value entry => value.set entry.1 entry.2) value

def insertSpaced (i : Nat) : List Component → Value → Value
  | [], value => value
  | c :: rest, value =>
    insertSpaced (i + 2) rest ((value.insertIdx i (.leaf .whitespace [' '])).insertIdx (i + 1) c)

/-- Flips the list of corners that stand at some positions. If the flipped list is longer, what is
left of it comes behind the last position. -/
def permuteGroup (places : List Nat) (value : Value) : Value :=
  match cornerOrder places.length with
  | none => value
  | some order =>
    let original := places.filterMap (value[·]?)
    let corners := order.filterMap (original[·]?)
    insertSpaced (places.getLastD 0 + 1) (corners.drop places.length)
      (overwrite value (places.zip corners))

/-- Flips the horizontal and the vertical radii, which a slash divides. The last list is flipped
first, so that the positions in front of it stay. -/
def permuteCorners (value : Value) : Edit Value :=
  let groups := (slotPlaces value).splitOnP fun i => value[i]?.any (·.isDelim '/')
  let flipped := groups.foldr permuteGroup value
  ⟨flipped, flipped ≠ value⟩

end Value

namespace Shorthand

def edit : Shorthand → Value → Edit Value
  | .box => Value.permuteBox
  | .corners => Value.permuteCorners

def flip (shorthand : Shorthand) (value : Value) : Value := (shorthand.edit value).value

def moves (shorthand : Shorthand) (value : Value) : Bool := (shorthand.edit value).changed

end Shorthand

end StyleFlip
