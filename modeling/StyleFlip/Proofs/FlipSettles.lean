import StyleFlip.Proofs.Items
import StyleFlip.Proofs.MirroredRule
import StyleFlip.Sheet.Reader

/-!
# What two flips lead to

Two flips give a stylesheet back, but for the letter case of what was flipped and for lists of three
corners, which come back as four. A third flip does what the first one did.
-/

namespace StyleFlip

namespace Item

mutual

/-- Replaces the rules that no marker guards. -/
def mapUnguarded (f : Rule → Rule) : Item → Item
  | .rule r => .rule (f r)
  | .group head items => .group head (mapUnguardedAll f false items)
  | item => item

/-- Replaces the rules of a list that no marker guards; `guarded` is about the first item. -/
def mapUnguardedAll (f : Rule → Rule) (guarded : Bool) : List Item → List Item
  | [] => []
  | item :: rest =>
    (if guarded then item else mapUnguarded f item) ::
      mapUnguardedAll f (item.role.guardNext guarded) rest

end

theorem mapUnguarded_of_isPlain {item : Item} (h : item.isPlain = true) (f : Rule → Rule) :
    mapUnguarded f item = item := by
  cases item <;> first | rfl | contradiction

theorem flipAll_eq_mapUnguardedAll (options : FlipOptions) (guarded : Bool) (items : List Item) :
    flipAll options guarded items = mapUnguardedAll (Rule.flip options) guarded items := by
  induction items using Item.listInduction generalizing guarded with
  | nil => rfl
  | rule r rest ih => rw [flipAll, mapUnguardedAll, flip, mapUnguarded, ih]
  | group head items rest ihitems ihrest =>
      rw [flipAll, mapUnguardedAll, flip, mapUnguarded, ihitems, ihrest]
  | plain item rest hplain ih =>
      rw [flipAll, mapUnguardedAll, flip_of_isPlain hplain, mapUnguarded_of_isPlain hplain, ih]

/-- Markers are not replaced, so a second replacement meets the rules that the first one met. -/
theorem mapUnguardedAll_mapUnguardedAll (f g : Rule → Rule) (guarded : Bool) (items : List Item) :
    mapUnguardedAll f guarded (mapUnguardedAll g guarded items) =
      mapUnguardedAll (fun r => f (g r)) guarded items := by
  induction items using Item.listInduction generalizing guarded with
  | nil => rfl
  | rule r rest ih =>
      cases guarded with
      | true => exact congrArg (Item.rule r :: ·) (ih false)
      | false => exact congrArg (Item.rule (f (g r)) :: ·) (ih false)
  | group head items rest ihitems ihrest =>
      cases guarded with
      | true => exact congrArg (Item.group head items :: ·) (ihrest false)
      | false =>
          show Item.group head _ :: _ = Item.group head _ :: _
          rw [ihitems false]
          exact congrArg (Item.group head _ :: ·) (ihrest false)
  | plain item rest hplain ih =>
      simp only [mapUnguardedAll, mapUnguarded_of_isPlain hplain, ite_self, ih]

end Item

namespace Stylesheet

/-- The stylesheet that two flips lead to: in every rule that no marker guards, what was flipped is in
its regular letter case, and lists of three corners have a fourth. -/
def settle (options : FlipOptions) (sheet : Stylesheet) : Stylesheet :=
  Item.mapUnguardedAll (Rule.settle options) false sheet

theorem flip_flip_eq_settle (options : FlipOptions) (sheet : Stylesheet) :
    flip options (flip options sheet) = settle options sheet ∧
      flip options (flip options (flip options sheet)) = flip options sheet := by
  have htwice : ∀ r : Rule, (r.flip options).flip options = r.settle options := Rule.flip_flip options
  simp only [flip, settle, Item.flipAll_eq_mapUnguardedAll, Item.mapUnguardedAll_mapUnguardedAll]
  exact ⟨by rw [funext htwice], by rw [funext (Rule.flip_flip_flip options)]⟩

example :
    render (settle {} (parse ".tOp-LEFt\x7blEFT:0;border-radius:1px 2px 3px\x7d".toList)) =
      ".tOp-Left\x7bleft:0;border-radius:1px 2px 3px 2px\x7d".toList := by
  decide +kernel

end Stylesheet

end StyleFlip
