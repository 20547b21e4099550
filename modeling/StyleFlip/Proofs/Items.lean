import StyleFlip.Clean
import StyleFlip.Flip.Sheet
import StyleFlip.Outline.Reader

/-!
# Induction over stylesheet trees

Items hold lists of items, so a statement about a stylesheet is proved for lists of items: for the
items in a group and for the items after it. Rules and groups are the only items that cleaning and
flipping look into; all others are plain.
-/

namespace StyleFlip

namespace Item

/-- An item that no operation on stylesheets looks into. -/
def isPlain : Item → Bool
  | .rule _ => false
  | .group _ _ => false
  | _ => true

@[elab_as_elim]
theorem listInduction {motive : List Item → Prop} (nil : motive [])
    (rule : ∀ r rest, motive rest → motive (.rule r :: rest))
    (group : ∀ head items rest, motive items → motive rest → motive (.group head items :: rest))
    (plain : ∀ item rest, item.isPlain = true → motive rest → motive (item :: rest)) :
    ∀ items : List Item, motive items
  | [] => nil
  | .rule r :: rest => rule r rest (listInduction nil rule group plain rest)
  | .group head items :: rest =>
      group head items rest (listInduction nil rule group plain items)
        (listInduction nil rule group plain rest)
  | .statement head semicolon :: rest =>
      plain _ rest rfl (listInduction nil rule group plain rest)
  | .verbatim head block :: rest => plain _ rest rfl (listInduction nil rule group plain rest)
  | .comment c :: rest => plain _ rest rfl (listInduction nil rule group plain rest)
  | .whitespace text :: rest => plain _ rest rfl (listInduction nil rule group plain rest)
  | .raw r :: rest => plain _ rest rfl (listInduction nil rule group plain rest)

section Plain

variable {item : Item} (h : item.isPlain = true)

include h

theorem rules_of_isPlain : rules item = [] := by
  cases item <;> first | rfl | contradiction

theorem mapRules_of_isPlain (f : Rule → Rule) : mapRules f item = item := by
  cases item <;> first | rfl | contradiction

theorem clean_of_isPlain (d : Direction) : clean d item = item := by
  cases item <;> first | rfl | contradiction

theorem flip_of_isPlain (options : FlipOptions) : flip options item = item := by
  cases item <;> first | rfl | contradiction

theorem gather_of_isPlain {β : Type} (f : Bool → Rule → List β) (guarded : Bool) :
    gather f guarded item = [] := by
  cases item <;> first | rfl | contradiction

end Plain

theorem map_gatherAll {β γ : Type} (g : β → γ) (f : Bool → Rule → List β) (guarded : Bool)
    (items : List Item) :
    (Item.gatherAll f guarded items).map g =
      Item.gatherAll (fun guarded r => (f guarded r).map g) guarded items := by
  induction items using listInduction generalizing guarded with
  | nil => rfl
  | rule r rest ih => simp [Item.gatherAll, gather, ih]
  | group head items rest ihitems ihrest =>
      cases guarded <;> simp [Item.gatherAll, gather, ihitems, ihrest]
  | plain item rest hplain ih => simp [Item.gatherAll, gather_of_isPlain hplain, ih]

/-- Whether the item after these is guarded. -/
def guardAfter (guarded : Bool) (items : List Item) : Bool :=
  items.foldl (fun guarded item => item.role.guardNext guarded) guarded

theorem flipAll_append (options : FlipOptions) (guarded : Bool) (a b : List Item) :
    flipAll options guarded (a ++ b) =
      flipAll options guarded a ++ flipAll options (guardAfter guarded a) b := by
  induction a generalizing guarded with
  | nil => rfl
  | cons item a ih =>
      rw [List.cons_append, flipAll, ih, flipAll, List.cons_append]
      rfl

theorem gatherAll_append {β : Type} (f : Bool → Rule → List β) (guarded : Bool) (a b : List Item) :
    gatherAll f guarded (a ++ b) =
      gatherAll f guarded a ++ gatherAll f (guardAfter guarded a) b := by
  induction a generalizing guarded with
  | nil => rfl
  | cons item a ih =>
      rw [List.cons_append, gatherAll, ih, gatherAll, List.append_assoc]
      rfl

@[simp]
theorem renderAll_append (a b : List Item) : renderAll (a ++ b) = renderAll a ++ renderAll b := by
  induction a with
  | nil => rfl
  | cons item a ih => simp [renderAll, ih]

@[simp]
theorem rulesAll_append (a b : List Item) : rulesAll (a ++ b) = rulesAll a ++ rulesAll b := by
  induction a with
  | nil => rfl
  | cons item a ih => simp [rulesAll, ih]

end Item

@[elab_as_elim]
theorem Outline.listInduction {motive : List Outline → Prop} (nil : motive [])
    (group : ∀ keyword params opening items closing rest, motive items → motive rest →
      motive (.group keyword params opening items closing :: rest))
    (other : ∀ entry rest,
      (∀ keyword params opening items closing, entry ≠ .group keyword params opening items closing) →
      motive rest → motive (entry :: rest)) :
    ∀ entries : List Outline, motive entries
  | [] => nil
  | .group keyword params opening items closing :: rest =>
      group _ _ _ _ _ rest (listInduction nil group other items)
        (listInduction nil group other rest)
  | .whitespace _ :: rest => other _ rest (by simp) (listInduction nil group other rest)
  | .comment _ :: rest => other _ rest (by simp) (listInduction nil group other rest)
  | .raw _ _ :: rest => other _ rest (by simp) (listInduction nil group other rest)
  | .rule _ _ _ _ :: rest => other _ rest (by simp) (listInduction nil group other rest)
  | .statement _ _ _ :: rest => other _ rest (by simp) (listInduction nil group other rest)
  | .verbatim _ _ _ _ _ :: rest => other _ rest (by simp) (listInduction nil group other rest)

end StyleFlip
