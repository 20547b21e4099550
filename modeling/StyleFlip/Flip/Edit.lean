/-!
# Edits

The result of editing a value in steps, with a note whether any single step changed it. A step brings
its own account of which values it changes, and what is noted is that account: the values before and
after are not compared. Two steps that undo each other still count as a change.
-/

namespace StyleFlip

structure Edit (α : Type) where
  value : α
  changed : Bool

namespace Edit

variable {α : Type}

def start (a : α) : Edit α := ⟨a, false⟩

/-- One more step, which changes the values that `notes` tells. -/
def step (e : Edit α) (notes : α → Bool) (f : α → α) : Edit α :=
  ⟨f e.value, e.changed || notes e.value⟩

def stepIf (e : Edit α) (wanted : Bool) (notes : α → Bool) (f : α → α) : Edit α :=
  if wanted then e.step notes f else e

def all (edits : List (Edit α)) : Edit (List α) :=
  ⟨edits.map (·.value), edits.any (·.changed)⟩

/-- The account of a step is exact: it tells just the values that the step changes. -/
def Tells (notes : α → Bool) (f : α → α) : Prop := ∀ a, notes a = false ↔ f a = a

/-- The value is the one that the edit started from, unless it notes a change. -/
def From (a : α) (e : Edit α) : Prop := e.changed = false → e.value = a

theorem start_from (a : α) : (start a).From a := fun _ => rfl

theorem step_from {notes : α → Bool} {f : α → α} (htells : Tells notes f) {a : α} {e : Edit α}
    (h : e.From a) : (e.step notes f).From a := by
  intro hunchanged
  rw [step, Bool.or_eq_false_iff] at hunchanged
  rw [step, (htells e.value).mp hunchanged.2, h hunchanged.1]

theorem stepIf_from {notes : α → Bool} {f : α → α} (htells : Tells notes f) {a : α} {e : Edit α}
    (h : e.From a) (wanted : Bool) : (e.stepIf wanted notes f).From a := by
  unfold stepIf
  split
  · exact step_from htells h
  · exact h

end Edit

end StyleFlip
