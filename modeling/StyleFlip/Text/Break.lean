import StyleFlip.Text.Basic

/-!
# Breaking a text at a character
-/

namespace StyleFlip.Text

/-- Breaks a text in front of the last occurrence of a character; without one, the second part is
empty. -/
def breakLast (c : Char) : Text → Text × Text
  | [] => ([], [])
  | d :: rest =>
    match breakLast c rest with
    | (before, found :: after) => (d :: before, found :: after)
    | (before, []) => if d = c then ([], d :: rest) else (d :: before, [])

theorem breakLast_append (c : Char) (text : Text) :
    (breakLast c text).1 ++ (breakLast c text).2 = text := by
  induction text with
  | nil => rfl
  | cons d rest ih =>
    unfold breakLast
    split <;> rename_i heq <;> rw [heq] at ih
    · simpa using ih
    · split <;> simp_all

def breakAfterFirst? (c : Char) : Text → Option (Text × Text)
  | [] => none
  | d :: rest =>
    if d = c then some ([d], rest) else (breakAfterFirst? c rest).map (Prod.map (d :: ·) id)

end StyleFlip.Text
