import Mathlib.Data.List.TakeWhile
import StyleFlip.Config.Reader

/-!
# Progress in reading JSON

The loop over the entries of a list is given fuel, one unit for each character and one more. Every
entry takes at least one character, so the fuel lasts: any more of it gives the same result, be it a
value or a fault (`Lists.entriesWithin_eq`), and the loop reads on as if there were no fuel
(`Lists.entries_eq`). This holds for each of the four lists: the characters of a string, the elements
of an array, the members of an object and the members of a configuration.
-/

namespace StyleFlip

open Json

namespace Json.Reader

/-! ### What is left -/

/-- A reader that ends like this and succeeds leaves fewer than `n` characters. -/
def LeavesFewer {α : Type} (n : Nat) (result : Except Fault (α × Text)) : Prop :=
  ∀ a rest, result = .ok (a, rest) → rest.length < n

namespace LeavesFewer

variable {α β : Type} {m n : Nat} {rest : Text}

theorem error (fault : Fault) : LeavesFewer n (.error fault : Except Fault (α × Text)) := nofun

theorem ok {a : α} (h : rest.length < n) : LeavesFewer n (.ok (a, rest)) := by
  intro b rest' heq
  cases heq
  exact h

theorem mono {result : Except Fault (α × Text)} (h : LeavesFewer m result) (hmn : m ≤ n) :
    LeavesFewer n result := by
  intro a rest hresult
  exact Nat.lt_of_lt_of_le (h a rest hresult) hmn

theorem map {result : Except Fault (α × Text)} (h : LeavesFewer n result) (f : α × Text → β) :
    LeavesFewer n (result.map fun r => (f r, r.2)) := by
  cases result with
  | error fault => exact error fault
  | ok r => exact ok (h r.1 r.2 rfl)

theorem map_const (result : Except Fault α) (h : rest.length < n) :
    LeavesFewer n (result.map (·, rest)) := by
  cases result with
  | error fault => exact error fault
  | ok a => exact ok h

theorem bind {result : Except Fault (α × Text)} {f : α × Text → Except Fault (β × Text)}
    (h : LeavesFewer m result)
    (hf : ∀ a rest, rest.length < m → LeavesFewer n (f (a, rest))) :
    LeavesFewer n (result >>= f) := by
  cases result with
  | error fault => exact error fault
  | ok r => exact hf r.1 r.2 (h r.1 r.2 rfl)

theorem bind_const {result : Except Fault α} {f : α → Except Fault (β × Text)}
    (hf : ∀ a, LeavesFewer n (f a)) : LeavesFewer n (result >>= f) := by
  cases result with
  | error fault => exact error fault
  | ok a => exact hf a

end LeavesFewer

/-- A reader that succeeds has taken at least one character. -/
def Advances {α : Type} (reader : Reader α) : Prop := ∀ text, LeavesFewer text.length (reader text)

/-! ### Lists -/

/-- What a list does next in a text of `n` characters: its end takes one character or more, and an
entry starts in the text. -/
def FindsWithin (n : Nat) : Except Fault Next → Prop
  | .ok (.close rest) => rest.length < n
  | .ok (.entry text) => text.length ≤ n
  | .error _ => True

/-- The list goes forward in the text with its end and with each of its entries. -/
structure Lists {σ : Type} (next : Bool → Text → Except Fault Next) (entry : σ → Reader σ) :
    Prop where
  finds : ∀ first text, FindsWithin text.length (next first text)
  advances : ∀ read, Advances (entry read)

/-- One round of the loop over a list, with `more` for the rounds after it. -/
def round {σ : Type} (next : Bool → Text → Except Fault Next) (entry : σ → Reader σ)
    (more : σ → Reader σ) (first : Bool) (read : σ) : Reader σ := fun text => do
  match ← next first text with
  | .close rest => .ok (read, rest)
  | .entry text =>
    let (read, rest) ← entry read text
    more read rest

theorem entriesWithin_succ {σ : Type} (next : Bool → Text → Except Fault Next)
    (entry : σ → Reader σ) (fuel : Nat) (first : Bool) (read : σ) (text : Text) :
    entriesWithin next entry (fuel + 1) first read text =
      round next entry (entriesWithin next entry fuel false) first read text := rfl

namespace Lists

variable {σ : Type} {next : Bool → Text → Except Fault Next} {entry : σ → Reader σ}

theorem advances_round (h : Lists next entry) {more : σ → Reader σ}
    (hmore : ∀ read, Advances (more read)) (first : Bool) (read : σ) :
    Advances (round next entry more first read) := by
  intro text
  have hfinds := h.finds first text
  rw [round]
  cases hnext : next first text with
  | error fault => exact .error fault
  | ok found =>
      rw [hnext] at hfinds
      cases found with
      | close rest => exact .ok hfinds
      | entry after =>
          refine .bind (h.advances read after) fun read rest hrest => ?_
          exact (hmore read rest).mono (Nat.le_trans (Nat.le_of_lt hrest) hfinds)

/-- A round leaves less of the text to the rounds after it. -/
theorem round_congr (h : Lists next entry) {more more' : σ → Reader σ} {text : Text}
    (hmore : ∀ read rest, rest.length < text.length → more read rest = more' read rest)
    (first : Bool) (read : σ) :
    round next entry more first read text = round next entry more' first read text := by
  have hfinds := h.finds first text
  rw [round, round]
  cases hnext : next first text with
  | error fault => rfl
  | ok found =>
      rw [hnext] at hfinds
      cases found with
      | close rest => rfl
      | entry after =>
          cases hread : entry read after with
          | error fault => simp only [bind, Except.bind, hread]
          | ok r =>
              have hrest := h.advances read after r.1 r.2 hread
              have hrounds := hmore r.1 r.2 (Nat.lt_of_lt_of_le hrest hfinds)
              simp only [bind, Except.bind, hread, hrounds]

theorem advances_entriesWithin (h : Lists next entry) (fuel : Nat) (first : Bool) (read : σ) :
    Advances (entriesWithin next entry fuel first read) := by
  induction fuel generalizing first read with
  | zero => exact fun text => .error _
  | succ fuel ih => exact h.advances_round (ih false) first read

/-- As much fuel as the text has characters is enough, and one unit more for its end. -/
theorem entriesWithin_eq (h : Lists next entry) {fuel fuel' : Nat} (first : Bool) (read : σ)
    {text : Text} (hfuel : text.length < fuel) (hfuel' : text.length < fuel') :
    entriesWithin next entry fuel first read text =
      entriesWithin next entry fuel' first read text := by
  induction fuel generalizing fuel' first read text with
  | zero => omega
  | succ fuel ih =>
      obtain ⟨fuel', rfl⟩ : ∃ n, fuel' = n + 1 := ⟨fuel' - 1, by omega⟩
      rw [entriesWithin_succ, entriesWithin_succ]
      refine h.round_congr (fun read rest hrest => ?_) first read
      exact ih false read (by omega) (by omega)

/-- The loop without its fuel. -/
theorem entries_eq (h : Lists next entry) (first : Bool) (read : σ) (text : Text) :
    entries next entry first read text =
      round next entry (entries next entry false) first read text := by
  rw [entries, entriesWithin_succ]
  refine h.round_congr (fun read rest hrest => ?_) first read
  exact h.entriesWithin_eq false read hrest (Nat.lt_succ_self _)

theorem advances_entries (h : Lists next entry) (first : Bool) (read : σ) :
    Advances (entries next entry first read) :=
  fun text => h.advances_entriesWithin (text.length + 1) first read text

end Lists

theorem advances_push {α : Type} {reader : Reader α} (h : Advances reader) (read : List α) :
    Advances (push reader read) :=
  fun text => (h text).map fun r => r.1 :: read

theorem advances_listOf {α : Type} {next : Bool → Text → Except Fault Next} {reader : Reader α}
    (h : Lists next (push reader)) : Advances (listOf next reader) :=
  fun text => (h.advances_entries true [] text).map fun r => r.1.reverse

/-! ### Space and literals -/

theorem length_lt_of_dropWhile {p : Char → Bool} {text rest : Text} {c : Char}
    (h : text.dropWhile p = c :: rest) : rest.length < text.length := by
  have hle := List.length_dropWhile_le p text
  rwa [h] at hle

theorem length_lt_of_skipSpace {text rest : Text} {c : Char} (h : skipSpace text = c :: rest) :
    rest.length < text.length :=
  length_lt_of_dropWhile h

theorem leavesFewer_literal (word text : Text) :
    LeavesFewer (text.length + 1) (literal word text) := by
  induction word generalizing text with
  | nil => exact .ok (Nat.lt_succ_self _)
  | cons c word ih =>
      cases text with
      | nil => exact .error _
      | cons d text =>
          rw [literal]
          split
          · exact (ih text).mono (by simp)
          · exact .error _

/-! ### Numbers -/

theorem length_exponentSign_le (text : Text) : (exponentSign text).2.length ≤ text.length := by
  unfold exponentSign
  split <;> simp

theorem leavesFewer_exponentPart (positive : Bool) (significand : Nat) (exponent : Int)
    (text : Text) :
    LeavesFewer (text.length + 1) (exponentPart positive significand exponent text) := by
  have hsign := length_exponentSign_le text
  have hdigits := List.length_dropWhile_le Char.isDigit (exponentSign text).2
  rw [exponentPart]
  dsimp only
  split
  · exact .error _
  · exact .map_const _ (by omega)

theorem leavesFewer_fractionPart (positive : Bool) (significand : Nat) (exponent : Int)
    (text : Text) :
    LeavesFewer (text.length + 1) (fractionPart positive significand exponent text) := by
  rw [fractionPart]
  dsimp only
  split
  · exact .error _
  split
  · rename_i hmark
    exact (leavesFewer_exponentPart _ _ _ _).mono (Nat.le_succ_of_le (length_lt_of_dropWhile hmark))
  · rename_i hmark
    exact (leavesFewer_exponentPart _ _ _ _).mono (Nat.le_succ_of_le (length_lt_of_dropWhile hmark))
  · exact .map_const _ (Nat.lt_succ_of_le (List.length_dropWhile_le Char.isDigit text))

theorem length_dropWhile_isDigit_lt {text digits : Text} {d : Char}
    (h : text.takeWhile Char.isDigit = d :: digits) :
    (text.dropWhile Char.isDigit).length < text.length := by
  have hparts : text.takeWhile Char.isDigit ++ text.dropWhile Char.isDigit = text :=
    List.takeWhile_append_dropWhile
  have hlength := congrArg List.length hparts
  rw [h] at hlength
  simp only [List.length_append, List.length_cons] at hlength
  omega

theorem advances_unsignedNumber (positive : Bool) : Advances (unsignedNumber positive) := by
  intro text
  rw [unsignedNumber]
  dsimp only
  cases hdigits : text.takeWhile Char.isDigit with
  | nil => exact .error _
  | cons d digits =>
      split
      · exact .error _
      · exact .error _
      split
      · rename_i hpoint
        exact (leavesFewer_fractionPart _ _ _ _).mono (length_lt_of_dropWhile hpoint)
      · rename_i hmark
        exact (leavesFewer_exponentPart _ _ _ _).mono (length_lt_of_dropWhile hmark)
      · rename_i hmark
        exact (leavesFewer_exponentPart _ _ _ _).mono (length_lt_of_dropWhile hmark)
      · exact .map_const _ (length_dropWhile_isDigit_lt hdigits)

/-! ### Strings -/

theorem advances_hexEscape : Advances hexEscape := by
  intro text
  unfold hexEscape
  split
  · split
    · exact .ok (by simp only [List.length_cons]; omega)
    · exact .error _
  · exact .error _

theorem advances_unicodeEscape : Advances unicodeEscape := by
  intro text
  refine .bind (advances_hexEscape text) fun lead rest hrest => ?_
  dsimp only
  split
  · exact .error _
  split
  · split
    · exact .error _
    · exact .error _
    · -- The trailing surrogate is a second escape.
      refine .bind (advances_hexEscape _) fun trail rest' hrest' => ?_
      dsimp only
      split
      · exact .ok (by simp only [List.length_cons] at hrest; omega)
      · exact .error _
    · exact .error _
  · exact .ok hrest

theorem advances_escape : Advances escape := by
  intro text
  unfold escape
  split
  case h_10 rest => exact (advances_unicodeEscape rest).mono (by simp)
  all_goals first | exact .error _ | exact .ok (by simp)

theorem advances_character : Advances character := by
  intro text
  unfold character
  split
  · exact .error _
  · exact (advances_escape _).mono (by simp)
  · split
    · exact .error _
    · exact .ok (by simp)

theorem lists_characters : Lists nextChar (push character) where
  finds first text := by
    unfold nextChar
    split
    · trivial
    · exact Nat.lt_succ_self _
    · exact Nat.le_refl _
  advances := advances_push advances_character

theorem advances_string : Advances string := advances_listOf lists_characters

/-! ### Values -/

theorem advances_colon : Advances colon := by
  intro text
  rw [colon]
  split
  · rename_i h
    exact .ok (length_lt_of_skipSpace h)
  · exact .error _
  · exact .error _

theorem lists_elements {α : Type} {reader : Reader α} (h : Advances reader) :
    Lists nextElement (push reader) where
  finds first text := by
    unfold nextElement
    split
    · trivial
    · rename_i hfront
      exact length_lt_of_skipSpace hfront
    · rename_i c rest _ hfront
      have hrest := length_lt_of_skipSpace hfront
      split
      · exact hrest
      split
      · split
        · trivial
        · trivial
        · exact Nat.le_trans (List.length_dropWhile_le isSpace rest) (Nat.le_of_lt hrest)
      · trivial
  advances := advances_push h

theorem lists_members {σ : Type} {entry : σ → Reader σ} (h : ∀ read, Advances (entry read)) :
    Lists nextMember entry where
  finds first text := by
    unfold nextMember
    split
    · trivial
    · rename_i hfront
      exact length_lt_of_skipSpace hfront
    · rename_i c rest _ hfront
      have hrest := length_lt_of_skipSpace hfront
      split
      · split
        · exact Nat.le_of_lt hrest
        · trivial
      split
      · split
        · rename_i hquote
          exact Nat.le_of_lt (Nat.lt_trans (length_lt_of_skipSpace hquote) hrest)
        · trivial
        · trivial
      · trivial
  advances := h

theorem advances_member {value : Reader Json} (h : Advances value) : Advances (member value) := by
  intro text
  refine .bind (advances_string text) fun key rest hkey => ?_
  refine .bind (advances_colon rest) fun _ rest' hcolon => ?_
  exact ((h rest').map _).mono (by omega)

theorem advances_value (depth : Nat) : Advances (value depth) := by
  induction depth with
  | zero => exact fun _ => .error _
  | succ depth ih =>
      have harray : Advances (listOf nextElement (value depth)) :=
        advances_listOf (lists_elements ih)
      have hobject : Advances (listOf nextMember (member (value depth))) :=
        advances_listOf (lists_members (advances_push (advances_member ih)))
      intro text
      simp only [value]
      split
      · exact .error _
      all_goals
        rename_i hfront
        have hrest := length_lt_of_skipSpace hfront
      · exact ((leavesFewer_literal _ _).map _).mono hrest
      · exact ((leavesFewer_literal _ _).map _).mono hrest
      · exact ((leavesFewer_literal _ _).map _).mono hrest
      · exact ((advances_unsignedNumber false _).map _).mono (by omega)
      · exact ((advances_string _).map _).mono (by omega)
      · split
        · exact .error _
        · exact ((harray _).map _).mono (by omega)
      · split
        · exact .error _
        · exact ((hobject _).map _).mono (by omega)
      · split
        · exact ((advances_unsignedNumber true _).map _).mono hrest
        · exact .error _

theorem lists_arrays (depth : Nat) : Lists nextElement (push (value depth)) :=
  lists_elements (advances_value depth)

theorem lists_objects (depth : Nat) : Lists nextMember (push (member (value depth))) :=
  lists_members (advances_push (advances_member (advances_value depth)))

end Json.Reader

/-! ### Configurations -/

namespace Config

open Json.Reader

theorem advances_readDirectionObject : Advances readDirectionObject := by
  intro text
  rw [readDirectionObject]
  split
  · rename_i rest hquote
    have hrest := length_lt_of_skipSpace hquote
    refine .bind (advances_string _) fun name rest hname => ?_
    refine .bind_const fun d => ?_
    refine .bind (advances_colon _) fun _ rest hcolon => ?_
    dsimp only
    split
    · rename_i hnull
      have hnull := length_lt_of_skipSpace hnull
      refine .bind (leavesFewer_literal _ _) fun _ rest hword => ?_
      dsimp only
      split
      · rename_i hbrace
        have hbrace := length_lt_of_skipSpace hbrace
        exact .ok (by omega)
      · exact .error _
      · exact .error _
    · exact .error _
  · exact .error _
  · exact .error _

theorem advances_readDirection : Advances readDirection := by
  intro text
  rw [readDirection]
  split
  · exact .error _
  · rename_i hfront
    exact ((leavesFewer_literal _ _).map _).mono (length_lt_of_skipSpace hfront)
  · rename_i hfront
    have hrest := length_lt_of_skipSpace hfront
    refine .bind (advances_string _) fun name rest hname => ?_
    exact .bind_const fun d => .ok (by omega)
  · rename_i hfront
    have hrest := length_lt_of_skipSpace hfront
    exact ((advances_readDirectionObject _).map _).mono (Nat.le_of_lt hrest)
  · exact .error _

theorem advances_readBoolean : Advances readBoolean := by
  intro text
  rw [readBoolean]
  split
  · rename_i hfront
    exact ((leavesFewer_literal _ _).map _).mono (length_lt_of_skipSpace hfront)
  · rename_i hfront
    exact ((leavesFewer_literal _ _).map _).mono (length_lt_of_skipSpace hfront)
  · exact .error _

theorem advances_readMember (draft : Draft) (key : Text) : Advances (readMember draft key) := by
  intro text
  have hafter : ∀ {f : Unit × Text → Except Fault (Draft × Text)},
      (∀ rest, LeavesFewer rest.length (f ((), rest))) →
      LeavesFewer text.length (colon text >>= f) := by
    intro f hf
    exact .bind (advances_colon text) fun _ rest hcolon => (hf rest).mono (Nat.le_of_lt hcolon)
  rw [readMember]
  split
  · split
    · exact .error _
    · exact hafter fun rest => .bind (advances_readDirection rest) fun d rest hread => .ok hread
  split
  · split
    · exact .error _
    · exact hafter fun rest => .bind (advances_readBoolean rest) fun on rest hread => .ok hread
  · exact hafter fun rest => .bind (advances_value _ rest) fun json rest hread => .ok hread

theorem lists_entries : Lists Reader.nextMember readEntry := by
  refine lists_members fun draft text => ?_
  refine .bind (advances_string text) fun key rest hkey => ?_
  exact (advances_readMember draft key rest).mono (by omega)

end Config

end StyleFlip
