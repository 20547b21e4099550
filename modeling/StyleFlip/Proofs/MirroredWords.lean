import StyleFlip.Flip.Value
import StyleFlip.Proofs.Mirroring

/-!
# Words that flip back

Flipping the words of a text leaves every other character in its place, so the words of the flipped
text are the flipped words. A url keeps its parentheses, and it holds data after the flip if and only
if it did before. So a second flip gives a text back with its words in their regular letter case.
-/

namespace StyleFlip

open Lexer

namespace Text

/-- A text is empty, starts with a character of no word, or starts with a word. -/
@[elab_as_elim]
theorem wordInduction {motive : Text → Prop} (nil : motive [])
    (other : ∀ c rest, c.isAlphanum = false → motive rest → motive (c :: rest))
    (word : ∀ w rest, w ≠ [] → (∀ c ∈ w, c.isAlphanum = true) →
      startsWith Char.isAlphanum rest = false → motive rest → motive (w ++ rest)) :
    ∀ text : Text, motive text
  | [] => nil
  | c :: rest => by
      by_cases hc : c.isAlphanum = true
      · have hsplit := List.takeWhile_append_dropWhile (p := Char.isAlphanum) (l := c :: rest)
        rw [← hsplit]
        refine word _ _ (by simp [hc]) (fun d hd => ?_) ?_
          (wordInduction nil other word ((c :: rest).dropWhile Char.isAlphanum))
        · exact List.all_eq_true.mp List.all_takeWhile d hd
        · cases hdrop : (c :: rest).dropWhile Char.isAlphanum with
          | nil => rfl
          | cons d more =>
              have hstop := List.head?_dropWhile_not Char.isAlphanum (c :: rest)
              rw [hdrop] at hstop
              simpa [startsWith] using hstop
      · exact other c rest (by simpa using hc) (wordInduction nil other word rest)
termination_by text => text.length
decreasing_by
  · have hlength := (List.dropWhile_suffix (l := rest) Char.isAlphanum).length_le
    simp only [List.dropWhile_cons, hc, if_true, List.length_cons]
    omega
  · simp

theorem pieces_of_startsWith {rest : Text} (h : startsWith Char.isAlphanum rest = false)
    (c : Char) : pushLetter c (pieces rest) = .word [c] :: pieces rest := by
  cases rest with
  | nil => rfl
  | cons d rest =>
      have hd : d.isAlphanum = false := h
      simp [pieces, hd, pushLetter]

theorem pieces_word {w rest : Text} (hne : w ≠ []) (hw : ∀ c ∈ w, c.isAlphanum = true)
    (hrest : startsWith Char.isAlphanum rest = false) :
    pieces (w ++ rest) = .word w :: pieces rest := by
  induction w with
  | nil => contradiction
  | cons c w ih =>
      rw [List.cons_append, pieces, if_pos (hw c (by simp))]
      cases w with
      | nil => exact pieces_of_startsWith hrest c
      | cons d w =>
          rw [ih (by simp) fun e he => hw e (by simp [he])]
          rfl

theorem mapWords_cons (f : Text → Text) {c : Char} (h : c.isAlphanum = false) (rest : Text) :
    mapWords f (c :: rest) = c :: mapWords f rest := by
  simp [mapWords, pieces, h]

theorem mapWords_word (f : Text → Text) {w rest : Text} (hne : w ≠ [])
    (hw : ∀ c ∈ w, c.isAlphanum = true) (hrest : startsWith Char.isAlphanum rest = false) :
    mapWords f (w ++ rest) = f w ++ mapWords f rest := by
  simp [mapWords, pieces_word hne hw hrest]

theorem mapWords_eq_self {f : Text → Text} {text : Text}
    (h : ∀ w, Piece.word w ∈ pieces text → f w = w) : mapWords f text = text := by
  conv => rhs; rw [← flatMap_text_pieces text]
  rw [mapWords, List.flatMap_def, List.flatMap_def]
  refine congrArg List.flatten (List.map_congr_left fun piece hpiece => ?_)
  cases piece with
  | word w => exact h w hpiece
  | other c => rfl

theorem anyWord_cons (p : Text → Bool) {c : Char} (h : c.isAlphanum = false) (rest : Text) :
    anyWord p (c :: rest) = anyWord p rest := by
  simp [anyWord, pieces, h]

theorem anyWord_word (p : Text → Bool) {w rest : Text} (hne : w ≠ [])
    (hw : ∀ c ∈ w, c.isAlphanum = true) (hrest : startsWith Char.isAlphanum rest = false) :
    anyWord p (w ++ rest) = (p w || anyWord p rest) := by
  simp [anyWord, pieces_word hne hw hrest]

theorem anyWord_eq_false_iff {p : Text → Bool} {text : Text} :
    anyWord p text = false ↔ ∀ w, Piece.word w ∈ pieces text → p w = false := by
  rw [anyWord, List.any_eq_false]
  constructor
  · intro h w hw
    simpa using h (.word w) hw
  · intro h piece hpiece
    cases piece with
    | word w => simpa using h w hpiece
    | other c => simp

theorem takeWhile_append_of_stop {p : Char → Bool} {w rest : Text} (hw : ∀ c ∈ w, p c = true)
    (hrest : startsWith p rest = false) :
    (w ++ rest).takeWhile p = w ∧ (w ++ rest).dropWhile p = rest := by
  rw [List.takeWhile_append_of_pos hw, List.dropWhile_append_of_pos hw]
  cases rest with
  | nil => exact ⟨List.append_nil w, rfl⟩
  | cons d rest =>
      have hd : ¬ p d = true := by simpa [startsWith] using hrest
      rw [List.takeWhile_cons_of_neg hd, List.dropWhile_cons_of_neg hd, List.append_nil]
      exact ⟨rfl, rfl⟩

end Text

open Text

/-! ### Going through the words -/

/-- Whether some word of a text says a side. -/
def saysSide (text : Text) : Bool := anyWord sideWords.covers text

/-- Going through a text finds its words and flips each of them. -/
theorem scanWords_eq (text : Text) :
    scanWords text = ⟨mapWords sideWords.flip text, saysSide text⟩ := by
  induction text using wordInduction with
  | nil => rw [scanWords]; rfl
  | other c rest hc ih =>
      rw [scanWords, if_neg (by simp [hc]), ih, mapWords_cons _ hc, saysSide, saysSide,
        anyWord_cons _ hc]
  | word w rest hne hw hrest ih =>
      rw [mapWords_word _ hne hw hrest, saysSide, anyWord_word _ hne hw hrest, Pairs.flip,
        Pairs.covers]
      obtain ⟨c, w, rfl⟩ := List.exists_cons_of_ne_nil hne
      obtain ⟨htake, hdrop⟩ :=
        takeWhile_append_of_stop (w := w) (fun d hd => hw d (by simp [hd])) hrest
      rw [List.cons_append, scanWords, if_pos (hw c (by simp)), htake, hdrop, ih]
      dsimp only
      cases sideWords.counterpart? (c :: w) <;> rfl

theorem flipWords_eq_mapWords (text : Text) : flipWords text = mapWords sideWords.flip text := by
  rw [flipWords, flipWords?, scanWords_eq]
  cases hside : saysSide text with
  | true => rfl
  | false =>
      symm
      apply mapWords_eq_self
      intro w hw
      exact (Pairs.tells_covers Pairs.isSound_sideWords w).mp (anyWord_eq_false_iff.mp hside w hw)

theorem flipWords?_eq (text : Text) :
    flipWords? text = if saysSide text then some (flipWords text) else none := by
  rw [flipWords_eq_mapWords, flipWords?, scanWords_eq]

theorem flipWords_nil : flipWords [] = [] := flipWords_eq_mapWords []

theorem flipWords_cons {c : Char} (h : c.isAlphanum = false) (rest : Text) :
    flipWords (c :: rest) = c :: flipWords rest := by
  rw [flipWords_eq_mapWords, flipWords_eq_mapWords, mapWords_cons _ h]

theorem flipWords_word {w rest : Text} (hne : w ≠ []) (hw : ∀ c ∈ w, c.isAlphanum = true)
    (hrest : startsWith Char.isAlphanum rest = false) :
    flipWords (w ++ rest) = sideWords.flip w ++ flipWords rest := by
  rw [flipWords_eq_mapWords, flipWords_eq_mapWords, mapWords_word _ hne hw hrest]

/-! ### Words that are flipped twice -/

theorem respelled_flipWords (text : Text) : Respelled text (flipWords text) := by
  induction text using wordInduction with
  | nil =>
      rw [flipWords_nil]
      exact .nil
  | other c rest hc ih =>
      rw [flipWords_cons hc]
      exact ih.keep c
  | word w rest hne hw hrest ih =>
      rw [flipWords_word hne hw hrest]
      exact (Pairs.respelled_flip Pairs.isSound_sideWords w).append ih

/-- The counterpart of a word is a word. -/
theorem isAlphanum_of_mem_flip {w : Text} (hw : ∀ c ∈ w, c.isAlphanum = true) :
    ∀ c ∈ sideWords.flip w, c.isAlphanum = true := by
  cases hother : sideWords.counterpart? w with
  | none => simpa [Pairs.flip, hother] using hw
  | some other =>
      obtain ⟨-, hname, -, -, hmem, -⟩ := Pairs.counterpart?_symm Pairs.isSound_sideWords hother
      have hletters : other.all Char.isLower = true := by
        have hall : (Pairs.names sideWords).all (·.all Char.isLower) = true := by decide +kernel
        exact List.all_eq_true.mp hall other hmem
      intro c hc
      have hlower : c.toLower ∈ Text.lower (sideWords.flip w) := List.mem_map_of_mem hc
      rw [Pairs.flip, hother, Text.lower_inCaseOf, Pairs.lower_of_isName hname] at hlower
      have hsmall : isSmall c.toLower = true := by
        simp [isSmall, List.all_eq_true.mp hletters _ hlower]
      rcases isRunChar_cases (isRunChar_of_isSmall_toLower hsmall) with halpha | rfl
      · simp [Char.isAlphanum, halpha]
      · exact absurd (List.all_eq_true.mp hletters _ hlower) (by decide)

theorem flip_ne_nil {w : Text} (h : w ≠ []) : sideWords.flip w ≠ [] := by
  intro hnil
  have hrespelled := (Pairs.respelled_flip Pairs.isSound_sideWords w).symm
  rw [hnil] at hrespelled
  exact h hrespelled.eq_nil

/-- What a text starts with does not depend on its words, apart from whether it starts with one. -/
theorem startsWith_flipWords {p : Char → Bool} {b : Bool} (hp : ∀ c, c.isAlphanum = true → p c = b)
    (text : Text) : startsWith p (flipWords text) = startsWith p text := by
  cases text using wordInduction with
  | nil => rw [flipWords_nil]
  | other c rest hc _ =>
      rw [flipWords_cons hc]
      rfl
  | word w rest hne hw hrest _ =>
      have hfirst : ∀ v more : Text, v ≠ [] → (∀ c ∈ v, c.isAlphanum = true) →
          startsWith p (v ++ more) = b := by
        intro v more hv hall
        obtain ⟨c, v, rfl⟩ := List.exists_cons_of_ne_nil hv
        exact hp c (hall c (by simp))
      rw [flipWords_word hne hw hrest, hfirst _ _ hne hw,
        hfirst _ _ (flip_ne_nil hne) (isAlphanum_of_mem_flip hw)]

/-- The words of a flipped text are the flipped words. -/
theorem mapWords_flipWords (f : Text → Text) (text : Text) :
    mapWords f (flipWords text) = mapWords (fun w => f (sideWords.flip w)) text := by
  induction text using wordInduction with
  | nil =>
      rw [flipWords_nil]
      rfl
  | other c rest hc ih => rw [flipWords_cons hc, mapWords_cons _ hc, mapWords_cons _ hc, ih]
  | word w rest hne hw hrest ih =>
      have hstop : startsWith Char.isAlphanum (flipWords rest) = false := by
        rw [startsWith_flipWords fun _ hc => hc, hrest]
      rw [flipWords_word hne hw hrest,
        mapWords_word _ (flip_ne_nil hne) (isAlphanum_of_mem_flip hw) hstop,
        mapWords_word _ hne hw hrest, ih]

/-- The text with the words that flipping it flips in their regular letter case. -/
def settleWords (text : Text) : Text := mapWords sideWords.settle text

theorem flipWords_flipWords (text : Text) : flipWords (flipWords text) = settleWords text := by
  rw [flipWords_eq_mapWords (flipWords text), mapWords_flipWords, funext (Pairs.flip_flip Pairs.isSound_sideWords), settleWords]

theorem settleWords_flipWords (text : Text) : settleWords (flipWords text) = flipWords text := by
  rw [settleWords, mapWords_flipWords, funext (Pairs.settle_flip Pairs.isSound_sideWords),
    flipWords_eq_mapWords]

/-- Every word of the text has a letter case that allows to flip it back. -/
def admitsWords (text : Text) : Bool :=
  (pieces text).all fun
    | .word letters => sideWords.admits letters
    | .other _ => true

theorem settleWords_of_admits {text : Text} (h : admitsWords text = true) :
    settleWords text = text := by
  refine mapWords_eq_self fun w hw => Pairs.settle_of_admits ?_
  exact List.all_eq_true.mp h _ hw

theorem flipWords_append_cons (a : Text) {c : Char} (hc : c.isAlphanum = false) (b : Text) :
    flipWords (a ++ c :: b) = flipWords a ++ c :: flipWords b := by
  induction a using wordInduction with
  | nil =>
      rw [flipWords_nil]
      exact flipWords_cons hc b
  | other d rest hd ih =>
      rw [List.cons_append, flipWords_cons hd, ih, flipWords_cons hd]
      rfl
  | word w rest hne hw hrest ih =>
      have hstop : startsWith Char.isAlphanum (rest ++ c :: b) = false := by
        cases rest with
        | nil => exact hc
        | cons d rest => exact hrest
      rw [List.append_assoc, flipWords_word hne hw hstop, ih, flipWords_word hne hw hrest,
        List.append_assoc]

theorem flipWords_append_of_other (a : Text) {b : Text} (hb : ∀ c ∈ b, c.isAlphanum = false) :
    flipWords (a ++ b) = flipWords a ++ b := by
  induction b generalizing a with
  | nil => simp
  | cons c b ih =>
      have hb' : flipWords b = b := by simpa [flipWords_nil] using ih [] fun d hd => hb d (by simp [hd])
      rw [flipWords_append_cons a (hb c (by simp)), hb']

theorem mem_of_mem_flipWords {c : Char} (hc : c.isAlphanum = false) {text : Text}
    (h : c ∈ flipWords text) : c ∈ text := by
  induction text using wordInduction with
  | nil =>
      rw [flipWords_nil] at h
      exact h
  | other d rest hd ih =>
      rw [flipWords_cons hd] at h
      exact (List.mem_cons.mp h).elim (fun heq => by simp [heq]) fun hmem => by simp [ih hmem]
  | word w rest hne hw hrest ih =>
      rw [flipWords_word hne hw hrest] at h
      rcases List.mem_append.mp h with hword | hmem
      · exact absurd (isAlphanum_of_mem_flip hw c hword) (by simp [hc])
      · simp [ih hmem]

/-! ### Urls -/

theorem dropWhile_flipWords {p : Char → Bool} (hp : ∀ c, c.isAlphanum = true → p c = false)
    (text : Text) : (flipWords text).dropWhile p = flipWords (text.dropWhile p) := by
  induction text with
  | nil =>
      rw [flipWords_nil]
      exact flipWords_nil.symm
  | cons c rest ih =>
      by_cases hc : p c = true
      · have hother : c.isAlphanum = false := by
          rw [Bool.eq_false_iff]
          intro halnum
          simp [hp c halnum] at hc
        rw [flipWords_cons hother, List.dropWhile_cons_of_pos hc, List.dropWhile_cons_of_pos hc, ih]
      · have hstart := startsWith_flipWords hp (c :: rest)
        rw [List.dropWhile_cons_of_neg hc]
        cases hflipped : flipWords (c :: rest) with
        | nil => rfl
        | cons d more =>
            rw [hflipped] at hstart
            have hd : ¬ p d = true := by
              rw [show p d = p c from hstart]
              exact hc
            exact List.dropWhile_cons_of_neg hd

theorem isAlphanum_iff {c : Char} : c.isAlphanum = true ↔
    (65 ≤ c.toNat ∧ c.toNat ≤ 90 ∨ 97 ≤ c.toNat ∧ c.toNat ≤ 122) ∨
      48 ≤ c.toNat ∧ c.toNat ≤ 57 := by
  rw [Char.isAlphanum, Bool.or_eq_true, isAlpha_iff, isUpper_iff, isLower_iff, isDigit_iff]

theorem not_isBlank_of_isAlphanum {c : Char} (h : c.isAlphanum = true) : isBlank c = false := by
  rw [isAlphanum_iff] at h
  simp only [isBlank, blankRanges, List.any_cons, List.any_nil, Bool.or_eq_false_iff,
    Bool.and_eq_false_imp, decide_eq_true_eq, decide_eq_false_iff_not, and_true]
  omega

theorem not_isAlphanum_of_isBlank {c : Char} (h : isBlank c = true) : c.isAlphanum = false := by
  rw [Bool.eq_false_iff]
  intro halnum
  simp [not_isBlank_of_isAlphanum halnum] at h

/-- The last character of a text, if there is one, is blank. -/
def endsBlank (text : Text) : Bool := text.getLast?.any isBlank

theorem endsBlank_append {b : Text} (hb : b ≠ []) (a : Text) : endsBlank (a ++ b) = endsBlank b := by
  rw [endsBlank, endsBlank, List.getLast?_append, List.getLast?_eq_some_getLast hb]
  rfl

theorem trimEnd_append {y b : Text} (hy : endsBlank y = false) (hb : ∀ c ∈ b, isBlank c = true) :
    trimEnd (y ++ b) = y := by
  rw [trimEnd, List.reverse_append, List.dropWhile_append_of_pos (by simpa using hb)]
  cases hreverse : y.reverse with
  | nil => simpa using hreverse
  | cons c rest =>
      have hlast : y.getLast? = some c := by rw [List.getLast?_eq_head?_reverse, hreverse]; rfl
      rw [endsBlank, hlast] at hy
      rw [List.dropWhile_cons_of_neg (by simpa using hy), ← hreverse, List.reverse_reverse]

theorem exists_trimEnd (text : Text) :
    ∃ b, text = trimEnd text ++ b ∧ (∀ c ∈ b, isBlank c = true) ∧ endsBlank (trimEnd text) = false := by
  refine ⟨(text.reverse.takeWhile isBlank).reverse, ?_, ?_, ?_⟩
  · rw [trimEnd, ← List.reverse_append, List.takeWhile_append_dropWhile, List.reverse_reverse]
  · intro c hc
    exact List.all_eq_true.mp List.all_takeWhile c (List.mem_reverse.mp hc)
  · rw [endsBlank, trimEnd, List.getLast?_reverse]
    have hstop := List.head?_dropWhile_not isBlank text.reverse
    cases hhead : (text.reverse.dropWhile isBlank).head? with
    | none => rfl
    | some c => simpa [hhead] using hstop

theorem flipWords_eq_nil_iff {text : Text} : flipWords text = [] ↔ text = [] := by
  constructor
  · intro h
    have hrespelled := (respelled_flipWords text).symm
    rw [h] at hrespelled
    exact hrespelled.eq_nil
  · rintro rfl
    exact flipWords_nil

theorem endsBlank_flipWords (text : Text) : endsBlank (flipWords text) = endsBlank text := by
  have hword : ∀ v : Text, v ≠ [] → (∀ c ∈ v, c.isAlphanum = true) → endsBlank v = false := by
    intro v hne hall
    rw [endsBlank, List.getLast?_eq_some_getLast hne]
    exact not_isBlank_of_isAlphanum (hall _ (List.getLast_mem hne))
  induction text using wordInduction with
  | nil => rw [flipWords_nil]
  | other c rest hc ih =>
      rw [flipWords_cons hc]
      by_cases hrest : rest = []
      · rw [hrest, flipWords_nil]
      · rw [← List.singleton_append, endsBlank_append (by simpa [flipWords_eq_nil_iff] using hrest), ih,
          ← List.singleton_append (l := rest), endsBlank_append hrest]
  | word w rest hne hw hrest ih =>
      rw [flipWords_word hne hw hrest]
      by_cases hnil : rest = []
      · rw [hnil, flipWords_nil, List.append_nil, List.append_nil, hword w hne hw,
          hword _ (flip_ne_nil hne) (isAlphanum_of_mem_flip hw)]
      · rw [endsBlank_append (by simpa [flipWords_eq_nil_iff] using hnil), ih, endsBlank_append hnil]

theorem trim_flipWords (text : Text) : trim (flipWords text) = flipWords (trim text) := by
  rw [trim, trim, trimStart, dropWhile_flipWords fun c hc => not_isBlank_of_isAlphanum hc]
  obtain ⟨b, hsplit, hb, hend⟩ := exists_trimEnd (text.dropWhile isBlank)
  conv => lhs; rw [hsplit]
  rw [flipWords_append_of_other _ fun c hc => not_isAlphanum_of_isBlank (hb c hc),
    trimEnd_append (by rw [endsBlank_flipWords, hend]) hb]
  rfl

theorem not_startsWith_dropWhile {p : Char → Bool} (text : Text) :
    startsWith p (text.dropWhile p) = false := by
  cases hdrop : text.dropWhile p with
  | nil => rfl
  | cons c rest =>
      have hstop := List.head?_dropWhile_not p text
      rw [hdrop] at hstop
      simpa [startsWith] using hstop

/-- The first word of a text flips apart from the rest. -/
theorem flipWords_eq (text : Text) :
    flipWords text = sideWords.flip (text.takeWhile Char.isAlphanum) ++
      flipWords (text.dropWhile Char.isAlphanum) := by
  have hnil : sideWords.flip [] = [] := by decide +kernel
  cases text using wordInduction with
  | nil => rw [List.takeWhile_nil, List.dropWhile_nil, hnil, flipWords_nil, List.append_nil]
  | other c rest hc _ =>
      rw [List.takeWhile_cons_of_neg (by simp [hc]), List.dropWhile_cons_of_neg (by simp [hc]), hnil]
      rfl
  | word w rest hne hw hrest _ =>
      obtain ⟨htake, hdrop⟩ := takeWhile_append_of_stop hw hrest
      rw [htake, hdrop, flipWords_word hne hw hrest]

theorem isAlphanum_of_isLower_toLower {c : Char} (h : c.toLower.isLower = true) :
    c.isAlphanum = true := by
  rw [isLower_iff, toNat_toLower] at h
  rw [isAlphanum_iff]
  split at h
  · rename_i hupper
    rw [isUpper_iff] at hupper
    omega
  · omega

theorem eq_of_toLower_eq {c d : Char} (h : c.toLower = d) (hd : d.isLower = false) : c = d := by
  by_cases hupper : c.isUpper = true
  · have hlower := isLower_toLower hupper
    rw [h, hd] at hlower
    contradiction
  · rw [← h, toLower_of_not_isUpper (by simpa using hupper)]

/-- The scheme of a data url is a word and a colon. -/
theorem isData_iff (text : Text) :
    sameIgnoringCase (text.take 5) "data:".toList = true ↔
      lower (text.takeWhile Char.isAlphanum) = ['d', 'a', 't', 'a'] ∧
        startsWith (· == ':') (text.dropWhile Char.isAlphanum) = true := by
  have hscheme : lower "data:".toList = ['d', 'a', 't', 'a', ':'] := by decide +kernel
  rw [sameIgnoringCase, beq_iff_eq, hscheme]
  constructor
  · intro h
    rcases text with _ | ⟨a, _ | ⟨b, _ | ⟨c, _ | ⟨d, _ | ⟨e, more⟩⟩⟩⟩⟩ <;>
      simp only [lower, List.take, List.map_cons, List.map_nil, List.cons.injEq, reduceCtorEq,
         and_false] at h
    obtain ⟨ha, hb, hc, hd, he, -⟩ := h
    have hcolon : e = ':' := eq_of_toLower_eq he (by decide)
    subst hcolon
    have hletter : ∀ c d : Char, c.toLower = d → d.isLower = true → c.isAlphanum = true := by
      intro c d hcd hd
      exact isAlphanum_of_isLower_toLower (by rw [hcd, hd])
    have hword : ∀ x ∈ [a, b, c, d], x.isAlphanum = true := by
      simp [hletter a _ ha (by decide), hletter b _ hb (by decide), hletter c _ hc (by decide),
        hletter d _ hd (by decide)]
    have hstop : startsWith Char.isAlphanum (':' :: more) = false := rfl
    obtain ⟨htake, hdrop⟩ := takeWhile_append_of_stop hword hstop
    rw [show a :: b :: c :: d :: ':' :: more = [a, b, c, d] ++ ':' :: more from rfl, htake, hdrop]
    exact ⟨by simp [lower, ha, hb, hc, hd], rfl⟩
  · rintro ⟨hword, hcolon⟩
    have hsplit := List.takeWhile_append_dropWhile (p := Char.isAlphanum) (l := text)
    generalize text.takeWhile Char.isAlphanum = w at hword hsplit
    cases hrest : text.dropWhile Char.isAlphanum with
    | nil => simp [hrest, startsWith] at hcolon
    | cons e more =>
        have he : e = ':' := by simpa [hrest, startsWith] using hcolon
        have hlength : w.length = 4 := by simpa [lower] using congrArg List.length hword
        rw [← hsplit, hrest, he, List.take_append, hlength, List.take_of_length_le (by omega), lower,
          List.map_append]
        simp only [lower] at hword
        rw [hword]
        rfl

theorem lower_flip_eq_data (w : Text) :
    lower (sideWords.flip w) = ['d', 'a', 't', 'a'] ↔ lower w = ['d', 'a', 't', 'a'] := by
  cases hother : sideWords.counterpart? w with
  | none => rw [Pairs.flip, hother]
  | some other =>
      obtain ⟨-, hname, -, hmem, hmemOther, -⟩ :=
        Pairs.counterpart?_symm Pairs.isSound_sideWords hother
      have hnot : ['d', 'a', 't', 'a'] ∉ Pairs.names sideWords := by decide +kernel
      rw [Pairs.flip, hother]
      dsimp only
      rw [lower_inCaseOf, Pairs.lower_of_isName hname]
      exact ⟨fun heq => absurd (heq ▸ hmemOther) hnot, fun heq => absurd (heq ▸ hmem) hnot⟩

theorem isDataUrl_flipWords (inner : Text) : isDataUrl (flipWords inner) = isDataUrl inner := by
  have hquote : ∀ c : Char, c.isAlphanum = true → (c == '"' || c == '\'') = false := by
    intro c hc
    rw [Bool.eq_false_iff]
    intro hquote
    simp only [Bool.or_eq_true, beq_iff_eq] at hquote
    rcases hquote with rfl | rfl <;> exact absurd hc (by decide)
  rw [isDataUrl, isDataUrl, trim_flipWords, dropWhile_flipWords hquote]
  generalize (trim inner).dropWhile _ = body
  have hword := isAlphanum_of_mem_flip fun c hc =>
    List.all_eq_true.mp (List.all_takeWhile (p := Char.isAlphanum) (l := body)) c hc
  have hstop : startsWith Char.isAlphanum (flipWords (body.dropWhile Char.isAlphanum)) = false := by
    rw [startsWith_flipWords fun _ hc => hc, not_startsWith_dropWhile]
  have hcolon : ∀ c : Char, c.isAlphanum = true → (c == ':') = false := by
    intro c hc
    rw [beq_eq_false_iff_ne]
    rintro rfl
    exact absurd hc (by decide)
  obtain ⟨htake, hdrop⟩ := takeWhile_append_of_stop hword hstop
  rw [Bool.eq_iff_iff, isData_iff, isData_iff, flipWords_eq body, htake, hdrop, lower_flip_eq_data,
    startsWith_flipWords hcolon]

theorem breakAfterFirst?_append {c : Char} {text opening rest : Text}
    (h : breakAfterFirst? c text = some (opening, rest)) (x : Text) :
    breakAfterFirst? c (opening ++ x) = some (opening, x) := by
  induction text generalizing opening rest with
  | nil => contradiction
  | cons d text ih =>
      rw [breakAfterFirst?] at h
      split at h
      · rename_i hd
        obtain ⟨rfl, -⟩ := Prod.mk.inj (Option.some.inj h)
        simp [breakAfterFirst?, hd]
      · rename_i hd
        obtain ⟨⟨before, after⟩, hbreak, heq⟩ := Option.map_eq_some_iff.mp h
        obtain ⟨rfl, -⟩ := Prod.mk.inj heq
        rw [List.cons_append, breakAfterFirst?, if_neg hd, ih hbreak]
        rfl

theorem append_of_breakAfterFirst? {c : Char} {text opening rest : Text}
    (h : breakAfterFirst? c text = some (opening, rest)) : opening ++ rest = text := by
  induction text generalizing opening rest with
  | nil => contradiction
  | cons d text ih =>
      rw [breakAfterFirst?] at h
      split at h
      · obtain ⟨rfl, rfl⟩ := Prod.mk.inj (Option.some.inj h)
        rfl
      · obtain ⟨⟨before, after⟩, hbreak, heq⟩ := Option.map_eq_some_iff.mp h
        obtain ⟨rfl, rfl⟩ := Prod.mk.inj heq
        exact congrArg (d :: ·) (ih hbreak)

/-- Breaking in front of the last occurrence of a character leaves none in the second part but the
one it starts with. -/
theorem breakLast_cases (c : Char) (text : Text) :
    (breakLast c text = (text, []) ∧ c ∉ text) ∨
      ∃ before after, breakLast c text = (before, c :: after) ∧ text = before ++ c :: after ∧
        c ∉ after := by
  induction text with
  | nil => exact Or.inl ⟨rfl, by simp⟩
  | cons d text ih =>
      rcases ih with ⟨hbreak, hnot⟩ | ⟨before, after, hbreak, rfl, hnot⟩
      · by_cases hd : d = c
        · subst hd
          exact Or.inr ⟨[], text, by simp [breakLast, hbreak], rfl, hnot⟩
        · left
          refine ⟨by simp [breakLast, hbreak, hd], ?_⟩
          simpa [hnot] using Ne.symm hd
      · exact Or.inr ⟨d :: before, after, by simp [breakLast, hbreak], rfl, hnot⟩

theorem breakLast_of_not_mem {c : Char} {text : Text} (h : c ∉ text) :
    breakLast c text = (text, []) := by
  rcases breakLast_cases c text with ⟨hbreak, -⟩ | ⟨before, after, -, rfl, -⟩
  · exact hbreak
  · simp at h

theorem breakLast_append_cons {c : Char} {after : Text} (h : c ∉ after) (before : Text) :
    breakLast c (before ++ c :: after) = (before, c :: after) := by
  induction before with
  | nil => simp [breakLast, breakLast_of_not_mem h]
  | cons d before ih => simp [breakLast, ih]

/-- Replaces what stands between the parentheses of a url literal, unless it is a data url. -/
def inUrl (f : Text → Text) (url : Text) : Text :=
  match breakAfterFirst? '(' url with
  | none => url
  | some (opening, rest) =>
    match breakLast ')' rest with
    | (inner, closing) => if isDataUrl inner then url else opening ++ f inner ++ closing

/-- Where no word is flipped, the parts of the url make it up as it was. -/
theorem flipUrl_eq_inUrl (url : Text) : flipUrl url = inUrl flipWords url := by
  rw [flipUrl, flipUrl?, inUrl]
  cases hopening : breakAfterFirst? '(' url with
  | none => rfl
  | some parts =>
      obtain ⟨opening, rest⟩ := parts
      dsimp only
      by_cases hdata : isDataUrl (breakLast ')' rest).1 = true
      · rw [if_pos hdata, if_pos hdata]
        rfl
      rw [if_neg hdata, if_neg hdata, flipWords]
      cases flipWords? (breakLast ')' rest).1 with
      | some inner' => rfl
      | none =>
          simp only [Option.map_none, Option.getD_none]
          rw [List.append_assoc, breakLast_append, append_of_breakAfterFirst? hopening]

theorem inUrl_flipUrl (f : Text → Text) (url : Text) :
    inUrl f (flipUrl url) = inUrl (fun inner => f (flipWords inner)) url := by
  rw [flipUrl_eq_inUrl]
  cases hopening : breakAfterFirst? '(' url with
  | none => simp [inUrl, hopening]
  | some parts =>
      obtain ⟨opening, rest⟩ := parts
      by_cases hdata : isDataUrl (breakLast ')' rest).1 = true
      · simp [inUrl, hopening, hdata]
      have hfirst : inUrl flipWords url =
          opening ++ (flipWords (breakLast ')' rest).1 ++ (breakLast ')' rest).2) := by
        simp [inUrl, hopening, hdata]
      have hbreak : breakLast ')' (flipWords (breakLast ')' rest).1 ++ (breakLast ')' rest).2) =
          (flipWords (breakLast ')' rest).1, (breakLast ')' rest).2) := by
        rcases breakLast_cases ')' rest with ⟨heq, hnot⟩ | ⟨before, after, heq, -, hnot⟩
        · rw [heq, List.append_nil]
          exact breakLast_of_not_mem fun hmem => hnot (mem_of_mem_flipWords (by decide) hmem)
        · rw [heq]
          exact breakLast_append_cons hnot _
      rw [hfirst, inUrl, breakAfterFirst?_append hopening, inUrl, hopening]
      dsimp only
      rw [hbreak]
      dsimp only
      rw [isDataUrl_flipWords, if_neg hdata, if_neg hdata]

/-- The url with the words that flipping it flips in their regular letter case. -/
def settleUrl (url : Text) : Text := inUrl settleWords url

theorem flipUrl_flipUrl (url : Text) : flipUrl (flipUrl url) = settleUrl url := by
  rw [flipUrl_eq_inUrl, inUrl_flipUrl, funext flipWords_flipWords, settleUrl]

theorem settleUrl_flipUrl (url : Text) : settleUrl (flipUrl url) = flipUrl url := by
  rw [settleUrl, inUrl_flipUrl, funext settleWords_flipWords, flipUrl_eq_inUrl]

/-- Every word that flipping a url flips has a letter case that allows to flip it back. -/
def admitsUrl (url : Text) : Bool :=
  match breakAfterFirst? '(' url with
  | none => true
  | some (_, rest) => isDataUrl (breakLast ')' rest).1 || admitsWords (breakLast ')' rest).1

theorem settleUrl_of_admits {url : Text} (h : admitsUrl url = true) : settleUrl url = url := by
  unfold admitsUrl at h
  unfold settleUrl inUrl
  split
  · rfl
  rename_i opening rest hopening
  rw [hopening] at h
  dsimp only at h ⊢
  split
  · rfl
  · rename_i hdata
    rw [settleWords_of_admits (by simpa [hdata] using h), List.append_assoc, breakLast_append,
      append_of_breakAfterFirst? hopening]

theorem respelled_flipUrl (url : Text) : Respelled url (flipUrl url) := by
  rw [flipUrl_eq_inUrl]
  unfold inUrl
  split
  · exact .refl url
  rename_i opening rest hopening
  dsimp only
  split
  · exact .refl url
  · have hwhole : url = opening ++ (breakLast ')' rest).1 ++ (breakLast ')' rest).2 := by
      rw [List.append_assoc, breakLast_append, append_of_breakAfterFirst? hopening]
    conv => lhs; rw [hwhole]
    exact ((Respelled.refl opening).append (respelled_flipWords _)).append (.refl _)

end StyleFlip
