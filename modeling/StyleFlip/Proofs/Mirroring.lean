import StyleFlip.Flip.Edit
import StyleFlip.Flip.Table
import StyleFlip.Proofs.Lookahead

/-!
# Names that flip back

A name in a table and its counterpart are runs of letters and hyphens, so a flipped name can stand
where the name stood. Flipping a name twice gives it back in a letter case that a counterpart can
take over: lower, upper or capitalized.
-/

namespace StyleFlip

/-! ### Letter case -/

theorem toNat_toLower (c : Char) :
    c.toLower.toNat = if c.isUpper then c.toNat + 32 else c.toNat := by
  by_cases h : c.val ≥ 'A'.val ∧ c.val ≤ 'Z'.val
  · have hupper : c.isUpper = true := isUpper_iff_val.mpr h
    have hrange := isUpper_iff.mp hupper
    delta Char.toLower
    rw [if_pos hupper, dif_pos h]
    show (c.val + 32).toNat = _
    rw [UInt32.toNat_add]
    show (c.toNat + 32) % _ = _
    omega
  · have hupper : ¬ c.isUpper = true := fun hupper => h (isUpper_iff_val.mp hupper)
    delta Char.toLower
    rw [if_neg hupper, dif_neg h]

theorem toNat_toUpper (c : Char) :
    c.toUpper.toNat = if c.isLower then c.toNat - 32 else c.toNat := by
  by_cases h : 'a'.val ≤ c.val ∧ c.val ≤ 'z'.val
  · have hlower : c.isLower = true := isLower_iff_val.mpr h
    have hrange := isLower_iff.mp hlower
    have hshift : ('A'.val - 'a'.val).toNat = 2 ^ 32 - 32 := by decide
    delta Char.toUpper
    rw [if_pos hlower, dif_pos h]
    show (c.val + ('A'.val - 'a'.val)).toNat = _
    rw [UInt32.toNat_add, hshift]
    show (c.toNat + (2 ^ 32 - 32)) % _ = _
    omega
  · have hlower : ¬ c.isLower = true := fun hlower => h (isLower_iff_val.mp hlower)
    delta Char.toUpper
    rw [if_neg hlower, dif_neg h]

theorem toLower_of_not_isUpper {c : Char} (h : c.isUpper = false) : c.toLower = c := by
  apply Char.toNat_inj.mp
  simp [toNat_toLower, h]

theorem toUpper_of_not_isLower {c : Char} (h : c.isLower = false) : c.toUpper = c := by
  apply Char.toNat_inj.mp
  simp [toNat_toUpper, h]

theorem isUpper_toUpper {c : Char} (h : c.isLower = true) : c.toUpper.isUpper = true := by
  have hrange := isLower_iff.mp h
  rw [isUpper_iff, toNat_toUpper, if_pos h]
  omega

theorem not_isLower_toUpper (c : Char) : c.toUpper.isLower = false := by
  rw [Bool.eq_false_iff, ne_eq, isLower_iff, toNat_toUpper]
  split
  · rename_i h
    have hrange := isLower_iff.mp h
    omega
  · rename_i h
    rwa [isLower_iff] at h

theorem not_isLower_of_isUpper {c : Char} (h : c.isUpper = true) : c.isLower = false := by
  have hrange := isUpper_iff.mp h
  rw [Bool.eq_false_iff, ne_eq, isLower_iff]
  omega

theorem isLower_toLower {c : Char} (h : c.isUpper = true) : c.toLower.isLower = true := by
  have hrange := isUpper_iff.mp h
  rw [isLower_iff, toNat_toLower, if_pos h]
  omega

theorem toUpper_toLower (c : Char) : c.toLower.toUpper = c.toUpper := by
  by_cases h : c.isUpper = true
  · have hrange := isUpper_iff.mp h
    rw [toUpper_of_not_isLower (not_isLower_of_isUpper h)]
    apply Char.toNat_inj.mp
    rw [toNat_toUpper, if_pos (isLower_toLower h), toNat_toLower, if_pos h]
    omega
  · rw [toLower_of_not_isUpper (by simpa using h)]

theorem toLower_toUpper (c : Char) : c.toUpper.toLower = c.toLower := by
  by_cases h : c.isLower = true
  · have hrange := isLower_iff.mp h
    have hupper : ¬ c.isUpper = true := by
      rw [isUpper_iff]
      omega
    apply Char.toNat_inj.mp
    rw [toNat_toLower, if_pos (isUpper_toUpper h), toNat_toUpper, if_pos h, toNat_toLower,
      if_neg hupper]
    omega
  · rw [toUpper_of_not_isLower (by simpa using h)]

namespace Text

theorem lower_upper (text : Text) : lower (upper text) = lower text := by
  simp only [lower, upper, List.map_map]
  exact List.map_congr_left fun c _ => toLower_toUpper c

theorem lower_inCaseOf (model text : Text) : lower (inCaseOf model text) = lower text := by
  unfold inCaseOf
  split
  · rfl
  split
  · exact lower_upper text
  split
  · split
    · simp only [lower, List.map_cons, toLower_toUpper]
    · rfl
  · rfl

theorem inCaseOf_of_lower {model : Text} (h : model.any Char.isUpper = false) (text : Text) :
    inCaseOf model text = text := by
  unfold inCaseOf
  rw [h]
  rfl

theorem inCaseOf_of_upper {model : Text} (hupper : model.any Char.isUpper = true)
    (hlower : model.any Char.isLower = false) (text : Text) : inCaseOf model text = upper text := by
  unfold inCaseOf
  rw [hupper, hlower]
  rfl

theorem inCaseOf_of_capital {m : Char} {model : Text} (hm : m.isUpper = true)
    (hlower : model.any Char.isLower = true) (c : Char) (rest : Text) :
    inCaseOf (m :: model) (c :: rest) = c.toUpper :: rest := by
  simp [inCaseOf, hm, hlower]

theorem lower_of_not_isUpper {text : Text} (h : text.any Char.isUpper = false) :
    lower text = text := by
  rw [List.any_eq_false] at h
  rw [lower]
  conv => rhs; rw [← List.map_id text]
  exact List.map_congr_left fun c hc => toLower_of_not_isUpper (by simpa using h c hc)

theorem upper_of_not_isLower {text : Text} (h : text.any Char.isLower = false) :
    upper text = text := by
  rw [List.any_eq_false] at h
  rw [upper]
  conv => rhs; rw [← List.map_id text]
  exact List.map_congr_left fun c hc => toUpper_of_not_isLower (by simpa using h c hc)

theorem upper_lower (text : Text) : upper (lower text) = upper text := by
  rw [upper, lower, List.map_map]
  refine List.map_congr_left fun c _ => ?_
  rw [Function.comp_apply, toUpper_toLower]

theorem any_isUpper_upper {name : Text} (h : name.any Char.isLower = true) :
    (upper name).any Char.isUpper = true := by
  obtain ⟨c, hc, hlower⟩ := List.any_eq_true.mp h
  exact List.any_eq_true.mpr ⟨c.toUpper, List.mem_map_of_mem hc, isUpper_toUpper hlower⟩

theorem any_isLower_upper (name : Text) : (upper name).any Char.isLower = false := by
  rw [List.any_eq_false]
  intro c hc
  obtain ⟨d, -, rfl⟩ := List.mem_map.mp hc
  rw [not_isLower_toUpper]
  simp

/-- Lower case, upper case, or lower case but for the first character. -/
def isRegular (name : Text) : Bool :=
  !name.any Char.isUpper || !name.any Char.isLower ||
    match name with
    | c :: rest => c.isUpper && !rest.any Char.isUpper
    | [] => true

def capitalize : Text → Text
  | [] => []
  | c :: rest => c.toUpper :: lower rest

/-- The regular letter case of a name. A name of both cases is capitalized if its first character is
in upper case. -/
def regularCase (name : Text) : Text :=
  if !name.any Char.isUpper then lower name
  else if !name.any Char.isLower then upper name
  else if name.head?.any Char.isUpper then capitalize name
  else lower name

theorem regularCase_of_isRegular {name : Text} (h : isRegular name = true) :
    regularCase name = name := by
  unfold regularCase
  split
  · rename_i hupper
    exact lower_of_not_isUpper (by simpa using hupper)
  split
  · rename_i hlower
    exact upper_of_not_isLower (by simpa using hlower)
  rename_i hupper hlower
  cases name with
  | nil => rfl
  | cons c rest =>
      obtain ⟨hc, hrest⟩ : c.isUpper = true ∧ rest.any Char.isUpper = false := by
        simpa only [isRegular, Bool.eq_false_iff.mpr hupper, Bool.eq_false_iff.mpr hlower,
          Bool.false_or, Bool.and_eq_true, Bool.not_eq_true'] using h
      rw [if_pos (by simpa using hc), capitalize, lower_of_not_isUpper hrest,
        toUpper_of_not_isLower (not_isLower_of_isUpper hc)]

end Text

/-! ### Tables -/

def isSmall (c : Char) : Bool := c.isLower || c == '-'

theorem isRunChar_of_isSmall_toLower {c : Char} (h : isSmall c.toLower = true) :
    isRunChar c = true := by
  simp only [isSmall, Bool.or_eq_true, beq_iff_eq] at h
  by_cases hupper : c.isUpper = true
  · simp [isRunChar, isAlpha_iff, hupper]
  · rw [toLower_of_not_isUpper (by simpa using hupper)] at h
    rcases h with hlower | rfl
    · simp [isRunChar, isAlpha_iff, hlower]
    · rfl

namespace Pairs

/-- How the tables spell names: in lower case, and long enough to be a run. -/
def isName (name : Text) : Bool :=
  4 ≤ name.length && name.all isSmall && name.tail.any Char.isLower

/-- Both names start with a letter or neither does. -/
def isMatched (pair : Text × Text) : Bool :=
  (pair.1.head?.any Char.isLower) == (pair.2.head?.any Char.isLower)

def names (pairs : Pairs) : List Text := pairs.flatMap fun pair => [pair.1, pair.2]

/-- No name is in a table twice, and the names of a pair can take over each other's letter case. -/
def isSound : Pairs → Bool
  | [] => true
  | pair :: rest =>
    isName pair.1 && isName pair.2 && isMatched pair && pair.1 != pair.2 &&
      !(names rest).contains pair.1 && !(names rest).contains pair.2 && isSound rest

theorem isSound_sideProperties : isSound sideProperties = true := by decide +kernel

theorem isSound_sideKeywords : isSound sideKeywords = true := by decide +kernel

theorem isSound_sidePseudos : isSound sidePseudos = true := by decide +kernel

theorem isSound_sideWords : isSound sideWords = true := by decide +kernel

theorem isRun_of_isName {name : Text} (h : isName (Text.lower name) = true) : IsRun name := by
  simp only [isName, Bool.and_eq_true, decide_eq_true_eq] at h
  refine ⟨by simpa [Text.lower] using h.1.1, ?_⟩
  intro c hc
  have hsmall := List.all_eq_true.mp h.1.2 c.toLower (by simpa [Text.lower] using ⟨c, hc, rfl⟩)
  exact isRunChar_of_isSmall_toLower hsmall

theorem not_isUpper_of_isSmall {c : Char} (h : isSmall c = true) : c.isUpper = false := by
  simp only [isSmall, Bool.or_eq_true, beq_iff_eq] at h
  rcases h with hlower | rfl
  · have hrange := isLower_iff.mp hlower
    rw [Bool.eq_false_iff, ne_eq, isUpper_iff]
    omega
  · rfl

theorem not_isUpper_of_isName {name : Text} (h : isName name = true) :
    name.any Char.isUpper = false := by
  simp only [isName, Bool.and_eq_true] at h
  rw [List.any_eq_false]
  intro c hc
  simp [not_isUpper_of_isSmall (List.all_eq_true.mp h.1.2 c hc)]

theorem lower_of_isName {name : Text} (h : isName name = true) : Text.lower name = name :=
  Text.lower_of_not_isUpper (not_isUpper_of_isName h)

theorem counterpart?_cons {pair : Text × Text} {rest : Pairs} (hfirst : isName pair.1 = true)
    (hsecond : isName pair.2 = true) (name : Text) :
    counterpart? (pair :: rest) name =
      if Text.lower name = pair.1 then some pair.2
      else if Text.lower name = pair.2 then some pair.1
      else rest.counterpart? name := by
  have hsame : ∀ n : Text, isName n = true →
      (Text.sameIgnoringCase name n = true ↔ Text.lower name = n) := by
    intro n hn
    rw [Text.sameIgnoringCase, beq_iff_eq, lower_of_isName hn]
  rw [counterpart?, List.findSome?_cons]
  by_cases h₁ : Text.lower name = pair.1
  · rw [if_pos ((hsame _ hfirst).mpr h₁), if_pos h₁]
  rw [if_neg (mt (hsame _ hfirst).mp h₁), if_neg h₁]
  by_cases h₂ : Text.lower name = pair.2
  · rw [if_pos ((hsame _ hsecond).mpr h₂), if_pos h₂]
  · rw [if_neg (mt (hsame _ hsecond).mp h₂), if_neg h₂]
    rfl

/-- A name in a table has a counterpart whose counterpart it is. -/
theorem counterpart?_symm {pairs : Pairs} (hsound : isSound pairs = true) {name other : Text}
    (h : pairs.counterpart? name = some other) :
    isName (Text.lower name) = true ∧ isName other = true ∧
      isMatched (Text.lower name, other) = true ∧ Text.lower name ∈ names pairs ∧
      other ∈ names pairs ∧
      ∀ name', Text.lower name' = other → pairs.counterpart? name' = some (Text.lower name) := by
  induction pairs with
  | nil => contradiction
  | cons pair rest ih =>
      simp only [isSound, Bool.and_eq_true, bne_iff_ne, ne_eq, Bool.not_eq_true',
        List.contains_eq_mem, decide_eq_false_iff_not] at hsound
      obtain ⟨⟨⟨⟨⟨⟨hfirst, hsecond⟩, hmatched⟩, hne⟩, hnotFirst⟩, hnotSecond⟩, hrest⟩ := hsound
      have hstep := @counterpart?_cons pair rest hfirst hsecond
      rw [hstep] at h
      have hmem : ∀ n, n ∈ names rest → n ∈ names (pair :: rest) := by
        intro n hn
        simp only [names, List.flatMap_cons]
        exact List.mem_append_right _ hn
      split at h
      · rename_i hname
        obtain rfl := Option.some.inj h
        rw [hname]
        refine ⟨hfirst, hsecond, hmatched, by simp [names], by simp [names], fun name' hname' => ?_⟩
        rw [hstep, hname', if_neg (Ne.symm hne), if_pos rfl]
      split at h
      · rename_i hname
        obtain rfl := Option.some.inj h
        rw [hname]
        refine ⟨hsecond, hfirst, ?_, by simp [names], by simp [names], fun name' hname' => ?_⟩
        · rw [isMatched, beq_iff_eq] at hmatched ⊢
          exact hmatched.symm
        · rw [hstep, hname', if_pos rfl]
      · obtain ⟨hbase, hother, hmatch, hin, hinOther, hback⟩ := ih hrest h
        refine ⟨hbase, hother, hmatch, hmem _ hin, hmem _ hinOther, fun name' hname' => ?_⟩
        have hother₁ : other ≠ pair.1 := fun heq => hnotFirst (heq ▸ hinOther)
        have hother₂ : other ≠ pair.2 := fun heq => hnotSecond (heq ▸ hinOther)
        rw [hstep, hname', if_neg hother₁, if_neg hother₂, hback name' hname']

theorem counterpart?_ne_lower {pairs : Pairs} (hsound : isSound pairs = true) {name other : Text}
    (h : pairs.counterpart? name = some other) : other ≠ Text.lower name := by
  induction pairs with
  | nil => contradiction
  | cons pair rest ih =>
      simp only [isSound, Bool.and_eq_true, bne_iff_ne, ne_eq] at hsound
      obtain ⟨⟨⟨⟨⟨⟨hfirst, hsecond⟩, -⟩, hne⟩, -⟩, -⟩, hrest⟩ := hsound
      rw [counterpart?_cons hfirst hsecond] at h
      split at h
      · rename_i hname
        obtain rfl := Option.some.inj h
        rw [hname]
        exact Ne.symm hne
      split at h
      · rename_i hname
        obtain rfl := Option.some.inj h
        rw [hname]
        exact hne
      · exact ih hrest h

/-- Flipping exchanges one run for another. -/
theorem respelled_flip {pairs : Pairs} (hsound : isSound pairs = true) (name : Text) :
    Respelled name (pairs.flip name) := by
  unfold flip
  split
  · rename_i other hother
    obtain ⟨hbase, hname, -⟩ := counterpart?_symm hsound hother
    have hflipped : IsRun (Text.inCaseOf name other) := by
      refine isRun_of_isName ?_
      rw [Text.lower_inCaseOf, lower_of_isName hname]
      exact hname
    have hrun := Respelled.run (isRun_of_isName hbase) hflipped .nil
    rwa [List.append_nil, List.append_nil] at hrun
  · exact .refl name

/-- A name that has a counterpart, in its regular letter case; other names stay. -/
def settle (pairs : Pairs) (name : Text) : Text :=
  if (pairs.counterpart? name).isSome then Text.regularCase name else name

/-- Whether the letter case of a name allows to flip it back, if it is flipped at all. -/
def admits (pairs : Pairs) (name : Text) : Bool :=
  (pairs.counterpart? name).isNone || Text.isRegular name

theorem settle_of_admits {pairs : Pairs} {name : Text} (h : pairs.admits name = true) :
    pairs.settle name = name := by
  unfold settle
  split
  · rename_i hsome
    have hnone : (pairs.counterpart? name).isNone = false := by simpa using hsome
    rw [admits, hnone] at h
    exact Text.regularCase_of_isRegular h
  · rfl

theorem any_isLower_of_isName {name : Text} (h : isName name = true) :
    name.any Char.isLower = true := by
  simp only [isName, Bool.and_eq_true] at h
  cases name with
  | nil => simp at h
  | cons c rest => simp [show rest.any Char.isLower = true from h.2]

/-- A counterpart takes over a letter case that is regular. -/
theorem isRegular_inCaseOf {other : Text} (hother : isName other = true) (name : Text) :
    Text.isRegular (Text.inCaseOf name other) = true := by
  have hupper := not_isUpper_of_isName hother
  have hsame : Text.isRegular other = true := by simp [Text.isRegular, hupper]
  unfold Text.inCaseOf
  split
  · exact hsame
  split
  · simp [Text.isRegular, Text.any_isLower_upper]
  split
  · rename_i o rest _ _
    split
    · rw [List.any_cons, Bool.or_eq_false_iff] at hupper
      by_cases ho : o.isLower = true
      · simp [Text.isRegular, isUpper_toUpper ho, hupper.2]
      · rw [toUpper_of_not_isLower (by simpa using ho)]
        exact hsame
    · exact hsame
  · exact hsame

/-- A name gets back from its counterpart the letter case that it gave to it. -/
theorem inCaseOf_inCaseOf {name other : Text} (hbase : isName (Text.lower name) = true)
    (hother : isName other = true) (hmatched : isMatched (Text.lower name, other) = true) :
    Text.inCaseOf (Text.inCaseOf name other) (Text.lower name) = Text.regularCase name := by
  have hsmall := not_isUpper_of_isName hother
  by_cases hupper : name.any Char.isUpper = false
  · rw [Text.inCaseOf_of_lower hupper, Text.inCaseOf_of_lower hsmall, Text.regularCase, hupper]
    rfl
  have hsome : name.any Char.isUpper = true := by simpa using hupper
  by_cases hlower : name.any Char.isLower = false
  · rw [Text.inCaseOf_of_upper hsome hlower,
      Text.inCaseOf_of_upper (Text.any_isUpper_upper (any_isLower_of_isName hother))
        (Text.any_isLower_upper other), Text.upper_lower, Text.regularCase, hsome, hlower]
    rfl
  have hboth : name.any Char.isLower = true := by simpa using hlower
  cases name with
  | nil => simp at hsome
  | cons c rest =>
      cases other with
      | nil => simp [isName] at hother
      | cons o otherRest =>
          by_cases hc : c.isUpper = true
          · have ho : o.isLower = true := by
              simpa [isMatched, Text.lower, isLower_toLower hc] using hmatched
            have hrest : rest.any Char.isLower = true := by
              simpa [not_isLower_of_isUpper hc] using hboth
            have hotherRest : otherRest.any Char.isLower = true := by
              simp only [isName, Bool.and_eq_true] at hother
              exact hother.2
            rw [Text.inCaseOf_of_capital hc hrest]
            show Text.inCaseOf _ (c.toLower :: Text.lower rest) = _
            rw [Text.inCaseOf_of_capital (isUpper_toUpper ho) hotherRest, toUpper_toLower]
            simp [Text.regularCase, hsome, hboth, hc, Text.capitalize]
          · have hkeep : Text.inCaseOf (c :: rest) (o :: otherRest) = o :: otherRest := by
              simp [Text.inCaseOf, hsome, hboth, hc]
            rw [hkeep, Text.inCaseOf_of_lower hsmall]
            simp [Text.regularCase, hsome, hboth, hc]

section Sound

variable {pairs : Pairs} (hsound : isSound pairs = true)

include hsound

theorem counterpart?_flip {name other : Text} (h : pairs.counterpart? name = some other) :
    pairs.counterpart? (pairs.flip name) = some (Text.lower name) := by
  obtain ⟨-, hname, -, -, -, hback⟩ := counterpart?_symm hsound h
  refine hback _ ?_
  rw [flip, h, Text.lower_inCaseOf, lower_of_isName hname]

theorem flip_flip (name : Text) : pairs.flip (pairs.flip name) = pairs.settle name := by
  cases hother : pairs.counterpart? name with
  | none =>
      have hsame : pairs.flip name = name := by simp [flip, hother]
      rw [hsame, hsame, settle, hother]
      rfl
  | some other =>
      obtain ⟨hbase, hname, hmatched, -⟩ := counterpart?_symm hsound hother
      rw [flip, counterpart?_flip hsound hother, flip, hother, settle, hother]
      exact inCaseOf_inCaseOf hbase hname hmatched

theorem settle_flip (name : Text) : pairs.settle (pairs.flip name) = pairs.flip name := by
  refine settle_of_admits ?_
  cases hother : pairs.counterpart? name with
  | none => simp [admits, flip, hother]
  | some other =>
      have hname := (counterpart?_symm hsound hother).2.1
      rw [admits, flip, hother]
      simp [isRegular_inCaseOf hname name]

/-- A name is not its own counterpart, so flipping changes just the names that have one. -/
theorem tells_covers : Edit.Tells pairs.covers pairs.flip := by
  intro name
  cases hother : pairs.counterpart? name with
  | none => simp [covers, flip, hother]
  | some other =>
      have hflip : Text.lower (pairs.flip name) = other := by
        rw [flip, hother, Text.lower_inCaseOf,
          lower_of_isName (counterpart?_symm hsound hother).2.1]
      have hne : pairs.flip name ≠ name := by
        intro hsame
        rw [hsame] at hflip
        exact counterpart?_ne_lower hsound hother hflip.symm
      simp [covers, hother, hne]

end Sound

end Pairs

end StyleFlip
