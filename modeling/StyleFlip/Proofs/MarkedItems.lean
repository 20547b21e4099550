import StyleFlip.Proofs.LeadingText

/-!
# Items and the markers in front of them

Cleaning takes markers away, and items with them. What it keeps should go on having the marker it
had, or none if that was a marker for the direction. A marker is taken away without a look at what is
in front of it, though. If that is a marker too, it comes to stand in front of the next item. Where no
marker that speaks about an item has another one right in front of it, every item keeps its own.
-/

namespace StyleFlip

/-- The marker in front of the item after this one, given the marker in front of this one. -/
def Role.markNext (mark : Option Marker) : Role → Option Marker
  | .blank => mark
  | .note marker => marker
  | _ => none

/-- Whether an item with this marker is there still after cleaning for a direction. -/
def keptFor (d : Direction) : Option Marker → Bool
  | some (.only marked) => marked = d
  | _ => true

def settleMark (d : Direction) (mark : Option Marker) : Option Marker :=
  if mark = some (.only d) then none else mark

section Lists

variable {α β : Type} (role : α → Role)

/-- The entries for the items of a list, each made from the marker in front of the item. Items with a
marker that `keep` refuses are passed over. -/
def tally (keep : Option Marker → Bool) (entries : Option Marker → α → List β)
    (mark : Option Marker) : List α → List β
  | [] => []
  | a :: rest =>
    (if keep mark then entries mark a else []) ++ tally keep entries ((role a).markNext mark) rest

/-- No direction marker that speaks about an item comes right after another marker. -/
def unstacked (mark : Option Marker) : List α → Bool
  | [] => true
  | a :: rest =>
    (mark.isNone || (role a).only?.isNone || !targetAhead role rest) &&
      unstacked ((role a).markNext mark) rest

/-- How the markers in front of an item before and after cleaning compare. They are the same, and no
direction marker speaks about the item; or such a marker is in force, and what is left has none. -/
def InStep (d : Direction) (mark mark' : Option Marker) (items : List α) : Option Bool → Prop
  | none => mark' = mark ∧ ∀ marked, mark = some (.only marked) → targetAhead role items = false
  | some keep => mark' = none ∧ targetAhead role items = true ∧
      ∃ marked, mark = some (.only marked) ∧ keep = decide (marked = d)

variable {role} {d : Direction}

theorem eq_note_of_only? {r : Role} {marked : Direction} (h : r.only? = some marked) :
    r = .note (some (.only marked)) := by
  unfold Role.only? at h
  split at h
  · rw [Option.some.inj h]
  · contradiction

theorem markNext_ne_only {r : Role} (h : r.only? = none) (hblank : r ≠ .blank)
    (mark : Option Marker) (marked : Direction) : r.markNext mark ≠ some (.only marked) := by
  cases r with
  | blank => contradiction
  | note marker =>
      rintro rfl
      simp [Role.only?] at h
  | target => simp [Role.markNext]
  | other => simp [Role.markNext]

theorem keptFor_of_ne_only {mark : Option Marker} (h : ∀ marked, mark ≠ some (.only marked)) :
    keptFor d mark = true := by
  unfold keptFor
  split
  · exact absurd rfl (h _)
  · rfl

theorem InStep.start (items : List α) : InStep role d none none items none := ⟨rfl, by simp⟩

theorem InStep.ne_only {mark mark' : Option Marker} {a : α} {rest : List α}
    (h : InStep role d mark mark' (a :: rest) none) (htarget : role a = .target)
    (marked : Direction) : mark ≠ some (.only marked) := by
  intro hmark
  have hahead := h.2 marked hmark
  rw [targetAhead_cons_of_target htarget] at hahead
  contradiction

theorem InStep.next {mark mark' : Option Marker} {a : α} {rest : List α}
    (h : InStep role d mark mark' (a :: rest) none) (honly : (role a).only? = none) :
    InStep role d ((role a).markNext mark) ((role a).markNext mark') rest none := by
  refine ⟨by rw [h.1], fun marked hnext => ?_⟩
  by_cases hblank : role a = .blank
  · rw [hblank] at hnext
    rw [← targetAhead_cons_of_blank hblank]
    exact h.2 marked hnext
  · exact absurd hnext (markNext_ne_only honly hblank _ marked)

/-- Cleaning leaves every item that it keeps its own marker. -/
theorem tally_strip {entries : Option Marker → α → List β}
    (hentries : ∀ mark a, role a ≠ .target → entries mark a = []) {skipping : Option Bool}
    {mark mark' : Option Marker} {items : List α} (hstep : InStep role d mark mark' items skipping)
    (hun : unstacked role mark items = true) :
    tally role (fun _ => true) entries mark' (strip role d skipping items) =
      tally role (keptFor d) (fun mark => entries (settleMark d mark)) mark items := by
  -- By the recursion of `strip`. `InStep` holds between the marker in front of an item before
  -- cleaning and the one after, also while a direction marker is being followed.
  fun_induction strip role d skipping items generalizing mark mark' with
  | case1 => rfl
  | case2 a rest htarget ih =>
      obtain ⟨rfl, -, marked, rfl, hkeep⟩ := hstep
      obtain rfl : marked = d := by simpa using hkeep
      rw [unstacked, Bool.and_eq_true, htarget] at hun
      have hrest := ih (.start rest) hun.2
      simp [tally, htarget, hrest, keptFor, settleMark, Role.markNext]
  | case3 a rest keep htarget hkeep ih =>
      obtain ⟨rfl, -, marked, rfl, hmarked⟩ := hstep
      have hother : marked ≠ d := by
        rintro rfl
        simp [hmarked] at hkeep
      rw [unstacked, Bool.and_eq_true, htarget] at hun
      have hrest := ih (.start rest) hun.2
      simp [tally, htarget, hrest, keptFor, hother, Role.markNext]
  | case4 a rest keep htarget ih =>
      obtain ⟨rfl, hahead, hmark⟩ := hstep
      have hblank := blank_of_targetAhead hahead htarget
      rw [targetAhead_cons_of_blank hblank] at hahead
      rw [unstacked, Bool.and_eq_true, hblank] at hun
      rw [tally, hblank, ih ⟨rfl, hahead, hmark⟩ hun.2, hentries _ a htarget, ite_self]
      rfl
  | case5 a rest marked honly hahead ih =>
      -- Nothing takes the place of this marker, because no other one is in front of it.
      obtain ⟨hsame, -⟩ := hstep
      have hrole := eq_note_of_only? honly
      rw [unstacked, Bool.and_eq_true, hrole] at hun
      have hmark : mark = none := by simpa [Role.only?, hahead] using hun.1
      rw [tally, hrole, ih ⟨hsame.trans hmark, hahead, marked, rfl, rfl⟩ hun.2,
        hentries _ a (by simp [hrole]), ite_self]
      rfl
  | case6 a rest marked honly hahead ih =>
      obtain ⟨rfl, -⟩ := hstep
      have hrole := eq_note_of_only? honly
      rw [unstacked, Bool.and_eq_true, hrole] at hun
      have hrest := ih ⟨rfl, fun _ _ => by simpa using hahead⟩ hun.2
      rw [tally, tally, hrole, hentries _ a (by simp [hrole]), hentries _ a (by simp [hrole]),
        ite_self, ite_self, hrest]
  | case7 a rest honly ih =>
      rw [unstacked, Bool.and_eq_true] at hun
      have hrest := ih (hstep.next honly) hun.2
      rw [tally, tally, hrest, if_pos rfl, hstep.1]
      congr 1
      by_cases htarget : role a = .target
      · have hother := hstep.ne_only htarget
        rw [keptFor_of_ne_only hother, if_pos rfl, settleMark, if_neg (hother d)]
      · rw [hentries _ a htarget, hentries _ a htarget, ite_self]

theorem tally_strip_start {entries : Option Marker → α → List β}
    (hentries : ∀ mark a, role a ≠ .target → entries mark a = []) (d : Direction) {items : List α}
    (hun : unstacked role none items = true) :
    tally role (fun _ => true) entries none (strip role d none items) =
      tally role (keptFor d) (fun mark => entries (settleMark d mark)) none items :=
  tally_strip hentries (.start items) hun

theorem map_tally {γ : Type} (f : β → γ) (keep : Option Marker → Bool)
    (entries : Option Marker → α → List β) (mark : Option Marker) (items : List α) :
    (tally role keep entries mark items).map f =
      tally role keep (fun mark a => (entries mark a).map f) mark items := by
  induction items generalizing mark with
  | nil => rfl
  | cons a items ih => rw [tally, List.map_append, ih, apply_ite (List.map f), List.map_nil, tally]

end Lists

/-! ### The markers in a stylesheet -/

inductive Target
  | rule (selector : Selector) (span : Span)
  | atRule (head : AtHead)
  | declaration (declaration : Declaration)
deriving DecidableEq, Repr

structure Marked where
  target : Target
  /-- The marker right in front, but for blanks. -/
  marker : Option Marker
deriving DecidableEq, Repr

def Marked.settle (d : Direction) (m : Marked) : Marked :=
  { m with marker := settleMark d m.marker }

def BodyItem.marked (mark : Option Marker) : BodyItem → List Marked
  | .declaration d => [⟨.declaration d, mark⟩]
  | _ => []

def Body.marked (keep : Option Marker → Bool) (body : Body) : List Marked :=
  tally BodyItem.role keep BodyItem.marked none body

namespace Item

mutual

def marked (keep : Option Marker → Bool) (mark : Option Marker) : Item → List Marked
  | .rule r => ⟨.rule r.selector r.span, mark⟩ :: Body.marked keep r.body
  | .statement head _ => [⟨.atRule head, mark⟩]
  | .verbatim head _ => [⟨.atRule head, mark⟩]
  | .group head items => ⟨.atRule head, mark⟩ :: markedAll keep none items
  | _ => []

/-- The rules, at-rules and declarations of a list of items at every level, in document order, each
with its marker. Where `keep` refuses the marker, the item is left out with all that it holds. -/
def markedAll (keep : Option Marker → Bool) (mark : Option Marker) : List Item → List Marked
  | [] => []
  | item :: rest =>
    (if keep mark then marked keep mark item else []) ++
      markedAll keep (item.role.markNext mark) rest

end

mutual

/-- No marker that speaks about an item comes right after another marker, inside this item. -/
def unstackedWithin : Item → Bool
  | .rule r => unstacked BodyItem.role none r.body
  | .group _ items => unstacked role none items && unstackedEach items
  | _ => true

def unstackedEach : List Item → Bool
  | [] => true
  | item :: rest => unstackedWithin item && unstackedEach rest

end

end Item

namespace Stylesheet

def marked (sheet : Stylesheet) : List Marked := Item.markedAll (fun _ => true) none sheet

/-- What no marker for the other direction speaks about. -/
def survivors (d : Direction) (sheet : Stylesheet) : List Marked :=
  Item.markedAll (keptFor d) none sheet

def unstacked (sheet : Stylesheet) : Bool :=
  StyleFlip.unstacked Item.role none sheet && Item.unstackedEach sheet

end Stylesheet

/-! ### Cleaning a stylesheet -/

theorem Body.marked_strip (d : Direction) {body : Body}
    (h : unstacked BodyItem.role none body = true) :
    Body.marked (fun _ => true) (strip BodyItem.role d none body) =
      (Body.marked (keptFor d) body).map (Marked.settle d) := by
  have hentries : ∀ mark (item : BodyItem), item.role ≠ .target → item.marked mark = [] := by
    intro mark item hrole
    cases item with
    | declaration => exact absurd rfl hrole
    | _ => rfl
  rw [Body.marked, tally_strip_start hentries d h, Body.marked, map_tally]
  congr 1
  funext mark item
  cases item <;> rfl

namespace Item

theorem markedAll_eq_tally (keep : Option Marker → Bool) (mark : Option Marker) (items : List Item) :
    markedAll keep mark items = tally role keep (marked keep) mark items := by
  induction items generalizing mark with
  | nil => rfl
  | cons item items ih => rw [markedAll, ih, tally]

theorem role_clean (d : Direction) (item : Item) : (clean d item).role = item.role := by
  cases item <;> rfl

theorem targetAhead_cleanEach (d : Direction) (items : List Item) :
    targetAhead role (cleanEach d items) = targetAhead role items := by
  induction items with
  | nil => rfl
  | cons item items ih =>
      rw [cleanEach]
      by_cases hblank : item.role = .blank
      · rw [targetAhead_cons_of_blank hblank, targetAhead_cons_of_blank, ih]
        rw [role_clean, hblank]
      · simp [targetAhead, role_clean, hblank]

theorem unstacked_cleanEach (d : Direction) (mark : Option Marker) (items : List Item) :
    unstacked role mark (cleanEach d items) = unstacked role mark items := by
  induction items generalizing mark with
  | nil => rfl
  | cons item items ih =>
      rw [cleanEach, unstacked, unstacked, role_clean, targetAhead_cleanEach, ih]

theorem marked_of_ne_target (keep : Option Marker → Bool) (mark : Option Marker) (item : Item)
    (h : item.role ≠ .target) : marked keep mark item = [] := by
  cases item <;> first | rfl | exact absurd rfl h

theorem tally_cleanEach (d : Direction) {items : List Item} (h : unstackedEach items = true)
    (mark : Option Marker) :
    tally role (keptFor d) (fun mark => marked (fun _ => true) (settleMark d mark)) mark
        (cleanEach d items) =
      (markedAll (keptFor d) mark items).map (Marked.settle d) := by
  induction items using listInduction generalizing mark with
  | nil => rfl
  | rule r rest ih =>
      rw [unstackedEach, Bool.and_eq_true] at h
      rw [cleanEach, tally, role_clean, ih h.2, markedAll, List.map_append,
        apply_ite (List.map (Marked.settle d)), List.map_nil]
      congr 2
      simp only [clean, marked, Rule.clean_eq, List.map_cons, Body.marked_strip d h.1]
      rfl
  | group head items rest ihitems ih =>
      rw [unstackedEach, Bool.and_eq_true, unstackedWithin, Bool.and_eq_true] at h
      obtain ⟨⟨hun, hinner⟩, hrest⟩ := h
      rw [cleanEach, tally, role_clean, ih hrest, markedAll, List.map_append,
        apply_ite (List.map (Marked.settle d)), List.map_nil]
      congr 2
      rw [← unstacked_cleanEach d] at hun
      rw [clean_group, marked, marked, markedAll_eq_tally,
        tally_strip_start (marked_of_ne_target fun _ => true) d hun, ihitems hinner none]
      rfl
  | plain item rest hplain ih =>
      rw [unstackedEach, Bool.and_eq_true] at h
      rw [cleanEach, tally, role_clean, ih h.2, markedAll, List.map_append,
        apply_ite (List.map (Marked.settle d)), List.map_nil]
      congr 2
      cases item <;> first | rfl | contradiction

theorem markedAll_cleanAll (d : Direction) {items : List Item}
    (h : Stylesheet.unstacked items = true) :
    markedAll (fun _ => true) none (cleanAll d items) =
      (markedAll (keptFor d) none items).map (Marked.settle d) := by
  rw [Stylesheet.unstacked, Bool.and_eq_true, ← unstacked_cleanEach d] at h
  rw [markedAll_eq_tally, cleanAll_eq_strip, tally_strip_start (marked_of_ne_target fun _ => true) d h.1,
    tally_cleanEach d h.2]

theorem markedAll_append_statement (keep : Option Marker → Bool) (mark : Option Marker)
    (items rest : List Item) (head : AtHead) (semicolon : Bool) :
    markedAll keep mark (items ++ .statement head semicolon :: rest) =
      markedAll keep mark (items ++ [.statement head semicolon]) ++ markedAll keep none rest := by
  induction items generalizing mark with
  | nil => simp [markedAll, role, Role.markNext]
  | cons item items ih => simp [markedAll, ih]

/-- No marker gets from the items in front of the preface to those after it. -/
theorem markedAll_splitLeading (keep : Option Marker → Bool) (items rest : List Item) :
    markedAll keep none ((splitLeading items).1 ++ rest) =
      markedAll keep none (splitLeading items).1 ++ markedAll keep none rest := by
  rcases splitLeading_cases items with hnil | ⟨init, head, semicolon, hinit, -⟩
  · rw [hnil]
    rfl
  · rw [hinit, List.append_assoc, List.singleton_append, markedAll_append_statement]

end Item

/-- Cleaning for a direction keeps every rule, at-rule and declaration without a marker for the other
direction in front of it or of what holds it. Each keeps its own marker, unless that is one for the
direction; then it has none. -/
theorem Stylesheet.marked_clean (d : Direction) (sheet : Stylesheet)
    (h : Stylesheet.unstacked sheet = true) :
    ∃ before after, (Stylesheet.survivors d sheet).map (Marked.settle d) = before ++ after ∧
      Stylesheet.marked (Stylesheet.clean d sheet) =
        before ++ Stylesheet.marked [.rule (.preface d)] ++ after := by
  have hcleaned := Item.markedAll_cleanAll d h
  rw [← Item.splitLeading_append (Item.cleanAll d sheet), Item.markedAll_splitLeading] at hcleaned
  refine ⟨_, _, hcleaned.symm, ?_⟩
  rw [Stylesheet.marked, Stylesheet.clean, Stylesheet.addPreface, Item.markedAll_splitLeading,
    List.append_assoc]
  rfl

theorem marked_clean_media :
    let sheet := Stylesheet.parse ("/*@noflip*/ .a\x7b\x7d @media print\x7b/*@rtl-only*/ .b\x7b\x7d " ++
      "/*@ltr-only*/ .c\x7b/*@rtl-only*/ top:0;left:1px\x7d\x7d").toList
    Stylesheet.unstacked sheet = true ∧
      ∃ before after, (Stylesheet.survivors .ltr sheet).map (Marked.settle .ltr) = before ++ after ∧
        Stylesheet.marked (Stylesheet.clean .ltr sheet) =
          before ++ Stylesheet.marked [.rule (.preface .ltr)] ++ after := by
  intro sheet
  have hunstacked : Stylesheet.unstacked sheet = true := by decide +kernel
  exact ⟨hunstacked, Stylesheet.marked_clean .ltr sheet hunstacked⟩

/-- With a marker in front of a marker, the first one goes on to the rule after the one that is taken
away. -/
theorem marker_moves_to_next_rule :
    let sheet := Stylesheet.parse
      "/*@noflip*/ /*@rtl-only*/ .a\x7b\x7d .b\x7bfloat:left\x7d".toList
    ¬ ∃ before after, (Stylesheet.survivors .ltr sheet).map (Marked.settle .ltr) = before ++ after ∧
      Stylesheet.marked (Stylesheet.clean .ltr sheet) =
        before ++ Stylesheet.marked [.rule (.preface .ltr)] ++ after := by
  rintro sheet ⟨before, after, hsplit, hclean⟩
  have hmoved : (Stylesheet.marked (Stylesheet.clean .ltr sheet)).any
      (·.marker = some .noFlip) = true := by decide +kernel
  have hbefore : ((Stylesheet.survivors .ltr sheet).map (Marked.settle .ltr)).any
      (·.marker = some .noFlip) = false := by decide +kernel
  rw [hsplit, List.any_append] at hbefore
  rw [hclean, List.any_append, List.any_append, Bool.or_right_comm, hbefore] at hmoved
  exact absurd hmoved (by decide +kernel)

end StyleFlip
