import StyleFlip.Proofs.MirroredShorthand
import StyleFlip.Proofs.RespelledTokens
import StyleFlip.Proofs.ThinnedSheet

/-!
# Tokens that change places

When the components of a value change places, their tokens do, and are read as the rearranged value.
A component that can be moved stands before every text that starts with an inert character, and such
a character follows it at its new place because blanks, comments and slashes stay where they were.
-/

namespace StyleFlip

open Lexer Value

/-- No token of the run is a brace. -/
def NoBraces (ts : List Token) : Prop := ∀ t ∈ ts, t.kind ≠ .openBrace ∧ t.kind ≠ .closeBrace

theorem noBraces_append {a b : List Token} : NoBraces (a ++ b) ↔ NoBraces a ∧ NoBraces b := by
  constructor
  · exact fun h => ⟨fun t ht => h t (by simp [ht]), fun t ht => h t (by simp [ht])⟩
  · exact fun h t ht => (List.mem_append.mp ht).elim (h.1 t) (h.2 t)

theorem noBraces_cons {t : Token} {ts : List Token} :
    NoBraces (t :: ts) ↔ (t.kind ≠ .openBrace ∧ t.kind ≠ .closeBrace) ∧ NoBraces ts := by
  simp only [NoBraces, List.mem_cons, forall_eq_or_imp]

/-! ### Tokens that do not change the depth -/

/-- The counters after a run of tokens are those before it. -/
def KeepsDepth (ts : List Token) : Prop :=
  ∀ depth braces, segmentDepth depth braces ts = some (depth, braces)

theorem KeepsDepth.append_left {a : List Token} (ha : KeepsDepth a) (depth braces : Nat) (b : List Token) :
    segmentDepth depth braces (a ++ b) = segmentDepth depth braces b := by
  rw [segmentDepth_append, ha]
  rfl

/-- A token that neither ends a segment nor changes the depth. -/
def Kind.isFlat (kind : Kind) : Bool :=
  kind = .whitespace ∨ kind = .comment ∨ kind = .ident ∨ kind = .number ∨ kind = .hash ∨
    kind = .url ∨ kind = .delim ∨ kind = .colon

theorem keepsDepth_of_isFlat {t : Token} (h : t.kind.isFlat = true) : KeepsDepth [t] := by
  intro depth braces
  cases hkind : t.kind <;> simp [hkind, Kind.isFlat] at h <;>
    simp [segmentDepth, hkind, Kind.nest]

theorem segmentDepth_cons {t : Token} (hbrace : t.kind ≠ .openBrace ∧ t.kind ≠ .closeBrace)
    {depth braces : Nat} (hends : ¬(t.kind = .semicolon ∧ depth = 0 ∧ braces = 0))
    (ts : List Token) :
    segmentDepth depth braces (t :: ts) = segmentDepth (t.kind.nest depth) braces ts := by
  rw [segmentDepth, if_neg hends, if_neg hbrace.2, if_neg hbrace.1]

theorem nest_of_opens {kind : Kind} (h : Bracket.paren.opens kind = true) (depth : Nat) :
    kind.nest depth = depth + 1 := by
  simp only [Bracket.opens, Bool.or_eq_true, beq_iff_eq] at h
  rcases h with rfl | rfl <;> rfl

theorem paren_depth_open {t : Token} (hopens : Bracket.paren.opens t.kind = true) {args : List Token}
    {n : Nat} (hargs : Bracket.paren.depth 0 args = some n) (rest : List Token) :
    Bracket.paren.depth 0 (t :: (args ++ rest)) = Bracket.paren.depth (n + 1) rest := by
  have hcloses := Bracket.closes_of_opens hopens
  rw [Bracket.depth, if_neg (by simp [hcloses]), if_pos hopens, Bracket.depth_append,
    Bracket.depth_add hargs 1, Option.bind_some]

/-- Between matching parentheses without square brackets in them, the depth comes back to what it
was. -/
theorem segmentDepth_args {args : List Token} (hspelled : SpelledAll args) (hbraces : NoBraces args)
    (hdepth : Bracket.paren.depth 0 args = some 0)
    (hleaves : Component.allLeavesAll (fun _ => true) LeafKind.isUnbracketed (Value.read args) = true)
    (depth braces : Nat) : segmentDepth (depth + 1) braces args = some (depth + 1, braces) := by
  induction args using Value.tokenInduction generalizing depth with
  | nil => rfl
  | leaf t rest hopens ih =>
      rw [Value.read_leaf hopens, Component.allLeavesAll, Component.allLeaves,
        Bool.and_eq_true] at hleaves
      rw [spelledAll_cons] at hspelled
      rw [noBraces_cons] at hbraces
      have hcloses : Bracket.paren.closes t.kind = false := by
        rw [Bool.eq_false_iff]
        intro hcloses
        simp [Bracket.depth, hcloses] at hdepth
      rw [Bracket.depth, if_neg (by simp [hcloses]), if_neg (by simp [hopens])] at hdepth
      rw [segmentDepth_cons hbraces.1 (by omega)]
      have hnest : t.kind.nest (depth + 1) = depth + 1 := by
        have htext : ∀ c, t.kind.sign? = some c → t.text = [c] :=
          fun c hsign => Token.text_eq_of_sign hspelled.1 hsign
        cases hkind : t.kind <;> simp only [Kind.nest]
        case function => simp [hkind, Bracket.opens] at hopens
        case openParen => simp [hkind, Bracket.opens] at hopens
        case closeParen => simp [hkind, Bracket.closes] at hcloses
        case openBracket =>
          have hopen := htext '[' (by rw [hkind]; rfl)
          simp [hopen, hkind, Kind.leaf, LeafKind.isUnbracketed] at hleaves
        case closeBracket =>
          have hclose := htext ']' (by rw [hkind]; rfl)
          simp [hclose, hkind, Kind.leaf, LeafKind.isUnbracketed] at hleaves
      rw [hnest]
      exact ih hspelled.2 hbraces.2 hdepth hleaves.2 depth
  | closed t inner close rest hopens hinner hclose ihinner ihrest =>
      rw [Value.read_function hopens hinner hclose, Component.allLeavesAll, Component.allLeaves,
        Bool.and_eq_true] at hleaves
      simp only [spelledAll_cons, spelledAll_append] at hspelled
      simp only [noBraces_cons, noBraces_append] at hbraces
      have hsemicolon : t.kind ≠ .semicolon := by
        intro hkind
        simp [hkind, Bracket.opens] at hopens
      have hrest : Bracket.paren.depth 0 rest = some 0 := by
        rw [paren_depth_open hopens hinner] at hdepth
        simpa [Bracket.depth, Bracket.closes, hclose] using hdepth
      rw [segmentDepth_cons hbraces.1 (by simp [hsemicolon]), nest_of_opens hopens,
        segmentDepth_append, ihinner hspelled.2.1 hbraces.2.1 hinner (by simpa using hleaves.1),
        Option.bind_some, segmentDepth_cons hbraces.2.2.1 (by simp [hclose]), hclose]
      exact ihrest hspelled.2.2.2 hbraces.2.2.2 hrest hleaves.2 depth
  | unclosed t inner n hopens hinner ih =>
      have hopen := paren_depth_open hopens hinner []
      rw [List.append_nil, hdepth] at hopen
      simp [Bracket.depth] at hopen

/-! ### Components as runs of tokens -/

/-- The tokens of a run of components that can be put before any text that starts with an inert
character. -/
structure Piece (run : List Component) (ts : List Token) : Prop where
  read (rest : List Token) : Value.read (ts ++ rest) = run ++ Value.read rest
  stand (r : Text) : startsWith isInert r = true → Stand ts r
  depth : KeepsDepth ts
  noBraces : NoBraces ts
  space (r : Text) : startsWith isSpace (textOf ts ++ r) = false
  star (r : Text) : startsWith (· == '*') (textOf ts ++ r) = false

theorem Lexeme.StandsBefore.not_startsWith_star {l : Lexeme} {r : Text} (h : l.StandsBefore r)
    (hkind : l.kind ≠ .delim) : startsWith (· == '*') (l.text ++ r) = false := by
  obtain ⟨c, tail, htext, hlexeme⟩ := h
  rw [htext, List.cons_append, startsWith, Bool.eq_false_iff]
  intro hstar
  obtain rfl : c = '*' := by simpa using hstar
  rw [lexeme_of_not_isOpener (by decide)] at hlexeme
  have hdelim : l.kind = .delim := by
    simpa [startsNumber_cons, startsUnsigned, startsFraction_cons, startsDigit, startsWith, isSign,
      startsIdent_cons, isNameStart, punctuation] using (congrArg Prod.fst hlexeme).symm
  exact hkind hdelim

/-- The first character of a run is that of its first token, whatever comes after. -/
theorem startsWith_of_standsBefore {p : Char → Bool} {t : Token} {r : Text}
    (h : t.toLexeme.StandsBefore r) (ts : List Token) (r' : Text) :
    startsWith p (textOf (t :: ts) ++ r') = startsWith p (t.text ++ r) := by
  obtain ⟨c, tail, htext, -⟩ := h
  rw [textOf_cons, show t.text = c :: tail from htext]
  rfl

theorem piece_leaf {t : Token} {r : Text} (h : t.toLexeme.StandsBefore r) (hr : r ≠ [])
    (hmovable : (Component.leaf t.kind.leaf t.text).isMovable = true) :
    Piece [.leaf t.kind.leaf t.text] [t] := by
  have hkind : t.kind = .ident ∨ t.kind = .number ∨ t.kind = .hash ∨ t.kind = .url := by
    cases hkind : t.kind <;> simp [hkind, Kind.leaf, Component.isMovable] at hmovable ⊢
  have hflat : t.kind.isFlat = true := by
    rcases hkind with hkind | hkind | hkind | hkind <;> simp [hkind, Kind.isFlat]
  refine ⟨fun rest => ?_, fun r' hinert => ⟨?_, trivial⟩, keepsDepth_of_isFlat hflat, ?_, fun r' => ?_,
    fun r' => ?_⟩
  · refine Value.read_leaf ?_ rest
    rcases hkind with hkind | hkind | hkind | hkind <;> simp [hkind, Bracket.opens]
  · obtain ⟨⟨kind, x⟩, span⟩ := t
    cases r' with
    | nil => contradiction
    | cons c r' =>
        refine h.respelled (.refl x) (aheadOfName_of_isInert hinert hr r') ?_ ?_ (fun _ => rfl) <;>
          rcases hkind with hkind | hkind | hkind | hkind <;> dsimp only at hkind <;> simp [hkind]
  · intro u hu
    obtain rfl := List.mem_singleton.mp hu
    rcases hkind with hkind | hkind | hkind | hkind <;> simp [hkind]
  · rw [startsWith_of_standsBefore h]
    refine h.not_startsWith_isSpace ?_
    rcases hkind with hkind | hkind | hkind | hkind <;> simp [hkind]
  · rw [startsWith_of_standsBefore h]
    refine h.not_startsWith_star ?_
    rcases hkind with hkind | hkind | hkind | hkind <;> simp [hkind]

theorem piece_function {t close : Token} {args : List Token} {r : Text}
    (hstand : Stand (t :: (args ++ [close])) r) (hbraces : NoBraces (t :: (args ++ [close])))
    (hopens : Bracket.paren.opens t.kind = true) (hdepth : Bracket.paren.depth 0 args = some 0)
    (hclose : close.kind = .closeParen)
    (hmovable : (Component.function t.text.dropLast (Value.read args) true).isMovable = true) :
    Piece [.function t.text.dropLast (Value.read args) true] (t :: (args ++ [close])) := by
  have hspelled := hstand.spelledAll
  simp only [spelledAll_cons, spelledAll_append] at hspelled
  have hparts := hbraces
  simp only [noBraces_cons, noBraces_append] at hparts
  have hkind : t.kind ≠ .semicolon ∧ t.kind ≠ .whitespace ∧ t.kind ≠ .delim := by
    simp only [Bracket.opens, Bool.or_eq_true, beq_iff_eq] at hopens
    rcases hopens with hopens | hopens <;> simp [hopens]
  refine ⟨fun rest => ?_, fun r' _ => ?_, fun depth braces => ?_, hbraces, fun r' => ?_,
    fun r' => ?_⟩
  · rw [List.cons_append, List.append_assoc, List.singleton_append,
      Value.read_function hopens hdepth hclose, List.singleton_append]
  · rw [← List.cons_append] at hstand ⊢
    exact hstand.of_last (Or.inl (by simp [hclose, Kind.sign?])) r'
  · rw [segmentDepth_cons hparts.1 (by simp [hkind.1]), nest_of_opens hopens, segmentDepth_append,
      segmentDepth_args hspelled.2.1 hparts.2.1 hdepth (by simpa [Component.isMovable] using hmovable),
      Option.bind_some, segmentDepth_cons hparts.2.2.1 (by simp [hclose]), hclose]
    rfl
  · rw [startsWith_of_standsBefore hstand.1]
    exact hstand.1.not_startsWith_isSpace hkind.2.1
  · rw [startsWith_of_standsBefore hstand.1]
    exact hstand.1.not_startsWith_star hkind.2.2

/-- Every component of a value that can be moved is a piece of its tokens. -/
theorem exists_piece {ts : List Token} {r : Text} (hstand : Stand ts r) (hr : r ≠ [])
    (hbraces : NoBraces ts) {c : Component} (hmem : c ∈ Value.read ts)
    (hmovable : c.isMovable = true) : ∃ us, Piece [c] us := by
  induction ts using Value.tokenInduction with
  | nil => simp [Value.read] at hmem
  | leaf t rest hopens ih =>
      rw [Value.read_leaf hopens] at hmem
      rcases List.mem_cons.mp hmem with rfl | hmem
      · exact ⟨[t], piece_leaf hstand.1 (by simp [hr]) hmovable⟩
      · exact ih hstand.2 (noBraces_cons.mp hbraces).2 hmem
  | closed t args close rest hopens hdepth hclose _ ih =>
      rw [Value.read_function hopens hdepth hclose] at hmem
      have hsplit : t :: (args ++ close :: rest) = (t :: (args ++ [close])) ++ rest := by simp
      rw [hsplit, stand_append] at hstand
      rw [hsplit, noBraces_append] at hbraces
      rcases List.mem_cons.mp hmem with rfl | hmem
      · exact ⟨_, piece_function hstand.1 hbraces.1 hopens hdepth hclose hmovable⟩
      · exact ih hstand.2 hbraces.2 hmem
  | unclosed t args n hopens hdepth _ =>
      rw [Value.read_open_function hopens hdepth] at hmem
      obtain rfl := List.mem_singleton.mp hmem
      simp [Component.isMovable] at hmovable

def Token.blank : Token := ⟨⟨.whitespace, [' ']⟩, .unknown⟩

/-- A run that can be put in place of a slot is a piece of tokens. -/
theorem Filling.exists_piece {pool run : List Component}
    (hpool : ∀ c ∈ pool, c.isMovable = true → ∃ us, Piece [c] us) (h : Filling pool run) :
    ∃ us, Piece run us := by
  induction h with
  | one hc hmem => exact hpool _ hmem hc
  | @cons c run hc hmem _ ih =>
      obtain ⟨us, hus⟩ := hpool c hmem hc
      obtain ⟨vs, hvs⟩ := ih
      have hblank : ∀ r, startsWith isInert (textOf (Token.blank :: vs) ++ r) = true :=
        fun r => (by decide : isInert ' ' = true)
      have hread : ∀ ts, Value.read (Token.blank :: ts) = .leaf .whitespace [' '] :: Value.read ts :=
        @Value.read_leaf Token.blank rfl
      refine ⟨us ++ .blank :: vs, fun rest => ?_, fun r hr => ?_, fun depth braces => ?_, ?_,
        fun r => ?_, fun r => ?_⟩
      · simp only [List.append_assoc, hus.read, List.cons_append, List.nil_append, hread, hvs.read]
      · refine stand_append.mpr ⟨hus.stand _ (hblank r), ?_, hvs.stand r hr⟩
        exact Lexeme.standsBefore_whitespace_iff.mpr ⟨by simp, by simp [isSpace], hvs.space r⟩
      · rw [hus.depth.append_left, ← List.singleton_append,
          (@keepsDepth_of_isFlat Token.blank rfl).append_left, hvs.depth]
      · exact noBraces_append.mpr ⟨hus.noBraces, noBraces_cons.mpr ⟨by simp [Token.blank], hvs.noBraces⟩⟩
      · rw [textOf_append, List.append_assoc, hus.space]
      · rw [textOf_append, List.append_assoc, hus.star]

/-! ### Gaps between components -/

/-- The value is empty, or a blank, a comment, a slash or an exclamation mark comes first. -/
def Value.startsGap : Value → Bool
  | [] => true
  | c :: _ => c.isTrivia || c.isDelim '/' || c.isDelim '!'

theorem lexeme_slash (rest : Text) :
    lexeme '/' rest =
      if startsWith (· == '*') rest then
        (.comment, (Scan.one.andThen (Scan.one.andThen Scan.throughCommentEnd)) ('/' :: rest))
      else (.delim, ['/'], rest) := by
  rw [lexeme, if_neg (by decide), startsComment_cons]
  simp [Lookahead.sees, isQuote, startsNumber_cons, startsUnsigned, startsFraction_cons,
    startsDigit, startsWith, isSign, startsIdent_cons, isNameStart, punctuation]
  rfl

/-- A slash stands before any text that does not make a comment of it. -/
theorem Token.standsBefore_slash {t : Token} {r r' : Text} (h : t.toLexeme.StandsBefore r)
    (htext : t.text = ['/'])
    (hstar : startsWith (· == '*') r' = true → startsWith (· == '*') r = true) :
    t.toLexeme.StandsBefore r' := by
  obtain ⟨c, tail, hcons, hlexeme⟩ := h
  obtain ⟨rfl, rfl⟩ := List.cons.inj (htext.symm.trans hcons)
  rw [List.nil_append, lexeme_slash] at hlexeme
  split at hlexeme
  · have hcomment : t.toLexeme.text = _ := (congrArg (fun result => result.2.1) hlexeme).symm
    rw [show t.toLexeme.text = ['/'] from htext] at hcomment
    rename_i hopen
    cases r with
    | nil => contradiction
    | cons d r => simp [Scan.andThen_apply, Scan.one] at hcomment
  · rename_i hplain
    have hkind : t.toLexeme.kind = .delim := (congrArg Prod.fst hlexeme).symm
    refine ⟨'/', [], hcons, ?_⟩
    rw [List.nil_append, lexeme_slash, if_neg (fun hopen => hplain (hstar hopen)), hkind, hcons]

theorem isInert_of_isSpace {c : Char} (h : isSpace c = true) : isInert c = true := by
  simp only [isSpace, Bool.or_eq_true, beq_iff_eq] at h
  rcases h with (((rfl | rfl) | rfl) | rfl) | rfl <;> decide

/-- What stands in a gap starts with an inert character. -/
theorem startsWith_isInert_of_startsGap {ts : List Token} {r : Text} (hstand : Stand ts r)
    (hr : startsWith isInert r = true) (hgap : Value.startsGap (Value.read ts) = true) :
    startsWith isInert (textOf ts ++ r) = true := by
  cases ts with
  | nil => exact hr
  | cons t rest =>
      by_cases hopens : Bracket.paren.opens t.kind = true
      · rw [Value.read, if_pos hopens] at hgap
        contradiction
      rw [Value.read_leaf (by simpa using hopens), Value.startsGap] at hgap
      have hspelled := hstand.1.spelled
      rw [startsWith_of_standsBefore hstand.1]
      by_cases htrivia : (Component.leaf t.kind.leaf t.text).isTrivia = true
      · have hkind : t.kind = .whitespace ∨ t.kind = .comment := by
          cases hkind : t.kind <;> simp [hkind, Kind.leaf, Component.isTrivia] at htrivia ⊢
        rcases hkind with hkind | hkind <;> rw [Lexeme.Spelled, hkind] at hspelled
        · obtain ⟨hne, hspace⟩ := hspelled
          obtain ⟨c, tail, htext⟩ := List.exists_cons_of_ne_nil hne
          have hc := hspace c (by simp [htext])
          rw [show t.text = c :: tail from htext]
          exact isInert_of_isSpace hc
        · obtain ⟨body, htext⟩ := hspelled
          rw [show t.text = '/' :: '*' :: body from htext]
          exact (by decide : isInert '/' = true)
      · have hmark : t.text = ['/'] ∨ t.text = ['!'] := by
          cases hkind : t.kind.leaf <;> simp_all [Component.isTrivia, Component.isDelim]
        rcases hmark with hmark | hmark <;> rw [hmark]
        · exact (by decide : isInert '/' = true)
        · exact (by decide : isInert '!' = true)

/-! ### New tokens in place of old ones -/

/-- Before the text `r`, the tokens `ts'` can take the place of `ts` at the end of a declaration. -/
structure Exchange (r : Text) (ts ts' : List Token) : Prop where
  stand : Stand ts' r
  depth (depth braces : Nat) : segmentDepth depth braces ts' = segmentDepth depth braces ts
  noBraces : NoBraces ts'
  space : startsWith isSpace (textOf ts' ++ r) = true → startsWith isSpace (textOf ts ++ r) = true

/-- An exchange that can go on to the left. -/
structure Refit (r : Text) (ts ts' : List Token) : Prop extends Exchange r ts ts' where
  star : startsWith (· == '*') (textOf ts' ++ r) = true → startsWith (· == '*') (textOf ts ++ r) = true
  inert : Value.startsGap (Value.read ts) = true → startsWith isInert (textOf ts' ++ r) = true

namespace Refit

variable {r : Text} {ts rest rest' : List Token}

theorem refl (hstand : Stand ts r) (hr : startsWith isInert r = true) (hbraces : NoBraces ts) :
    Refit r ts ts where
  stand := hstand
  depth _ _ := rfl
  noBraces := hbraces
  space := id
  star := id
  inert := startsWith_isInert_of_startsGap hstand hr

/-- A token stays at its place. -/
theorem keep (h : Refit r rest rest') {t : Token} (hold : Stand (t :: rest) r)
    (hr : startsWith isInert r = true) (hbrace : t.kind ≠ .openBrace ∧ t.kind ≠ .closeBrace)
    (hnew : t.toLexeme.StandsBefore (textOf rest' ++ r)) : Refit r (t :: rest) (t :: rest') where
  stand := ⟨hnew, h.stand⟩
  depth := by
    intro depth braces
    simp only [segmentDepth, h.depth]
  noBraces := noBraces_cons.mpr ⟨hbrace, h.noBraces⟩
  space := by
    rw [startsWith_of_standsBefore hold.1, startsWith_of_standsBefore hold.1]
    exact id
  star := by
    rw [startsWith_of_standsBefore hold.1, startsWith_of_standsBefore hold.1]
    exact id
  inert := by
    intro hgap
    have hinert := startsWith_isInert_of_startsGap hold hr hgap
    rw [startsWith_of_standsBefore hold.1] at hinert ⊢
    exact hinert

/-- A component is exchanged for a run of others. -/
theorem slot (h : Refit r rest rest') {c : Component} {run : List Component} {us us' : List Token}
    (hpiece : Piece [c] us) (hpiece' : Piece run us') (hmovable : c.isMovable = true)
    (hgap : Value.startsGap (Value.read rest) = true) : Refit r (us ++ rest) (us' ++ rest') where
  stand := stand_append.mpr ⟨hpiece'.stand _ (h.inert hgap), h.stand⟩
  depth := by
    intro depth braces
    rw [hpiece.depth.append_left, hpiece'.depth.append_left, h.depth]
  noBraces := noBraces_append.mpr ⟨hpiece'.noBraces, h.noBraces⟩
  space := by
    intro hspace
    rw [textOf_append, List.append_assoc, hpiece'.space] at hspace
    contradiction
  star := by
    intro hstar
    rw [textOf_append, List.append_assoc, hpiece'.star] at hstar
    contradiction
  inert := by
    intro hfirst
    rw [hpiece.read, List.singleton_append, Value.startsGap,
      Component.not_isTrivia_of_isMovable hmovable,
      Component.not_isDelim_of_isMovable hmovable, Component.not_isDelim_of_isMovable hmovable]
      at hfirst
    contradiction

/-- A blank, a comment or a slash stands before the new tokens. -/
theorem standsBefore (h : Refit r rest rest') {t : Token}
    (hstand : t.toLexeme.StandsBefore (textOf rest ++ r)) (hne : textOf rest ++ r ≠ [])
    (hkept : (Component.leaf t.kind.leaf t.text).isTrivia = true ∨
      Component.leaf t.kind.leaf t.text = slash) :
    t.toLexeme.StandsBefore (textOf rest' ++ r) := by
  obtain ⟨⟨kind, x⟩, span⟩ := t
  dsimp only at hstand hkept ⊢
  rcases hkept with htrivia | hslash
  · have hkind : kind = .whitespace ∨ kind = .comment := by
      cases kind <;> simp [Kind.leaf, Component.isTrivia] at htrivia ⊢
    rcases hkind with rfl | rfl
    · obtain ⟨hx, hspace, hstop⟩ := Lexeme.standsBefore_whitespace_iff.mp hstand
      refine Lexeme.standsBefore_whitespace_iff.mpr ⟨hx, hspace, ?_⟩
      rw [Bool.eq_false_iff] at hstop ⊢
      exact fun hstarts => hstop (h.space hstarts)
    · refine hstand.comment fun _ => ?_
      obtain ⟨c, tail, htail⟩ := List.exists_cons_of_ne_nil hne
      rw [htail]
      rfl
  · have htext : x = ['/'] := (Component.leaf.inj hslash).2
    exact @Token.standsBefore_slash ⟨⟨kind, x⟩, span⟩ _ _ hstand htext h.star

end Refit

theorem Value.isSpaced_tail {c : Component} {value : Value} (h : isSpaced (c :: value) = true) :
    isSpaced value = true := by
  cases value with
  | nil => rfl
  | cons d value =>
      rw [isSpaced, Bool.and_eq_true] at h
      exact h.2

theorem Value.front_cons {c : Component} (h : c.isDelim '!' = false) (value : Value) :
    front (c :: value) = c :: front value := List.takeWhile_cons_of_pos (by simp [h])

theorem Value.back_cons {c : Component} (h : c.isDelim '!' = false) (value : Value) :
    back (c :: value) = back value := List.dropWhile_cons_of_pos (by simp [h])

/-- After a component comes a gap. -/
theorem Value.startsGap_of_isSpaced {c : Component} {value : Value} (hmovable : c.isMovable = true)
    (h : isSpaced (c :: front value) = true) : startsGap value = true := by
  cases value with
  | nil => rfl
  | cons d value =>
      cases hmark : d.isDelim '!' with
      | true => simp [startsGap, hmark]
      | false =>
          rw [front_cons hmark, isSpaced, Component.not_isTrivia_of_isMovable hmovable,
            Component.not_isDelim_of_isMovable hmovable, Bool.and_eq_true] at h
          simpa [startsGap, hmark] using h.1

section Refill

variable {pool : List Component} {r : Text}

theorem Refilled.of_kept {c : Component} (hkept : c.isTrivia = true ∨ c = StyleFlip.slash) {a b : Value}
    (h : Refilled pool (c :: a) b) : ∃ b', b = c :: b' ∧ Refilled pool a b' := by
  cases h with
  | trivia _ h => exact ⟨_, rfl, h⟩
  | slash h => exact ⟨_, rfl, h⟩
  | slot hc =>
      rcases hkept with htrivia | rfl
      · simp [Component.not_isTrivia_of_isMovable hc] at htrivia
      · contradiction

/-- The step of `exists_refit` for a component that takes some tokens of its own. -/
theorem exists_refit_slot (hpool : ∀ c ∈ pool, c.isMovable = true → ∃ us, Piece [c] us)
    {c : Component} {us rest : List Token} (hpiece : c.isMovable = true → Piece [c] us)
    {value' : Value}
    (hmark : c.isDelim '!' = false) (htrivia : c.isTrivia = false) (hslash : c ≠ slash)
    (hspaced : isSpaced (front (c :: Value.read rest)) = true)
    (h : Refilled pool (front (c :: Value.read rest)) value')
    (ih : ∀ {value''}, isSpaced (front (Value.read rest)) = true →
      Refilled pool (front (Value.read rest)) value'' →
      ∃ rest', Refit r rest rest' ∧ Value.read rest' = value'' ++ back (Value.read rest)) :
    ∃ ts', Refit r (us ++ rest) ts' ∧
      Value.read ts' = value' ++ back (c :: Value.read rest) := by
  rw [front_cons hmark] at h hspaced
  rw [back_cons hmark]
  cases h with
  | trivia hc => simp [htrivia] at hc
  | slash => exact absurd rfl hslash
  | slot hc hrun h =>
      obtain ⟨us', hpiece'⟩ := hrun.exists_piece hpool
      obtain ⟨rest', hrefit, hread⟩ := ih (isSpaced_tail hspaced) h
      refine ⟨us' ++ rest', hrefit.slot (hpiece hc) hpiece' hc (startsGap_of_isSpaced hc hspaced), ?_⟩
      rw [hpiece'.read, hread, List.append_assoc]

/-- The tokens of a value can be rearranged as its slots are. -/
theorem exists_refit (hpool : ∀ c ∈ pool, c.isMovable = true → ∃ us, Piece [c] us) {ts : List Token}
    (hstand : Stand ts r) (hr : startsWith isInert r = true) (hbraces : NoBraces ts)
    (hspaced : isSpaced (front (Value.read ts)) = true) {value' : Value}
    (h : Refilled pool (front (Value.read ts)) value') :
    ∃ ts', Refit r ts ts' ∧ Value.read ts' = value' ++ back (Value.read ts) := by
  have hne : r ≠ [] := by
    rintro rfl
    contradiction
  induction ts using Value.tokenInduction generalizing value' with
  | nil =>
      have hnil : Value.read [] = [] := by rw [Value.read]
      rw [hnil] at h
      cases h
      exact ⟨[], .refl trivial hr hbraces, by rw [hnil]; rfl⟩
  | leaf t rest hopens ih =>
      have hread := @Value.read_leaf t hopens
      obtain ⟨hbrace, hrest⟩ := noBraces_cons.mp hbraces
      have hafter : textOf rest ++ r ≠ [] := by simp [hne]
      rw [hread] at h hspaced ⊢
      cases hmark : (Component.leaf t.kind.leaf t.text).isDelim '!' with
      | true =>
          -- From the exclamation mark on nothing moves.
          rw [front, List.takeWhile_cons_of_neg (by simp [hmark])] at h
          cases h
          refine ⟨t :: rest, .refl hstand hr hbraces, ?_⟩
          rw [hread, back, List.dropWhile_cons_of_neg (by simp [hmark]), List.nil_append]
      | false =>
          by_cases hkept : (Component.leaf t.kind.leaf t.text).isTrivia = true ∨
              Component.leaf t.kind.leaf t.text = slash
          · rw [front_cons hmark] at h hspaced
            obtain ⟨value'', rfl, htail⟩ := h.of_kept hkept
            obtain ⟨rest', hrefit, hread'⟩ := ih hstand.2 hrest (isSpaced_tail hspaced) htail
            refine ⟨t :: rest', hrefit.keep hstand hr hbrace
              (hrefit.standsBefore hstand.1 hafter hkept), ?_⟩
            rw [hread, hread', back_cons hmark, List.cons_append]
          · rw [not_or, Bool.not_eq_true] at hkept
            exact exists_refit_slot hpool (piece_leaf hstand.1 hafter) hmark hkept.1 hkept.2 hspaced h
              fun hspaced' h' => ih hstand.2 hrest hspaced' h'
  | closed t args close rest hopens hdepth hclose _ ih =>
      have hsplit : t :: (args ++ close :: rest) = (t :: (args ++ [close])) ++ rest := by simp
      rw [Value.read_function hopens hdepth hclose] at h hspaced ⊢
      rw [hsplit, stand_append] at hstand
      rw [hsplit, noBraces_append] at hbraces
      rw [hsplit]
      exact exists_refit_slot hpool (piece_function hstand.1 hbraces.1 hopens hdepth hclose) rfl rfl
        (by simp [slash]) hspaced h fun hspaced' h' => ih hstand.2 hbraces.2 hspaced' h'
  | unclosed t args n hopens hdepth _ =>
      rw [Value.read_open_function hopens hdepth, front_cons rfl] at h
      cases h with
      | trivia hc => contradiction
      | slot hc => simp [Component.isMovable] at hc

theorem Shorthand.exists_refit {shorthand : Shorthand} {ts : List Token} (hstand : Stand ts r)
    (hr : startsWith isInert r = true) (hbraces : NoBraces ts)
    (h : shorthand.canMove (Value.read ts) = true) :
    ∃ ts', Refit r ts ts' ∧ Value.read ts' = shorthand.flip (Value.read ts) := by
  have hne : r ≠ [] := by
    rintro rfl
    contradiction
  have hpool : ∀ c ∈ slots (Value.read ts), c.isMovable = true → ∃ us, Piece [c] us := by
    intro c hc hmovable
    refine exists_piece hstand hne hbraces ?_ hmovable
    exact (List.takeWhile_sublist _).subset (List.mem_filter.mp hc).1
  rw [flip_eq_rearrange, rearrange]
  exact StyleFlip.exists_refit hpool hstand hr hbraces (isSpaced_of_canMove h)
    (refilled_fill (reordered_runs h))

end Refill

/-! ### Respelled tokens in place of old ones -/

theorem noBraces_of_kinds {ts ts' : List Token} (h : ts'.map (·.kind) = ts.map (·.kind))
    (hbraces : NoBraces ts) : NoBraces ts' := by
  have hkinds : ∀ us : List Token, NoBraces us ↔
      ∀ kind ∈ us.map (·.kind), kind ≠ .openBrace ∧ kind ≠ .closeBrace := by
    intro us
    rw [List.forall_mem_map]
    rfl
  rw [hkinds, h, ← hkinds]
  exact hbraces

theorem Exchange.respelled {r : Text} {ts us us' : List Token} (h : Exchange r ts us)
    (hrespelled : RespelledAll us us') : Exchange r ts us' := by
  obtain ⟨hstand, hnext⟩ := h.stand.respelledAll hrespelled (.refl r)
  refine ⟨hstand, fun depth braces => ?_, noBraces_of_kinds hrespelled.kinds h.noBraces,
    fun hspace => h.space (hnext.space hspace)⟩
  rw [segmentDepth_of_kinds hrespelled.kinds, h.depth]

end StyleFlip
