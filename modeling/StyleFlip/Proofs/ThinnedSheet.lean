import StyleFlip.Proofs.RespelledTokens
import StyleFlip.Proofs.ThinnedBody
import StyleFlip.Transform

/-!
# Stylesheets with items left out

Cleaning leaves out items and parts of rule bodies. What is left is read back from its text, up to
blanks that come to stand side by side. Raw text is never left out: a `}` in it may close a brace
that stands in other raw text.
-/

namespace StyleFlip

/-- The first list is the second without some members, all of which have the given property. -/
inductive Thinned {α : Type} (p : α → Prop) : List α → List α → Prop
  | nil : Thinned p [] []
  | keep (a : α) {kept all : List α} (h : Thinned p kept all) : Thinned p (a :: kept) (a :: all)
  | drop {a : α} (ha : p a) {kept all : List α} (h : Thinned p kept all) : Thinned p kept (a :: all)

/-- While a marker is in force, only blanks stand in front of its item. -/
theorem thinned_strip {α : Type} (role : α → Role) (d : Direction) (skipping : Option Bool)
    (items : List α) (hskip : skipping.isSome = true → targetAhead role items = true) :
    Thinned (fun a => role a ≠ .other) (strip role d skipping items) items := by
  fun_induction strip role d skipping items with
  | case1 => exact .nil
  | case2 a rest htarget ih => exact .keep a (ih (by simp))
  | case3 a rest keep htarget hdrop ih => exact .drop (by simp [htarget]) (ih (by simp))
  | case4 a rest keep htarget ih =>
      have hahead := hskip rfl
      have hblank := blank_of_targetAhead hahead htarget
      refine .drop (by simp [hblank]) (ih fun _ => ?_)
      rwa [targetAhead_cons_of_blank hblank] at hahead
  | case5 a rest marked hmarker hahead ih =>
      refine .drop ?_ (ih fun _ => hahead)
      intro hother
      simp [hother, Role.only?] at hmarker
  | case6 a rest marked hmarker hahead ih => exact .keep a (ih (by simp))
  | case7 a rest hmarker ih => exact .keep a (ih (by simp))

/-! ### Runs in which the braces are balanced -/

theorem Bracket.depth_add {bracket : Bracket} {n m : Nat} {ts : List Token}
    (h : bracket.depth n ts = some m) (k : Nat) : bracket.depth (n + k) ts = some (m + k) := by
  fun_induction Bracket.depth bracket n ts with
  | case1 n => simpa [Bracket.depth] using h
  | case2 => contradiction
  | case3 t ts hcloses n ih =>
      rw [show n + 1 + k = (n + k) + 1 by omega]
      simpa [Bracket.depth, hcloses] using ih h
  | case4 n t ts hcloses hopens ih =>
      have hrest := ih h
      rw [show n + 1 + k = n + k + 1 by omega] at hrest
      simpa [Bracket.depth, hcloses, hopens] using hrest
  | case5 n t ts hcloses hopens ih => simpa [Bracket.depth, hcloses, hopens] using ih h

/-- The braces of a run are balanced. -/
def Balanced (ts : List Token) : Prop := ∀ n, Bracket.brace.depth n ts = some n

theorem balanced_of_depth {ts : List Token} (h : Bracket.brace.depth 0 ts = some 0) :
    Balanced ts := by
  intro n
  simpa using Bracket.depth_add h n

theorem Balanced.depth_append {ts : List Token} (h : Balanced ts) (n : Nat) (more : List Token) :
    Bracket.brace.depth n (ts ++ more) = Bracket.brace.depth n more := by
  rw [Bracket.depth_append, h n, Option.bind_some]

theorem Balanced.append {a b : List Token} (ha : Balanced a) (hb : Balanced b) :
    Balanced (a ++ b) := by
  intro n
  rw [ha.depth_append, hb n]

theorem balanced_of_no_brace {ts : List Token}
    (h : ∀ t ∈ ts, t.kind ≠ .openBrace ∧ t.kind ≠ .closeBrace) : Balanced ts := by
  induction ts with
  | nil => intro n; rfl
  | cons t ts ih =>
      obtain ⟨hopen, hclose⟩ := h t (by simp)
      intro n
      rw [← List.singleton_append, Bracket.depth_append, brace_depth_other hopen hclose]
      exact ih (fun u hu => h u (by simp [hu])) n

theorem balanced_block {opening closing : Token} {block : List Token}
    (hopening : opening.kind = .openBrace) (hblock : Bracket.brace.depth 0 block = some 0)
    (hclosing : closing.kind = .closeBrace) : Balanced (opening :: (block ++ [closing])) := by
  intro n
  have hopen : Bracket.brace.depth n (opening :: (block ++ [closing])) =
      Bracket.brace.depth (n + 1) (block ++ [closing]) := by
    simp [Bracket.depth, Bracket.closes, Bracket.opens, hopening]
  rw [hopen, (balanced_of_depth hblock).depth_append, brace_depth_closeBrace hclosing]
  simp

theorem ne_closeBrace_of_preludeDepth {depth : Nat} {ts : List Token}
    (h : (preludeDepth depth ts).isSome = true) : ∀ t ∈ ts, t.kind ≠ .closeBrace := by
  induction ts generalizing depth with
  | nil => simp
  | cons t ts ih =>
      rw [preludeDepth] at h
      split at h
      · contradiction
      · rename_i hgoes
        intro u hu
        rcases List.mem_cons.mp hu with rfl | hu
        · intro hkind
          simp [endsPrelude, hkind] at hgoes
        · exact ih h u hu

/-- A prelude without a hidden `{` has no braces. -/
theorem balanced_prelude {ts : List Token} (hdepth : (preludeDepth 0 ts).isSome = true)
    (hshown : ts.all (·.kind != .openBrace) = true) : Balanced ts := by
  refine balanced_of_no_brace fun t ht => ⟨?_, ne_closeBrace_of_preludeDepth hdepth t ht⟩
  simpa using List.all_eq_true.mp hshown t ht

namespace Outline

mutual

/-- No `{` stands in a selector or in front of the block of an at-rule, where only brackets can hide
it. -/
def showsBraces : Outline → Bool
  | .rule selector _ _ _ => selector.all (·.kind != .openBrace)
  | .statement _ params _ => params.all (·.kind != .openBrace)
  | .verbatim _ params _ _ _ => params.all (·.kind != .openBrace)
  | .group _ params _ items _ => params.all (·.kind != .openBrace) && showsBracesAll items
  | _ => true

def showsBracesAll : List Outline → Bool
  | [] => true
  | entry :: rest => showsBraces entry && showsBracesAll rest

end

theorem AtBlock.balanced {keyword opening closing : Token} {params block : List Token}
    (h : AtBlock keyword params opening block closing)
    (hshown : params.all (·.kind != .openBrace) = true) :
    Balanced (keyword :: (params ++ opening :: (block ++ [closing]))) := by
  rw [← List.singleton_append]
  refine Balanced.append (balanced_of_no_brace fun t ht => ?_) (Balanced.append
    (balanced_prelude (by simp [h.params]) hshown)
    (balanced_block h.opening h.block h.closing))
  obtain rfl := List.mem_singleton.mp ht
  simp [h.keyword]

/-- The braces of an entry that is not raw text are balanced. -/
theorem Proper.balanced {entry : Outline} {rest : List Token} (h : entry.Proper rest)
    (hshown : entry.showsBraces = true) (hraw : ∀ cause ts, entry ≠ .raw cause ts) :
    Balanced entry.tokens := by
  cases entry with
  | whitespace t =>
      have hkind : t.kind = .whitespace := h
      exact balanced_of_no_brace (by simp [tokens, hkind])
  | comment t =>
      have hkind : t.kind = .comment := h
      exact balanced_of_no_brace (by simp [tokens, hkind])
  | raw cause ts => exact absurd rfl (hraw cause ts)
  | rule selector opening body closing =>
      have hblock : RuleBlock selector opening body closing := h
      exact (balanced_prelude (by simp [hblock.selector]) hshown).append
        (balanced_block hblock.opening hblock.body hblock.closing)
  | statement keyword params semicolon =>
      have hparts : keyword.kind = .atKeyword ∧ (preludeDepth 0 params).isSome = true ∧
          ∀ stop ∈ semicolon, stop.kind = .semicolon := by
        cases semicolon with
        | none => exact ⟨h.2.1, h.2.2, by simp⟩
        | some stop =>
            obtain ⟨hkeyword, hparams, hstop⟩ := h
            exact ⟨hkeyword, by simp [hparams], by simpa using hstop⟩
      obtain ⟨hkeyword, hparams, hstop⟩ := hparts
      rw [tokens, ← List.singleton_append]
      refine Balanced.append (balanced_of_no_brace fun t ht => ?_) (Balanced.append
        (balanced_prelude hparams hshown) (balanced_of_no_brace fun t ht => ?_))
      · obtain rfl := List.mem_singleton.mp ht
        simp [hkeyword]
      · simp [hstop t (Option.mem_toList.mp ht)]
  | verbatim keyword params opening block closing => exact h.2.balanced hshown
  | group keyword params opening items closing =>
      rw [showsBraces, Bool.and_eq_true] at hshown
      exact h.2.1.balanced hshown.1

/-! ### Entries in front of other tokens -/

/-- What an entry can tell apart about the tokens after it. -/
structure Follows (rest rest' : List Token) : Prop where
  nil : rest = [] → rest' = []
  brace : BeforeBrace rest → BeforeBrace rest'

theorem Proper.of_follows {entry : Outline} {rest rest' : List Token} (h : entry.Proper rest)
    (hrest : Follows rest rest') : entry.Proper rest' := by
  cases entry with
  | raw cause ts =>
      cases cause with
      | strayBrace => exact h
      | missingBlock => exact h
      | unterminated =>
          obtain ⟨hstarts, hdepth, hend⟩ := h
          exact ⟨hstarts, hdepth, hend.imp hrest.nil hrest.brace⟩
      | unclosedBlock => exact ⟨hrest.nil h.1, h.2⟩
      | unclosedAtRule => exact ⟨hrest.nil h.1, h.2⟩
      | cutOff => exact ⟨hrest.brace h.1, h.2⟩
      | notADeclaration => exact h
  | statement keyword params semicolon =>
      cases semicolon with
      | none => exact ⟨hrest.nil h.1, h.2⟩
      | some stop => exact h
  | _ => exact h

theorem next_of_beforeBrace {rest rest' : List Token} {r r' : Text} (h : BeforeBrace rest)
    (h' : BeforeBrace rest') (hstand : Stand rest r) (hstand' : Stand rest' r') :
    Next (textOf rest ++ r) (textOf rest' ++ r') := by
  have htext : ∀ {rest : List Token} {r : Text}, BeforeBrace rest → Stand rest r →
      ∃ tail, textOf rest ++ r = '}' :: tail := by
    rintro rest r ⟨t, more, rfl, hkind⟩ hstand
    have hone : t.text = ['}'] :=
      Token.text_eq_of_sign (spelledAll_cons.mp hstand.spelledAll).1 (by rw [hkind]; rfl)
    exact ⟨textOf more ++ r, by simp [hone]⟩
  obtain ⟨tail, hold⟩ := htext h hstand
  obtain ⟨tail', hnew⟩ := htext h' hstand'
  rw [hold, hnew]
  exact next_cons_of_isDecisive (by decide) _ _

theorem textOf_ne_nil {ts : List Token} {r : Text} (hstand : Stand ts r) (h : ts ≠ []) :
    textOf ts ≠ [] := by
  cases ts with
  | nil => contradiction
  | cons t ts =>
      obtain ⟨c, tail, htext, -⟩ := hstand.1
      simp [show t.text = _ from htext]

/-- An entry other than a blank stands before other tokens of which it cannot tell the difference. -/
theorem Proper.stand_of_follows {entry : Outline} {rest rest' : List Token} {r : Text}
    (h : entry.Proper rest) (hblank : ∀ t, entry ≠ .whitespace t) (hrest : Follows rest rest')
    (hstand : Stand entry.tokens (textOf rest ++ r)) (hold : Stand rest r) (hnew : Stand rest' r) :
    Stand entry.tokens (textOf rest' ++ r) := by
  -- The entry is the last one, or a brace comes next, or it ends in punctuation.
  have hend : rest = [] → Stand entry.tokens (textOf rest' ++ r) := by
    rintro rfl
    rw [hrest.nil rfl]
    exact hstand
  have hbrace : BeforeBrace rest → Stand entry.tokens (textOf rest' ++ r) := fun hbefore =>
    hstand.next (next_of_beforeBrace hbefore (hrest.brace hbefore) hold hnew)
  have hsign : ∀ ts t, entry.tokens = ts ++ [t] → t.kind.sign? ≠ none →
      Stand entry.tokens (textOf rest' ++ r) := by
    intro ts t htokens ht
    rw [htokens] at hstand ⊢
    exact hstand.of_last (Or.inl ht) _
  cases entry with
  | whitespace t => exact absurd rfl (hblank t)
  | comment t =>
      by_cases hnil : rest = []
      · exact hend hnil
      · refine @Stand.of_last [] _ _ hstand (Or.inr ⟨h, ?_⟩) _
        simp [textOf_ne_nil hold hnil]
  | raw cause ts =>
      cases cause with
      | strayBrace =>
          obtain ⟨t, rfl, hkind⟩ := h
          exact hsign [] t rfl (by simp [hkind, Kind.sign?])
      | missingBlock =>
          obtain ⟨selector, stop, rfl, -, -, hkind⟩ := h
          exact hsign selector stop rfl (by simp [hkind, Kind.sign?])
      | unterminated => exact h.2.2.elim hend hbrace
      | unclosedBlock => exact hend h.1
      | unclosedAtRule => exact hend h.1
      | cutOff => exact hbrace h.1
      | notADeclaration => exact h.elim
  | rule selector opening body closing =>
      have hblock : RuleBlock selector opening body closing := h
      exact hsign (selector ++ opening :: body) closing (by simp [tokens])
        (by simp [hblock.closing, Kind.sign?])
  | statement keyword params semicolon =>
      cases semicolon with
      | none => exact hend h.1
      | some stop =>
          exact hsign (keyword :: params) stop (by simp [tokens])
            (by simp [show stop.kind = .semicolon from h.2.2, Kind.sign?])
  | verbatim keyword params opening block closing =>
      exact hsign (keyword :: (params ++ opening :: block)) closing (by simp [tokens])
        (by simp [h.2.closing, Kind.sign?])
  | group keyword params opening items closing =>
      exact hsign (keyword :: (params ++ opening :: tokensAll items)) closing (by simp [tokens])
        (by simp [h.2.1.closing, Kind.sign?])

/-- The block of a rule or at-rule can be exchanged for another one that stands in its place. -/
theorem stand_block {front block block' : List Token} {opening closing : Token} {r : Text}
    (hstand : Stand (front ++ opening :: (block ++ [closing])) r)
    (hopening : opening.kind = .openBrace) (hclosing : closing.kind = .closeBrace)
    (hblock : Stand block' ('}' :: r)) (r' : Text) :
    Stand (front ++ opening :: (block' ++ [closing])) r' := by
  have hspelled := hstand.spelledAll
  simp only [spelledAll_append, spelledAll_cons] at hspelled
  obtain ⟨-, hopenSpelled, -, hcloseSpelled, -⟩ := hspelled
  have hopen : opening.text = ['{'] := Token.text_eq_of_sign hopenSpelled (by rw [hopening]; rfl)
  have hclose : closing.text = ['}'] := Token.text_eq_of_sign hcloseSpelled (by rw [hclosing]; rfl)
  rw [stand_append] at hstand ⊢
  refine ⟨hstand.1.next ?_, ?_, ?_⟩
  · simp only [textOf_cons, hopen]
    exact next_cons_of_isDecisive (by decide) _ _
  · exact Lexeme.standsBefore_of_sign? hopenSpelled (by rw [hopening]; rfl) _
  · rw [stand_append]
    refine ⟨hblock.next ?_, Lexeme.standsBefore_of_sign? hcloseSpelled (by rw [hclosing]; rfl) _,
      trivial⟩
    simp only [textOf_cons, hclose, textOf_nil]
    exact next_cons_of_isDecisive (by decide) _ _

/-- The body of a rule stands before its brace. -/
theorem RuleBlock.stand_segments {selector body : List Token} {opening closing : Token} {r : Text}
    (h : RuleBlock selector opening body closing)
    (hstand : Stand (selector ++ opening :: (body ++ [closing])) r) :
    Stand ((segments body).flatMap Segment.tokens) ('}' :: r) ∧
      ∀ segment ∈ segments body, Bracket.brace.depth 0 segment.tokens = some 0 := by
  have hspelled := hstand.spelledAll
  simp only [spelledAll_append, spelledAll_cons] at hspelled
  have hclose : closing.text = ['}'] :=
    Token.text_eq_of_sign hspelled.2.2.2.1 (by rw [h.closing]; rfl)
  have hdepth : Bracket.brace.depth 0 ((segments body).flatMap Segment.tokens) = some 0 := by
    rw [flatMap_tokens_segments, h.body]
  refine ⟨?_, (properSegments_segments body).balanced hdepth⟩
  rw [flatMap_tokens_segments]
  have hblock := (stand_append.mp (stand_append.mp hstand).2.2).1
  simpa [hclose] using hblock

/-- The block of a group stands before its brace. -/
theorem stand_inner {keyword opening closing : Token} {params rest : List Token}
    {inner : List Outline} {r : Text}
    (hproper : (Outline.group keyword params opening inner closing).Proper rest)
    (hstand : Stand (Outline.group keyword params opening inner closing).tokens r) :
    Stand (tokensAll inner) ('}' :: r) := by
  have hspelled := hstand.spelledAll
  simp only [tokens, spelledAll_cons, spelledAll_append] at hspelled
  have hclose : closing.text = ['}'] :=
    Token.text_eq_of_sign hspelled.2.2.2.2.1 (by rw [hproper.2.1.closing]; rfl)
  rw [tokens, ← List.cons_append, stand_append] at hstand
  have hblock := (stand_append.mp hstand.2.2).1
  simpa [hclose] using hblock

/-- Blocks with the same braces, after fronts of the same kinds. -/
theorem depth_block {front front' block block' : List Token} (opening closing : Token)
    (hfront : front'.map (·.kind) = front.map (·.kind))
    (hblock : ∀ n, Bracket.brace.depth n block' = Bracket.brace.depth n block) (n : Nat) :
    Bracket.brace.depth n (front' ++ opening :: (block' ++ [closing])) =
      Bracket.brace.depth n (front ++ opening :: (block ++ [closing])) := by
  rw [← List.singleton_append, ← @List.singleton_append _ _ (block ++ [closing])]
  simp only [Bracket.depth_append, Bracket.depth_of_kinds _ hfront, hblock]

theorem head_of_kinds {front front' : List Token} (opening : Token)
    (hfront : front'.map (·.kind) = front.map (·.kind)) (a b : List Token) :
    (front' ++ opening :: a).head?.map (·.kind) = (front ++ opening :: b).head?.map (·.kind) := by
  cases front with
  | nil => rw [List.map_eq_nil_iff.mp hfront]; rfl
  | cons t front =>
      obtain ⟨t', front', rfl, hkind, -⟩ := List.map_eq_cons_iff.mp hfront
      simp [hkind]

/-! ### Reading back the entries that are left -/

/-- Before the text `r`, items made from the entries `es` are read back as the entries `es'`. -/
structure ReadBack (r : Text) (items : List Item) (es es' : List Outline) : Prop where
  proper : ProperAll es'
  depth : ∀ n, Bracket.brace.depth n (tokensAll es') = Bracket.brace.depth n (tokensAll es)
  stand : Stand (tokensAll es') r
  follows : Follows (tokensAll es) (tokensAll es')
  glued : Item.Glued items (Item.ofOutlines es')

namespace ReadBack

variable {r : Text} {items : List Item} {es es' : List Outline}

theorem keep (h : ReadBack r items es es') {item : Item} {entry entry' : Outline}
    (hglue : ∀ {a b}, Item.Glued a b → Item.Glued (item :: a) (Item.ofOutline entry' :: b))
    (hproper : entry'.Proper (tokensAll es'))
    (hdepth : ∀ n, Bracket.brace.depth n entry'.tokens = Bracket.brace.depth n entry.tokens)
    (hhead : entry'.tokens.head?.map (·.kind) = entry.tokens.head?.map (·.kind))
    (hstand : Stand entry'.tokens (textOf (tokensAll es') ++ r)) :
    ReadBack r (item :: items) (entry :: es) (entry' :: es') where
  proper := ⟨hproper, h.proper⟩
  depth := by
    intro n
    rw [tokensAll, tokensAll, Bracket.depth_append, Bracket.depth_append, hdepth]
    congr 1
    funext m
    exact h.depth m
  stand := by
    rw [tokensAll, stand_append]
    exact ⟨hstand, h.stand⟩
  follows := by
    rw [tokensAll, tokensAll]
    cases htokens : entry.tokens with
    | nil =>
        have htokens' : entry'.tokens = [] := by simpa [htokens] using hhead
        rw [htokens']
        exact h.follows
    | cons t ts =>
        obtain ⟨t', ts', htokens', hsame⟩ : ∃ t' ts', entry'.tokens = t' :: ts' ∧
            t'.kind = t.kind := by
          cases htokens' : entry'.tokens with
          | nil => simp [htokens, htokens'] at hhead
          | cons t' ts' => exact ⟨t', ts', rfl, by simpa [htokens, htokens'] using hhead⟩
        rw [htokens']
        refine ⟨by simp, ?_⟩
        rintro ⟨u, more, hfirst, hkind⟩
        obtain ⟨rfl, -⟩ := List.cons.inj hfirst
        exact ⟨t', ts' ++ tokensAll es', rfl, hsame.trans hkind⟩
  glued := hglue h.glued

theorem drop (h : ReadBack r items es es') {entry : Outline} (hbalanced : Balanced entry.tokens)
    (hne : entry.tokens ≠ []) : ReadBack r items (entry :: es) es' where
  proper := h.proper
  depth := by
    intro n
    rw [tokensAll, hbalanced.depth_append, h.depth]
  stand := h.stand
  follows := by
    rw [tokensAll]
    refine ⟨by simp [hne], ?_⟩
    rintro ⟨t, more, hfirst, hkind⟩
    obtain ⟨u, us, htokens⟩ := List.exists_cons_of_ne_nil hne
    rw [htokens] at hfirst hbalanced
    obtain ⟨rfl, -⟩ := List.cons.inj hfirst
    have hnone := hbalanced 0
    simp [Bracket.depth, Bracket.closes, hkind] at hnone
  glued := h.glued

theorem keep_blank (h : ReadBack r items es es') {t : Token} {r' : Text} (ht : t.kind = .whitespace)
    (hr : Lexer.startsWith Lexer.isSpace r = false) (hstand : t.toLexeme.StandsBefore r') :
    ∃ es'', ReadBack r (.whitespace t.text :: items) (.whitespace t :: es) es'' := by
  have hbalanced : ∀ u : Token, u.kind = .whitespace → Balanced [u] := by
    intro u hu
    exact balanced_of_no_brace (by simp [hu])
  by_cases hblank : ∃ u more, es' = .whitespace u :: more
  · obtain ⟨u, more, rfl⟩ := hblank
    have hu : u.kind = .whitespace := h.proper.1
    have hafter : Stand (u :: tokensAll more) r := h.stand
    refine ⟨.whitespace (t.joinBlank u) :: more, ⟨rfl, h.proper.2⟩, ?_, ?_, ?_, .blank h.glued⟩
    · intro n
      have hdepth := h.depth n
      rw [tokensAll, tokens, (hbalanced u hu).depth_append] at hdepth
      rw [tokensAll, tokens, (hbalanced _ rfl).depth_append, tokensAll, tokens,
        (hbalanced t ht).depth_append, hdepth]
    · exact ⟨Token.standsBefore_joinBlank ht hu hstand hafter.1, hafter.2⟩
    · refine ⟨by simp [tokensAll, tokens], ?_⟩
      rintro ⟨v, vs, hfirst, hkind⟩
      obtain ⟨rfl, -⟩ := List.cons.inj hfirst
      simp [ht] at hkind
  · refine ⟨.whitespace t :: es', h.keep (.same rfl rfl rfl) ht (fun _ => rfl) rfl ?_⟩
    have hstands : Stand (t :: tokensAll es') r := by
      refine Stand.cons_blank ht hstand h.stand ?_ (fun _ => hr)
      intro u more hfirst hu
      have hread := outline_tokensAll es' h.proper
      have hfront : front u more = (.whitespace u, more) := by simp [front, hu]
      rw [hfirst, outline_of_front hfront (by simp)] at hread
      exact hblank ⟨u, outline more, hread.symm⟩
    exact ⟨hstands.1, trivial⟩

/-- A plain entry that is no blank stays as it is. -/
theorem same (h : ReadBack r items es es') {item : Item} {entry : Outline}
    (hplain : (Item.ofOutline entry).isPlain = true) (hitem : item = Item.ofOutline entry)
    (hblank : ∀ t, entry ≠ .whitespace t) (hproper : entry.Proper (tokensAll es))
    (hstand : Stand entry.tokens (textOf (tokensAll es) ++ r)) (hold : Stand (tokensAll es) r) :
    ReadBack r (item :: items) (entry :: es) (entry :: es') := by
  subst hitem
  exact h.keep (.same hplain hplain rfl) (hproper.of_follows h.follows) (fun _ => rfl) rfl
    (hproper.stand_of_follows hblank h.follows hstand hold h.stand)

theorem rule (h : ReadBack r items es es') {rule : Rule} {opening closing : Token}
    {selector selector' body body' : List Token}
    (hglued : rule.Glued (Rule.read selector' opening body' closing))
    (hblock : RuleBlock selector opening body closing)
    (hblock' : RuleBlock selector' opening body' closing)
    (hkinds : selector'.map (·.kind) = selector.map (·.kind))
    (hstand : Stand (selector' ++ opening :: (body' ++ [closing])) (textOf (tokensAll es') ++ r)) :
    ReadBack r (.rule rule :: items) (.rule selector opening body closing :: es)
      (.rule selector' opening body' closing :: es') := by
  refine h.keep (.rule hglued) hblock' ?_ (head_of_kinds opening hkinds _ _) hstand
  refine depth_block opening closing hkinds fun n => ?_
  rw [balanced_of_depth hblock'.body, balanced_of_depth hblock.body]

theorem group (h : ReadBack r items es es') {keyword opening closing : Token} {params : List Token}
    {inner inner' : List Outline} {innerItems : List Item} {r' : Text}
    (hproper : (Outline.group keyword params opening inner closing).Proper (tokensAll es))
    (hstand : Stand (Outline.group keyword params opening inner closing).tokens r')
    (hinner : ReadBack ('}' :: r') innerItems inner inner') :
    ReadBack r
      (.group (AtHead.read keyword params (keyword.span.join closing.span)) innerItems :: items)
      (.group keyword params opening inner closing :: es)
      (.group keyword params opening inner' closing :: es') := by
  obtain ⟨hgrouping, hblock, -⟩ := hproper
  have hblock' : AtBlock keyword params opening (tokensAll inner') closing :=
    ⟨hblock.keyword, hblock.params, hblock.opening, by rw [hinner.depth, hblock.block],
      hblock.closing⟩
  rw [tokens, ← List.cons_append] at hstand
  exact h.keep (.group rfl hinner.glued) ⟨hgrouping, hblock', hinner.proper⟩
    (@depth_block (keyword :: params) _ _ _ opening closing rfl hinner.depth) rfl
    (stand_block hstand hblock.opening hblock.closing hinner.stand _)

end ReadBack

theorem Proper.tokens_ne_nil {entry : Outline} {rest : List Token} (h : entry.Proper rest) :
    entry.tokens ≠ [] := by
  cases entry with
  | group => simp [tokens]
  | verbatim => simp [tokens]
  | _ =>
      simp only [Proper] at h
      obtain ⟨t, ts, htokens, -⟩ := front_eq_of_fits h
      simp [htokens]

/-- What is left of a rule after cleaning is read back as a rule. -/
theorem RuleBlock.exists_readBack {selector body : List Token} {opening closing : Token} {r : Text}
    (h : RuleBlock selector opening body closing)
    (hstand : Stand (selector ++ opening :: (body ++ [closing])) r) (d : Direction) :
    ∃ body', RuleBlock selector opening body' closing ∧
      (∀ r', Stand (selector ++ opening :: (body' ++ [closing])) r') ∧
      ((Rule.read selector opening body closing).clean d).Glued
        (Rule.read selector opening body' closing) := by
  obtain ⟨hbody, hbalanced⟩ := h.stand_segments hstand
  obtain ⟨ps, hsub, hstrip⟩ :=
    List.sublist_map_iff.mp (strip_sublist BodyItem.role d none (Body.read body))
  obtain ⟨qs, hback⟩ := StyleFlip.exists_readBack hsub (properSegments_segments body) hbalanced
    (by simp) rfl hbody
  refine ⟨qs.flatMap Segment.tokens,
    ⟨h.starts, h.selector, h.opening, brace_depth_flatMap hback.balanced, h.closing⟩,
    stand_block hstand h.opening h.closing hback.stand, rfl, ?_⟩
  rw [Rule.clean_eq]
  show Body.Glued (strip BodyItem.role d none (Body.read body)) (Body.read _)
  rw [hstrip, Body.read, segments_flatMap_tokens qs hback.proper]
  exact hback.glued

/-- Whatever items other than raw text cleaning leaves out, the rest is read back. -/
theorem exists_readBack (d : Direction) {es : List Outline} {items : List Item} {r : Text}
    (hthin : Thinned (fun item => item.role ≠ .other) items (Item.cleanEach d (Item.ofOutlines es)))
    (hproper : ProperAll es) (hshown : showsBracesAll es = true)
    (hspace : Lexer.startsWith Lexer.isSpace r = false) (hstand : Stand (tokensAll es) r) :
    ∃ es', ReadBack r items es es' := by
  -- By the entries of the outline; an entry is read back in front of what is left of those after it.
  induction es using Outline.listInduction generalizing items r with
  | nil =>
      rw [Item.ofOutlines, Item.cleanEach] at hthin
      cases hthin
      exact ⟨[], trivial, fun _ => rfl, trivial, ⟨id, id⟩, .nil⟩
  | group keyword params opening inner closing rest ihinner ihrest =>
      obtain ⟨hentry, hproper⟩ := hproper
      rw [showsBracesAll, Bool.and_eq_true] at hshown
      rw [tokensAll, stand_append] at hstand
      have hshownEntry := hshown.1
      rw [showsBraces, Bool.and_eq_true] at hshownEntry
      rw [Item.ofOutlines, Item.cleanEach] at hthin
      cases hthin with
      | drop _ hthin =>
          obtain ⟨es', hback⟩ := ihrest hthin hproper hshown.2 hspace hstand.2
          exact ⟨es', hback.drop (hentry.balanced hshown.1 (by simp)) hentry.tokens_ne_nil⟩
      | keep _ hthin =>
          obtain ⟨es', hback⟩ := ihrest hthin hproper hshown.2 hspace hstand.2
          obtain ⟨inner', hinner⟩ := ihinner (thinned_strip Item.role d none _ (by simp))
            hentry.2.2 hshownEntry.2 rfl (stand_inner hentry hstand.1)
          rw [← value_stripMarked] at hinner
          exact ⟨_, hback.group hentry hstand.1 hinner⟩
  | other entry rest hother ih =>
      obtain ⟨hentry, hproper⟩ := hproper
      rw [showsBracesAll, Bool.and_eq_true] at hshown
      rw [tokensAll, stand_append] at hstand
      rw [Item.ofOutlines, Item.cleanEach] at hthin
      cases hthin with
      | drop hrole hthin =>
          obtain ⟨es', hback⟩ := ih hthin hproper hshown.2 hspace hstand.2
          refine ⟨es', hback.drop (hentry.balanced hshown.1 ?_) hentry.tokens_ne_nil⟩
          rintro cause ts rfl
          exact hrole rfl
      | @keep _ kept _ hthin =>
          obtain ⟨es', hback⟩ := ih hthin hproper hshown.2 hspace hstand.2
          cases entry with
          | group => exact absurd rfl (hother _ _ _ _ _)
          | whitespace t => exact hback.keep_blank hentry hspace hstand.1.1
          | rule selector opening body closing =>
              obtain ⟨body', hblock', hstand', hglued⟩ :=
                RuleBlock.exists_readBack hentry hstand.1 d
              exact ⟨_, hback.rule hglued hentry hblock' rfl (hstand' _)⟩
          | _ => exact ⟨_, hback.same rfl rfl (by simp) hentry hstand.1 hstand.2⟩

end Outline

/-- The text of items that are read back is that of the entries they are read from. -/
theorem Outline.ReadBack.renderAll_eq {r : Text} {items : List Item} {es es' : List Outline}
    (h : Outline.ReadBack r items es es') (hitems : Stylesheet.Fresh items) :
    Item.renderAll items = textOf (Outline.tokensAll es') := by
  obtain ⟨hrender, hread⟩ := Item.renderAll_ofOutlines es' h.proper h.stand.spelledAll
  rw [← hrender, h.glued.renderAll_eq hitems hread]

/-- If a stylesheet is read back, flipping its text gives what flipping the stylesheet gives. -/
theorem Stylesheet.flip_render_of_readBack {sheet items : Stylesheet} {es es' : List Outline}
    (hsheet : Item.Glued sheet items) (hfresh : Stylesheet.Fresh sheet)
    (hitems : Stylesheet.Fresh items) (hback : Outline.ReadBack [] items es es')
    (options : FlipOptions) :
    (StyleFlip.flip (Stylesheet.render sheet) options).css =
        Stylesheet.render (Stylesheet.flip options sheet) ∧
      (StyleFlip.flip (Stylesheet.render sheet) options).diagnostics.map Diagnostic.unplaced =
        (Stylesheet.advice options sheet).map Diagnostic.unplaced := by
  have hread := Stylesheet.fresh_ofOutlines hback.proper hback.stand
  have htext : Stylesheet.render sheet = textOf (Outline.tokensAll es') :=
    (hsheet.renderAll_eq hfresh hitems).trans (hback.renderAll_eq hitems)
  have hparse := Stylesheet.glued_parse hback.proper hback.stand
  constructor
  · show Stylesheet.render (Stylesheet.flip options (Stylesheet.parse _)) = _
    rw [htext, Stylesheet.render_flip_of_glued hsheet hfresh hitems,
      Stylesheet.render_flip_of_glued hback.glued hitems hread,
      Stylesheet.render_flip_of_glued hparse hread (Stylesheet.fresh_parse _)]
  · show (Stylesheet.advice options (Stylesheet.parse _)).map Diagnostic.unplaced = _
    rw [htext, Stylesheet.unplaced_advice_of_glued hsheet,
      Stylesheet.unplaced_advice_of_glued hback.glued, Stylesheet.unplaced_advice_of_glued hparse]

end StyleFlip
