import StyleFlip.Proofs.FlippedText
import StyleFlip.Proofs.WholeWords

/-!
# Flipped urls

The lexer finds the end of a url literal by its quotes and escapes, and flipping looks for the
first `(` and the last `)` of its text. Both mean the same parentheses: a url in a rule body is
followed by the rest of the body, so it cannot have run to the end of the text without its `)`.
Between the parentheses only whole words are exchanged. No quote, no backslash and no parenthesis is
added or lost, so the flipped literal is read as one url again.
-/

namespace StyleFlip

open Lexer Text

/-- The literal `name(inner)`, whose name is `url` in some letter case. -/
structure UrlLiteral (url name inner : Text) : Prop where
  isUrl : lower name = "url".toList
  whole : url = name ++ '(' :: (inner ++ [')'])

/-- What stands in a url starts with `data:` in some letter case, after blanks and quotes. -/
def HoldsData (inner : Text) : Prop := "data:".toList <+: lower ((trim inner).dropWhile isQuote)

theorem isDataUrl_iff (inner : Text) : isDataUrl inner = true ↔ HoldsData inner := by
  have hscheme : lower "data:".toList = "data:".toList := by decide
  have hlength : "data:".toList.length = 5 := by decide
  have htake : ∀ text : Text, lower (text.take 5) = (lower text).take 5 := fun _ => List.map_take
  rw [isDataUrl, HoldsData, List.prefix_iff_eq_take, hlength, sameIgnoringCase, beq_iff_eq, htake,
    hscheme, eq_comm]
  rfl

/-! ### Where a url ends -/

theorem exists_inner_of_units {text taken rest : Text}
    (h : Scan.units urlVerdict text = (taken, rest)) (hrest : rest ≠ []) :
    ∃ inner, taken = inner ++ [')'] := by
  fun_induction Scan.units urlVerdict text generalizing taken with
  | case1 => exact absurd (Prod.mk.inj h).2.symm hrest
  | case2 c tail ih =>
      obtain ⟨rfl, rfl⟩ := Prod.mk.inj h
      obtain ⟨inner, hinner⟩ := ih rfl
      exact ⟨'\\' :: c :: inner, by simp [hinner]⟩
  | case3 c tail _ hverdict ih =>
      obtain ⟨rfl, rfl⟩ := Prod.mk.inj h
      obtain ⟨inner, hinner⟩ := ih rfl
      exact ⟨c :: inner, by simp [hinner]⟩
  | case4 c tail _ hverdict =>
      obtain ⟨rfl, -⟩ := Prod.mk.inj h
      have hc : c = ')' := by
        by_contra hc
        simp [urlVerdict, hc] at hverdict
      exact ⟨[], by rw [hc]; rfl⟩
  | case5 c tail _ hverdict =>
      unfold urlVerdict at hverdict
      split at hverdict <;> contradiction

theorem Lexeme.StandsBefore.exists_urlLiteral {url r : Text}
    (h : Lexeme.StandsBefore ⟨.url, url⟩ r) (hr : r ≠ []) :
    ∃ name inner, UrlLiteral url name inner := by
  obtain ⟨c, tail, htext, hlexeme⟩ := h
  rw [lexeme_eq_named (by simp [hlexeme])] at hlexeme
  unfold named at hlexeme
  split at hlexeme
  · rename_i name rest hname
    split at hlexeme
    · rename_i hurl
      obtain ⟨hwhole, hafter⟩ := Prod.mk.inj (Prod.mk.inj hlexeme).2
      -- The last part of the body is the one that looks for the closing parenthesis.
      obtain ⟨front, body, hbody, -, htail⟩ := Scan.exists_of_andThen (Scan.units_lossless _)
        (show urlBody rest = ((urlBody rest).1, r) from Prod.ext rfl hafter)
      obtain ⟨inner, rfl⟩ := exists_inner_of_units htail hr
      refine ⟨name, front ++ inner, beq_iff_eq.mp hurl, ?_⟩
      have hurlText : name ++ '(' :: (urlBody rest).1 = url := hwhole
      rw [← hurlText, hbody, List.append_assoc]
    · simp at hlexeme
  · simp at hlexeme

/-! ### Flipping a literal -/

namespace UrlLiteral

variable {url name inner : Text}

theorem breakAfterFirst?_eq (h : UrlLiteral url name inner) :
    breakAfterFirst? '(' url = some (name ++ ['('], inner ++ [')']) := by
  have hparen : '(' ∉ name := by
    intro hmem
    have hlower : '(' ∈ lower name := List.mem_map.mpr ⟨'(', hmem, by decide⟩
    rw [h.isUrl] at hlower
    exact absurd hlower (by decide)
  rw [h.whole]
  generalize inner ++ [')'] = rest
  clear h
  induction name with
  | nil => rfl
  | cons c name ih =>
      rw [List.mem_cons, not_or] at hparen
      rw [List.cons_append, breakAfterFirst?, if_neg (Ne.symm hparen.1), ih hparen.2]
      rfl

theorem flipUrl?_eq (h : UrlLiteral url name inner) :
    flipUrl? url =
      if isDataUrl inner then none
      else (flipWords? inner).map fun inner' => name ++ '(' :: (inner' ++ [')']) := by
  have hlast : breakLast ')' (inner ++ [')']) = (inner, [')']) :=
    breakLast_append_cons (by simp) inner
  rw [flipUrl?, h.breakAfterFirst?_eq]
  dsimp only
  rw [hlast]
  simp

theorem flipUrl?_of_data (h : UrlLiteral url name inner) (hdata : HoldsData inner) :
    flipUrl? url = none := by
  rw [h.flipUrl?_eq, if_pos ((isDataUrl_iff inner).mpr hdata)]

theorem flipUrl?_of_path (h : UrlLiteral url name inner) (hpath : ¬ HoldsData inner) :
    flipUrl? url =
      (flipWords? inner).map fun inner' => name ++ '(' :: (inner' ++ [')']) := by
  rw [h.flipUrl?_eq, if_neg (mt (isDataUrl_iff inner).mp hpath)]

end UrlLiteral

theorem Lexeme.StandsBefore.tokenize_flipUrl {url r : Text}
    (h : Lexeme.StandsBefore ⟨.url, url⟩ r) :
    tokenize (flipUrl url) = [⟨⟨.url, flipUrl url⟩, .ofText .origin (flipUrl url)⟩] := by
  have hflipped : Lexeme.StandsBefore ⟨.url, flipUrl url⟩ r :=
    h.respelled (respelled_flipUrl url) (Ahead.refl r).ofName (by simp) (by simp) (by simp)
  rw [tokenize, hflipped.lexemes_text]
  rfl

/-! ### The urls of a stylesheet -/

theorem Value.exists_token_of_mem_urlsAll {ts : List Token} {url : Text}
    (h : url ∈ Component.urlsAll (Value.read ts)) : ∃ t ∈ ts, t.toLexeme = ⟨.url, url⟩ := by
  induction ts using Value.tokenInduction with
  | nil => simp [Value.read, Component.urlsAll] at h
  | leaf t rest hopens ih =>
      rw [Value.read_leaf hopens, Component.urlsAll, List.mem_append] at h
      rcases h with hfirst | hrest
      · obtain ⟨⟨kind, text⟩, span⟩ := t
        have hkind : kind = .url ∧ text = url := by
          cases kind <;> simp_all [Kind.leaf, Component.urls]
        obtain ⟨rfl, rfl⟩ := hkind
        exact ⟨_, List.mem_cons_self, rfl⟩
      · obtain ⟨u, hu, htext⟩ := ih hrest
        exact ⟨u, List.mem_cons_of_mem t hu, htext⟩
  | closed t args close rest hopens hdepth hclose ihargs ihrest =>
      rw [Value.read_function hopens hdepth hclose, Component.urlsAll, Component.urls,
        List.mem_append] at h
      rcases h with hargs | hrest
      · obtain ⟨u, hu, htext⟩ := ihargs hargs
        exact ⟨u, by simp [hu], htext⟩
      · obtain ⟨u, hu, htext⟩ := ihrest hrest
        exact ⟨u, by simp [hu], htext⟩
  | unclosed t args n hopens hdepth ihargs =>
      rw [Value.read_open_function hopens hdepth] at h
      obtain ⟨u, hu, htext⟩ := ihargs (by simpa [Component.urlsAll, Component.urls] using h)
      exact ⟨u, List.mem_cons_of_mem t hu, htext⟩

theorem Stand.exists_standsBefore {ts : List Token} {t : Token} {rest : Text} (h : Stand ts rest)
    (ht : t ∈ ts) : ∃ more, t.toLexeme.StandsBefore (more ++ rest) := by
  obtain ⟨before, after, rfl⟩ := List.append_of_mem ht
  exact ⟨textOf after, (stand_append.mp h).2.1⟩

/-- A url in a rule body stands in front of more text. -/
theorem Stylesheet.standsBefore_of_mem_urls {css : Text} {r : Rule}
    (hr : r ∈ (Stylesheet.parse css).rules) {d : Declaration} (hd : d ∈ r.declarations) {url : Text}
    (hurl : url ∈ Component.urlsAll d.value) :
    ∃ more, more ≠ [] ∧ Lexeme.StandsBefore ⟨.url, url⟩ more := by
  obtain ⟨ts, hts⟩ := Stylesheet.isSpelled_of_mem hr rfl hd
  obtain ⟨property, gap, colon, blanks, value, rfl, -, -, -, -, hvalue⟩ := hts.exists_parts
  rw [hvalue] at hurl
  obtain ⟨t, ht, hlexeme⟩ := Value.exists_token_of_mem_urlsAll hurl
  obtain ⟨more, hstands⟩ := hts.stand.exists_standsBefore (t := t) (by simp [ht])
  rw [hlexeme] at hstands
  exact ⟨more ++ [d.stop], by simp, hstands⟩

/-- Flipping a url of a stylesheet leaves it alone if it holds data. Otherwise the words between its
parentheses are mirrored where they say a side, and what comes out is one url again, which holds no
data either. -/
theorem flipUrl_of_parsed_url (css : Text) (r : Rule) (hr : r ∈ (Stylesheet.parse css).rules)
    (d : Declaration) (hd : d ∈ r.declarations) (url : Text)
    (hurl : url ∈ Component.urlsAll d.value) :
    ∃ name inner, UrlLiteral url name inner ∧
      (HoldsData inner → flipUrl? url = none) ∧
      (¬ HoldsData inner → flipUrl? url =
        (flipWords? inner).map fun inner' => name ++ '(' :: (inner' ++ [')'])) ∧
      ∀ flipped, flipUrl? url = some flipped →
        ∃ inner', UrlLiteral flipped name inner' ∧
          Cut inner' ((pieces inner).map Piece.mirror) ∧
          tokenize flipped = [⟨⟨.url, flipped⟩, .ofText .origin flipped⟩] ∧
          (HoldsData inner' ↔ HoldsData inner) := by
  obtain ⟨more, hmore, hstands⟩ := Stylesheet.standsBefore_of_mem_urls hr hd hurl
  obtain ⟨name, inner, hliteral⟩ := hstands.exists_urlLiteral hmore
  refine ⟨name, inner, hliteral, hliteral.flipUrl?_of_data, hliteral.flipUrl?_of_path, ?_⟩
  intro flipped hflipped
  have hpath : ¬ HoldsData inner := by
    intro hdata
    rw [hliteral.flipUrl?_of_data hdata] at hflipped
    contradiction
  have htokens := hstands.tokenize_flipUrl
  rw [flipUrl, hflipped, Option.getD_some] at htokens
  rw [hliteral.flipUrl?_of_path hpath, Option.map_eq_some_iff] at hflipped
  obtain ⟨inner', hinner, rfl⟩ := hflipped
  obtain ⟨-, rfl⟩ := flipWords?_eq_some_iff.mp hinner
  refine ⟨flipWords inner, ⟨hliteral.isUrl, rfl⟩, ?_, htokens, ?_⟩
  · exact pieces_eq_iff.mp (pieces_flipWords inner)
  · rw [← isDataUrl_iff, ← isDataUrl_iff, isDataUrl_flipWords]

/-- The words of a quoted url with an escape and a parenthesis of its own. -/
theorem flipUrl_of_parsed_url_quoted :
    let flipped := "URL( \"RIGHT)\\right.png\" )".toList
    ∃ name inner, UrlLiteral flipped name inner ∧ ¬ HoldsData inner ∧
      tokenize flipped = [⟨⟨.url, flipped⟩, .ofText .origin flipped⟩] := by
  intro flipped
  have hsome : (Stylesheet.parse "a\x7bb:c(URL( \"LEFT)\\left.png\" ))\x7d".toList).rules.any
      (fun r => r.declarations.any fun d =>
        "URL( \"LEFT)\\left.png\" )".toList ∈ Component.urlsAll d.value) = true := by
    decide +kernel
  obtain ⟨r, hr, hrule⟩ := List.any_eq_true.mp hsome
  obtain ⟨d, hd, hurl⟩ := List.any_eq_true.mp hrule
  have hflipped : flipUrl? "URL( \"LEFT)\\left.png\" )".toList = some flipped := by
    decide +kernel
  obtain ⟨name, inner, -, hdata, -, hnew⟩ :=
    flipUrl_of_parsed_url _ r hr d hd _ (of_decide_eq_true hurl)
  obtain ⟨inner', hliteral, -, htokens, hsame⟩ := hnew flipped hflipped
  refine ⟨name, inner', hliteral, ?_, htokens⟩
  rw [hsame]
  intro h
  rw [hdata h] at hflipped
  contradiction

end StyleFlip
