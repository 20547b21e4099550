import StyleFlip.Event
import StyleFlip.Proofs.Freshness
import StyleFlip.Proofs.LeadingText
import StyleFlip.Proofs.SourceAdvice

/-!
# Traced fallbacks

Reading keeps as raw text what it can make nothing of. It traces each piece of raw text with the
line and the column at which the piece starts, in document order. The one exception is an at-rule
that meets a `}` before its block (`parse_fallbacks_traced`). The tree does not record why it holds
raw text, but it shows this case: the text starts with an at-keyword, and a stray `}` comes next.
-/

namespace StyleFlip

/-! ### Raw text of a tree -/

/-- Raw text in a tree. -/
structure Fallback where
  raw : Raw
  /-- The text is an at-rule that a `}` cuts off before its block. -/
  cutOff : Bool

def Raw.isAtRule (r : Raw) : Bool := (lexemes r.text).head?.any (·.kind == .atKeyword)

def BodyItem.raw? : BodyItem → Option Raw
  | .raw r => some r
  | _ => none

namespace Item

def isStrayBrace : Item → Bool
  | .raw r => r.text == ['}']
  | _ => false

mutual

/-- The raw text in an item, given the item after it. -/
def fallbacks (next : Option Item) : Item → List Fallback
  | .raw r => [⟨r, r.isAtRule && next.any isStrayBrace⟩]
  | .rule r => (r.body.filterMap BodyItem.raw?).map (⟨·, false⟩)
  | .group _ items => fallbacksAll items
  | _ => []

def fallbacksAll : List Item → List Fallback
  | [] => []
  | item :: rest => fallbacks rest.head? item ++ fallbacksAll rest

end

end Item

/-- The raw text of a stylesheet, at any depth, in document order. -/
def Stylesheet.fallbacks (sheet : Stylesheet) : List Fallback := Item.fallbacksAll sheet

/-- The details of an event about raw text. -/
def Fallback.fields (f : Fallback) : List (String × Text) := [("at", f.raw.span.display)]

/-! ### At-rules that are cut off -/

namespace Outline

/-- A `}` that comes next closes nothing. -/
theorem ProperAll.exists_strayBrace {entries : List Outline} (h : ProperAll entries)
    (hbrace : BeforeBrace (tokensAll entries)) :
    ∃ t more, entries = .raw .strayBrace [t] :: more ∧ t.kind = .closeBrace := by
  obtain ⟨t, ts, htokens, hkind⟩ := hbrace
  have hfront : front t ts = (.raw .strayBrace [t], ts) := by simp [front, hkind]
  have houtline := outline_tokensAll entries h
  rw [htokens, outline_of_front hfront (by simp)] at houtline
  exact ⟨t, outline ts, houtline.symm, hkind⟩

end Outline

theorem Raw.isAtRule_eq {ts : List Token} {rest : Text} (h : Stand ts rest) (span : Span) :
    Raw.isAtRule ⟨textOf ts, span⟩ = ts.head?.any (·.kind == .atKeyword) := by
  have hlexemes := lexemes_of_stand (h.next (next_nil rest))
  rw [List.append_nil, lexemes, List.append_nil] at hlexemes
  rw [Raw.isAtRule, hlexemes, List.head?_map]
  cases ts <;> rfl

theorem Raw.not_isAtRule_of_startsRule {ts : List Token} {rest : Text} (h : Stand ts rest)
    (hstarts : Outline.StartsRule ts) (span : Span) : Raw.isAtRule ⟨textOf ts, span⟩ = false := by
  rw [isAtRule_eq h]
  obtain ⟨t, more, rfl, hkind⟩ := hstarts
  simp [Outline.startsRule] at hkind
  simp [hkind]

/-- The tree shows which raw text is a cut-off at-rule. -/
theorem Outline.Fits.cutOff_eq {cause : Cause} {ts : List Token} {more : List Outline} {rest : Text}
    (h : (Outline.raw cause ts).Fits (tokensAll more)) (hmore : ProperAll more)
    (hstand : Stand (ts ++ tokensAll more) rest) (span : Span) :
    (Raw.isAtRule ⟨textOf ts, span⟩ && (Item.ofOutlines more).head?.any Item.isStrayBrace) =
      !cause.message?.isSome := by
  have hfront := (stand_append.mp hstand).1
  have hstarts := Raw.not_isAtRule_of_startsRule hfront
  cases cause with
  | strayBrace =>
      obtain ⟨t, rfl, hkind⟩ := h
      rw [Raw.isAtRule_eq hfront]
      simp [hkind, Cause.message?]
  | missingBlock =>
      obtain ⟨selector, stop, -, hrule, -⟩ := h
      rw [hstarts hrule]
      rfl
  | unterminated =>
      rw [hstarts h.1]
      rfl
  | unclosedBlock =>
      obtain ⟨-, selector, stop, body, -, hrule, -⟩ := h
      rw [hstarts hrule]
      rfl
  | unclosedAtRule =>
      rw [hmore.eq_nil h.1, Bool.and_comm]
      rfl
  | cutOff =>
      obtain ⟨hbrace, keyword, params, rfl, hkind, -⟩ := h
      obtain ⟨t, after, rfl, ht⟩ := hmore.exists_strayBrace hbrace
      have htext : t.text = ['}'] :=
        Token.text_eq_of_sign (hstand.spelledAll t (by simp [tokensAll, tokens])) (by rw [ht]; rfl)
      rw [Raw.isAtRule_eq hfront]
      simp [hkind, Item.ofOutlines, Item.ofOutline, Item.isStrayBrace, htext, Cause.message?]
  | notADeclaration => exact h.elim

/-! ### What reading traces -/

/-- What an event says about the raw text that is not passed over. -/
def Fallback.traces (fs : List Fallback) : List (List (String × Text)) :=
  (fs.filter (!·.cutOff)).map Fallback.fields

theorem Fallback.traces_append (fs gs : List Fallback) :
    traces (fs ++ gs) = traces fs ++ traces gs := by
  simp [traces]

theorem Body.fields_events (ts : List Token) :
    ((segments ts).flatMap Segment.events).map Event.fields =
      Fallback.traces (((Body.read ts).filterMap BodyItem.raw?).map (⟨·, false⟩)) := by
  rw [Body.read]
  induction segments ts with
  | nil => rfl
  | cons segment more ih =>
      have hsegment : segment.events.map Event.fields =
          Fallback.traces ((BodyItem.ofSegment segment).raw?.toList.map (⟨·, false⟩)) := by
        cases segment with
        | content inner semicolon =>
            cases hread : (Segment.content inner semicolon).declaration? with
            | none =>
                simp [Segment.events, BodyItem.ofSegment, hread, BodyItem.raw?, Event.ofRaw,
                  Cause.message?, Event.fields, Fallback.traces, Fallback.fields]
            | some d =>
                simp [Segment.events, BodyItem.ofSegment, hread, BodyItem.raw?, Fallback.traces]
        | _ => rfl
      rw [List.flatMap_cons, List.map_append, hsegment, ih, List.map_cons, filterMap_cons_toList,
        List.map_append, Fallback.traces_append]

/-- Reading traces the raw text of the tree, cut-off at-rules aside. -/
theorem Outline.fields_eventsAll (entries : List Outline) (hproper : ProperAll entries)
    {rest : Text} (hstand : Stand (tokensAll entries) rest) :
    (eventsAll entries).map Event.fields =
      Fallback.traces (Item.fallbacksAll (Item.ofOutlines entries)) := by
  induction entries using Outline.listInduction generalizing rest with
  | nil => rfl
  | group keyword params opening items closing more ihitems ihmore =>
      obtain ⟨⟨-, -, hitems⟩, hmore⟩ := hproper
      rw [tokensAll, stand_append] at hstand
      have hparts : keyword :: (params ++ opening :: (tokensAll items ++ [closing])) =
          (keyword :: (params ++ [opening])) ++ (tokensAll items ++ [closing]) := by simp
      have hinner := hstand.1
      rw [tokens, hparts, stand_append, stand_append] at hinner
      rw [eventsAll, List.map_append, events, ihitems hitems hinner.2.1, ihmore hmore hstand.2,
        Item.ofOutlines, Item.fallbacksAll, Fallback.traces_append]
      rfl
  | other entry more hother ih =>
      obtain ⟨hentry, hmore⟩ := hproper
      rw [tokensAll] at hstand
      have hevents : entry.events.map Event.fields =
          Fallback.traces ((Item.ofOutline entry).fallbacks (Item.ofOutlines more).head?) := by
        cases entry with
        | raw cause ts =>
            rw [Item.ofOutline, Item.fallbacks, Fits.cutOff_eq hentry hmore hstand]
            cases htraced : cause.message?.isSome <;>
              simp [events, Event.ofRaw, htraced, Event.fields, Fallback.traces, Fallback.fields]
        | rule selector opening body closing => exact Body.fields_events body
        | group => exact absurd rfl (hother _ _ _ _ _)
        | _ => rfl
      rw [eventsAll, List.map_append, hevents, ih hmore (stand_append.mp hstand).2, Item.ofOutlines,
        Item.fallbacksAll, Fallback.traces_append]

/-! ### Reading alone traces -/

theorem Event.level_ofRaw {cause : Cause} {ts : List Token} :
    ∀ e ∈ Event.ofRaw cause ts, e.level = .trace := by
  intro e he
  rw [Event.ofRaw] at he
  split at he
  · rw [List.mem_singleton.mp he, level]
  · contradiction

theorem Outline.level_eventsAll (entries : List Outline) :
    ∀ e ∈ eventsAll entries, e.level = .trace := by
  induction entries using Outline.listInduction with
  | nil => simp [eventsAll]
  | group keyword params opening items closing more ihitems ihmore =>
      rw [eventsAll, List.forall_mem_append]
      exact ⟨ihitems, ihmore⟩
  | other entry more hother ih =>
      rw [eventsAll, List.forall_mem_append]
      refine ⟨?_, ih⟩
      cases entry with
      | raw cause ts => exact Event.level_ofRaw
      | rule selector opening body closing =>
          intro e he
          obtain ⟨segment, -, hsegment⟩ := List.mem_flatMap.mp he
          cases segment with
          | content inner semicolon =>
              rw [Segment.events] at hsegment
              split at hsegment
              · contradiction
              · exact Event.level_ofRaw e hsegment
          | _ => contradiction
      | group => exact absurd rfl (hother _ _ _ _ _)
      | _ => simp [events]

theorem Event.level_map_ofMarker (d : Direction) (marked : List Direction) :
    ∀ e ∈ marked.map (Event.ofMarker d), e.level = .debug := by
  intro e he
  obtain ⟨m, -, rfl⟩ := List.mem_map.mp he
  rw [ofMarker]
  split <;> rfl

theorem Item.level_cleanEventsAll_of {d : Direction} {items : List Item}
    (h : ∀ entry ∈ cleanEventsEach d items, ∀ e ∈ entry.2, e.level = .debug) :
    ∀ e ∈ cleanEventsAll d items, e.level = .debug := by
  rw [cleanEventsAll, List.forall_mem_append]
  refine ⟨Event.level_map_ofMarker d _, fun e he => ?_⟩
  rw [value_stripMarked] at he
  obtain ⟨entry, hentry, he⟩ := List.mem_flatMap.mp he
  exact h entry ((strip_sublist _ _ _ _).subset hentry) e he

theorem Item.level_cleanEvents (d : Direction) (items : List Item) :
    ∀ entry ∈ cleanEventsEach d items, ∀ e ∈ entry.2, e.level = .debug := by
  induction items using listInduction with
  | nil => simp [cleanEventsEach]
  | rule r rest ih =>
      rw [cleanEventsEach, List.forall_mem_cons, cleanEvents]
      exact ⟨Event.level_map_ofMarker d _, ih⟩
  | group head items rest ihitems ihrest =>
      rw [cleanEventsEach, List.forall_mem_cons, cleanEvents]
      exact ⟨level_cleanEventsAll_of ihitems, ihrest⟩
  | plain item rest hplain ih =>
      have hnone : cleanEvents d item = [] := by
        cases item <;> first | contradiction | simp [cleanEvents]
      rw [cleanEventsEach, List.forall_mem_cons, hnone]
      exact ⟨by simp, ih⟩

theorem Rule.level_flipEvents (options : FlipOptions) (guarded : Bool) (r : Rule) :
    ∀ e ∈ r.flipEvents options guarded, e.level = .debug := by
  intro e he
  rw [flipEvents] at he
  split at he
  · rw [List.mem_singleton.mp he, Event.level]
    simp
  rcases List.mem_append.mp he with hbody | hrule
  · obtain ⟨d, -, hd⟩ := List.mem_flatMap.mp hbody
    rcases List.mem_append.mp hd with hproperty | hurl
    · obtain ⟨other, -, rfl⟩ := List.mem_map.mp hproperty
      rfl
    · split at hurl
      · obtain ⟨url, -, hsome⟩ := List.mem_filterMap.mp hurl
        obtain ⟨flipped, -, rfl⟩ := Option.map_eq_some_iff.mp hsome
        rfl
      · contradiction
  · split at hrule
    · rw [List.mem_singleton.mp hrule]
      rfl
    · contradiction

theorem Item.forall_mem_gatherAll {β : Type} {f : Bool → Rule → List β} {p : β → Prop}
    (hf : ∀ guarded r, ∀ b ∈ f guarded r, p b) (guarded : Bool) (items : List Item) :
    ∀ b ∈ gatherAll f guarded items, p b := by
  induction items using listInduction generalizing guarded with
  | nil => simp [gatherAll]
  | rule r rest ih =>
      rw [gatherAll, List.forall_mem_append]
      exact ⟨hf guarded r, ih _⟩
  | group head items rest ihitems ihrest =>
      rw [gatherAll, List.forall_mem_append, gather]
      refine ⟨?_, ihrest _⟩
      split
      · simp
      · exact ihitems false
  | plain item rest hplain ih =>
      rw [gatherAll, gather_of_isPlain hplain]
      exact ih _

/-- The trace of a transform is what reading traces. -/
theorem filter_trace_transformEvents (css : Text) (config : Config) :
    (transformEvents css config).filter (·.level = .trace) =
      Outline.eventsAll (outline (tokenize css)) := by
  have hread := Outline.level_eventsAll (outline (tokenize css))
  have hdebug : ∀ events : List Event, (∀ e ∈ events, e.level = .debug) →
      events.filter (·.level = .trace) = [] := by
    intro events hall
    rw [List.filter_eq_nil_iff]
    intro e he
    simp [hall e he]
  have hclean : ∀ d sheet, (Item.cleanEventsAll d sheet).filter (·.level = .trace) = [] := by
    intro d sheet
    exact hdebug _ (Item.level_cleanEventsAll_of (Item.level_cleanEvents d sheet))
  have hflip : ∀ sheet, (Item.gatherAll (Rule.flipEvents config.flip) false sheet).filter
      (·.level = .trace) = [] := by
    intro sheet
    exact hdebug _ (Item.forall_mem_gatherAll (Rule.level_flipEvents config.flip) false sheet)
  rw [transformEvents, List.filter_append, List.filter_append,
    List.filter_eq_self.mpr (by simpa using hread)]
  cases config.direction <;> cases config.cleanOnly <;> simp [hclean, hflip]

/-! ### Where raw text stands -/

theorem BodyItem.passage?_of_raw? {item : BodyItem} {r : Raw} (h : item.raw? = some r) :
    item.passage? = some ⟨r.span, r.text⟩ := by
  cases item with
  | raw r' => rw [passage?, Option.some.inj h, render]
  | _ => contradiction

namespace Stylesheet

theorem exists_family_cons {item : Item} {rest : List Item} {p : Passage}
    (h : ∃ family ∈ families rest, p ∈ family.members) :
    ∃ family ∈ families (item :: rest), p ∈ family.members := by
  obtain ⟨family, hfamily, hp⟩ := h
  rcases List.mem_cons.mp hfamily with rfl | hbelow
  · refine ⟨_, List.mem_cons_self, ?_⟩
    rw [filterMap_cons_toList]
    exact List.mem_append_right _ hp
  · exact ⟨family, List.mem_cons_of_mem _ (List.mem_append_right _ hbelow), hp⟩

/-- Raw text is a member of some family. -/
theorem exists_family_of_mem_fallbacks {sheet : Stylesheet} {f : Fallback}
    (h : f ∈ sheet.fallbacks) :
    ∃ family ∈ sheet.families, ⟨f.raw.span, f.raw.text⟩ ∈ family.members := by
  induction sheet using Item.listInduction with
  | nil => simp [fallbacks, Item.fallbacksAll] at h
  | rule r rest ih =>
      rcases List.mem_append.mp h with hbody | hrest
      · obtain ⟨raw, hraw, rfl⟩ := List.mem_map.mp hbody
        obtain ⟨item, hitem, hread⟩ := List.mem_filterMap.mp hraw
        refine ⟨_, List.mem_cons_of_mem _ (List.mem_append_left _ List.mem_cons_self), ?_⟩
        exact List.mem_filterMap.mpr ⟨item, hitem, BodyItem.passage?_of_raw? hread⟩
      · exact exists_family_cons (ih hrest)
  | group head items rest ihitems ihrest =>
      rcases List.mem_append.mp h with hitems | hrest
      · -- The items of the block are a family of their own, below the at-rule.
        obtain ⟨family, hfamily, hp⟩ := ihitems hitems
        rcases List.mem_cons.mp hfamily with rfl | hbelow
        · exact ⟨_, List.mem_cons_of_mem _ (List.mem_append_left _ List.mem_cons_self), hp⟩
        · exact ⟨family, List.mem_cons_of_mem _
            (List.mem_append_left _ (List.mem_cons_of_mem _ hbelow)), hp⟩
      · exact exists_family_cons (ihrest hrest)
  | plain item rest hplain ih =>
      rcases List.mem_append.mp h with hitem | hrest
      · cases item with
        | raw r =>
            obtain rfl := List.mem_singleton.mp hitem
            refine ⟨_, List.mem_cons_self, ?_⟩
            rw [filterMap_cons_toList]
            exact List.mem_append_left _ (List.mem_singleton.mpr rfl)
        | rule => contradiction
        | group => contradiction
        | _ => simp [Item.fallbacks] at hitem
      · exact exists_family_cons (ih hrest)

theorem places_of_mem_fallbacks {css : Text} {f : Fallback} (h : f ∈ (parse css).fallbacks) :
    f.raw.span.Places css f.raw.text := by
  obtain ⟨family, hfamily, hp⟩ := exists_family_of_mem_fallbacks h
  obtain ⟨before, text, hinside, hrow, -⟩ := stands_of_mem_families_parse hfamily
  exact hrow.places hinside _ hp

end Stylesheet

/-- The trace tells of all raw text in the tree, in document order, each time with the line and the
column of the place where its span starts, but it leaves out the at-rules that a `}` cuts off. -/
theorem parse_fallbacks_traced (css : Text) (config : Config) :
    let fallbacks := (Stylesheet.parse css).fallbacks
    let traced := (transformEvents css config).filter (·.level = .trace)
    traced.map Event.fields = (fallbacks.filter (!·.cutOff)).map Fallback.fields ∧
      (traced.map Event.fields = fallbacks.map Fallback.fields ↔
        ∀ f ∈ fallbacks, f.cutOff = false) ∧
      ∀ f ∈ fallbacks, ∃ before, before ++ f.raw.text <+: css ∧
        (Text.bytes before).size = f.raw.span.start ∧
        f.fields = [("at", Text.ofNat (1 + before.count '\n') ++
          ':' :: Text.ofNat (1 + (Text.lastLine before).length))] := by
  intro fallbacks traced
  have htraced : traced.map Event.fields =
      (fallbacks.filter (!·.cutOff)).map Fallback.fields := by
    have hstand := stand_tokenize css
    rw [← tokensAll_outline (tokenize css)] at hstand
    rw [show traced = _ from filter_trace_transformEvents css config]
    exact Outline.fields_eventsAll _ (properAll_outline (tokenize css)) hstand
  refine ⟨htraced, ?_, fun f hf => ?_⟩
  · rw [htraced]
    constructor
    · intro hall
      have hlength := congrArg List.length hall
      rw [List.length_map, List.length_map] at hlength
      simpa using List.length_filter_eq_length_iff.mp hlength
    · intro hall
      rw [List.filter_eq_self.mpr (by simpa using hall)]
  · have hplaces := Stylesheet.places_of_mem_fallbacks hf
    obtain ⟨before, hinside, hoffset, hline, hcolumn⟩ := hplaces.exists_before
    refine ⟨before, hinside, hoffset, ?_⟩
    rw [Fallback.fields, Span.display, hplaces.isUnknown, hline, hcolumn]
    rfl

/-- The first of two pieces of raw text is not traced. -/
theorem cut_off_at_rule_untraced :
    (Stylesheet.parse "@a \x7d".toList).fallbacks.map Fallback.fields =
        [[("at", "1:1".toList)], [("at", "1:4".toList)]] ∧
      ((transformEvents "@a \x7d".toList {}).filter (·.level = .trace)).map Event.fields =
        [[("at", "1:4".toList)]] := by
  decide +kernel

end StyleFlip
