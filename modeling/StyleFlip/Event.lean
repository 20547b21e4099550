import StyleFlip.Transform

/-!
# Events

The account of what a transform did, in the order in which it did it: reading, then cleaning, then
flipping.
-/

namespace StyleFlip

inductive Level
  | debug
  | trace
deriving DecidableEq, Repr

inductive Event
  | keptRaw (cause : Cause) (span : Span)
  | markerDropped (direction : Direction)
  | itemRemoved (direction : Direction)
  | ruleGuarded (span : Span)
  | propertyFlipped (before after : Text)
  | urlFlipped (before after : Text)
  | ruleFlipped (selector : Text) (span : Span)
deriving DecidableEq, Repr

/-- Raw text from an at-rule that was cut off is kept silently. -/
def Cause.message? : Cause → Option String
  | .strayBrace => some "stray '\x7d' kept as raw text"
  | .missingBlock => some "selector without block kept as raw text"
  | .unterminated => some "unterminated rule kept as raw text"
  | .unclosedBlock => some "unclosed block kept as raw text"
  | .unclosedAtRule => some "unclosed at-rule kept as raw text"
  | .cutOff => none
  | .notADeclaration => some "unrecognized declaration kept as raw text"

namespace Event

def level : Event → Level
  | .keptRaw _ _ => .trace
  | _ => .debug

def message : Event → String
  | .keptRaw cause _ => cause.message?.getD ""
  | .markerDropped _ => "direction marker dropped"
  | .itemRemoved _ => "item for the other direction removed"
  | .ruleGuarded _ => "rule left alone by @noflip"
  | .propertyFlipped _ _ => "property mirrored"
  | .urlFlipped _ _ => "url mirrored"
  | .ruleFlipped _ _ => "rule flipped"

def fields : Event → List (String × Text)
  | .keptRaw _ span => [("at", span.display)]
  | .markerDropped d => [("direction", d.name)]
  | .itemRemoved d => [("direction", d.name)]
  | .ruleGuarded span => [("at", span.display)]
  | .propertyFlipped before after => [("from", before), ("to", after)]
  | .urlFlipped before after => [("from", before), ("to", after)]
  | .ruleFlipped selector span => [("selector", selector), ("at", span.display)]

end Event

/-! ## Reading -/

def Event.ofRaw (cause : Cause) (tokens : List Token) : List Event :=
  if cause.message?.isSome then [.keptRaw cause (spanOf tokens)] else []

def Segment.events : Segment → List Event
  | .content tokens semicolon =>
    if (Segment.content tokens semicolon).declaration?.isSome then []
    else Event.ofRaw .notADeclaration (tokens ++ semicolon.toList)
  | _ => []

namespace Outline

mutual

def events : Outline → List Event
  | .raw cause tokens => Event.ofRaw cause tokens
  | .rule _ _ body _ => (segments body).flatMap Segment.events
  | .group _ _ _ items _ => eventsAll items
  | _ => []

def eventsAll : List Outline → List Event
  | [] => []
  | entry :: rest => events entry ++ eventsAll rest

end

end Outline

/-! ## Cleaning -/

def Event.ofMarker (d marked : Direction) : Event :=
  if marked = d then .markerDropped marked else .itemRemoved marked

namespace Item

mutual

def cleanEvents (d : Direction) : Item → List Event
  | .rule r => (liveMarkers BodyItem.role r.body).map (.ofMarker d)
  | .group _ items => cleanEventsAll d items
  | _ => []

/-- What cleaning does in a list of items: the list itself comes first, then what is left of it. -/
def cleanEventsAll (d : Direction) (items : List Item) : List Event :=
  (liveMarkers role items).map (.ofMarker d) ++
    (stripMarked (fun entry => role entry.1) d (cleanEventsEach d items)).value.flatMap (·.2)

def cleanEventsEach (d : Direction) : List Item → List (Item × List Event)
  | [] => []
  | item :: rest => (item, cleanEvents d item) :: cleanEventsEach d rest

end

end Item

/-! ## Flipping -/

def Declaration.flipEvents (options : FlipOptions) (decl : Declaration) : List Event :=
  (sideProperties.counterpart? decl.property).toList.map (.propertyFlipped decl.property) ++
    if options.flipUrls then
      (Component.urlsAll decl.flipSides.value.value).filterMap fun url =>
        (flipUrl? url).map (.urlFlipped url)
    else []

def Rule.flipEvents (options : FlipOptions) (guarded : Bool) (r : Rule) : List Event :=
  if guarded then [.ruleGuarded r.span]
  else
    r.body.unguarded.flatMap (·.flipEvents options) ++
      if r.isChangedBy options then [.ruleFlipped (r.flip options).title r.span] else []

def transformEvents (css : Text) (config : Config) : List Event :=
  Outline.eventsAll (outline (tokenize css)) ++
    (match config.direction with
      | some d => Item.cleanEventsAll d (Stylesheet.parse css)
      | none => []) ++
    if config.cleanOnly then []
    else Item.gatherAll (Rule.flipEvents config.flip) false (prepare css config)

end StyleFlip
