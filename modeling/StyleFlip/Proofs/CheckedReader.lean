import StyleFlip.Sheet.Reader

/-!
# Reading tokens by index

A stylesheet can also be read by moving an index over its tokens, with slices of the source for the
texts. Then a read may fail in ways that cutting lists cannot: an index may be out of range, a
slice may start within a character, a counter at zero may be counted down, and a loop may stand
still. Here each of these is a fault, and every read is checked for it.

All loops are runs of `scan` and `loop`. A pass of `loop` must move on within its range and may
start the loop over on a smaller range only, so reading ends because of these checks.
-/

namespace StyleFlip.Checked

/-- What may go wrong. -/
inductive Fault
  /-- There is no token with this index. -/
  | index
  /-- A slice does not lie between character boundaries of its text. -/
  | boundary
  /-- A counter at zero is counted down. -/
  | underflow
  /-- A loop starts on a range that is no part of the tokens. -/
  | range
  /-- A pass of a loop does not move on, or moves past the end. -/
  | stuck
  /-- A loop starts over on a range that is not a smaller part of its own. -/
  | wide
deriving DecidableEq, Repr

abbrev Read := Except Fault

def countDown : Nat → Read Nat
  | 0 => throw .underflow
  | n + 1 => pure n

/-! ### Slices -/

/-- Cuts a text after a number of bytes, if a character ends there. -/
def cutAt : Nat → Text → Read (Text × Text)
  | 0, text => pure ([], text)
  | _ + 1, [] => throw .boundary
  | n + 1, c :: rest =>
    if c.utf8Size ≤ n + 1 then do
      let (front, tail) ← cutAt (n + 1 - c.utf8Size) rest
      pure (c :: front, tail)
    else throw .boundary

/-- The text from one byte offset to another. -/
def slice (text : Text) (start stop : Nat) : Read Text :=
  if start ≤ stop then do
    let (_, tail) ← cutAt start text
    let (inner, _) ← cutAt (stop - start) tail
    pure inner
  else throw .boundary

example : slice "né".toList 1 3 = .ok "é".toList := rfl

example : slice "né".toList 1 2 = .error .boundary := rfl

/-- A text without its first byte. -/
def dropByte (text : Text) : Read Text := slice text 1 (Text.byteSize text)

/-- A text without its last byte. -/
def dropLastByte (text : Text) : Read Text := do
  slice text 0 (← countDown (Text.byteSize text))

/-! ### Tokens and ranges of tokens -/

structure Source where
  css : Text
  tokens : List Token

variable {α β σ : Type} (src : Source)

namespace Source

def token (i : Nat) : Read Token :=
  match src.tokens[i]? with
  | some t => pure t
  | none => throw .index

/-- Whether there is a token of a kind at an index of a range. -/
def isAt (kind : Kind) (i hi : Nat) : Read Bool :=
  if i < hi then do
    let t ← src.token i
    pure (t.kind == kind)
  else pure false

def text (lo hi : Nat) : Read Text :=
  if lo < hi then do
    let first ← src.token lo
    let last ← src.token (← countDown hi)
    slice src.css first.span.start last.span.stop
  else pure []

def span (lo hi : Nat) : Read Span :=
  if lo < hi then do
    let first ← src.token lo
    let last ← src.token (← countDown hi)
    pure (first.span.join last.span)
  else pure .unknown

def raw (lo hi : Nat) : Read Raw := do
  pure ⟨← src.text lo hi, ← src.span lo hi⟩

/-! ### Searching for an index -/

/-- Goes through the tokens of a range in order. The step at a token goes on with a new state or
returns a result; at the end, the last state gives the result. -/
def scan (step : σ → Nat → Token → Read (σ ⊕ β)) (finish : σ → β) (state : σ) (i hi : Nat) :
    Read β :=
  if i < hi then do
    let t ← src.token i
    match ← step state i t with
    | .inl state => scan step finish state (i + 1) hi
    | .inr result => pure result
  else pure (finish state)
termination_by hi - i

/-- The first token of a range that fails a test, or its end. -/
def skip (test : Token → Bool) (lo hi : Nat) : Read Nat :=
  src.scan (fun _ i t => pure (if test t then .inl () else .inr i)) (fun _ => hi) () lo hi

/-- One token further in search of the end of a prelude. -/
def preludeStep (depth i : Nat) (t : Token) : Read (Nat ⊕ (Nat × Option Kind)) :=
  pure (if endsPrelude depth t.kind then .inr (i, some t.kind) else .inl (t.kind.nest depth))

/-- The end of a prelude, and the kind of the token that ends it. -/
def preludeEnd (lo hi : Nat) : Read (Nat × Option Kind) :=
  src.scan preludeStep (fun _ => (hi, none)) 0 lo hi

/-- One token further in search of a closing bracket. -/
def closingStep (bracket : Bracket) (depth i : Nat) (t : Token) : Read (Nat ⊕ Option Nat) :=
  if bracket.closes t.kind then do
    let depth ← countDown depth
    pure (if depth = 0 then .inr (some i) else .inl depth)
  else if bracket.opens t.kind then pure (.inl (depth + 1))
  else pure (.inl depth)

/-- The index of the token that closes the bracket at the start of a range. -/
def closing? (bracket : Bracket) (lo hi : Nat) : Read (Option Nat) :=
  src.scan (closingStep bracket) (fun _ => none) 0 lo hi

/-- The index of the token that closes the parenthesis at the start of a range, or the end of the
range. -/
def parenEnd (lo hi : Nat) : Read Nat := do
  let close ← src.closing? .paren lo hi
  pure (close.getD hi)

/-- The counters of the search for the end of a segment. -/
structure Counters where
  parens : Nat
  braces : Nat
  nested : Bool

def segmentStep (c : Counters) (i : Nat) (t : Token) : Read (Counters ⊕ (Nat × Bool)) :=
  if t.kind = .semicolon ∧ c.parens = 0 ∧ c.braces = 0 then pure (.inr (i, c.nested))
  else if t.kind = .closeBrace then
    pure (if c.braces - 1 = 0 then .inr (i + 1, c.nested)
      else .inl { c with braces := c.braces - 1 })
  else if t.kind = .openBrace then
    pure (.inl { c with braces := c.braces + 1, nested := true })
  else pure (.inl { c with parens := t.kind.nest c.parens })

/-- The end of the segment at the start of a range, and whether a block was opened in it. -/
def segmentEnd (lo hi : Nat) : Read (Nat × Bool) :=
  src.scan segmentStep (fun c => (hi, c.nested)) ⟨0, 0, false⟩ lo hi

/-! ### Loops -/

/-- One pass of a loop after the other. A pass gives one entry and the index to go on with. -/
def passes (pass : Nat → Read (α × Nat)) (hi pos : Nat) : Read (List α) :=
  if pos < hi then do
    let (entry, next) ← pass pos
    if _h : pos < next ∧ next ≤ hi then do
      let rest ← passes pass hi next
      pure (entry :: rest)
    else throw .stuck
  else pure []
termination_by hi - pos

/-- A loop over a range of tokens. Its passes may start it over. -/
def loop (pass : (Nat → Nat → Read (List α)) → Nat → Nat → Read (α × Nat)) (lo hi : Nat) :
    Read (List α) :=
  if lo ≤ hi ∧ hi ≤ src.tokens.length then
    passes
      (pass
        (fun lo' hi' =>
          if _h : lo ≤ lo' ∧ hi' ≤ hi ∧ hi' - lo' < hi - lo then loop pass lo' hi'
          else throw .wide)
        hi)
      hi lo
  else throw .range
termination_by hi - lo

/-! ### Values and declarations -/

def valuePass (again : Nat → Nat → Read Value) (hi pos : Nat) : Read (Component × Nat) := do
  let t ← src.token pos
  if Bracket.paren.opens t.kind then do
    let close ← src.parenEnd pos hi
    let name ← dropLastByte t.text
    let args ← again (pos + 1) close
    pure (.function name args (close < hi), if close < hi then close + 1 else hi)
  else pure (.leaf t.kind.leaf t.text, pos + 1)

def value (lo hi : Nat) : Read Value := src.loop src.valuePass lo hi

def declaration? (lo hi : Nat) (semicolon : Bool) : Read (Option Declaration) := do
  let property ← src.token lo
  if property.kind = .ident then do
    let pos ← src.skip (·.isTrivia) (lo + 1) hi
    if ← src.isAt .colon pos hi then do
      let start ← src.skip (·.kind == .whitespace) (pos + 1) hi
      pure <| some
        { property := property.text
          colon := ← src.text (lo + 1) start
          value := ← src.value start hi
          semicolon := semicolon
          span := ← src.span lo hi }
    else pure none
  else pure none

/-! ### Rule bodies -/

/-- A segment that ends at `stop`, in front of `next`. -/
def segment (lo stop next : Nat) (nested semicolon : Bool) : Read BodyItem := do
  match ← if nested then pure none else src.declaration? lo stop semicolon with
  | some d => pure (.declaration d)
  | none => do
    let r ← src.raw lo next
    pure (.raw r)

def bodyPass (hi pos : Nat) : Read (BodyItem × Nat) := do
  let t ← src.token pos
  match t.kind with
  | .whitespace => pure (.whitespace t.text, pos + 1)
  | .comment => pure (.comment ⟨t.text, t.span⟩, pos + 1)
  | _ => do
    let (stop, nested) ← src.segmentEnd pos hi
    let semicolon ← src.isAt .semicolon stop hi
    let next := if semicolon then stop + 1 else stop
    let item ← src.segment pos stop next nested semicolon
    pure (item, next)

def body (lo hi : Nat) : Read Body := src.loop (fun _ => src.bodyPass) lo hi

/-! ### Selectors -/

/-- The start of the matcher of an attribute, given the index of its `=`. -/
def matcherStart (lo equals : Nat) : Read Nat :=
  if lo < equals then do
    let before ← countDown equals
    let mark ← src.token before
    pure (if isMatcherMark mark then before else equals)
  else pure equals

/-- An attribute between its square brackets. -/
def attributeIn (lo hi : Nat) : Read Attribute := do
  let equals ← src.skip (!·.isDelim '=') lo hi
  if equals < hi then do
    let start ← src.matcherStart lo equals
    let valueStart ← src.skip (·.isTrivia) (equals + 1) hi
    let valueEnd := min (valueStart + 1) hi
    pure ⟨← src.text lo start, ← src.text start valueStart, ← src.text valueStart valueEnd,
      ← src.text valueEnd hi⟩
  else pure ⟨← src.text lo hi, [], [], []⟩

/-- A pseudo-class or pseudo-element from its first colon on, with the index after its colons. -/
def pseudoName (hi lo pos : Nat) : Read (SelectorPart × Nat) :=
  if pos < hi then do
    let t ← src.token pos
    match t.kind with
    | .ident => do
      let text ← src.text lo (pos + 1)
      pure (.pseudo text, pos + 1)
    | .function => do
      let close ← src.parenEnd pos hi
      let stop := min (close + 1) hi
      let text ← src.text lo stop
      pure (.pseudoFunction text, stop)
    | _ => do
      let text ← src.text lo pos
      pure (.other text, pos)
  else do
    let text ← src.text lo pos
    pure (.other text, pos)

def pseudo (hi lo : Nat) : Read (SelectorPart × Nat) := do
  let second ← src.isAt .colon (lo + 1) hi
  src.pseudoName hi lo (if second then lo + 2 else lo + 1)

/-- Whether a token is a dot, with a name at the index after it. -/
def startsClass (t : Token) (i hi : Nat) : Read Bool :=
  if t.isDelim '.' then src.isAt .ident i hi else pure false

def selectorPass (hi pos : Nat) : Read (SelectorPart × Nat) := do
  let t ← src.token pos
  match t.kind with
  | .whitespace => pure (.whitespace t.text, pos + 1)
  | .comment => pure (.comment t.text, pos + 1)
  | .ident => pure (.element t.text, pos + 1)
  | .hash => do
    let name ← dropByte t.text
    pure (.idName name, pos + 1)
  | .comma => pure (.comma, pos + 1)
  | .colon => src.pseudo hi pos
  | .openBracket => do
    let close ← src.skip (·.kind != .closeBracket) (pos + 1) hi
    if close = hi then do
      let text ← src.text pos hi
      pure (.other text, hi)
    else do
      let a ← src.attributeIn (pos + 1) close
      pure (.attr a, close + 1)
  | .delim => do
    if ← src.startsClass t (pos + 1) hi then do
      let name ← src.token (pos + 1)
      pure (.className name.text, pos + 2)
    else pure (if isCombinator t then .combinator t.text else .other t.text, pos + 1)
  | _ => pure (.other t.text, pos + 1)

def selector (lo hi : Nat) : Read Selector := src.loop (fun _ => src.selectorPass) lo hi

/-! ### Stylesheets -/

/-- A rule whose block opens at an index. -/
def ruleBlock (hi start opening : Nat) : Read (Item × Nat) := do
  match ← src.closing? .brace opening hi with
  | some close => do
    let span ← src.span start (close + 1)
    let r : Rule :=
      { selector := ← src.selector start opening
        body := ← src.body (opening + 1) close
        span := span
        source := some (← slice src.css span.start span.stop) }
    pure (.rule r, close + 1)
  | none => do
    let r ← src.raw start hi
    pure (.raw r, hi)

def rule (hi start : Nat) : Read (Item × Nat) := do
  let (stop, kind) ← src.preludeEnd start hi
  match kind with
  | some .openBrace => src.ruleBlock hi start stop
  | some .semicolon => do
    let r ← src.raw start (stop + 1)
    pure (.raw r, stop + 1)
  | _ => do
    let r ← src.raw start stop
    pure (.raw r, stop)

/-- An at-rule whose block opens at an index. -/
def atBlock (again : Nat → Nat → Read (List Item)) (hi start opening : Nat) (name params : Text) :
    Read (Item × Nat) := do
  match ← src.closing? .brace opening hi with
  | some close => do
    let span ← src.span start (close + 1)
    if groupingNames.contains (AtHead.baseName name) then do
      let items ← again (opening + 1) close
      pure (.group ⟨name, params, span⟩ items, close + 1)
    else do
      let block ← src.text (opening + 1) close
      pure (.verbatim ⟨name, params, span⟩ block, close + 1)
  | none => do
    let r ← src.raw start hi
    pure (.raw r, hi)

def atRule (again : Nat → Nat → Read (List Item)) (hi start : Nat) : Read (Item × Nat) := do
  let keyword ← src.token start
  let name ← dropByte keyword.text
  let (stop, kind) ← src.preludeEnd (start + 1) hi
  let params ← src.text (start + 1) stop
  match kind with
  | some .semicolon => do
    let span ← src.span start (stop + 1)
    pure (.statement ⟨name, params, span⟩ true, stop + 1)
  | none => do
    let span ← src.span start stop
    pure (.statement ⟨name, params, span⟩ false, stop)
  | some .openBrace => src.atBlock again hi start stop name params
  | some _ => do
    let r ← src.raw start stop
    pure (.raw r, stop)

def itemPass (again : Nat → Nat → Read (List Item)) (hi pos : Nat) : Read (Item × Nat) := do
  let t ← src.token pos
  match t.kind with
  | .whitespace => pure (.whitespace t.text, pos + 1)
  | .comment => pure (.comment ⟨t.text, t.span⟩, pos + 1)
  | .closeBrace => do
    let r ← src.raw pos (pos + 1)
    pure (.raw r, pos + 1)
  | .atKeyword => src.atRule again hi pos
  | _ => src.rule hi pos

def items (lo hi : Nat) : Read (List Item) := src.loop src.itemPass lo hi

end Source

/-- The stylesheet that a text spells, read by index. -/
def parse (css : Text) : Read Stylesheet :=
  let src : Source := ⟨css, tokenize css⟩
  src.items 0 src.tokens.length

end StyleFlip.Checked
