import StyleFlip.Transform

/-!
# Sessions

A session applies a list of steps to one stylesheet tree.
-/

namespace StyleFlip

inductive Step
  | flip (options : FlipOptions)
  | clean (direction : Direction)
  | touch
  | reparse
deriving DecidableEq, Repr

namespace Step

def apply (sheet : Stylesheet) : Step → Stylesheet
  | .flip options => Stylesheet.flip options sheet
  | .clean d => Stylesheet.clean d sheet
  | .touch => Stylesheet.touchAll sheet
  | .reparse => Stylesheet.parse (Stylesheet.render sheet)

def advice (sheet : Stylesheet) : Step → List Diagnostic
  | .flip options => Stylesheet.advice options sheet
  | _ => []

end Step

structure Snapshot where
  css : Text
  touched : List Bool
  diagnostics : List Diagnostic
deriving DecidableEq, Repr

def Stylesheet.session (sheet : Stylesheet) : List Step → List Snapshot
  | [] => []
  | step :: rest =>
    let next := step.apply sheet
    { css := Stylesheet.render next
      touched := (Stylesheet.rules next).map Rule.isTouched
      diagnostics := step.advice sheet } :: Stylesheet.session next rest

end StyleFlip
