import StyleFlip.Clean
import StyleFlip.Config.Basic
import StyleFlip.Flip.Sheet
import StyleFlip.Sheet.Reader

/-!
# Transforming stylesheet text
-/

namespace StyleFlip

structure Flipped where
  css : Text
  diagnostics : List Diagnostic
deriving DecidableEq, Repr

def flip (css : Text) (options : FlipOptions) : Flipped :=
  let sheet := Stylesheet.parse css
  ⟨Stylesheet.render (Stylesheet.flip options sheet), Stylesheet.advice options sheet⟩

def clean (css : Text) (d : Direction) : Text :=
  Stylesheet.render (Stylesheet.clean d (Stylesheet.parse css))

/-- The stylesheet that a transform flips: the parsed text, cleaned when a direction is given. -/
def prepare (css : Text) (config : Config) : Stylesheet :=
  let sheet := Stylesheet.parse css
  match config.direction with
  | some d => Stylesheet.clean d sheet
  | none => sheet

/-- Cleans and flips a stylesheet text as a configuration says, with one parse, so that locations
point into the text. -/
def transform (css : Text) (config : Config) : Flipped :=
  let sheet := prepare css config
  if config.cleanOnly then ⟨Stylesheet.render sheet, []⟩
  else ⟨Stylesheet.render (Stylesheet.flip config.flip sheet), Stylesheet.advice config.flip sheet⟩

end StyleFlip
