import MailMerge.Fault
/-!
# Drawing symbols

A text is encoded as a symbol, a square of dark and light modules. The symbol is drawn with the
largest whole number of pixels to a module that fits, and scaled if that does not give the size
asked for.

Section 4.3 of the specification: `render_qr_png`.
-/
namespace MailMerge

/-- How much of a symbol may be damaged before it cannot be read. -/
inductive ErrorLevel where
  | low
  | medium
  | quartile
  | high
  deriving DecidableEq, Repr

namespace ErrorLevel

/-- The letter of the level. -/
def letter : ErrorLevel → Text
  | .low => ['L']
  | .medium => ['M']
  | .quartile => ['Q']
  | .high => ['H']

/-- The number of the level in the format of symbols. -/
def code : ErrorLevel → Nat
  | .low => 1
  | .medium => 0
  | .quartile => 3
  | .high => 2

/-- The level of a letter. -/
def ofLetter? (t : Text) : Option ErrorLevel :=
  [low, medium, quartile, high].find? (·.letter = t)

end ErrorLevel

/-- What an encoder is asked for: the symbol of a text with so much light around it. -/
structure SymbolOrder where
  payload : Text
  level : ErrorLevel
  border : Nat
  deriving DecidableEq, Repr

/-- An encoder gives the modules of a symbol, the light around it included. -/
abbrev Encoder := SymbolOrder → Except Fault Bitmap

namespace Bitmap

/-- The symbol drawn in a size. -/
def ofSymbol (size : Nat) (symbol : Bitmap) : Except Fault Bitmap :=
  if symbol.length = 0 then .error .emptySymbol
  else
    let b := draw (boxFor symbol.length size) symbol
    if b.length = size then .ok b
    else if size = 0 then .error .emptyPicture
    else .ok (scale size b)

/-- The symbol of a payload drawn in a size. -/
def ofPayload (encode : Encoder) (border size : Nat) (payload level : Text) :
    Except Fault Bitmap := do
  match ErrorLevel.ofLetter? level with
  | none => .error (.unknownLevel level)
  | some l => ofSymbol size (← encode ⟨payload, l, border⟩)

end Bitmap
end MailMerge
