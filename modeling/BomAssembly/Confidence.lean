/-!
# How sure a reader is of a document's kind

A reader looks at a text without reading it and says how likely the text is of its kind. At `low` and
above the text may be given to it.
-/

namespace BomAssembly

/-- How likely a text is of some kind. -/
inductive Confidence where
  | none
  | low
  | medium
  | high
  deriving DecidableEq, Inhabited

namespace Confidence

/-- Confidence in hundredths. -/
def percent : Confidence → Nat
  | none => 0
  | low => 25
  | medium => 50
  | high => 75

/-- Whether the reader may be tried. -/
def canRead (c : Confidence) : Bool := low.percent ≤ c.percent

end Confidence

end BomAssembly
