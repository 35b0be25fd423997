import ContentCard.Color

/-!
Mixing a colour over another by its alpha, in whole numbers.

Both alphas are shares of 255.  What the source leaves over goes to the destination, rounded down;
the result has both shares as its alpha and the weighted mean as its colour.
-/

namespace ContentCard.Rgba

/-- The destination's share of the result. -/
def keptAlpha (source dest : Rgba) : Nat := dest.a.toNat * (255 - source.a.toNat) / 255

def mixAlpha (source dest : Rgba) : Nat := source.a.toNat + keptAlpha source dest

def mixChannel (source dest : Rgba) (s d : UInt8) : Nat :=
  (s.toNat * source.a.toNat + d.toNat * keptAlpha source dest) / mixAlpha source dest

def blendOver (source dest : Rgba) : Rgba :=
  if source.a = 0 then dest
  else if source.a = 255 then source
  else if mixAlpha source dest = 0 then ⟨0, 0, 0, 0⟩
  else
    { r := UInt8.ofNat (mixChannel source dest source.r dest.r)
      g := UInt8.ofNat (mixChannel source dest source.g dest.g)
      b := UInt8.ofNat (mixChannel source dest source.b dest.b)
      a := UInt8.ofNat (mixAlpha source dest) }

end ContentCard.Rgba
