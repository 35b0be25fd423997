import ContentCard.Color

/-!
Pictures: rows of pixels from top to bottom.
-/

namespace ContentCard

structure Picture where
  width : Nat
  height : Nat
  pixels : Array Rgba
  size_pixels : pixels.size = width * height

namespace Picture

def filled (width height : Nat) (color : Rgba) : Picture where
  width := width
  height := height
  pixels := Array.replicate (width * height) color
  size_pixels := by simp

def blank (width height : Nat) : Picture := filled width height ⟨0, 0, 0, 0⟩

/-- The pixels of a byte sequence; missing bytes are zero and further ones are dropped. -/
def ofBytes (width height : Nat) (bytes : ByteArray) : Picture where
  width := width
  height := height
  pixels := Array.ofFn (n := width * height) fun i =>
    let byte (k : Nat) : UInt8 := bytes.data.getD (4 * i.val + k) 0
    ⟨byte 0, byte 1, byte 2, byte 3⟩
  size_pixels := by simp

instance : Inhabited Picture := ⟨blank 0 0⟩

def pixel? (p : Picture) (x y : Nat) : Option Rgba :=
  if x < p.width then p.pixels[y * p.width + x]? else none

def modify (p : Picture) (x y : Nat) (f : Rgba → Rgba) : Picture :=
  if x < p.width then
    { p with
      pixels := p.pixels.modify (y * p.width + x) f
      size_pixels := by simp [p.size_pixels] }
  else p

@[simp] theorem width_modify (p : Picture) (x y : Nat) (f : Rgba → Rgba) :
    (p.modify x y f).width = p.width := by
  unfold modify; split <;> rfl

@[simp] theorem height_modify (p : Picture) (x y : Nat) (f : Rgba → Rgba) :
    (p.modify x y f).height = p.height := by
  unfold modify; split <;> rfl

/-- Changes the pixels of a block, given by its first column and row and its size. -/
def modifyBlock (p : Picture) (x y width height : Nat) (f : Nat → Nat → Rgba → Rgba) : Picture :=
  let modifyRow (j : Nat) (p : Picture) : Picture :=
    width.fold (fun i _ p => p.modify (x + i) (y + j) (f (x + i) (y + j))) p
  height.fold (fun j _ p => modifyRow j p) p

def row (p : Picture) (y : Nat) : List Rgba :=
  (p.pixels.extract (y * p.width) ((y + 1) * p.width)).toList

def rows (p : Picture) : List (List Rgba) := (List.range p.height).map p.row

end Picture

/-- What is known of an image: it is on its way, it is there, or it will not come. -/
inductive ImageState
  | pending
  | loaded (picture : Picture)
  | failed
deriving Inhabited

def ImageState.isSettled : ImageState → Bool
  | pending => false
  | _ => true

/-- The state of the image at an address, by the address's normal text. -/
abbrev ImageSource := String → ImageState

end ContentCard
