import LastHero.Game.Physics
import LastHero.Support.Triangles

/-! CTerrain.cpp. The pixels are one array, read row by row; a read outside of it is a fault. -/
namespace LastHero
open FloatArith Triangles

/-- The operations of `float` that the terrain uses besides. -/
class FloatOrder (F : Type) extends FloatArith F where
  div : F → F → F
  lt : F → F → Bool
  le : F → F → Bool

instance : FloatOrder ℚ where
  div := (· / ·)
  lt a b := a < b
  le a b := a ≤ b

structure CTerrain where
  width : ℤ
  height : ℤ
  mapPixels : List UInt16

namespace CTerrain

def pixelLength : ℤ := 1531

/-- CTerrain::LoadMap. Where the file is too short, a pixel is what the new memory holds. -/
def loadMap (file : Option (List Byte)) (memory : ℕ → Byte) (t : CTerrain) : Bool × CTerrain :=
  match file with
  | none => (false,t)
  | some bytes =>
    let byte i : ℕ := (bytes.getD i (memory i)).toBitVec.toNat
    let imageSize := (pixelLength*pixelLength).toNat
    (true,{
      width := pixelLength
      height := pixelLength
      mapPixels := (List.range imageSize).map fun i => .ofNat (byte (2*i) + 256*byte (2*i+1)) })

/-- The place of a pixel, by its column and row. -/
def index (t : CTerrain) (c : ℤ × ℤ) : ℤ := c.1 + c.2*t.width

section reads
variable {F : Type} [FloatArith F]

/-- `static_cast<float>(m_mapPixels[i])` -/
def pixel (t : CTerrain) (i : ℤ) : Except Fault F :=
  if i < 0 then .error .badIndex
  else
    match t.mapPixels[i.toNat]? with
    | none => .error .badIndex
    | some n => .ok (lit n.toNat)

/-- The pixels around a point. -/
def corners (x y : ℤ) : List (ℤ × ℤ) := [(x,y),(x+1,y),(x,y+1),(x+1,y+1)]

def square (t : CTerrain) (x y : ℤ) : Except Fault (Square F) := do
  let bottomLeft ← t.pixel (t.index (x,y))
  let bottomRight ← t.pixel (t.index (x+1,y))
  let topLeft ← t.pixel (t.index (x,y+1))
  let topRight ← t.pixel (t.index (x+1,y+1))
  return ⟨bottomLeft,bottomRight,topLeft,topRight⟩

/-- The heights are read at the corners, one after the other. -/
theorem square_corners (t : CTerrain) (x y : ℤ) : Square.toList <$> t.square (F := F) x y =
    (corners x y).mapM fun c => t.pixel (t.index c) := by
  simp [square, corners, Square.toList]

/-- The corner across the diagonal is replaced by the one that the triangle would have there. -/
def complete (right2Left upper : Bool) (s : Square F) : Square F :=
  match right2Left, upper with
  | true, true => { s with bottomRight := add s.bottomLeft (sub s.topRight s.topLeft) }
  | true, false => { s with topLeft := add s.topRight (sub s.bottomLeft s.bottomRight) }
  | false, false => { s with topRight := add s.topLeft (sub s.bottomRight s.bottomLeft) }
  | false, true => { s with bottomLeft := add s.topLeft (sub s.bottomRight s.topRight) }

def blend (s : Square F) (xPersent yPersent : F) : F :=
  let topHeight := add (mul s.topLeft (sub (lit 1) xPersent)) (mul s.topRight xPersent)
  let bottomHeight := add (mul s.bottomLeft (sub (lit 1) xPersent)) (mul s.bottomRight xPersent)
  add (mul bottomHeight (sub (lit 1) yPersent)) (mul topHeight yPersent)

/-- The formula of one triangle of the cell with the lower left corner (x,y). -/
def triangle (t : CTerrain) (upper : Bool) (x y : ℤ) (xPersent yPersent : F) :
    Except Fault F := do
  let s ← t.square x y
  return blend (complete (y.tmod 2 ≠ 0) upper s) xPersent yPersent

end reads

section queries
open FloatOrder
variable {F : Type} [FloatOrder F]

/-- Which triangle the point is in. -/
def isUpper (right2Left : Bool) (xPersent yPersent : F) : Bool :=
  if right2Left then le xPersent yPersent else !lt yPersent (sub (lit 1) xPersent)

def cell (t : CTerrain) (x y : ℤ) (xPersent yPersent : F) : Except Fault F :=
  t.triangle (isUpper (y.tmod 2 ≠ 0) xPersent yPersent) x y xPersent yPersent

/-- CTerrain::GetHeight -/
def getHeight (t : CTerrain) (fx fy : F) : Except Fault F :=
  if lt fx (lit 0) || lt fy (lit 0) || le (lit t.width) fx || le (lit t.height) fy then .ok (lit 0)
  else
    let x := trunc fx
    let y := trunc fy
    t.cell x y (sub fx (lit x)) (sub fy (lit y))

/-- CTerrain::GetHeightNormal. The condition for `yAdd` assigns the height. -/
def getHeightNormal (t : CTerrain) (x y : ℤ) : Except Fault F × CTerrain :=
  if x < 0 ∨ y < 0 ∨ t.width ≤ x ∨ t.height ≤ y then (.ok (lit (-1)),t)
  else
    let xAdd := if x < t.width-1 then 1 else -1
    let t := { t with height := 1 }
    let yAdd := if y < t.height then t.width else -t.width
    let result : Except Fault F := do
      let _ ← t.pixel (F := F) (t.index (x,y))
      let _ ← t.pixel (F := F) (t.index (x,y) + xAdd)
      let _ ← t.pixel (F := F) (t.index (x,y) + yAdd)
      return lit 0
    (result,t)

/-- CTerrain::OnGetHeight -/
def onGetHeight (t : CTerrain) (x y : ℤ) : Except Fault F := do
  let height ← t.pixel (t.index (x,y))
  return sub (div (sub height (lit 30000)) (lit 1.28)) (lit 2070)

end queries

/-- What LoadMap leaves behind. Sizes are `int`. -/
structure Loaded (t : CTerrain) : Prop where
  width_pos : 0 < t.width
  width_le : t.width ≤ CInt.intMax
  height_pos : 0 < t.height
  height_le : t.height ≤ CInt.intMax
  size_eq : (t.mapPixels.length : ℤ) = t.width*t.height

theorem loaded_loadMap (bytes : List Byte) (memory : ℕ → Byte) (t : CTerrain) :
    (loadMap (some bytes) memory t).2.Loaded := by
  constructor <;> simp [loadMap, pixelLength, CInt.intMax]

end CTerrain
end LastHero
