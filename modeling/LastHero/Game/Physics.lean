import LastHero.Memory
import LastHero.Support.CInt

/-! Positions and the distance functions. The arithmetic of `float` is a parameter with the
operations that the server uses; the integer parts of its functions are computed here. -/
namespace LastHero

/-- Operations of `float`, and the conversions of its values to `int`. -/
class FloatArith (F : Type) where
  /-- a literal, or a converted `int` -/
  lit : ℚ → F
  add : F → F → F
  sub : F → F → F
  mul : F → F → F
  /-- `(int) pow(d, 2)` -/
  square : F → ℤ
  /-- `(int) x` -/
  trunc : F → ℤ
  /-- `(atan2f(dy, dx) * 180) / Pi` -/
  degree : F → F → F
  /-- a field of a received packet -/
  ofBytes : List Byte → F

/-- CTerrain.h -/
def sideMin : ℤ := -51000
def sideMax : ℤ := 102000
def posScale : ℤ := 100

def InMap (a : ℤ) : Prop := sideMin ≤ a ∧ a ≤ sideMax

instance (a : ℤ) : Decidable (InMap a) := inferInstanceAs (Decidable (_ ∧ _))

/-- Integers of the map and their differences have less than 24 bits, so `float` holds them
exactly, and `double` holds the squares of the differences. -/
class ExactIntegers (F : Type) [FloatArith F] : Prop where
  square_sub : ∀ a b : ℤ, InMap a → InMap b →
    FloatArith.square (FloatArith.sub (FloatArith.lit (F := F) a) (FloatArith.lit b)) =
      CInt.ofDouble ((a-b)^2)

open FloatArith

structure Position (F : Type) where
  x : F
  y : F
  z : F
  deriving DecidableEq

namespace Position
variable {F : Type} [FloatArith F]

def lits (x y z : ℚ) : Position F := ⟨lit x,lit y,lit z⟩

def sub (p q : Position F) : Position F :=
  ⟨FloatArith.sub p.x q.x,FloatArith.sub p.y q.y,FloatArith.sub p.z q.z⟩

def add (p q : Position F) : Position F :=
  ⟨FloatArith.add p.x q.x,FloatArith.add p.y q.y,FloatArith.add p.z q.z⟩

def scale (p : Position F) (a : F) : Position F :=
  ⟨FloatArith.mul p.x a,FloatArith.mul p.y a,FloatArith.mul p.z a⟩

def isZero (p : Position F) : Bool := trunc p.x = 0 ∧ trunc p.y = 0

/-- The twelve bytes at offset `i` of a packet. -/
def ofBuffer (b : Buffer) (i : ℕ) : Position F :=
  let field k := ofBytes ((b.bytes.drop (i+k)).take 4)
  ⟨field 0,field 4,field 8⟩

end Position

variable {F : Type} [FloatArith F]

/-- The int under the root of all distance functions. -/
def sumSquares (p q : Position F) : ℤ :=
  CInt.wrap (square (FloatArith.sub p.x q.x) + square (FloatArith.sub p.y q.y))

/-- CPlayer::GetDistance and CMonster::GetDistance -/
def getDistance (p q : Position F) : ℤ := CInt.abs (CInt.sqrt (sumSquares p q))

theorem getDistance_eq_root {p q : Position F} {m n : ℤ}
    (hx : square (FloatArith.sub p.x q.x) = CInt.ofDouble m)
    (hy : square (FloatArith.sub p.y q.y) = CInt.ofDouble n) : getDistance p q = CInt.root m n := by
  simp only [getDistance, sumSquares, CInt.root]
  rw [hx, hy]

/-- GetDistance of node.cpp. A `float` there is the root of an `int`, or NaN; the roots are
represented by the `int`, as no comparison with them depends on the rounding. -/
def floatDistance (p q : Position F) : Option ℕ :=
  if sumSquares p q < 0 then none else some (sumSquares p q).toNat

/-- `d < r` with a `float` distance; false for NaN. -/
def floatLt (d : Option ℕ) (r : ℕ) : Bool := d.any fun n => n < r^2

/-- `d > r` with a `float` distance; false for NaN. -/
def floatGt (d : Option ℕ) (r : ℕ) : Bool := d.any fun n => r^2 < n

/-- GetDegree -/
def getDegree (p q : Position F) : F :=
  degree (FloatArith.sub q.y p.y) (FloatArith.sub q.x p.x)

/-- `{ 0, degree, 0 }` -/
def facing (y : F) : Position F := ⟨lit 0,y,lit 0⟩

/-- The coordinates are integers inside the map. -/
structure Grid (p : Position F) (x y : ℤ) : Prop where
  x_eq : p.x = lit x
  y_eq : p.y = lit y
  x_mem : InMap x
  y_mem : InMap y

theorem Grid.getDistance [ExactIntegers F] {p q : Position F} {a b c d : ℤ} (hp : Grid p a b)
    (hq : Grid q c d) : getDistance p q = CInt.hypot (a-c) (b-d) := by
  simp only [LastHero.getDistance, sumSquares, CInt.hypot]
  rw [hp.x_eq, hp.y_eq, hq.x_eq, hq.y_eq, ExactIntegers.square_sub a c hp.x_mem hq.x_mem,
    ExactIntegers.square_sub b d hp.y_mem hq.y_mem]

/-! Rational coordinates with exact arithmetic, for evaluating the model. -/

/-- The finite value of the four bytes of a `float`. -/
def decodeFloat (bytes : List Byte) : ℚ :=
  let word : ℕ := bytes.foldr (fun b n => b.toBitVec.toNat + 256*n) 0
  let mantissa : ℚ := (word % 2^23 : ℕ)
  let exponent := word / 2^23 % 256
  let magnitude := if exponent = 0 then mantissa / 2^149
    else (2^23 + mantissa) * 2^exponent / 2^150
  if word / 2^31 = 0 then magnitude else -magnitude

/-- Truncation towards zero. -/
def truncRat (q : ℚ) : ℤ := CInt.ofDouble (if 0 ≤ q then q.floor else -(-q).floor)

/-- Only the angles of the axes are rational multiples of a right angle for all points on
them; the others are rounded to an axis. -/
instance : FloatArith ℚ where
  lit := id
  add := (· + ·)
  sub := (· - ·)
  mul := (· * ·)
  square d := truncRat (d^2)
  trunc := truncRat
  degree dy dx := if |dy| ≤ |dx| then (if 0 ≤ dx then 0 else 180) else if 0 < dy then 90 else -90
  ofBytes := decodeFloat

instance : ExactIntegers ℚ where
  square_sub a b _ _ := by
    have h : ((a : ℚ)-b)^2 = ((a-b)^2 : ℤ) := by push_cast; rfl
    change truncRat (((a : ℚ)-b)^2) = _
    have h0 : (0 : ℚ) ≤ ((a-b)^2 : ℤ) := by exact_mod_cast sq_nonneg (a-b)
    rw [h, truncRat, if_pos h0, Rat.floor_intCast]

end LastHero
