import LastHero.Game.Physics

/-! The numbers behind the coordinates. A difference of two `float`s is rounded, its square is exact
in `double`, and the distances between points with integer coordinates are exact until an `int`
overflows. -/
namespace LastHero
open FloatArith

/-- What is known of the numbers that `float` holds. -/
class ExactFloat (F : Type) [FloatArith F] where
  /-- none for NaN and the infinities -/
  value : F → Option ℚ
  /-- rounding to the 24 bits of a `float` -/
  round : ℚ → ℚ
  round_le : ∀ q : ℚ, |round q| ≤ 2*|q|
  round_int : ∀ n : ℤ, |n| < 2^24 → round n = n
  lit_value : ∀ n : ℤ, |n| < 2^24 → value (lit n) = some (n : ℚ)
  square_sub : ∀ {x y : F} {q r : ℚ}, value x = some q → value y = some r → |q-r| < 2^24 →
    square (sub x y) = CInt.ofDouble ⌊round (q-r)^2⌋

/-- `double` holds the square of every `float`. An infinite difference has no `int`, like the large
ones. -/
class ExactSquares (F : Type) [FloatArith F] [ExactFloat F] : Prop where
  square_sub_value : ∀ {x y : F} {q r : ℚ}, ExactFloat.value x = some q →
    ExactFloat.value y = some r → square (sub x y) = CInt.ofDouble ⌊ExactFloat.round F (q-r)^2⌋

/-- Rounding keeps the order, and the conversion of a difference to `int` drops its fraction. -/
class ExactTrunc (F : Type) [FloatArith F] [ExactFloat F] : Prop where
  round_mono : Monotone (ExactFloat.round F)
  trunc_sub_value : ∀ {x y : F} {q r : ℚ}, ExactFloat.value x = some q →
    ExactFloat.value y = some r → trunc (sub x y) = truncRat (ExactFloat.round F (q-r))

instance : ExactFloat ℚ where
  value := some
  round := id
  round_le q := by
    have h0 := abs_nonneg q
    dsimp only [id]
    linarith
  round_int _ _ := rfl
  lit_value _ _ := rfl
  square_sub := by
    rintro x y q r ⟨⟩ ⟨⟩ -
    change truncRat ((x-y)^2) = _
    simp only [truncRat]
    rw [if_pos (sq_nonneg (x-y))]
    rfl

instance : ExactSquares ℚ where
  square_sub_value := by
    rintro x y q r ⟨⟩ ⟨⟩
    change truncRat ((x-y)^2) = _
    simp only [truncRat]
    rw [if_pos (sq_nonneg (x-y))]
    rfl

instance : ExactTrunc ℚ where
  round_mono := monotone_id
  trunc_sub_value := by
    rintro x y q r ⟨⟩ ⟨⟩
    rfl

/-- The sum of the squares that the distance functions convert to `int`. -/
def roundedSquares (F : Type) [FloatArith F] [ExactFloat F] (dx dy : ℚ) : ℤ :=
  ⌊ExactFloat.round F dx^2⌋+⌊ExactFloat.round F dy^2⌋

variable {F : Type} [FloatArith F] [ExactFloat F]

/-- The position is the point (x, y). -/
structure Position.At (p : Position F) (x y : ℚ) : Prop where
  x_value : ExactFloat.value p.x = some x
  y_value : ExactFloat.value p.y = some y

variable {p q : Position F} {a b c d : ℤ}

theorem truncRat_intCast (n : ℤ) : truncRat n = CInt.ofDouble n := by
  simp only [truncRat]
  split_ifs
  · rw [Rat.floor_intCast]
  · rw [← Int.cast_neg, Rat.floor_intCast, neg_neg]

theorem square_sub_int {x y : F} (hx : ExactFloat.value x = some (a : ℚ))
    (hy : ExactFloat.value y = some (b : ℚ)) (h : |a-b| ≤ CInt.rootMax) :
    square (sub x y) = (a-b)^2 := by
  have hsub : (a : ℚ)-b = ((a-b : ℤ) : ℚ) := by push_cast; rfl
  have hsq : (((a-b : ℤ) : ℚ)^2) = (((a-b)^2 : ℤ) : ℚ) := by push_cast; rfl
  have hsmall : |a-b| < 2^24 := by
    unfold CInt.rootMax at h
    omega
  rw [ExactFloat.square_sub hx hy (by rw [hsub]; exact_mod_cast hsmall), hsub,
    ExactFloat.round_int _ hsmall, hsq, Int.floor_intCast, CInt.ofDouble_sq_of_le h]

/-- Without overflow the int under the root is the square of the distance. -/
theorem sumSquares_eq (hp : p.At a b) (hq : q.At c d) (h : (a-c)^2+(b-d)^2 ≤ CInt.intMax) :
    sumSquares p q = (a-c)^2+(b-d)^2 := by
  have hx0 : 0 ≤ (a-c)^2 := sq_nonneg (a-c)
  have hy0 : 0 ≤ (b-d)^2 := sq_nonneg (b-d)
  simp only [sumSquares]
  rw [square_sub_int hp.x_value hq.x_value (CInt.sq_le_intMax.mp (by omega)),
    square_sub_int hp.y_value hq.y_value (CInt.sq_le_intMax.mp (by omega))]
  simp only [CInt.wrap]
  unfold CInt.intMax at h
  omega

/-- Then the distance is the integer part of the true one. -/
theorem getDistance_eq (hp : p.At a b) (hq : q.At c d) (h : (a-c)^2+(b-d)^2 ≤ CInt.intMax) :
    getDistance p q = ((a-c)^2+(b-d)^2).toNat.sqrt := by
  have h0 : 0 ≤ (a-c)^2+(b-d)^2 := by positivity
  simp only [getDistance]
  rw [sumSquares_eq hp hq h, CInt.sqrt_of_nonneg h0, CInt.abs_natCast]

theorem getDistance_eq_rounded [ExactSquares F] {a b x y : ℚ} (hp : p.At a b) (hq : q.At x y) :
    getDistance p q =
      CInt.root ⌊ExactFloat.round F (a-x)^2⌋ ⌊ExactFloat.round F (b-y)^2⌋ :=
  getDistance_eq_root (ExactSquares.square_sub_value hp.x_value hq.x_value)
    (ExactSquares.square_sub_value hp.y_value hq.y_value)

/-- A test for a short distance lets short distances pass, and overflows. -/
theorem root_rounded_lt_iff (dx dy : ℚ) {r : ℤ} (hr : 0 < r) :
    CInt.root ⌊ExactFloat.round F dx^2⌋ ⌊ExactFloat.round F dy^2⌋ < r ↔
      roundedSquares F dx dy < r^2 ∨ CInt.intMax < roundedSquares F dx dy :=
  CInt.root_lt_iff (Int.floor_nonneg.mpr (sq_nonneg _)) (Int.floor_nonneg.mpr (sq_nonneg _)) hr

/-- The square of a rounded number is not much larger. -/
theorem sq_round_le (q : ℚ) : ExactFloat.round F q^2 ≤ 4*q^2 := by
  have hle := pow_le_pow_left₀ (abs_nonneg _) (ExactFloat.round_le (F := F) q) 2
  rw [sq_abs, mul_pow, sq_abs] at hle
  linarith

/-- Only long distances overflow. -/
theorem lt_of_overflow {dx dy : ℚ} (h : CInt.intMax < roundedSquares F dx dy) :
    CInt.intMax < 4*(dx^2+dy^2) := by
  have hx := (Int.floor_le (ExactFloat.round F dx^2)).trans (sq_round_le _)
  have hy := (Int.floor_le (ExactFloat.round F dy^2)).trans (sq_round_le _)
  have hq : (CInt.intMax : ℚ) < roundedSquares F dx dy := by exact_mod_cast h
  unfold roundedSquares at hq
  push_cast at hq
  linarith

/-- The two are points with integer coordinates, and the square of their distance is an `int`. -/
def Position.Exact (p q : Position F) : Prop :=
  ∃ a b c d : ℤ, p.At a b ∧ q.At c d ∧ (a-c)^2+(b-d)^2 ≤ CInt.intMax

theorem Position.Exact.nonneg (h : Position.Exact p q) : 0 ≤ getDistance p q := by
  obtain ⟨a,b,c,d,hp,hq,hle⟩ := h
  rw [getDistance_eq hp hq hle]
  exact Int.natCast_nonneg _

end LastHero
