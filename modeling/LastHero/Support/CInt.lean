import Mathlib.Tactic
import Mathlib.Data.Nat.Sqrt

/-! Arithmetic of a 32-bit `int`: addition that wraps, conversions from `double` that give
INT_MIN outside the range, and the distance of two points computed with them. -/
namespace CInt

def intMin : ℤ := -2147483648
def intMax : ℤ := 2147483647

/-- The value of an `int` expression whose exact value is `n`. -/
def wrap (n : ℤ) : ℤ := (n+2147483648) % 4294967296 - 2147483648

/-- Conversion of a `double` with the integral value `n`. -/
def ofDouble (n : ℤ) : ℤ := if intMin ≤ n ∧ n ≤ intMax then n else intMin

/-- `(int) sqrt(n)`; the root of a negative number is NaN, which converts to INT_MIN. -/
def sqrt (n : ℤ) : ℤ := if n < 0 then intMin else (n.toNat.sqrt : ℤ)

/-- `abs(n)` -/
def abs (n : ℤ) : ℤ := if n = intMin then intMin else |n|

/-- The value of a `short` that an `int` is stored in. -/
def toShort (n : ℤ) : ℤ := n.bmod 65536

theorem toShort_eq_self {n : ℤ} : toShort n = n ↔ -32768 ≤ n ∧ n ≤ 32767 := by
  simp only [toShort]
  rw [Int.bmod_def]
  split_ifs with h
  · omega
  · omega

theorem toShort_mem (n : ℤ) : -32768 ≤ toShort n ∧ toShort n ≤ 32767 := by
  simp only [toShort]
  rw [Int.bmod_def]
  split_ifs <;> omega

/-- Close numbers stay different. -/
theorem toShort_add_inj {n a b : ℤ} (hab : |a-b| < 65536) (h : toShort (n+a) = toShort (n+b)) :
    a = b := by
  have hdvd : (65536 : ℤ) ∣ a-b := by
    unfold toShort at h
    rw [Int.bmod_def, Int.bmod_def] at h
    split_ifs at h <;> omega
  exact sub_eq_zero.mp (Int.eq_zero_of_abs_lt_dvd hdvd hab)

/-- `abs((int) sqrt(x + y))`, where the ints `x` and `y` are converted from `a` and `b`. -/
def root (a b : ℤ) : ℤ := abs (sqrt (wrap (ofDouble a + ofDouble b)))

/-- The root of a sum of two squares, all computed in `int`. -/
def hypot (dx dy : ℤ) : ℤ := abs (sqrt (wrap (ofDouble (dx^2) + ofDouble (dy^2))))

/-- The largest integer whose square is an `int`. -/
def rootMax : ℤ := 46340

theorem sq_le_intMax {d : ℤ} : d^2 ≤ intMax ↔ |d| ≤ rootMax := by
  have hsq : |d|^2 = d^2 := sq_abs d
  have h0 : 0 ≤ |d| := abs_nonneg d
  rw [← hsq, intMax, rootMax]
  constructor
  · intro h
    nlinarith
  · intro h
    nlinarith

theorem ofDouble_eq_self {n : ℤ} (h0 : intMin ≤ n) (h : n ≤ intMax) : ofDouble n = n :=
  if_pos ⟨h0,h⟩

theorem ofDouble_of_le {n : ℤ} (h0 : 0 ≤ n) (h : n ≤ intMax) : ofDouble n = n :=
  ofDouble_eq_self (by unfold intMin; omega) h

theorem ofDouble_of_lt {n : ℤ} (h : intMax < n) : ofDouble n = intMin :=
  if_neg fun hn => absurd hn.2 (not_le.mpr h)

theorem ofDouble_sq_of_le {d : ℤ} (h : |d| ≤ rootMax) : ofDouble (d^2) = d^2 :=
  ofDouble_of_le (sq_nonneg d) (sq_le_intMax.mpr h)

theorem sqrt_of_neg {n : ℤ} (h : n < 0) : sqrt n = intMin := if_pos h

theorem sqrt_of_nonneg {n : ℤ} (h : 0 ≤ n) : sqrt n = n.toNat.sqrt := if_neg (not_lt.mpr h)

theorem abs_intMin : abs intMin = intMin := if_pos rfl

theorem abs_natCast (n : ℕ) : abs n = n := by
  have hn : (n : ℤ) ≠ intMin := by unfold intMin; omega
  rw [abs, if_neg hn, Nat.abs_cast]

/-- No distance that is computed in `int` is larger than the root of the largest `int`. -/
theorem abs_sqrt_wrap_le (n : ℤ) : abs (sqrt (wrap n)) ≤ rootMax := by
  by_cases h : wrap n < 0
  · rw [sqrt_of_neg h, abs_intMin]
    decide
  · have hle : (wrap n).toNat ≤ 2147483647 := by
      simp only [wrap] at h ⊢
      omega
    have hsqrt : (wrap n).toNat.sqrt < 46341 := Nat.sqrt_lt.mpr (by omega)
    rw [sqrt_of_nonneg (not_lt.mp h), abs_natCast, rootMax]
    omega

section Root
variable {a b : ℤ}

/-- Without overflow it is the integer part of the root. -/
theorem root_exact (ha : 0 ≤ a) (hb : 0 ≤ b) (h : a+b ≤ intMax) : root a b = (a+b).toNat.sqrt := by
  have hwrap : wrap (a+b) = a+b := by unfold wrap; unfold intMax at h; omega
  rw [root, ofDouble_of_le ha (by omega), ofDouble_of_le hb (by omega), hwrap,
    sqrt_of_nonneg (by omega), abs_natCast]

/-- Two overflows cancel. -/
theorem root_both (ha : intMax < a) (hb : intMax < b) : root a b = 0 := by
  rw [root, ofDouble_of_lt ha, ofDouble_of_lt hb]
  decide

/-- Any other overflow leaves a negative sum, and NaN. -/
theorem root_overflow (ha : 0 ≤ a) (hb : 0 ≤ b) (hbound : ¬ (intMax < a ∧ intMax < b))
    (h : intMax < a+b) : root a b = intMin := by
  have hneg : wrap (ofDouble a + ofDouble b) < 0 := by
    by_cases hax : a ≤ intMax
    · rw [ofDouble_of_le ha hax]
      by_cases hbx : b ≤ intMax
      · rw [ofDouble_of_le hb hbx]
        simp only [wrap]
        unfold intMax at hax hbx h
        omega
      · rw [ofDouble_of_lt (not_le.mp hbx)]
        simp only [wrap, intMin]
        unfold intMax at hax
        omega
    · have hbx : b ≤ intMax := not_lt.mp fun hbx => hbound ⟨not_le.mp hax,hbx⟩
      rw [ofDouble_of_lt (not_le.mp hax), ofDouble_of_le hb hbx]
      simp only [wrap, intMin]
      unfold intMax at hbx
      omega
  rw [root, sqrt_of_neg hneg, abs_intMin]

/-- It is below a bound that is no overflow itself if and only if the exact root is, or one of the
two overflows happened. -/
theorem root_lt_iff (ha : 0 ≤ a) (hb : 0 ≤ b) {r : ℤ} (hr : 0 < r) :
    root a b < r ↔ a+b < r^2 ∨ intMax < a+b := by
  by_cases h : a+b ≤ intMax
  · rw [root_exact ha hb h, or_iff_left (not_lt.mpr h)]
    obtain ⟨k,rfl⟩ := Int.eq_ofNat_of_zero_le hr.le
    obtain ⟨n,hn⟩ := Int.eq_ofNat_of_zero_le (add_nonneg ha hb)
    rw [hn, Int.toNat_natCast, Nat.cast_lt, Nat.sqrt_lt']
    norm_cast
  · rw [not_le] at h
    refine iff_of_true ?_ (Or.inr h)
    by_cases hbound : intMax < a ∧ intMax < b
    · rw [root_both hbound.1 hbound.2]
      exact hr
    · rw [root_overflow ha hb hbound h, intMin]
      omega

end Root

variable {dx dy : ℤ}

theorem hypot_eq (dx dy : ℤ) : hypot dx dy = root (dx^2) (dy^2) := rfl

theorem intMax_lt_sq {d : ℤ} : intMax < d^2 ↔ rootMax < |d| := by
  rw [← not_le, sq_le_intMax, not_le]

/-- The computed distance is below a bound that no square root of an `int` overflow reaches
exactly when the exact one is, or one of the two overflows happened. -/
theorem hypot_lt_iff {r : ℤ} (hr : 0 < r) : hypot dx dy < r ↔
    dx^2+dy^2 < r^2 ∨ intMax < dx^2+dy^2 := by
  rw [hypot_eq]
  exact root_lt_iff (sq_nonneg dx) (sq_nonneg dy) hr

/-- Only the first of the two overflows passes a test for a negative distance as well. -/
theorem hypot_mem_range_iff (dx dy : ℤ) {r : ℤ} (hr : 0 < r) (hr' : r ≤ rootMax) :
    (0 ≤ hypot dx dy ∧ hypot dx dy < r) ↔
      dx^2+dy^2 < r^2 ∨ (rootMax < |dx| ∧ rootMax < |dy|) := by
  rw [hypot_lt_iff hr, ← intMax_lt_sq, ← intMax_lt_sq, hypot_eq]
  by_cases hbound : intMax < dx^2 ∧ intMax < dy^2
  · have hy : 0 ≤ dy^2 := sq_nonneg dy
    rw [root_both hbound.1 hbound.2]
    exact iff_of_true ⟨le_rfl,Or.inr (by omega)⟩ (Or.inr hbound)
  · rw [or_iff_left hbound]
    by_cases h : dx^2+dy^2 ≤ intMax
    · rw [root_exact (sq_nonneg dx) (sq_nonneg dy) h, or_iff_left (not_lt.mpr h)]
      simp
    · rw [not_le] at h
      have hr2 : r^2 ≤ intMax := sq_le_intMax.mpr (by rwa [abs_of_pos hr])
      rw [root_overflow (sq_nonneg dx) (sq_nonneg dy) hbound h, intMin]
      omega

end CInt
