import LastHero.Game.Tracking
import LastHero.Game.Monster

/-! The operations of `float` as rounding has them, and a step of Chase computed with them: it comes
within a hundredth of taking three percent off the distance, and GetDistance is not further than a
few units from the truth in the range where a monster acts. -/
namespace LastHero
open FloatArith ExactFloat

/-- Each operation rounds its exact result to the nearest number with 24 bits, if it is not too
large. -/
class RoundedArith (F : Type) [FloatArith F] [ExactFloat F] : Prop where
  round_near : ∀ q : ℚ, |round F q-q| ≤ |q|/2^24+1/2^149
  lit_value_rat : ∀ q : ℚ, |q| < 2^24 → value (lit q : F) = some (round F q)
  add_value : ∀ {x y : F} {q r : ℚ}, value x = some q → value y = some r → |q+r| < 2^24 →
    value (add x y) = some (round F (q+r))
  sub_value : ∀ {x y : F} {q r : ℚ}, value x = some q → value y = some r → |q-r| < 2^24 →
    value (sub x y) = some (round F (q-r))
  mul_value : ∀ {x y : F} {q r : ℚ}, value x = some q → value y = some r → |q*r| < 2^24 →
    value (mul x y) = some (round F (q*r))

instance : RoundedArith ℚ where
  round_near q := by
    change |q-q| ≤ _
    rw [sub_self, abs_zero]
    positivity
  lit_value_rat _ _ := rfl
  add_value := by
    rintro x y q r ⟨⟩ ⟨⟩ -
    rfl
  sub_value := by
    rintro x y q r ⟨⟩ ⟨⟩ -
    rfl
  mul_value := by
    rintro x y q r ⟨⟩ ⟨⟩ -
    rfl

/-- The range in which the true coordinates of a monster and its target differ. -/
def sightRange : ℚ := 2001

variable {F : Type} [FloatArith F] [ExactFloat F] [RoundedArith F]

/-- The error of numbers up to a bound. -/
theorem round_near_of_le {q c : ℚ} (h : |q| ≤ c) : |round F q-q| ≤ c/2^24+1/2^149 := by
  have hnear := RoundedArith.round_near (F := F) q
  have hmono : |q|/2^24 ≤ c/2^24 := div_le_div_of_nonneg_right h (by positivity)
  linarith

/-- One coordinate of a step of Chase. -/
theorem chase_coordinate {x t : F} {a b : ℚ} (hx : value x = some a) (ht : value t = some b)
    (ha : |a| ≤ 2^17) (hab : |b-a| ≤ sightRange) : ∃ a',
      value (add x (mul (sub t x) (lit monsterSpeed))) = some a' ∧
        |(b-a')-97/100*(b-a)| ≤ 1/100 := by
  unfold sightRange at hab
  -- the difference, the speed, their product and the sum
  have hv := round_near_of_le (F := F) hab
  have hs := round_near_of_le (F := F) (show |monsterSpeed| ≤ 3/100 by norm_num [monsterSpeed])
  set v := round F (b-a) with hveq
  set s := round F monsterSpeed with hseq
  have hspeed : monsterSpeed = 3/100 := by norm_num [monsterSpeed]
  rw [hspeed] at hs
  obtain ⟨hv₁,hv₂⟩ := abs_le.mp hv
  obtain ⟨hs₁,hs₂⟩ := abs_le.mp hs
  obtain ⟨hab₁,hab₂⟩ := abs_le.mp hab
  obtain ⟨ha₁,ha₂⟩ := abs_le.mp ha
  norm_num at hv₁ hv₂ hs₁ hs₂ ha₁ ha₂
  have hprod : |v*s-3/100*(b-a)| ≤ 1/1000 := by
    have hsplit : v*s-3/100*(b-a) = v*(s-3/100)+3/100*(v-(b-a)) := by ring
    have hvabs : |v| ≤ 2002 := abs_le.mpr ⟨by linarith,by linarith⟩
    have hsabs : |s-3/100| ≤ 1/10^8 := abs_le.mpr ⟨by linarith,by linarith⟩
    have hvd : |v-(b-a)| ≤ 1/8000 := abs_le.mpr ⟨by linarith,by linarith⟩
    have hmul : |v*(s-3/100)| ≤ 2002*(1/10^8) := by
      rw [abs_mul]
      exact mul_le_mul hvabs hsabs (abs_nonneg _) (by norm_num)
    have hmul' : |3/100*(v-(b-a))| ≤ 3/100*(1/8000) := by
      rw [abs_mul, abs_of_pos (by norm_num : (0 : ℚ) < 3/100)]
      linarith
    rw [hsplit]
    have hadd := abs_add_le (v*(s-3/100)) (3/100*(v-(b-a)))
    linarith
  obtain ⟨hprod₁,hprod₂⟩ := abs_le.mp hprod
  have hvs : |v*s| ≤ 61 := abs_le.mpr ⟨by linarith,by linarith⟩
  have hp := round_near_of_le (F := F) hvs
  set p := round F (v*s) with hpeq
  obtain ⟨hp₁,hp₂⟩ := abs_le.mp hp
  norm_num at hp₁ hp₂
  have hsum : |a+p| ≤ 131200 := abs_le.mpr ⟨by linarith,by linarith⟩
  have hr := round_near_of_le (F := F) hsum
  obtain ⟨hr₁,hr₂⟩ := abs_le.mp hr
  norm_num at hr₁ hr₂
  refine ⟨round F (a+p),?_,abs_le.mpr ⟨by linarith,by linarith⟩⟩
  have hsub : value (sub t x) = some v := RoundedArith.sub_value ht hx (by linarith)
  have hlit : value (lit monsterSpeed : F) = some s :=
    RoundedArith.lit_value_rat _ (by rw [hspeed]; norm_num [abs_of_pos])
  have hmul : value (mul (sub t x) (lit monsterSpeed)) = some p :=
    RoundedArith.mul_value hsub hlit (by linarith)
  exact RoundedArith.add_value hx hmul (by linarith)

/-- The square of a difference in this range is hardly rounded. -/
theorem sq_round_near {q : ℚ} (h : |q| ≤ sightRange) : |round F q^2-q^2| ≤ 3/5 := by
  have hnear := round_near_of_le (F := F) h
  unfold sightRange at h hnear
  obtain ⟨hq₁,hq₂⟩ := abs_le.mp h
  obtain ⟨hr₁,hr₂⟩ := abs_le.mp hnear
  norm_num at hr₁ hr₂
  have hdiff : |round F q-q| ≤ 1/8000 := abs_le.mpr ⟨by linarith,by linarith⟩
  have hsum : |round F q+q| ≤ 4003 := abs_le.mpr ⟨by linarith,by linarith⟩
  have hsplit : round F q^2-q^2 = (round F q-q)*(round F q+q) := by ring
  rw [hsplit, abs_mul]
  have hmul := mul_le_mul hdiff hsum (abs_nonneg _) (by norm_num)
  linarith

/-- The int under the root is the square of the distance, up to the roundings. -/
theorem roundedSquares_near {dx dy : ℚ} (hx : |dx| ≤ sightRange) (hy : |dy| ≤ sightRange) :
    dx^2+dy^2-16/5 ≤ roundedSquares F dx dy ∧ (roundedSquares F dx dy : ℚ) ≤ dx^2+dy^2+6/5 := by
  obtain ⟨hx₁,hx₂⟩ := abs_le.mp (sq_round_near (F := F) hx)
  obtain ⟨hy₁,hy₂⟩ := abs_le.mp (sq_round_near (F := F) hy)
  have hfx := Int.floor_le (round F dx^2)
  have hfy := Int.floor_le (round F dy^2)
  have hfx' := Int.lt_floor_add_one (round F dx^2)
  have hfy' := Int.lt_floor_add_one (round F dy^2)
  simp only [roundedSquares]
  push_cast
  constructor
  · linarith
  · linarith

section Distance
variable [ExactSquares F] {p q : Position F} {a b x y : ℚ}

/-- A positive distance below CHASE_RANGE is no overflow. -/
theorem sight_of_getDistance (hp : p.At a b) (hq : q.At x y) (hpos : 0 < getDistance p q)
    (hlt : getDistance p q < chaseRange) : |a-x| ≤ sightRange ∧ |b-y| ≤ sightRange := by
  have hx0 : 0 ≤ ⌊round F (a-x)^2⌋ := Int.floor_nonneg.mpr (sq_nonneg _)
  have hy0 : 0 ≤ ⌊round F (b-y)^2⌋ := Int.floor_nonneg.mpr (sq_nonneg _)
  have hsum : ⌊round F (a-x)^2⌋+⌊round F (b-y)^2⌋ < chaseRange^2 := by
    rw [getDistance_eq_rounded hp hq] at hpos hlt
    refine ((CInt.root_lt_iff hx0 hy0 (by decide)).mp hlt).resolve_right fun hover => ?_
    by_cases hboth : CInt.intMax < ⌊round F (a-x)^2⌋ ∧ CInt.intMax < ⌊round F (b-y)^2⌋
    · rw [CInt.root_both hboth.1 hboth.2] at hpos
      omega
    · rw [CInt.root_overflow hx0 hy0 hboth hover, CInt.intMin] at hpos
      omega
  have hbound : ∀ d : ℚ, ⌊round F d^2⌋ < chaseRange^2 → |d| ≤ sightRange := by
    intro d hd
    have hsq : |round F d|^2 < 2000^2 := by
      have hfloor := Int.lt_floor_add_one (round F d^2)
      have hint : (⌊round F d^2⌋ : ℚ)+1 ≤ 2000^2 := by
        unfold chaseRange at hd
        exact_mod_cast hd
      rw [sq_abs]
      linarith
    have habs : |round F d| < 2000 := lt_of_pow_lt_pow_left₀ 2 (by norm_num) hsq
    have hnear := RoundedArith.round_near (F := F) d
    have htri := abs_sub_abs_le_abs_sub d (round F d)
    rw [abs_sub_comm] at htri
    unfold sightRange
    norm_num at hnear
    linarith
  exact ⟨hbound _ (by omega),hbound _ (by omega)⟩

omit [RoundedArith F] in
/-- In this range a distance is below a bound if and only if the sum of the squares is. -/
theorem getDistance_lt_iff_rounded (hp : p.At a b) (hq : q.At x y) (hx : |a-x| ≤ sightRange)
    (hy : |b-y| ≤ sightRange) {r : ℤ} (hr : 0 < r) :
    getDistance p q < r ↔ roundedSquares F (a-x) (b-y) < r^2 := by
  rw [getDistance_eq_rounded hp hq, root_rounded_lt_iff (F := F) _ _ hr]
  refine or_iff_left fun hover => ?_
  have hlong := lt_of_overflow (F := F) hover
  have hx2 := sq_le_sq' (abs_le.mp hx).1 (abs_le.mp hx).2
  have hy2 := sq_le_sq' (abs_le.mp hy).1 (abs_le.mp hy).2
  unfold sightRange at hx2 hy2
  unfold CInt.intMax at hlong
  norm_num at hlong
  linarith

/-- The true distance at which a monster begins to chase. -/
theorem sq_le_of_lt_chaseRange (hp : p.At a b) (hq : q.At x y) (hx : |a-x| ≤ sightRange)
    (hy : |b-y| ≤ sightRange) (h : getDistance p q < chaseRange) : (a-x)^2+(b-y)^2 ≤ 4000004 := by
  obtain ⟨hlow,-⟩ := roundedSquares_near (F := F) hx hy
  rw [getDistance_lt_iff_rounded hp hq hx hy (by decide)] at h
  have hint : (roundedSquares F (a-x) (b-y) : ℚ) < 4000000 := by
    unfold chaseRange at h
    exact_mod_cast h
  linarith

/-- The true distance at which it goes on. -/
theorem le_sq_of_far (hp : p.At a b) (hq : q.At x y) (hx : |a-x| ≤ sightRange) (hy : |b-y| ≤ sightRange)
    (h : ¬ getDistance p q < atkRange) : 89996 ≤ (a-x)^2+(b-y)^2 := by
  obtain ⟨-,hhigh⟩ := roundedSquares_near (F := F) hx hy
  rw [getDistance_lt_iff_rounded hp hq hx hy (by decide), not_lt] at h
  have hint : (90000 : ℚ) ≤ roundedSquares F (a-x) (b-y) := by
    unfold atkRange attackRange at h
    exact_mod_cast h
  linarith

/-- The distance is not rounded to 0. -/
theorem getDistance_pos_of_le_sq (hp : p.At a b) (hq : q.At x y) (hx : |a-x| ≤ sightRange)
    (hy : |b-y| ≤ sightRange) (h : 80000 ≤ (a-x)^2+(b-y)^2) : 0 < getDistance p q := by
  obtain ⟨hlow,-⟩ := roundedSquares_near (F := F) hx hy
  have hfar : ¬ getDistance p q < 1 := by
    rw [getDistance_lt_iff_rounded hp hq hx hy one_pos, not_lt]
    have hint : (1 : ℚ) ≤ roundedSquares F (a-x) (b-y) := by linarith
    exact_mod_cast hint
  omega

end Distance

/-- A difference that is off by a hundredth. -/
theorem sq_perturbed {d d' : ℚ} (h : |d'-97/100*d| ≤ 1/100) :
    9408/10000*d^2-2 ≤ d'^2 ∧ d'^2 ≤ 94095/100000*d^2+2 := by
  obtain ⟨h₁,h₂⟩ := abs_le.mp h
  set e := d'-97/100*d with he
  have hd' : d' = 97/100*d+e := by rw [he]; ring
  have hcross : |d*e| ≤ |d| * (1/100) := by
    rw [abs_mul]
    exact mul_le_mul_of_nonneg_left h (abs_nonneg d)
  have hd : |d| ≤ d^2/400+100 := by
    have hsq := sq_nonneg (|d|/20-10)
    rw [sub_sq, div_pow, sq_abs] at hsq
    linarith
  have he2 : e^2 ≤ 1/10000 := by nlinarith
  obtain ⟨hc₁,hc₂⟩ := abs_le.mp hcross
  rw [hd']
  constructor
  · nlinarith [sq_nonneg e]
  · nlinarith

end LastHero
