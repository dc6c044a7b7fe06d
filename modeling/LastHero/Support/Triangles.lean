import Mathlib.Algebra.Order.Field.Basic
import Mathlib.Tactic.Linarith
import Mathlib.Tactic.Ring

/-! Heights over a unit square that a diagonal cuts into two triangles. Over each triangle they are
linear between its corners; over an edge of the square they only depend on the ends of that edge. -/
namespace Triangles

structure Square (K : Type*) where
  bottomLeft : K
  bottomRight : K
  topLeft : K
  topRight : K

def Square.toList {K : Type*} (s : Square K) : List K :=
  [s.bottomLeft,s.bottomRight,s.topLeft,s.topRight]

variable {K : Type*} [Field K] [LinearOrder K] [IsStrictOrderedRing K] {a b c h x y : K}
  {s : Square K} {rising upper : Bool}

/-- `h` is a convex combination of three values. -/
def Mix (a b c h : K) : Prop :=
  ∃ u v w, 0 ≤ u ∧ 0 ≤ v ∧ 0 ≤ w ∧ u+v+w = 1 ∧ h = u*a+v*b+w*c

theorem Mix.min_le (hmix : Mix a b c h) : min a (min b c) ≤ h := by
  obtain ⟨u,v,w,hu,hv,hw,hsum,rfl⟩ := hmix
  have ha : min a (min b c) ≤ a := min_le_left _ _
  have hb : min a (min b c) ≤ b := (min_le_right _ _).trans (min_le_left _ _)
  have hc : min a (min b c) ≤ c := (min_le_right _ _).trans (min_le_right _ _)
  calc min a (min b c)
    _ = u*min a (min b c)+v*min a (min b c)+w*min a (min b c) := by
      rw [← add_mul, ← add_mul, hsum, one_mul]
    _ ≤ u*a+v*b+w*c := by gcongr

theorem Mix.le_max (hmix : Mix a b c h) : h ≤ max a (max b c) := by
  obtain ⟨u,v,w,hu,hv,hw,hsum,rfl⟩ := hmix
  have ha : a ≤ max a (max b c) := le_max_left _ _
  have hb : b ≤ max a (max b c) := (le_max_left _ _).trans (le_max_right _ _)
  have hc : c ≤ max a (max b c) := (le_max_right _ _).trans (le_max_right _ _)
  calc u*a+v*b+w*c
    _ ≤ u*max a (max b c)+v*max a (max b c)+w*max a (max b c) := by gcongr
    _ = max a (max b c) := by rw [← add_mul, ← add_mul, hsum, one_mul]

/-- The point is in the square, on one side of the diagonal. -/
structure Inside (rising upper : Bool) (x y : K) : Prop where
  left : 0 ≤ x
  right : x ≤ 1
  bottom : 0 ≤ y
  top : y ≤ 1
  side : match rising, upper with
    | true, true => x ≤ y
    | true, false => y ≤ x
    | false, false => x+y ≤ 1
    | false, true => 1 ≤ x+y

/-- The height over a triangle. -/
def Square.height (s : Square K) (rising upper : Bool) (x y : K) : K :=
  match rising, upper with
  | true, true => (1-y)*s.bottomLeft + (y-x)*s.topLeft + x*s.topRight
  | true, false => (1-x)*s.bottomLeft + (x-y)*s.bottomRight + y*s.topRight
  | false, false => (1-x-y)*s.bottomLeft + x*s.bottomRight + y*s.topLeft
  | false, true => (1-y)*s.bottomRight + (1-x)*s.topLeft + (x+y-1)*s.topRight

/-- The triangles meet in the diagonal. -/
theorem height_diagonal (h : Inside rising true x y) (h' : Inside rising false x y) :
    s.height rising true x y = s.height rising false x y := by
  cases rising with
  | true =>
    obtain rfl : x = y := le_antisymm h.side h'.side
    simp only [Square.height]
    ring
  | false =>
    obtain rfl : y = 1-x := by linarith [h.side, h'.side]
    simp only [Square.height]
    ring

/-- Linear along every line that is parallel to an edge. -/
def Square.bilinear (s : Square K) (x y : K) : K :=
  (s.bottomLeft*(1-x)+s.bottomRight*x)*(1-y) + (s.topLeft*(1-x)+s.topRight*x)*y

/-- The difference is a multiple of this. -/
def gap (rising upper : Bool) (x y : K) : K :=
  match rising, upper with
  | true, true => -(x*(1-y))
  | true, false => -(y*(1-x))
  | false, false => x*y
  | false, true => (1-x)*(1-y)

omit [LinearOrder K] [IsStrictOrderedRing K] in
theorem bilinear_eq (s : Square K) (rising upper : Bool) (x y : K) :
    s.bilinear x y = s.height rising upper x y +
      (s.bottomLeft+s.topRight-s.bottomRight-s.topLeft)*gap rising upper x y := by
  cases rising <;> cases upper <;> simp only [Square.bilinear, Square.height, gap] <;> ring

theorem gap_boundary (h : Inside rising upper x y) (hedge : x = 0 ∨ x = 1 ∨ y = 0 ∨ y = 1) :
    gap rising upper x y = 0 := by
  obtain ⟨hx0,hx1,hy0,hy1,hside⟩ := h
  cases rising with
  | true =>
    cases upper with
    | true =>
      have hzero : x = 0 ∨ 1-y = 0 := by
        rcases hedge with hx | hx | hy | hy
        · exact .inl hx
        · exact .inr (by linarith)
        · exact .inl (by linarith)
        · exact .inr (by linarith)
      simpa [gap] using hzero
    | false =>
      have hzero : y = 0 ∨ 1-x = 0 := by
        rcases hedge with hx | hx | hy | hy
        · exact .inl (by linarith)
        · exact .inr (by linarith)
        · exact .inl hy
        · exact .inr (by linarith)
      simpa [gap] using hzero
  | false =>
    cases upper with
    | true =>
      have hzero : 1-x = 0 ∨ 1-y = 0 := by
        rcases hedge with hx | hx | hy | hy
        · exact .inr (by linarith)
        · exact .inl (by linarith)
        · exact .inl (by linarith)
        · exact .inr (by linarith)
      simpa [gap] using hzero
    | false =>
      have hzero : x = 0 ∨ y = 0 := by
        rcases hedge with hx | hx | hy | hy
        · exact .inl hx
        · exact .inr (by linarith)
        · exact .inr hy
        · exact .inl (by linarith)
      simpa [gap] using hzero

/-- Over the edges of the square both triangles are linear between the ends. -/
theorem height_boundary (h : Inside rising upper x y) (hedge : x = 0 ∨ x = 1 ∨ y = 0 ∨ y = 1) :
    s.height rising upper x y = s.bilinear x y := by
  rw [bilinear_eq s rising upper, gap_boundary h hedge, mul_zero, add_zero]

/-- The corners of a triangle. -/
def Square.corners (s : Square K) (rising upper : Bool) : K × K × K :=
  match rising, upper with
  | true, true => (s.bottomLeft,s.topLeft,s.topRight)
  | true, false => (s.bottomLeft,s.bottomRight,s.topRight)
  | false, false => (s.bottomLeft,s.bottomRight,s.topLeft)
  | false, true => (s.bottomRight,s.topLeft,s.topRight)

theorem height_mix (h : Inside rising upper x y) :
    Mix (s.corners rising upper).1 (s.corners rising upper).2.1 (s.corners rising upper).2.2
      (s.height rising upper x y) := by
  obtain ⟨hx0,hx1,hy0,hy1,hside⟩ := h
  cases rising with
  | true =>
    cases upper with
    | true => exact ⟨1-y,y-x,x,by linarith,sub_nonneg.mpr hside,hx0,by ring,rfl⟩
    | false => exact ⟨1-x,x-y,y,by linarith,sub_nonneg.mpr hside,hy0,by ring,rfl⟩
  | false =>
    cases upper with
    | true => exact ⟨1-y,1-x,x+y-1,by linarith,by linarith,sub_nonneg.mpr hside,by ring,rfl⟩
    | false => exact ⟨1-x-y,x,y,by linarith [hside],hx0,hy0,by ring,rfl⟩

end Triangles
