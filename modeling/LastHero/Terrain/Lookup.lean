import LastHero.Terrain.Map

/-! The pixels around a point are in the map unless the point is in its last row or column. -/
namespace LastHero
namespace CTerrain
open Triangles
variable {t : CTerrain} {c : ℤ × ℤ} {x y : ℤ} {fx fy : ℚ}

section exact

@[simp] theorem add_rat (a b : ℚ) : FloatArith.add a b = a+b := rfl

@[simp] theorem sub_rat (a b : ℚ) : FloatArith.sub a b = a-b := rfl

@[simp] theorem mul_rat (a b : ℚ) : FloatArith.mul a b = a*b := rfl

@[simp] theorem lit_rat (a : ℚ) : FloatArith.lit a = a := rfl

@[simp] theorem lt_rat (a b : ℚ) : FloatOrder.lt a b = decide (a < b) := rfl

@[simp] theorem le_rat (a b : ℚ) : FloatOrder.le a b = decide (a ≤ b) := rfl

end exact

/-- The index of a pixel is in the array, in the row and the column it is meant for. -/
def Placed (t : CTerrain) (c : ℤ × ℤ) : Prop :=
  0 ≤ t.index c ∧ t.index c < t.width*t.height ∧
    t.index c % t.width = c.1 ∧ t.index c / t.width = c.2

theorem placed_iff (hw : 0 < t.width) :
    t.Placed c ↔ (0 ≤ c.1 ∧ c.1 < t.width) ∧ 0 ≤ c.2 ∧ c.2 < t.height := by
  simp only [Placed, index]
  constructor
  · rintro ⟨h0,hlt,hcolumn,hrow⟩
    have hnonneg := Int.emod_nonneg (c.1+c.2*t.width) hw.ne'
    have hless := Int.emod_lt_of_pos (c.1+c.2*t.width) hw
    have hdiv := Int.ediv_nonneg h0 hw.le
    have hheight := Int.ediv_lt_of_lt_mul hw (mul_comm t.width t.height ▸ hlt)
    omega
  · rintro ⟨⟨h0,hlt⟩,h0',hlt'⟩
    refine ⟨by positivity,by nlinarith,?_,?_⟩
    · rw [Int.add_mul_emod_self_right, Int.emod_eq_of_lt h0 hlt]
    · rw [Int.add_mul_ediv_right _ _ hw.ne', Int.ediv_eq_zero_of_lt h0 hlt, zero_add]

theorem trunc_eq {n : ℤ} (h0 : 0 ≤ fx) (hlt : fx < n) (hn : n ≤ CInt.intMax) :
    FloatArith.trunc fx = ⌊fx⌋ := by
  have hfloor : ⌊fx⌋ < n := Int.floor_lt.mpr hlt
  have hnonneg : 0 ≤ ⌊fx⌋ := Int.floor_nonneg.mpr h0
  change truncRat fx = _
  rw [truncRat, if_pos h0, CInt.ofDouble_of_le]
  · rfl
  · exact hnonneg
  · change ⌊fx⌋ ≤ _
    omega

theorem floor_add_one_lt_iff {n : ℤ} : ⌊fx⌋+1 < n ↔ fx < n-1 := by
  rw [← lt_sub_iff_add_lt, Int.floor_lt]
  push_cast
  rfl

/-- GetHeight looks into the cell of the point. -/
theorem getHeight_eq (ht : t.Loaded) (hx : 0 ≤ fx ∧ fx < t.width) (hy : 0 ≤ fy ∧ fy < t.height) :
    t.getHeight fx fy = t.cell ⌊fx⌋ ⌊fy⌋ (fx-⌊fx⌋) (fy-⌊fy⌋) := by
  simp [getHeight, not_lt.mpr hx.1, not_lt.mpr hy.1, not_le.mpr hx.2, not_le.mpr hy.2,
    trunc_eq hx.1 hx.2 ht.width_le, trunc_eq hy.1 hy.2 ht.height_le]

theorem isOk_map {ε α β : Type} (f : α → β) (e : Except ε α) : (f <$> e).isOk = e.isOk := by
  cases e <;> rfl

theorem isOk_mapM {ε α β : Type} (f : α → Except ε β) (l : List α) :
    (l.mapM f).isOk = l.all fun a => (f a).isOk := by
  induction l with
  | nil => rfl
  | cons a l ih =>
    rw [List.mapM_cons, List.all_cons, ← ih]
    cases f a with
    | error => rfl
    | ok => cases l.mapM f <;> rfl

/-- The index is in the array. -/
def Stored (t : CTerrain) (i : ℤ) : Prop := 0 ≤ i ∧ i < t.width*t.height

theorem pixel_isOk_iff (ht : t.Loaded) (i : ℤ) :
    (t.pixel i : Except Fault ℚ).isOk = true ↔ t.Stored i := by
  rw [Stored, ← ht.size_eq, pixel]
  by_cases hneg : i < 0
  · rw [if_pos hneg]
    exact iff_of_false Bool.false_ne_true fun h => absurd h.1 (not_le.mpr hneg)
  · rw [if_neg hneg]
    cases hread : t.mapPixels[i.toNat]? with
    | none =>
      have hlength := List.getElem?_eq_none_iff.mp hread
      exact iff_of_false Bool.false_ne_true fun h => by omega
    | some n =>
      obtain ⟨hlength,-⟩ := List.getElem?_eq_some_iff.mp hread
      exact iff_of_true rfl ⟨not_lt.mp hneg,by omega⟩

/-- Where its guard accepts the point, GetHeight reads all corners: it returns if and only if each
of them has an index in the array. -/
theorem getHeight_isOk_iff (ht : t.Loaded) (hx : 0 ≤ fx ∧ fx < t.width)
    (hy : 0 ≤ fy ∧ fy < t.height) : (t.getHeight fx fy).isOk = true ↔
      ∀ c ∈ corners (FloatArith.trunc fx) (FloatArith.trunc fy), t.Stored (t.index c) := by
  rw [getHeight_eq ht hx hy, trunc_eq hx.1 hx.2 ht.width_le, trunc_eq hy.1 hy.2 ht.height_le]
  have hsquare : ∀ (upper : Bool) (x y : ℤ) (p q : ℚ),
      (t.triangle upper x y p q).isOk = (t.square (F := ℚ) x y).isOk := by
    intro upper x y p q
    exact isOk_map _ (t.square x y)
  rw [cell, hsquare, ← isOk_map Square.toList, square_corners, isOk_mapM, List.all_eq_true]
  exact forall₂_congr fun c _ => pixel_isOk_iff ht (t.index c)

/-- Of the points that GetHeight accepts, those in the last row or column have pixels around them
that are read from outside of the array or from another row. -/
theorem lookups_placed_iff (ht : t.Loaded) (hx : 0 ≤ fx ∧ fx < t.width)
    (hy : 0 ≤ fy ∧ fy < t.height) :
    (∀ c ∈ corners (FloatArith.trunc fx) (FloatArith.trunc fy), t.Placed c) ↔
      fx < t.width-1 ∧ fy < t.height-1 := by
  rw [trunc_eq hx.1 hx.2 ht.width_le, trunc_eq hy.1 hy.2 ht.height_le]
  have hx0 : 0 ≤ ⌊fx⌋ := Int.floor_nonneg.mpr hx.1
  have hy0 : 0 ≤ ⌊fy⌋ := Int.floor_nonneg.mpr hy.1
  rw [← floor_add_one_lt_iff, ← floor_add_one_lt_iff]
  simp only [placed_iff ht.width_pos, corners, List.forall_mem_cons, List.not_mem_nil]
  constructor
  · intro h
    omega
  · intro h
    exact ⟨by omega,by omega,by omega,by omega,fun _ hmem => hmem.elim⟩

/-- The map of an empty file, all of it low. -/
def flat : CTerrain := (loadMap (some []) (fun _ => 0) ⟨0,0,[]⟩).2

theorem flat_loaded : flat.Loaded := loaded_loadMap _ _ _

theorem flat_width : flat.width = 1531 := rfl

theorem flat_height : flat.height = 1531 := rfl

/-- Around the origin. -/
theorem flat_origin_placed : flat.Placed (0,0) ∧ flat.Placed (1,0) ∧ flat.Placed (0,1) ∧
    flat.Placed (1,1) := by
  have hx : (0 : ℚ) ≤ 0 ∧ (0 : ℚ) < flat.width := by
    rw [flat_width]
    norm_num
  have hy : (0 : ℚ) ≤ 0 ∧ (0 : ℚ) < flat.height := by
    rw [flat_height]
    norm_num
  have h := (lookups_placed_iff flat_loaded hx hy).mpr (by rw [flat_width, flat_height]; norm_num)
  have htrunc : FloatArith.trunc (0 : ℚ) = 0 := by
    rw [trunc_eq (n := 1531) (by norm_num) (by norm_num) (by simp [CInt.intMax])]
    norm_num
  rw [htrunc] at h
  exact ⟨h _ (by simp [corners]),h _ (by simp [corners]),h _ (by simp [corners]),
    h _ (by simp [corners])⟩

/-- The right neighbour of the last pixel in the first row is the first pixel of the second. -/
theorem flat_edge_not_placed : (0 : ℚ) ≤ 1530 ∧ (1530 : ℚ) < flat.width ∧ (0 : ℚ) < flat.height ∧
    ¬∀ c ∈ corners (FloatArith.trunc (1530 : ℚ)) (FloatArith.trunc (0 : ℚ)), flat.Placed c := by
  refine ⟨by norm_num,by rw [flat_width]; norm_num,by rw [flat_height]; norm_num,fun h => ?_⟩
  have htrunc : FloatArith.trunc (1530 : ℚ) = 1530 := by
    rw [trunc_eq (n := 1531) (by norm_num) (by norm_num) (by simp [CInt.intMax])]
    norm_num
  rw [htrunc] at h
  have := h (1531,FloatArith.trunc (0 : ℚ)) (by simp [corners])
  rw [placed_iff flat_loaded.width_pos, flat_width] at this
  omega

end CTerrain
end LastHero
