import LastHero.Terrain.Lookup

/-! In exact arithmetic GetHeight is the surface of the triangles over the cells, without a gap
between neighbouring cells. -/
namespace LastHero
namespace CTerrain
open Triangles
variable {t : CTerrain} {c : ℤ × ℤ} {x y : ℤ} {fx fy p q : ℚ} {right2Left upper : Bool}
  {s : Square ℚ}

/-- With the corner that completes a triangle, the blend is linear over the triangle. -/
theorem blend_complete :
    blend (complete right2Left upper s) p q = s.height right2Left upper p q := by
  cases right2Left <;> cases upper <;> simp [blend, complete, Square.height] <;> ring

theorem inside_isUpper (hp : 0 ≤ p ∧ p ≤ 1) (hq : 0 ≤ q ∧ q ≤ 1) :
    Inside right2Left (isUpper right2Left p q) p q := by
  refine ⟨hp.1,hp.2,hq.1,hq.2,?_⟩
  cases right2Left with
  | true =>
    by_cases h : p ≤ q
    · simp [isUpper, h]
    · simpa [isUpper, h] using (not_le.mp h).le
  | false =>
    by_cases h : q < 1-p
    · simp only [isUpper, Bool.false_eq_true, if_false, lt_rat, sub_rat, lit_rat, h, decide_true,
        Bool.not_true]
      linarith
    · simp only [isUpper, Bool.false_eq_true, if_false, lt_rat, sub_rat, lit_rat, h, decide_false,
        Bool.not_false]
      linarith [not_lt.mp h]

/-- The pixel at a column and row. -/
def value (t : CTerrain) (c : ℤ × ℤ) : ℚ := (t.mapPixels.getD (t.index c).toNat 0).toNat

theorem pixel_eq (ht : t.Loaded) (hc : t.Placed c) : t.pixel (t.index c) = .ok (t.value c) := by
  obtain ⟨h0,hlt,-⟩ := hc
  have hlt : (t.index c).toNat < t.mapPixels.length := by
    have := ht.size_eq
    omega
  simp [pixel, value, not_lt.mpr h0, hlt]

/-- The values around a cell. -/
def values (t : CTerrain) (x y : ℤ) : Square ℚ :=
  ⟨t.value (x,y),t.value (x+1,y),t.value (x,y+1),t.value (x+1,y+1)⟩

/-- The cell with a lower left corner is in the map. -/
def IsCell (t : CTerrain) (x y : ℤ) : Prop :=
  (0 ≤ x ∧ x+1 < t.width) ∧ 0 ≤ y ∧ y+1 < t.height

theorem square_eq (ht : t.Loaded) (hcell : t.IsCell x y) : t.square x y = .ok (t.values x y) := by
  obtain ⟨hx,hy⟩ := hcell
  have hread : ∀ c : ℤ × ℤ, (0 ≤ c.1 ∧ c.1 < t.width) ∧ 0 ≤ c.2 ∧ c.2 < t.height →
      t.pixel (t.index c) = .ok (t.value c) :=
    fun c hc => pixel_eq ht ((placed_iff ht.width_pos).mpr hc)
  simp only [square, values]
  rw [hread (x,y) (by dsimp only; omega), hread (x+1,y) (by dsimp only; omega),
    hread (x,y+1) (by dsimp only; omega), hread (x+1,y+1) (by dsimp only; omega)]
  rfl

/-- A row has a rising diagonal when its number is odd. -/
theorem triangle_eq (ht : t.Loaded) (hcell : t.IsCell x y) :
    t.triangle upper x y p q = .ok ((t.values x y).height (y.tmod 2 ≠ 0) upper p q) := by
  rw [triangle, square_eq ht hcell, ← blend_complete]
  rfl

theorem cell_boundary (ht : t.Loaded) (hcell : t.IsCell x y) (hp : 0 ≤ p ∧ p ≤ 1)
    (hq : 0 ≤ q ∧ q ≤ 1) (hedge : p = 0 ∨ p = 1 ∨ q = 0 ∨ q = 1) :
    t.cell x y p q = .ok ((t.values x y).bilinear p q) := by
  rw [cell, triangle_eq ht hcell, height_boundary (inside_isUpper hp hq) hedge]

/-- Where the two triangles of a cell meet. -/
def diagonal (y : ℤ) (p : ℚ) : ℚ := if y.tmod 2 ≠ 0 then p else 1-p

theorem inside_diagonal (hp : 0 ≤ p ∧ p ≤ 1) (upper : Bool) :
    Inside (decide (y.tmod 2 ≠ 0)) upper p (diagonal y p) := by
  by_cases hodd : y.tmod 2 ≠ 0
  · simp only [diagonal, if_pos hodd, decide_eq_true hodd]
    refine ⟨hp.1,hp.2,hp.1,hp.2,?_⟩
    cases upper <;> exact le_rfl
  · simp only [diagonal, if_neg hodd, decide_eq_false hodd]
    refine ⟨hp.1,hp.2,by linarith,by linarith,?_⟩
    cases upper with
    | true =>
      change 1 ≤ p+(1-p)
      linarith
    | false =>
      change p+(1-p) ≤ 1
      linarith

theorem triangle_diagonal (ht : t.Loaded) (hcell : t.IsCell x y) (hp : 0 ≤ p ∧ p ≤ 1) :
    t.triangle true x y p (diagonal y p) = t.triangle false x y p (diagonal y p) := by
  rw [triangle_eq ht hcell, triangle_eq ht hcell,
    height_diagonal (inside_diagonal hp true) (inside_diagonal hp false)]

theorem cell_right (ht : t.Loaded) (hcell : t.IsCell x y) (hnext : t.IsCell (x+1) y)
    (hq : 0 ≤ q ∧ q ≤ 1) : t.cell x y 1 q = t.cell (x+1) y 0 q := by
  rw [cell_boundary ht hcell ⟨zero_le_one,le_rfl⟩ hq (by simp),
    cell_boundary ht hnext ⟨le_rfl,zero_le_one⟩ hq (by simp)]
  simp [Square.bilinear, values]

/-- The diagonals of the two rows differ. -/
theorem cell_above (ht : t.Loaded) (hcell : t.IsCell x y) (hnext : t.IsCell x (y+1))
    (hp : 0 ≤ p ∧ p ≤ 1) : t.cell x y p 1 = t.cell x (y+1) p 0 := by
  rw [cell_boundary ht hcell hp ⟨zero_le_one,le_rfl⟩ (by simp),
    cell_boundary ht hnext hp ⟨le_rfl,zero_le_one⟩ (by simp)]
  simp [Square.bilinear, values]

/-- A triangle has three of the corners of its cell. -/
theorem corners_values (t : CTerrain) (x y : ℤ) (right2Left upper : Bool) :
    ∃ a b c, [a,b,c].Sublist (corners x y) ∧
      (t.values x y).corners right2Left upper = (t.value a,t.value b,t.value c) := by
  cases right2Left with
  | true =>
    cases upper with
    | true => exact ⟨(x,y),(x,y+1),(x+1,y+1),by simp [corners],rfl⟩
    | false => exact ⟨(x,y),(x+1,y),(x+1,y+1),by simp [corners],rfl⟩
  | false =>
    cases upper with
    | true => exact ⟨(x+1,y),(x,y+1),(x+1,y+1),by simp [corners],rfl⟩
    | false => exact ⟨(x,y),(x+1,y),(x,y+1),by simp [corners],rfl⟩

theorem cell_spec (ht : t.Loaded) (hcell : t.IsCell x y) (hp : 0 ≤ p ∧ p ≤ 1)
    (hq : 0 ≤ q ∧ q ≤ 1) :
    ∃ h a b c, t.cell x y p q = .ok h ∧ [a,b,c].Sublist (corners x y) ∧
      Mix (t.value a) (t.value b) (t.value c) h ∧ (p = 0 → q = 0 → h = t.value (x,y)) := by
  have hinside : Inside (decide (y.tmod 2 ≠ 0)) (isUpper (decide (y.tmod 2 ≠ 0)) p q) p q :=
    inside_isUpper hp hq
  obtain ⟨a,b,c,hthree,hcorners⟩ := corners_values t x y _ _
  have hmix := height_mix (s := t.values x y) hinside
  rw [hcorners] at hmix
  refine ⟨_,a,b,c,triangle_eq ht hcell,hthree,hmix,?_⟩
  rintro rfl rfl
  rw [height_boundary hinside (by simp)]
  simp [Square.bilinear, values]

theorem getHeight_spec (ht : t.Loaded) (hx : 0 ≤ fx ∧ fx < t.width-1)
    (hy : 0 ≤ fy ∧ fy < t.height-1) :
    ∃ h a b c, t.getHeight fx fy = .ok h ∧ [a,b,c].Sublist (corners ⌊fx⌋ ⌊fy⌋) ∧
      Mix (t.value a) (t.value b) (t.value c) h ∧
      (fx = ⌊fx⌋ → fy = ⌊fy⌋ → h = t.value (⌊fx⌋,⌊fy⌋)) := by
  have hcell : t.IsCell ⌊fx⌋ ⌊fy⌋ :=
    ⟨⟨Int.floor_nonneg.mpr hx.1,floor_add_one_lt_iff.mpr hx.2⟩,
      Int.floor_nonneg.mpr hy.1,floor_add_one_lt_iff.mpr hy.2⟩
  obtain ⟨h,a,b,c,heq,hthree,hmix,hcorner⟩ := cell_spec ht hcell
    (p := fx-⌊fx⌋) ⟨Int.fract_nonneg fx,(Int.fract_lt_one fx).le⟩
    (q := fy-⌊fy⌋) ⟨Int.fract_nonneg fy,(Int.fract_lt_one fy).le⟩
  refine ⟨h,a,b,c,?_,hthree,hmix,fun hx0 hy0 => ?_⟩
  · rw [getHeight_eq ht ⟨hx.1,by linarith⟩ ⟨hy.1,by linarith⟩, heq]
  · exact hcorner (sub_eq_zero.mpr hx0) (sub_eq_zero.mpr hy0)

/-- Inside the map GetHeight is a convex combination of three pixels around the point, and the pixel
at a pixel; the formulas of its branches agree where their triangles meet. -/
theorem getHeight_seamless (ht : t.Loaded) :
    (∀ fx fy : ℚ, 0 ≤ fx ∧ fx < t.width-1 → 0 ≤ fy ∧ fy < t.height-1 →
      ∃ h a b c, t.getHeight fx fy = .ok h ∧ [a,b,c].Sublist (corners ⌊fx⌋ ⌊fy⌋) ∧
        Mix (t.value a) (t.value b) (t.value c) h ∧
        min (t.value a) (min (t.value b) (t.value c)) ≤ h ∧
        h ≤ max (t.value a) (max (t.value b) (t.value c)) ∧
        (fx = ⌊fx⌋ → fy = ⌊fy⌋ → h = t.value (⌊fx⌋,⌊fy⌋))) ∧
    (∀ x y (p : ℚ), t.IsCell x y → 0 ≤ p ∧ p ≤ 1 →
      t.triangle true x y p (diagonal y p) = t.triangle false x y p (diagonal y p)) ∧
    (∀ x y (q : ℚ), t.IsCell x y → t.IsCell (x+1) y → 0 ≤ q ∧ q ≤ 1 →
      t.cell x y 1 q = t.cell (x+1) y 0 q) ∧
    ∀ x y (p : ℚ), t.IsCell x y → t.IsCell x (y+1) → 0 ≤ p ∧ p ≤ 1 →
      t.cell x y p 1 = t.cell x (y+1) p 0 := by
  refine ⟨fun fx fy hx hy => ?_,fun x y p hcell hp => triangle_diagonal ht hcell hp,
    fun x y q hcell hnext hq => cell_right ht hcell hnext hq,
    fun x y p hcell hnext hp => cell_above ht hcell hnext hp⟩
  obtain ⟨h,a,b,c,heq,hthree,hmix,hcorner⟩ := getHeight_spec ht hx hy
  exact ⟨h,a,b,c,heq,hthree,hmix,hmix.min_le,hmix.le_max,hcorner⟩

/-- A map that rises from its first pixel to the second. -/
def slope : CTerrain := (loadMap (some [10,0,20,0]) (fun _ => 0) ⟨0,0,[]⟩).2

theorem slope_loaded : slope.Loaded := loaded_loadMap _ _ _

theorem slope_values : slope.values 0 0 = ⟨10,20,0,0⟩ := by
  simp [values, value, index, slope, loadMap, pixelLength]

theorem slope_corner (hc : c ∈ corners 0 0) : 0 ≤ slope.value c ∧ slope.value c ≤ 20 := by
  have hleft : slope.value (0,0) = 10 := congrArg Square.bottomLeft slope_values
  have hright : slope.value (0+1,0) = 20 := congrArg Square.bottomRight slope_values
  have habove : slope.value (0,0+1) = 0 := congrArg Square.topLeft slope_values
  have hacross : slope.value (0+1,0+1) = 0 := congrArg Square.topRight slope_values
  simp only [corners, List.mem_cons, List.not_mem_nil, or_false] at hc
  rcases hc with rfl | rfl | rfl | rfl
  · rw [hleft]
    norm_num
  · rw [hright]
    norm_num
  · rw [habove]
    norm_num
  · rw [hacross]
    norm_num

/-- Between its first pixels, and at the right edge of their cell. -/
theorem slope_getHeight : (∃ h : ℚ, slope.getHeight (1/2) (1/4) = .ok h ∧ 0 ≤ h ∧ h ≤ 20) ∧
    slope.cell 0 0 1 (1/4 : ℚ) = slope.cell 1 0 0 (1/4) := by
  have hwidth : slope.width = 1531 := rfl
  have hheight : slope.height = 1531 := rfl
  have hseamless := getHeight_seamless slope_loaded
  constructor
  · obtain ⟨h,a,b,c,heq,hthree,-,hmin,hmax,-⟩ := hseamless.1 (1/2) (1/4)
      (by rw [hwidth]; norm_num) (by rw [hheight]; norm_num)
    rw [show ⌊(1/2 : ℚ)⌋ = 0 by norm_num, show ⌊(1/4 : ℚ)⌋ = 0 by norm_num] at hthree
    have hbound : ∀ d ∈ [a,b,c], 0 ≤ slope.value d ∧ slope.value d ≤ 20 := fun d hd =>
      slope_corner (hthree.subset hd)
    have ha := hbound a (by simp)
    have hb := hbound b (by simp)
    have hc := hbound c (by simp)
    exact ⟨h,heq,(le_min ha.1 (le_min hb.1 hc.1)).trans hmin,
      hmax.trans (max_le ha.2 (max_le hb.2 hc.2))⟩
  · refine hseamless.2.2.1 0 0 (1/4) ⟨⟨le_rfl,?_⟩,le_rfl,?_⟩ ⟨⟨zero_le_one,?_⟩,le_rfl,?_⟩
      ⟨by norm_num,by norm_num⟩
    · rw [hwidth]
      norm_num
    · rw [hheight]
      norm_num
    · rw [hwidth]
      norm_num
    · rw [hheight]
      norm_num

end CTerrain
end LastHero
