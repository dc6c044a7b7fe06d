import Mathlib.Tactic

/-! Cells of an infinite board and the moves of a king. A straight move costs `s`, a diagonal one
`d`, and `s` times the Manhattan distance estimates what is left. As `d` is between `s` and `2*s`
the estimate is too high, yet the move straight towards the end is the best of the eight. -/
namespace KingMoves

abbrev Cell := ℤ × ℤ

/-- Moves that a king needs. -/
def kingDist (p q : Cell) : ℕ := max (p.1-q.1).natAbs (p.2-q.2).natAbs

def manhattan (p q : Cell) : ℕ := (p.1-q.1).natAbs + (p.2-q.2).natAbs

def Adjacent (p q : Cell) : Prop := kingDist p q = 1

instance (p q : Cell) : Decidable (Adjacent p q) := inferInstanceAs (Decidable (_ = _))

/-- One unit from `a` towards `b`. -/
def toward (a b : ℤ) : ℤ := if a < b then a+1 else if b < a then a-1 else a

/-- The move towards `e`. -/
def step (p e : Cell) : Cell := (toward p.1 e.1,toward p.2 e.2)

/-- The cell after `n` moves towards `e`. -/
def walk (p e : Cell) (n : ℕ) : Cell := (fun q => step q e)^[n] p

/-- The cost of a move. -/
def moveCost (s d : ℤ) (p q : Cell) : ℤ := if p.1 = q.1 ∨ p.2 = q.2 then s else d

/-- The cost of a move and the estimate of the rest. -/
def estimate (s d : ℤ) (p q e : Cell) : ℤ := moveCost s d p q + s*manhattan q e

variable {p q e : Cell} {s d : ℤ}

theorem kingDist_eq_zero : kingDist p q = 0 ↔ p = q := by
  rw [Prod.ext_iff]
  simp only [kingDist]
  omega

theorem kingDist_step (h : p ≠ e) : kingDist (step p e) e + 1 = kingDist p e := by
  rw [Ne, Prod.ext_iff] at h
  simp only [kingDist, step, toward]
  split_ifs <;> omega

theorem adjacent_step (h : p ≠ e) : Adjacent p (step p e) := by
  rw [Ne, Prod.ext_iff] at h
  simp only [Adjacent, kingDist, step, toward]
  split_ifs <;> omega

theorem walk_succ (p e : Cell) (n : ℕ) : walk p e (n+1) = step (walk p e n) e :=
  Function.iterate_succ_apply' ..

theorem kingDist_walk {n : ℕ} (h : n ≤ kingDist p e) : kingDist (walk p e n) e + n = kingDist p e := by
  induction n with
  | zero => rfl
  | succ n ih =>
    have hn := ih (by omega)
    have hne : walk p e n ≠ e := fun heq => by
      rw [kingDist_eq_zero.mpr heq] at hn
      omega
    have hstep := kingDist_step hne
    rw [walk_succ]
    omega

/-- A walk stays in every box around its ends. -/
theorem walk_mem_Icc {a b : Cell} (hp : p ∈ Set.Icc a b) (he : e ∈ Set.Icc a b) (n : ℕ) :
    walk p e n ∈ Set.Icc a b := by
  induction n with
  | zero => exact hp
  | succ n ih =>
    rw [walk_succ]
    simp only [Set.mem_Icc, Prod.le_def] at he ih ⊢
    simp only [step, toward]
    split_ifs <;> omega

theorem adjacent_walk {n : ℕ} (h : n < kingDist p e) : Adjacent (walk p e n) (walk p e (n+1)) := by
  have hn := kingDist_walk h.le
  rw [walk_succ]
  refine adjacent_step fun heq => ?_
  rw [kingDist_eq_zero.mpr heq] at hn
  omega

theorem adjacent_iff : Adjacent p q ↔ ∃ a b : ℤ, q = (p.1+a,p.2+b) ∧ (a,b) ≠ (0,0) ∧
    -1 ≤ a ∧ a ≤ 1 ∧ -1 ≤ b ∧ b ≤ 1 := by
  simp only [Adjacent, kingDist]
  constructor
  · intro h
    refine ⟨q.1-p.1,q.2-p.2,by ext <;> simp,?_,by omega,by omega,by omega,by omega⟩
    rw [Ne, Prod.mk.injEq]
    omega
  · rintro ⟨a,b,rfl,hne,ha,ha',hb,hb'⟩
    rw [Ne, Prod.mk.injEq] at hne
    dsimp only
    omega

theorem natAbs_toward (a b : ℤ) :
    ((toward a b - b).natAbs : ℤ) = (a-b).natAbs - if a = b then 0 else 1 := by
  simp only [toward]
  split_ifs <;> omega

theorem manhattan_step (p e : Cell) : (manhattan (step p e) e : ℤ) =
    manhattan p e - (if p.1 = e.1 then 0 else 1) - if p.2 = e.2 then 0 else 1 := by
  simp only [manhattan, step]
  rw [Nat.cast_add, Nat.cast_add, natAbs_toward, natAbs_toward]
  ring

/-- What the move towards the end changes. -/
theorem estimate_step (h : p ≠ e) : estimate s d p (step p e) e =
    s*manhattan p e + if p.1 = e.1 ∨ p.2 = e.2 then 0 else d-2*s := by
  have hstay : ∀ a b : ℤ, a = toward a b ↔ a = b := by
    intro a b
    simp only [toward]
    split_ifs <;> omega
  have hcost : moveCost s d p (step p e) = if p.1 = e.1 ∨ p.2 = e.2 then s else d := by
    simp only [moveCost, step]
    simp only [hstay]
  rw [Ne, Prod.ext_iff] at h
  simp only [estimate]
  rw [manhattan_step, hcost]
  by_cases hx : p.1 = e.1
  · have hy : p.2 ≠ e.2 := fun hy => h ⟨hx,hy⟩
    rw [if_pos (Or.inl hx), if_pos hx, if_neg hy, if_pos (Or.inl hx)]
    ring
  · by_cases hy : p.2 = e.2
    · rw [if_pos (Or.inr hy), if_neg hx, if_pos hy, if_pos (Or.inr hy)]
      ring
    · rw [if_neg (not_or.mpr ⟨hx,hy⟩), if_neg hx, if_neg hy, if_neg (not_or.mpr ⟨hx,hy⟩)]
      ring

/-- What a move changes on one axis. -/
theorem axis_cases {a : ℤ} (x y : ℤ) (ha : -1 ≤ a) (ha' : a ≤ 1) : ∃ u : ℤ,
    ((x+a-y).natAbs : ℤ) = (x-y).natAbs + u ∧
      (a = 0 ∧ u = 0 ∨ a ≠ 0 ∧ u = 1 ∨ a ≠ 0 ∧ u = -1 ∧ x+a = toward x y ∧ x ≠ y) := by
  refine ⟨(x+a-y).natAbs-(x-y).natAbs,by ring,?_⟩
  simp only [toward]
  split_ifs <;> omega

/-- No other move is as good. -/
theorem estimate_lt (hs : s < d) (hd : d < 2*s) (hq : Adjacent p q) (hne : q ≠ step p e) :
    s*manhattan p e + (if p.1 = e.1 ∨ p.2 = e.2 then 1 else 0) ≤ estimate s d p q e := by
  obtain ⟨a,b,rfl,hmove,ha,ha',hb,hb'⟩ := adjacent_iff.mp hq
  obtain ⟨u,hu,hcase⟩ := axis_cases p.1 e.1 ha ha'
  obtain ⟨v,hv,hcase'⟩ := axis_cases p.2 e.2 hb hb'
  have hman : (manhattan (p.1+a,p.2+b) e : ℤ) = manhattan p e + u + v := by
    simp only [manhattan]
    rw [Nat.cast_add, Nat.cast_add, hu, hv]
    ring
  have hstep : ¬ (p.1+a = toward p.1 e.1 ∧ p.2+b = toward p.2 e.2) := fun h => hne (Prod.ext h.1 h.2)
  have hstay : ∀ x y : ℤ, x = y → toward x y = x := by
    rintro x _ rfl
    simp [toward]
  rw [Ne, Prod.mk.injEq] at hmove
  simp only [estimate, moveCost]
  rw [hman, mul_add, mul_add]
  simp only [left_eq_add]
  have hx := hstay p.1 e.1
  have hy := hstay p.2 e.2
  rcases hcase with ⟨ha,rfl⟩ | ⟨ha,rfl⟩ | ⟨ha,rfl,hta,hxe⟩
  · rw [if_pos (Or.inl ha)]
    rcases hcase' with ⟨hb,rfl⟩ | ⟨hb,rfl⟩ | ⟨hb,rfl,htb,hye⟩
    · exact absurd ⟨ha,hb⟩ hmove
    · split_ifs <;> omega
    · -- the other axis is done, or this were the move towards the end
      have hxe : p.1 ≠ e.1 := fun hxe => hstep ⟨by rw [ha, hx hxe, add_zero],htb⟩
      rw [if_neg (not_or.mpr ⟨hxe,hye⟩)]
      omega
  · rcases hcase' with ⟨hb,rfl⟩ | ⟨hb,rfl⟩ | ⟨hb,rfl,htb,hye⟩ <;> split_ifs <;> omega
  · rcases hcase' with ⟨hb,rfl⟩ | ⟨hb,rfl⟩ | ⟨hb,rfl,htb,hye⟩
    · have hye : p.2 ≠ e.2 := fun hye => hstep ⟨hta,by rw [hb, hy hye, add_zero]⟩
      rw [if_pos (Or.inr hb), if_neg (not_or.mpr ⟨hxe,hye⟩)]
      omega
    · rw [if_neg (not_or.mpr ⟨ha,hb⟩)]
      split_ifs <;> omega
    · exact absurd ⟨hta,htb⟩ hstep

end KingMoves
