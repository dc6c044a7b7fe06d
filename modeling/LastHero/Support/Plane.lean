import LastHero.Support.Runs
import Mathlib.Analysis.Complex.Norm
import Mathlib.Analysis.Real.Sqrt

/-! Distances of points with rational coordinates, and how far a run of short steps can lead. -/
namespace Plane
variable {σ α : Type*} {step : σ → α → Option σ} {f : σ → Option (ℚ × ℚ)} {s t u : σ}
  {d e : ℚ} {p q r : ℚ × ℚ} {as : List α}

/-- The distance of two points of the plane. -/
noncomputable def dist (p q : ℚ × ℚ) : ℝ := √(((p.1-q.1)^2+(p.2-q.2)^2 : ℚ) : ℝ)

theorem dist_lt_iff (hd : 0 < d) : dist p q < d ↔ (p.1-q.1)^2+(p.2-q.2)^2 < d^2 := by
  simp only [dist]
  rw [Real.sqrt_lt' (by exact_mod_cast hd)]
  norm_cast

theorem dist_le_add (p q r : ℚ × ℚ) : dist p r ≤ dist p q + dist q r := by
  -- it is the distance in the complex plane
  have hcomplex : ∀ p q : ℚ × ℚ, dist p q = Dist.dist (⟨p.1,p.2⟩ : ℂ) ⟨q.1,q.2⟩ := by
    intro p q
    rw [Complex.dist_eq_re_im]
    simp only [dist]
    push_cast
    rfl
  rw [hcomplex, hcomplex, hcomplex]
  exact dist_triangle _ _ _

/-- Both states have a point, and these are near each other. -/
def Near (f : σ → Option (ℚ × ℚ)) (d : ℚ) (s t : σ) : Prop :=
  ∃ p q, f s = some p ∧ f t = some q ∧ dist p q < d

theorem Near.trans (h : Near f d s t) (h' : Near f e t u) : Near f (d+e) s u := by
  obtain ⟨p,q,hp,hq,hpq⟩ := h
  obtain ⟨q',r,hq',hr,hqr⟩ := h'
  obtain rfl : q = q' := Option.some.inj (hq.symm.trans hq')
  refine ⟨p,r,hp,hr,(dist_le_add p q r).trans_lt ?_⟩
  push_cast
  exact add_lt_add hpq hqr

/-- A run does not lead further than its steps together. -/
theorem near_run (h : Runs.Along step (fun s a => ∀ t, step s a = some t → Near f d s t) s as)
    (hne : as ≠ []) (hrun : Runs.run step s as = some t) : Near f (as.length*d) s t := by
  induction as generalizing s with
  | nil => exact absurd rfl hne
  | cons a as ih =>
    obtain ⟨u,hu,hrun⟩ := Runs.run_cons_eq_some.mp hrun
    obtain ⟨hone,hrest⟩ := h u hu
    have hfirst : Near f d s u := hone u hu
    by_cases hlast : as = []
    · subst hlast
      cases hrun
      simpa using hfirst
    · have hall := hfirst.trans (ih hrest hlast hrun)
      rw [List.length_cons]
      push_cast
      rw [add_mul, one_mul, add_comm]
      exact hall

end Plane
