import Mathlib.Data.Nat.Notation
import Mathlib.Logic.Basic

/-! Runs of a partial labelled step function. The labels carry every choice the
environment makes, so a run is a list of labels and execution is a function. -/
namespace Runs
variable {σ α : Type*} (step : σ → α → Option σ)

/-- Execute the labels in order; `none` when one of the steps is disabled. -/
def run : σ → List α → Option σ
  | s, [] => some s
  | s, a::as => (step s a).bind fun t => run t as

/-- Every step that the run performs satisfies `Q` in the state it starts from. -/
def Along (Q : σ → α → Prop) : σ → List α → Prop
  | _, [] => True
  | s, a::as => ∀ t, step s a = some t → Q s a ∧ Along Q t as

/-- Every step that is tried satisfies `Q`, the one that is impossible and ends the run as well. -/
def Tried (Q : σ → α → Prop) : σ → List α → Prop
  | _, [] => True
  | s, a::as => Q s a ∧ ∀ t, step s a = some t → Tried Q t as

/-- Every state that the run visits, the first and the last included, satisfies `P`. -/
def Always (P : σ → Prop) : σ → List α → Prop
  | s, [] => P s
  | s, a::as => P s ∧ ∀ t, step s a = some t → Always P t as

/-- Some state that the run visits, the first and the last included, satisfies `P`. -/
def Visits (P : σ → Prop) : σ → List α → Prop
  | s, [] => P s
  | s, a::as => P s ∨ ∃ t, step s a = some t ∧ Visits P t as

variable {step} {P I : σ → Prop} {Q R : σ → α → Prop} {s t u : σ} {a : α} {as : List α}

theorem run_cons_eq_some :
    run step s (a::as) = some u ↔ ∃ t, step s a = some t ∧ run step t as = some u := by
  simp [run, Option.bind_eq_some_iff]

/-- A last step after a run. -/
theorem run_concat_eq_some :
    run step s (as ++ [a]) = some u ↔ ∃ t, run step s as = some t ∧ step t a = some u := by
  induction as generalizing s with
  | nil => simp [run]
  | cons b as ih =>
    rw [List.cons_append, run_cons_eq_some]
    simp only [ih, run_cons_eq_some]
    constructor
    · rintro ⟨v,hv,t,ht,hu⟩
      exact ⟨t,⟨v,hv,ht⟩,hu⟩
    · rintro ⟨t,⟨v,hv,ht⟩,hu⟩
      exact ⟨v,hv,t,ht,hu⟩

/-- The condition of a run can be tried out. -/
instance decidableAlong [∀ s a, Decidable (Q s a)] :
    ∀ s as, Decidable (Along step Q s as)
  | _, [] => isTrue trivial
  | s, a::as =>
    match h : step s a with
    | none => isTrue fun t ht => by rw [h] at ht; cases ht
    | some t =>
      have := decidableAlong t as
      decidable_of_iff (Q s a ∧ Along step Q t as)
        (by simp only [Along, h, Option.some.injEq, forall_eq'])

@[simp] theorem along_nil (s : σ) : Along step Q s [] := trivial

theorem along_cons (h : step s a = some t) :
    Along step Q s (a::as) ↔ Q s a ∧ Along step Q t as := by
  constructor
  · intro hq
    exact hq t h
  · intro hq u hu
    obtain rfl : t = u := Option.some.inj (h.symm.trans hu)
    exact hq

theorem Visits.head (h : P s) : Visits step P s as := by
  cases as with
  | nil => exact h
  | cons a as => exact Or.inl h

theorem Always.head (h : Always step P s as) : P s := by
  cases as with
  | nil => exact h
  | cons a as => exact h.1

theorem Always.last (h : Always step P s as) (hrun : run step s as = some t) : P t := by
  induction as generalizing s with
  | nil =>
    cases hrun
    exact h
  | cons a as ih =>
    obtain ⟨u,hu,hrun⟩ := run_cons_eq_some.mp hrun
    exact ih (h.2 u hu) hrun

theorem Always.imp {P' : σ → Prop} (h : Always step P s as) (himp : ∀ s, P s → P' s) :
    Always step P' s as := by
  induction as generalizing s with
  | nil => exact himp s h
  | cons a as ih => exact ⟨himp s h.1,fun t ht => ih (h.2 t ht)⟩

theorem Always.left {bs : List α} (h : Always step P s (as ++ bs)) : Always step P s as := by
  induction as generalizing s with
  | nil => exact h.head
  | cons a as ih => exact ⟨h.1,fun t ht => ih (h.2 t ht)⟩

/-- The rest of a run. -/
theorem Always.right {bs : List α} (h : Always step P s (as ++ bs)) (hrun : run step s as = some t) :
    Always step P t bs := by
  induction as generalizing s with
  | nil =>
    cases hrun
    exact h
  | cons a as ih =>
    obtain ⟨u,hu,hrun⟩ := run_cons_eq_some.mp hrun
    exact ih (h.2 u hu) hrun

/-- Conditions that agree on the steps from states of an invariant hold along the same runs, if the
steps that meet them keep the invariant. -/
theorem along_congr_while (hpres : ∀ s a t, I s → R s a → step s a = some t → I t)
    (hqr : ∀ s a t, I s → step s a = some t → (Q s a ↔ R s a)) (hs : I s) :
    Along step Q s as ↔ Along step R s as := by
  induction as generalizing s with
  | nil => rfl
  | cons a as ih =>
    refine forall₂_congr fun t ht => ?_
    rw [hqr s a t hs ht]
    exact and_congr_right fun hr => ih (hpres s a t hs hr ht)

/-- Every step keeps the invariant. -/
theorem along_congr_of (hpres : ∀ s a t, I s → step s a = some t → I t)
    (hqr : ∀ s a t, I s → step s a = some t → (Q s a ↔ R s a)) (hs : I s) :
    Along step Q s as ↔ Along step R s as :=
  along_congr_while (fun s a t hi _ => hpres s a t hi) hqr hs

/-- Conditions that agree on the steps that can be performed hold along the same runs. -/
theorem along_congr (hqr : ∀ s a t, step s a = some t → (Q s a ↔ R s a)) :
    Along step Q s as ↔ Along step R s as :=
  along_congr_of (I := fun _ => True) (fun _ _ _ _ _ => trivial) (fun s a t _ => hqr s a t) trivial

/-- The condition of the last step of a run. -/
theorem Along.last (h : Along step Q s (as ++ [a])) (hrun : run step s as = some t)
    (ht : step t a = some u) : Q t a := by
  induction as generalizing s with
  | nil =>
    cases hrun
    exact (h u ht).1
  | cons b as ih =>
    obtain ⟨v,hv,hrun⟩ := run_cons_eq_some.mp hrun
    exact ih (h v hv).2 hrun

/-- The invariant rule: what every admitted step preserves holds at the end of the run. -/
theorem invariant (hpres : ∀ s a t, I s → Q s a → step s a = some t → I t)
    (hs : I s) (hok : Along step Q s as) (hrun : run step s as = some t) : I t := by
  induction as generalizing s with
  | nil =>
    cases hrun
    exact hs
  | cons a as ih =>
    obtain ⟨u,hu,hrun⟩ := run_cons_eq_some.mp hrun
    obtain ⟨hq,hok⟩ := hok u hu
    exact ih (hpres s a u hs hq hu) hok hrun

/-- What every step from the states of an invariant satisfies. -/
theorem along_of_invariant (hpres : ∀ s a t, I s → step s a = some t → I t)
    (hq : ∀ s a t, I s → step s a = some t → Q s a) (hs : I s) : Along step Q s as := by
  induction as generalizing s with
  | nil => trivial
  | cons a as ih => exact fun t ht => ⟨hq s a t hs ht,ih (hpres s a t hs ht)⟩

/-- What every step of the list satisfies in any state. -/
theorem along_of_mem (h : ∀ s, ∀ a ∈ as, Q s a) : Along step Q s as := by
  induction as generalizing s with
  | nil => trivial
  | cons a as ih =>
    refine fun t _ => ⟨h s a (List.mem_cons_self ..),ih fun s b hb => ?_⟩
    exact h s b (List.mem_cons_of_mem a hb)

/-- A condition that keeps an invariant yields what the invariant makes of it. -/
theorem Tried.imp (h : Tried step Q s as) (hpres : ∀ s a t, I s → Q s a → step s a = some t → I t)
    (himp : ∀ s a, I s → Q s a → R s a) (hs : I s) : Tried step R s as := by
  induction as generalizing s with
  | nil => trivial
  | cons a as ih =>
    refine ⟨himp s a hs h.1,fun t ht => ?_⟩
    exact ih (h.2 t ht) (hpres s a t hs h.1 ht)

/-- What every step preserves holds in all states. -/
theorem always (hpres : ∀ s a t, P s → step s a = some t → P t) (hs : P s) :
    Always step P s as := by
  induction as generalizing s with
  | nil => exact hs
  | cons a as ih => exact ⟨hs,fun t ht => ih (hpres s a t hs ht)⟩

/-- The progress rule: the steps that count take the run one stage further, the admitted others do
not take it back, and none gets below the last stage without reaching the goal. -/
theorem visits_of_progress {goal : σ → Prop} {stage : ℕ → σ → Prop} {counts : α → Bool} {k : ℕ}
    (hlast : ∀ s, ¬ stage 0 s)
    (hcounts : ∀ k s a t, stage (k+1) s → counts a = true → Q s a → step s a = some t →
      goal t ∨ stage k t)
    (hother : ∀ k s a t, stage k s → counts a = false → Q s a → step s a = some t →
      goal t ∨ stage k t)
    (hs : stage k s) (hok : Along step Q s as) (hrun : run step s as = some t)
    (hk : k ≤ as.countP counts) : Visits step goal s as := by
  induction as generalizing s k with
  | nil =>
    obtain rfl : k = 0 := Nat.le_zero.mp hk
    exact absurd hs (hlast s)
  | cons a as ih =>
    obtain ⟨u,hu,hrun⟩ := run_cons_eq_some.mp hrun
    obtain ⟨hq,hok⟩ := hok u hu
    cases ha : counts a with
    | true =>
      obtain ⟨n,rfl⟩ : ∃ n, k = n+1 := Nat.exists_eq_succ_of_ne_zero fun h0 => hlast s (h0 ▸ hs)
      rw [List.countP_cons_of_pos ha] at hk
      rcases hcounts n s a u hs ha hq hu with hgoal | hstage
      · exact Or.inr ⟨u,hu,.head hgoal⟩
      · exact Or.inr ⟨u,hu,ih hstage hok hrun (Nat.le_of_succ_le_succ hk)⟩
    | false =>
      rw [List.countP_cons_of_neg (by simp [ha])] at hk
      rcases hother k s a u hs ha hq hu with hgoal | hstage
      · exact Or.inr ⟨u,hu,.head hgoal⟩
      · exact Or.inr ⟨u,hu,ih hstage hok hrun hk⟩

/-- Where a step keeps `P` exactly if it satisfies `Q`, the runs that stay in `P` are the runs
whose steps all satisfy `Q`. -/
theorem always_iff_along (hpres : ∀ s a t, I s → P s → Q s a → step s a = some t → I t)
    (hstep : ∀ s a t, I s → P s → step s a = some t → (P t ↔ Q s a))
    (hs : I s) (hp : P s) : Always step P s as ↔ Along step Q s as := by
  induction as generalizing s with
  | nil => simpa [Always] using hp
  | cons a as ih =>
    constructor
    · intro h t ht
      have hpt : P t := (h.2 t ht).head
      have hq : Q s a := (hstep s a t hs hp ht).mp hpt
      exact ⟨hq,(ih (hpres s a t hs hp hq ht) hpt).mp (h.2 t ht)⟩
    · intro h
      refine ⟨hp,fun t ht => ?_⟩
      obtain ⟨hq,hrest⟩ := h t ht
      have hpt : P t := (hstep s a t hs hp ht).mpr hq
      exact (ih (hpres s a t hs hp hq ht) hpt).mpr hrest

/-- A run whose steps all satisfy `Q` ends in `P`, and in the invariant. -/
theorem reached (hpres : ∀ s a t, I s → P s → Q s a → step s a = some t → I t)
    (hstep : ∀ s a t, I s → P s → step s a = some t → (P t ↔ Q s a))
    (hs : I s) (hp : P s) (hok : Along step Q s as) (hrun : run step s as = some t) :
    I t ∧ P t := by
  refine invariant (I := fun s => I s ∧ P s) ?_ ⟨hs,hp⟩ hok hrun
  intro s a t hi hq ht
  exact ⟨hpres s a t hi.1 hi.2 hq ht,(hstep s a t hi.1 hi.2 ht).mpr hq⟩

end Runs
