import Mathlib.Order.Lattice
import Mathlib.Data.List.Basic

/-! A scan over a list that keeps the first element of least cost. -/
namespace FirstMin
variable {α β : Type*} [LinearOrder β] {f : α → β} {c x : α} {l : List α}

/-- One comparison of the scan. -/
def cheaper (f : α → β) (c x : α) : α := if f x < f c then x else c

/-- The scan, which starts with the candidate `c`. -/
def scan (f : α → β) (c : α) (l : List α) : α := l.foldl (cheaper f) c

theorem cheaper_le (f : α → β) (c x : α) : f (cheaper f c x) ≤ f c ∧ f (cheaper f c x) ≤ f x := by
  simp only [cheaper]
  split_ifs with h
  · exact ⟨h.le,le_rfl⟩
  · exact ⟨le_rfl,not_lt.mp h⟩

theorem scan_le_start (f : α → β) (c : α) (l : List α) : f (scan f c l) ≤ f c := by
  induction l generalizing c with
  | nil => exact le_rfl
  | cons y l ih => exact (ih _).trans (cheaper_le f c y).1

theorem scan_le (hx : x ∈ l) : f (scan f c l) ≤ f x := by
  induction l generalizing c with
  | nil => cases hx
  | cons y l ih =>
    cases List.mem_cons.mp hx with
    | inl hy =>
      subst hy
      exact (scan_le_start f _ l).trans (cheaper_le f c x).2
    | inr hx => exact ih hx

theorem scan_eq_or_mem (f : α → β) (c : α) (l : List α) : scan f c l = c ∨ scan f c l ∈ l := by
  induction l generalizing c with
  | nil => exact Or.inl rfl
  | cons y l ih =>
    have hstart : cheaper f c y = c ∨ cheaper f c y = y := by
      simp only [cheaper]
      split_ifs
      · exact Or.inr rfl
      · exact Or.inl rfl
    change scan f (cheaper f c y) l = c ∨ scan f (cheaper f c y) l ∈ y::l
    cases ih (cheaper f c y) with
    | inl h =>
      rw [h]
      refine hstart.imp id fun hy => ?_
      rw [hy]
      exact List.mem_cons_self
    | inr h => exact Or.inr (List.mem_cons_of_mem y h)

/-- The scan leaves its candidate for something cheaper only. -/
theorem scan_eq_or_lt (f : α → β) (c : α) (l : List α) : scan f c l = c ∨ f (scan f c l) < f c := by
  induction l generalizing c with
  | nil => exact Or.inl rfl
  | cons y l ih =>
    change scan f (cheaper f c y) l = c ∨ f (scan f (cheaper f c y) l) < f c
    by_cases h : f y < f c
    · have hstart : cheaper f c y = y := if_pos h
      rw [hstart]
      exact Or.inr ((scan_le_start f y l).trans_lt h)
    · have hstart : cheaper f c y = c := if_neg h
      rw [hstart]
      exact ih c

/-- A strict minimum is found, wherever it stands. -/
theorem scan_eq (hc : c ∈ l) (hx : x ∈ l) (h : ∀ y ∈ l, y ≠ x → f x < f y) : scan f c l = x := by
  by_contra hne
  have hmem : scan f c l ∈ l := by
    cases scan_eq_or_mem f c l with
    | inl heq => rwa [heq]
    | inr hmem => exact hmem
  exact absurd (scan_le hx) (not_le.mpr (h _ hmem hne))

/-- Of several minima the scan finds the one that stands first. -/
theorem scan_lt [LinearOrder α] (hl : l.Pairwise (· < ·)) (hc : ∀ y ∈ l, c ≤ y) (hx : x ∈ l)
    (hlt : x < scan f c l) : f (scan f c l) < f x := by
  induction l generalizing c with
  | nil => cases hx
  | cons y l ih =>
    rw [List.pairwise_cons] at hl
    change x < scan f (cheaper f c y) l at hlt
    change f (scan f (cheaper f c y) l) < f x
    have hstart : ∀ z ∈ l, cheaper f c y ≤ z := by
      intro z hz
      simp only [cheaper]
      split_ifs
      · exact (hl.1 z hz).le
      · exact (hc y List.mem_cons_self).trans (hl.1 z hz).le
    cases List.mem_cons.mp hx with
    | inr hx => exact ih hl.2 hstart hx hlt
    | inl hxy =>
      subst hxy
      have hle : cheaper f c x ≤ x := by
        simp only [cheaper]
        split_ifs
        · exact le_rfl
        · exact hc x List.mem_cons_self
      cases scan_eq_or_lt f (cheaper f c x) l with
      | inl hsame =>
        rw [hsame] at hlt
        exact absurd hlt (not_lt.mpr hle)
      | inr hdrop => exact hdrop.trans_le (cheaper_le f c x).2

end FirstMin
