import Mathlib.Data.List.Induction
import Mathlib.Data.List.Nodup

/-! Loops over keys: what every iteration keeps, the loop keeps, and what is observed of a key
depends only on the iteration of that key when no other iteration touches it. -/
namespace KeyedFold
variable {σ κ β : Type*} {step : σ → κ → σ} {obs : σ → κ → β} {l : List κ} {j : κ}

/-- A preorder that relates the states around every iteration relates those around the loop. -/
theorem foldl_related {R : σ → σ → Prop} (hrefl : ∀ s, R s s)
    (htrans : ∀ {s t u}, R s t → R t u → R s u) (hstep : ∀ s i, R s (step s i)) (l : List κ)
    (s : σ) : R s (l.foldl step s) := by
  induction l generalizing s with
  | nil => exact hrefl s
  | cons i l ih => exact htrans (hstep s i) (ih _)

/-- What holds of the keys done so far, each key that is new keeping it. -/
theorem foldl_prefixes {P : List κ → σ → Prop} {s : σ} (hl : l.Nodup) (hnil : P [] s)
    (hstep : ∀ l' i t, i ∉ l' → P l' t → P (l' ++ [i]) (step t i)) : P l (l.foldl step s) := by
  induction l using List.reverseRecOn with
  | nil => exact hnil
  | append_singleton l i ih =>
    obtain ⟨hl,-,hdisjoint⟩ := List.nodup_append.mp hl
    have hi : i ∉ l := fun hmem => hdisjoint i hmem i (List.mem_singleton_self i) rfl
    rw [List.foldl_append]
    exact hstep l i _ hi (ih hl)

/-- An update that changes nothing the second time comes to every key of the list once. -/
theorem foldl_update [DecidableEq κ] {f : β → β} (hf : ∀ b, f (f b) = f b) (l : List κ)
    (v : κ → β) : l.foldl (fun v i => Function.update v i (f (v i))) v =
      fun i => if i ∈ l then f (v i) else v i := by
  induction l generalizing v with
  | nil => simp
  | cons i l ih =>
    rw [List.foldl_cons, ih]
    funext j
    by_cases hj : j = i
    · subst hj
      simp [hf]
    · simp [hj]

/-- Iterations leave what is observed of the other keys. -/
def Local (step : σ → κ → σ) (obs : σ → κ → β) : Prop :=
  ∀ s i j, i ≠ j → obs (step s i) j = obs s j

theorem Local.foldl_of_notMem (h : Local step obs) (hj : j ∉ l) (s : σ) :
    obs (l.foldl step s) j = obs s j := by
  induction l generalizing s with
  | nil => rfl
  | cons i l ih =>
    rw [List.mem_cons, not_or] at hj
    rw [List.foldl_cons, ih hj.2, h s i j (Ne.symm hj.1)]

/-- The iteration of a key is the only one that it sees. -/
theorem Local.foldl_of_mem (h : Local step obs) {R : β → β → Prop}
    (hown : ∀ s, R (obs s j) (obs (step s j) j)) (hl : l.Nodup) (hj : j ∈ l) (s : σ) :
    R (obs s j) (obs (l.foldl step s) j) := by
  induction l generalizing s with
  | nil => cases hj
  | cons i l ih =>
    rw [List.nodup_cons] at hl
    rw [List.foldl_cons]
    by_cases hji : j = i
    · subst hji
      rw [h.foldl_of_notMem hl.1]
      exact hown s
    · rw [← h s i j (Ne.symm hji)]
      exact ih hl.2 ((List.mem_cons.mp hj).resolve_left hji) (step s i)

end KeyedFold
