import Mathlib.Data.Nat.Notation

/-! While loops whose body can fail, executed with fuel. Running out of fuel is kept apart
from both outcomes, so termination is a statement that has to be proved. -/
namespace WhileLoop
variable {σ ε : Type*} (cond : σ → Bool) (body : σ → Except ε σ)

/-- At most `fuel` iterations; `none` when the condition still holds after them. -/
def loop : ℕ → σ → Option (Except ε σ)
  | 0, s => if cond s then none else some (.ok s)
  | n+1, s =>
    if cond s then
      match body s with
      | .error e => some (.error e)
      | .ok t => loop n t
    else some (.ok s)

/-- The states in which the loop condition is tested. -/
inductive Visits (s : σ) : σ → Prop
  | start : Visits s s
  | next {t u} (seen : Visits s t) (enter : cond t = true) (done : body t = .ok u) : Visits s u

variable {cond body} {s t u : σ} {e : ε} {n m : ℕ}

theorem loop_done (h : cond s = false) : loop cond body n s = some (.ok s) := by
  cases n <;> simp [loop, h]

theorem loop_next (h : cond s = true) (hb : body s = .ok t) :
    loop cond body (n+1) s = loop cond body n t := by
  simp [loop, h, hb]

theorem Visits.trans (hst : Visits cond body s t) (htu : Visits cond body t u) :
    Visits cond body s u := by
  induction htu with
  | start => exact hst
  | next _ enter done ih => exact ih.next enter done

theorem Visits.invariant {I : σ → Prop} (h : Visits cond body s t) (hs : I s)
    (hpres : ∀ t u, I t → cond t = true → body t = .ok u → I u) : I t := by
  induction h with
  | start => exact hs
  | next _ enter done ih => exact hpres _ _ ih enter done

/-- A loop that returns does so in a visited state in which the condition is false. -/
theorem visits_of_loop (h : loop cond body n s = some (.ok t)) :
    Visits cond body s t ∧ cond t = false := by
  induction n generalizing s with
  | zero =>
    unfold loop at h
    split at h
    · contradiction
    · next hc =>
      cases h
      exact ⟨.start,by simpa using hc⟩
  | succ n ih =>
    unfold loop at h
    split at h
    · next hc =>
      split at h
      · cases h
      · next u hu =>
        obtain ⟨hv,ht⟩ := ih h
        exact ⟨(Visits.start.next hc hu).trans hv,ht⟩
    · next hc =>
      cases h
      exact ⟨.start,by simpa using hc⟩

end WhileLoop
