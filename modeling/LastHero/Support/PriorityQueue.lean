import Mathlib.Data.List.Perm.Basic
import Mathlib.Order.Defs.Unbundled

/-! A priority queue as the elements that it holds. On top is one that is smaller than no other;
which one of several it is, is left open. -/
namespace PriorityQueue
variable {ε : Type*} {lt : ε → ε → Prop} {q : List ε} {k : ℕ} {e e' : ε}

/-- The element at position `k` is maximal. -/
def IsTop (lt : ε → ε → Prop) (q : List ε) (k : ℕ) (e : ε) : Prop :=
  q[k]? = some e ∧ ∀ e' ∈ q, ¬ lt e e'

instance [DecidableEq ε] [DecidableRel lt] (q : List ε) (k : ℕ) (e : ε) :
    Decidable (IsTop lt q k e) := inferInstanceAs (Decidable (_ ∧ _))

/-- The queue with and without its top. -/
theorem IsTop.perm (h : IsTop lt q k e) : q.Perm (e::q.eraseIdx k) := by
  obtain ⟨hk,rfl⟩ := List.getElem?_eq_some_iff.mp h.1
  exact (List.getElem_cons_eraseIdx_perm hk).symm

/-- What is left is not larger. -/
theorem IsTop.not_lt_of_mem_eraseIdx (h : IsTop lt q k e) (he' : e' ∈ q.eraseIdx k) : ¬ lt e e' :=
  h.2 e' (List.mem_of_mem_eraseIdx he')

/-- A queue that is not empty has a top. -/
theorem exists_isTop (lt : ε → ε → Prop) [IsStrictOrder ε lt] (hq : q ≠ []) : ∃ k e, IsTop lt q k e := by
  induction q with
  | nil => exact absurd rfl hq
  | cons e q ih =>
    by_cases hlast : q = []
    · subst hlast
      refine ⟨0,e,rfl,fun e' he' => ?_⟩
      rw [List.mem_singleton.mp he']
      exact irrefl e
    · obtain ⟨k,f,hf,hmax⟩ := ih hlast
      by_cases hlt : lt f e
      · refine ⟨0,e,rfl,fun e' he' => ?_⟩
        rcases List.mem_cons.mp he' with rfl | he'
        · exact irrefl e'
        · exact fun hlt' => hmax e' he' (IsTrans.trans _ _ _ hlt hlt')
      · refine ⟨k+1,f,hf,fun e' he' => ?_⟩
        rcases List.mem_cons.mp he' with rfl | he'
        · exact hlt
        · exact hmax e' he'

end PriorityQueue
