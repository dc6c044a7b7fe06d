import Mathlib.Logic.Function.Basic

/-! Functions of partly known states. The states that agree with the given one on what is known are
related to it; a function is determined by what is known if it has the same value on all of them. -/
namespace Known
variable {σ α β γ ι : Type*} {r : σ → σ → Prop} {s : σ} {f : σ → α} {g : σ → β}

def Determined (r : σ → σ → Prop) (s : σ) (f : σ → α) : Prop := ∀ t, r s t → f s = f t

theorem Determined.comp (h : Determined r s f) (k : α → γ) : Determined r s fun t => k (f t) :=
  fun t ht => congrArg k (h t ht)

/-- What can be seen of a determined value is determined. -/
theorem Determined.observe {k : α → γ} {e : β → γ} (h : Determined r s f)
    (he : Function.Injective e) (hk : ∀ t, k (f t) = e (g t)) : Determined r s g :=
  fun t ht => he (by rw [← hk s, ← hk t, h t ht])

/-- A function that has one value on all states that agree with the given one. -/
theorem determined_of_forall {a : α} (hs : f s = a) (h : ∀ t, r s t → f t = a) :
    Determined r s f := fun t ht => hs.trans (h t ht).symm

theorem determined_congr {g : σ → α} (hs : f s = g s) (h : ∀ t, r s t → f t = g t) :
    Determined r s f ↔ Determined r s g := by
  simp only [Determined]
  rw [hs]
  exact forall₂_congr fun t ht => by rw [h t ht]

theorem determined_pair :
    Determined r s (fun t => (f t,g t)) ↔ Determined r s f ∧ Determined r s g := by
  simp only [Determined, Prod.mk.injEq]
  exact ⟨fun h => ⟨fun t ht => (h t ht).1,fun t ht => (h t ht).2⟩,
    fun h t ht => ⟨h.1 t ht,h.2 t ht⟩⟩

theorem determined_pi {f : σ → ι → α} :
    Determined r s f ↔ ∀ i, Determined r s fun t => f t i := by
  simp only [Determined, funext_iff]
  exact ⟨fun h i t ht => h t ht i,fun h t ht i => h i t ht⟩

/-- What a function keeps apart is determined with its value. -/
theorem determined_injective {k : α → γ} (hk : Function.Injective k) :
    Determined r s (fun t => k (f t)) ↔ Determined r s f :=
  ⟨fun h t ht => hk (h t ht),fun h => h.comp k⟩

/-- A value that is looked at only where there is a key. -/
theorem determined_map {key : σ → Option ι} {k : ι → β → γ} (hk : Function.Injective2 k) :
    Determined r s (fun t => (key t).map fun i => k i (g t)) ↔
      Determined r s key ∧ ((key s).isSome → Determined r s g) := by
  constructor
  · intro h
    have hkey : Determined r s key := by
      intro t ht
      have hsame := h t ht
      dsimp only at hsame
      cases hs : key s with
      | none =>
        rw [hs, Option.map_none, eq_comm, Option.map_eq_none_iff] at hsame
        exact hsame.symm
      | some i =>
        rw [hs, Option.map_some, eq_comm, Option.map_eq_some_iff] at hsame
        obtain ⟨j,hj,hval⟩ := hsame
        rw [hj, (hk hval).1]
    refine ⟨hkey,fun hsome t ht => ?_⟩
    obtain ⟨i,hi⟩ := Option.isSome_iff_exists.mp hsome
    have hsame := h t ht
    dsimp only at hsame
    rw [← hkey t ht, hi, Option.map_some, Option.map_some, Option.some.injEq] at hsame
    exact (hk hsame).2
  · rintro ⟨hkey,hg⟩ t ht
    dsimp only
    rw [← hkey t ht]
    cases hs : key s with
    | none => rfl
    | some i => rw [hg (by rw [hs]; rfl) t ht]

end Known
