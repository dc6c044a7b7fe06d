import LastHero.Terrain.Lookup

/-! Sequences of queries to the terrain. GetHeightNormal sets the height to one, so that afterwards
the guards of the other queries take most of the map for its outside. -/
namespace LastHero
namespace CTerrain
open FloatArith FloatOrder

inductive Query (F : Type)
  | getHeight (fx fy : F)
  | getHeightNormal (x y : ℤ)
  | onGetHeight (x y : ℤ)

variable {F : Type} [FloatOrder F] {t : CTerrain} {q : Query F} {qs : List (Query F)}
  {x y : ℤ}

def answer (t : CTerrain) : Query F → Except Fault F × CTerrain
  | .getHeight fx fy => (t.getHeight fx fy,t)
  | .getHeightNormal x y => t.getHeightNormal x y
  | .onGetHeight x y => (t.onGetHeight x y,t)

def answers (t : CTerrain) : List (Query F) → List (Except Fault F) × CTerrain
  | [] => ([],t)
  | q::qs =>
    let rest := (t.answer q).2.answers qs
    ((t.answer q).1::rest.1,rest.2)

/-- The arguments are on the map. -/
def InRange (t : CTerrain) : Query F → Prop
  | .getHeight fx fy => (le (lit 0) fx = true ∧ lt fx (lit t.width) = true) ∧
      le (lit 0) fy = true ∧ lt fy (lit t.height) = true
  | .getHeightNormal x y | .onGetHeight x y => (0 ≤ x ∧ x < t.width) ∧ 0 ≤ y ∧ y < t.height

def Query.isNormal : Query F → Bool
  | .getHeightNormal _ _ => true
  | _ => false

/-- What the queries leave of a terrain. -/
def flatten (t : CTerrain) : CTerrain := { t with height := 1 }

theorem answer_of_not_normal (h : q.isNormal = false) (t : CTerrain) : (t.answer q).2 = t := by
  cases q with
  | getHeight fx fy => rfl
  | getHeightNormal x y => cases h
  | onGetHeight x y => rfl

theorem answer_normal (hq : q.isNormal = true) (hrange : t.InRange q) :
    (t.answer q).2 = t.flatten := by
  cases q with
  | getHeight fx fy => cases hq
  | getHeightNormal x y =>
    obtain ⟨⟨hx0,hx⟩,hy0,hy⟩ := hrange
    rw [answer, getHeightNormal, if_neg (by omega)]
    rfl
  | onGetHeight x y => cases hq

/-- A query changes nothing but the height, and that only to one. -/
theorem answer_cases (t : CTerrain) (q : Query F) :
    (t.answer q).2 = t ∨ (t.answer q).2 = t.flatten := by
  cases q with
  | getHeight fx fy => exact .inl rfl
  | getHeightNormal x y =>
    rw [answer, getHeightNormal]
    split
    · exact .inl rfl
    · exact .inr rfl
  | onGetHeight x y => exact .inl rfl

@[simp] theorem flatten_flatten (t : CTerrain) : t.flatten.flatten = t.flatten := rfl

theorem flatten_eq_iff : t.flatten = t ↔ t.height = 1 := by
  constructor
  · intro h
    exact (congrArg height h).symm
  · intro h
    rw [flatten, ← h]

/-- Nor do more queries. -/
theorem answers_cases (t : CTerrain) (qs : List (Query F)) :
    (t.answers qs).2 = t ∨ (t.answers qs).2 = t.flatten := by
  induction qs generalizing t with
  | nil => exact .inl rfl
  | cons q qs ih =>
    rw [answers]
    obtain hstep | hstep := answer_cases t q
    · simpa only [hstep] using ih t
    · rw [hstep]
      exact .inr (by simpa using ih t.flatten)

/-- When no query changes the terrain, every answer is that of the fresh one. -/
theorem answers_eq (h : ∀ q ∈ qs, (t.answer q).2 = t) :
    t.answers qs = (qs.map fun q => (t.answer q).1,t) := by
  induction qs with
  | nil => rfl
  | cons q qs ih =>
    obtain ⟨hq,hqs⟩ := List.forall_mem_cons.mp h
    rw [answers, hq, ih hqs, List.map_cons]

theorem answers_normal (hqs : ∀ q ∈ qs, t.InRange q) (hnormal : ∃ q ∈ qs, q.isNormal = true) :
    (t.answers qs).2 = t.flatten := by
  induction qs with
  | nil => simp at hnormal
  | cons q qs ih =>
    obtain ⟨hq,hqs⟩ := List.forall_mem_cons.mp hqs
    rw [answers]
    cases hfirst : q.isNormal with
    | true =>
      rw [answer_normal hfirst hq]
      simpa using answers_cases t.flatten qs
    | false =>
      rw [answer_of_not_normal hfirst]
      exact ih hqs (by simpa [hfirst] using hnormal)

/-- Queries leave the terrain and the later answers alone exactly when none of them is
GetHeightNormal, or the map has one row only. -/
theorem queries_frame_iff (hqs : ∀ q ∈ qs, t.InRange q) :
    ((t.answers qs).2 = t ∧ (t.answers qs).1 = qs.map fun q => (t.answer q).1) ↔
      (∀ q ∈ qs, q.isNormal = false) ∨ t.height = 1 := by
  constructor
  · rintro ⟨hsame,-⟩
    by_contra hnot
    rw [not_or, not_forall] at hnot
    obtain ⟨⟨q,hq⟩,hheight⟩ := hnot
    rw [Classical.not_imp, Bool.not_eq_false] at hq
    rw [answers_normal hqs ⟨q,hq⟩] at hsame
    exact hheight (flatten_eq_iff.mp hsame)
  · intro h
    have hsame : ∀ q ∈ qs, (t.answer q).2 = t := by
      intro q hq
      obtain h | h := h
      · exact answer_of_not_normal (h q hq) t
      · obtain hstep | hstep := answer_cases t q
        · exact hstep
        · exact hstep.trans (flatten_eq_iff.mpr h)
    rw [answers_eq hsame]
    exact ⟨rfl,rfl⟩

section flat

/-- The height at the origin, asked for twice. -/
def twice : List (Query ℚ) := [.onGetHeight 0 0,.onGetHeight 0 0]

theorem twice_inRange : ∀ q ∈ twice, flat.InRange q := by
  simp [twice, InRange, flat_width, flat_height]

theorem flat_after_twice : (flat.answers twice).2 = flat :=
  ((queries_frame_iff twice_inRange).mpr (.inl (by simp [twice, Query.isNormal]))).1

/-- The same normal, asked for twice. -/
def normals : List (Query ℚ) := [.getHeightNormal 0 1,.getHeightNormal 0 1]

theorem normals_inRange : ∀ q ∈ normals, flat.InRange q := by
  simp [normals, InRange, flat_width, flat_height]

/-- A normal on the map is never minus one. -/
theorem normal_ne (hx : 0 ≤ x ∧ x < t.width) (hy : 0 ≤ y ∧ y < t.height) :
    (t.getHeightNormal x y).1 ≠ .ok (-1 : ℚ) := by
  rw [getHeightNormal, if_neg (by omega)]
  intro h
  simp only [bind_eq_ok] at h
  obtain ⟨-,-,-,-,-,-,h⟩ := h
  cases h

/-- The second answer says that the place is outside of the map. -/
theorem flat_after_normals : (∀ q ∈ normals, flat.InRange q) ∧ (flat.answers normals).2 ≠ flat ∧
    (flat.answers normals).1 ≠ normals.map fun q => (flat.answer q).1 := by
  refine ⟨normals_inRange,fun h => ?_,fun h => ?_⟩
  · rw [answers_normal normals_inRange ⟨.getHeightNormal 0 1,by simp [normals],rfl⟩,
      flatten_eq_iff, flat_height] at h
    omega
  · have hsecond := (List.cons.inj (List.cons.inj h).2).1
    rw [answer_normal rfl (normals_inRange _ (by simp [normals]))] at hsecond
    refine normal_ne (t := flat) (x := 0) (y := 1) ?_ ?_ hsecond.symm
    · rw [flat_width]
      omega
    · rw [flat_height]
      omega

end flat
end CTerrain
end LastHero
