import Mathlib.Data.List.Infix

/-! Two strings with a separator between them. Another pair gives the same string when the separator
can be found at another place, and that is a matter of what is moved across it. -/
namespace Separator
variable {α : Type*} {sep u v x y x' y' : List α}

/-- What is `u` before the separator is `v` behind it. -/
def Shift (sep u v : List α) : Prop := u ++ sep = sep ++ v

instance [DecidableEq α] (sep u v : List α) : Decidable (Shift sep u v) :=
  inferInstanceAs (Decidable (_ = _))

theorem shift_nil (sep : List α) : Shift sep [] [] := (List.append_nil sep).symm

theorem Shift.length_eq (h : Shift sep u v) : u.length = v.length := by
  have hlength := congrArg List.length h
  rw [List.length_append, List.length_append] at hlength
  omega

/-- Moving something across the separator leaves the string as it is. -/
theorem Shift.join (h : Shift sep u v) (x y : List α) :
    (x ++ u) ++ sep ++ y = x ++ sep ++ (v ++ y) := by
  rw [List.append_assoc x, h]
  simp only [List.append_assoc]

/-- Strings that agree from the separator on. -/
theorem exists_shift (h : sep ++ y = u ++ (sep ++ y')) : ∃ v, Shift sep u v ∧ y = v ++ y' := by
  rw [← List.append_assoc] at h
  rcases List.append_eq_append_iff.mp h with ⟨v,hsep,hy⟩ | ⟨v,hsep,hy⟩
  · exact ⟨v,hsep,hy⟩
  · have hlength := congrArg List.length hsep
    rw [List.length_append, List.length_append] at hlength
    obtain rfl : u = [] := List.eq_nil_of_length_eq_zero (by omega)
    obtain rfl : v = [] := List.eq_nil_of_length_eq_zero (by omega)
    exact ⟨[],shift_nil sep,hy.symm⟩

/-- Two ways to read a string differ by a shift. -/
theorem join_cases (h : x ++ sep ++ y = x' ++ sep ++ y') :
    (∃ u v, Shift sep u v ∧ x' = x ++ u ∧ y = v ++ y') ∨
      ∃ u v, Shift sep u v ∧ x = x' ++ u ∧ y' = v ++ y := by
  rw [List.append_assoc, List.append_assoc] at h
  rcases List.append_eq_append_iff.mp h with ⟨u,hx,hy⟩ | ⟨u,hx,hy⟩
  · obtain ⟨v,hshift,hy⟩ := exists_shift hy
    exact Or.inl ⟨u,v,hshift,hx,hy⟩
  · obtain ⟨v,hshift,hy⟩ := exists_shift hy
    exact Or.inr ⟨u,v,hshift,hx,hy⟩

/-- A long shift moves a separator of its own. -/
theorem Shift.of_le (h : Shift sep u v) (hle : sep.length ≤ u.length) :
    ∃ z, u = sep ++ z ∧ v = z ++ sep := by
  rcases List.append_eq_append_iff.mp h with ⟨z,hsep,hv⟩ | ⟨z,hu,hsep⟩
  · have hlength := congrArg List.length hsep
    rw [List.length_append] at hlength
    obtain rfl : z = [] := List.eq_nil_of_length_eq_zero (by omega)
    exact ⟨[],by simpa using hsep.symm,by simpa using hv.symm⟩
  · exact ⟨z,hu,hsep⟩

theorem shift_append (sep z : List α) : Shift sep (sep ++ z) (z ++ sep) :=
  List.append_assoc ..

/-- A short one is a part of the separator. -/
theorem Shift.of_lt (h : Shift sep u v) (hlt : u.length ≤ sep.length) :
    u = sep.take u.length ∧ v = sep.drop (sep.length-u.length) := by
  have htake := congrArg (List.take u.length) h
  have hdrop := congrArg (List.drop sep.length) h
  rw [List.take_left, List.take_append_of_le_length hlt] at htake
  rw [List.drop_left, List.drop_append, List.drop_eq_nil_of_le hlt, List.nil_append] at hdrop
  exact ⟨htake,hdrop.symm⟩

end Separator
