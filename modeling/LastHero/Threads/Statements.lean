import LastHero.Game.Fields
import LastHero.Support.Separator

/-! The statements that DB_Thread and SignUp build from a name and a password. What separates the two
may be a part of either, so that different accounts can share a statement. -/
namespace LastHero
open Separator

/-- A name and a password that fit into their fields. -/
structure Account where
  name : List Byte
  pass : List Byte
  name_length : 1 ≤ name.length ∧ name.length ≤ 9
  pass_length : 1 ≤ pass.length ∧ pass.length ≤ 9
  name_zero : (0 : Byte) ∉ name
  pass_zero : (0 : Byte) ∉ pass

/-- The statement of EV_LOGIN in DB_Thread. -/
def loginText (name pass : List Byte) : List Byte :=
  bytesOf "EXEC Login_User " ++ name ++ bytesOf ", " ++ pass

/-- The statement of SignUp. -/
def signUpText (name pass : List Byte) : List Byte :=
  bytesOf "INSERT INTO Account VALUES ('" ++ name ++ bytesOf "', '" ++ pass ++ bytesOf "')"

theorem Buffer.signUpStatement_eq (b : Buffer) :
    b.signUpStatement = signUpText (b.cString 2) (b.cString 12) := rfl

/-- The end of a name that becomes the beginning of a password if another ", " is taken for the
separator. -/
inductive CommaShift : List Byte → List Byte → Prop
  | another (z : List Byte) : CommaShift (bytesOf ", " ++ z) (z ++ bytesOf ", ")

/-- The same for "', '", which can also overlap itself. -/
inductive QuoteShift : List Byte → List Byte → Prop
  | another (z : List Byte) : QuoteShift (bytesOf "', '" ++ z) (z ++ bytesOf "', '")
  | overlap : QuoteShift (bytesOf "', ") (bytesOf ", '")

namespace Account

def join (sep : List Byte) (a : Account) : List Byte := a.name ++ sep ++ a.pass

/-- There is another account that differs by a shift in one direction or the other. -/
def Resplits (shift : List Byte → List Byte → Prop) (a : Account) : Prop :=
  ∃ u v, shift u v ∧ ((∃ x, x ≠ [] ∧ a.name = x ++ u ∧ (v ++ a.pass).length ≤ 9) ∨
    ∃ y, y ≠ [] ∧ a.pass = v ++ y ∧ (a.name ++ u).length ≤ 9)

variable {sep u v x y : List Byte} {a b : Account} {shift : List Byte → List Byte → Prop}

theorem ext_fields (hname : b.name = a.name) (hpass : b.pass = a.pass) : b = a := by
  cases a
  cases b
  cases hname
  cases hpass
  rfl

/-- An account with the same bytes in another order of fields. -/
theorem exists_join (hsep : (0 : Byte) ∉ sep) (hx : 1 ≤ x.length ∧ x.length ≤ 9)
    (hy : 1 ≤ y.length ∧ y.length ≤ 9) (h : x ++ sep ++ y = a.join sep) :
    ∃ b : Account, b.name = x ∧ b.pass = y ∧ b.join sep = a.join sep := by
  have hzero : (0 : Byte) ∉ x ++ sep ++ y := by
    rw [h, join, List.mem_append, List.mem_append]
    rintro ((hname | hmem) | hpass)
    · exact a.name_zero hname
    · exact hsep hmem
    · exact a.pass_zero hpass
  rw [List.mem_append, List.mem_append, not_or, not_or] at hzero
  exact ⟨⟨x,y,hx,hy,hzero.1.1,hzero.2⟩,rfl,rfl,h⟩

/-- No other account gives the same bytes if and only if there is nothing to shift. -/
theorem join_unique_iff (hsep : (0 : Byte) ∉ sep)
    (hshift : ∀ u v, shift u v ↔ u ≠ [] ∧ Shift sep u v) (a : Account) :
    (∀ b : Account, b.join sep = a.join sep → b = a) ↔ ¬ a.Resplits shift := by
  constructor
  · rintro hunique ⟨u,v,huv,⟨x,hx,hname,hfits⟩ | ⟨y,hy,hpass,hfits⟩⟩
    · obtain ⟨hu,hmove⟩ := (hshift u v).mp huv
      have hlength := a.name_length
      have hlength' := a.pass_length
      rw [hname, List.length_append] at hlength
      rw [List.length_append] at hfits
      have hpos := List.length_pos_iff.mpr hx
      obtain ⟨b,hb,-,hjoin⟩ := exists_join (x := x) (y := v ++ a.pass) (a := a) hsep (by omega)
        (by rw [List.length_append]; omega) (by rw [join, hname, hmove.join])
      have hsame := hunique b hjoin
      rw [hsame, hname] at hb
      exact hu (List.append_right_eq_self.mp hb)
    · obtain ⟨hu,hmove⟩ := (hshift u v).mp huv
      have hlength := a.name_length
      have hlength' := a.pass_length
      rw [hpass, List.length_append] at hlength'
      rw [List.length_append] at hfits
      have hpos := List.length_pos_iff.mpr hy
      obtain ⟨b,hb,-,hjoin⟩ := exists_join (x := a.name ++ u) (y := y) (a := a) hsep
        (by rw [List.length_append]; omega) (by omega) (by rw [join, hpass, hmove.join])
      have hsame := hunique b hjoin
      rw [hsame] at hb
      exact hu (List.append_right_eq_self.mp hb.symm)
  · intro hno b hjoin
    have hname := b.name_length
    have hpass := b.pass_length
    rcases join_cases hjoin with ⟨u,v,hmove,hx,hy⟩ | ⟨u,v,hmove,hx,hy⟩
    · by_cases hu : u = []
      · obtain rfl : v = [] := List.eq_nil_of_length_eq_zero (by rw [← hmove.length_eq, hu]; rfl)
        subst hu
        exact ext_fields (by simpa using hx.symm) (by simpa using hy)
      · refine absurd ⟨u,v,(hshift u v).mpr ⟨hu,hmove⟩,Or.inl ⟨b.name,?_,hx,?_⟩⟩ hno
        · exact List.length_pos_iff.mp (by omega)
        · rw [← hy]
          exact hpass.2
    · by_cases hu : u = []
      · obtain rfl : v = [] := List.eq_nil_of_length_eq_zero (by rw [← hmove.length_eq, hu]; rfl)
        subst hu
        exact ext_fields (by simpa using hx) (by simpa using hy.symm)
      · refine absurd ⟨u,v,(hshift u v).mpr ⟨hu,hmove⟩,Or.inr ⟨b.pass,?_,hy,?_⟩⟩ hno
        · exact List.length_pos_iff.mp (by omega)
        · rw [← hx]
          exact hname.2

end Account

theorem commaShift_iff (u v : List Byte) :
    CommaShift u v ↔ u ≠ [] ∧ Shift (bytesOf ", ") u v := by
  constructor
  · rintro ⟨z⟩
    exact ⟨by simp [bytesOf],shift_append _ z⟩
  · rintro ⟨hu,h⟩
    have hpos := List.length_pos_iff.mpr hu
    by_cases hlt : u.length < 2
    · obtain ⟨hu',hv⟩ := h.of_lt (show u.length ≤ 2 by omega)
      rw [show u.length = 1 by omega] at hu' hv
      rw [hu', hv] at h
      exact absurd h (by decide)
    · obtain ⟨z,rfl,rfl⟩ := h.of_le (show 2 ≤ u.length by omega)
      exact .another z

theorem quoteShift_iff (u v : List Byte) :
    QuoteShift u v ↔ u ≠ [] ∧ Shift (bytesOf "', '") u v := by
  constructor
  · rintro (⟨z⟩ | _)
    · exact ⟨by simp [bytesOf],shift_append _ z⟩
    · exact ⟨by decide,by decide⟩
  · rintro ⟨hu,h⟩
    have hpos := List.length_pos_iff.mpr hu
    by_cases hlt : u.length < 4
    · obtain ⟨hu',hv⟩ := h.of_lt (show u.length ≤ 4 by omega)
      generalize u.length = k at hlt hpos hu' hv
      subst hu' hv
      interval_cases k
      · exact absurd h (by decide)
      · exact absurd h (by decide)
      · exact .overlap
    · obtain ⟨z,rfl,rfl⟩ := h.of_le (show 4 ≤ u.length by omega)
      exact .another z

/-- The statements of an account are its own if and only if neither separator can be found at
another place. -/
theorem statements_unique_iff (a : Account) :
    (∀ b : Account, (loginText b.name b.pass = loginText a.name a.pass → b = a) ∧
        (signUpText b.name b.pass = signUpText a.name a.pass → b = a)) ↔
      ¬ a.Resplits CommaShift ∧ ¬ a.Resplits QuoteShift := by
  have hlogin : ∀ b : Account, loginText b.name b.pass = loginText a.name a.pass ↔
      b.join (bytesOf ", ") = a.join (bytesOf ", ") := by
    intro b
    simp only [loginText, Account.join, List.append_assoc, List.append_cancel_left_eq]
  have hsignUp : ∀ b : Account, signUpText b.name b.pass = signUpText a.name a.pass ↔
      b.join (bytesOf "', '") = a.join (bytesOf "', '") := by
    intro b
    simp only [signUpText, Account.join, List.append_assoc, List.append_cancel_left_eq]
    simp only [← List.append_assoc, List.append_cancel_right_eq]
  rw [← Account.join_unique_iff (by decide) commaShift_iff a,
    ← Account.join_unique_iff (by decide) quoteShift_iff a, ← forall_and]
  exact forall_congr' fun b => and_congr (imp_congr_left (hlogin b)) (imp_congr_left (hsignUp b))

/-- The statements of two pairs of accounts. -/
theorem statements_shared :
    (¬ ∀ a b : Account, loginText b.name b.pass = loginText a.name a.pass → b = a) ∧
      ¬ ∀ a b : Account, signUpText b.name b.pass = signUpText a.name a.pass → b = a := by
  constructor
  · intro h
    have hsame := h ⟨bytesOf "a",bytesOf "b, c",by decide,by decide,by decide,by decide⟩
      ⟨bytesOf "a, b",bytesOf "c",by decide,by decide,by decide,by decide⟩ (by decide)
    exact absurd (congrArg Account.name hsame) (by decide)
  · intro h
    have hsame := h ⟨bytesOf "a",bytesOf "b', 'c",by decide,by decide,by decide,by decide⟩
      ⟨bytesOf "a', 'b",bytesOf "c",by decide,by decide,by decide,by decide⟩ (by decide)
    exact absurd (congrArg Account.name hsame) (by decide)

end LastHero
