import LastHero.Game.Physics
import LastHero.Support.Determined
import Mathlib.Data.List.GetD

/-! The fields of a packet and the bytes of packet_buf that they are read from. Only the first
bytes of the buffer belong to the packet; the others were left there by earlier ones. -/
namespace LastHero
open Known

/-- The characters of a string literal. -/
def bytesOf (s : String) : List Byte := s.toList.map fun c => Int8.ofNat c.toNat

namespace Buffer
variable {α : Type} {n i j k m : ℕ} {b b' : Buffer} {x : Byte}

/-- The same first `n` bytes. -/
def Agree (n : ℕ) (b b' : Buffer) : Prop := ∀ i < n, b.byteAt i = b'.byteAt i

/-- The first `n` bytes determine the value. -/
abbrev Own (n : ℕ) (b : Buffer) (f : Buffer → α) : Prop := Determined (Agree n) b f

/-- The buffer with another byte. -/
def poke (i : ℕ) (x : Byte) (b : Buffer) : Buffer := ⟨b.bytes.set i x,by simp [b.size_eq]⟩

theorem byteAt_poke (hi : i < bufSize) :
    (b.poke i x).byteAt j = if j = i then x else b.byteAt j := by
  simp only [byteAt, poke]
  have hlt : i < b.bytes.length := b.size_eq ▸ hi
  by_cases hj : j = i
  · subst hj
    simp [hlt]
  · simp [hj, List.getElem?_set_ne (Ne.symm hj)]

theorem agree_poke (hn : n ≤ i) (hi : i < bufSize) : Agree n b (b.poke i x) := by
  intro j hj
  rw [byteAt_poke hi, if_neg (by omega)]

theorem Agree.trans {b'' : Buffer} (h : Agree n b b') (h' : Agree n b' b'') : Agree n b b'' :=
  fun i hi => (h i hi).trans (h' i hi)

theorem Agree.mono (h : Agree n b b') (hm : m ≤ n) : Agree m b b' :=
  fun i hi => h i (hi.trans_le hm)

theorem Agree.take (h : Agree n b b') (hn : n ≤ bufSize) : b.bytes.take n = b'.bytes.take n := by
  have hlength : ∀ c : Buffer, (c.bytes.take n).length = n := by
    intro c
    rw [List.length_take, c.size_eq, Nat.min_eq_left hn]
  refine List.ext_getElem ((hlength b).trans (hlength b').symm) fun i hi _ => ?_
  have hin : i < n := hlength b ▸ hi
  have hbyte := h i hin
  unfold byteAt at hbyte
  rw [List.getElem_take, List.getElem_take]
  rwa [List.getD_eq_getElem _ _ (by rw [b.size_eq]; omega),
    List.getD_eq_getElem _ _ (by rw [b'.size_eq]; omega)] at hbyte

theorem exists_ne_byte (x : Byte) : ∃ y, y ≠ x := by
  by_cases hx : x = 0
  · exact ⟨1,by rw [hx]; decide⟩
  · exact ⟨0,Ne.symm hx⟩

theorem own_byteAt (hi : i < bufSize) : Own n b (·.byteAt i) ↔ i < n := by
  constructor
  · intro h
    by_contra hn
    obtain ⟨y,hy⟩ := exists_ne_byte (b.byteAt i)
    have hsame := h (b.poke i y) (agree_poke (not_lt.mp hn) hi)
    dsimp only at hsame
    rw [byteAt_poke hi, if_pos rfl] at hsame
    exact hy hsame.symm
  · intro h b' hb'
    exact hb' i h

theorem short_eq_iff : b.short i = b'.short i ↔
    b.byteAt i = b'.byteAt i ∧ b.byteAt (i+1) = b'.byteAt (i+1) := by
  have hrange : ∀ x : Byte, -128 ≤ x.toInt ∧ x.toInt < 128 := fun x =>
    ⟨x.le_toInt,x.toInt_lt⟩
  simp only [short]
  constructor
  · intro h
    have := hrange (b.byteAt i)
    have := hrange (b'.byteAt i)
    have := hrange (b.byteAt (i+1))
    have := hrange (b'.byteAt (i+1))
    exact ⟨Int8.toInt_inj.mp (by omega),Int8.toInt_inj.mp (by omega)⟩
  · rintro ⟨h,h'⟩
    rw [h, h']

theorem own_short (hi : i+1 < bufSize) : Own n b (·.short i) ↔ i+1 < n := by
  have hpair : Own n b (·.short i) ↔ Own n b fun b => (b.byteAt i,b.byteAt (i+1)) := by
    simp only [Own, Determined]
    simp only [short_eq_iff, Prod.mk.injEq]
  refine (hpair.trans determined_pair).trans ((and_congr (own_byteAt (by omega))
    (own_byteAt hi)).trans ?_)
  omega

theorem byteAt_drop : (b.bytes.drop i).getD j 0 = b.byteAt (i+j) := by simp [byteAt]

/-- The bytes of a field. -/
theorem field_byteAt (hj : j < m) : ((b.bytes.drop i).take m).getD j 0 = b.byteAt (i+j) := by
  simp [byteAt, hj]

theorem own_field (him : i+m ≤ bufSize) (hm : 0 < m) :
    Own n b (fun b => (b.bytes.drop i).take m) ↔ i+m ≤ n := by
  constructor
  · intro h
    have hlast : Own n b (·.byteAt (i+(m-1))) := by
      have hget := Determined.comp h fun l => l.getD (m-1) 0
      simpa only [field_byteAt (Nat.sub_lt hm one_pos)] using hget
    rw [own_byteAt (by omega)] at hlast
    omega
  · intro h b' hb'
    have htake := (hb'.mono h).take him
    have hsplit : ∀ c : Buffer, (c.bytes.drop i).take m = (c.bytes.take (i+m)).drop i := by
      intro c
      rw [List.drop_take, Nat.add_sub_cancel_left]
    dsimp only
    rw [hsplit, hsplit, htake]

/-- The bytes before the first terminator. -/
theorem le_length_takeWhile {l : List Byte} (hk : k ≤ l.length) :
    k ≤ (l.takeWhile (· ≠ 0)).length ↔ ∀ j < k, l.getD j 0 ≠ 0 := by
  induction l generalizing k with
  | nil => simp [Nat.le_zero.mp hk]
  | cons x l ih =>
    cases k with
    | zero => simp
    | succ k =>
      rw [Nat.forall_lt_succ_left]
      by_cases hx : x = 0
      · simp [hx]
      · rw [List.takeWhile_cons_of_pos (by simpa using hx), List.length_cons,
          Nat.add_le_add_iff_right, ih (Nat.le_of_succ_le_succ hk)]
        simp [hx]

/-- The length of a C string, up to a bound. -/
theorem le_length_cString (hk : i+k ≤ bufSize) :
    k ≤ (b.cString i).length ↔ ∀ j, i ≤ j → j < i+k → b.byteAt j ≠ 0 := by
  simp only [cString]
  rw [le_length_takeWhile (by rw [List.length_drop, b.size_eq]; omega)]
  simp only [byteAt_drop]
  constructor
  · intro h j hij hj
    have hbyte := h (j-i) (by omega)
    rwa [Nat.add_sub_cancel' hij] at hbyte
  · intro h j hj
    exact h (i+j) (Nat.le_add_right i j) (by omega)

/-- A terminator in the field. -/
theorem length_cString_lt (hk : i+k ≤ bufSize) :
    (b.cString i).length < k ↔ ∃ j, i ≤ j ∧ j < i+k ∧ b.byteAt j = 0 := by
  rw [← not_le, le_length_cString hk]
  push Not
  rfl

/-- A C string that ends within the known bytes. -/
theorem cString_eq (hi : i ≤ n) (hn : n ≤ bufSize) (h : (b.cString i).length < n-i) :
    b.cString i = ((b.bytes.take n).drop i).takeWhile (· ≠ 0) := by
  have hsplit : b.bytes.drop i = (b.bytes.take n).drop i ++ b.bytes.drop n := by
    conv_lhs => rw [← List.take_append_drop n b.bytes]
    rw [List.drop_append_of_le_length]
    rw [List.length_take, b.size_eq]
    omega
  simp only [cString] at h ⊢
  rw [hsplit, List.takeWhile_append] at h ⊢
  split_ifs at h ⊢ with hall
  · rw [List.length_append, List.length_drop, List.length_take, b.size_eq] at h
    omega
  · rfl

/-- More characters make no C string shorter. -/
theorem length_cString_mono (hi : i ≤ bufSize) (h : ∀ j, b.byteAt j ≠ 0 → b'.byteAt j ≠ 0) :
    (b.cString i).length ≤ (b'.cString i).length := by
  have hk : i+(b.cString i).length ≤ bufSize := by
    have hle : (b.cString i).length ≤ (b.bytes.drop i).length :=
      (List.takeWhile_sublist _).length_le
    rw [List.length_drop, b.size_eq] at hle
    omega
  rw [le_length_cString hk]
  exact fun j hij hj => h j ((le_length_cString hk).mp le_rfl j hij hj)

/-- The string ends at `m` or not, depending on the byte there. -/
theorem length_cString_poke (hi : i ≤ m) (hm : m < bufSize) (hlong : m-i ≤ (b.cString i).length) :
    ((b.poke m 0).cString i).length < ((b.poke m 1).cString i).length := by
  have hnonzero := (le_length_cString (b := b) (k := m-i) (by omega)).mp hlong
  have hend : ((b.poke m 0).cString i).length < m-i+1 :=
    (length_cString_lt (by omega)).mpr ⟨m,hi,by omega,by rw [byteAt_poke hm, if_pos rfl]⟩
  have hlonger : m-i+1 ≤ ((b.poke m 1).cString i).length := by
    refine (le_length_cString (by omega)).mpr fun j hij hj => ?_
    rw [byteAt_poke hm]
    split_ifs with hjm
    · decide
    · exact hnonzero j hij (by omega)
  omega

/-- Only its terminator tells where a C string ends. -/
theorem own_cString (hi : i ≤ n) (hn : n < bufSize) :
    Own n b (·.cString i) ↔ (b.cString i).length < n-i := by
  constructor
  · intro h
    by_contra hlong
    have hlt := length_cString_poke hi hn (not_lt.mp hlong)
    have hsame : ∀ x, ((b.poke n x).cString i) = b.cString i :=
      fun x => (h _ (agree_poke le_rfl hn)).symm
    rw [hsame, hsame] at hlt
    exact lt_irrefl _ hlt
  · intro h b' hb'
    have hend : (b'.cString i).length < n-i := by
      obtain ⟨j,hij,hj,hbyte⟩ := (length_cString_lt (by omega)).mp h
      exact (length_cString_lt (by omega)).mpr ⟨j,hij,hj,(hb' j (by omega)).symm.trans hbyte⟩
    dsimp only
    rw [cString_eq hi hn.le h, cString_eq hi hn.le hend, hb'.take hn.le]

/-- The lengths of two strings already tell whether the first one ends. -/
theorem length_cString_lt_of_own (hi : i < bufSize) (hj : j < bufSize) (hn : n < bufSize)
    (h : Own n b fun b => (b.cString i).length+(b.cString j).length) :
    (b.cString i).length < n-i := by
  by_contra hlong
  have hm : max n i < bufSize := max_lt hn hi
  have hlt := length_cString_poke (b := b) (le_max_right n i) hm (by omega)
  have hle : ((b.poke (max n i) 0).cString j).length ≤ ((b.poke (max n i) 1).cString j).length := by
    refine length_cString_mono hj.le fun k => ?_
    rw [byteAt_poke hm, byteAt_poke hm]
    split_ifs
    · exact fun hk => absurd rfl hk
    · exact id
  have h0 := h (b.poke (max n i) 0) (agree_poke (le_max_left n i) hm)
  have h1 := h (b.poke (max n i) 1) (agree_poke (le_max_left n i) hm)
  dsimp only at h0 h1
  omega

theorem Agree.long (h : Agree n b b') (hi : i+maxLen ≤ n) (hn : n < bufSize) :
    maxLen ≤ (b'.cString i).length ↔ maxLen ≤ (b.cString i).length := by
  rw [le_length_cString (by omega), le_length_cString (by omega)]
  exact forall₃_congr fun j _ hj => by rw [h j (by omega)]

/-- strcpy_s looks at ten bytes at most. -/
theorem own_strcpyS (hi : i+maxLen ≤ n) (hn : n < bufSize) :
    Own n b fun b => strcpyS (b.cString i) := by
  by_cases hlong : maxLen ≤ (b.cString i).length
  · exact determined_of_forall (dif_neg (not_lt.mpr hlong)) fun b' hb' =>
      dif_neg (not_lt.mpr ((hb'.long hi hn).mpr hlong))
  · exact ((own_cString (by omega) hn).mpr (by omega)).comp strcpyS

/-- The statement of SignUp. -/
def signUpStatement (b : Buffer) : List Byte :=
  bytesOf "INSERT INTO Account VALUES ('" ++ b.cString 2 ++ bytesOf "', '" ++ b.cString 12 ++
    bytesOf "')"

theorem own_signUpStatement (hn : n < bufSize) : Own n b signUpStatement ↔
    (b.cString 2).length < n-2 ∧ (b.cString 12).length < n-12 := by
  constructor
  · intro h
    have hlength : Own n b fun b => (b.cString 2).length+(b.cString 12).length := by
      intro b' hb'
      have hsame := congrArg List.length (h b' hb')
      simp only [signUpStatement, List.length_append] at hsame
      dsimp only
      omega
    refine ⟨length_cString_lt_of_own (by decide) (by decide) hn hlength,?_⟩
    refine length_cString_lt_of_own (j := 2) (by decide) (by decide) hn ?_
    simpa only [add_comm] using hlength
  · rintro ⟨hname,hpass⟩ b' hb'
    have hname' := (own_cString (by omega) hn).mpr hname b' hb'
    have hpass' := (own_cString (by omega) hn).mpr hpass b' hb'
    dsimp only at hname' hpass'
    simp only [signUpStatement]
    rw [hname', hpass']

/-- The fields of CS_LOGIN as Login takes them. -/
def login (b : Buffer) : Except Fault (Credential × Credential × ℤ) := do
  let name ← strcpyS (b.cString 2)
  let pass ← strcpyS (b.cString 12)
  return (name,pass,(b.byteAt 22).toInt)

theorem login_eq (b : Buffer) : b.login =
    if h : (b.cString 2).length < maxLen ∧ (b.cString 12).length < maxLen then
      .ok (⟨b.cString 2,h.1⟩,⟨b.cString 12,h.2⟩,(b.byteAt 22).toInt)
    else .error .invalidParameter := by
  simp only [login, strcpyS]
  by_cases hname : (b.cString 2).length < maxLen
  · by_cases hpass : (b.cString 12).length < maxLen
    · simp [hname, hpass, bind, Except.bind, pure, Except.pure]
    · simp [hname, hpass, bind, Except.bind]
  · simp [hname, bind, Except.bind]

theorem login_of_short (hname : ∃ j, 2 ≤ j ∧ j < 12 ∧ b.byteAt j = 0)
    (hpass : ∃ j, 12 ≤ j ∧ j < 22 ∧ b.byteAt j = 0) :
    ∃ name pass, b.login = .ok (name,pass,(b.byteAt 22).toInt) := by
  have hshort : (b.cString 2).length < maxLen ∧ (b.cString 12).length < maxLen :=
    ⟨(length_cString_lt (by decide)).mpr hname,(length_cString_lt (by decide)).mpr hpass⟩
  exact ⟨_,_,(login_eq b).trans (dif_pos hshort)⟩

theorem login_of_long (h : maxLen ≤ (b.cString 2).length ∨ maxLen ≤ (b.cString 12).length) :
    b.login = .error .invalidParameter := by
  rw [login_eq, dif_neg (by omega)]

/-- Login needs the whole struct, unless a string does not fit. -/
theorem own_login (hn : n < bufSize) : Own n b login ↔
    23 ≤ n ∨ (12 ≤ n ∧ maxLen ≤ (b.cString 2).length) ∨
      (22 ≤ n ∧ maxLen ≤ (b.cString 12).length) := by
  constructor
  · intro h
    by_cases hname : (b.cString 2).length < maxLen
    · obtain ⟨j,hj,hj',hterm⟩ : ∃ j, 2 ≤ j ∧ j < 12 ∧ b.byteAt j = 0 :=
        (length_cString_lt (by decide)).mp hname
      by_cases hpass : (b.cString 12).length < maxLen
      · -- another character
        obtain ⟨k,hk,hk',hterm'⟩ : ∃ k, 12 ≤ k ∧ k < 22 ∧ b.byteAt k = 0 :=
          (length_cString_lt (by decide)).mp hpass
        left
        by_contra hlt
        obtain ⟨y,hy⟩ := exists_ne_byte (b.byteAt 22)
        have hpoke : ∀ l, l < 22 → (b.poke 22 y).byteAt l = b.byteAt l := fun l hl => by
          rw [byteAt_poke (by decide), if_neg (by omega)]
        obtain ⟨_,_,hok⟩ := login_of_short ⟨j,hj,hj',hterm⟩ ⟨k,hk,hk',hterm'⟩
        obtain ⟨_,_,hok'⟩ := login_of_short (b := b.poke 22 y)
          ⟨j,hj,hj',(hpoke j (by omega)).trans hterm⟩ ⟨k,hk,hk',(hpoke k (by omega)).trans hterm'⟩
        have hsame := h (b.poke 22 y) (agree_poke (by omega) (by decide))
        rw [hok, hok', byteAt_poke (by decide), if_pos rfl] at hsame
        simp only [Except.ok.injEq, Prod.mk.injEq, Int8.toInt_inj] at hsame
        exact hy hsame.2.2.symm
      · -- a password that fits
        refine Or.inr (Or.inr ⟨?_,not_lt.mp hpass⟩)
        by_contra hlt
        have hpoke : ∀ l, l < 21 → (b.poke 21 0).byteAt l = b.byteAt l := fun l hl => by
          rw [byteAt_poke (by decide), if_neg (by omega)]
        obtain ⟨_,_,hok⟩ := login_of_short (b := b.poke 21 0)
          ⟨j,hj,hj',(hpoke j (by omega)).trans hterm⟩
          ⟨21,by decide,by decide,by rw [byteAt_poke (by decide), if_pos rfl]⟩
        have hsame := h (b.poke 21 0) (agree_poke (by omega) (by decide))
        rw [login_of_long (Or.inr (not_lt.mp hpass)), hok] at hsame
        cases hsame
    · -- two strings that fit
      refine Or.inr (Or.inl ⟨?_,not_lt.mp hname⟩)
      by_contra hlt
      obtain ⟨_,_,hok⟩ := login_of_short (b := (b.poke 11 0).poke 21 0)
        ⟨11,by decide,by decide,by
          rw [byteAt_poke (by decide), if_neg (by decide), byteAt_poke (by decide), if_pos rfl]⟩
        ⟨21,by decide,by decide,by rw [byteAt_poke (by decide), if_pos rfl]⟩
      have hsame := h ((b.poke 11 0).poke 21 0) ((agree_poke (by omega) (by decide)).trans
        (agree_poke (by omega) (by decide)))
      rw [login_of_long (Or.inl (not_lt.mp hname)), hok] at hsame
      cases hsame
  · rintro (h | ⟨h,hlong⟩ | ⟨h,hlong⟩)
    · intro b' hb'
      have hname := own_strcpyS (b := b) (show 2+10 ≤ n by omega) hn b' hb'
      have hpass := own_strcpyS (b := b) (show 12+10 ≤ n by omega) hn b' hb'
      dsimp only at hname hpass
      simp only [login]
      rw [hname, hpass, hb' 22 (by omega)]
    · exact determined_of_forall (login_of_long (Or.inl hlong)) fun b' hb' =>
        login_of_long (Or.inl ((hb'.long (by omega) hn).mpr hlong))
    · exact determined_of_forall (login_of_long (Or.inr hlong)) fun b' hb' =>
        login_of_long (Or.inr ((hb'.long (by omega) hn).mpr hlong))

end Buffer

/-- A `float` keeps the bytes it is read from. Above 2^23 it is not zero as an `int`, and
subtracted from itself it is zero or NaN. -/
class ExactBytes (F : Type) [FloatArith F] : Prop where
  ofBytes_inj : ∀ l l' : List Byte, l.length = 4 → l'.length = 4 →
    FloatArith.ofBytes (F := F) l = FloatArith.ofBytes l' → l = l'
  trunc_ne_zero : ∀ x y z : Byte, FloatArith.trunc (FloatArith.ofBytes (F := F) [x,y,z,75]) ≠ 0
  square_sub_self : ∀ a : F, FloatArith.square (FloatArith.sub a a) = 0 ∨
    FloatArith.square (FloatArith.sub a a) = CInt.intMin

/-- A `float` that was read from a packet, or the value of one that was computed. -/
inductive RawFloat
  | bits (l : List Byte)
  | value (q : ℚ)

def RawFloat.toRat : RawFloat → ℚ
  | .bits l => decodeFloat l
  | .value q => q

instance : FloatArith RawFloat where
  lit := .value
  add a b := .value (a.toRat+b.toRat)
  sub a b := .value (a.toRat-b.toRat)
  mul a b := .value (a.toRat*b.toRat)
  square a := FloatArith.square a.toRat
  trunc a := FloatArith.trunc a.toRat
  degree a b := .value (FloatArith.degree a.toRat b.toRat)
  ofBytes := .bits

theorem truncRat_ne_zero {q : ℚ} (h : 1 ≤ q) : truncRat q ≠ 0 := by
  have hfloor : 1 ≤ q.floor := Rat.le_floor_iff.mpr (by exact_mod_cast h)
  simp only [truncRat, CInt.ofDouble]
  rw [if_pos (zero_le_one.trans h)]
  split_ifs
  · omega
  · decide

/-- The value of a positive normal `float`. -/
theorem decodeFloat_normal {l : List Byte} {word : ℕ}
    (hword : l.foldr (fun b n => b.toBitVec.toNat + 256*n) 0 = word) (hsign : word / 2^31 = 0)
    (hexp : word / 2^23 % 256 ≠ 0) :
    decodeFloat l = (2^23 + (word % 2^23 : ℕ)) * 2^(word / 2^23 % 256) / 2^150 := by
  simp only [decodeFloat]
  rw [hword, if_pos hsign, if_neg hexp]

/-- The exponent of these bytes is 150 or 151. -/
theorem one_le_decodeFloat (x y z : Byte) : 1 ≤ decodeFloat [x,y,z,75] := by
  have hx := x.toBitVec.isLt
  have hy := y.toBitVec.isLt
  have hz := z.toBitVec.isLt
  have h75 : (75 : Byte).toBitVec.toNat = 75 := by decide
  have hword : [x,y,z,75].foldr (fun b n => b.toBitVec.toNat + 256*n) 0 =
      x.toBitVec.toNat+256*(y.toBitVec.toNat+256*(z.toBitVec.toNat+256*75)) := by
    rw [List.foldr_cons, List.foldr_cons, List.foldr_cons, List.foldr_cons, h75]
    rfl
  have hlo : 75*2^24 ≤
      x.toBitVec.toNat+256*(y.toBitVec.toNat+256*(z.toBitVec.toNat+256*75)) := by omega
  have hhi : x.toBitVec.toNat+256*(y.toBitVec.toNat+256*(z.toBitVec.toNat+256*75)) < 76*2^24 := by
    omega
  generalize x.toBitVec.toNat+256*(y.toBitVec.toNat+256*(z.toBitVec.toNat+256*75)) = word
    at hword hlo hhi
  have hexp : 150 ≤ word / 2^23 % 256 := by omega
  have hone : (1 : ℚ) ≤ 2^23 + (word % 2^23 : ℕ) :=
    le_add_of_le_of_nonneg (one_le_pow₀ one_le_two) (Nat.cast_nonneg _)
  have hpow : (2 : ℚ)^150 ≤ 2^(word / 2^23 % 256) := pow_le_pow_right₀ one_le_two hexp
  rw [decodeFloat_normal hword (by omega) (by omega), le_div_iff₀ (pow_pos two_pos 150)]
  exact mul_le_mul hone hpow (pow_nonneg zero_le_two 150) (zero_le_one.trans hone)

instance : ExactBytes RawFloat where
  ofBytes_inj l l' _ _ h := RawFloat.bits.inj h
  trunc_ne_zero x y z := truncRat_ne_zero (one_le_decodeFloat x y z)
  square_sub_self a := by
    left
    change truncRat ((a.toRat-a.toRat)^2) = 0
    rw [sub_self]
    decide +kernel

namespace Buffer
variable {F : Type} [FloatArith F] {n i : ℕ} {b : Buffer}

/-- A `float` field. -/
def float (b : Buffer) (i : ℕ) : F := FloatArith.ofBytes ((b.bytes.drop i).take 4)

theorem ofBuffer_eq (b : Buffer) (i : ℕ) :
    (Position.ofBuffer b i : Position F) = ⟨b.float i,b.float (i+4),b.float (i+8)⟩ := rfl

theorem field_eq (hi : i+4 ≤ bufSize) : (b.bytes.drop i).take 4 =
    [b.byteAt i,b.byteAt (i+1),b.byteAt (i+2),b.byteAt (i+3)] := by
  have hlength : ((b.bytes.drop i).take 4).length = 4 := by
    rw [List.length_take, List.length_drop, b.size_eq]
    omega
  refine List.ext_getElem hlength fun j hj _ => ?_
  have hbyte := field_byteAt (b := b) (i := i) (hlength ▸ hj)
  rw [List.getD_eq_getElem _ _ hj] at hbyte
  rw [hbyte]
  have hlt : j < 4 := hlength ▸ hj
  interval_cases j <;> rfl

theorem own_float_of_le (h : i+4 ≤ n) (hi : i+4 ≤ bufSize) :
    Own n b (fun b => (b.float i : F)) :=
  ((own_field hi (by decide)).mpr h).comp FloatArith.ofBytes

theorem own_ofBuffer_of_le (h : i+12 ≤ n) (hi : i+12 ≤ bufSize) :
    Own n b (fun b => (Position.ofBuffer b i : Position F)) := by
  intro b' hb'
  have hx := own_float_of_le (F := F) (b := b) (i := i) (n := n) (by omega) (by omega) b' hb'
  have hy := own_float_of_le (F := F) (b := b) (i := i+4) (n := n) (by omega) (by omega) b' hb'
  have hz := own_float_of_le (F := F) (b := b) (i := i+8) (n := n) (by omega) (by omega) b' hb'
  dsimp only at hx hy hz ⊢
  rw [ofBuffer_eq, ofBuffer_eq, hx, hy, hz]

/-- The velocity that SetVelocity takes over, if any. -/
def velocity (i : ℕ) (b : Buffer) : Option (Position F) :=
  if (Position.ofBuffer b i : Position F).isZero then none else some (Position.ofBuffer b i)

theorem isZero_ofBuffer : (Position.ofBuffer b i : Position F).isZero = true ↔
    FloatArith.trunc (b.float i : F) = 0 ∧ FloatArith.trunc (b.float (i+4) : F) = 0 :=
  decide_eq_true_iff

theorem own_velocity_of_le (h : i+12 ≤ n ∨ (i+8 ≤ n ∧ (Position.ofBuffer b i : Position F).isZero))
    (hi : i+12 ≤ bufSize) : Own n b (velocity (F := F) i) := by
  cases h with
  | inl h => exact (own_ofBuffer_of_le h hi).comp fun v => if v.isZero then none else some v
  | inr h =>
    obtain ⟨h,hzero⟩ := h
    refine determined_of_forall (if_pos hzero) fun b' hb' => if_pos ?_
    have hx := own_float_of_le (F := F) (b := b) (i := i) (n := n) (by omega) (by omega) b' hb'
    have hy := own_float_of_le (F := F) (b := b) (i := i+4) (n := n) (by omega) (by omega) b' hb'
    dsimp only at hx hy
    rw [isZero_ofBuffer] at hzero ⊢
    rwa [← hx, ← hy]

theorem float_poke {j : ℕ} {x : Byte} (hj : j < bufSize) (h : j < i ∨ i+4 ≤ j)
    (hi : i+4 ≤ bufSize) : ((b.poke j x).float i : F) = b.float i := by
  simp only [float]
  rw [field_eq hi, field_eq hi]
  simp only [byteAt_poke hj]
  rw [if_neg (by omega), if_neg (by omega), if_neg (by omega), if_neg (by omega)]

/-- The high byte of a `float`. -/
theorem float_poke_high {x : Byte} (hi : i+4 ≤ bufSize) : ((b.poke (i+3) x).float i : F) =
    FloatArith.ofBytes [b.byteAt i,b.byteAt (i+1),b.byteAt (i+2),x] := by
  simp only [float]
  rw [field_eq hi]
  simp only [byteAt_poke (show i+3 < bufSize by omega)]
  rw [if_neg (by omega), if_neg (by omega), if_neg (by omega), if_pos trivial]

variable [ExactBytes F]

theorem exists_ne_float (hi : i+4 ≤ bufSize) (b : Buffer) :
    ∃ x, ((b.poke (i+3) x).float i : F) ≠ b.float i := by
  obtain ⟨x,hx⟩ := exists_ne_byte (b.byteAt (i+3))
  refine ⟨x,fun h => hx ?_⟩
  rw [float_poke_high hi, float, field_eq hi] at h
  have hbytes := ExactBytes.ofBytes_inj _ _ rfl rfl h
  simpa using hbytes

theorem nontrivial_float : Nontrivial F := by
  obtain ⟨x,hx⟩ := exists_ne_float (F := F) (i := 0) (by decide) zero
  exact ⟨⟨_,_,hx⟩⟩

theorem nontrivial_position : Nontrivial (Position F) := by
  obtain ⟨x,y,hxy⟩ := nontrivial_float (F := F)
  exact ⟨⟨⟨x,x,x⟩,⟨y,y,y⟩,fun h => hxy (congrArg Position.x h)⟩⟩

theorem own_float (hi : i+4 ≤ bufSize) : Own n b (fun b => (b.float i : F)) ↔ i+4 ≤ n := by
  refine ⟨fun h => ?_,fun h => own_float_of_le h hi⟩
  by_contra hn
  obtain ⟨x,hx⟩ := exists_ne_float (F := F) hi b
  exact hx (h (b.poke (i+3) x) (agree_poke (by omega) (by omega))).symm

theorem own_ofBuffer (hi : i+12 ≤ bufSize) :
    Own n b (fun b => (Position.ofBuffer b i : Position F)) ↔ i+12 ≤ n :=
  ⟨fun h => (own_float (F := F) (i := i+8) (by omega)).mp (h.comp Position.z),
    fun h => own_ofBuffer_of_le h hi⟩

/-- A velocity is used as a whole, or only found to be zero. -/
theorem own_velocity (hi : i+12 ≤ bufSize) : Own n b (velocity (F := F) i) ↔
    i+12 ≤ n ∨ (i+8 ≤ n ∧ (Position.ofBuffer b i : Position F).isZero) := by
  refine ⟨fun h => ?_,fun h => own_velocity_of_le h hi⟩
  by_cases hzero : (Position.ofBuffer b i : Position F).isZero = true
  · refine Or.inr ⟨?_,hzero⟩
    by_contra hn
    -- a large velocity
    have hlarge : ¬ (Position.ofBuffer (b.poke (i+4+3) 75) i : Position F).isZero = true := by
      rw [isZero_ofBuffer, float_poke_high (by omega)]
      exact fun hzero => ExactBytes.trunc_ne_zero _ _ _ hzero.2
    have hsame := h (b.poke (i+4+3) 75) (agree_poke (by omega) (by omega))
    unfold velocity at hsame
    rw [if_pos hzero, if_neg hlarge] at hsame
    cases hsame
  · left
    by_contra hn
    -- another height
    obtain ⟨x,hx⟩ := exists_ne_float (F := F) (i := i+8) (by omega) b
    have hsame := h (b.poke (i+8+3) x) (agree_poke (by omega) (by omega))
    have hzero' : ¬ (Position.ofBuffer (b.poke (i+8+3) x) i : Position F).isZero = true := by
      rwa [isZero_ofBuffer, float_poke (by omega) (by omega) (by omega),
        float_poke (by omega) (by omega) (by omega), ← isZero_ofBuffer]
    unfold velocity at hsame
    rw [if_neg hzero, if_neg hzero', Option.some.injEq, ofBuffer_eq, ofBuffer_eq,
      Position.mk.injEq] at hsame
    exact hx hsame.2.2.symm

end Buffer

end LastHero
