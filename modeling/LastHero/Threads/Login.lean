import LastHero.Game.Fields
import LastHero.Threads.Isolation

/-! The credentials in a login packet. Login copies two C strings out of packet_buf, and both have to
end within their fields. -/
namespace LastHero
variable {F : Type}

namespace Buffer
variable {b : Buffer} {i : ℕ}

/-- `char[MAXLEN]` at offset `i` of a packet. -/
def field (b : Buffer) (i : ℕ) : List Byte := (b.bytes.drop i).take maxLen

/-- A C string fits if and only if it ends within its field. -/
theorem length_cString_lt_maxLen (hi : i+maxLen ≤ bufSize) :
    (b.cString i).length < maxLen ↔ (0 : Byte) ∈ b.field i := by
  have hlength : (b.field i).length = maxLen := by
    simp only [field]
    rw [List.length_take, List.length_drop, b.size_eq]
    omega
  rw [length_cString_lt hi, List.mem_iff_getElem]
  constructor
  · rintro ⟨j,hij,hj,hbyte⟩
    refine ⟨j-i,by omega,?_⟩
    rw [← List.getD_eq_getElem _ 0, field, field_byteAt (by omega), Nat.add_sub_cancel' hij]
    exact hbyte
  · rintro ⟨k,hk,hbyte⟩
    rw [hlength] at hk
    refine ⟨i+k,Nat.le_add_right i k,by omega,?_⟩
    rwa [← List.getD_eq_getElem _ 0, field, field_byteAt hk] at hbyte

/-- Then it is the part of the field before the terminator. -/
theorem cString_eq_field (hi : i+maxLen ≤ bufSize) (h : (b.cString i).length < maxLen) :
    b.cString i = (b.field i).takeWhile (· ≠ 0) := by
  rw [cString_eq (Nat.le_add_right i maxLen) hi (by omega), List.drop_take,
    Nat.add_sub_cancel_left]
  rfl

end Buffer

namespace World
variable [FloatArith F] {w w' : World F} {uid : Slot} {getPath : ℤ × ℤ → ℤ × ℤ → List (ℤ × ℤ)}

/-- Login returns. It has queued the two fields of the packet up to their terminators, or nothing. -/
def DecodesLogin (w : World F) (uid : Slot) (buf : Buffer) : Prop :=
  ∃ w', w.login uid (buf.cString 2) (buf.cString 12) (buf.byteAt 22).toInt = .ok w' ∧
    (w'.quaryQueue = w.quaryQueue ∨ ∃ ev, w'.quaryQueue = w.quaryQueue ++ [ev] ∧
      ev.userId = uid ∧ ev.evId = .evLogin ∧
      ev.name.bytes = (buf.field 2).takeWhile (· ≠ 0) ∧
      ev.pass.bytes = (buf.field 12).takeWhile (· ≠ 0))

/-- Login decodes exactly the packets in which both fields hold a terminator. -/
theorem decodes_login_iff {as : List (ServerInput F)}
    (hrun : Runs.run (serverNext getPath) start as = some w)
    (hconnected : (w.client uid).isconnected = true) (buf : Buffer) :
    w.DecodesLogin uid buf ↔ (0 : Byte) ∈ buf.field 2 ∧ (0 : Byte) ∈ buf.field 12 := by
  rw [← Buffer.length_cString_lt_maxLen (by decide), ← Buffer.length_cString_lt_maxLen (by decide)]
  constructor
  · rintro ⟨w',hok,-⟩
    exact login_fits hok
  · rintro ⟨hname,hpass⟩
    obtain ⟨p,hp⟩ := Option.isSome_iff_exists.mp (seated_run hrun uid hconnected)
    refine ⟨_,(login_of_fits hname hpass _).trans (onPlayer_some hp),Or.inr ⟨_,rfl,rfl,rfl,?_⟩⟩
    exact ⟨Buffer.cString_eq_field (by decide) hname,Buffer.cString_eq_field (by decide) hpass⟩

/-- The first client of the server. -/
def visited : World ℚ := start.accept zeroPlayer

/-- It logs in as "ab" with the password "cde". -/
def hello : Buffer :=
  Buffer.zero.fill [23,0,97,98,0,0,0,0,0,0,0,0,99,100,101,0,0,0,0,0,0,0,1]

theorem decodes_login_visited : visited.DecodesLogin 0 hello ∧
    (hello.field 2).takeWhile (· ≠ 0) = [97,98] ∧
      (hello.field 12).takeWhile (· ≠ 0) = [99,100,101] := by
  refine ⟨(decodes_login_iff (show Runs.run (serverNext fun _ _ => []) start
    [.thread (.accept zeroPlayer)] = some visited from rfl) rfl hello).mpr ?_,rfl,rfl⟩
  exact ⟨by decide,by decide⟩

/-- An id of ten characters ends the process. -/
theorem long_id_ends_server : ∃ (as : List (ServerInput ℚ)) (w : World ℚ) (buf : Buffer),
    Runs.run (serverNext fun _ _ => []) start as = some w ∧ (w.client 0).isconnected = true ∧
      ¬ w.DecodesLogin 0 buf := by
  refine ⟨[.thread (.accept zeroPlayer)],visited,
    Buffer.zero.fill ([23,0] ++ List.replicate 10 97),rfl,rfl,?_⟩
  rintro ⟨w',hok,-⟩
  have habort : visited.login 0
      ((Buffer.zero.fill ([23,0] ++ List.replicate 10 97)).cString 2)
      ((Buffer.zero.fill ([23,0] ++ List.replicate 10 97)).cString 12)
      ((Buffer.zero.fill ([23,0] ++ List.replicate 10 97)).byteAt 22).toInt =
        .error .invalidParameter := rfl
  cases habort.symm.trans hok

end World

end LastHero
