import Mathlib.Data.Int.Notation
import Mathlib.Data.List.Basic
import Mathlib.Tactic.Common

/-! Length-prefixed streams: the first symbol of a packet announces its length. Decoding
splits off complete packets and leaves the unfinished rest, and it can be resumed from
that rest, which is what makes a receiver independent of how the stream is cut. -/
namespace LengthPrefix
variable {α : Type*} (size : α → ℤ)

/-- A complete packet: it starts with its own length. -/
def Packet (p : List α) : Prop := ∃ x xs, p = x::xs ∧ size x = p.length

/-- The complete packets at the front of a stream, and what is left behind them. Decoding
stops at a symbol that announces no positive length. -/
def decode : List α → List (List α) × List α
  | [] => ([],[])
  | x::xs =>
    if 0 < size x ∧ size x ≤ xs.length+1 then
      let r := decode (xs.drop ((size x).toNat-1))
      ((x::xs).take (size x).toNat :: r.1,r.2)
    else ([],x::xs)
termination_by l => l.length
decreasing_by simp only [List.length_drop, List.length_cons]; omega

/-- Decoding did not stop at a symbol that announces no positive length. -/
def Framed (l : List α) : Prop := ∀ x ∈ (decode size l).2.head?, 0 < size x

variable {size} {l p a b : List α} {x : α} {xs : List α}

@[simp] theorem decode_nil : decode size ([] : List α) = ([],[]) := by
  rw [decode]

/-- Too short for the announced length, or no length announced. -/
theorem decode_stop (h : ¬ (0 < size x ∧ size x ≤ xs.length+1)) :
    decode size (x::xs) = ([],x::xs) := by
  rw [decode, if_neg h]

theorem decode_packet (hp : Packet size p) :
    decode size (p++l) = (p::(decode size l).1,(decode size l).2) := by
  obtain ⟨x,xs,rfl,hx⟩ := hp
  rw [List.length_cons] at hx
  rw [List.cons_append, decode, if_pos (by simp only [List.length_append]; omega)]
  have hn : (size x).toNat = xs.length+1 := by omega
  simp [hn]

/-- A stream that starts with a packet announces at most its own length. -/
theorem Packet.append_cons (hp : Packet size p) (l : List α) :
    ∃ x xs, p++l = x::xs ∧ 0 < size x ∧ size x ≤ xs.length+1 := by
  obtain ⟨x,xs,rfl,hx⟩ := hp
  rw [List.length_cons] at hx
  exact ⟨x,xs++l,rfl,by omega,by simp only [List.length_append]; omega⟩

/-- A stream starts with at most one packet. -/
theorem packet_unique {q : List α} (hp : Packet size p) (hq : Packet size q)
    (h : p++a = q++b) : p = q ∧ a = b := by
  obtain ⟨x,xs,rfl,hx⟩ := hp
  obtain ⟨y,ys,rfl,hy⟩ := hq
  obtain ⟨rfl,-⟩ := List.cons.inj h
  exact List.append_inj h (by omega)

/-- A nonempty stream that announces at most its own length starts with a packet. -/
theorem exists_packet (hx : 0 < size x) (hl : size x ≤ xs.length+1) :
    ∃ p l, Packet size p ∧ x::xs = p++l ∧ p.length = (size x).toNat := by
  refine ⟨(x::xs).take (size x).toNat,(x::xs).drop (size x).toNat,⟨x,xs.take ((size x).toNat-1),?_,?_⟩,
    (List.take_append_drop _ _).symm,?_⟩
  · obtain ⟨n,hn⟩ : ∃ n, (size x).toNat = n+1 := ⟨(size x).toNat-1,by omega⟩
    simp [hn]
  · simp only [List.length_take, List.length_cons]; omega
  · simp only [List.length_take, List.length_cons]; omega

/-- The three shapes of a stream: finished, stopped, or a packet and more. -/
theorem decode_cases (size : α → ℤ) {motive : List α → Prop} (nil : motive [])
    (stop : ∀ x xs, ¬ (0 < size x ∧ size x ≤ xs.length+1) → motive (x::xs))
    (packet : ∀ p l, Packet size p → motive l → motive (p++l)) (l : List α) : motive l := by
  induction hn : l.length using Nat.strongRecOn generalizing l with
  | ind n ih =>
    cases l with
    | nil => exact nil
    | cons x xs =>
      by_cases h : 0 < size x ∧ size x ≤ xs.length+1
      · obtain ⟨p,l,hp,he,hlen⟩ := exists_packet h.1 h.2
        rw [he] at hn ⊢
        refine packet p l hp (ih l.length ?_ l rfl)
        rw [List.length_append] at hn
        omega
      · exact stop x xs h

/-- Decoding is resumable: the second part is decoded behind what the first one left. -/
theorem decode_append (a b : List α) :
    decode size (a++b) =
      ((decode size a).1 ++ (decode size ((decode size a).2++b)).1,
        (decode size ((decode size a).2++b)).2) := by
  induction a using decode_cases size with
  | nil => simp
  | stop x xs h => simp [decode_stop h]
  | packet p l hp ih =>
    rw [List.append_assoc, decode_packet hp, decode_packet hp, ih]
    simp

/-- A part of the stream contains the first packets of the whole. -/
theorem decode_take (n : ℕ) (l : List α) :
    (decode size (l.take n)).1 <+: (decode size l).1 := by
  conv_rhs => rw [← List.take_append_drop n l, decode_append]
  exact List.prefix_append _ _

/-- A stream of packets followed by a stream without one. -/
theorem decode_flatten {ps : List (List α)} (hps : ∀ p ∈ ps, Packet size p)
    (hl : decode size l = ([],l)) : decode size (ps.flatten++l) = (ps,l) := by
  induction ps with
  | nil => simpa using hl
  | cons p ps ih =>
    rw [List.flatten_cons, List.append_assoc, decode_packet (hps p (by simp)),
      ih fun q hq => hps q (List.mem_cons_of_mem _ hq)]

/-- A proper prefix of a packet contains no packet. -/
theorem decode_prefix (hp : Packet size (a++b)) (hb : b ≠ []) : decode size a = ([],a) := by
  obtain ⟨x,xs,he,hx⟩ := hp
  cases a with
  | nil => simp
  | cons y ys =>
    obtain ⟨rfl,rfl⟩ := List.cons.inj he
    apply decode_stop
    have hpos := List.length_pos_iff.mpr hb
    simp only [List.cons_append, List.length_cons, List.length_append] at hx
    omega

theorem framed_nil : Framed size ([] : List α) := by simp [Framed]

theorem framed_packet (hp : Packet size p) : Framed size (p++l) ↔ Framed size l := by
  simp [Framed, decode_packet hp]

theorem framed_stop (h : ¬ (0 < size x ∧ size x ≤ xs.length+1)) :
    Framed size (x::xs) ↔ 0 < size x := by
  simp [Framed, decode_stop h]

theorem framed_append (a b : List α) :
    Framed size (a++b) ↔ Framed size ((decode size a).2++b) := by
  simp only [Framed, decode_append a b]

/-- A symbol that stops decoding stays at the front however the stream goes on. -/
theorem Framed.left (h : Framed size (a++b)) : Framed size a := by
  induction a using decode_cases size with
  | nil => exact framed_nil
  | stop x xs hstop =>
    rw [framed_stop hstop]
    by_contra hx
    rw [List.cons_append, framed_stop (by omega)] at h
    exact hx h
  | packet p l hp ih =>
    rw [List.append_assoc, framed_packet hp] at h
    exact (framed_packet hp).mpr (ih h)

end LengthPrefix
