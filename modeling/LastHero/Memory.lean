import Mathlib.Tactic

/-! The byte buffers of the server: fixed-size arrays, checked copies between them, and the
C strings and little-endian fields that the packet structs read out of them. -/
namespace LastHero

/-- `char` is signed on the target. -/
abbrev Byte := Int8

/-- BUFSIZE -/
abbrev bufSize : ℕ := 512

/-- What ends the process instead of letting a function return. -/
inductive Fault
  | badCopy
  | nullPlayer
  | invalidParameter
  | exit
  | emptyPath
  | badIndex
  deriving DecidableEq, Repr

theorem bind_eq_ok {α β : Type} {x : Except Fault α} {f : α → Except Fault β} {b : β} :
    x >>= f = .ok b ↔ ∃ a, x = .ok a ∧ f a = .ok b := by
  cases x with
  | error e => simp [bind, Except.bind]
  | ok a => simp [bind, Except.bind]

theorem toOption_eq_some {α : Type} {x : Except Fault α} {a : α} (h : x.toOption = some a) :
    x = .ok a := by
  cases x with
  | error e => cases h
  | ok b =>
    cases h
    rfl

/-- `char buf[BUFSIZE]` -/
structure Buffer where
  bytes : List Byte
  size_eq : bytes.length = bufSize

namespace Buffer

/-- A buffer with static storage. -/
def zero : Buffer := ⟨List.replicate bufSize 0,List.length_replicate⟩

/-- A completed receive writes the chunk to the front and leaves the bytes behind it. -/
def fill (b : Buffer) (chunk : List Byte) : Buffer :=
  ⟨(chunk ++ b.bytes.drop chunk.length).take bufSize,by
    simp only [List.length_take, List.length_append, List.length_drop, b.size_eq]; omega⟩

theorem fill_take (b : Buffer) {chunk : List Byte} (h : chunk.length ≤ bufSize) :
    (b.fill chunk).bytes.take chunk.length = chunk := by
  rw [fill, List.take_take, Nat.min_eq_left h, List.take_left]

/-- `buf[i]`, inside the buffer. -/
def read (b : Buffer) (i : ℤ) : Except Fault Byte :=
  if i < 0 then .error .badCopy
  else match b.bytes[i.toNat]? with
    | some x => .ok x
    | none => .error .badCopy

/-- `buf[i]` for a constant index. -/
def byteAt (b : Buffer) (i : ℕ) : Byte := b.bytes.getD i 0

/-- A `short` field at offset `i`, little-endian. -/
def short (b : Buffer) (i : ℕ) : ℤ := (b.byteAt i).toInt % 256 + 256 * (b.byteAt (i+1)).toInt

/-- The C string that starts at offset `i`. -/
def cString (b : Buffer) (i : ℕ) : List Byte := (b.bytes.drop i).takeWhile (· ≠ 0)

end Buffer

/-- `memcpy(dst+off, src+p, n)`. A negative `n` becomes a huge `size_t`. -/
def memcpy (dst : Buffer) (off : ℤ) (src : Buffer) (p n : ℤ) : Except Fault Buffer :=
  if h : 0 ≤ n ∧ 0 ≤ off ∧ off+n ≤ bufSize ∧ 0 ≤ p ∧ p+n ≤ bufSize then
    .ok ⟨dst.bytes.take off.toNat ++ (src.bytes.drop p.toNat).take n.toNat ++
        dst.bytes.drop (off+n).toNat,by
      simp only [List.length_append, List.length_take, List.length_drop, dst.size_eq, src.size_eq]
      omega⟩
  else .error .badCopy

theorem memcpy_ok (dst : Buffer) (off : ℤ) (src : Buffer) (p n : ℤ)
    (h : 0 ≤ n ∧ 0 ≤ off ∧ off+n ≤ bufSize ∧ 0 ≤ p ∧ p+n ≤ bufSize) :
    ∃ b, memcpy dst off src p n = .ok b ∧
      b.bytes.take (off+n).toNat =
        dst.bytes.take off.toNat ++ (src.bytes.drop p.toNat).take n.toNat := by
  refine ⟨_,dif_pos h,?_⟩
  apply List.take_left'
  simp only [List.length_append, List.length_take, List.length_drop, dst.size_eq, src.size_eq]
  omega

/-- MAXLEN -/
abbrev maxLen : ℕ := 10

/-- `char name[10]` with its terminator, the only strings that `strcpy_s` can produce. -/
structure Credential where
  bytes : List Byte
  fits : bytes.length < maxLen

/-- `strcpy_s` into an array of MAXLEN chars; it does not return when the string and its
terminator do not fit. -/
def strcpyS (src : List Byte) : Except Fault Credential :=
  if h : src.length < maxLen then .ok ⟨src,h⟩ else .error .invalidParameter

instance : Inhabited Credential := ⟨[],by decide⟩

end LastHero
