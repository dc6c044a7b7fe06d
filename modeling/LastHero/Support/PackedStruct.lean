import Mathlib.Data.List.Forall2
import Mathlib.Tactic

/-! Packed structs: members without padding, little-endian, in memory that held something else
before. Reading by the types of the members gives back what was assigned, modulo the width of
the member, and anything at all for a member that was never assigned. -/
namespace PackedStruct

/-- Types of members. -/
inductive Kind
  | char
  | short
  | float
  | text (n : ℕ)
  deriving DecidableEq, Repr

/-- `sizeof` -/
def Kind.size : Kind → ℕ
  | .char => 1
  | .short => 2
  | .float => 4
  | .text n => n

/-- The size of a struct. -/
def structSize (ks : List Kind) : ℕ := (ks.map Kind.size).sum

/-- Characters that fit into an array with their terminator. -/
structure Text (n : ℕ) where
  chars : List Int8
  fits : chars.length < n

/-- Four bytes for every number. -/
structure FloatBytes (F : Type*) where
  bytes : F → List Int8
  length_bytes : ∀ x, (bytes x).length = 4

/-- A member with the value that was assigned to it, if any was. -/
inductive Member (F : Type*)
  | char (v : Option ℤ)
  | short (v : Option ℤ)
  | float (v : Option F)
  | text (n : ℕ) (v : Option (Text n))

/-- What a reader finds in a member; a number is read as its bytes. -/
inductive Value
  | char (n : ℤ)
  | short (n : ℤ)
  | float (bytes : List Int8)
  | text (chars : List Int8)
  deriving DecidableEq, Repr

variable {F : Type*}

def Member.kind : Member F → Kind
  | .char _ => .char
  | .short _ => .short
  | .float _ => .float
  | .text n _ => .text n

/-- The bytes of a member, in memory with the contents `mem`. -/
def Member.bytes (fmt : FloatBytes F) (mem : ℕ → Int8) : Member F → List Int8
  | .char (some v) => [Int8.ofInt v]
  | .short (some v) => [Int8.ofInt v,Int8.ofInt (v/256)]
  | .float (some x) => fmt.bytes x
  | .text n (some s) => s.chars ++ 0::(List.range (n-s.chars.length-1)).map fun i =>
      mem (s.chars.length+1+i)
  | m => (List.range m.kind.size).map mem

/-- The bytes of a struct. -/
def layout (fmt : FloatBytes F) : (ℕ → Int8) → List (Member F) → List Int8
  | _, [] => []
  | mem, m::ms => m.bytes fmt mem ++ layout fmt (fun i => mem (m.kind.size+i)) ms

/-- A member that starts at the first byte. -/
def Kind.read : Kind → List Int8 → Value
  | .char, l => .char (l.getD 0 0).toInt
  | .short, l => .short ((l.getD 0 0).toInt % 256 + 256*(l.getD 1 0).toInt)
  | .float, l => .float (l.take 4)
  | .text n, l => .text ((l.take n).takeWhile (· ≠ 0))

/-- The members of a struct that starts at the first byte. -/
def parse : List Kind → List Int8 → List Value
  | [], _ => []
  | k::ks, l => k.read l::parse ks (l.drop k.size)

/-- A reader finds the value that was assigned, as far as the member holds it. -/
inductive Member.Shows (fmt : FloatBytes F) : Member F → Value → Prop
  | char (v : ℤ) : Shows fmt (.char (some v)) (.char (v.bmod 256))
  | short (v : ℤ) : Shows fmt (.short (some v)) (.short (v.bmod 65536))
  | float (x : F) : Shows fmt (.float (some x)) (.float (fmt.bytes x))
  | text (n : ℕ) (s : Text n) :
    Shows fmt (.text n (some s)) (.text (s.chars.takeWhile (· ≠ 0)))
  | unsetChar (v : ℤ) : Shows fmt (.char none) (.char v)
  | unsetShort (v : ℤ) : Shows fmt (.short none) (.short v)
  | unsetFloat (l : List Int8) : Shows fmt (.float none) (.float l)
  | unsetText (n : ℕ) (l : List Int8) : Shows fmt (.text n none) (.text l)

variable {fmt : FloatBytes F} {mem : ℕ → Int8}

@[simp] theorem length_bytes (m : Member F) : (m.bytes fmt mem).length = m.kind.size := by
  cases m with
  | char v => cases v <;> simp [Member.bytes, Member.kind, Kind.size]
  | short v => cases v <;> simp [Member.bytes, Member.kind, Kind.size]
  | float v => cases v <;> simp [Member.bytes, Member.kind, Kind.size, fmt.length_bytes]
  | text n v =>
    cases v with
    | none => simp [Member.bytes, Member.kind, Kind.size]
    | some s =>
      have hfits := s.fits
      simp only [Member.bytes, Member.kind, Kind.size, List.length_append, List.length_cons,
        List.length_map, List.length_range]
      omega

@[simp] theorem length_layout (ms : List (Member F)) (mem : ℕ → Int8) :
    (layout fmt mem ms).length = structSize (ms.map Member.kind) := by
  induction ms generalizing mem with
  | nil => rfl
  | cons m ms ih =>
    rw [layout, List.length_append, length_bytes, ih]
    simp [structSize]

theorem toInt_ofInt_bmod (v : ℤ) : (Int8.ofInt v).toInt = v.bmod 256 := by
  rw [Int8.toInt_ofInt]

/-- Two signed bytes, the low one first. -/
theorem short_bytes (v : ℤ) :
    (Int8.ofInt v).toInt % 256 + 256*(Int8.ofInt (v/256)).toInt = v.bmod 65536 := by
  rw [toInt_ofInt_bmod, toInt_ofInt_bmod]
  simp only [Int.bmod_def]
  split_ifs <;> omega

/-- The terminator ends the string whatever follows it. -/
theorem takeWhile_terminated (s l : List Int8) :
    (s ++ 0::l).takeWhile (· ≠ 0) = s.takeWhile (· ≠ 0) := by
  induction s with
  | nil => simp
  | cons c s ih =>
    by_cases hc : c = 0
    · simp [hc]
    · rw [List.cons_append, List.takeWhile_cons_of_pos (by simpa using hc),
        List.takeWhile_cons_of_pos (by simpa using hc), ih]

/-- One member, in front of anything. -/
theorem shows_read (m : Member F) (l : List Int8) :
    m.Shows fmt (m.kind.read (m.bytes fmt mem ++ l)) := by
  cases m with
  | char v =>
    cases v with
    | none => exact .unsetChar _
    | some v =>
      simp only [Member.kind, Member.bytes, Kind.read, List.cons_append, List.getD_cons_zero]
      rw [toInt_ofInt_bmod]
      exact .char v
  | short v =>
    cases v with
    | none => exact .unsetShort _
    | some v =>
      simp only [Member.kind, Member.bytes, Kind.read, List.cons_append, List.getD_cons_zero,
        List.getD_cons_succ]
      rw [short_bytes]
      exact .short v
  | float v =>
    cases v with
    | none => exact .unsetFloat _
    | some x =>
      simp only [Member.kind, Member.bytes, Kind.read]
      rw [List.take_left' (fmt.length_bytes x)]
      exact .float x
  | text n v =>
    cases v with
    | none => exact .unsetText n _
    | some s =>
      have hlength : ((Member.text n (some s)).bytes fmt mem).length = n := length_bytes _
      simp only [Member.kind, Kind.read]
      rw [List.take_left' hlength, Member.bytes, takeWhile_terminated]
      exact .text n s

/-- A struct is read member by member, whatever the memory held and whatever follows. -/
theorem shows_parse (ms : List (Member F)) (mem : ℕ → Int8) (l : List Int8) :
    List.Forall₂ (Member.Shows fmt) ms (parse (ms.map Member.kind) (layout fmt mem ms ++ l)) := by
  induction ms generalizing mem with
  | nil => exact .nil
  | cons m ms ih =>
    rw [layout, List.append_assoc, List.map_cons, parse, List.drop_left' (length_bytes m)]
    exact .cons (shows_read m _) (ih _)

/-- The bytes begin with a struct. -/
def Begins (fmt : FloatBytes F) (ms : List (Member F)) (l : List Int8) : Prop :=
  ∃ mem rest, l = layout fmt mem ms ++ rest

section Begins
variable {m : Member F} {ms : List (Member F)} {l : List Int8} {v : ℤ}

/-- Behind the first member. -/
theorem Begins.tail (h : Begins fmt (m::ms) l) : Begins fmt ms (l.drop m.kind.size) := by
  obtain ⟨mem,rest,rfl⟩ := h
  rw [layout, List.append_assoc, List.drop_left' (length_bytes m)]
  exact ⟨_,rest,rfl⟩

theorem Begins.shows (h : Begins fmt (m::ms) l) : m.Shows fmt (m.kind.read l) := by
  obtain ⟨mem,rest,rfl⟩ := h
  rw [layout, List.append_assoc]
  exact shows_read m _

theorem Begins.char (h : Begins fmt (.char (some v)::ms) l) : (l.getD 0 0).toInt = v.bmod 256 := by
  have hshows := h.shows
  simp only [Member.kind, Kind.read] at hshows
  generalize (l.getD 0 0).toInt = n at hshows
  cases hshows
  rfl

theorem Begins.short (h : Begins fmt (.short (some v)::ms) l) :
    (l.getD 0 0).toInt % 256 + 256*(l.getD 1 0).toInt = v.bmod 65536 := by
  have hshows := h.shows
  simp only [Member.kind, Kind.read] at hshows
  generalize (l.getD 0 0).toInt % 256 + 256*(l.getD 1 0).toInt = n at hshows
  cases hshows
  rfl

theorem Begins.float {x : F} (h : Begins fmt (.float (some x)::ms) l) : l.take 4 = fmt.bytes x := by
  have hshows := h.shows
  simp only [Member.kind, Kind.read] at hshows
  generalize l.take 4 = n at hshows
  cases hshows
  rfl

/-- A reader of strings that knows no length. -/
theorem Begins.text {n : ℕ} {s : Text n} (h : Begins fmt (.text n (some s)::ms) l) :
    l.takeWhile (· ≠ 0) = s.chars.takeWhile (· ≠ 0) := by
  obtain ⟨mem,rest,rfl⟩ := h
  rw [layout, List.append_assoc, Member.bytes, List.append_assoc, List.cons_append,
    takeWhile_terminated]

end Begins

end PackedStruct
