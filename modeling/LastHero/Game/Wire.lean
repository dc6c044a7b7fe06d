import LastHero.Game.Protocol
import LastHero.Receive.Reassembly
import LastHero.Support.PackedStruct

/-! The structs of protocol.h that the server sends. They are local variables, so the members that
nobody assigns hold what the stack held; a client that splits its stream by the size bytes and reads
the members by the type byte nevertheless finds every packet with the fields that were assigned. -/
namespace LastHero
open PackedStruct

/-- The types of the packets to the clients. -/
inductive ScType
  | scLeave
  | scLoginFail
  | scLoginOk
  | scSignupOk
  | scSignupFail
  | scUpdateObj
  | scEnterObj
  | scAttack
  | scGuard
  | scSetHost
  | scJump
  | scEvade
  | scWeaponOn
  | scWeaponOff
  | scBerserk
  | scLevelUp
  | scDead
  | scDamaged
  | scGetExp
  | scBlock
  | scHide
  | scHideOff
  | scAssassin
  | scMoveStop
  | scSwordOn
  | scSwordOff
  | scHammerOn
  | scHammerOff
  | scBossAttack
  | scBoneBreak
  | scSetRotation
  | scUpdateMoveState
  deriving DecidableEq, Repr

namespace ScType

/-- Values of PACKET_TYPE. -/
def code : ScType → ℤ
  | .scLeave => 10
  | .scLoginFail => 13
  | .scLoginOk => 14
  | .scSignupOk => 15
  | .scSignupFail => 16
  | .scUpdateObj => 18
  | .scEnterObj => 19
  | .scAttack => 25
  | .scGuard => 26
  | .scSetHost => 29
  | .scJump => 31
  | .scEvade => 35
  | .scWeaponOn => 36
  | .scWeaponOff => 37
  | .scBerserk => 39
  | .scLevelUp => 44
  | .scDead => 45
  | .scDamaged => 46
  | .scGetExp => 47
  | .scBlock => 48
  | .scHide => 53
  | .scHideOff => 55
  | .scAssassin => 57
  | .scMoveStop => 59
  | .scSwordOn => 65
  | .scSwordOff => 66
  | .scHammerOn => 67
  | .scHammerOff => 68
  | .scBossAttack => 74
  | .scBoneBreak => 76
  | .scSetRotation => 80
  | .scUpdateMoveState => 82

def all : List ScType :=
  [.scLeave,.scLoginFail,.scLoginOk,.scSignupOk,.scSignupFail,.scUpdateObj,.scEnterObj,.scAttack,
    .scGuard,.scSetHost,.scJump,.scEvade,.scWeaponOn,.scWeaponOff,.scBerserk,.scLevelUp,.scDead,
    .scDamaged,.scGetExp,.scBlock,.scHide,.scHideOff,.scAssassin,.scMoveStop,.scSwordOn,.scSwordOff,
    .scHammerOn,.scHammerOff,.scBossAttack,.scBoneBreak,.scSetRotation,.scUpdateMoveState]

def ofByte (b : Byte) : Option ScType := all.find? fun t => t.code = b.toInt

/-- Distinct types have distinct bytes. -/
theorem ofByte_code (t : ScType) : ofByte (Int8.ofInt t.code) = some t := by
  cases t <;> decide

/-- `Position` -/
def position : List Kind := [.float,.float,.float]

/-- The members of the struct behind size and type. -/
def kinds : ScType → List Kind
  | .scLoginFail | .scSignupOk | .scSignupFail | .scSetHost => []
  | .scLoginOk => [.short,.text maxLen]
  | .scUpdateObj => position ++ .short::(position ++ position)
  | .scEnterObj => .char::.text maxLen::.short::position
  | .scAttack => [.short,.char]
  | .scWeaponOn => [.char,.short]
  | .scLevelUp => [.short,.short,.short,.short,.short]
  | .scDamaged | .scBoneBreak | .scUpdateMoveState => [.short,.short]
  | .scMoveStop => .short::(position ++ position)
  | .scBossAttack => .short::.char::position
  | .scSetRotation => .short::position
  | .scLeave | .scGuard | .scJump | .scEvade | .scWeaponOff | .scBerserk | .scDead | .scGetExp
  | .scBlock | .scHide | .scHideOff | .scAssassin | .scSwordOn | .scSwordOff | .scHammerOn
  | .scHammerOff => [.short]

/-- The whole struct. -/
def struct (t : ScType) : List Kind := .char::.char::t.kinds

/-- `sizeof` of a struct is a positive `char`. -/
theorem structSize_struct_mem (t : ScType) : 0 < structSize t.struct ∧ structSize t.struct < 128 := by
  cases t <;> decide

end ScType

/-- B_STATE is numbered from 0. -/
def BState.code (s : BState) : ℤ := (s.ctorIdx : ℤ)

variable {F : Type}

/-- `strcpy_s` into `char name[MAXLEN]` -/
def Credential.text (c : Credential) : Text maxLen := ⟨c.bytes,c.fits⟩

namespace Packet

def position (p : Option (Position F)) : List (Member F) :=
  [.float (p.map Position.x),.float (p.map Position.y),.float (p.map Position.z)]

def oid (n : ℤ) : Member F := .short (some n)

def scType : Packet F → ScType
  | .scLeave .. => .scLeave
  | .scLoginFail => .scLoginFail
  | .scLoginOk .. => .scLoginOk
  | .scSignupOk => .scSignupOk
  | .scSignupFail => .scSignupFail
  | .scUpdateObj .. => .scUpdateObj
  | .scEnterPlayer .. | .scEnterMonster .. => .scEnterObj
  | .scAttack .. => .scAttack
  | .scGuard .. => .scGuard
  | .scJump .. => .scJump
  | .scEvade .. => .scEvade
  | .scWeaponOn .. => .scWeaponOn
  | .scWeaponOff .. => .scWeaponOff
  | .scSetHost => .scSetHost
  | .scBerserk .. => .scBerserk
  | .scLevelUp .. => .scLevelUp
  | .scDead .. => .scDead
  | .scDamaged .. => .scDamaged
  | .scGetExp .. => .scGetExp
  | .scBlock .. => .scBlock
  | .scHide .. => .scHide
  | .scHideOff .. => .scHideOff
  | .scAssassin .. => .scAssassin
  | .scMoveStop .. => .scMoveStop
  | .scSwordOn .. => .scSwordOn
  | .scSwordOff .. => .scSwordOff
  | .scHammerOn .. => .scHammerOn
  | .scHammerOff .. => .scHammerOff
  | .scBoneBreak .. => .scBoneBreak
  | .scSetRotation .. => .scSetRotation
  | .scUpdateMoveState .. => .scUpdateMoveState
  | .scBossAttack .. | .scBossAttackRelay .. => .scBossAttack

/-- The members as the server assigns them; SC_MOVE_STOP gets no rotation, SC_WEAPON_ON no type. -/
def members : Packet F → List (Member F)
  | .scLoginFail | .scSignupOk | .scSignupFail | .scSetHost => []
  | .scLoginOk uid => [oid uid,.text maxLen none]
  | .scUpdateObj id pos rotation velocity =>
    position (some pos) ++ oid id::(position (some rotation) ++ position velocity)
  | .scEnterPlayer oType name id pos =>
    .char (some oType)::.text maxLen (some name.text)::oid id::position (some pos)
  | .scEnterMonster oType id pos =>
    .char (some oType)::.text maxLen none::oid id::position (some pos)
  | .scAttack id combo => [oid id,.char (some combo)]
  | .scWeaponOn id => [.char none,oid id]
  | .scLevelUp id level exp hp mp =>
    [oid id,.short (some level),.short (some exp),.short (some hp),.short (some mp)]
  | .scDamaged id hp => [oid id,.short (some hp)]
  | .scGetExp exp => [.short (some exp)]
  | .scMoveStop id pos => oid id::(position (some pos) ++ position none)
  | .scBoneBreak id part =>
    [oid id,.short ((boneParts.find? fun q => q.1 = part).map fun q => (q.2 : ℤ))]
  | .scSetRotation id rot => oid id::position (some rot)
  | .scUpdateMoveState id state => [oid id,.short (some state)]
  | .scBossAttack id atkState target =>
    oid id::.char (some atkState.code)::position (some target)
  | .scBossAttackRelay id atkState => oid id::.char (some atkState)::position none
  | .scLeave id | .scGuard id | .scJump id | .scEvade id | .scWeaponOff id | .scBerserk id
  | .scHide id | .scHideOff id | .scAssassin id | .scSwordOn id | .scSwordOff id | .scHammerOn id
  | .scHammerOff id => [oid id]
  | .scDead id | .scBlock id => [oid id]

/-- Every packet is assigned member by member. -/
theorem kind_members (p : Packet F) : p.members.map Member.kind = p.scType.kinds := by
  cases p <;> rfl

/-- The struct in memory, `size = sizeof(..)` first. -/
def bytes (fmt : FloatBytes F) (mem : ℕ → Byte) (p : Packet F) : List Byte :=
  layout fmt mem (.char (some (structSize p.scType.struct))::.char (some p.scType.code)::p.members)

/-- The bytes of WSASend: `buf[0]` of them from the address of the struct, `rest` being behind it. -/
def sent (fmt : FloatBytes F) (mem : ℕ → Byte) (rest : List Byte) (p : Packet F) : List Byte :=
  (p.bytes fmt mem ++ rest).take ((p.bytes fmt mem).getD 0 0).toInt.toNat

end Packet

/-- A client takes the struct of a frame by its type byte. -/
def readFrame (frame : List Byte) : Option (ScType × List Value) :=
  (ScType.ofByte (frame.getD 1 0)).map fun t => (t,parse t.kinds (frame.drop 2))

/-- The frame is read as this packet. -/
def Packet.ReadFrom (fmt : FloatBytes F) (p : Packet F) (frame : List Byte) : Prop :=
  ∃ values, readFrame frame = some (p.scType,values) ∧
    List.Forall₂ (Member.Shows fmt) p.members values

variable {fmt : FloatBytes F} {mem : ℕ → Byte} {p : Packet F}

namespace Packet

theorem kind_struct (p : Packet F) :
    (Member.char (F := F) (some (structSize p.scType.struct))::.char (some p.scType.code)::
      p.members).map Member.kind = p.scType.struct := by
  rw [List.map_cons, List.map_cons, kind_members]
  rfl

theorem length_bytes_packet (p : Packet F) :
    (p.bytes fmt mem).length = structSize p.scType.struct := by
  rw [bytes, length_layout, kind_struct]

/-- The two header bytes, and the members behind them. -/
theorem bytes_eq (p : Packet F) : p.bytes fmt mem =
    Int8.ofInt (structSize p.scType.struct)::Int8.ofInt p.scType.code::
      layout fmt (fun i => mem (1+(1+i))) p.members := rfl

theorem toInt_size (t : ScType) : (Int8.ofInt (structSize t.struct)).toInt = structSize t.struct := by
  have h := t.structSize_struct_mem
  rw [toInt_ofInt_bmod, Int.bmod_def]
  split_ifs <;> omega

/-- The size byte covers the struct and nothing else. -/
theorem sent_eq (rest : List Byte) : p.sent fmt mem rest = p.bytes fmt mem := by
  have hsize : ((p.bytes fmt mem).getD 0 0).toInt.toNat = (p.bytes fmt mem).length := by
    rw [length_bytes_packet, bytes_eq, List.getD_cons_zero, toInt_size, Int.toNat_natCast]
  rw [sent, hsize, List.take_left]

/-- What is sent is a packet of the length-prefixed stream. -/
theorem packet_bytes : LengthPrefix.Packet sizeOf (p.bytes fmt mem) := by
  refine ⟨_,_,bytes_eq p,?_⟩
  rw [sizeOf, toInt_size, length_bytes_packet]

theorem readFrom_bytes : p.ReadFrom fmt (p.bytes fmt mem) := by
  refine ⟨parse p.scType.kinds ((p.bytes fmt mem).drop 2),?_,?_⟩
  · rw [readFrame, bytes_eq, List.getD_cons_succ, List.getD_cons_zero, ScType.ofByte_code]
    rfl
  · have hshows : List.Forall₂ (Member.Shows fmt) p.members
        (parse (p.members.map Member.kind) (layout fmt (fun i => mem (1+(1+i))) p.members ++ [])) :=
      shows_parse p.members _ []
    rw [kind_members, List.append_nil] at hshows
    exact hshows

end Packet

/-- What a client receives: a packet with the memory that its struct was in. -/
structure Sending (F : Type) where
  packet : Packet F
  mem : ℕ → Byte
  rest : List Byte

/-- The bytes on the connection of a client. -/
def wire (fmt : FloatBytes F) (l : List (Sending F)) : List Byte :=
  (l.map fun s => s.packet.sent fmt s.mem s.rest).flatten

/-- A client finds the packets that were sent to it, in order and with the fields that were
assigned; and at any time those that have arrived. -/
theorem wire_read (fmt : FloatBytes F) (l : List (Sending F)) :
    ∃ frames, LengthPrefix.decode sizeOf (wire fmt l) = (frames,[]) ∧
      List.Forall₂ (fun s frame => s.packet.ReadFrom fmt frame) l frames ∧
      ∀ n, (LengthPrefix.decode sizeOf ((wire fmt l).take n)).1 <+: frames := by
  have hall : ∀ frame ∈ l.map fun s => s.packet.sent fmt s.mem s.rest,
      LengthPrefix.Packet sizeOf frame := by
    intro frame hframe
    obtain ⟨s,-,rfl⟩ := List.mem_map.mp hframe
    rw [Packet.sent_eq]
    exact Packet.packet_bytes
  have hdec := LengthPrefix.decode_flatten (l := []) hall LengthPrefix.decode_nil
  rw [List.append_nil] at hdec
  refine ⟨_,hdec,?_,fun n => ?_⟩
  · rw [List.forall₂_map_right_iff, List.forall₂_same]
    intro s _
    rw [Packet.sent_eq]
    exact Packet.readFrom_bytes
  · have harrived : (LengthPrefix.decode sizeOf _).1 <+: _ :=
      LengthPrefix.decode_take n (wire fmt l)
    rwa [show LengthPrefix.decode sizeOf (wire fmt l) = _ from hdec] at harrived

end LastHero
