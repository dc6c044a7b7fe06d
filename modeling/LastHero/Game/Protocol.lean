import LastHero.Game.Physics
import Mathlib.Data.List.FinRange

/-! Slots, object ids, timer and database events, and the packets of protocol.h. -/
namespace LastHero

/-- MAX_PLAYER -/
abbrev maxPlayer : ℕ := 10

instance : NeZero maxPlayer := ⟨by decide⟩

/-- MAX_MONSTER -/
abbrev maxMonster : ℕ := 10000

instance : NeZero maxMonster := ⟨by decide⟩

/-- An index of g_clients and g_player. -/
abbrev Slot := Fin maxPlayer

/-- The order of the loops over the players. -/
def slots : List Slot := List.finRange maxPlayer

theorem mem_slots (i : Slot) : i ∈ slots := List.mem_finRange i

/-- NPC_ID_START -/
def npcIdStart : ℤ := 10000

/-- BOSS_IDX -/
def bossIdx : ℤ := 20000

/-- A key of g_monster, counted from NPC_ID_START; monsters are spawned below it nowhere. -/
abbrev MonsterId := Fin maxMonster

/-- The object id. -/
def MonsterId.oid (i : MonsterId) : ℤ := npcIdStart + i

/-- The key with an object id, as it comes in a packet. -/
def MonsterId.ofOid (oid : ℤ) : Option MonsterId :=
  if h : npcIdStart ≤ oid ∧ oid < npcIdStart+maxMonster then
    some ⟨(oid-npcIdStart).toNat,by omega⟩
  else none

/-- The order of the loops over the monsters. -/
def monsterIds : List MonsterId := List.finRange maxMonster

theorem mem_monsterIds (i : MonsterId) : i ∈ monsterIds := List.mem_finRange i

theorem nodup_monsterIds : monsterIds.Nodup := List.nodup_finRange maxMonster

/-- Weapon_Type -/
inductive WeaponType
  | wpnNone
  | wpnSword
  | wpnHammer
  deriving DecidableEq, Repr

/-- Player_State -/
inductive PlayerState
  | notLogin
  | inLobby
  | inRoom
  | inGame
  | host
  | noneReady
  | playGame
  deriving DecidableEq, Repr

/-- B_STATE -/
inductive BState
  | bIdle
  | bChase
  | bAttack
  | bDead
  | bDashAtk
  | bSwingAtk
  | bStrikeAtk
  | bThrowAtk
  | bStompAtk
  | bIcespearAtk
  | bHandclapAtk
  | bPunchAtk
  | bDownAtk
  | bNormalAtk
  | bDownAtkR
  | bDownAtkL
  | bDownAtkSweep
  deriving DecidableEq, Repr

/-- The twelve parts of the boss with a hit count, in the order of BoneMap. -/
inductive Part
  | rHand
  | rForearm
  | rUpperarm
  | rFoot
  | rCalf
  | rThigh
  | lHand
  | lForearm
  | lUpperarm
  | lFoot
  | lCalf
  | lThigh
  deriving DecidableEq, Repr

/-- The parts with their indices in BoneMap. -/
def boneParts : List (Part × ℕ) :=
  [.rHand,.rForearm,.rUpperarm,.rFoot,.rCalf,.rThigh,
    .lHand,.lForearm,.lUpperarm,.lFoot,.lCalf,.lThigh].zipIdx

/-- Packets to the clients. Fields that the server leaves uninitialised are left out. -/
inductive Packet (F : Type)
  | scLeave (id : Slot)
  | scLoginFail
  | scLoginOk (uid : Slot)
  | scSignupOk
  | scSignupFail
  | scUpdateObj (oid : ℤ) (pos rotation : Position F) (velocity : Option (Position F))
  | scEnterPlayer (oType : ℤ) (name : Credential) (oid : Slot) (pos : Position F)
  | scEnterMonster (oType : ℤ) (oid : ℤ) (pos : Position F)
  | scAttack (oid : ℤ) (combo : ℤ)
  | scGuard (oid : Slot)
  | scJump (oid : Slot)
  | scEvade (oid : Slot)
  | scWeaponOn (oid : Slot)
  | scWeaponOff (oid : Slot)
  | scSetHost
  | scBerserk (oid : Slot)
  | scLevelUp (oid : Slot) (level exp hp mp : ℤ)
  | scDead (oid : ℤ)
  | scDamaged (oid : ℤ) (hp : ℤ)
  | scGetExp (exp : ℤ)
  | scBlock (oid : ℤ)
  | scHide (oid : Slot)
  | scHideOff (oid : Slot)
  | scAssassin (oid : Slot)
  | scMoveStop (oid : Slot) (pos : Position F)
  | scSwordOn (oid : Slot)
  | scSwordOff (oid : Slot)
  | scHammerOn (oid : Slot)
  | scHammerOff (oid : Slot)
  | scBoneBreak (oid : ℤ) (part : Part)
  | scSetRotation (oid : ℤ) (rot : Position F)
  | scUpdateMoveState (oid : Slot) (state : ℤ)
  | scBossAttack (oid : ℤ) (atkState : BState) (target : Position F)
  /-- The attack number of a client, relayed without a target. -/
  | scBossAttackRelay (oid : ℤ) (atkState : ℤ)

/-- The type bytes that ProcessPacket knows. -/
inductive CsType
  | csLogin
  | csSignup
  | movePacket
  | csChat
  | csAttack
  | csGuard
  | csFireball
  | csJump
  | csEvade
  | csWeaponOn
  | csWeaponOff
  | csBerserk
  | csReady
  | csBossMove
  | csHide
  | csHideOff
  | csAssassin
  | csMoveStop
  | csSwordOn
  | csSwordOff
  | csHammerOn
  | csHammerOff
  | csNpcMove
  | csBossAttack
  | csBossBone
  | csSyncFail
  | csUpdateMoveState
  deriving DecidableEq, Repr

/-- Values of PACKET_TYPE. -/
def CsType.code : CsType → ℤ
  | .csLogin => 0
  | .csSignup => 1
  | .movePacket => 6
  | .csChat => 21
  | .csAttack => 23
  | .csGuard => 24
  | .csFireball => 27
  | .csJump => 30
  | .csEvade => 32
  | .csWeaponOn => 33
  | .csWeaponOff => 34
  | .csBerserk => 38
  | .csReady => 40
  | .csBossMove => 49
  | .csHide => 52
  | .csHideOff => 54
  | .csAssassin => 56
  | .csMoveStop => 58
  | .csSwordOn => 61
  | .csSwordOff => 62
  | .csHammerOn => 63
  | .csHammerOff => 64
  | .csNpcMove => 69
  | .csBossAttack => 73
  | .csBossBone => 75
  | .csSyncFail => 78
  | .csUpdateMoveState => 81

def CsType.all : List CsType :=
  [.csLogin,.csSignup,.movePacket,.csChat,.csAttack,.csGuard,.csFireball,.csJump,.csEvade,
    .csWeaponOn,.csWeaponOff,.csBerserk,.csReady,.csBossMove,.csHide,.csHideOff,.csAssassin,
    .csMoveStop,.csSwordOn,.csSwordOff,.csHammerOn,.csHammerOff,.csNpcMove,.csBossAttack,
    .csBossBone,.csSyncFail,.csUpdateMoveState]

def CsType.ofByte (b : Byte) : Option CsType := CsType.all.find? fun t => t.code = b.toInt

/-- Distinct types have distinct bytes. -/
theorem CsType.ofByte_code (t : CsType) : CsType.ofByte (Int8.ofInt t.code) = some t := by
  cases t <;> decide

/-- Player timers, the events that TimerThread handles itself. -/
inductive OffEvent
  | evBerserk
  | evAtkOff
  | evGuardOff
  | evEvadeOff
  | evAssOff
  deriving DecidableEq, Repr

/-- objID and eventID of the events that are ever queued. -/
inductive EventKey
  | evBoss
  | evMonster (id : MonsterId)
  | off (kind : OffEvent) (id : Slot)
  deriving DecidableEq, Repr

structure Event where
  key : EventKey
  /-- milliseconds -/
  wakeupTime : ℕ
  targetID : ℤ
  /-- history: the incarnation of the slot that queued the event -/
  era : ℕ
  deriving DecidableEq, Repr

/-- What TimerThread posts to the completion port. -/
inductive Posted
  | evBoss
  | evMonster (id : MonsterId)
  deriving DecidableEq, Repr

inductive DBEventId
  | evLogin
  | evSign
  | evUpdate
  deriving DecidableEq, Repr

/-- DB_EVENT -/
structure DBEvent where
  userId : Slot
  evId : DBEventId
  name : Credential
  pass : Credential
  /-- history: the session of the slot when the event was queued -/
  session : Option ℕ

/-- The operations that worker_thread takes from the completion port besides timers. -/
inductive IoKind
  | opRecv
  | opSend
  deriving DecidableEq, Repr

/-- A posted WSARecv or WSASend. -/
structure IoOp where
  uid : Slot
  kind : IoKind
  /-- history: the session whose socket it was posted on -/
  session : ℕ
  /-- the transferred bytes, once the operation is complete -/
  result : Option (List Byte)
  deriving DecidableEq

end LastHero
