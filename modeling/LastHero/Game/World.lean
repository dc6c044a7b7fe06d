import LastHero.Game.Protocol
import LastHero.Receive.Client
import Mathlib.Data.Finset.Basic

/-! The global state of the server: players, monsters, boss, connections and queues. Handlers
are functions on it; what they send and hit is also recorded in a trace. -/
namespace LastHero

/-- CPlayer. Its `id` is the slot it is stored in. -/
structure CPlayer (F : Type) where
  name : Credential
  pass : Credential
  state : PlayerState
  level : ℤ
  exp : ℤ
  isReady : Bool
  healthPoint : ℤ
  maxHP : ℤ
  magicPoint : ℤ
  maxMP : ℤ
  atkPoint : ℤ
  objType : ℤ
  pos : Position F
  rotation : Position F
  velocity : Position F
  isBerserk : Bool
  wpnType : WeaponType
  /-- Movement_State, cast from a field of a packet -/
  moveState : ℤ
  viewList : Finset Slot
  isWpnOn : Bool
  isGuard : Bool
  isAttack : Bool
  isAlive : Bool
  isEvade : Bool
  isHide : Bool
  isAssasinate : Bool
  comboCnt : ℤ
  /-- milliseconds -/
  lastAtkTime : ℕ

/-- A player whose heap block was zero. -/
def zeroPlayer : CPlayer ℚ where
  name := default
  pass := default
  state := .notLogin
  level := 0
  exp := 0
  isReady := false
  healthPoint := 0
  maxHP := 0
  magicPoint := 0
  maxMP := 0
  atkPoint := 0
  objType := 0
  pos := ⟨0,0,0⟩
  rotation := ⟨0,0,0⟩
  velocity := ⟨0,0,0⟩
  isBerserk := false
  wpnType := .wpnNone
  moveState := 0
  viewList := ∅
  isWpnOn := false
  isGuard := false
  isAttack := false
  isAlive := false
  isEvade := false
  isHide := false
  isAssasinate := false
  comboCnt := 0
  lastAtkTime := 0

/-- M_STATE -/
inductive MState
  | mIdle
  | mChase
  | mAttack
  | mRhome
  | mDead
  deriving DecidableEq, Repr

/-- The objects of the classes derived from State. -/
inductive State
  | idleState
  | chaseState
  | attackState
  | returnHomeState
  | deadState
  deriving DecidableEq, Repr

/-- CMonster. Death keeps the hit points from getting negative. -/
structure CMonster (F : Type) where
  defaultPos : Position F
  pos : Position F
  rotation : Position F
  velocity : Position F
  healthPoint : ℤ
  healthPoint_nonneg : 0 ≤ healthPoint
  prevHealth : ℤ
  type : ℤ
  exp : ℤ
  /-- -1 is no slot -/
  target : Option Slot
  state : State
  monState : MState

/-- The objects of the classes derived from BossState. -/
inductive BossState
  | bossIdle
  | bossChase
  | bossAttack
  | bossDead
  | bossDashAttack
  | bossSwingAttack
  | bossStrikeAttack
  | bossThrowAttack
  | bossStompAttack
  | bossIceSpearAttack
  | bossHandClapAttack
  | bossPunchAttack
  | bossDownAttack
  deriving DecidableEq, Repr

/-- HealthPoint -/
structure HealthPoint where
  body : ℤ
  head : ℤ
  part : Part → ℤ

/-- IsDestroy -/
structure IsDestroy where
  head : Bool
  part : Part → Bool

structure Boss (F : Type) where
  healthPoint : HealthPoint
  pos : Position F
  isDestroy : IsDestroy
  state : BossState
  /-- cells of the map -/
  chasePath : List (ℤ × ℤ)
  /-- NO_DETECTED is no slot -/
  target : Option Slot
  boneMap : Part → ℤ
  mainHP : ℤ

/-- CLIENT -/
structure ClientSlot where
  isconnected : Bool
  /-- the open socket, named by the session it belongs to -/
  sock : Option ℕ
  recv : Client

/-- What can be observed of a run. -/
inductive Act (F : Type)
  | send (dest : Slot) (p : Packet F)
  | hit (attacker : Slot) (mon : MonsterId) (damage left : ℤ)
  | kill (attacker : Slot) (mon : MonsterId)
  | hitBoss (attacker : Slot) (damage : ℤ)
  | updateUser (uid : Slot) (name : Credential) (exp : ℤ)

structure World (F : Type) where
  /-- g_player -/
  player : Slot → Option (CPlayer F)
  /-- g_monster -/
  monster : MonsterId → Option (CMonster F)
  /-- g_boss[BOSS_IDX] -/
  boss : Option (Boss F)
  /-- g_clients -/
  client : Slot → ClientSlot
  timerQueue : List Event
  /-- events posted to the completion port -/
  posted : List Posted
  quaryQueue : List DBEvent
  /-- the login that DB_Thread works on -/
  handling : Option DBEvent
  /-- operations on the sockets -/
  ops : List IoOp
  /-- history: the number of accepted connections -/
  accepted : ℕ
  /-- history: the incarnation of the player of each slot -/
  era : Slot → ℕ
  trace : List (Act F)

namespace World
variable {F : Type}

def connected (w : World F) : List Slot := slots.filter fun i => (w.player i).isSome

/-- WSASend: the operation that a send on slot `i` posts. On a closed socket it fails. -/
def postSend (w : World F) (i : Slot) : Option IoOp :=
  (w.client i).sock.map fun s => ⟨i,.opSend,s,none⟩

/-- send_packet to each of the slots. -/
def sendTo (l : List Slot) (p : Packet F) (w : World F) : World F :=
  { w with ops := w.ops ++ l.filterMap w.postSend, trace := w.trace ++ l.map fun i => .send i p }

def sendPacket (i : Slot) (p : Packet F) (w : World F) : World F := w.sendTo [i] p

/-- The loop over all slots that skips NULL players. -/
def broadcast (p : Packet F) (w : World F) : World F := w.sendTo w.connected p

/-- The same loop without the sender. -/
def broadcastOthers (uid : Slot) (p : Packet F) (w : World F) : World F :=
  w.sendTo (w.connected.filter fun i => i ≠ uid) p

/-- The loop over a viewList. -/
def sendView (view : Finset Slot) (p : Packet F) (w : World F) : World F :=
  w.sendTo (slots.filter fun i => i ∈ view) p

def setPlayer (i : Slot) (p : Option (CPlayer F)) (w : World F) : World F :=
  { w with player := Function.update w.player i p }

def modifyPlayer (i : Slot) (f : CPlayer F → CPlayer F) (w : World F) : World F :=
  w.setPlayer i ((w.player i).map f)

def setMonster (i : MonsterId) (m : CMonster F) (w : World F) : World F :=
  { w with monster := Function.update w.monster i (some m) }

def setBoss (b : Boss F) (w : World F) : World F := { w with boss := some b }

def setClient (i : Slot) (c : ClientSlot) (w : World F) : World F :=
  { w with client := Function.update w.client i c }

def setTimerQueue (queue : List Event) (w : World F) : World F := { w with timerQueue := queue }

def setQuaryQueue (queue : List DBEvent) (w : World F) : World F := { w with quaryQueue := queue }

def setHandling (ev : Option DBEvent) (w : World F) : World F := { w with handling := ev }

/-- PostQueuedCompletionStatus -/
def post (ev : Posted) (w : World F) : World F := { w with posted := w.posted ++ [ev] }

/-- worker_thread takes a posted event. -/
def unpost (ev : Posted) (w : World F) : World F := { w with posted := w.posted.erase ev }

def record (a : Act F) (w : World F) : World F := { w with trace := w.trace ++ [a] }

/-- AddTimer -/
def addTimer (key : EventKey) (wakeupTime : ℕ) (target : ℤ) (w : World F) : World F :=
  let era := match key with
    | .off _ i => w.era i
    | _ => 0
  { w with timerQueue := w.timerQueue ++ [⟨key,wakeupTime,target,era⟩] }

/-- AddQuary. Both strings are already known to fit. -/
def addQuary (uid : Slot) (ev : DBEventId) (name pass : Credential) (w : World F) : World F :=
  { w with quaryQueue := w.quaryQueue ++ [⟨uid,ev,name,pass,(w.client uid).sock⟩] }

end World

end LastHero
