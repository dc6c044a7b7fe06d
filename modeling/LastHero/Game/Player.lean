import LastHero.Game.World

/-! The methods of CPlayer and CMonster that packets and timers call. `this` is the player `p`
of slot `id`; the pauses inside an attack are left out, so each method is one step. -/
namespace LastHero
variable {F : Type} [FloatArith F]

/-- ATTACK_RANGE -/
def attackRange : ℤ := 300

/-- BERSERK_RANGE -/
def berserkRange : ℤ := 600

/-- BERSERK_BONUS -/
def berserkBonus : ℤ := 2

/-- LEVEL_UP_BONUS -/
def levelUpBonus : ℤ := 2

/-- atkPoint of an initialised player -/
def initialAtkPoint : ℤ := 10

/-- P_WALKING -/
def pWalking : ℤ := 0

namespace CMonster

/-- OBJ_GOBLIN -/
def objGoblin : ℤ := 4

/-- Initialize. What it leaves uninitialised is zero. -/
def initializeMonster (pos : Position F) (type : ℤ) : CMonster F where
  defaultPos := pos
  pos := pos
  rotation := Position.lits 0 0 0
  velocity := Position.lits 0 0 0
  healthPoint := if type = objGoblin then 50 else 30
  healthPoint_nonneg := by split <;> decide
  prevHealth := 0
  type := type
  exp := 10
  target := none
  state := .idleState
  monState := .mIdle

def death (m : CMonster F) : CMonster F :=
  { m with healthPoint := 0, healthPoint_nonneg := le_rfl, pos := Position.lits 0 0 0 }

/-- The monster after TakeDamage; what the function returns is its hit points. -/
def damaged (m : CMonster F) (atkPoint : ℤ) : CMonster F :=
  if h : m.healthPoint - atkPoint ≤ 0 then m.death
  else { m with healthPoint := m.healthPoint - atkPoint, healthPoint_nonneg := (not_le.mp h).le }

def setPosition (m : CMonster F) (p : Position F) : CMonster F :=
  if getDistance m.pos p < 10 then { m with pos := p } else m

def makeEnterPacket (i : MonsterId) (m : CMonster F) : Packet F :=
  .scEnterMonster m.type i.oid m.pos

end CMonster

namespace CPlayer

/-- Initialize with the row of the account; mp, hp and so on are its columns. -/
def initializePlayer (p : CPlayer F) (hp oType exp lv mp : ℤ) (now : ℕ) : CPlayer F :=
  { p with
    maxHP := hp, healthPoint := hp
    maxMP := mp, magicPoint := mp
    objType := oType
    exp := exp
    level := lv
    atkPoint := initialAtkPoint
    pos := Position.lits (10227.3125) (76509.90625) (-437.344971)
    isBerserk := false
    isGuard := false
    isWpnOn := false
    isAlive := true
    isEvade := false
    isHide := false
    isAssasinate := false
    comboCnt := 0
    lastAtkTime := now
    rotation := Position.lits 0 0 0
    wpnType := .wpnNone
    moveState := pWalking }

/-- BerserkOff -/
def berserkOff (p : CPlayer F) : CPlayer F :=
  { p with
    isBerserk := false
    atkPoint := p.atkPoint-berserkBonus
    magicPoint := p.magicPoint-berserkBonus }

/-- What TimerThread does to a player at the end of a skill. -/
def skillOff (kind : OffEvent) (now : ℕ) (p : CPlayer F) : CPlayer F :=
  match kind with
  | .evBerserk => p.berserkOff
  | .evAtkOff => { p with isAttack := false, lastAtkTime := now }
  | .evGuardOff => { p with isGuard := false }
  | .evEvadeOff => { p with isEvade := false }
  | .evAssOff => { p with isAssasinate := false }

/-- `viewList.insert` -/
def addView (i : Slot) (p : CPlayer F) : CPlayer F := { p with viewList := insert i p.viewList }

/-- SetObjType -/
def setObjType (type : ℤ) (p : CPlayer F) : CPlayer F := { p with objType := type }

/-- SetName and SetPass -/
def setCredentials (name pass : Credential) (p : CPlayer F) : CPlayer F :=
  { p with name := name, pass := pass }

/-- `exp +=` of KillMonster -/
def gainExp (exp : ℤ) (p : CPlayer F) : CPlayer F := { p with exp := p.exp+exp }

/-- The members that LevelUp changes. -/
def gainLevel (p : CPlayer F) : CPlayer F :=
  { p with
    level := p.level+1
    exp := p.exp-100
    atkPoint := p.atkPoint+levelUpBonus
    maxHP := p.maxHP+levelUpBonus
    maxMP := p.maxMP+levelUpBonus
    healthPoint := p.maxHP+levelUpBonus
    magicPoint := p.maxMP+levelUpBonus }

def makeEnterPacket (id : Slot) (p : CPlayer F) : Packet F :=
  .scEnterPlayer p.objType p.name id p.pos

def makeUpdatePacket (id : Slot) (p : CPlayer F) : Packet F :=
  .scUpdateObj id p.pos p.rotation (some p.velocity)

def isTeleport (p : CPlayer F) : Bool :=
  getDistance p.pos (Position.lits (59398.644531) (55202.507812) 2160) < 300

def setPosition (p : CPlayer F) (pos : Position F) : CPlayer F :=
  if ¬ p.isTeleport ∧ getDistance p.pos pos < 100 then p else { p with pos := pos }

def setVelocity (p : CPlayer F) (v : Position F) : CPlayer F :=
  if v.isZero then p else { p with velocity := v }

end CPlayer

namespace World

/-- Ready -/
def ready (id : Slot) (w : World F) : World F :=
  w.modifyPlayer id fun p => { p with isReady := !p.isReady }

/-- LevelUp. The packet goes to the player itself once for each connected player. -/
def levelUp (id : Slot) (w : World F) : World F :=
  let w := w.modifyPlayer id CPlayer.gainLevel
  match w.player id with
  | none => w
  | some p =>
    let w := w.sendTo (w.connected.map fun _ => id)
      (.scLevelUp id p.level p.exp p.healthPoint p.magicPoint)
    w.addQuary id .evUpdate p.name p.pass

/-- KillMonster -/
def killMonster (id : Slot) (i : MonsterId) (m : CMonster F) (w : World F) : World F :=
  let w := (w.record (.kill id i)).modifyPlayer id (CPlayer.gainExp m.exp)
  match w.player id with
  | none => w
  | some p =>
    let w := (w.sendPacket id (.scGetExp p.exp)).broadcast (.scDead i.oid)
    if 100 ≤ p.exp then w.levelUp id else w

/-- TakeDamage on a monster, and KillMonster when it returns no hit points. -/
def strike (id : Slot) (i : MonsterId) (m : CMonster F) (damage : ℤ) (w : World F) : World F :=
  let m' := m.damaged damage
  let w := (w.setMonster i m').record (.hit id i damage m'.healthPoint)
  if m'.healthPoint ≤ 0 then w.killMonster id i m'
  else w.broadcast (.scDamaged i.oid m'.healthPoint)

/-- What distinguishes the loops of Attck, Berserk and Assassinate. -/
structure Sweep (F : Type) where
  range : ℤ
  damage : CPlayer F → ℤ
  /-- before the damage; the flag says whether a monster was hit before -/
  before : Slot → CMonster F → World F × Bool → World F × Bool
  after : Slot → World F → World F

/-- One iteration over the monsters. -/
def sweepOne (k : Sweep F) (id : Slot) (s : World F × Bool) (i : MonsterId) : World F × Bool :=
  match s.1.player id, s.1.monster i with
  | some p, some m =>
    if m.healthPoint = 0 then s
    else if getDistance p.pos m.pos < k.range then
      if getDistance p.pos m.pos < 0 then s
      else
        let s := k.before id m s
        (k.after id (s.1.strike id i m (k.damage p)),s.2)
    else s
  | _, _ => s

def sweepOver (k : Sweep F) (id : Slot) : List MonsterId → World F × Bool → World F
  | [], s => s.1
  | i::l, s => sweepOver k id l (sweepOne k id s i)

def sweep (k : Sweep F) (id : Slot) (w : World F) : World F :=
  sweepOver k id monsterIds (w,false)

/-- Attck turns to the first monster it hits. -/
def faceFirst (id : Slot) (m : CMonster F) (s : World F × Bool) : World F × Bool :=
  if s.2 then s
  else
    let w := s.1.modifyPlayer id fun p =>
      { p with rotation := { p.rotation with y := getDegree p.pos m.pos } }
    match w.player id with
    | none => (w,true)
    | some p => (w.broadcast (.scSetRotation id p.rotation),true)

def attckSweep : Sweep F := ⟨attackRange,CPlayer.atkPoint,faceFirst,fun _ w => w⟩

def berserkSweep : Sweep F := ⟨berserkRange,fun _ => 50,fun _ _ s => s,fun _ w => w⟩

def assassinateSweep : Sweep F where
  range := attackRange
  damage p := p.atkPoint*2
  before _ _ s := s
  after id w := w.modifyPlayer id fun p => { p with isHide := false }

/-- TakeDamage of the boss. -/
def bossTakeDamage (damage : ℤ) (w : World F) : World F :=
  match w.boss with
  | none => w
  | some b =>
    if b.mainHP - damage ≤ 0 then (w.setBoss { b with mainHP := 0 }).broadcast (.scDead bossIdx)
    else w.setBoss { b with mainHP := b.mainHP - damage }

/-- The end of Attck: no test for a negative distance here. -/
def attckBoss (id : Slot) (w : World F) : World F :=
  match w.player id, w.boss with
  | some p, some b =>
    if 0 < b.mainHP ∧ getDistance p.pos b.pos < attackRange then
      (w.record (.hitBoss id 20)).bossTakeDamage 20
    else w
  | _, _ => w

/-- comboCnt of the next attack -/
def nextCombo (p : CPlayer F) (now : ℕ) : ℤ :=
  if now < p.lastAtkTime+1000 then
    match p.wpnType with
    | .wpnSword => (p.comboCnt+1).tmod 3
    | .wpnHammer => (p.comboCnt+1).tmod 4
    | .wpnNone => p.comboCnt
  else 0

def attck (id : Slot) (p : CPlayer F) (now : ℕ) (w : World F) : World F :=
  if p.isAttack then w
  else if p.wpnType = .wpnNone then w
  else
    let combo := nextCombo p now
    let w := w.modifyPlayer id fun p => { p with isAttack := true, comboCnt := combo }
    let w := w.broadcast (.scAttack id combo)
    let w := (w.sweep attckSweep id).attckBoss id
    w.addTimer (.off .evAtkOff id) (now+500) 0

def berserk (id : Slot) (p : CPlayer F) (now : ℕ) (w : World F) : World F :=
  if p.isBerserk then w
  else if p.wpnType ≠ .wpnSword then w
  else
    let w := (w.sendView p.viewList (.scBerserk id)).sweep berserkSweep id
    let w := w.modifyPlayer id fun p => { p with
      isBerserk := true
      atkPoint := p.atkPoint+berserkBonus
      magicPoint := p.magicPoint+berserkBonus }
    w.addTimer (.off .evBerserk id) (now+15000) 0

def guard (id : Slot) (p : CPlayer F) (now : ℕ) (w : World F) : World F :=
  if p.isGuard then w
  else
    let w := (w.modifyPlayer id fun p => { p with isGuard := true }).broadcast (.scGuard id)
    w.addTimer (.off .evGuardOff id) (now+3000) 0

/-- The distance test of IsBattleMode. -/
def inBattle (p : CPlayer F) (pos : Position F) : Bool :=
  0 < getDistance p.pos pos ∧ getDistance p.pos pos < 1000

def isBattleMode (p : CPlayer F) (w : World F) : Bool :=
  monsterIds.any (fun i => (w.monster i).any fun m => inBattle p m.pos) ||
    w.boss.any fun b => inBattle p b.pos

/-- Both branches send the packet type sc_evade. -/
def evade (id : Slot) (p : CPlayer F) (now : ℕ) (w : World F) : World F :=
  if p.isEvade then w
  else
    let w := w.modifyPlayer id fun p => { p with isEvade := true }
    let w := if w.isBattleMode p then w.broadcastOthers id (.scEvade id)
      else w.broadcastOthers id (.scEvade id)
    w.addTimer (.off .evEvadeOff id) (now+2000) 0

def hide (id : Slot) (p : CPlayer F) (w : World F) : World F :=
  if p.isHide then w
  else (w.modifyPlayer id fun p => { p with isHide := true }).broadcast (.scHide id)

def hideOff (id : Slot) (p : CPlayer F) (w : World F) : World F :=
  if !p.isHide then w
  else (w.modifyPlayer id fun p => { p with isHide := false }).broadcast (.scHideOff id)

/-- isAssasinate is tested but nothing sets it. -/
def assassinate (id : Slot) (p : CPlayer F) (now : ℕ) (w : World F) : World F :=
  if p.isAssasinate then w
  else
    let w := (w.broadcast (.scAssassin id)).sweep assassinateSweep id
    w.addTimer (.off .evAssOff id) (now+2000) 0

end World

/-- The weapons that WeaponOn and WeaponOff are called with. -/
inductive Weapon
  | sword
  | hammer
  deriving DecidableEq, Repr

namespace Weapon

def type : Weapon → WeaponType
  | .sword => .wpnSword
  | .hammer => .wpnHammer

/-- The packet that announces the weapon of a player. -/
def onPacket {F : Type} (id : Slot) : Weapon → Packet F
  | .sword => .scSwordOn id
  | .hammer => .scHammerOn id

end Weapon

namespace World

/-- WeaponOn after its first test. -/
def putOn (id : Slot) (wpn : Weapon) (w : World F) : World F :=
  (w.modifyPlayer id fun p => { p with wpnType := wpn.type }).sendTo slots (wpn.onPacket id)

/-- WeaponOff after its first test. `wpnType == wpn == wpn_sword` compares the truth value of
`wpnType == wpn` with wpn_sword, which is 1; for wpn_hammer, 2, the test always fails. -/
def takeOff (id : Slot) (p : CPlayer F) (wpn : Weapon) (w : World F) : World F :=
  if p.wpnType = wpn.type then
    (w.sendTo slots (.scSwordOff id)).modifyPlayer id fun p => { p with wpnType := .wpnNone }
  else w

/-- The two call each other at most once, as the test of the callee then fails. -/
def weaponOn (id : Slot) (p : CPlayer F) (wpn : Weapon) (w : World F) : World F :=
  if p.wpnType = wpn.type then w.takeOff id p wpn else w.putOn id wpn

def weaponOff (id : Slot) (p : CPlayer F) (wpn : Weapon) (w : World F) : World F :=
  if p.wpnType = .wpnNone then w.putOn id wpn else w.takeOff id p wpn

/-- MoveTo up to its return; the viewLists behind it are never updated. -/
def moveTo (id : Slot) (pos : Position F) (w : World F) : World F :=
  let w := w.modifyPlayer id fun p => p.setPosition pos
  match w.player id with
  | none => w
  | some p => w.broadcastOthers id (p.makeUpdatePacket id)

def setMoveState (id : Slot) (p : CPlayer F) (state : ℤ) (w : World F) : World F :=
  if state = p.moveState then w
  else (w.modifyPlayer id fun p => { p with moveState := state }).broadcast
    (.scUpdateMoveState id state)

/-- The weapon and the move state of another player, for a player that enters. -/
def replay (id i : Slot) (other : CPlayer F) (w : World F) : World F :=
  let w := match other.wpnType with
    | .wpnSword => w.sendPacket id (.scSwordOn i)
    | .wpnHammer => w.sendPacket id (.scHammerOn i)
    | .wpnNone => w
  w.sendPacket id (.scUpdateMoveState i other.moveState)

/-- What EnterGame exchanges with the player of another slot. -/
def meet (id : Slot) (w : World F) (i : Slot) : World F :=
  match w.player id, w.player i with
  | some me, some other =>
    if id = i ∨ !other.isAlive then w
    else
      let w := w.modifyPlayer id (CPlayer.addView i)
      let w := w.modifyPlayer i (CPlayer.addView id)
      let w := w.sendPacket i (me.makeEnterPacket id)
      let w := w.sendPacket id (other.makeEnterPacket i)
      w.replay id i other
  | _, _ => w

/-- The enter packets of the living monsters. -/
def showMonster (id : Slot) (w : World F) (i : MonsterId) : World F :=
  match w.monster i with
  | some m => if m.healthPoint ≤ 0 then w else w.sendPacket id (m.makeEnterPacket i)
  | none => w

def enterGame (id : Slot) (w : World F) : World F :=
  let w := slots.foldl (meet id) w
  let w := monsterIds.foldl (showMonster id) w
  if id = 0 then w.sendPacket id .scSetHost else w

end World

end LastHero
