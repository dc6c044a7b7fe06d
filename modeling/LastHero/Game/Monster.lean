import LastHero.Game.Boss

/-! The monsters: CMonster::Attack and Chase, the search for a target, and one Execute for each
class derived from State. The random engine is a parameter `draw` of each step. -/
namespace LastHero
variable {F : Type} [FloatArith F]

/-- CHASE_RANGE -/
def chaseRange : ℤ := 2000

/-- IDLE_RANGE -/
def idleRange : ℤ := 5

/-- GUARD_RANGE -/
def guardRange : ℤ := 300

/-- NO_DETECTED -/
def noDetected : ℤ := -1

/-- SPEED -/
def monsterSpeed : ℚ := 0.03

/-- atkPoint of an initialised monster, which nothing changes -/
def monsterAtkPoint : ℤ := 10

/-- atkRange of an initialised monster, which nothing changes -/
def atkRange : ℤ := attackRange

/-- The id of a player in packets. -/
def Slot.oid (i : Slot) : ℤ := (i : ℕ)

namespace CMonster

def makeUpdatePacket (i : MonsterId) (m : CMonster F) : Packet F :=
  .scUpdateObj i.oid m.pos m.rotation (some m.velocity)

/-- The monster after a step of Chase towards a position. -/
def chase (m : CMonster F) (target : Position F) : CMonster F :=
  let velocity := { target.sub m.pos with z := FloatArith.lit 0 }
  let pos := m.pos.add (velocity.scale (FloatArith.lit monsterSpeed))
  { m with
    velocity := velocity
    pos := pos
    rotation := { m.rotation with y := getDegree pos target } }

/-- `rotation.y = GetDegree(pos, target)` -/
def face (m : CMonster F) (target : Position F) : CMonster F :=
  { m with rotation := { m.rotation with y := getDegree m.pos target } }

/-- `state->Exit(this)` -/
def exit (m : CMonster F) : CMonster F :=
  match m.state with
  | .chaseState => { m with velocity := Position.lits 0 0 0 }
  | _ => m

end CMonster

namespace CPlayer

/-- `healthPoint -= damage` -/
def hurt (damage : ℤ) (p : CPlayer F) : CPlayer F := { p with healthPoint := p.healthPoint-damage }

/-- The death of a player. -/
def fall (p : CPlayer F) : CPlayer F := { p with healthPoint := 0, isAlive := false }

end CPlayer

namespace World

/-- AddTimer for a monster. -/
def monsterTimer (i : MonsterId) (wakeupTime : ℕ) (w : World F) : World F :=
  w.addTimer (.evMonster i) wakeupTime 0

/-- CPlayer::TakeDamage. The hit points are sent before they are cut off at zero. -/
def takeDamage (id : Slot) (damage : ℤ) (w : World F) : World F :=
  let w := w.modifyPlayer id (CPlayer.hurt damage)
  match w.player id with
  | none => w
  | some p =>
    let w := w.broadcast (.scDamaged (Slot.oid id) p.healthPoint)
    if p.healthPoint ≤ 0 then (w.modifyPlayer id CPlayer.fall).broadcast (.scDead (Slot.oid id))
    else w

/-- CMonster::Attack up to its pause, against a target in range. -/
def attackStart (i : MonsterId) (m : CMonster F) (draw : ℕ) (w : World F) : World F :=
  (w.setMonster i m).connected.foldl (fun w j => (w.sendPacket j
    (.scSetRotation i.oid m.rotation)).sendPacket j (.scAttack i.oid (draw % 3))) (w.setMonster i m)

/-- CMonster::Attack after its pause. -/
def attackEnd (i : MonsterId) (m : CMonster F) (id : Slot) (target : CPlayer F) (w : World F) :
    World F :=
  if getDistance m.pos target.pos < guardRange ∧ target.isGuard then w.broadcast (.scBlock i.oid)
  else if getDistance m.pos target.pos < guardRange ∧ target.isEvade then w
  else (w.broadcast (.scDamaged (Slot.oid id) target.healthPoint)).takeDamage id monsterAtkPoint

/-- CMonster::Attack, with the monster that it leaves behind. -/
def monsterAttack (i : MonsterId) (m : CMonster F) (id : Slot) (target : CPlayer F) (draw : ℕ)
    (w : World F) : CMonster F × World F :=
  if attackRange < getDistance m.pos target.pos then (m,w)
  else if getDistance m.pos target.pos ≤ 0 then (m,w)
  else
    let m := m.face target.pos
    (m,(w.attackStart i m draw).attackEnd i m id target)

/-- `state->Enter(this)`. Chasing and attacking name the target in the log. -/
def enter (s : State) (m : CMonster F) (w : World F) : Except Fault (CMonster F) :=
  match s with
  | .idleState => .ok { m with monState := .mIdle }
  | .chaseState =>
    if (m.target.bind w.player).isSome then .ok { m with monState := .mChase }
    else .error .nullPlayer
  | .attackState =>
    if (m.target.bind w.player).isSome then .ok { m with monState := .mAttack }
    else .error .nullPlayer
  | .returnHomeState => .ok { m with prevHealth := m.healthPoint, monState := .mRhome }
  | .deadState => .ok { m with monState := .mDead }

/-- CMonster::ChangeState -/
def changeState (s : State) (m : CMonster F) (w : World F) : Except Fault (CMonster F) :=
  w.enter s { m.exit with state := s }

/-- `if (c) mon->ChangeState(s)` -/
def changeIf (c : Prop) [Decidable c] (s : State) (m : CMonster F) (w : World F) :
    Except Fault (CMonster F) := if c then w.changeState s m else .ok m

/-- disArray of IdleState::Execute -/
def disArray (m : CMonster F) (w : World F) (i : Slot) : ℤ :=
  match w.player i with
  | none => 9999999
  | some p =>
    if !p.isAlive then 9999999
    else if 0 ≤ getDistance m.pos p.pos ∧ getDistance m.pos p.pos < chaseRange then
      getDistance m.pos p.pos
    else 9999999

/-- One iteration of the loop over disArray. -/
def nearer (dis : Slot → ℤ) (c i : Slot) : Slot :=
  if dis i ≠ noDetected ∧ ¬ dis i < 0 ∧ dis i < dis c then i else c

/-- The loop over disArray. -/
def nearest (dis : Slot → ℤ) : Slot := slots.foldl (nearer dis) 0

/-- chaseID of IdleState::Execute; NO_DETECTED is no slot. -/
def chaseId (m : CMonster F) (w : World F) : Option Slot :=
  let c := nearest (w.disArray m)
  if w.disArray m c = noDetected then none
  else if (w.player c).any fun p => !p.isAlive then none
  else some c

/-- IdleState::Execute after its test of the hit points. -/
def watchOut (i : MonsterId) (m : CMonster F) (now : ℕ) (w : World F) :
    Except Fault (World F) :=
  match w.chaseId m with
  | none => .ok ((w.setMonster i m).monsterTimer i (now+1000))
  | some c =>
    match w.player c with
    | none => .ok ((w.setMonster i m).monsterTimer i (now+1000))
    | some p =>
      let m := { m with target := some c }
      if getDistance m.pos p.pos < atkRange then
        if getDistance m.pos p.pos < 0 then
          .ok ((w.setMonster i m).monsterTimer i (now+1000))
        else do
          let m ← w.changeState .attackState m
          return (w.setMonster i m).monsterTimer i (now+1000)
      else if (activityRange : ℤ) < getDistance m.pos m.defaultPos then do
        let m ← w.changeState .returnHomeState m
        return (w.setMonster i m).monsterTimer i (now+1000)
      else if getDistance m.pos p.pos < chaseRange then do
        let m ← w.changeState .chaseState m
        return (w.setMonster i m).monsterTimer i (now+1000)
      else .ok ((w.setMonster i m).monsterTimer i (now+1000))

/-- IdleState::Execute. A monster without hit points changes to DeadState and goes on. -/
def executeIdleState (i : MonsterId) (m : CMonster F) (now : ℕ) (w : World F) :
    Except Fault (World F) := do
  let m ← w.changeIf (m.healthPoint ≤ 0) .deadState m
  w.watchOut i m now

/-- player_dir after the first loop of UpdateTarget. -/
def playerDir (m : CMonster F) (w : World F) (i : Slot) : ℤ :=
  match w.player i with
  | none => 999999999
  | some p => getDistance m.pos p.pos

/-- One iteration of the second loop of UpdateTarget. Without a target it reads player_dir[-1]. -/
def closer (m : CMonster F) (w : World F) (target : Option Slot) (i : Slot) :
    Except Fault (Option Slot) :=
  match w.player i, target with
  | none, _ => .ok target
  | some p, target =>
    if !p.isAlive then .ok target
    else if w.playerDir m i < 0 then .ok target
    else
      match target with
      | none => .error .badIndex
      | some t => .ok (some (if w.playerDir m i < w.playerDir m t then i else t))

/-- UpdateTarget -/
def updateTarget (m : CMonster F) (w : World F) : Except Fault (CMonster F) := do
  let target ← slots.foldlM (w.closer m) m.target
  return { m with target := target }

/-- ChaseState::Execute -/
def executeChaseState (i : MonsterId) (m : CMonster F) (now : ℕ) (w : World F) :
    Except Fault (World F) := do
  if m.healthPoint ≤ 0 then
    let m ← w.changeState .deadState m
    return (w.setMonster i m).monsterTimer i (now+1000)
  else
    let m ← w.updateTarget m
    match m.target.bind w.player with
    | none => return (w.setMonster i m).monsterTimer i (now+1000)
    | some p =>
      let m := m.chase p.pos
      let w := (w.setMonster i m).broadcast (m.makeUpdatePacket i)
      if getDistance m.pos p.pos < atkRange then
        let m ← w.changeState .attackState m
        return (w.setMonster i m).monsterTimer i (now+1000)
      else return w.monsterTimer i (now+100)

/-- AttackState::Execute -/
def executeAttackState (i : MonsterId) (m : CMonster F) (draw now : ℕ) (w : World F) :
    Except Fault (World F) := do
  if m.healthPoint ≤ 0 then
    let m ← w.changeState .deadState m
    return (w.setMonster i m).monsterTimer i (now+1000)
  else
    match m.target with
    | none =>
      let m ← w.changeState .idleState m
      return (w.setMonster i m).monsterTimer i (now+1000)
    | some id =>
      match w.player id with
      | none =>
        let m ← w.changeState .idleState m
        return (w.setMonster i m).monsterTimer i (now+1000)
      | some p =>
        if !p.isAlive then
          let m ← w.changeState .idleState m
          return (w.setMonster i m).monsterTimer i (now+1000)
        else
          let (m,w) := w.monsterAttack i m id p draw
          if atkRange < getDistance m.pos p.pos then
            let m ← w.changeState .chaseState m
            return (w.setMonster i m).monsterTimer i (now+1000)
          else return w.monsterTimer i (now+3000)

/-- ReturnHomeState::Execute -/
def executeReturnHomeState (i : MonsterId) (m : CMonster F) (now : ℕ) (w : World F) :
    Except Fault (World F) := do
  let m ← w.changeIf (m.healthPoint ≤ 0) .deadState m
  let m ← w.changeIf (getDistance m.pos m.defaultPos < idleRange) .idleState m
  let m ← w.changeIf (m.healthPoint < m.prevHealth) .chaseState m
  return (w.setMonster i m).monsterTimer i (now+1000)

/-- `state->Execute(this)`. DeadState::Execute is empty. -/
def monsterExecute (i : MonsterId) (m : CMonster F) (draw now : ℕ) (w : World F) :
    Except Fault (World F) :=
  match m.state with
  | .idleState => w.executeIdleState i m now
  | .chaseState => w.executeChaseState i m now
  | .attackState => w.executeAttackState i m draw now
  | .returnHomeState => w.executeReturnHomeState i m now
  | .deadState => .ok w

/-- CMonster::Update, if the monster is in g_monster. -/
def monsterUpdate (i : MonsterId) (draw now : ℕ) (w : World F) : Except Fault (World F) :=
  match w.monster i with
  | none => .ok w
  | some m => w.monsterExecute i m draw now

theorem monsterUpdate_some {i : MonsterId} {m : CMonster F} {draw now : ℕ} {w : World F}
    (hm : w.monster i = some m) : w.monsterUpdate i draw now = w.monsterExecute i m draw now := by
  simp only [monsterUpdate]
  rw [hm]

theorem monsterUpdate_none {i : MonsterId} {draw now : ℕ} {w : World F}
    (hm : w.monster i = none) : w.monsterUpdate i draw now = .ok w := by
  simp only [monsterUpdate]
  rw [hm]

end World

end LastHero
