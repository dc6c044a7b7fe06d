import LastHero.Monster.Death

/-! AttackState::Execute in its four steps: the check of the target, the beginning of Attack, its
blow after the pause and the check behind it. Attack holds a reference to the player, Execute one
to its slot, and both see what the other threads do in between. -/
namespace LastHero
variable {F : Type}

/-- Where the Execute of a monster in AttackState stands. -/
inductive Phase
  | ready
  /-- before Attack, with a living target -/
  | checked (id : Slot)
  /-- in the pause of Attack, with the player of a session -/
  | waiting (id : Slot) (n : ℕ)
  /-- after Attack -/
  | swung (id : Slot)
  deriving DecidableEq, Repr

/-- How a blow ends for its target. -/
inductive Blow
  | blocked
  | evaded
  | wound
  | fatal
  deriving DecidableEq, Repr

namespace Blow

/-- The target afterwards. -/
def victim (p : CPlayer F) : Blow → CPlayer F
  | .blocked | .evaded => p
  | .wound => p.hurt monsterAtkPoint
  | .fatal => (p.hurt monsterAtkPoint).fall

/-- What is broadcast. -/
def packets (i : MonsterId) (id : Slot) (p : CPlayer F) : Blow → List (Packet F)
  | .blocked => [.scBlock i.oid]
  | .evaded => []
  | .wound => [.scDamaged id.oid p.healthPoint,.scDamaged id.oid (p.healthPoint-monsterAtkPoint)]
  | .fatal => [.scDamaged id.oid p.healthPoint,.scDamaged id.oid (p.healthPoint-monsterAtkPoint),
      .scDead id.oid]

end Blow

/-- The server, and the attacks that are under way. -/
structure Battle (F : Type) where
  world : World F
  phase : MonsterId → Phase
  /-- history: the number of the player in each slot -/
  session : Slot → ℕ
  /-- the players that g_player does not hold any more -/
  gone : Slot → ℕ → Option (CPlayer F)
  /-- history: how often SC_DEAD was sent for each player since its Initialize -/
  deaths : Slot → ℕ → ℕ
  /-- history: the players that took damage -/
  struck : List (Slot × ℕ)

/-- Disconnect of the target, or an accepted connection in its slot. -/
inductive Visit (F : Type)
  | leave
  | enter (heap : CPlayer F)

/-- What happens between the steps of an Execute. -/
structure Interleaving (F : Type) where
  draw : ℕ
  now : ℕ
  checked : List (Visit F)
  waiting : List (Visit F)
  swung : List (Visit F)

namespace World

/-- One broadcast after another. -/
def broadcasts (l : List (Packet F)) (w : World F) : World F :=
  l.foldl (fun w p => w.broadcast p) w

/-- A step of the server puts another player into a slot, or takes it away. -/
def replaces (w : World F) (a : Input F) (w' : World F) (id : Slot) : Bool :=
  (w.player id).isSome != (w'.player id).isSome || match a with
    | .accept _ => w.freeSlot = some id
    | _ => false

/-- The player that a step takes out of a slot. -/
def replaced (w w' : World F) (id : Slot) : Option (CPlayer F) :=
  (w.player id).map fun p => if (w'.player id).isSome then p else { p with isAlive := false }

end World

section Defs
variable [FloatArith F]

/-- What CMonster::Attack decides after its pause. -/
def CMonster.blow (m : CMonster F) (p : CPlayer F) : Blow :=
  if getDistance m.pos p.pos < guardRange ∧ p.isGuard then .blocked
  else if getDistance m.pos p.pos < guardRange ∧ p.isEvade then .evaded
  else if p.healthPoint-monsterAtkPoint ≤ 0 then .fatal
  else .wound

namespace Battle

/-- The player of a session, wherever it is. -/
def player (s : Battle F) (id : Slot) (n : ℕ) : Option (CPlayer F) :=
  if s.session id = n then s.world.player id else s.gone id n

def setPlayer (id : Slot) (n : ℕ) (p : CPlayer F) (s : Battle F) : Battle F :=
  if s.session id = n then { s with world := s.world.setPlayer id (some p) }
  else { s with gone := Function.update s.gone id (Function.update (s.gone id) n (some p)) }

def setPhase (i : MonsterId) (phase : Phase) (s : Battle F) : Battle F :=
  { s with phase := Function.update s.phase i phase }

/-- Execute without an attack, or at its end: the next state, and the event. -/
def conclude (i : MonsterId) (m : CMonster F) (t : ℕ) (s : Battle F) : Battle F :=
  { s.setPhase i .ready with world := (s.world.setMonster i m).monsterTimer i t }

/-- AttackState::Execute up to Attack. -/
def checkTarget (i : MonsterId) (m : CMonster F) (now : ℕ) (s : Battle F) :
    Except Fault (Battle F) := do
  if m.healthPoint ≤ 0 then
    let m ← s.world.changeState .deadState m
    return s.conclude i m (now+1000)
  else
    match m.target with
    | none =>
      let m ← s.world.changeState .idleState m
      return s.conclude i m (now+1000)
    | some id =>
      match s.world.player id with
      | none =>
        let m ← s.world.changeState .idleState m
        return s.conclude i m (now+1000)
      | some p =>
        if !p.isAlive then
          let m ← s.world.changeState .idleState m
          return s.conclude i m (now+1000)
        else return s.setPhase i (.checked id)

/-- CMonster::Attack up to its pause. -/
def beginAttack (i : MonsterId) (m : CMonster F) (id : Slot) (draw : ℕ) (s : Battle F) :
    Except Fault (Battle F) :=
  match s.world.player id with
  | none => .error .nullPlayer
  | some p =>
    if attackRange < getDistance m.pos p.pos then .ok (s.setPhase i (.swung id))
    else if getDistance m.pos p.pos ≤ 0 then .ok (s.setPhase i (.swung id))
    else .ok { s.setPhase i (.waiting id (s.session id)) with
      world := s.world.attackStart i (m.face p.pos) draw }

/-- CMonster::Attack after its pause, against a player that may have left its slot. -/
def endAttack (i : MonsterId) (m : CMonster F) (id : Slot) (n : ℕ) (p : CPlayer F) (s : Battle F) :
    Battle F :=
  let blow := m.blow p
  let t := s.setPlayer id n (blow.victim p)
  { t.setPhase i (.swung id) with
    world := t.world.broadcasts (blow.packets i id p)
    deaths := if blow = .fatal ∧ s.world.connected ≠ [] then
      Function.update s.deaths id (Function.update (s.deaths id) n (s.deaths id n+1)) else s.deaths
    struck := if blow = .wound ∨ blow = .fatal then s.struck ++ [(id,n)] else s.struck }

/-- AttackState::Execute after Attack. -/
def checkRange (i : MonsterId) (m : CMonster F) (id : Slot) (now : ℕ) (s : Battle F) :
    Except Fault (Battle F) :=
  match s.world.player id with
  | none => .error .nullPlayer
  | some p =>
    if atkRange < getDistance m.pos p.pos then do
      let m ← s.world.changeState .chaseState m
      return s.conclude i m (now+1000)
    else .ok { s.setPhase i .ready with world := s.world.monsterTimer i (now+3000) }

/-- The first step of Execute. Where it is not the next one it does nothing, like the others. -/
def check (i : MonsterId) (now : ℕ) (s : Battle F) : Except Fault (Battle F) :=
  match s.phase i, s.world.monster i with
  | .ready, some m => if m.state = .attackState then s.checkTarget i m now else .ok s
  | _, _ => .ok s

def swing (i : MonsterId) (draw : ℕ) (s : Battle F) : Except Fault (Battle F) :=
  match s.phase i, s.world.monster i with
  | .checked id, some m => s.beginAttack i m id draw
  | _, _ => .ok s

def land (i : MonsterId) (s : Battle F) : Battle F :=
  match s.phase i, s.world.monster i with
  | .waiting id n, some m =>
    match s.player id n with
    | some p => s.endAttack i m id n p
    | none => s.setPhase i (.swung id)
  | _, _ => s

def finish (i : MonsterId) (now : ℕ) (s : Battle F) : Except Fault (Battle F) :=
  match s.phase i, s.world.monster i with
  | .swung id, some m => s.checkRange i m id now
  | _, _ => .ok s

/-- A step of the other threads. -/
def server (a : Input F) (s : Battle F) : Option (Battle F) :=
  (s.world.next a).map fun w =>
    { s with
      world := w
      session := fun id => if s.world.replaces a w id then s.session id+1 else s.session id
      gone := fun id => if s.world.replaces a w id then
        Function.update (s.gone id) (s.session id) (s.world.replaced w id) else s.gone id
      -- a new era without another player is an Initialize
      deaths := fun id => if s.world.replaces a w id ∨ w.era id = s.world.era id then s.deaths id
        else Function.update (s.deaths id) (s.session id) 0 }

def visit (id : Slot) (s : Battle F) : Visit F → Option (Battle F)
  | .leave => s.server (.disconnect id)
  | .enter heap => if s.world.freeSlot = some id then s.server (.accept heap) else none

/-- One AttackState::Execute; `none` if one of the visits is impossible. -/
def execute (i : MonsterId) (l : Interleaving F) (s : Battle F) :
    Option (Except Fault (Battle F)) :=
  match s.check i l.now with
  | .error e => some (.error e)
  | .ok t =>
    match t.phase i with
    | .checked id =>
      (Runs.run (visit id) t l.checked).bind fun t =>
        match t.swing i l.draw with
        | .error e => some (.error e)
        | .ok t =>
          (Runs.run (visit id) t l.waiting).bind fun t =>
            (Runs.run (visit id) (t.land i) l.swung).map fun t => t.finish i l.now
    | _ => some (.ok t)

end Battle

end Defs

@[simp] theorem Blow.victim_pos (p : CPlayer F) (b : Blow) : (b.victim p).pos = p.pos := by
  cases b <;> rfl

namespace World
variable {w : World F} {i : MonsterId} {m : CMonster F} {id : Slot} {p q : CPlayer F}

theorem setPlayer_self (hp : w.player id = some p) : w.setPlayer id (some p) = w := by
  simp only [setPlayer]
  rw [← hp, Function.update_eq_self]

theorem connected_setPlayer (hp : (w.player id).isSome) :
    (w.setPlayer id (some q)).connected = w.connected := by
  refine connected_congr fun j => ?_
  change (Function.update w.player id (some q) j).isSome = _
  rw [Function.update_apply]
  split_ifs with hj
  · rw [hj, hp, Option.isSome_some]
  · rfl

/-- Whether a player is there decides what is sent, not its state. -/
theorem broadcast_setPlayer (hp : (w.player id).isSome) (a : Packet F) :
    (w.setPlayer id (some q)).broadcast a = (w.broadcast a).setPlayer id (some q) := by
  simp only [broadcast]
  rw [connected_setPlayer hp]
  rfl

theorem setPlayer_setPlayer (p q : CPlayer F) :
    (w.setPlayer id (some p)).setPlayer id (some q) = w.setPlayer id (some q) := by
  simp only [setPlayer]
  simp only [Function.update_idem]

theorem modifyPlayer_eq (f : CPlayer F → CPlayer F) (hp : w.player id = some p) :
    w.modifyPlayer id f = w.setPlayer id (some (f p)) := by
  simp only [modifyPlayer]
  rw [hp, Option.map_some]

@[simp] theorem broadcasts_player (l : List (Packet F)) (w : World F) :
    (w.broadcasts l).player = w.player :=
  List.foldlRecOn (motive := fun v : World F => v.player = w.player) _ _ rfl fun _ hv _ _ => hv

@[simp] theorem broadcasts_monster (l : List (Packet F)) (w : World F) :
    (w.broadcasts l).monster = w.monster :=
  List.foldlRecOn (motive := fun v : World F => v.monster = w.monster) _ _ rfl fun _ hv _ _ => hv

@[simp] theorem broadcasts_timerQueue (l : List (Packet F)) (w : World F) :
    (w.broadcasts l).timerQueue = w.timerQueue :=
  List.foldlRecOn (motive := fun v : World F => v.timerQueue = w.timerQueue) _ _ rfl
    fun _ hv _ _ => hv

/-- TakeDamage for a player that is there. -/
theorem takeDamage_eq (damage : ℤ) (hp : w.player id = some p) : w.takeDamage id damage =
    if p.healthPoint-damage ≤ 0 then
      ((w.setPlayer id (some (p.hurt damage).fall)).broadcast
        (.scDamaged id.oid (p.healthPoint-damage))).broadcast (.scDead id.oid)
    else (w.setPlayer id (some (p.hurt damage))).broadcast (.scDamaged id.oid (p.healthPoint-damage)) := by
  have hself : (w.setPlayer id (some (p.hurt damage))).player id = some (p.hurt damage) :=
    Function.update_self ..
  simp only [takeDamage]
  rw [modifyPlayer_eq _ hp]
  simp only [hself]
  by_cases hfatal : p.healthPoint-damage ≤ 0
  · rw [if_pos hfatal, if_pos (show (p.hurt damage).healthPoint ≤ 0 from hfatal)]
    have hstruck := broadcast_setPlayer (q := (p.hurt damage).fall) (Option.isSome_of_mem hself)
      (.scDamaged id.oid (p.healthPoint-damage))
    rw [setPlayer_setPlayer] at hstruck
    rw [hstruck]
    exact congrArg _ (modifyPlayer_eq CPlayer.fall hself)
  · rw [if_neg hfatal, if_neg (show ¬ (p.hurt damage).healthPoint ≤ 0 from hfatal)]
    rfl

theorem attackStart_monster (i : MonsterId) (m : CMonster F) (draw : ℕ) (w : World F) :
    (w.attackStart i m draw).monster i = some m := by
  rw [(puts_attackStart draw w).monster, Function.update_self]

theorem attackStart_timerQueue (i : MonsterId) (m : CMonster F) (draw : ℕ) (w : World F) :
    (w.attackStart i m draw).timerQueue = w.timerQueue := by
  apply List.foldlRecOn (motive := fun v : World F => v.timerQueue = w.timerQueue)
  · rfl
  · exact fun v hv j _ => hv

variable [FloatArith F]

/-- The blow in one piece. -/
theorem attackEnd_eq (hp : w.player id = some p) : w.attackEnd i m id p =
    (w.setPlayer id (some ((m.blow p).victim p))).broadcasts ((m.blow p).packets i id p) := by
  have hsome : (w.player id).isSome := Option.isSome_of_mem hp
  have hafter : (w.broadcast (.scDamaged id.oid p.healthPoint)).player id = some p := hp
  simp only [attackEnd, CMonster.blow]
  split_ifs with hguard hevade hfatal
  · rw [Blow.victim, setPlayer_self hp]
    rfl
  · rw [Blow.victim, setPlayer_self hp]
    rfl
  · rw [takeDamage_eq monsterAtkPoint hafter, if_pos hfatal, ← broadcast_setPlayer hsome]
    rfl
  · rw [takeDamage_eq monsterAtkPoint hafter, if_neg hfatal, ← broadcast_setPlayer hsome]
    rfl

end World

namespace Battle
variable {s : Battle F} {i : MonsterId} {m : CMonster F} {id : Slot} {n : ℕ} {p q : CPlayer F}

@[simp] theorem setPhase_self (i : MonsterId) (phase : Phase) (s : Battle F) :
    (s.setPhase i phase).phase i = phase := Function.update_self ..

theorem setPlayer_world (hn : s.session id = n) :
    (s.setPlayer id n p).world = s.world.setPlayer id (some p) := by
  simp only [setPlayer]
  rw [if_pos hn]

/-- Only players change. -/
theorem setPlayer_frame (id : Slot) (n : ℕ) (p : CPlayer F) (s : Battle F) :
    (s.setPlayer id n p).phase = s.phase ∧ (s.setPlayer id n p).session = s.session ∧
      (s.setPlayer id n p).world.monster = s.world.monster ∧
      (s.setPlayer id n p).world.timerQueue = s.world.timerQueue := by
  simp only [setPlayer]
  split_ifs
  · exact ⟨rfl,rfl,rfl,rfl⟩
  · exact ⟨rfl,rfl,rfl,rfl⟩

theorem setPlayer_isSome (hp : (s.player id n).isSome) (j : Slot) :
    ((s.setPlayer id n q).world.player j).isSome = (s.world.player j).isSome := by
  unfold player at hp
  simp only [setPlayer]
  split_ifs at hp ⊢ with hn
  · change (Function.update s.world.player id (some q) j).isSome = _
    rw [Function.update_apply]
    split_ifs with hj
    · rw [hj, hp, Option.isSome_some]
    · rfl
  · rfl

theorem player_setPlayer (id : Slot) (n : ℕ) (q : CPlayer F) (s : Battle F) :
    (s.setPlayer id n q).player id n = some q := by
  simp only [player, setPlayer]
  split_ifs with hn
  · exact Function.update_self ..
  · simp

variable [FloatArith F]

/-- The tests before Attack let a monster attack its target. -/
structure Engages (w : World F) (m : CMonster F) (id : Slot) (p : CPlayer F) : Prop where
  healthPoint : 0 < m.healthPoint
  target : m.target = some id
  player : w.player id = some p
  isAlive : p.isAlive

theorem check_engaged (now : ℕ) (hm : s.world.monster i = some m) (hs : m.state = .attackState)
    (hready : s.phase i = .ready) (h : Engages s.world m id p) :
    s.check i now = .ok (s.setPhase i (.checked id)) := by
  simp only [check, hready, hm, hs, if_true, checkTarget, h.target, h.player, h.isAlive,
    not_le.mpr h.healthPoint, if_false, Bool.not_true, Bool.false_eq_true]
  rfl

/-- Without a target to attack, Execute ends at once. -/
theorem check_idle (draw now : ℕ) (hm : s.world.monster i = some m) (hs : m.state = .attackState)
    (hready : s.phase i = .ready) (h : ∀ id p, ¬ Engages s.world m id p) : ∃ m',
    s.check i now = .ok (s.conclude i m' (now+1000)) ∧ m'.target = m.target ∧
      s.world.executeAttackState i m draw now =
        .ok ((s.world.setMonster i m').monsterTimer i (now+1000)) := by
  simp only [check, hready, hm, hs, if_true, checkTarget, World.executeAttackState]
  by_cases hhp : m.healthPoint ≤ 0
  · rw [if_pos hhp, if_pos hhp]
    exact ⟨_,rfl,World.exit_target m,rfl⟩
  · rw [if_neg hhp, if_neg hhp]
    cases ht : m.target with
    | none => exact ⟨_,rfl,(World.exit_target m).trans ht,rfl⟩
    | some id =>
      dsimp only
      cases hp : s.world.player id with
      | none => exact ⟨_,rfl,(World.exit_target m).trans ht,rfl⟩
      | some p =>
        have hdead : p.isAlive = false :=
          Bool.eq_false_iff.mpr fun halive => h id p ⟨not_le.mp hhp,ht,hp,halive⟩
        simp only [hdead, Bool.not_false, if_true]
        exact ⟨_,rfl,(World.exit_target m).trans ht,rfl⟩

theorem endAttack_world (hn : s.session id = n) (hp : s.world.player id = some p) :
    (s.endAttack i m id n p).world = s.world.attackEnd i m id p := by
  rw [World.attackEnd_eq hp, ← setPlayer_world hn]
  rfl

/-- A blow changes the phase of the monster, and players. -/
theorem endAttack_frame (i : MonsterId) (m : CMonster F) (id : Slot) (n : ℕ) (p : CPlayer F)
    (s : Battle F) : (s.endAttack i m id n p).phase i = .swung id ∧
      (s.endAttack i m id n p).session = s.session ∧
      (s.endAttack i m id n p).world.monster = s.world.monster ∧
      (s.endAttack i m id n p).world.timerQueue = s.world.timerQueue := by
  obtain ⟨-,hsession,hmonster,hqueue⟩ := setPlayer_frame id n ((m.blow p).victim p) s
  exact ⟨setPhase_self ..,hsession,(World.broadcasts_monster ..).trans hmonster,
    (World.broadcasts_timerQueue ..).trans hqueue⟩

theorem endAttack_player (i : MonsterId) (m : CMonster F) (id : Slot) (n : ℕ) (p : CPlayer F)
    (s : Battle F) : (s.endAttack i m id n p).player id n = some ((m.blow p).victim p) := by
  have hplayer := player_setPlayer id n ((m.blow p).victim p) s
  simp only [player] at hplayer ⊢
  rw [← hplayer]
  change (if _ = n then (World.broadcasts _ _).player id else _) = _
  rw [World.broadcasts_player]
  rfl

theorem land_waiting (hphase : s.phase i = .waiting id n) (hm : s.world.monster i = some m)
    (hp : s.player id n = some p) : s.land i = s.endAttack i m id n p := by
  simp only [land, hphase, hm, hp]

theorem land_swung (hphase : s.phase i = .swung id) : s.land i = s := by
  simp only [land, hphase]

/-- In range Attack comes to its pause, -/
theorem swing_near (draw : ℕ) (hphase : s.phase i = .checked id) (hm : s.world.monster i = some m)
    (hp : s.world.player id = some p) (hpos : 0 < getDistance m.pos p.pos)
    (hrange : getDistance m.pos p.pos ≤ attackRange) :
    s.swing i draw = .ok { s.setPhase i (.waiting id (s.session id)) with
      world := s.world.attackStart i (m.face p.pos) draw } := by
  simp only [swing, hphase, hm, beginAttack, hp, not_lt.mpr hrange, not_le.mpr hpos, if_false]

/-- and elsewhere it returns. -/
theorem swing_far (draw : ℕ) (hphase : s.phase i = .checked id) (hm : s.world.monster i = some m)
    (hp : s.world.player id = some p)
    (hout : attackRange < getDistance m.pos p.pos ∨ getDistance m.pos p.pos ≤ 0) :
    s.swing i draw = .ok (s.setPhase i (.swung id)) := by
  simp only [swing, hphase, hm, beginAttack, hp]
  split_ifs with hfar hnear
  · rfl
  · rfl
  · exact absurd hout (not_or.mpr ⟨hfar,hnear⟩)

theorem finish_swung (now : ℕ) (hphase : s.phase i = .swung id) (hm : s.world.monster i = some m) :
    s.finish i now = s.checkRange i m id now := by
  simp only [finish, hphase, hm]

/-- What the last step does to the server. -/
theorem checkRange_world (now : ℕ) (hp : s.world.player id = some p) :
    (s.checkRange i m id now).map Battle.world =
      if atkRange < getDistance m.pos p.pos then
        (s.world.changeState .chaseState m).map fun m =>
          (s.world.setMonster i m).monsterTimer i (now+1000)
      else .ok (s.world.monsterTimer i (now+3000)) := by
  simp only [checkRange, hp]
  split_ifs with hfar
  · cases s.world.changeState .chaseState m with
    | error e => rfl
    | ok m' => rfl
  · rfl

/-- Attack without a pause to speak of. -/
theorem swing_land (draw : ℕ) (hphase : s.phase i = .checked id) (hm : s.world.monster i = some m)
    (hp : s.world.player id = some p) : ∃ t m' q, s.swing i draw = .ok t ∧
      (t.land i).phase i = .swung id ∧
      s.world.monsterAttack i m id p draw = (m',(t.land i).world) ∧
      (t.land i).world.monster i = some m' ∧ m'.pos = m.pos ∧
      (t.land i).world.player id = some q ∧ q.pos = p.pos := by
  simp only [World.monsterAttack]
  by_cases hnear : 0 < getDistance m.pos p.pos ∧ getDistance m.pos p.pos ≤ attackRange
  · rw [if_neg (not_lt.mpr hnear.2), if_neg (not_le.mpr hnear.1)]
    refine ⟨_,m.face p.pos,((m.face p.pos).blow p).victim p,
      swing_near draw hphase hm hp hnear.1 hnear.2,?_⟩
    generalize ht : ({ s.setPhase i (.waiting id (s.session id)) with
      world := s.world.attackStart i (m.face p.pos) draw } : Battle F) = t
    have hwait : t.phase i = .waiting id (t.session id) := by
      subst ht
      exact setPhase_self ..
    have hmonster : t.world.monster i = some (m.face p.pos) := by
      subst ht
      exact World.attackStart_monster ..
    have hplayer : t.world.player id = some p := by
      subst ht
      exact (congrFun (World.attackStart_player ..) id).trans hp
    have hobject : t.player id (t.session id) = some p := (if_pos rfl).trans hplayer
    have hworld : t.world = s.world.attackStart i (m.face p.pos) draw := by rw [← ht]
    obtain ⟨hdone,hsession,hframe,-⟩ :=
      endAttack_frame i (m.face p.pos) id (t.session id) p t
    have hvictim := endAttack_player i (m.face p.pos) id (t.session id) p t
    rw [land_waiting hwait hmonster hobject]
    refine ⟨hdone,?_,(congrFun hframe i).trans hmonster,rfl,?_,Blow.victim_pos ..⟩
    · rw [endAttack_world rfl hplayer, hworld]
    · rw [player, hsession, if_pos rfl] at hvictim
      exact hvictim
  · have hout : attackRange < getDistance m.pos p.pos ∨ getDistance m.pos p.pos ≤ 0 := by
      rw [not_and_or, not_lt, not_le] at hnear
      exact hnear.symm
    have hdone := setPhase_self i (.swung id) s
    refine ⟨_,m,p,swing_far draw hphase hm hp hout,?_⟩
    rw [land_swung hdone]
    refine ⟨hdone,?_,hm,rfl,hp,rfl⟩
    split_ifs with hfar hself
    · rfl
    · rfl
    · exact absurd hout (not_or.mpr ⟨hfar,hself⟩)

/-- Without visits the four steps are AttackState::Execute. -/
theorem execute_alone (draw now : ℕ) (hm : s.world.monster i = some m) (hs : m.state = .attackState)
    (hready : s.phase i = .ready) :
    (s.execute i ⟨draw,now,[],[],[]⟩).map (fun r => r.map Battle.world) =
      some (s.world.executeAttackState i m draw now) := by
  by_cases hengaged : ∃ id p, Engages s.world m id p
  · obtain ⟨id,p,h⟩ := hengaged
    have hcheck := check_engaged now hm hs hready h
    have hphase := setPhase_self i (.checked id) s
    obtain ⟨t,m',q,hswing,hdone,hattack,hmonster,hpos,hplayer,hqpos⟩ :=
      swing_land draw hphase hm h.player
    have hfinish := finish_swung now hdone hmonster
    have hlast := checkRange_world (i := i) (m := m') now hplayer
    simp only [execute]
    simp only [hcheck, hphase, Runs.run, Option.bind_some, hswing, Option.map_some, hfinish, hlast]
    change s.world.monsterAttack i m id p draw = _ at hattack
    simp only [World.executeAttackState, not_le.mpr h.healthPoint, if_false, h.target, h.player,
      h.isAlive, Bool.not_true, Bool.false_eq_true, hattack, hpos, hqpos]
    split_ifs
    · cases (t.land i).world.changeState .chaseState m' with
      | error e => rfl
      | ok m'' => rfl
    · rfl
  · push Not at hengaged
    obtain ⟨m',hcheck,-,hok⟩ := check_idle draw now hm hs hready hengaged
    simp only [execute]
    simp only [hcheck, hok, conclude, setPhase_self]
    rfl

/-- What a blow should do: it takes effect in range, against a target without defence. -/
structure StrikesRightly (m : CMonster F) (p q : CPlayer F) : Prop where
  hit : getDistance m.pos p.pos ≤ attackRange ∧ ¬ p.isGuard ∧ ¬ p.isEvade →
    q.healthPoint = max (p.healthPoint-monsterAtkPoint) 0
  miss : ¬ (getDistance m.pos p.pos ≤ attackRange ∧ ¬ p.isGuard ∧ ¬ p.isEvade) →
    q.healthPoint = p.healthPoint ∧ q.isAlive = p.isAlive

/-- The target is strictly in range, or on the border without a defence, or damage changes nothing
any more. -/
def StandsFair (m : CMonster F) (p : CPlayer F) : Prop :=
  getDistance m.pos p.pos < guardRange ∨
    (getDistance m.pos p.pos = guardRange ∧ ¬ p.isGuard ∧ ¬ p.isEvade) ∨
    (p.healthPoint = 0 ∧ ¬ p.isAlive)

/-- A target without a defence close by takes damage. -/
theorem victim_of_open (hguard : ¬ (getDistance m.pos p.pos < guardRange ∧ p.isGuard))
    (hevade : ¬ (getDistance m.pos p.pos < guardRange ∧ p.isEvade)) :
    ((m.blow p).victim p).healthPoint = max (p.healthPoint-monsterAtkPoint) 0 ∧
      ((m.blow p).victim p).isAlive = (p.isAlive && decide (0 < p.healthPoint-monsterAtkPoint)) := by
  simp only [CMonster.blow]
  rw [if_neg hguard, if_neg hevade]
  split_ifs with hfatal
  · refine ⟨(max_eq_right hfatal).symm,?_⟩
    rw [decide_eq_false (not_lt.mpr hfatal), Bool.and_false]
    rfl
  · rw [not_le] at hfatal
    refine ⟨(max_eq_left hfatal.le).symm,?_⟩
    rw [decide_eq_true hfatal, Bool.and_true]
    rfl

/-- Damage changes nothing only for a dead player. -/
theorem victim_eq_iff (hguard : ¬ (getDistance m.pos p.pos < guardRange ∧ p.isGuard))
    (hevade : ¬ (getDistance m.pos p.pos < guardRange ∧ p.isEvade)) :
    (((m.blow p).victim p).healthPoint = p.healthPoint ∧
      ((m.blow p).victim p).isAlive = p.isAlive) ↔ p.healthPoint = 0 ∧ ¬ p.isAlive := by
  obtain ⟨hhp,halive⟩ := victim_of_open hguard hevade
  rw [hhp, halive]
  simp only [monsterAtkPoint]
  constructor
  · rintro ⟨hsame,hstill⟩
    have hzero : p.healthPoint = 0 := by omega
    refine ⟨hzero,fun hlives => ?_⟩
    rw [hlives, hzero] at hstill
    exact absurd hstill (by decide)
  · rintro ⟨hzero,hdead⟩
    rw [hzero, Bool.eq_false_iff.mpr hdead]
    exact ⟨rfl,rfl⟩

theorem strikesRightly_iff (m : CMonster F) (p : CPlayer F) :
    StrikesRightly m p ((m.blow p).victim p) ↔ StandsFair m p := by
  by_cases hnear : getDistance m.pos p.pos < guardRange
  · -- here a defence works
    refine iff_of_true ⟨fun h => ?_,fun h => ?_⟩ (Or.inl hnear)
    · exact (victim_of_open (fun hg => h.2.1 hg.2) fun he => h.2.2 he.2).1
    · simp only [CMonster.blow]
      split_ifs with hguard hevade
      · exact ⟨rfl,rfl⟩
      · exact ⟨rfl,rfl⟩
      all_goals
        exact absurd ⟨hnear.le,fun hg => hguard ⟨hnear,hg⟩,fun he => hevade ⟨hnear,he⟩⟩ h
  · have hguard : ¬ (getDistance m.pos p.pos < guardRange ∧ p.isGuard) := fun h => hnear h.1
    have hevade : ¬ (getDistance m.pos p.pos < guardRange ∧ p.isEvade) := fun h => hnear h.1
    by_cases hopen : getDistance m.pos p.pos ≤ attackRange ∧ ¬ p.isGuard ∧ ¬ p.isEvade
    · have hborder : getDistance m.pos p.pos = guardRange := le_antisymm hopen.1 (not_lt.mp hnear)
      exact iff_of_true ⟨fun _ => (victim_of_open hguard hevade).1,fun h => absurd hopen h⟩
        (Or.inr (Or.inl ⟨hborder,hopen.2⟩))
    · constructor
      · exact fun h => Or.inr (Or.inr ((victim_eq_iff hguard hevade).mp (h.miss hopen)))
      · rintro (h | ⟨hborder,hdefence⟩ | hdead)
        · exact absurd h hnear
        · exact absurd ⟨hborder.le,hdefence⟩ hopen
        · exact ⟨fun h => absurd h hopen,fun _ => (victim_eq_iff hguard hevade).mpr hdead⟩

/-- The pause of an attack that began in range may end in any state with the monster and its target.
The blow is right if and only if the target stands fair then. -/
theorem attack_strikes_iff {m₀ : CMonster F} {p₀ : CPlayer F} (draw : ℕ)
    (hphase : s.phase i = .checked id) (hm₀ : s.world.monster i = some m₀)
    (hp₀ : s.world.player id = some p₀) (hpos : 0 < getDistance m₀.pos p₀.pos)
    (hrange : getDistance m₀.pos p₀.pos ≤ attackRange) :
    ∃ t, s.swing i draw = .ok t ∧ t.phase i = .waiting id (s.session id) ∧
      ∀ (u : Battle F) m p, u.phase i = t.phase i → u.world.monster i = some m →
        u.player id (s.session id) = some p → ∃ q,
          (u.land i).player id (s.session id) = some q ∧ (StrikesRightly m p q ↔ StandsFair m p) := by
  have hwait := setPhase_self i (.waiting id (s.session id)) s
  refine ⟨_,swing_near draw hphase hm₀ hp₀ hpos hrange,hwait,?_⟩
  intro u m p hu hm hp
  rw [land_waiting (hu.trans hwait) hm hp]
  exact ⟨_,endAttack_player i m id (s.session id) p u,strikesRightly_iff m p⟩

/-- A goblin that attacks the player of slot 0. -/
def hunter : CMonster ℚ :=
  { (CMonster.initializeMonster ⟨0,0,0⟩ CMonster.objGoblin : CMonster ℚ) with
    target := some 0, state := .attackState, monState := .mAttack }

/-- A player that is 100 away from it. -/
def prey : CPlayer ℚ := { zeroPlayer with pos := ⟨100,0,0⟩, healthPoint := 10, isAlive := true }

/-- The goblin has just looked at the player. -/
def duel : Battle ℚ where
  world := { (World.empty : World ℚ) with
    monster := fun i => if i = 0 then some hunter else none
    player := fun c => if c = 0 then some prey else none }
  phase i := if i = 0 then .checked 0 else .ready
  session _ := 0
  gone _ _ := none
  deaths _ _ := 0
  struck := []

theorem attack_strikes_duel : ∃ t, duel.swing 0 0 = .ok t ∧ t.phase 0 = .waiting 0 0 ∧
    ∀ (u : Battle ℚ) m p, u.phase 0 = t.phase 0 → u.world.monster 0 = some m →
      u.player 0 0 = some p → ∃ q,
        (u.land 0).player 0 0 = some q ∧ (StrikesRightly m p q ↔ StandsFair m p) :=
  attack_strikes_iff 0 rfl rfl rfl (by decide +kernel) (by decide +kernel)

/-- The player after running away. -/
def runaway : CPlayer ℚ := { prey with pos := ⟨5000,0,0⟩ }

/-- The end of the pause, when the player is 5000 away. -/
def escape : Battle ℚ :=
  { duel with
    world := { duel.world with player := fun c => if c = 0 then some runaway else none }
    phase := fun i => if i = 0 then .waiting 0 0 else .ready }

/-- The blow hits the player wherever it has run to. -/
theorem runaway_hit : ∃ (s t u : Battle ℚ) (i : MonsterId) (id : Slot) (draw : ℕ) (m₀ m : CMonster ℚ)
    (p₀ p q : CPlayer ℚ), s.phase i = .checked id ∧ s.world.monster i = some m₀ ∧
      s.world.player id = some p₀ ∧ 0 < getDistance m₀.pos p₀.pos ∧
      getDistance m₀.pos p₀.pos ≤ attackRange ∧ s.swing i draw = .ok t ∧ u.phase i = t.phase i ∧
      u.world.monster i = some m ∧ u.player id (s.session id) = some p ∧
      (u.land i).player id (s.session id) = some q ∧ ¬ StrikesRightly m p q := by
  have hpos : 0 < getDistance hunter.pos prey.pos := by decide +kernel
  have hrange : getDistance hunter.pos prey.pos ≤ attackRange := by decide +kernel
  have hfar : ¬ (getDistance hunter.pos runaway.pos ≤ attackRange ∧ ¬ runaway.isGuard ∧
      ¬ runaway.isEvade) := by decide +kernel
  have hland : (escape.land 0).player 0 0 = some ((hunter.blow runaway).victim runaway) := by
    rw [land_waiting rfl rfl rfl]
    exact endAttack_player 0 hunter 0 0 runaway escape
  refine ⟨duel,_,escape,0,0,0,hunter,hunter,prey,runaway,_,rfl,rfl,rfl,hpos,hrange,
    swing_near 0 rfl rfl rfl hpos hrange,rfl,rfl,rfl,hland,fun h => ?_⟩
  exact absurd (h.miss hfar).1 (by decide +kernel)

end Battle

end LastHero
