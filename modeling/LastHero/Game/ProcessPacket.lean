import LastHero.Game.Session

/-! ProcessPacket: the type byte of packet_buf selects the handler, which reads its fields at
their offsets in the packed structs. -/
namespace LastHero
variable {F : Type} [FloatArith F]

/-- What a packet depends on besides the buffer and the state. -/
structure Now where
  /-- milliseconds -/
  time : ℕ
  /-- the result of the statement of SignUp -/
  signUpOk : Bool

namespace World

/-- The handlers that test g_player[uid] first. -/
def ifPlayer (uid : Slot) (f : CPlayer F → World F → World F) (w : World F) : World F :=
  match w.player uid with
  | none => w
  | some p => f p w

/-- move_packet -/
def onMove (uid : Slot) (buf : Buffer) (w : World F) : World F :=
  w.ifPlayer uid fun _ w =>
    (w.modifyPlayer uid fun p =>
      { p.setVelocity (.ofBuffer buf 26) with rotation := .ofBuffer buf 14 }).moveTo uid
        (.ofBuffer buf 2)

/-- cs_fireball, which is a teleport: its own code stands behind a break. -/
def onFireball (uid : Slot) (w : World F) : Except Fault (World F) :=
  let w := w.modifyPlayer uid fun p => p.setPosition (Position.lits 59060 55640 1970)
  w.onPlayer uid fun p w => w.sendPacket uid (p.makeUpdatePacket uid)

/-- cs_weapon_on -/
def onWeaponOn (uid : Slot) (p : CPlayer F) (w : World F) : World F :=
  if p.isWpnOn then w
  else (w.modifyPlayer uid fun p => { p with isWpnOn := true }).sendView p.viewList (.scWeaponOn uid)

/-- cs_weapon_off -/
def onWeaponOff (uid : Slot) (p : CPlayer F) (w : World F) : World F :=
  (w.modifyPlayer uid fun p => { p with isWpnOn := false }).sendView p.viewList (.scWeaponOff uid)

/-- cs_boss_move -/
def onBossMove (uid : Slot) (buf : Buffer) (w : World F) : World F :=
  match w.boss with
  | none => w
  | some b =>
    (w.setBoss { b with pos := .ofBuffer buf 2 }).broadcastOthers uid
      (.scUpdateObj bossIdx (.ofBuffer buf 2) (.ofBuffer buf 14) none)

/-- CMonster::UpdateWithClient -/
def updateWithClient (m : CMonster F) (w : World F) : CMonster F :=
  if m.monState = .mChase then
    match m.target.bind w.player with
    | none => m
    | some p => { m with velocity := p.pos.sub m.pos }
  else m

/-- cs_npc_move. The global `boss` of the other branch is never assigned. -/
def onNpcMove (buf : Buffer) (w : World F) : World F :=
  if buf.short 2 < bossIdx then
    match MonsterId.ofOid (buf.short 2) with
    | none => w
    | some i =>
      match w.monster i with
      | none => w
      | some m => w.setMonster i (w.updateWithClient (m.setPosition (.ofBuffer buf 4)))
  else w

/-- cs_boss_attack; atk_num is narrowed to a char. -/
def onBossAttack (uid : Slot) (buf : Buffer) (w : World F) : World F :=
  if buf.short 2 = bossIdx ∧ w.boss.isSome then
    w.broadcastOthers uid (.scBossAttackRelay bossIdx (buf.byteAt 4).toInt)
  else w

/-- cs_boss_bone -/
def onBossBone (buf : Buffer) (w : World F) : World F :=
  if buf.short 2 = bossIdx then w.boneMapUpdate fun i => (buf.byteAt (4+i)).toInt else w

/-- cs_login and the handlers that fail without a player. -/
def onType (t : CsType) (uid : Slot) (buf : Buffer) (now : Now) (w : World F) :
    Except Fault (World F) :=
  match t with
  | .csLogin => do
    let w ← w.login uid (buf.cString 2) (buf.cString 12) (buf.byteAt 22).toInt
    w.onPlayer uid fun _ w => w.enterGame uid
  | .csSignup => .ok (w.signUp uid now.signUpOk)
  | .movePacket => .ok (w.onMove uid buf)
  | .csChat => .ok w
  | .csAttack => w.onPlayer uid fun p w => w.attck uid p now.time
  | .csGuard => w.onPlayer uid fun p w => w.guard uid p now.time
  | .csFireball => w.onFireball uid
  | .csJump => .ok (w.broadcast (.scJump uid))
  | .csEvade => w.onPlayer uid fun p w => w.evade uid p now.time
  | .csWeaponOn => w.onPlayer uid fun p w => w.onWeaponOn uid p
  | .csWeaponOff => w.onPlayer uid fun p w => w.onWeaponOff uid p
  | .csBerserk => w.onPlayer uid fun p w => w.berserk uid p now.time
  | .csReady => w.onPlayer uid fun _ w => w.ready uid
  | .csBossMove => .ok (w.onBossMove uid buf)
  | .csHide => w.onPlayer uid fun p w => w.hide uid p
  | .csHideOff => w.onPlayer uid fun p w => w.hideOff uid p
  | .csAssassin => w.onPlayer uid fun p w => w.assassinate uid p now.time
  | .csMoveStop => w.onPlayer uid fun p w => w.broadcast (.scMoveStop uid p.pos)
  | .csSwordOn => w.onPlayer uid fun p w => w.weaponOn uid p .sword
  | .csSwordOff => w.onPlayer uid fun p w => w.weaponOff uid p .sword
  | .csHammerOn => w.onPlayer uid fun p w => w.weaponOn uid p .hammer
  | .csHammerOff => w.onPlayer uid fun p w => w.weaponOff uid p .hammer
  | .csNpcMove => .ok (w.onNpcMove buf)
  | .csBossAttack => .ok (w.onBossAttack uid buf)
  | .csBossBone => .ok (w.onBossBone buf)
  | .csSyncFail => .ok w
  | .csUpdateMoveState =>
    .ok (w.ifPlayer uid fun p w => w.setMoveState uid p (buf.short 2))

/-- ProcessPacket. An unknown type disconnects the client and ends the process. -/
def processPacket (uid : Slot) (buf : Buffer) (now : Now) (w : World F) : Except Fault (World F) :=
  match CsType.ofByte (buf.byteAt 1) with
  | some t => w.onType t uid buf now
  | none => do
    let _ ← w.disconnect uid
    throw .exit

end World

end LastHero
