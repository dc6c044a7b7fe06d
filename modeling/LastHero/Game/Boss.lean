import LastHero.Game.Player

/-! The boss: hit counts of its parts, choice of the next attack, and one Execute for each class
derived from BossState. The random engine is a parameter `draw` of each step. -/
namespace LastHero
variable {F : Type} [FloatArith F]

/-- BOSS_ACTIVITY_RANGE -/
def bossActivityRange : ℕ := 4000

/-- B_LONG_ATK_RANGE -/
def bLongAtkRange : ℕ := 1500

/-- ACTIVITY_RANGE -/
def activityRange : ℕ := 400000

/-- The number of a cell, `(a - SIDE_MIN) / POS_SCALE` without the fraction. A `float` quotient by
100 that fits into a `short` is never rounded up to an integer. -/
def cellNumber (a : F) : ℤ :=
  (FloatArith.trunc (FloatArith.sub a (FloatArith.lit sideMin))).tdiv posScale

/-- The cell of a position. -/
def Position.gridCell (p : Position F) : ℤ × ℤ := (cellNumber p.x,cellNumber p.y)

/-- The POS_2D of a position, which holds the numbers of its cell as `short`. -/
def Position.pos2D (p : Position F) : ℤ × ℤ :=
  (CInt.toShort p.gridCell.1,CInt.toShort p.gridCell.2)

namespace Boss

/-- Initialize. The position given by the caller is overwritten; the hit points of the upper arms,
which are left as they are, are never read. -/
def initializeBoss : Boss F where
  healthPoint := ⟨100,100,fun _ => 100⟩
  pos := Position.lits (22976.5) (35731.7) (-932.3)
  isDestroy := ⟨false,fun _ => false⟩
  state := .bossIdle
  chasePath := []
  target := none
  boneMap
    | .rHand => 20 | .rForearm => 22 | .rUpperarm => 24
    | .rFoot => 20 | .rCalf => 22 | .rThigh => 24
    | .lHand => 5 | .lForearm => 7 | .lUpperarm => 9
    | .lFoot => 20 | .lCalf => 22 | .lThigh => 24
  mainHP := 600

/-- The boss is alive. -/
def Alive (b : Boss F) : Prop := 0 < b.mainHP ∧ 0 < b.healthPoint.body

instance (b : Boss F) : Decidable b.Alive := inferInstanceAs (Decidable (_ ∧ _))

def isLegBroken (b : Boss F) : Bool :=
  b.isDestroy.part .rFoot || b.isDestroy.part .rThigh || b.isDestroy.part .rCalf ||
    b.isDestroy.part .lFoot || b.isDestroy.part .lThigh || b.isDestroy.part .lCalf

def isRHandBroken (b : Boss F) : Bool :=
  b.isDestroy.part .rForearm || b.isDestroy.part .rUpperarm || b.isDestroy.part .rHand

def isLHandBroken (b : Boss F) : Bool :=
  b.isDestroy.part .lForearm || b.isDestroy.part .lUpperarm || b.isDestroy.part .lHand

/-- IsPartDestroyed -/
def isPartDestroyed (b : Boss F) : Boss F :=
  { b with isDestroy := {
      head := b.isDestroy.head || b.healthPoint.head ≤ 0
      part
        | .lHand => b.isDestroy.part .lHand || b.healthPoint.part .lHand ≤ 0
        | .rHand => b.isDestroy.part .rHand || b.healthPoint.part .rHand ≤ 0
        | .lForearm => b.isDestroy.part .lForearm || b.healthPoint.part .lForearm ≤ 0
        | .rForearm => b.isDestroy.part .rForearm || b.healthPoint.part .rForearm ≤ 0
        | p => b.isDestroy.part p } }

/-- BoneBreak -/
def boneBreak (p : Part) (b : Boss F) : Boss F :=
  { b with
    healthPoint := { b.healthPoint with part := Function.update b.healthPoint.part p 0 }
    isDestroy := { b.isDestroy with part := Function.update b.isDestroy.part p true } }

/-- ChangeState. Enter and Exit of all states only set fields that nothing reads. -/
def changeState (s : BossState) (b : Boss F) : Boss F := { b with state := s }

end Boss

/-- ChangeNextState -/
def nextBossState : BState → BossState
  | .bIdle => .bossIdle
  | .bChase => .bossChase
  | .bAttack => .bossAttack
  | .bDead => .bossDead
  | .bDashAtk => .bossDashAttack
  | .bSwingAtk => .bossSwingAttack
  | .bStrikeAtk => .bossStrikeAttack
  | .bThrowAtk => .bossThrowAttack
  | .bStompAtk => .bossStompAttack
  | .bIcespearAtk => .bossIceSpearAttack
  | .bHandclapAtk => .bossHandClapAttack
  | .bPunchAtk => .bossPunchAttack
  | .bDownAtk => .bossDownAttack
  | _ => .bossDead

namespace World

/-- The player that the boss aims at; target -1 is a key of g_player without a player. -/
def targetPlayer (b : Boss F) (w : World F) : Option (CPlayer F) := b.target.bind w.player

/-- AddTimer for the boss. -/
def bossTimer (b : Boss F) (wakeupTime : ℕ) (w : World F) : World F :=
  w.addTimer .evBoss wakeupTime (b.target.elim (-1) fun i => i)

/-- Boss::Idle -/
def bossIdle (b : Boss F) (w : World F) : BState :=
  if slots.any fun i => (w.player i).any fun p =>
      floatLt (floatDistance b.pos p.pos) bossActivityRange &&
        floatGt (floatDistance b.pos p.pos) 0 then .bAttack
  else .bIdle

/-- The attacks against a target in sight; `far` is `targetDis > B_LONG_ATK_RANGE`. -/
def chooseAttack (far : Bool) (draw : ℕ) : BState :=
  if far then
    match draw % 3 with
    | 0 => .bThrowAtk
    | 1 => .bDashAtk
    | _ => .bIcespearAtk
  else
    match draw % 5 with
    | 0 => .bStompAtk
    | 1 => .bHandclapAtk
    | 2 => .bSwingAtk
    | 3 => .bNormalAtk
    | _ => .bPunchAtk

/-- `targetDis` after its conversion to `int`; NaN is INT_MIN. -/
def targetDis (b : Boss F) (p : CPlayer F) : ℤ :=
  match floatDistance b.pos p.pos with
  | none => CInt.intMin
  | some n => n.sqrt

/-- One iteration of the search in Boss::Attack over (targetID, targetDis). -/
def scanTarget (b : Boss F) (w : World F) (s : Slot × ℕ) (i : Slot) : Slot × ℕ :=
  match w.player i with
  | none => s
  | some p =>
    match floatDistance b.pos p.pos with
    | none => s
    | some n =>
      if s.2^2 < n then
        if bossActivityRange^2 < n then s else (i,n.sqrt)
      else s

/-- The search starts at the largest distance that it accepts, so it never finds anyone. -/
theorem foldl_scanTarget (b : Boss F) (w : World F) (l : List Slot) :
    l.foldl (scanTarget b w) (0,bossActivityRange) = (0,bossActivityRange) := by
  induction l with
  | nil => rfl
  | cons i l ih =>
    have hi : scanTarget b w (0,bossActivityRange) i = (0,bossActivityRange) := by
      simp only [scanTarget]
      split
      · rfl
      · split
        · rfl
        · split <;> rfl
    rw [List.foldl_cons, hi, ih]

/-- Boss::Attack -/
def bossAttackChoice (b : Boss F) (draw : ℕ) (w : World F) : Boss F × BState :=
  let found := slots.foldl (scanTarget b w) (0,bossActivityRange)
  let b := if (w.player found.1).isSome then { b with target := some found.1 } else b
  if bossActivityRange < found.2 then (b,.bAttack)
  else if b.isLegBroken then (b,.bDownAtk)
  else
    match w.targetPlayer b with
    | none => (b,.bIdle)
    | some p => (b,chooseAttack (bLongAtkRange < targetDis b p) draw)

/-- The packets that turn the boss to a player and announce an attack. -/
def turnTo (b : Boss F) (p : CPlayer F) (w : World F) : World F :=
  w.broadcast (.scSetRotation bossIdx (facing (getDegree b.pos p.pos)))

def announce (atk : BState) (p : CPlayer F) (w : World F) : World F :=
  w.broadcast (.scBossAttack bossIdx atk p.pos)

/-- BossIdle::Execute -/
def executeIdle (b : Boss F) (now : ℕ) (w : World F) : World F :=
  let next := w.bossIdle b
  let b := if next = .bIdle then b else b.changeState (nextBossState next)
  (w.setBoss b).bossTimer b (now+1000)

/-- Boss::Chase, with the path finder as a parameter. -/
def bossChase (getPath : ℤ × ℤ → ℤ × ℤ → List (ℤ × ℤ)) (b : Boss F) (w : World F) :
    Except Fault (Boss F × BState) :=
  match b.target with
  | none => .ok (b,.bIdle)
  | some i =>
    let path : Except Fault (List (ℤ × ℤ)) :=
      if b.chasePath = [] then
        match w.player i with
        | none => .error .nullPlayer
        | some p => .ok (getPath b.pos.pos2D p.pos.pos2D)
      else .ok b.chasePath
    match path with
    | .error e => .error e
    | .ok [] => .error .emptyPath
    | .ok (c::path) =>
      let b := { b with
        pos := { b.pos with
          x := FloatArith.lit ((c.1*posScale+sideMin : ℤ) : ℚ)
          y := FloatArith.lit ((c.2*posScale+sideMin : ℤ) : ℚ) }
        chasePath := path }
      if path = [] then .ok (b,.bIdle)
      else
        match w.player i with
        | none => .error .nullPlayer
        | some p =>
          if floatLt (floatDistance b.pos p.pos) attackRange.toNat then
            .ok ({ b with chasePath := [] },.bAttack)
          else if floatGt (floatDistance b.pos p.pos) activityRange then
            .ok ({ b with chasePath := [], target := none },.bIdle)
          else .ok (b,.bChase)

/-- BossChase::Execute -/
def executeChase (getPath : ℤ × ℤ → ℤ × ℤ → List (ℤ × ℤ)) (b : Boss F) (w : World F) :
    Except Fault (World F) := do
  if b.isDestroy.part .lFoot || b.isDestroy.part .rFoot then
    return w.setBoss (b.changeState .bossIdle)
  let (b,next) ← bossChase getPath b w
  return w.setBoss (if next = .bChase then b else b.changeState (nextBossState next))

/-- BossAttack::Execute -/
def executeAttack (b : Boss F) (draw now : ℕ) (w : World F) : Except Fault (World F) :=
  let (b,next) := w.bossAttackChoice b draw
  let w := w.setBoss b
  if next = .bAttack then .ok (w.bossTimer b (now+1000))
  else if next = .bNormalAtk then
    match w.targetPlayer b with
    | none => .error .nullPlayer
    | some p => .ok (((w.turnTo b p).announce .bNormalAtk p).bossTimer b (now+1000))
  else .ok ((w.setBoss (b.changeState (nextBossState next))).bossTimer b (now+1000))

/-- Execute of the attacks that need a target and both legs: dash, swing, strike, throw, stomp,
ice spear, hand clap and punch. -/
def executeStrike (atk : BState) (delay : ℕ) (b : Boss F) (now : ℕ) (w : World F) : World F :=
  match w.targetPlayer b with
  | none => w.setBoss (b.changeState .bossAttack)
  | some p =>
    if b.isLegBroken then w.setBoss (b.changeState .bossAttack)
    else (((w.turnTo b p).announce atk p).setBoss (b.changeState .bossAttack)).bossTimer b
      (now+delay)

def executeDashAttack (b : Boss F) : ℕ → World F → World F := executeStrike .bDashAtk 5000 b
def executeSwingAttack (b : Boss F) : ℕ → World F → World F := executeStrike .bSwingAtk 3000 b
def executeStrikeAttack (b : Boss F) : ℕ → World F → World F := executeStrike .bStrikeAtk 3000 b
def executeThrowAttack (b : Boss F) : ℕ → World F → World F := executeStrike .bThrowAtk 5000 b
def executeStompAttack (b : Boss F) : ℕ → World F → World F := executeStrike .bStompAtk 5000 b
def executeIceSpearAttack (b : Boss F) : ℕ → World F → World F :=
  executeStrike .bIcespearAtk 5000 b
def executeHandClapAttack (b : Boss F) : ℕ → World F → World F :=
  executeStrike .bHandclapAtk 5000 b
def executePunchAttack (b : Boss F) : ℕ → World F → World F := executeStrike .bPunchAtk 5000 b

/-- The attack of a fallen boss; none when both arms are broken. -/
def downAttack (b : Boss F) (draw : ℕ) : Option BState :=
  if b.isLHandBroken then
    if b.isRHandBroken then none else some .bDownAtkR
  else if b.isRHandBroken then
    some (if draw % 2 = 0 then .bDownAtkL else .bDownAtkSweep)
  else
    match draw % 3 with
    | 0 => some .bDownAtkL
    | 1 => some .bDownAtkR
    | _ => some .bDownAtkSweep

/-- BossDownAttack::Execute. Its return with both arms broken leaves the state as it is. -/
def executeDownAttack (b : Boss F) (draw now : ℕ) (w : World F) : World F :=
  match w.targetPlayer b with
  | none => w.setBoss (b.changeState .bossAttack)
  | some p =>
    if !b.isLegBroken then w.setBoss (b.changeState .bossAttack)
    else
      let w := (w.setBoss b).turnTo b p
      match downAttack b draw with
      | none => w
      | some atk => ((w.announce atk p).setBoss (b.changeState .bossAttack)).bossTimer b (now+5000)

/-- `state->Execute(this)` -/
def bossExecute (getPath : ℤ × ℤ → ℤ × ℤ → List (ℤ × ℤ)) (b : Boss F) (draw now : ℕ)
    (w : World F) : Except Fault (World F) :=
  match b.state with
  | .bossIdle => .ok (w.executeIdle b now)
  | .bossChase => w.executeChase getPath b
  | .bossAttack => w.executeAttack b draw now
  | .bossDead => .ok (w.setBoss b)
  | .bossDashAttack => .ok (executeDashAttack b now w)
  | .bossSwingAttack => .ok (executeSwingAttack b now w)
  | .bossStrikeAttack => .ok (executeStrikeAttack b now w)
  | .bossThrowAttack => .ok (executeThrowAttack b now w)
  | .bossStompAttack => .ok (executeStompAttack b now w)
  | .bossIceSpearAttack => .ok (executeIceSpearAttack b now w)
  | .bossHandClapAttack => .ok (executeHandClapAttack b now w)
  | .bossPunchAttack => .ok (executePunchAttack b now w)
  | .bossDownAttack => .ok (w.executeDownAttack b draw now)

/-- Boss::Update -/
def bossUpdate (getPath : ℤ × ℤ → ℤ × ℤ → List (ℤ × ℤ)) (draw now : ℕ) (w : World F) :
    Except Fault (World F) :=
  match w.boss with
  | none => .ok w
  | some b =>
    if b.healthPoint.body ≤ 0 ∨ b.mainHP ≤ 0 then .ok (w.setBoss (b.changeState .bossDead))
    else w.bossExecute getPath b.isPartDestroyed draw now

/-- One iteration of BoneMapUpdate. -/
def bonePart (newBoneMap : ℕ → ℤ) (w : World F) (part : Part × ℕ) : World F :=
  match w.boss with
  | none => w
  | some b =>
    if newBoneMap part.2 < b.boneMap part.1 ∧ 0 < b.boneMap part.1 then
      let left := b.boneMap part.1 - 1
      let b := { b with boneMap := Function.update b.boneMap part.1 left }
      if left ≤ 0 then
        (w.setBoss (b.boneBreak part.1)).broadcast (.scBoneBreak bossIdx part.1)
      else w.setBoss b
    else w

/-- BoneMapUpdate -/
def boneMapUpdate (newBoneMap : ℕ → ℤ) (w : World F) : World F :=
  boneParts.foldl (bonePart newBoneMap) w

end World

end LastHero
