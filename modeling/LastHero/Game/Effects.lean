import LastHero.Game.Frame
import LastHero.Game.Monster
import Mathlib.Logic.Relation

/-! What the handling of a packet is made of. Every handler is a sequence of a few kinds of
effects, so that a property of all packets is a property of these. -/
namespace LastHero
variable {F : Type}

/-- The flag that a skill sets until its event. -/
def CPlayer.flag (p : CPlayer F) : OffEvent → Bool
  | .evBerserk => p.isBerserk
  | .evAtkOff => p.isAttack
  | .evGuardOff => p.isGuard
  | .evEvadeOff => p.isEvade
  | .evAssOff => p.isAssasinate

/-- What only levels and damage change. -/
def CPlayer.vitals (p : CPlayer F) : ℤ × ℤ × ℤ × Bool := (p.level,p.healthPoint,p.maxHP,p.isAlive)

/-- The skill that a packet uses. -/
def CsType.skill : CsType → Option OffEvent
  | .csBerserk => some .evBerserk
  | .csAttack => some .evAtkOff
  | .csGuard => some .evGuardOff
  | .csEvade => some .evEvadeOff
  | .csAssassin => some .evAssOff
  | _ => none

/-- The skills that sweep over the monsters. -/
def OffEvent.sweeps : OffEvent → Bool
  | .evBerserk => true
  | .evAtkOff => true
  | .evAssOff => true
  | _ => false

/-- What a packet can do to a monster. -/
structure CMonster.Spared (m m' : CMonster F) : Prop where
  state : m'.state = m.state
  monState : m'.monState = m.monState
  target : m'.target = m.target
  exp : m'.exp = m.exp
  dead : m.healthPoint = 0 → m'.healthPoint = 0

theorem CMonster.Spared.refl (m : CMonster F) : m.Spared m := ⟨rfl,rfl,rfl,rfl,id⟩

theorem CMonster.Spared.trans {m m' m'' : CMonster F} (h : m.Spared m') (h' : m'.Spared m'') :
    m.Spared m'' :=
  ⟨h'.state.trans h.state,h'.monState.trans h.monState,h'.target.trans h.target,
    h'.exp.trans h.exp,fun h0 => h'.dead (h.dead h0)⟩

namespace World

/-- One effect of a packet of player `id` with the skill `k`. -/
inductive Effect (k : Option OffEvent) (id : Slot) : World F → World F → Prop
  | send (l : List Slot) (p : Packet F) (w : World F) : Effect k id w (w.sendTo l p)
  | record (a : Act F) (w : World F) : Effect k id w (w.record a)
  | player (i : Slot) (f : CPlayer F → CPlayer F) (hv : ∀ p, (f p).vitals = p.vitals)
      (hf : ∀ p kind, (i = id → k ≠ some kind) → (f p).flag kind = p.flag kind) (w : World F) :
      Effect k id w (w.modifyPlayer i f)
  | timer (kind : OffEvent) (t : ℕ) (hk : k = some kind) (w : World F) :
      Effect k id w (w.addTimer (.off kind id) t 0)
  | monster (i : MonsterId) (m m' : CMonster F) (w : World F) (hm : w.monster i = some m)
      (h : m.Spared m') : Effect k id w (w.setMonster i m')
  | boss (b : Boss F) (w : World F) : Effect k id w (w.setBoss b)
  | levelUp (hk : k.any OffEvent.sweeps) (w : World F) : Effect k id w (w.levelUp id)
  | quary (ev : DBEventId) (name pass : Credential) (w : World F) :
      Effect k id w (w.addQuary id ev name pass)

/-- The effects of a packet. -/
def Effects (k : Option OffEvent) (id : Slot) : World F → World F → Prop :=
  Relation.ReflTransGen (Effect k id)

variable {w w' w'' : World F} {k : Option OffEvent} {id i : Slot}

/-- What every effect keeps, the packet keeps. -/
theorem Effects.lift {R : World F → World F → Prop} (hrefl : ∀ w, R w w)
    (htrans : ∀ {w w' w''}, R w w' → R w' w'' → R w w'')
    (hstep : ∀ w w', Effect k id w w' → R w w') (h : Effects k id w w') : R w w' := by
  induction h with
  | refl => exact hrefl w
  | tail _ hs ih => exact htrans ih (hstep _ _ hs)

theorem Effects.refl (w : World F) : Effects k id w w := Relation.ReflTransGen.refl

theorem Effects.trans (h : Effects k id w w') (h' : Effects k id w' w'') : Effects k id w w'' :=
  Relation.ReflTransGen.trans h h'

theorem Effects.sendTo {l : List Slot} {p : Packet F} (h : Effects k id w w') :
    Effects k id w (w'.sendTo l p) := h.tail (.send l p w')

theorem Effects.record {a : Act F} (h : Effects k id w w') : Effects k id w (w'.record a) :=
  h.tail (.record a w')

/-- Nothing that a skill or damage sets. -/
theorem Effects.modifyPlayer {f : CPlayer F → CPlayer F}
    (hf : ∀ p, (f p).vitals = p.vitals ∧ (f p).flag = p.flag) (h : Effects k id w w') :
    Effects k id w (w'.modifyPlayer i f) :=
  h.tail (.player i f (fun p => (hf p).1) (fun p kind _ => congrFun (hf p).2 kind) w')

theorem Effects.addView {j : Slot} (h : Effects k id w w') :
    Effects k id w (w'.modifyPlayer i (CPlayer.addView j)) :=
  h.modifyPlayer (f := CPlayer.addView j) fun _ => ⟨rfl,rfl⟩

/-- The flag of the skill of the packet. -/
theorem Effects.setFlag {kind : OffEvent} {f : CPlayer F → CPlayer F}
    (hv : ∀ p, (f p).vitals = p.vitals)
    (hf : ∀ p kind', kind ≠ kind' → (f p).flag kind' = p.flag kind')
    (h : Effects (some kind) id w w') : Effects (some kind) id w (w'.modifyPlayer id f) :=
  h.tail (.player id f hv (fun p kind' hk => hf p kind' fun he => hk rfl (congrArg some he)) w')

theorem Effects.addTimer {kind : OffEvent} {t : ℕ} (h : Effects (some kind) id w w') :
    Effects (some kind) id w (w'.addTimer (.off kind id) t 0) := h.tail (.timer kind t rfl w')

theorem Effects.setMonster {j : MonsterId} {m m' : CMonster F} (hm : w'.monster j = some m)
    (hs : m.Spared m') (h : Effects k id w w') : Effects k id w (w'.setMonster j m') :=
  h.tail (.monster j m m' w' hm hs)

theorem Effects.setBoss {b : Boss F} (h : Effects k id w w') : Effects k id w (w'.setBoss b) :=
  h.tail (.boss b w')

theorem Effects.levelUp (hk : k.any OffEvent.sweeps) (h : Effects k id w w') :
    Effects k id w (w'.levelUp id) := h.tail (.levelUp hk w')

theorem Effects.addQuary {ev : DBEventId} {name pass : Credential} (h : Effects k id w w') :
    Effects k id w (w'.addQuary id ev name pass) := h.tail (.quary ev name pass w')

theorem Effects.killMonster {j : MonsterId} {m : CMonster F} (hk : k.any OffEvent.sweeps)
    (h : Effects k id w w') : Effects k id w (w'.killMonster id j m) := by
  have hgain : Effects k id w ((w'.record (.kill id j)).modifyPlayer id (CPlayer.gainExp m.exp)) :=
    h.record.modifyPlayer fun _ => ⟨rfl,rfl⟩
  simp only [World.killMonster]
  split
  · exact hgain
  · split_ifs
    · exact hgain.sendTo.sendTo.levelUp hk
    · exact hgain.sendTo.sendTo

theorem effects_ready (w : World F) : Effects k id w (w.ready id) :=
  (Effects.refl w).modifyPlayer fun _ => ⟨rfl,rfl⟩

theorem effects_guard (q : CPlayer F) (now : ℕ) (w : World F) :
    Effects (some .evGuardOff) id w (w.guard id q now) := by
  simp only [World.guard]
  split_ifs
  · exact .refl w
  · apply Effects.addTimer
    apply Effects.sendTo
    refine Effects.setFlag (fun _ => rfl) (fun p kind hk => ?_) (.refl w)
    cases kind <;> first | rfl | exact absurd rfl hk

theorem effects_setMoveState (q : CPlayer F) (state : ℤ) (w : World F) :
    Effects k id w (w.setMoveState id q state) := by
  simp only [World.setMoveState]
  split_ifs
  · exact .refl w
  · apply Effects.sendTo
    exact (Effects.refl w).modifyPlayer fun _ => ⟨rfl,rfl⟩

theorem effects_hide (q : CPlayer F) (w : World F) : Effects k id w (w.hide id q) := by
  simp only [World.hide]
  split_ifs
  · exact .refl w
  · apply Effects.sendTo
    exact (Effects.refl w).modifyPlayer fun _ => ⟨rfl,rfl⟩

theorem effects_hideOff (q : CPlayer F) (w : World F) : Effects k id w (w.hideOff id q) := by
  simp only [World.hideOff]
  split_ifs
  · exact .refl w
  · apply Effects.sendTo
    exact (Effects.refl w).modifyPlayer fun _ => ⟨rfl,rfl⟩

theorem effects_putOn (wpn : Weapon) (w : World F) : Effects k id w (w.putOn id wpn) := by
  apply Effects.sendTo
  exact (Effects.refl w).modifyPlayer fun _ => ⟨rfl,rfl⟩

theorem effects_takeOff (q : CPlayer F) (wpn : Weapon) (w : World F) :
    Effects k id w (w.takeOff id q wpn) := by
  simp only [World.takeOff]
  split_ifs
  · exact (Effects.refl w).sendTo.modifyPlayer fun _ => ⟨rfl,rfl⟩
  · exact .refl w

theorem effects_weaponOn (q : CPlayer F) (wpn : Weapon) (w : World F) :
    Effects k id w (w.weaponOn id q wpn) := by
  simp only [World.weaponOn]
  split_ifs
  · exact effects_takeOff q wpn w
  · exact effects_putOn wpn w

theorem effects_weaponOff (q : CPlayer F) (wpn : Weapon) (w : World F) :
    Effects k id w (w.weaponOff id q wpn) := by
  simp only [World.weaponOff]
  split_ifs
  · exact effects_putOn wpn w
  · exact effects_takeOff q wpn w

theorem effects_onWeaponOn (q : CPlayer F) (w : World F) : Effects k id w (w.onWeaponOn id q) := by
  simp only [World.onWeaponOn]
  split_ifs
  · exact .refl w
  · apply Effects.sendTo
    exact (Effects.refl w).modifyPlayer fun _ => ⟨rfl,rfl⟩

theorem effects_onWeaponOff (q : CPlayer F) (w : World F) :
    Effects k id w (w.onWeaponOff id q) := by
  apply Effects.sendTo
  exact (Effects.refl w).modifyPlayer fun _ => ⟨rfl,rfl⟩

theorem effects_onBossBone (buf : Buffer) (w : World F) : Effects k id w (w.onBossBone buf) := by
  have hpart : ∀ (bones : ℕ → ℤ) (w : World F) part, Effects k id w (bonePart bones w part) := by
    intro bones w part
    unfold bonePart
    split
    · exact .refl w
    · dsimp only
      split_ifs
      · exact (Effects.refl w).setBoss.sendTo
      · exact (Effects.refl w).setBoss
      · exact .refl w
  simp only [World.onBossBone]
  split_ifs
  · exact KeyedFold.foldl_related .refl .trans (hpart _) boneParts w
  · exact .refl w

theorem effects_onPlayer {f : CPlayer F → World F → World F} (hf : ∀ p w, Effects k id w (f p w))
    (h : w.onPlayer id f = .ok w') : Effects k id w w' := by
  obtain ⟨q,-,rfl⟩ := onPlayer_spec h
  exact hf q w

theorem effects_meet (w : World F) (i : Slot) : Effects k id w (meet id w i) := by
  simp only [World.meet]
  split
  · split_ifs
    · exact .refl w
    · have hview : Effects k id w ((w.modifyPlayer id (CPlayer.addView i)).modifyPlayer i
          (CPlayer.addView id)) :=
        (Effects.refl w).addView.addView
      simp only [replay]
      apply Effects.sendTo
      split
      · exact hview.sendTo.sendTo.sendTo
      · exact hview.sendTo.sendTo.sendTo
      · exact hview.sendTo.sendTo
  · exact .refl w

theorem effects_enterGame (w : World F) : Effects k id w (w.enterGame id) := by
  have hmonster : ∀ (w : World F) i, Effects k id w (showMonster id w i) := by
    intro w i
    simp only [showMonster]
    split
    · split_ifs
      · exact .refl w
      · exact (Effects.refl w).sendTo
    · exact .refl w
  have hshow : Effects k id w (monsterIds.foldl (showMonster id) (slots.foldl (meet id) w)) :=
    (KeyedFold.foldl_related .refl .trans effects_meet slots w).trans
      (KeyedFold.foldl_related .refl .trans hmonster monsterIds _)
  simp only [World.enterGame]
  split_ifs
  · exact hshow.sendTo
  · exact hshow

section Handlers
variable [FloatArith F]

theorem spared_damaged {m : CMonster F} (hm : m.healthPoint ≠ 0) (damage : ℤ) :
    m.Spared (m.damaged damage) := by
  simp only [CMonster.damaged]
  split_ifs
  · exact ⟨rfl,rfl,rfl,rfl,fun h => absurd h hm⟩
  · exact ⟨rfl,rfl,rfl,rfl,fun h => absurd h hm⟩

theorem spared_setPosition (m : CMonster F) (pos : Position F) : m.Spared (m.setPosition pos) := by
  simp only [CMonster.setPosition]
  split_ifs
  · exact ⟨rfl,rfl,rfl,rfl,fun h => h⟩
  · exact ⟨rfl,rfl,rfl,rfl,fun h => h⟩

theorem spared_updateWithClient (m : CMonster F) (w : World F) :
    m.Spared (w.updateWithClient m) := by
  simp only [updateWithClient]
  split_ifs
  · split
    · exact ⟨rfl,rfl,rfl,rfl,fun h => h⟩
    · exact ⟨rfl,rfl,rfl,rfl,fun h => h⟩
  · exact ⟨rfl,rfl,rfl,rfl,fun h => h⟩

/-- A blow against a monster that was alive. -/
theorem Effects.strike {j : MonsterId} {m : CMonster F} {damage : ℤ} (hk : k.any OffEvent.sweeps)
    (hm : w'.monster j = some m) (halive : m.healthPoint ≠ 0) (h : Effects k id w w') :
    Effects k id w (w'.strike id j m damage) := by
  have hhit := (h.setMonster hm (spared_damaged halive damage)).record
    (a := .hit id j damage (m.damaged damage).healthPoint)
  simp only [World.strike]
  split_ifs
  · exact hhit.killMonster hk
  · exact hhit.sendTo

/-- A sweep whose surroundings spare the monsters. -/
theorem Effects.sweep {s : Sweep F} (hk : k.any OffEvent.sweeps)
    (hb : ∀ m t, Effects k id t.1 (s.before id m t).1 ∧
      (s.before id m t).1.monster = t.1.monster)
    (ha : ∀ w, Effects k id w (s.after id w)) (h : Effects k id w w') : Effects k id w (w'.sweep s id) := by
  have hone : ∀ t j, Effects k id t.1 (sweepOne s id t j).1 := by
    intro t j
    simp only [sweepOne]
    split
    · rename_i p m _ hm
      split_ifs with hdead
      · exact .refl _
      · exact .refl _
      · obtain ⟨hbefore,hsame⟩ := hb m t
        exact (hbefore.strike hk (hsame ▸ hm) hdead).trans (ha _)
      · exact .refl _
    · exact .refl _
  rw [World.sweep, sweepOver_eq_foldl]
  exact h.trans (KeyedFold.foldl_related (R := fun s t : World F × Bool => Effects k id s.1 t.1)
    (fun s => .refl s.1) .trans hone monsterIds (w',false))

theorem effects_faceFirst (m : CMonster F) (t : World F × Bool) :
    Effects k id t.1 (faceFirst id m t).1 ∧ (faceFirst id m t).1.monster = t.1.monster := by
  have hturn : Effects k id t.1 (t.1.modifyPlayer id fun p =>
      { p with rotation := { p.rotation with y := getDegree p.pos m.pos } }) :=
    (Effects.refl t.1).modifyPlayer fun _ => ⟨rfl,rfl⟩
  unfold faceFirst
  split_ifs
  · exact ⟨.refl _,rfl⟩
  · dsimp only
    split
    · exact ⟨hturn,rfl⟩
    · exact ⟨hturn.sendTo,rfl⟩

theorem Effects.attckBoss (h : Effects k id w w') : Effects k id w (w'.attckBoss id) := by
  simp only [World.attckBoss, World.bossTakeDamage]
  split
  · split_ifs
    · split
      · exact h.record
      · split_ifs
        · exact h.record.setBoss.sendTo
        · exact h.record.setBoss
    · exact h
  · exact h

theorem effects_attck (q : CPlayer F) (now : ℕ) (w : World F) :
    Effects (some .evAtkOff) id w (w.attck id q now) := by
  simp only [World.attck]
  split_ifs
  · exact .refl w
  · exact .refl w
  · apply Effects.addTimer
    apply Effects.attckBoss
    apply Effects.sweep rfl effects_faceFirst fun w => .refl w
    apply Effects.sendTo
    refine Effects.setFlag (fun _ => rfl) (fun p kind hk => ?_) (.refl w)
    cases kind <;> first | rfl | exact absurd rfl hk

theorem effects_berserk (q : CPlayer F) (now : ℕ) (w : World F) :
    Effects (some .evBerserk) id w (w.berserk id q now) := by
  simp only [World.berserk]
  split_ifs
  · exact .refl w
  · exact .refl w
  · apply Effects.addTimer
    refine Effects.setFlag (fun _ => rfl) (fun p kind hk => ?_) (Effects.sweep rfl
      (fun _ t => ⟨.refl t.1,rfl⟩) (fun w => .refl w) (Effects.refl w).sendTo)
    cases kind <;> first | rfl | exact absurd rfl hk

theorem effects_assassinate (q : CPlayer F) (now : ℕ) (w : World F) :
    Effects (some .evAssOff) id w (w.assassinate id q now) := by
  simp only [World.assassinate]
  split_ifs
  · exact .refl w
  · apply Effects.addTimer
    refine Effects.sweep rfl (fun _ t => ⟨.refl t.1,rfl⟩) (fun w => ?_) (Effects.refl w).sendTo
    exact (Effects.refl w).modifyPlayer fun _ => ⟨rfl,rfl⟩

theorem effects_evade (q : CPlayer F) (now : ℕ) (w : World F) :
    Effects (some .evEvadeOff) id w (w.evade id q now) := by
  have hset : Effects (some .evEvadeOff) id w
      (w.modifyPlayer id fun p => { p with isEvade := true }) := by
    refine Effects.setFlag (fun _ => rfl) (fun p kind hk => ?_) (.refl w)
    cases kind <;> first | rfl | exact absurd rfl hk
  unfold World.evade
  split_ifs
  · exact .refl w
  · apply Effects.addTimer
    split_ifs
    · exact hset.sendTo
    · exact hset.sendTo

theorem setPosition_vitals (p : CPlayer F) (pos : Position F) :
    (p.setPosition pos).vitals = p.vitals ∧ (p.setPosition pos).flag = p.flag := by
  simp only [CPlayer.setPosition]
  split_ifs
  · exact ⟨rfl,rfl⟩
  · exact ⟨rfl,rfl⟩

theorem setVelocity_vitals (p : CPlayer F) (v : Position F) :
    (p.setVelocity v).vitals = p.vitals ∧ (p.setVelocity v).flag = p.flag := by
  simp only [CPlayer.setVelocity]
  split_ifs
  · exact ⟨rfl,rfl⟩
  · exact ⟨rfl,rfl⟩

theorem effects_onMove (buf : Buffer) (w : World F) : Effects k id w (w.onMove id buf) := by
  simp only [World.onMove, ifPlayer]
  split
  · exact .refl w
  · have hset : Effects k id w ((w.modifyPlayer id fun p =>
        { p.setVelocity (.ofBuffer buf 26) with rotation := .ofBuffer buf 14 }).modifyPlayer id
          fun p => p.setPosition (.ofBuffer buf 2)) :=
      Effects.modifyPlayer (fun p => setPosition_vitals p _)
        (Effects.modifyPlayer (fun p => setVelocity_vitals p _) (.refl w))
    simp only [World.moveTo]
    split
    · exact hset
    · exact hset.sendTo

theorem effects_onBossMove (buf : Buffer) (w : World F) :
    Effects k id w (w.onBossMove id buf) := by
  simp only [World.onBossMove]
  split
  · exact .refl w
  · exact (Effects.refl w).setBoss.sendTo

theorem effects_onNpcMove (buf : Buffer) (w : World F) : Effects k id w (w.onNpcMove buf) := by
  simp only [World.onNpcMove]
  split_ifs
  · split
    · exact .refl w
    · split
      · exact .refl w
      · rename_i m hm
        exact (Effects.refl w).setMonster hm
          ((spared_setPosition m _).trans (spared_updateWithClient _ w))
  · exact .refl w

theorem effects_onType {t : CsType} {buf : Buffer} {now : Now} (h : w.onType t id buf now = .ok w') :
    Effects t.skill id w w' := by
  cases t with
  | csLogin =>
    obtain ⟨v,hlogin,h⟩ := bind_eq_ok.mp h
    obtain ⟨-,n,q,rfl⟩ := login_spec hlogin
    have hset : Effects none id w ((w.addQuary id .evLogin n q).modifyPlayer id
        (CPlayer.setObjType (buf.byteAt 22).toInt)) :=
      (Effects.refl w).addQuary.modifyPlayer (f := CPlayer.setObjType _) fun _ => ⟨rfl,rfl⟩
    exact hset.trans
      (effects_onPlayer (fun _ => effects_enterGame) h)
  | csSignup => cases h; exact (Effects.refl w).sendTo
  | csFireball =>
    exact ((Effects.refl w).modifyPlayer fun p => setPosition_vitals p _).trans
      (effects_onPlayer (fun _ w => (Effects.refl w).sendTo) h)
  | movePacket => cases h; exact effects_onMove buf w
  | csChat => cases h; exact .refl w
  | csSyncFail => cases h; exact .refl w
  | csJump => cases h; exact (Effects.refl w).sendTo
  | csBossMove => cases h; exact effects_onBossMove buf w
  | csNpcMove => cases h; exact effects_onNpcMove buf w
  | csBossAttack =>
    cases h
    simp only [onBossAttack]
    split_ifs
    · exact (Effects.refl w).sendTo
    · exact .refl w
  | csBossBone => cases h; exact effects_onBossBone buf w
  | csUpdateMoveState =>
    cases h
    simp only [ifPlayer]
    split
    · exact .refl w
    · exact effects_setMoveState _ _ w
  | csAttack => exact effects_onPlayer (fun p w => effects_attck p _ w) h
  | csGuard => exact effects_onPlayer (fun p w => effects_guard p _ w) h
  | csEvade => exact effects_onPlayer (fun p w => effects_evade p _ w) h
  | csWeaponOn => exact effects_onPlayer (fun p w => effects_onWeaponOn p w) h
  | csWeaponOff => exact effects_onPlayer (fun p w => effects_onWeaponOff p w) h
  | csBerserk => exact effects_onPlayer (fun p w => effects_berserk p _ w) h
  | csReady => exact effects_onPlayer (fun _ w => effects_ready w) h
  | csHide => exact effects_onPlayer (fun p w => effects_hide p w) h
  | csHideOff => exact effects_onPlayer (fun p w => effects_hideOff p w) h
  | csAssassin => exact effects_onPlayer (fun p w => effects_assassinate p _ w) h
  | csMoveStop => exact effects_onPlayer (fun _ w => (Effects.refl w).sendTo) h
  | csSwordOn => exact effects_onPlayer (fun p w => effects_weaponOn p _ w) h
  | csSwordOff => exact effects_onPlayer (fun p w => effects_weaponOff p _ w) h
  | csHammerOn => exact effects_onPlayer (fun p w => effects_weaponOn p _ w) h
  | csHammerOff => exact effects_onPlayer (fun p w => effects_weaponOff p _ w) h

/-- A packet whose handling returns has only the effects of its skill. -/
theorem effects_processPacket {buf : Buffer} {now : Now}
    (h : w.processPacket id buf now = .ok w') :
    ∃ t, CsType.ofByte (buf.byteAt 1) = some t ∧ Effects t.skill id w w' := by
  obtain ⟨t,ht,hok⟩ := processPacket_spec h
  exact ⟨t,ht,effects_onType hok⟩

end Handlers

theorem levelUp_player (id : Slot) (w : World F) :
    (w.levelUp id).player = (w.modifyPlayer id CPlayer.gainLevel).player := by
  simp only [levelUp]
  split
  · rfl
  · rfl

theorem attackStart_player (i : MonsterId) (m : CMonster F) (draw : ℕ) (w : World F) :
    (w.attackStart i m draw).player = w.player := by
  apply List.foldlRecOn (motive := fun v : World F => v.player = w.player)
  · rfl
  · exact fun v hv j _ => hv

end World

end LastHero
