import LastHero.Threads.Isolation

/-! What the handling of a packet does to the monsters, to the boss and to the queue of DB_Thread.
It is a sequence of a few kinds of deeds, finer than the effects, each of which says what becomes of
the hit points and who is told of it. -/
namespace LastHero
variable {F : Type}

/-- The packet says nothing of the life of a monster or the boss, of an attack of the boss or of a
login. -/
def Packet.Idle : Packet F → Prop
  | .scEnterMonster .. | .scBossAttack .. | .scLoginOk _ | .scLoginFail => False
  | .scDead oid => oid < npcIdStart
  | _ => True

/-- Who acts. -/
inductive Turn
  | clients
  | monster (i : MonsterId)
  | boss
  | timer

/-- All experience of a player, levels included. -/
def CPlayer.score (p : CPlayer F) : ℤ := 100*p.level + p.exp

/-- What blows take from a monster, and what they earn. -/
def CMonster.worth (m : CMonster F) : ℤ × ℤ := (m.healthPoint,m.exp)

/-- Damage, or the end of a skill. -/
structure CPlayer.Suffers (p q : CPlayer F) : Prop where
  pos : q.pos = p.pos
  score : q.score = p.score
  alive : q.isAlive = true → p.isAlive = true ∧ q.healthPoint ≤ p.healthPoint
  guard : q.isGuard = true → p.isGuard = true
  evade : q.isEvade = true → p.isEvade = true

theorem CPlayer.Suffers.refl (p : CPlayer F) : p.Suffers p :=
  ⟨rfl,rfl,fun halive => ⟨halive,le_rfl⟩,id,id⟩

theorem CPlayer.Suffers.trans {p q r : CPlayer F} (h : p.Suffers q) (h' : q.Suffers r) :
    p.Suffers r := by
  refine ⟨h'.pos.trans h.pos,h'.score.trans h.score,fun halive => ?_,h.guard ∘ h'.guard,
    h.evade ∘ h'.evade⟩
  obtain ⟨hq,hle⟩ := h'.alive halive
  obtain ⟨hp,hle'⟩ := h.alive hq
  exact ⟨hp,hle.trans hle'⟩

/-- The boss goes on as it would have. -/
structure Boss.Rests (b b' : Boss F) : Prop where
  state : b'.state = b.state
  target : b'.target = b.target

namespace World
section
variable [FloatArith F]

/-- Only timers, connections and pending operations differ. -/
structure SameGame (w w' : World F) : Prop where
  player : w'.player = w.player
  monster : w'.monster = w.monster
  boss : w'.boss = w.boss
  quaryQueue : w'.quaryQueue = w.quaryQueue
  handling : w'.handling = w.handling
  trace : w'.trace = w.trace
  era : w'.era = w.era

/-- The monster after a blow, with the record of it. -/
def beaten (id : Slot) (i : MonsterId) (m : CMonster F) (damage : ℤ) (w : World F) : World F :=
  (w.setMonster i (m.damaged damage)).record (.hit id i damage (m.damaged damage).healthPoint)

/-- One thing that is done. Blows are for clients; a monster changes itself and hurts players, and
the boss alone attacks, goes on to another state or has its event queued. -/
inductive Deed (turn : Turn) : World F → World F → Prop
  | send (l : List Slot) (p : Packet F) (hp : p.Idle) (w : World F) : Deed turn w (w.sendTo l p)
  | player (i : Slot) (f : CPlayer F → CPlayer F)
      (hf : turn = .clients ∨ ∀ p : CPlayer F, p.Suffers (f p))
      (hscore : ∀ p : CPlayer F, (f p).score = p.score) (w : World F) :
      Deed turn w (w.modifyPlayer i f)
  | update (id : Slot) (name pass : Credential) (w : World F) :
      Deed turn w (w.addQuary id .evUpdate name pass)
  | timers (w w' : World F) (h : SameGame w w') (ht : turn ≠ .boss → w'.tokens = w.tokens) :
      Deed turn w w'
  | monster (i : MonsterId) (m m' : CMonster F) (ht : turn = .clients ∨ turn = .monster i)
      (w : World F) (hm : w.monster i = some m) (hworth : m'.worth = m.worth) :
      Deed turn w (w.setMonster i m')
  | appear (id : Slot) (i : MonsterId) (m : CMonster F) (w : World F)
      (hid : (w.player id).isSome) (hm : w.monster i = some m) (halive : 0 < m.healthPoint) :
      Deed turn w (w.sendPacket id (m.makeEnterPacket i))
  | hurt (id : Slot) (i : MonsterId) (m : CMonster F) (damage : ℤ) (ht : turn = .clients)
      (w : World F) (hm : w.monster i = some m) (halive : m.healthPoint ≠ 0)
      (hleft : 0 < (m.damaged damage).healthPoint) :
      Deed turn w
        ((w.beaten id i m damage).broadcast (.scDamaged i.oid (m.damaged damage).healthPoint))
  | slay (id : Slot) (i : MonsterId) (m : CMonster F) (damage exp : ℤ) (ht : turn = .clients)
      (w : World F) (hid : (w.player id).isSome) (hm : w.monster i = some m)
      (halive : m.healthPoint ≠ 0) (hleft : (m.damaged damage).healthPoint = 0) :
      Deed turn w (((((w.beaten id i m damage).record (.kill id i)).modifyPlayer id
        (CPlayer.gainExp m.exp)).sendPacket id (.scGetExp exp)).broadcast (.scDead i.oid))
  | boss (b b' : Boss F) (w : World F) (hb : w.boss = some b) (hhp : b'.mainHP = b.mainHP)
      (hrests : turn ≠ .boss → b.Rests b') : Deed turn w (w.setBoss b')
  | wound (id : Slot) (b : Boss F) (w : World F) (hb : w.boss = some b) (halive : 0 < b.mainHP) :
      Deed turn w ((w.record (.hitBoss id 20)).bossTakeDamage 20)
  | announce (b : Boss F) (atk : BState) (p : CPlayer F) (ht : turn = .boss) (w : World F)
      (hb : w.boss = some b) (halive : 0 < b.mainHP) : Deed turn w (w.announce atk p)

/-- The deeds of a step. -/
def Deeds (turn : Turn) : World F → World F → Prop := Relation.ReflTransGen (Deed turn)

variable {turn : Turn} {w w' w'' : World F} {id i : Slot} {j : MonsterId} {m : CMonster F}
  {l : List Slot} {p : Packet F}

/-- What every deed keeps, the steps keep. -/
theorem Deeds.lift {R : World F → World F → Prop} (hrefl : ∀ w, R w w)
    (htrans : ∀ {w w' w''}, R w w' → R w' w'' → R w w'') (hstep : ∀ w w', Deed turn w w' → R w w')
    (h : Deeds turn w w') : R w w' := by
  induction h with
  | refl => exact hrefl w
  | tail _ hs ih => exact htrans ih (hstep _ _ hs)

theorem Deeds.refl (w : World F) : Deeds turn w w := Relation.ReflTransGen.refl

theorem Deeds.trans (h : Deeds turn w w') (h' : Deeds turn w' w'') : Deeds turn w w'' :=
  Relation.ReflTransGen.trans h h'

theorem Deeds.foldl {κ : Type} {f : World F → κ → World F} (hf : ∀ w k, Deeds turn w (f w k))
    (l : List κ) (w : World F) : Deeds turn w (l.foldl f w) :=
  KeyedFold.foldl_related .refl .trans hf l w

theorem Deeds.sendTo (hp : p.Idle) (h : Deeds turn w w') : Deeds turn w (w'.sendTo l p) :=
  h.tail (.send l p hp w')

theorem Deeds.modifyPlayer {f : CPlayer F → CPlayer F}
    (hscore : ∀ p : CPlayer F, (f p).score = p.score) (h : Deeds .clients w w') :
    Deeds .clients w (w'.modifyPlayer i f) := h.tail (.player i f (Or.inl rfl) hscore w')

/-- What monsters and timers do to the players. -/
theorem Deeds.suffer {f : CPlayer F → CPlayer F} (hf : ∀ p : CPlayer F, p.Suffers (f p))
    (h : Deeds turn w w') : Deeds turn w (w'.modifyPlayer i f) :=
  h.tail (.player i f (Or.inr hf) (fun p => (hf p).score) w')

omit [FloatArith F] in
theorem tokens_addTimer {key : EventKey} (hk : key ≠ .evBoss) (t : ℕ) (target : ℤ) (w : World F) :
    (w.addTimer key t target).tokens = w.tokens := by
  simp only [tokens, World.addTimer]
  rw [List.countP_append]
  simp [hk]

/-- The events of skills and monsters. -/
theorem Deeds.addTimer {key : EventKey} {t : ℕ} {target : ℤ} (hk : key ≠ .evBoss)
    (h : Deeds turn w w') : Deeds turn w (w'.addTimer key t target) :=
  h.tail (.timers _ _ ⟨rfl,rfl,rfl,rfl,rfl,rfl,rfl⟩ fun _ => tokens_addTimer hk t target w')

/-- What the clients do to the boss. -/
theorem Deeds.setBoss {b b' : Boss F} (hb : w'.boss = some b) (hhp : b'.mainHP = b.mainHP)
    (hrests : b.Rests b') (h : Deeds turn w w') : Deeds turn w (w'.setBoss b') :=
  h.tail (.boss b b' w' hb hhp fun _ => hrests)

theorem Deeds.setMonster {m' : CMonster F} (hm : w'.monster j = some m)
    (hworth : m'.worth = m.worth) (h : Deeds .clients w w') :
    Deeds .clients w (w'.setMonster j m') :=
  h.tail (.monster j m m' (Or.inl rfl) w' hm hworth)

theorem deeds_onPlayer {f : CPlayer F → World F → World F} (hf : ∀ q w, Deeds .clients w (f q w))
    (h : w.onPlayer id f = .ok w') : Deeds .clients w w' := by
  obtain ⟨q,-,rfl⟩ := onPlayer_spec h
  exact hf q w

theorem Deeds.levelUp (h : Deeds .clients w w') : Deeds .clients w (w'.levelUp id) := by
  have hscore : ∀ p : CPlayer F, p.gainLevel.score = p.score := fun p => by
    simp only [CPlayer.score, CPlayer.gainLevel]
    omega
  have hgain : Deeds .clients w (w'.modifyPlayer id CPlayer.gainLevel) := h.modifyPlayer hscore
  simp only [World.levelUp]
  split
  · exact hgain
  · exact (hgain.sendTo (p := .scLevelUp ..) trivial).tail (.update _ _ _ _)

/-- A blow at a living monster by a player that is there. -/
theorem deeds_strike {damage : ℤ} (hm : w.monster j = some m)
    (halive : m.healthPoint ≠ 0) (hid : (w.player id).isSome) :
    Deeds .clients w (w.strike id j m damage) := by
  have hexp : (m.damaged damage).exp = m.exp := (spared_damaged halive damage).exp
  simp only [World.strike]
  split_ifs with hleft
  · obtain ⟨q,hq⟩ := Option.isSome_iff_exists.mp hid
    have hgain : (((w.beaten id j m damage).record (.kill id j)).modifyPlayer id
        (CPlayer.gainExp m.exp)).player id = some (q.gainExp m.exp) :=
      modifyPlayer_self (w := (w.beaten id j m damage).record (.kill id j)) _ hq
    have hslay : Deed .clients w _ := .slay id j m damage (q.gainExp m.exp).exp rfl w hid hm halive
      (le_antisymm hleft (m.damaged damage).healthPoint_nonneg)
    simp only [beaten] at hgain hslay
    simp only [World.killMonster, hexp]
    rw [hgain]
    dsimp only
    split_ifs
    · exact Deeds.levelUp (Relation.ReflTransGen.single hslay)
    · exact Relation.ReflTransGen.single hslay
  · exact Relation.ReflTransGen.single (.hurt id j m damage rfl w hm halive (not_le.mp hleft))

theorem deeds_sweepOne {k : Sweep F}
    (hb : ∀ m s, Deeds .clients s.1 (k.before id m s).1 ∧
      (k.before id m s).1.monster = s.1.monster ∧
      ((k.before id m s).1.player id).isSome = (s.1.player id).isSome)
    (ha : ∀ w, Deeds .clients w (k.after id w)) (s : World F × Bool) (j : MonsterId) :
    Deeds .clients s.1 (sweepOne k id s j).1 := by
  simp only [sweepOne]
  split
  · rename_i q m hq hm
    split_ifs with hdead
    · exact .refl _
    · exact .refl _
    · obtain ⟨hbefore,hmonster,hplayer⟩ := hb m s
      have hblow : Deeds .clients (k.before id m s).1
          ((k.before id m s).1.strike id j m (k.damage q)) :=
        deeds_strike (hmonster ▸ hm) hdead (by rw [hplayer, hq]; rfl)
      exact (hbefore.trans hblow).trans (ha _)
    · exact .refl _
  · exact .refl _

theorem Deeds.sweep {k : Sweep F}
    (hb : ∀ m s, Deeds .clients s.1 (k.before id m s).1 ∧
      (k.before id m s).1.monster = s.1.monster ∧
      ((k.before id m s).1.player id).isSome = (s.1.player id).isSome)
    (ha : ∀ w, Deeds .clients w (k.after id w)) (h : Deeds .clients w w') :
    Deeds .clients w (w'.sweep k id) := by
  rw [World.sweep, sweepOver_eq_foldl]
  exact h.trans (KeyedFold.foldl_related (R := fun s t : World F × Bool => Deeds .clients s.1 t.1)
    (fun s => .refl s.1) .trans (deeds_sweepOne hb ha) monsterIds (w',false))

theorem deeds_faceFirst (m : CMonster F) (s : World F × Bool) :
    Deeds .clients s.1 (faceFirst id m s).1 ∧ (faceFirst id m s).1.monster = s.1.monster ∧
      ((faceFirst id m s).1.player id).isSome = (s.1.player id).isSome := by
  have hturn : Deeds .clients s.1 (s.1.modifyPlayer id fun p =>
      { p with rotation := { p.rotation with y := getDegree p.pos m.pos } }) :=
    (Deeds.refl s.1).modifyPlayer fun _ => by rfl
  unfold faceFirst
  split_ifs
  · exact ⟨.refl _,rfl,rfl⟩
  · dsimp only
    split
    · exact ⟨hturn,rfl,isSome_modifyPlayer ..⟩
    · exact ⟨hturn.sendTo (p := .scSetRotation ..) trivial,rfl,isSome_modifyPlayer ..⟩

theorem Deeds.attckBoss (h : Deeds .clients w w') : Deeds .clients w (w'.attckBoss id) := by
  simp only [World.attckBoss]
  split
  · rename_i q b _ hb
    split_ifs with hreach
    · exact h.tail (.wound id b w' hb hreach.1)
    · exact h
  · exact h

theorem deeds_attck (q : CPlayer F) (now : ℕ) (w : World F) :
    Deeds .clients w (w.attck id q now) := by
  simp only [World.attck]
  split_ifs
  · exact .refl w
  · exact .refl w
  · apply Deeds.addTimer (by simp)
    apply Deeds.attckBoss
    apply Deeds.sweep deeds_faceFirst fun w => .refl w
    exact ((Deeds.refl w).modifyPlayer fun _ => by rfl).sendTo (p := .scAttack ..) trivial

theorem deeds_berserk (q : CPlayer F) (now : ℕ) (w : World F) :
    Deeds .clients w (w.berserk id q now) := by
  simp only [World.berserk]
  split_ifs
  · exact .refl w
  · exact .refl w
  · apply Deeds.addTimer (by simp)
    apply Deeds.modifyPlayer fun _ => by rfl
    apply Deeds.sweep (fun _ s => ⟨.refl s.1,rfl,rfl⟩) fun w => .refl w
    exact (Deeds.refl w).sendTo trivial

theorem deeds_assassinate (q : CPlayer F) (now : ℕ) (w : World F) :
    Deeds .clients w (w.assassinate id q now) := by
  simp only [World.assassinate]
  split_ifs
  · exact .refl w
  · apply Deeds.addTimer (by simp)
    apply Deeds.sweep (fun _ s => ⟨.refl s.1,rfl,rfl⟩) fun w =>
      (Deeds.refl w).modifyPlayer fun _ => by rfl
    exact (Deeds.refl w).sendTo trivial

theorem deeds_guard (q : CPlayer F) (now : ℕ) (w : World F) :
    Deeds .clients w (w.guard id q now) := by
  simp only [World.guard]
  split_ifs
  · exact .refl w
  · have hset : Deeds .clients w (w.modifyPlayer id fun p => { p with isGuard := true }) :=
      (Deeds.refl w).modifyPlayer fun _ => by rfl
    exact (hset.sendTo (p := .scGuard id) trivial).addTimer (by simp)

theorem deeds_evade (q : CPlayer F) (now : ℕ) (w : World F) :
    Deeds .clients w (w.evade id q now) := by
  have hset : Deeds .clients w (w.modifyPlayer id fun p => { p with isEvade := true }) :=
    (Deeds.refl w).modifyPlayer fun _ => by rfl
  unfold World.evade
  split_ifs
  · exact .refl w
  · apply Deeds.addTimer (by simp)
    split_ifs
    · exact hset.sendTo trivial
    · exact hset.sendTo trivial

theorem deeds_setMoveState (q : CPlayer F) (state : ℤ) (w : World F) :
    Deeds .clients w (w.setMoveState id q state) := by
  simp only [World.setMoveState]
  split_ifs
  · exact .refl w
  · exact ((Deeds.refl w).modifyPlayer fun _ => by rfl).sendTo trivial

theorem deeds_hide (q : CPlayer F) (w : World F) : Deeds .clients w (w.hide id q) := by
  simp only [World.hide]
  split_ifs
  · exact .refl w
  · exact ((Deeds.refl w).modifyPlayer fun _ => by rfl).sendTo trivial

theorem deeds_hideOff (q : CPlayer F) (w : World F) : Deeds .clients w (w.hideOff id q) := by
  simp only [World.hideOff]
  split_ifs
  · exact .refl w
  · exact ((Deeds.refl w).modifyPlayer fun _ => by rfl).sendTo trivial

omit [FloatArith F] in
theorem Weapon.idle_onPacket (wpn : Weapon) : (wpn.onPacket (F := F) id).Idle := by
  cases wpn <;> trivial

theorem deeds_putOn (wpn : Weapon) (w : World F) : Deeds .clients w (w.putOn id wpn) :=
  ((Deeds.refl w).modifyPlayer fun _ => by rfl).sendTo (Weapon.idle_onPacket wpn)

theorem deeds_takeOff (q : CPlayer F) (wpn : Weapon) (w : World F) :
    Deeds .clients w (w.takeOff id q wpn) := by
  simp only [World.takeOff]
  split_ifs
  · exact ((Deeds.refl w).sendTo (p := .scSwordOff id) trivial).modifyPlayer fun _ => by rfl
  · exact .refl w

theorem deeds_weaponOn (q : CPlayer F) (wpn : Weapon) (w : World F) :
    Deeds .clients w (w.weaponOn id q wpn) := by
  simp only [World.weaponOn]
  split_ifs
  · exact deeds_takeOff q wpn w
  · exact deeds_putOn wpn w

theorem deeds_weaponOff (q : CPlayer F) (wpn : Weapon) (w : World F) :
    Deeds .clients w (w.weaponOff id q wpn) := by
  simp only [World.weaponOff]
  split_ifs
  · exact deeds_putOn wpn w
  · exact deeds_takeOff q wpn w

theorem deeds_onWeaponOn (q : CPlayer F) (w : World F) : Deeds .clients w (w.onWeaponOn id q) := by
  simp only [World.onWeaponOn]
  split_ifs
  · exact .refl w
  · exact ((Deeds.refl w).modifyPlayer fun _ => by rfl).sendTo trivial

theorem deeds_onWeaponOff (q : CPlayer F) (w : World F) : Deeds .clients w (w.onWeaponOff id q) :=
  ((Deeds.refl w).modifyPlayer fun _ => by rfl).sendTo trivial

theorem score_setVelocity (v r : Position F) (p : CPlayer F) :
    ({ p.setVelocity v with rotation := r } : CPlayer F).score = p.score := by
  simp only [CPlayer.setVelocity]
  split_ifs
  · rfl
  · rfl

theorem score_setPosition (pos : Position F) (p : CPlayer F) :
    (p.setPosition pos).score = p.score := by
  simp only [CPlayer.setPosition]
  split_ifs
  · rfl
  · rfl

theorem deeds_onMove (buf : Buffer) (w : World F) : Deeds .clients w (w.onMove id buf) := by
  simp only [World.onMove, ifPlayer]
  split
  · exact .refl w
  · have hset : Deeds .clients w ((w.modifyPlayer id fun p =>
        { p.setVelocity (.ofBuffer buf 26) with rotation := .ofBuffer buf 14 }).modifyPlayer id
          fun p => p.setPosition (.ofBuffer buf 2)) := ((Deeds.refl w).modifyPlayer
            (score_setVelocity _ _)).modifyPlayer (score_setPosition _)
    simp only [World.moveTo]
    split
    · exact hset
    · exact hset.sendTo trivial

theorem deeds_onBossMove (buf : Buffer) (w : World F) : Deeds .clients w (w.onBossMove id buf) := by
  simp only [World.onBossMove]
  split
  · exact .refl w
  · rename_i b hb
    exact ((Deeds.refl w).setBoss hb (by rfl) ⟨by rfl,by rfl⟩).sendTo trivial

theorem setPosition_worth (m : CMonster F) (pos : Position F) :
    (m.setPosition pos).worth = m.worth := by
  simp only [CMonster.setPosition]
  split_ifs
  · rfl
  · rfl

theorem updateWithClient_worth (m : CMonster F) (w : World F) :
    (w.updateWithClient m).worth = m.worth := by
  simp only [updateWithClient]
  split_ifs
  · split
    · rfl
    · rfl
  · rfl

theorem deeds_onNpcMove (buf : Buffer) (w : World F) : Deeds .clients w (w.onNpcMove buf) := by
  simp only [World.onNpcMove]
  split_ifs
  · split
    · exact .refl w
    · split
      · exact .refl w
      · rename_i m hm
        exact (Deeds.refl w).setMonster hm
          ((updateWithClient_worth _ w).trans (setPosition_worth m _))
  · exact .refl w

theorem deeds_bonePart (bones : ℕ → ℤ) (w : World F) (part : Part × ℕ) :
    Deeds .clients w (bonePart bones w part) := by
  unfold bonePart
  split
  · exact .refl w
  · rename_i b hb
    dsimp only
    split_ifs
    · exact ((Deeds.refl w).setBoss hb (by rfl) ⟨by rfl,by rfl⟩).sendTo trivial
    · exact (Deeds.refl w).setBoss hb rfl ⟨rfl,rfl⟩
    · exact .refl w

theorem deeds_onBossBone (buf : Buffer) (w : World F) : Deeds .clients w (w.onBossBone buf) := by
  simp only [World.onBossBone]
  split_ifs
  · exact .foldl (deeds_bonePart _) boneParts w
  · exact .refl w

theorem deeds_onBossAttack (buf : Buffer) (w : World F) :
    Deeds .clients w (w.onBossAttack id buf) := by
  simp only [World.onBossAttack]
  split_ifs
  · exact (Deeds.refl w).sendTo trivial
  · exact .refl w

theorem deeds_meet (w : World F) (i : Slot) : Deeds .clients w (meet id w i) := by
  simp only [World.meet]
  split
  · rename_i me other _ _
    split_ifs
    · exact .refl w
    · have hview : Deeds .clients w (((((w.modifyPlayer id (CPlayer.addView i)).modifyPlayer i
          (CPlayer.addView id)).sendPacket i (me.makeEnterPacket id)).sendPacket id
            (other.makeEnterPacket i))) :=
        ((((Deeds.refl w).modifyPlayer fun _ => by rfl).modifyPlayer fun _ => by rfl).sendTo
          (p := .scEnterPlayer ..) trivial).sendTo
          (p := .scEnterPlayer ..) trivial
      simp only [replay]
      apply Deeds.sendTo (p := .scUpdateMoveState i other.moveState) trivial
      split
      · exact hview.sendTo (p := .scSwordOn i) trivial
      · exact hview.sendTo (p := .scHammerOn i) trivial
      · exact hview
  · exact .refl w

theorem deeds_showMonster (hid : (w.player id).isSome) (j : MonsterId) :
    Deeds .clients w (showMonster id w j) ∧ (showMonster id w j).player = w.player := by
  simp only [World.showMonster]
  split
  · rename_i m hm
    split_ifs with hdead
    · exact ⟨.refl w,rfl⟩
    · exact ⟨Relation.ReflTransGen.single (.appear id j m w hid hm (not_le.mp hdead)),rfl⟩
  · exact ⟨.refl w,rfl⟩

theorem deeds_foldl_showMonster (hid : (w.player id).isSome) (l : List MonsterId) :
    Deeds .clients w (l.foldl (showMonster id) w) := by
  induction l generalizing w with
  | nil => exact .refl w
  | cons j l ih =>
    obtain ⟨hfirst,hplayer⟩ := deeds_showMonster hid j
    exact hfirst.trans (ih (hplayer ▸ hid))

theorem deeds_enterGame (hid : (w.player id).isSome) : Deeds .clients w (w.enterGame id) := by
  have hmet : ((slots.foldl (meet id) w).player id).isSome :=
    ((keeps_foldl_meet id slots w).isSome id).trans hid
  have hshow : Deeds .clients w (monsterIds.foldl (showMonster id) (slots.foldl (meet id) w)) :=
    (Deeds.foldl deeds_meet slots w).trans (deeds_foldl_showMonster hmet monsterIds)
  simp only [World.enterGame]
  split_ifs
  · exact hshow.sendTo (p := .scSetHost) trivial
  · exact hshow

/-- The packets of a player that is in the game. -/
theorem deeds_onType {t : CsType} {buf : Buffer} {now : Now} (ht : t ≠ .csLogin)
    (h : w.onType t id buf now = .ok w') : Deeds .clients w w' := by
  cases t with
  | csLogin => exact absurd rfl ht
  | csSignup =>
    cases h
    exact (Deeds.refl w).sendTo (by split <;> trivial)
  | csFireball =>
    exact ((Deeds.refl w).modifyPlayer (score_setPosition _)).trans
      (deeds_onPlayer (fun q w => (Deeds.refl w).sendTo (p := q.makeUpdatePacket id) trivial) h)
  | movePacket => cases h; exact deeds_onMove buf w
  | csChat => cases h; exact .refl w
  | csSyncFail => cases h; exact .refl w
  | csJump => cases h; exact (Deeds.refl w).sendTo trivial
  | csBossMove => cases h; exact deeds_onBossMove buf w
  | csNpcMove => cases h; exact deeds_onNpcMove buf w
  | csBossAttack => cases h; exact deeds_onBossAttack buf w
  | csBossBone => cases h; exact deeds_onBossBone buf w
  | csUpdateMoveState =>
    cases h
    simp only [ifPlayer]
    split
    · exact .refl w
    · exact deeds_setMoveState _ _ w
  | csAttack => exact deeds_onPlayer (fun q w => deeds_attck q _ w) h
  | csGuard => exact deeds_onPlayer (fun q w => deeds_guard q _ w) h
  | csEvade => exact deeds_onPlayer (fun q w => deeds_evade q _ w) h
  | csWeaponOn => exact deeds_onPlayer (fun q w => deeds_onWeaponOn q w) h
  | csWeaponOff => exact deeds_onPlayer (fun q w => deeds_onWeaponOff q w) h
  | csBerserk => exact deeds_onPlayer (fun q w => deeds_berserk q _ w) h
  | csReady => exact deeds_onPlayer (fun _ w => (Deeds.refl w).modifyPlayer fun _ => by rfl) h
  | csHide => exact deeds_onPlayer (fun q w => deeds_hide q w) h
  | csHideOff => exact deeds_onPlayer (fun q w => deeds_hideOff q w) h
  | csAssassin => exact deeds_onPlayer (fun q w => deeds_assassinate q _ w) h
  | csMoveStop =>
    exact deeds_onPlayer (fun q w => (Deeds.refl w).sendTo (p := .scMoveStop id q.pos) trivial) h
  | csSwordOn => exact deeds_onPlayer (fun q w => deeds_weaponOn q _ w) h
  | csSwordOff => exact deeds_onPlayer (fun q w => deeds_weaponOff q _ w) h
  | csHammerOn => exact deeds_onPlayer (fun q w => deeds_weaponOn q _ w) h
  | csHammerOff => exact deeds_onPlayer (fun q w => deeds_weaponOff q _ w) h

end

end World

end LastHero
