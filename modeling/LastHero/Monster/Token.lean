import LastHero.Threads.System
import LastHero.Game.Effects

/-! The timer event of a monster is a token: every Execute but that of DeadState queues it again
exactly once, and nothing else touches it. -/
namespace LastHero
variable {F : Type}

/-- The monState that Enter sets. -/
def State.mState : State → MState
  | .idleState => .mIdle
  | .chaseState => .mChase
  | .attackState => .mAttack
  | .returnHomeState => .mRhome
  | .deadState => .mDead

/-- What happens to the monsters: their updates, and everything that the other threads do. -/
inductive MonsterInput (F : Type)
  | server (a : Input F)
  | update (i : MonsterId) (draw now : ℕ)
  /-- a single blow of an attack, which does not exclude the other threads -/
  | hit (attacker : Slot) (i : MonsterId) (damage : ℤ)
  /-- moves, deaths, connects and disconnects -/
  | players (f : Slot → Option (CPlayer F))

/-- The server, and history: the monsters for which DeadState::Execute has run. -/
structure Watched (F : Type) where
  world : World F
  buried : MonsterId → Bool

namespace World

/-- Pending EV_MONSTER events of a monster, in timerQueue and in the completion queue. -/
def monsterEvents (w : World F) (i : MonsterId) : ℕ :=
  w.timerQueue.countP (fun e => e.key = .evMonster i) + w.posted.count (.evMonster i)

/-- Steps that keep the events of all monsters and spare the monsters. -/
structure Spares (w w' : World F) : Prop where
  monster : ∀ i, Option.Rel CMonster.Spared (w.monster i) (w'.monster i)
  events : ∀ i, w'.monsterEvents i = w.monsterEvents i

/-- Monster `i` becomes `m`; the events and the other monsters stay. -/
structure Puts (i : MonsterId) (m : CMonster F) (w w' : World F) : Prop where
  monster : w'.monster = Function.update w.monster i (some m)
  events : ∀ j, w'.monsterEvents j = w.monsterEvents j

/-- Besides, its event is queued once. -/
structure Ticked (i : MonsterId) (m : CMonster F) (w w' : World F) : Prop where
  monster : w'.monster = Function.update w.monster i (some m)
  events : ∀ j, w'.monsterEvents j = w.monsterEvents j + if j = i then 1 else 0

variable {w w' w'' : World F} {i j : MonsterId} {m m' : CMonster F} {id : Slot}

theorem Spares.of_eq (hm : w'.monster = w.monster) (ht : w'.timerQueue = w.timerQueue)
    (hp : w'.posted = w.posted) : Spares w w' where
  monster i := by
    rw [hm]
    cases w.monster i with
    | none => exact .none
    | some m => exact .some (.refl m)
  events i := by rw [monsterEvents, monsterEvents, ht, hp]

theorem Spares.refl (w : World F) : Spares w w := .of_eq rfl rfl rfl

theorem rel_trans {α : Type} {r : α → α → Prop} (hr : ∀ {a b c}, r a b → r b c → r a c)
    {x y z : Option α} : Option.Rel r x y → Option.Rel r y z → Option.Rel r x z
  | .some h, .some h' => .some (hr h h')
  | .none, .none => .none

theorem Spares.trans (h : Spares w w') (h' : Spares w' w'') : Spares w w'' :=
  ⟨fun i => rel_trans (fun h h' => h.trans h') (h.monster i) (h'.monster i),
    fun i => (h'.events i).trans (h.events i)⟩

/-- A monster after a step that spares it was there before. -/
theorem Spares.before (h : Spares w w') (hm : w'.monster i = some m') :
    ∃ m, w.monster i = some m ∧ m.Spared m' := by
  have hi := h.monster i
  rw [hm] at hi
  generalize hx : w.monster i = x at hi
  cases hi with
  | some hs => exact ⟨_,rfl,hs⟩

theorem Spares.setMonster (hm : w.monster i = some m) (hs : m.Spared m') :
    Spares w (w.setMonster i m') := by
  refine ⟨fun j => ?_,fun _ => rfl⟩
  change Option.Rel _ (w.monster j) (Function.update w.monster i (some m') j)
  rw [Function.update_apply]
  split_ifs with hj
  · rw [hj, hm]
    exact .some hs
  · exact (Spares.refl w).monster j

/-- Only the events of players are queued by packets. -/
theorem Spares.addTimer (key : EventKey) (t : ℕ) (target : ℤ) (hk : ∀ i, key ≠ .evMonster i)
    (w : World F) : Spares w (w.addTimer key t target) := by
  refine ⟨(Spares.refl w).monster,fun i => ?_⟩
  simp only [monsterEvents, World.addTimer]
  rw [List.countP_append]
  simp [hk i]

theorem spares_levelUp (id : Slot) (w : World F) : Spares w (w.levelUp id) := by
  simp only [World.levelUp]
  split
  · exact .of_eq rfl rfl rfl
  · exact .of_eq rfl rfl rfl

theorem spares_effect {k : Option OffEvent} (h : Effect k id w w') : Spares w w' := by
  cases h with
  | send | record | player | boss | quary => exact .of_eq rfl rfl rfl
  | timer kind t hk => exact .addTimer _ _ _ (by simp) w
  | monster i m m' _ hm hs => exact .setMonster hm hs
  | levelUp => exact spares_levelUp id w

theorem spares_effects {k : Option OffEvent} (h : Effects k id w w') : Spares w w' :=
  h.lift .refl .trans fun _ _ => spares_effect

/-- TimerThread moves an event of a monster to the completion queue. -/
theorem spares_timer {k now : ℕ} (h : w.timerThread k now = some w') : Spares w w' := by
  obtain ⟨ev,hdue,rfl⟩ := timerThread_spec h
  refine ⟨?_,fun i => ?_⟩
  · simp only [timerEvent]
    split
    · exact (Spares.refl w).monster
    · exact (Spares.refl w).monster
    · exact (Spares.refl w).monster
  · have hcount := hdue.countKey (.evMonster i)
    simp only [timerEvent, monsterEvents]
    rw [hcount]
    split
    · rename_i hkey
      simp [post, setTimerQueue, hkey]
    · rename_i j hkey
      simp only [post, setTimerQueue, hkey, List.count_append, EventKey.evMonster.injEq,
        List.count_singleton]
      by_cases hj : j = i
      · simp [hj]
        omega
      · simp [hj]
    · rename_i kind id hkey
      simp [modifyPlayer, setPlayer, setTimerQueue, hkey]

theorem spares_disconnect {uid : Slot} (h : w.disconnect uid = .ok w') : Spares w w' := by
  unfold World.disconnect at h
  split at h
  · cases h
  · cases h
    exact .of_eq rfl rfl rfl

theorem spares_ensurePlayer (uid : Slot) (heap : CPlayer F) (w : World F) :
    Spares w (w.ensurePlayer uid heap) := by
  simp only [World.ensurePlayer]
  split
  · exact .refl w
  · exact .of_eq rfl rfl rfl

theorem spares_dbTake {outcome : Outcome} {heap : CPlayer F} (h : w.dbTake outcome heap = .ok w') :
    Spares w w' := by
  obtain rfl | ⟨ev,queue,-,-,rfl | ⟨queue',rfl⟩ | ⟨exp,rfl⟩⟩ := dbTake_cases h
  · exact .of_eq rfl rfl rfl
  · have hpop : Spares w (w.setQuaryQueue queue) := .of_eq rfl rfl rfl
    exact (hpop.trans (spares_ensurePlayer ev.userId heap _)).trans (.of_eq rfl rfl rfl)
  · exact .of_eq rfl rfl rfl
  · exact .of_eq rfl rfl rfl

theorem Puts.self (hm : w.monster i = some m) : Puts i m w w :=
  ⟨(Function.update_eq_self_iff.mpr hm.symm).symm,fun _ => rfl⟩

theorem puts_setMonster (i : MonsterId) (m : CMonster F) (w : World F) :
    Puts i m w (w.setMonster i m) := ⟨rfl,fun _ => rfl⟩

theorem Puts.setMonster (h : Puts i m w w') : Puts i m' w (w'.setMonster i m') := by
  refine ⟨?_,h.events⟩
  change Function.update w'.monster i _ = _
  rw [h.monster, Function.update_idem]

theorem Puts.sendTo {l : List Slot} {p : Packet F} (h : Puts i m w w') :
    Puts i m w (w'.sendTo l p) := ⟨h.monster,h.events⟩

theorem Puts.modifyPlayer {f : CPlayer F → CPlayer F} (h : Puts i m w w') :
    Puts i m w (w'.modifyPlayer id f) := ⟨h.monster,h.events⟩

theorem Puts.takeDamage {damage : ℤ} (h : Puts i m w w') : Puts i m w (w'.takeDamage id damage) := by
  simp only [World.takeDamage]
  split
  · exact h.modifyPlayer
  · split_ifs
    · exact h.modifyPlayer.sendTo.modifyPlayer.sendTo
    · exact h.modifyPlayer.sendTo

theorem Puts.monsterTimer {t : ℕ} (h : Puts i m w w') : Ticked i m w (w'.monsterTimer i t) := by
  refine ⟨h.monster,fun j => ?_⟩
  rw [← h.events j]
  simp only [monsterEvents, World.monsterTimer, addTimer]
  rw [List.countP_append, List.countP_singleton]
  simp only [decide_eq_true_eq, EventKey.evMonster.injEq, eq_comm (a := i)]
  omega

theorem puts_attackStart (draw : ℕ) (w : World F) : Puts i m w (w.attackStart i m draw) :=
  List.foldlRecOn (motive := Puts i m w) _ _ (puts_setMonster i m w)
    fun _ h _ _ => h.sendTo.sendTo

/-- What an Execute does to its monster. It gives no hit points back, only a monster without hit
points gets into DeadState, and none leaves the range in which it may act. -/
structure Acts (m m' : CMonster F) : Prop where
  healthPoint : m'.healthPoint = m.healthPoint
  dead : m'.state = .deadState → m.state = .deadState ∨ m.healthPoint ≤ 0
  monState : m.monState = m.state.mState → m'.monState = m'.state.mState
  home : m'.state = .returnHomeState → m.state = .returnHomeState

theorem Acts.refl (m : CMonster F) : Acts m m := ⟨rfl,Or.inl,id,id⟩

/-- Changes of other members. -/
theorem Acts.of_eq {m'' : CMonster F} (h : Acts m m') (hhp : m''.healthPoint = m'.healthPoint)
    (hs : m''.state = m'.state) (hmon : m''.monState = m'.monState) : Acts m m'' where
  healthPoint := hhp.trans h.healthPoint
  dead hd := h.dead (hs ▸ hd)
  monState hm := by rw [hmon, hs, h.monState hm]
  home hh := h.home (hs ▸ hh)

theorem Acts.trans {m'' : CMonster F} (h : Acts m m') (h' : Acts m' m'') : Acts m m'' := by
  refine ⟨h'.healthPoint.trans h.healthPoint,fun hd => ?_,h'.monState ∘ h.monState,
    h.home ∘ h'.home⟩
  rcases h'.dead hd with hstate | hhp
  · exact h.dead hstate
  · exact Or.inr (h.healthPoint ▸ hhp)

theorem monsterEvents_unpost (h : .evMonster i ∈ w.posted) (j : MonsterId) :
    (w.unpost (.evMonster i)).monsterEvents j + (if j = i then 1 else 0) = w.monsterEvents j := by
  have hpos := List.count_pos_iff.mpr h
  simp only [monsterEvents, unpost]
  rw [List.count_erase]
  simp only [beq_iff_eq, Posted.evMonster.injEq]
  split_ifs with hi hj hj
  · subst hi
    omega
  · exact absurd hi.symm hj
  · exact absurd hj.symm hi
  · rfl

section Steps
variable [FloatArith F]

theorem spares_dbFinish (outcome : Outcome) (heap : CPlayer F) (now : ℕ) (w : World F) :
    Spares w (w.dbFinish outcome heap now) := by
  unfold World.dbFinish
  split
  · exact .refl w
  · rename_i ev _
    have hidle : Spares w (w.setHandling none) := .of_eq rfl rfl rfl
    dsimp only
    split
    · exact (hidle.trans (spares_ensurePlayer ev.userId heap _)).trans (.of_eq rfl rfl rfl)
    · exact hidle.trans (.of_eq rfl rfl rfl)

/-- What the threads do besides updating monsters. -/
theorem spares_next {a : Input F} (h : w.next a = some w') : Spares w w' := by
  cases a with
  | accept heap =>
    cases h
    simp only [World.accept]
    split
    · exact .refl w
    · exact .of_eq rfl rfl rfl
  | disconnect uid => exact spares_disconnect (toOption_eq_some h)
  | packet uid buf now =>
    obtain ⟨t,-,he⟩ := effects_processPacket (toOption_eq_some h)
    exact spares_effects he
  | login uid name password character =>
    obtain ⟨-,n,q,rfl⟩ := login_spec (toOption_eq_some h)
    exact .of_eq rfl rfl rfl
  | levelUp uid =>
    dsimp only [World.next] at h
    split_ifs at h
    cases h
    exact spares_levelUp uid w
  | dbTake outcome heap => exact spares_dbTake (toOption_eq_some h)
  | dbFinish outcome heap now =>
    cases h
    exact spares_dbFinish outcome heap now w
  | timer k now => exact spares_timer h

/-- An attack turns the monster at most. -/
theorem puts_monsterAttack {p : CPlayer F} {draw : ℕ} (hm : w.monster i = some m)
    (h : w.monsterAttack i m id p draw = (m',w')) :
    Puts i m' w w' ∧ ∃ r, m' = { m with rotation := r } := by
  unfold World.monsterAttack at h
  split_ifs at h with hfar hnear
  · cases h
    exact ⟨.self hm,m.rotation,rfl⟩
  · cases h
    exact ⟨.self hm,m.rotation,rfl⟩
  · cases h
    refine ⟨?_,_,rfl⟩
    have hstart := puts_attackStart (i := i) (m := m.face p.pos) draw w
    simp only [attackEnd]
    split_ifs
    · exact hstart.sendTo
    · exact hstart
    · exact hstart.sendTo.takeDamage

/-- The root of an `int` is far below ACTIVITY_RANGE. -/
theorem getDistance_le_activityRange (p q : Position F) : getDistance p q ≤ activityRange := by
  have h := CInt.abs_sqrt_wrap_le (FloatArith.square (FloatArith.sub p.x q.x) +
    FloatArith.square (FloatArith.sub p.y q.y))
  exact h.trans (by decide)

theorem changeState_spec {s : State} (h : w.changeState s m = .ok m') :
    m'.state = s ∧ m'.monState = s.mState ∧ m'.healthPoint = m.healthPoint ∧ m'.pos = m.pos := by
  have hexit : m.exit.healthPoint = m.healthPoint ∧ m.exit.pos = m.pos := by
    simp only [CMonster.exit]
    split
    · exact ⟨rfl,rfl⟩
    · exact ⟨rfl,rfl⟩
  unfold World.changeState World.enter at h
  cases s with
  | idleState | returnHomeState | deadState =>
    cases h
    exact ⟨rfl,rfl,hexit⟩
  | chaseState | attackState =>
    dsimp only at h
    split_ifs at h
    cases h
    exact ⟨rfl,rfl,hexit⟩

theorem acts_changeState {s : State} (hs : s = .deadState → m.healthPoint ≤ 0)
    (hhome : s ≠ .returnHomeState) (h : w.changeState s m = .ok m') : Acts m m' := by
  obtain ⟨hstate,hmon,hhp,-⟩ := changeState_spec h
  exact ⟨hhp,fun hd => Or.inr (hs (hstate.symm.trans hd)),fun _ => by rw [hmon, hstate],
    fun hh => absurd (hstate.symm.trans hh) hhome⟩

theorem acts_changeIf {c : Prop} [Decidable c] {s : State}
    (hs : c → s = .deadState → m.healthPoint ≤ 0) (hhome : s ≠ .returnHomeState)
    (h : w.changeIf c s m = .ok m') : Acts m m' := by
  unfold changeIf at h
  split_ifs at h with hc
  · exact acts_changeState (hs hc) hhome h
  · cases h
    exact .refl m

/-- A monster that changes its state and queues its event. -/
theorem ticked_changeState {s : State} {t : ℕ} {m₀ : CMonster F} (hs : s ≠ .deadState)
    (hhome : s ≠ .returnHomeState) (hp : Puts i m₀ w w') (ha : Acts m m₁)
    (h : (do let m' ← w'.changeState s m₁; return (w'.setMonster i m').monsterTimer i t) = .ok w'') :
    ∃ m', Ticked i m' w w'' ∧ Acts m m' := by
  obtain ⟨m',hm',h⟩ := bind_eq_ok.mp h
  cases h
  exact ⟨m',hp.setMonster.monsterTimer,ha.trans (acts_changeState (fun h => absurd h hs) hhome hm')⟩

theorem executed_idleState {now : ℕ} (hm : w.monster i = some m)
    (h : w.executeIdleState i m now = .ok w') : ∃ m', Ticked i m' w w' ∧ Acts m m' := by
  obtain ⟨m₁,hbury,h⟩ := bind_eq_ok.mp h
  have hacts := acts_changeIf (fun hhp _ => hhp) (by simp) hbury
  have hself := Puts.self hm
  unfold watchOut at h
  split at h
  · cases h
    exact ⟨m₁,hself.setMonster.monsterTimer,hacts⟩
  · rename_i c _
    split at h
    · cases h
      exact ⟨m₁,hself.setMonster.monsterTimer,hacts⟩
    · have haim : Acts m { m₁ with target := some c } := hacts.of_eq rfl rfl rfl
      dsimp only at h
      split_ifs at h
      · cases h
        exact ⟨_,hself.setMonster.monsterTimer,haim⟩
      · exact ticked_changeState (by simp) (by simp) hself haim h
      · rename_i hfar
        exact absurd hfar (not_lt.mpr (getDistance_le_activityRange _ _))
      · exact ticked_changeState (by simp) (by simp) hself haim h
      · cases h
        exact ⟨_,hself.setMonster.monsterTimer,haim⟩

theorem acts_updateTarget (h : w.updateTarget m = .ok m') : Acts m m' ∧ m'.pos = m.pos := by
  obtain ⟨t,-,h⟩ := bind_eq_ok.mp h
  cases h
  exact ⟨(Acts.refl m).of_eq rfl rfl rfl,rfl⟩

/-- What Chase and Attack begin with for a monster without hit points. -/
theorem ticked_die {t : ℕ} (hm : w.monster i = some m) (hhp : m.healthPoint ≤ 0)
    (h : (do let m' ← w.changeState .deadState m; return (w.setMonster i m').monsterTimer i t) =
      .ok w') : ∃ m', Ticked i m' w w' ∧ Acts m m' ∧ m'.state = .deadState := by
  obtain ⟨m',hm',h⟩ := bind_eq_ok.mp h
  cases h
  exact ⟨m',(Puts.self hm).setMonster.monsterTimer,acts_changeState (fun _ => hhp) (by simp) hm',
    (changeState_spec hm').1⟩

theorem executed_chaseState {now : ℕ} (hm : w.monster i = some m)
    (h : w.executeChaseState i m now = .ok w') : ∃ m', Ticked i m' w w' ∧ Acts m m' := by
  unfold executeChaseState at h
  split_ifs at h with hhp
  · obtain ⟨m',ht,ha,-⟩ := ticked_die hm hhp h
    exact ⟨m',ht,ha⟩
  · obtain ⟨m₁,htarget,h⟩ := bind_eq_ok.mp h
    obtain ⟨hacts,-⟩ := acts_updateTarget htarget
    have hself := Puts.self hm
    split at h
    · cases h
      exact ⟨m₁,hself.setMonster.monsterTimer,hacts⟩
    · rename_i p _
      have hchase : Acts m (m₁.chase p.pos) := hacts.of_eq rfl rfl rfl
      have hput : Puts i (m₁.chase p.pos) w ((w.setMonster i (m₁.chase p.pos)).broadcast
          ((m₁.chase p.pos).makeUpdatePacket i)) := (puts_setMonster i _ w).sendTo
      dsimp only at h
      split_ifs at h
      · exact ticked_changeState (by simp) (by simp) hput hchase h
      · cases h
        exact ⟨_,hput.monsterTimer,hchase⟩

theorem executed_attackState {draw now : ℕ} (hm : w.monster i = some m)
    (h : w.executeAttackState i m draw now = .ok w') : ∃ m', Ticked i m' w w' ∧ Acts m m' := by
  have hself := Puts.self hm
  unfold executeAttackState at h
  split_ifs at h with hhp
  · obtain ⟨m',ht,ha,-⟩ := ticked_die hm hhp h
    exact ⟨m',ht,ha⟩
  · split at h
    · exact ticked_changeState (by simp) (by simp) hself (.refl m) h
    · rename_i id _
      split at h
      · exact ticked_changeState (by simp) (by simp) hself (.refl m) h
      · rename_i p _
        split_ifs at h
        · exact ticked_changeState (by simp) (by simp) hself (.refl m) h
        · cases hattack : w.monsterAttack i m id p draw with
          | mk m₁ w₁ =>
            obtain ⟨hput,r,hr⟩ := puts_monsterAttack hm hattack
            have hacts : Acts m m₁ := hr ▸ (Acts.refl m).of_eq rfl rfl rfl
            rw [hattack] at h
            dsimp only at h
            split_ifs at h
            · exact ticked_changeState (by simp) (by simp) hput hacts h
            · cases h
              exact ⟨m₁,hput.monsterTimer,hacts⟩

theorem executed_returnHomeState {now : ℕ} (hm : w.monster i = some m)
    (h : w.executeReturnHomeState i m now = .ok w') : ∃ m', Ticked i m' w w' ∧ Acts m m' := by
  obtain ⟨m₁,h₁,h⟩ := bind_eq_ok.mp h
  obtain ⟨m₂,h₂,h⟩ := bind_eq_ok.mp h
  obtain ⟨m₃,h₃,h⟩ := bind_eq_ok.mp h
  cases h
  have hdie := acts_changeIf (fun hhp _ => hhp) (by simp) h₁
  have hacts := (hdie.trans (acts_changeIf (by simp) (by simp) h₂)).trans
    (acts_changeIf (by simp) (by simp) h₃)
  exact ⟨m₃,(Puts.self hm).setMonster.monsterTimer,hacts⟩

/-- Every Execute but that of DeadState queues the event of the monster once. -/
theorem executed_monsterExecute {draw now : ℕ} (hm : w.monster i = some m)
    (hs : m.state ≠ .deadState) (h : w.monsterExecute i m draw now = .ok w') :
    ∃ m', Ticked i m' w w' ∧ Acts m m' := by
  unfold monsterExecute at h
  cases hstate : m.state with
  | idleState => rw [hstate] at h; exact executed_idleState hm h
  | chaseState => rw [hstate] at h; exact executed_chaseState hm h
  | attackState => rw [hstate] at h; exact executed_attackState hm h
  | returnHomeState => rw [hstate] at h; exact executed_returnHomeState hm h
  | deadState => exact absurd hstate hs

theorem spares_strike {damage : ℤ} (hm : w.monster i = some m) (halive : m.healthPoint ≠ 0) :
    Spares w (w.strike id i m damage) := by
  have hblow : Effects (some .evAtkOff) id w (w.strike id i m damage) :=
    (Effects.refl w).strike rfl hm halive
  exact spares_effects hblow

def monsterNext (w : World F) : MonsterInput F → Option (World F)
  | .server a => w.next a
  | .update i draw now =>
    if .evMonster i ∈ w.posted then
      ((w.unpost (.evMonster i)).monsterUpdate i draw now).toOption
    else none
  | .hit id i damage =>
    match w.monster i with
    | none => none
    | some m => if m.healthPoint = 0 then none else some (w.strike id i m damage)
  | .players f => some { w with player := f }

/-- What happens besides the updates. -/
theorem spares_monsterNext {a : MonsterInput F} (ha : ∀ i draw now, a ≠ .update i draw now)
    (h : w.monsterNext a = some w') : Spares w w' := by
  cases a with
  | server a => exact spares_next h
  | update i draw now => exact absurd rfl (ha i draw now)
  | hit id i damage =>
    dsimp only [monsterNext] at h
    split at h
    · cases h
    · rename_i m hm
      split_ifs at h with hdead
      cases h
      exact spares_strike hm hdead
  | players f =>
    cases h
    exact .of_eq rfl rfl rfl

/-- An update uses up an event of its monster, and all but that of a dead monster replace it. -/
theorem monsterNext_update {draw now : ℕ} (hm : w.monster i = some m)
    (h : w.monsterNext (.update i draw now) = some w') : ∃ m', Acts m m' ∧
      w'.monster = Function.update w.monster i (some m') ∧
      ∀ j, w'.monsterEvents j + (if j = i ∧ m.state = .deadState then 1 else 0) =
        w.monsterEvents j := by
  dsimp only [monsterNext] at h
  split_ifs at h with hposted
  have hevents := monsterEvents_unpost hposted
  have hok := toOption_eq_some h
  rw [monsterUpdate_some (w := w.unpost (.evMonster i)) hm] at hok
  by_cases hs : m.state = .deadState
  · unfold monsterExecute at hok
    rw [hs] at hok
    cases hok
    refine ⟨m,.refl m,(Function.update_eq_self_iff.mpr hm.symm).symm,fun j => ?_⟩
    simp only [hs, and_true]
    exact hevents j
  · obtain ⟨m',ht,ha⟩ := executed_monsterExecute (w := w.unpost (.evMonster i)) hm hs hok
    refine ⟨m',ha,ht.monster,fun j => ?_⟩
    simp only [hs, and_false, if_false, add_zero]
    exact (ht.events j).trans (hevents j)

/-- An event of a monster that does not exist. -/
theorem monsterNext_update_none {draw now : ℕ} (hm : w.monster i = none)
    (h : w.monsterNext (.update i draw now) = some w') : w'.monster = w.monster ∧
      ∀ j, j ≠ i → w'.monsterEvents j = w.monsterEvents j := by
  dsimp only [monsterNext] at h
  split_ifs at h with hposted
  have hok := toOption_eq_some h
  rw [monsterUpdate_none (w := w.unpost (.evMonster i)) hm] at hok
  cases hok
  refine ⟨rfl,fun j hj => ?_⟩
  have hevents := monsterEvents_unpost hposted j
  rwa [if_neg hj, add_zero] at hevents

end Steps

end World

namespace Watched

/-- The history of a step. -/
def buriedBy (w : World F) (a : MonsterInput F) (i : MonsterId) : Bool :=
  match a with
  | .update j _ _ => i = j ∧ (w.monster i).any fun m => m.state = .deadState
  | _ => false

/-- A monster has one event until DeadState::Execute has run for it and none afterwards, and it
has no hit points when DeadState::Execute runs. -/
structure OneEvent (s : Watched F) : Prop where
  events : ∀ i m, s.world.monster i = some m →
    s.world.monsterEvents i = if s.buried i then 0 else 1
  dead : ∀ i m, s.world.monster i = some m → m.state = .deadState ∨ s.buried i → m.healthPoint = 0

variable {s s' : Watched F}

/-- Steps besides the updates. -/
theorem OneEvent.spares {w : World F} (h : OneEvent s) (hs : s.world.Spares w) :
    OneEvent ⟨w,s.buried⟩ where
  events i m' hm' := by
    obtain ⟨m,hm,-⟩ := hs.before hm'
    exact (hs.events i).trans (h.events i m hm)
  dead i m' hm' hd := by
    obtain ⟨m,hm,hspared⟩ := hs.before hm'
    exact hspared.dead (h.dead i m hm (hspared.state ▸ hd))

/-- The update of a monster that exists. The history grows if it is in DeadState. -/
theorem OneEvent.update {w : World F} {i : MonsterId} {m m' : CMonster F} (h : OneEvent s)
    (hm : s.world.monster i = some m) (hacts : World.Acts m m')
    (hmonster : w.monster = Function.update s.world.monster i (some m'))
    (hevents : ∀ j, w.monsterEvents j + (if j = i ∧ m.state = .deadState then 1 else 0) =
      s.world.monsterEvents j) :
    OneEvent ⟨w,fun j => s.buried j || (decide (j = i) && decide (m.state = .deadState))⟩ := by
  constructor
  · intro j m'' hm''
    dsimp only at hm''
    rw [hmonster, Function.update_apply] at hm''
    have hj := hevents j
    split_ifs at hm'' with hi
    · subst hi
      have hone := h.events j m hm
      by_cases hs : m.state = .deadState <;> by_cases hb : s.buried j <;>
        simp [hs, hb] at hj hone ⊢ <;> omega
    · simp only [hi, false_and, if_false, add_zero] at hj
      simp only [hi, decide_false, Bool.false_and, Bool.or_false]
      exact hj.trans (h.events j m'' hm'')
  · intro j m'' hm'' hd
    dsimp only at hm''
    rw [hmonster, Function.update_apply] at hm''
    split_ifs at hm'' with hi
    · subst hi
      cases hm''
      have hdead : m.state = .deadState ∨ m.healthPoint ≤ 0 ∨ s.buried j := by
        simp only [decide_true, Bool.true_and, Bool.or_eq_true, decide_eq_true_eq] at hd
        rcases hd with hd | hd | hd
        · exact (hacts.dead hd).imp_right Or.inl
        · exact Or.inr (Or.inr hd)
        · exact Or.inl hd
      rw [hacts.healthPoint]
      rcases hdead with hd | hd | hd
      · exact h.dead j m hm (Or.inl hd)
      · exact le_antisymm hd m.healthPoint_nonneg
      · exact h.dead j m hm (Or.inr hd)
    · simp only [hi, decide_false, Bool.false_and, Bool.or_false] at hd
      exact h.dead j m'' hm'' hd

section Steps
variable [FloatArith F]

def next (s : Watched F) (a : MonsterInput F) : Option (Watched F) :=
  (s.world.monsterNext a).map fun w => ⟨w,fun i => s.buried i || buriedBy s.world a i⟩

def start : Watched F := ⟨World.start,fun _ => false⟩

theorem OneEvent.next {a : MonsterInput F} (h : OneEvent s) (hstep : s.next a = some s') :
    OneEvent s' := by
  obtain ⟨w,hw,rfl⟩ := Option.map_eq_some_iff.mp hstep
  cases a with
  | server | hit | players =>
    simp only [buriedBy, Bool.or_false]
    exact h.spares (World.spares_monsterNext (by simp) hw)
  | update i draw now =>
    cases hm : s.world.monster i with
    | none =>
      have hburied : ∀ j, (s.buried j || buriedBy s.world (.update i draw now) j) = s.buried j := by
        intro j
        by_cases hj : j = i <;> simp [buriedBy, hj, hm]
      obtain ⟨hmonster,hevents⟩ := World.monsterNext_update_none hm hw
      simp only [hburied]
      refine ⟨fun j m hj => ?_,fun j m hj => h.dead j m (hmonster ▸ hj)⟩
      have hne : j ≠ i := by
        rintro rfl
        cases (hmonster ▸ hj).symm.trans hm
      exact (hevents j hne).trans (h.events j m (hmonster ▸ hj))
    | some m =>
      have hburied : ∀ j, buriedBy s.world (.update i draw now) j =
          (decide (j = i) && decide (m.state = .deadState)) := by
        intro j
        by_cases hj : j = i <;> simp [buriedBy, hj, hm]
      obtain ⟨m',hacts,hmonster,hevents⟩ := World.monsterNext_update hm hw
      simp only [hburied]
      exact h.update hm hacts hmonster hevents

/-- SpawnMonster gives each monster its first event. -/
theorem spawned (l : List (MonsterId × ℚ × ℚ × ℚ × ℤ)) (w : World F)
    (hnew : (l.map Prod.fst).Nodup) (hfree : ∀ i ∈ l.map Prod.fst, w.monsterEvents i = 0)
    (hw : ∀ i m, w.monster i = some m → w.monsterEvents i = 1 ∧
      ∃ pos type, m = CMonster.initializeMonster pos type) :
    ∀ i m, (l.foldl World.spawnMonster w).monster i = some m →
      (l.foldl World.spawnMonster w).monsterEvents i = 1 ∧
        ∃ pos type, m = CMonster.initializeMonster pos type := by
  induction l generalizing w with
  | nil => exact hw
  | cons s l ih =>
    obtain ⟨i,x,y,z,type⟩ := s
    have htick : World.Ticked i (CMonster.initializeMonster (Position.lits x y z) type) w
        (w.spawnMonster (i,x,y,z,type)) := (World.puts_setMonster i _ w).monsterTimer
    rw [List.map_cons, List.nodup_cons] at hnew
    apply ih
    · exact hnew.2
    · intro j hj
      have hne : j ≠ i := by
        rintro rfl
        exact hnew.1 hj
      rw [htick.events j, if_neg hne, add_zero]
      exact hfree j (List.mem_cons_of_mem _ hj)
    · intro j m hm
      rw [htick.monster, Function.update_apply] at hm
      rw [htick.events j]
      split_ifs at hm with hj
      · cases hm
        rw [if_pos hj, hj, hfree i (List.mem_cons_self ..)]
        exact ⟨rfl,_,_,rfl⟩
      · rw [if_neg hj]
        exact hw j m hm

theorem start_monster {i : MonsterId} {m : CMonster F}
    (hm : (World.start : World F).monster i = some m) : (World.start : World F).monsterEvents i = 1 ∧
      ∃ pos type, m = CMonster.initializeMonster pos type := by
  revert hm
  revert i m
  apply spawned
  · decide
  · intro i _
    simp [World.monsterEvents, World.addTimer, World.setBoss, World.empty]
  · intro i m hm
    cases hm

theorem oneEvent_start : OneEvent (start : Watched F) := by
  constructor
  · exact fun i m hm => (start_monster hm).1
  · intro i m hm hd
    obtain ⟨-,pos,type,rfl⟩ := start_monster hm
    rcases hd with hd | hd
    · cases hd
    · cases hd

/-- No living monster stalls, and none is driven twice. -/
theorem one_event (as : List (MonsterInput F)) : Runs.Always Watched.next OneEvent start as :=
  Runs.always (fun _ _ _ h => h.next) oneEvent_start

end Steps

end Watched

end LastHero
