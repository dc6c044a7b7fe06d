import LastHero.Monster.Token
import LastHero.Support.FirstMin

/-! Death of a monster. Chase and Attack return once they have changed to DeadState, but Idle goes
on to look for a player: this module says exactly when a dead monster gets up again. -/
namespace LastHero
variable {F : Type}

namespace World

/-- An update of a monster without hit points leaves it in M_DEAD, and nothing gets a monster out
of M_DEAD. -/
structure DeathFinal (w w' : World F) (a : MonsterInput F) : Prop where
  stays : ∀ i, (w.monster i).map CMonster.monState = some .mDead →
    (w'.monster i).map CMonster.monState = some .mDead
  update : ∀ i draw now, a = .update i draw now → ∀ m, w.monster i = some m → m.healthPoint ≤ 0 →
    (w'.monster i).map CMonster.monState = some .mDead

variable {w w' : World F} {i : MonsterId} {m m' : CMonster F}

/-- monState names the state, nobody is on the way home, and the dead have no hit points. -/
structure SoundMonster (m : CMonster F) : Prop where
  monState : m.monState = m.state.mState
  home : m.state ≠ .returnHomeState
  dead : m.state = .deadState → m.healthPoint = 0

def Sound (w : World F) : Prop := ∀ i m, w.monster i = some m → SoundMonster m

theorem SoundMonster.acts (h : SoundMonster m) (ha : Acts m m') : SoundMonster m' where
  monState := ha.monState h.monState
  home hh := h.home (ha.home hh)
  dead hd := by
    rw [ha.healthPoint]
    rcases ha.dead hd with hs | hhp
    · exact h.dead hs
    · exact le_antisymm hhp m.healthPoint_nonneg

theorem Sound.spares (h : Sound w) (hs : Spares w w') : Sound w' := by
  intro i m' hm'
  obtain ⟨m,hm,hspared⟩ := hs.before hm'
  have hsound := h i m hm
  exact ⟨by rw [hspared.monState, hspared.state, hsound.monState],hspared.state ▸ hsound.home,
    fun hd => hspared.dead (hsound.dead (hspared.state ▸ hd))⟩

theorem Spares.monState (h : Spares w w') (i : MonsterId) :
    (w'.monster i).map CMonster.monState = (w.monster i).map CMonster.monState := by
  have hi := h.monster i
  generalize w.monster i = x at hi
  generalize w'.monster i = y at hi
  cases hi with
  | some hs => exact congrArg some hs.monState
  | none => rfl

/-- The loop over disArray keeps the first slot of least distance. -/
theorem nearest_eq {dis : Slot → ℤ} (hdis : ∀ i, 0 ≤ dis i) :
    nearest dis = FirstMin.scan dis 0 slots := by
  have hstep : nearer dis = FirstMin.cheaper dis := by
    funext c i
    have hi := hdis i
    simp only [nearer, noDetected, FirstMin.cheaper]
    simp only [ne_eq, not_lt]
    congr 1
    rw [eq_iff_iff]
    constructor
    · exact fun h => h.2.2
    · exact fun h => ⟨by omega,hi,h⟩
  simp only [nearest, FirstMin.scan]
  rw [hstep]

theorem nearest_le {dis : Slot → ℤ} (hdis : ∀ i, 0 ≤ dis i) (i : Slot) :
    dis (nearest dis) ≤ dis i := by
  rw [nearest_eq hdis]
  exact FirstMin.scan_le (mem_slots i)

section Execute
variable [FloatArith F]

/-- A living player in the range in which a monster gives chase. -/
def InSight (m : CMonster F) (p : CPlayer F) : Prop :=
  p.isAlive ∧ 0 ≤ getDistance m.pos p.pos ∧ getDistance m.pos p.pos < chaseRange

/-- Some player is in sight. -/
def SomeoneInSight (w : World F) (m : CMonster F) : Prop := ∃ c p, w.player c = some p ∧ InSight m p

theorem disArray_of_inSight {c : Slot} {p : CPlayer F} (hp : w.player c = some p) (h : InSight m p) :
    w.disArray m c = getDistance m.pos p.pos := by
  simp only [disArray]
  rw [hp]
  simp [h.1, h.2.1, h.2.2]

theorem disArray_of_not {c : Slot} (h : ∀ p, w.player c = some p → ¬ InSight m p) :
    w.disArray m c = 9999999 := by
  simp only [disArray]
  split
  · rfl
  · rename_i p hp
    have hnot := h p hp
    split_ifs with halive hrange
    · rfl
    · exact absurd ⟨by simpa using halive,hrange⟩ hnot
    · rfl

theorem disArray_nonneg (m : CMonster F) (w : World F) (c : Slot) : 0 ≤ w.disArray m c := by
  by_cases h : ∀ p, w.player c = some p → ¬ InSight m p
  · rw [disArray_of_not h]
    decide
  · push Not at h
    obtain ⟨p,hp,hsight⟩ := h
    rw [disArray_of_inSight hp hsight]
    exact hsight.2.1

/-- If there is someone in sight, the first of the nearest is chosen. -/
theorem chaseId_of_inSight (h : w.SomeoneInSight m) : ∃ p,
    w.chaseId m = some (nearest (w.disArray m)) ∧ w.player (nearest (w.disArray m)) = some p ∧
      InSight m p := by
  obtain ⟨c₀,p₀,hp₀,hsight₀⟩ := h
  have hle := nearest_le (w.disArray_nonneg m) c₀
  rw [disArray_of_inSight hp₀ hsight₀] at hle
  by_cases hc : ∀ p, w.player (nearest (w.disArray m)) = some p → ¬ InSight m p
  · have hlt := hsight₀.2.2
    rw [disArray_of_not hc] at hle
    unfold chaseRange at hlt
    omega
  · push Not at hc
    obtain ⟨p,hp,hsight⟩ := hc
    have hpos := w.disArray_nonneg m (nearest (w.disArray m))
    refine ⟨p,?_,hp,hsight⟩
    simp only [chaseId]
    rw [if_neg (by unfold noDetected; omega), if_neg (by simp [hp, hsight.1])]

/-- A player that is chosen is alive. -/
theorem isAlive_of_chaseId {c : Slot} {p : CPlayer F} (h : w.chaseId m = some c)
    (hp : w.player c = some p) : p.isAlive := by
  unfold chaseId at h
  dsimp only at h
  split_ifs at h with hnone hdead
  cases h
  simpa [hp] using hdead

@[simp] theorem exit_target (m : CMonster F) : m.exit.target = m.target := by
  simp only [CMonster.exit]
  split
  · rfl
  · rfl

/-- With its target there, a monster changes its state. -/
theorem exists_changeState (s : State) (h : (m.target.bind w.player).isSome) :
    ∃ m', w.changeState s m = .ok m' ∧ m'.target = m.target := by
  simp only [changeState, enter]
  cases s with
  | idleState | returnHomeState | deadState => exact ⟨_,rfl,exit_target m⟩
  | chaseState | attackState =>
    dsimp only
    rw [exit_target, if_pos h]
    exact ⟨_,rfl,rfl⟩

/-- Without anybody in sight a monster stays as it is, but perhaps for its target. -/
theorem watchOut_nobody (i : MonsterId) (now : ℕ) (h : ¬ w.SomeoneInSight m) : ∃ m',
    w.watchOut i m now = .ok ((w.setMonster i m').monsterTimer i (now+1000)) ∧
      m'.state = m.state ∧ m'.monState = m.monState := by
  unfold watchOut
  split
  · exact ⟨m,rfl,rfl,rfl⟩
  · rename_i c hc
    split
    · exact ⟨m,rfl,rfl,rfl⟩
    · rename_i p hp
      have halive := isAlive_of_chaseId hc hp
      have hout : ¬ (0 ≤ getDistance m.pos p.pos ∧ getDistance m.pos p.pos < chaseRange) :=
        fun hrange => h ⟨c,p,hp,halive,hrange⟩
      have hhome := not_lt.mpr (getDistance_le_activityRange m.pos m.defaultPos)
      unfold chaseRange at hout
      unfold atkRange attackRange chaseRange
      dsimp only
      rw [if_neg hhome]
      split_ifs
      · exact ⟨_,rfl,rfl,rfl⟩
      · omega
      · omega
      · exact ⟨_,rfl,rfl,rfl⟩

/-- Otherwise it attacks or chases the first of the nearest. -/
theorem watchOut_someone (i : MonsterId) (now : ℕ) (h : w.SomeoneInSight m) : ∃ p m',
    w.player (nearest (w.disArray m)) = some p ∧ InSight m p ∧
      w.watchOut i m now = .ok ((w.setMonster i m').monsterTimer i (now+1000)) ∧
      m'.target = some (nearest (w.disArray m)) ∧
      m'.state = (if getDistance m.pos p.pos < atkRange then .attackState else .chaseState) ∧
      m'.monState = m'.state.mState := by
  obtain ⟨p,hc,hp,hsight⟩ := chaseId_of_inSight h
  have haim : (({ m with target := some (nearest (w.disArray m)) } : CMonster F).target.bind
      w.player).isSome := by
    rw [Option.bind_some, hp]
    rfl
  obtain ⟨m',hm',htarget⟩ := exists_changeState
    (if getDistance m.pos p.pos < atkRange then .attackState else .chaseState) haim
  obtain ⟨hstate,hmon,-⟩ := changeState_spec hm'
  refine ⟨p,m',hp,hsight,?_,htarget,hstate,by rw [hmon, hstate]⟩
  have hhome := not_lt.mpr (getDistance_le_activityRange m.pos m.defaultPos)
  simp only [watchOut]
  simp only [hc, hp, not_lt.mpr hsight.2.1, if_false, hhome, hsight.2.2, if_true]
  split_ifs with hnear
  · rw [if_pos hnear] at hm'
    rw [hm']
    rfl
  · rw [if_neg hnear] at hm'
    rw [hm']
    rfl

/-- A monster in DeadState that looks around changes its state if someone is in sight. -/
theorem watchOut_dead {now : ℕ} (hs : m.state = .deadState) (h : w.watchOut i m now = .ok w') :
    ∃ m', w'.monster i = some m' ∧ (m'.state = .deadState ↔ ¬ w.SomeoneInSight m) := by
  have hset : ∀ (m' : CMonster F) (v : World F) t,
      ((v.setMonster i m').monsterTimer i t).monster i = some m' := fun _ _ _ =>
    Function.update_self ..
  by_cases hsight : w.SomeoneInSight m
  · obtain ⟨p,m',-,-,hok,-,hstate,-⟩ := watchOut_someone i now hsight
    cases h.symm.trans hok
    refine ⟨m',hset ..,iff_of_false ?_ (not_not_intro hsight)⟩
    rw [hstate]
    split_ifs <;> simp
  · obtain ⟨m',hok,hstate,-⟩ := watchOut_nobody i now hsight
    cases h.symm.trans hok
    exact ⟨m',hset ..,iff_of_true (hstate.trans hs) hsight⟩

theorem someoneInSight_congr (hpos : m'.pos = m.pos) : w.SomeoneInSight m' ↔ w.SomeoneInSight m := by
  simp only [SomeoneInSight, InSight]
  rw [hpos]

/-- The Execute of a monster without hit points ends in DeadState, unless it is idle and someone
is in sight. -/
theorem monsterExecute_dead {draw now : ℕ} (hm : w.monster i = some m) (hhp : m.healthPoint ≤ 0)
    (hhome : m.state ≠ .returnHomeState) (h : w.monsterExecute i m draw now = .ok w') :
    ∃ m', w'.monster i = some m' ∧
      (m'.state = .deadState ↔ ¬ (m.state = .idleState ∧ w.SomeoneInSight m)) := by
  have hdie : ∀ {m' : CMonster F}, World.Ticked i m' w w' → w'.monster i = some m' := by
    intro m' ht
    rw [ht.monster, Function.update_self]
  unfold monsterExecute at h
  cases hstate : m.state with
  | idleState =>
    rw [hstate] at h
    obtain ⟨m₁,hbury,h⟩ := bind_eq_ok.mp h
    unfold changeIf at hbury
    rw [if_pos hhp] at hbury
    obtain ⟨hs,-,-,hpos⟩ := changeState_spec hbury
    obtain ⟨m',hm',hiff⟩ := watchOut_dead hs h
    exact ⟨m',hm',by rw [hiff, someoneInSight_congr hpos]; simp⟩
  | chaseState =>
    rw [hstate] at h
    unfold executeChaseState at h
    rw [if_pos hhp] at h
    obtain ⟨m',ht,-,hdead⟩ := ticked_die hm hhp h
    exact ⟨m',hdie ht,by simp [hdead]⟩
  | attackState =>
    rw [hstate] at h
    unfold executeAttackState at h
    rw [if_pos hhp] at h
    obtain ⟨m',ht,-,hdead⟩ := ticked_die hm hhp h
    exact ⟨m',hdie ht,by simp [hdead]⟩
  | returnHomeState => exact absurd hstate hhome
  | deadState =>
    rw [hstate] at h
    cases h
    exact ⟨m,hm,by simp [hstate]⟩

/-- An update of an idle monster without hit points finds nobody in sight. -/
def Rests (w : World F) (a : MonsterInput F) : Prop :=
  ∀ i draw now, a = .update i draw now → ∀ m, w.monster i = some m → m.healthPoint ≤ 0 →
    m.state = .idleState → ¬ w.SomeoneInSight m

theorem mState_eq_mDead {s : State} : s.mState = .mDead ↔ s = .deadState := by
  cases s <;> simp [State.mState]

theorem Sound.next {a : MonsterInput F} (h : Sound w) (hstep : w.monsterNext a = some w') :
    Sound w' := by
  cases a with
  | server | hit | players => exact h.spares (spares_monsterNext (by simp) hstep)
  | update i draw now =>
    cases hm : w.monster i with
    | none =>
      obtain ⟨hmonster,-⟩ := monsterNext_update_none hm hstep
      intro j m hj
      exact h j m (hmonster ▸ hj)
    | some m =>
      obtain ⟨m',hacts,hmonster,-⟩ := monsterNext_update hm hstep
      intro j m'' hj
      rw [hmonster, Function.update_apply] at hj
      split_ifs at hj with hji
      · cases hj
        exact (h i m hm).acts hacts
      · exact h j m'' hj

theorem sound_start : Sound (start : World F) := by
  intro i m hm
  obtain ⟨-,pos,type,rfl⟩ := Watched.start_monster hm
  exact ⟨rfl,by simp [CMonster.initializeMonster],by simp [CMonster.initializeMonster]⟩

theorem monsterNext_dead {draw now : ℕ} (h : Sound w) (hm : w.monster i = some m)
    (hhp : m.healthPoint ≤ 0) (hstep : w.monsterNext (.update i draw now) = some w') :
    (w'.monster i).map CMonster.monState = some .mDead ↔
      ¬ (m.state = .idleState ∧ w.SomeoneInSight m) := by
  obtain ⟨hmon,hhome,-⟩ := h i m hm
  obtain ⟨m₁,hacts,hmonster,-⟩ := monsterNext_update hm hstep
  dsimp only [monsterNext] at hstep
  split_ifs at hstep
  have hok := toOption_eq_some hstep
  rw [monsterUpdate_some (w := w.unpost (.evMonster i)) hm] at hok
  obtain ⟨m',hm',hiff⟩ := monsterExecute_dead (w := w.unpost (.evMonster i)) hm hhp hhome hok
  have hsame : m₁ = m' := by
    rw [hmonster, Function.update_self] at hm'
    exact Option.some.inj hm'
  rw [hm', Option.map_some, Option.some_inj, ← hsame, hacts.monState hmon, mState_eq_mDead, hsame]
  exact hiff

theorem monsterNext_other {draw now : ℕ} {j : MonsterId} (hj : j ≠ i)
    (hstep : w.monsterNext (.update i draw now) = some w') : w'.monster j = w.monster j := by
  cases hm : w.monster i with
  | none => rw [(monsterNext_update_none hm hstep).1]
  | some m =>
    obtain ⟨m',-,hmonster,-⟩ := monsterNext_update hm hstep
    rw [hmonster, Function.update_of_ne hj]

theorem deathFinal_iff {a : MonsterInput F} (h : Sound w) (hstep : w.monsterNext a = some w') :
    DeathFinal w w' a ↔ Rests w a := by
  cases a with
  | server | hit | players =>
    have hspares := spares_monsterNext (by simp) hstep
    exact iff_of_true ⟨fun i hi => (hspares.monState i).trans hi,fun i draw now ha => by cases ha⟩
      fun i draw now ha => by cases ha
  | update i draw now =>
    constructor
    · intro hfinal j draw' now' ha m hm hhp hidle hsight
      cases ha
      exact (monsterNext_dead h hm hhp hstep).mp (hfinal.update i draw now rfl m hm hhp)
        ⟨hidle,hsight⟩
    · intro hrests
      have hdead : ∀ m, w.monster i = some m → m.healthPoint ≤ 0 →
          (w'.monster i).map CMonster.monState = some .mDead := fun m hm hhp =>
        (monsterNext_dead h hm hhp hstep).mpr fun hbad =>
          hrests i draw now rfl m hm hhp hbad.1 hbad.2
      refine ⟨fun j hj => ?_,fun j draw' now' ha => ?_⟩
      · obtain ⟨m,hm,hmon⟩ := Option.map_eq_some_iff.mp hj
        by_cases hji : j = i
        · subst hji
          have hs := mState_eq_mDead.mp ((h j m hm).monState.symm.trans hmon)
          exact hdead m hm ((h j m hm).dead hs).le
        · rw [monsterNext_other hji hstep, hj]
      · cases ha
        exact hdead

/-- In a run death is final if and only if every update of an idle monster without hit points
finds nobody in sight. -/
theorem death_final_iff (as : List (MonsterInput F)) :
    Runs.Along monsterNext (fun w a => ∀ w', w.monsterNext a = some w' → DeathFinal w w' a) start as ↔
      Runs.Along monsterNext Rests start as := by
  refine Runs.along_congr_of (I := Sound) (fun _ _ _ h hstep => h.next hstep) ?_ sound_start
  intro w a w' h hstep
  rw [← deathFinal_iff h hstep, hstep]
  constructor
  · intro hf
    exact hf w' rfl
  · intro hf v hv
    cases hv
    exact hf

end Execute

/-- A goblin is killed while it is idle. Its update moves on from DeadState to a player that
stands near the origin. -/
def risen : List (MonsterInput ℚ) := [
  .players fun i => if i = 0 then some { zeroPlayer with pos := ⟨100,0,0⟩, isAlive := true } else none,
  .hit 0 0 50,.server (.timer 0 1000),.server (.timer 0 1000)]

/-- Then it attacks. -/
theorem death_not_final : ∃ as : List (MonsterInput ℚ), ¬ Runs.Along monsterNext
    (fun w a => ∀ w', w.monsterNext a = some w' → DeathFinal w w' a) start as := by
  have heval : (Runs.run monsterNext start risen).any (fun w : World ℚ =>
      (w.monster 0).any (fun m => m.healthPoint ≤ 0) &&
        (w.monsterNext (.update 0 0 1000)).any fun w' =>
          (w'.monster 0).any fun m => m.monState = .mAttack) = true := by decide +kernel
  obtain ⟨w,hrun,hbad⟩ := (Option.any_eq_true _ _).mp heval
  rw [Bool.and_eq_true, Option.any_eq_true, Option.any_eq_true] at hbad
  obtain ⟨⟨m,hm,hhp⟩,w',hw',hattack⟩ := hbad
  obtain ⟨m',hm',hmon⟩ := (Option.any_eq_true _ _).mp hattack
  refine ⟨risen ++ [.update 0 0 1000],fun h => ?_⟩
  have hdead := (h.last hrun hw' w' hw').update 0 0 1000 rfl m hm (of_decide_eq_true hhp)
  rw [hm', Option.map_some, Option.some_inj, of_decide_eq_true hmon] at hdead
  cases hdead

end World

end LastHero
