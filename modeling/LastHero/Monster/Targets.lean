import LastHero.Monster.Death
import LastHero.Game.Exact

/-! Whom the monsters follow. Idle ones choose the first of the nearest living players in range;
chasing ones never let go of a target that has died next to them. -/
namespace LastHero
variable {F : Type}

namespace World
variable {w : World F} {m : CMonster F} {i : MonsterId} {c t : Slot} {p : CPlayer F}

/-- A connected player that is alive. -/
def Living (w : World F) (c : Slot) (p : CPlayer F) : Prop := w.player c = some p ∧ p.isAlive

/-- The slots that the second loop of UpdateTarget considers. -/
def livingSlots (w : World F) : List Slot := slots.filter fun c => (w.player c).any CPlayer.isAlive

theorem mem_livingSlots : c ∈ w.livingSlots ↔ ∃ p, w.Living c p := by
  simp only [livingSlots, Living]
  rw [List.mem_filter, Option.any_eq_true]
  constructor
  · exact And.right
  · exact fun h => ⟨mem_slots c,h⟩

section Idle
variable [FloatArith F]

/-- No living player is nearer, and those as near have higher slots. -/
def FirstNearest (w : World F) (m : CMonster F) (c : Slot) (p : CPlayer F) : Prop :=
  w.Living c p ∧ ∀ d q, w.Living d q → getDistance m.pos p.pos ≤ getDistance m.pos q.pos ∧
    (d < c → getDistance m.pos p.pos < getDistance m.pos q.pos)

/-- An idle monster stays so if no living player is in range. Otherwise it goes for the first of
the nearest. -/
structure Acquires (w : World F) (m m' : CMonster F) : Prop where
  leaves : m'.state ≠ .idleState ↔ ∃ c p, w.Living c p ∧ getDistance m.pos p.pos < chaseRange
  stays : m'.state = .idleState → m'.monState = m.monState
  target : m'.state ≠ .idleState → ∃ c p, m'.target = some c ∧ w.FirstNearest m c p ∧
    m'.monState = if getDistance m.pos p.pos < atkRange then .mAttack else .mChase

/-- UpdateTarget leaves a living player as the target, and no living player is nearer. -/
def Follows (w : World F) (m : CMonster F) : Prop :=
  ∃ m' t p, w.updateTarget m = .ok m' ∧ m'.target = some t ∧ w.Living t p ∧
    ∀ c q, w.Living c q → getDistance m.pos p.pos ≤ getDistance m.pos q.pos

/-- The target has died, and no living player is nearer to the monster. -/
def Haunted (w : World F) (m : CMonster F) (t : Slot) : Prop :=
  ∃ p, w.player t = some p ∧ ¬ p.isAlive ∧
    ∀ c q, w.Living c q → getDistance m.pos p.pos ≤ getDistance m.pos q.pos

variable [ExactFloat F]

/-- The players stand on integers, and so near that no square overflows. -/
def ExactPlayers (w : World F) (m : CMonster F) : Prop :=
  ∀ c p, w.player c = some p → Position.Exact m.pos p.pos

theorem someoneInSight_iff (h : w.ExactPlayers m) :
    w.SomeoneInSight m ↔ ∃ c p, w.Living c p ∧ getDistance m.pos p.pos < chaseRange := by
  constructor
  · rintro ⟨c,p,hp,hsight⟩
    exact ⟨c,p,⟨hp,hsight.1⟩,hsight.2.2⟩
  · rintro ⟨c,p,⟨hp,halive⟩,hrange⟩
    exact ⟨c,p,hp,halive,(h c p hp).nonneg,hrange⟩

theorem slots_sorted : slots.Pairwise (· < ·) := List.pairwise_lt_finRange maxPlayer

/-- Who is out of range is farther than everybody in sight. -/
theorem disArray_living (h : w.ExactPlayers m) (hp : w.Living c p) :
    w.disArray m c = if getDistance m.pos p.pos < chaseRange then getDistance m.pos p.pos
      else 9999999 := by
  obtain ⟨hp,halive⟩ := hp
  split_ifs with hrange
  · exact disArray_of_inSight hp ⟨halive,(h c p hp).nonneg,hrange⟩
  · refine disArray_of_not fun q hq hsight => ?_
    cases hp.symm.trans hq
    exact hrange hsight.2.2

theorem firstNearest_of_inSight (h : w.ExactPlayers m)
    (hp : w.player (nearest (w.disArray m)) = some p) (hsight : InSight m p) :
    w.FirstNearest m (nearest (w.disArray m)) p := by
  have hself := disArray_of_inSight hp hsight
  have hscan := nearest_eq (w.disArray_nonneg m)
  refine ⟨⟨hp,hsight.1⟩,fun d q hq => ?_⟩
  have hle := nearest_le (w.disArray_nonneg m) d
  rw [hself, disArray_living h hq] at hle
  have hrange := hsight.2.2
  constructor
  · split_ifs at hle
    · exact hle
    · omega
  · intro hlt
    have hfirst : w.disArray m (nearest (w.disArray m)) < w.disArray m d := by
      rw [hscan] at hlt ⊢
      exact FirstMin.scan_lt slots_sorted (fun _ _ => Fin.zero_le _) (mem_slots d) hlt
    rw [hself, disArray_living h hq] at hfirst
    split_ifs at hfirst
    · exact hfirst
    · omega

/-- IdleState::Execute acquires the right target and queues one event. -/
theorem idle_acquires (draw now : ℕ) (hm : w.monster i = some m) (hs : m.state = .idleState)
    (hhp : 0 < m.healthPoint) (h : w.ExactPlayers m) :
    ∃ w' m', w.monsterUpdate i draw now = .ok w' ∧
      w'.monster = Function.update w.monster i (some m') ∧ w.Acquires m m' ∧
      w'.timerQueue = w.timerQueue ++ [⟨.evMonster i,now+1000,0,0⟩] := by
  have hidle : w.monsterUpdate i draw now = w.watchOut i m now := by
    rw [monsterUpdate_some hm]
    simp only [monsterExecute]
    rw [hs]
    simp only [executeIdleState, changeIf]
    rw [if_neg (not_le.mpr hhp)]
    rfl
  rw [hidle]
  by_cases hsight : w.SomeoneInSight m
  · obtain ⟨p,m',hp,hin,hok,htarget,hstate,hmon⟩ := watchOut_someone i now hsight
    have hleft : m'.state ≠ .idleState := by
      rw [hstate]
      split_ifs <;> simp
    refine ⟨_,m',hok,rfl,⟨?_,fun hback => absurd hback hleft,fun _ => ?_⟩,rfl⟩
    · exact iff_of_true hleft ((someoneInSight_iff h).mp hsight)
    · refine ⟨_,p,htarget,firstNearest_of_inSight h hp hin,?_⟩
      rw [hmon, hstate]
      split_ifs <;> rfl
  · obtain ⟨m',hok,hstate,hmon⟩ := watchOut_nobody i now hsight
    have hstay : m'.state = .idleState := hstate.trans hs
    refine ⟨_,m',hok,rfl,⟨?_,fun _ => hmon,fun hleft => absurd hstay hleft⟩,rfl⟩
    exact iff_of_false (not_not_intro hstay) fun hnear => hsight ((someoneInSight_iff h).mpr hnear)

end Idle

/-- A goblin at the origin, which knows no player. -/
def guardian : CMonster ℚ := CMonster.initializeMonster ⟨0,0,0⟩ CMonster.objGoblin

/-- Nobody in slot 0, a dead player next to the goblin, and two at the same distance. -/
def camp : World ℚ where
  __ := (empty : World ℚ)
  monster i := if i = 0 then some guardian else none
  player i :=
    if i = 1 then some { zeroPlayer with pos := ⟨10,0,0⟩ }
    else if i = 2 then some { zeroPlayer with pos := ⟨300,400,0⟩, isAlive := true }
    else if i = 3 then some { zeroPlayer with pos := ⟨500,0,0⟩, isAlive := true }
    else none

theorem exactPlayers_camp : camp.ExactPlayers guardian := by
  intro c p hp
  have hcase : p.pos = ⟨10,0,0⟩ ∨ p.pos = ⟨300,400,0⟩ ∨ p.pos = ⟨500,0,0⟩ := by
    dsimp only [camp] at hp
    split_ifs at hp <;> cases hp <;> simp
  rcases hcase with hpos | hpos | hpos <;> rw [hpos]
  · exact ⟨0,0,10,0,⟨rfl,rfl⟩,⟨rfl,rfl⟩,by decide⟩
  · exact ⟨0,0,300,400,⟨rfl,rfl⟩,⟨rfl,rfl⟩,by decide⟩
  · exact ⟨0,0,500,0,⟨rfl,rfl⟩,⟨rfl,rfl⟩,by decide⟩

theorem idle_acquires_camp : ∃ w' m', camp.monsterUpdate 0 0 0 = .ok w' ∧
    w'.monster = Function.update camp.monster 0 (some m') ∧ camp.Acquires guardian m' ∧
    w'.timerQueue = [⟨.evMonster 0,1000,0,0⟩] :=
  idle_acquires 0 0 rfl rfl (by decide) exactPlayers_camp

section Chase
variable [FloatArith F]

theorem playerDir_of_player (hp : w.player c = some p) :
    w.playerDir m c = getDistance m.pos p.pos := by
  simp only [playerDir]
  rw [hp]

theorem playerDir_of_none (hp : w.player c = none) : w.playerDir m c = 999999999 := by
  simp only [playerDir]
  rw [hp]

/-- A living player is nearer than an empty slot. -/
theorem playerDir_lt_of_none (hc : w.Living c p) (ht : w.player t = none) :
    w.playerDir m c < w.playerDir m t := by
  have hle := getDistance_le_activityRange m.pos p.pos
  rw [playerDir_of_player hc.1, playerDir_of_none ht]
  unfold activityRange at hle
  omega

variable [ExactFloat F]

/-- With a target the second loop keeps the first player of least distance. -/
theorem foldlM_closer (h : w.ExactPlayers m) (t : Slot) (l : List Slot) :
    l.foldlM (w.closer m) (some t) = .ok (some (FirstMin.scan (w.playerDir m) t
      (l.filter fun c => (w.player c).any CPlayer.isAlive))) := by
  induction l generalizing t with
  | nil => rfl
  | cons c l ih =>
    rw [List.foldlM_cons]
    cases hc : w.player c with
    | none =>
      have hstep : w.closer m (some t) c = .ok (some t) := by
        simp only [closer]
        rw [hc]
      rw [hstep, List.filter_cons_of_neg (by simp [hc])]
      exact ih t
    | some p =>
      cases halive : p.isAlive with
      | false =>
        have hstep : w.closer m (some t) c = .ok (some t) := by
          simp only [closer]
          simp only [hc, halive, Bool.not_false, if_true]
        rw [hstep, List.filter_cons_of_neg (by simp [hc, halive])]
        exact ih t
      | true =>
        have hpos : ¬ w.playerDir m c < 0 := by
          rw [playerDir_of_player hc]
          exact not_lt.mpr (h c p hc).nonneg
        have hstep : w.closer m (some t) c =
            .ok (some (FirstMin.cheaper (w.playerDir m) t c)) := by
          simp only [closer]
          simp only [hc, halive, Bool.not_true, Bool.false_eq_true, if_false, if_neg hpos]
          rfl
        rw [hstep, List.filter_cons_of_pos (by simp [hc, halive])]
        exact ih _

theorem updateTarget_eq (h : w.ExactPlayers m) (ht : m.target = some t) :
    w.updateTarget m =
      .ok { m with target := some (FirstMin.scan (w.playerDir m) t w.livingSlots) } := by
  simp only [updateTarget]
  rw [ht, foldlM_closer h]
  rfl

/-- UpdateTarget follows the nearest living player if and only if the target so far is not a dead
player that is as near. -/
theorem follows_iff (h : w.ExactPlayers m) (ht : m.target = some t)
    (hliving : ∃ c p, w.Living c p) : w.Follows m ↔ ¬ w.Haunted m t := by
  have hok := updateTarget_eq h ht
  constructor
  · rintro ⟨m',u,q,hm',hu,hq,-⟩ ⟨p,hp,hdead,hle⟩
    cases hok.symm.trans hm'
    cases hu
    -- nobody was cheaper than the dead target
    cases FirstMin.scan_eq_or_lt (w.playerDir m) t w.livingSlots with
    | inl hsame =>
      rw [hsame] at hq
      cases hp.symm.trans hq.1
      exact hdead hq.2
    | inr hlt =>
      rw [playerDir_of_player hq.1, playerDir_of_player hp] at hlt
      exact absurd (hle _ q hq) (not_le.mpr hlt)
  · intro hnot
    have hleast : ∀ c q, w.Living c q →
        w.playerDir m (FirstMin.scan (w.playerDir m) t w.livingSlots) ≤ getDistance m.pos q.pos := by
      intro c q hq
      rw [← playerDir_of_player hq.1]
      exact FirstMin.scan_le (mem_livingSlots.mpr ⟨q,hq⟩)
    have hfound : ∃ p, w.Living (FirstMin.scan (w.playerDir m) t w.livingSlots) p := by
      cases FirstMin.scan_eq_or_mem (w.playerDir m) t w.livingSlots with
      | inr hmem => exact mem_livingSlots.mp hmem
      | inl hsame =>
        rw [hsame] at hleast ⊢
        cases hp : w.player t with
        | none =>
          obtain ⟨c,q,hq⟩ := hliving
          have hlt := playerDir_lt_of_none (m := m) hq hp
          rw [playerDir_of_player hq.1] at hlt
          exact absurd (hleast c q hq) (not_le.mpr hlt)
        | some p =>
          by_contra hdead
          rw [playerDir_of_player hp] at hleast
          exact hnot ⟨p,hp,fun halive => hdead ⟨p,hp,halive⟩,hleast⟩
    obtain ⟨p,hp⟩ := hfound
    refine ⟨_,_,p,hok,rfl,hp,fun c q hq => ?_⟩
    rw [← playerDir_of_player hp.1]
    exact hleast c q hq

end Chase

/-- The goblin of the camp when it has killed the player next to it. -/
def victor : CMonster ℚ := { guardian with target := some 1, state := .chaseState, monState := .mChase }

/-- One whose target has left. -/
def deserted : CMonster ℚ := { victor with target := some 7 }

theorem living_camp : ∃ c p, camp.Living c p := ⟨2,_,rfl,rfl⟩

theorem deserted_follows : camp.Follows deserted ↔ ¬ camp.Haunted deserted 7 :=
  follows_iff exactPlayers_camp rfl living_camp

/-- It keeps its eyes on the dead. -/
theorem victor_stays : ∃ (w : World ℚ) (m : CMonster ℚ), w.ExactPlayers m ∧ m.target.isSome ∧
    (∃ c p, w.Living c p) ∧ ¬ w.Follows m := by
  refine ⟨camp,victor,exactPlayers_camp,rfl,living_camp,?_⟩
  rintro ⟨m',t,p,hok,htarget,⟨hp,halive⟩,-⟩
  have heval : (camp.updateTarget victor).toOption.any (fun m => m.target = some 1) = true := by
    decide +kernel
  rw [hok] at heval
  have hone : m'.target = some 1 := of_decide_eq_true heval
  cases htarget.symm.trans hone
  cases hp
  cases halive

end World

end LastHero
