import LastHero.Combat.Vitality

/-! What levels and Berserk add to the stats of a player. BerserkOff takes back what Berserk has
added, but a level in between sets the magic points to their maximum, bonus or not. -/
namespace LastHero
variable {F : Type}

/-- What happens to a player after its login. -/
inductive StatsInput (F : Type)
  | attack (a : AreaAttack) (now : ℕ)
  | timer (k now : ℕ)
  /-- whatever becomes of the rest of the world -/
  | world (v : World F)

namespace CPlayer

/-- What levels and Berserk change. -/
def account (p : CPlayer F) : ℤ × ℤ × ℤ × ℤ × ℤ × Bool :=
  (p.level,p.atkPoint,p.maxHP,p.maxMP,p.magicPoint,p.isBerserk)

/-- The bonus of a Berserk that is not over. -/
def bonus (p : CPlayer F) : ℤ := if p.isBerserk then berserkBonus else 0

/-- The stats of a login, with what levels and Berserk have added since. -/
structure Sums (r : World.Row) (p : CPlayer F) : Prop where
  atkPoint : p.atkPoint = initialAtkPoint+levelUpBonus*(p.level-r.level)+p.bonus
  maxHP : p.maxHP = r.hp+levelUpBonus*(p.level-r.level)
  maxMP : p.maxMP = r.mp+levelUpBonus*(p.level-r.level)
  magicPoint : p.magicPoint = p.maxMP+p.bonus

/-- A player after some levels, or none. -/
structure Earned (p q : CPlayer F) : Prop where
  level : p.level ≤ q.level
  atkPoint : q.atkPoint = p.atkPoint+levelUpBonus*(q.level-p.level)
  maxHP : q.maxHP = p.maxHP+levelUpBonus*(q.level-p.level)
  maxMP : q.maxMP = p.maxMP+levelUpBonus*(q.level-p.level)
  magicPoint : q.magicPoint = if q.level = p.level then p.magicPoint else q.maxMP
  isBerserk : q.isBerserk = p.isBerserk

variable {p q r : CPlayer F}

theorem isBerserk_congr (h : q.account = p.account) : q.isBerserk = p.isBerserk :=
  congrArg (fun a => a.2.2.2.2.2) h

theorem Earned.of_account (h : q.account = p.account) : Earned p q := by
  simp only [account, Prod.mk.injEq] at h
  obtain ⟨hlevel,hatk,hhp,hmp,hmagic,hberserk⟩ := h
  refine ⟨hlevel.ge,?_,?_,?_,?_,hberserk⟩
  · rw [hatk, hlevel, sub_self, mul_zero, add_zero]
  · rw [hhp, hlevel, sub_self, mul_zero, add_zero]
  · rw [hmp, hlevel, sub_self, mul_zero, add_zero]
  · rw [if_pos hlevel, hmagic]

theorem Earned.trans (h : Earned p q) (h' : Earned q r) : Earned p r where
  level := h.level.trans h'.level
  atkPoint := by rw [h'.atkPoint, h.atkPoint]; ring
  maxHP := by rw [h'.maxHP, h.maxHP]; ring
  maxMP := by rw [h'.maxMP, h.maxMP]; ring
  magicPoint := by
    have hlow := h.level
    have hhigh := h'.level
    rw [h'.magicPoint]
    by_cases hqr : r.level = q.level
    · rw [if_pos hqr, h.magicPoint, hqr]
      split_ifs
      · rfl
      · rw [h'.maxMP, hqr, sub_self, mul_zero, add_zero]
    · rw [if_neg hqr, if_neg (by omega)]
  isBerserk := h'.isBerserk.trans h.isBerserk

theorem earned_rewarded (exp : ℤ) (p : CPlayer F) : Earned p (p.rewarded exp) := by
  simp only [rewarded]
  split_ifs
  · have hlevel : ((p.gainExp exp).gainLevel).level = p.level+1 := rfl
    refine ⟨?_,?_,?_,?_,?_,rfl⟩
    · rw [hlevel]
      exact (lt_add_one _).le
    · rw [hlevel, add_sub_cancel_left, mul_one]
      rfl
    · rw [hlevel, add_sub_cancel_left, mul_one]
      rfl
    · rw [hlevel, add_sub_cancel_left, mul_one]
      rfl
    · rw [hlevel, if_neg (lt_add_one _).ne']
      rfl
  · exact .of_account rfl

/-- The sums come out after some levels, unless they came during a Berserk. -/
theorem Earned.sums_iff {r : World.Row} (h : Earned p q) (hp : p.Sums r) :
    q.Sums r ↔ (p.isBerserk = true → q.level = p.level) := by
  have hbonus : q.bonus = p.bonus := by
    simp only [bonus]
    rw [h.isBerserk]
  constructor
  · intro hq hberserk
    by_contra hlevel
    have hmagic := h.magicPoint
    rw [if_neg hlevel, hq.magicPoint, bonus, h.isBerserk, if_pos hberserk] at hmagic
    exact absurd (add_eq_left.mp hmagic) (by decide)
  · intro hlevel
    refine ⟨?_,?_,?_,?_⟩
    · rw [h.atkPoint, hp.atkPoint, hbonus]
      ring
    · rw [h.maxHP, hp.maxHP]
      ring
    · rw [h.maxMP, hp.maxMP]
      ring
    · rw [h.magicPoint, hbonus]
      split_ifs with hsame
      · rw [hp.magicPoint, h.maxMP, hsame, sub_self, mul_zero, add_zero]
      · have hcalm : p.isBerserk = false := by
          rw [← Bool.not_eq_true]
          exact fun hberserk => hsame (hlevel hberserk)
        rw [bonus, hcalm, if_neg Bool.false_ne_true, add_zero]

/-- Berserk, apart from its blows. -/
def enraged (p : CPlayer F) : CPlayer F :=
  { p with
    isBerserk := true
    atkPoint := p.atkPoint+berserkBonus
    magicPoint := p.magicPoint+berserkBonus }

theorem Earned.enraged_account (h : Earned p q) (hlevel : q.level = p.level) :
    q.enraged.account = p.enraged.account := by
  have hmagic := h.magicPoint
  rw [if_pos hlevel] at hmagic
  have hatk := h.atkPoint
  have hhp := h.maxHP
  have hmp := h.maxMP
  rw [hlevel, sub_self, mul_zero, add_zero] at hatk hhp hmp
  simp only [account, enraged]
  rw [hlevel, hatk, hhp, hmp, hmagic]

theorem Sums.enraged {r : World.Row} (h : p.Sums r) (hcalm : p.isBerserk = false) :
    p.enraged.Sums r := by
  have hbonus : p.bonus = 0 := by rw [bonus, hcalm, if_neg Bool.false_ne_true]
  have hatk := h.atkPoint
  have hmagic := h.magicPoint
  rw [hbonus, add_zero] at hatk hmagic
  refine ⟨?_,h.maxHP,h.maxMP,?_⟩
  · exact congrArg (· + berserkBonus) hatk
  · exact congrArg (· + berserkBonus) hmagic

/-- BerserkOff undoes Berserk. -/
theorem Sums.berserkOff {r : World.Row} (h : p.Sums r) (hberserk : p.isBerserk = true) :
    p.berserkOff.Sums r := by
  have hbonus : p.bonus = berserkBonus := by rw [bonus, hberserk, if_pos rfl]
  have hatk := h.atkPoint
  have hmagic := h.magicPoint
  rw [hbonus] at hatk hmagic
  refine ⟨?_,h.maxHP,h.maxMP,?_⟩
  · change p.atkPoint-berserkBonus = _+0
    rw [hatk, add_sub_cancel_right, add_zero]
    rfl
  · change p.magicPoint-berserkBonus = _+0
    rw [hmagic, add_sub_cancel_right, add_zero]
    rfl

theorem Sums.congr {r : World.Row} (h : p.Sums r) (hq : q.account = p.account) : q.Sums r := by
  refine ((Earned.of_account hq).sums_iff h).mpr fun _ => ?_
  exact congrArg Prod.fst hq

end CPlayer

namespace World
variable {w w' w'' : World F} {id uid : Slot} {p q : CPlayer F}

/-- The ends of Berserk that the player of a slot itself has queued. -/
def due (id : Slot) (w : World F) : ℕ :=
  w.timerQueue.countP fun e => e.key = .off .evBerserk id ∧ e.era = w.era id

/-- What has nothing to do with the stats of a player. -/
structure Beside (id : Slot) (w w' : World F) : Prop where
  account : (w'.player id).map CPlayer.account = (w.player id).map CPlayer.account
  due : w'.due id = w.due id

instance (id : Slot) (w w' : World F) : Decidable (Beside id w w') :=
  decidable_of_iff (_ ∧ _) ⟨fun h => ⟨h.1,h.2⟩,fun h => ⟨h.account,h.due⟩⟩

/-- TimerThread takes the end of a Berserk from before the login. -/
def Stale (id : Slot) (w : World F) (k : ℕ) : Prop :=
  ∃ ev ∈ w.timerQueue[k]?, ev.key = .off .evBerserk id ∧ ev.era ≠ w.era id

instance (id : Slot) (w : World F) (k : ℕ) : Decidable (w.Stale id k) :=
  inferInstanceAs (Decidable (∃ ev ∈ w.timerQueue[k]?, ev.key = .off .evBerserk id ∧ ev.era ≠ w.era id))

/-- The attacks of a player after its login and the ends of its Berserks, and what happens
besides. -/
def statsNext [FloatArith F] (id : Slot) (w : World F) : StatsInput F → Option (World F)
  | .attack a now => (w.onPlayer id fun p w => a.perform id p now w).toOption
  | .timer k now => if w.Stale id k then none else w.timerThread k now
  | .world v => if Beside id w v then some v else none

/-- The stats of the player come to what they should be. -/
def AddsUp (id : Slot) (r : Row) (w : World F) : Prop := ∃ p, w.player id = some p ∧ p.Sums r

/-- An attack of a player in Berserk is worth a level. -/
def LevelsInBerserk [FloatArith F] (id : Slot) (w : World F) : StatsInput F → Prop
  | .attack a _ => ∃ p, w.player id = some p ∧ p.isBerserk = true ∧ a.Ready p ∧
      a.Levels p w monsterIds
  | _ => False

/-- One end of Berserk is queued during a Berserk, and none otherwise. -/
def Owes (id : Slot) (w : World F) : Prop :=
  ∃ p, w.player id = some p ∧ w.due id = p.isBerserk.toNat

/-- Events belong to players that there are or were. -/
def Dated (w : World F) : Prop := ∀ e ∈ w.timerQueue, ∀ kind i, e.key = .off kind i → e.era ≤ w.era i

/-- The player gets some levels, or none. -/
def Earns (id : Slot) (w w' : World F) : Prop :=
  ∀ p, w.player id = some p → ∃ q, w'.player id = some q ∧ CPlayer.Earned p q

theorem Earns.of_account (h : (w'.player id).map CPlayer.account = (w.player id).map CPlayer.account) :
    Earns id w w' := by
  intro p hp
  rw [hp, Option.map_some] at h
  obtain ⟨q,hq,hsame⟩ := Option.map_eq_some_iff.mp h
  exact ⟨q,hq,.of_account hsame⟩

theorem Earns.refl (w : World F) : Earns id w w := .of_account rfl

theorem Earns.trans (h : Earns id w w') (h' : Earns id w' w'') : Earns id w w'' := by
  intro p hp
  obtain ⟨q,hq,hpq⟩ := h p hp
  obtain ⟨r,hr,hqr⟩ := h' q hq
  exact ⟨r,hr,hpq.trans hqr⟩

theorem Earns.modifyPlayer {f : CPlayer F → CPlayer F} (hf : ∀ p, (f p).account = p.account)
    (h : Earns id w w') : Earns id w (w'.modifyPlayer uid f) :=
  h.trans (.of_account (map_modifyPlayer hf w' uid id))

theorem Earns.sendTo {l : List Slot} {pkt : Packet F} (h : Earns id w w') :
    Earns id w (w'.sendTo l pkt) := h

theorem Earns.addTimer {key : EventKey} {t : ℕ} {target : ℤ} (h : Earns id w w') :
    Earns id w (w'.addTimer key t target) := h

theorem due_addTimer (kind : OffEvent) (t : ℕ) (w : World F) :
    (w.addTimer (.off kind uid) t 0).due id =
      w.due id+if kind = .evBerserk ∧ uid = id then 1 else 0 := by
  unfold due addTimer
  rw [List.countP_append, List.countP_singleton]
  by_cases hown : kind = .evBerserk ∧ uid = id
  · obtain ⟨rfl,rfl⟩ := hown
    simp
  · simp [hown]

/-- Only Berserk queues its end. -/
theorem effects_due {k : Option OffEvent} (hk : id = uid → k ≠ some .evBerserk)
    (h : Effects k uid w w') : w'.due id = w.due id ∧ w'.era = w.era := by
  refine h.lift (R := fun w w' => w'.due id = w.due id ∧ w'.era = w.era) (fun _ => ⟨rfl,rfl⟩)
    (fun h h' => ⟨h'.1.trans h.1,h'.2.trans h.2⟩) fun w w' h => ?_
  cases h with
  | timer kind t hk' =>
    refine ⟨?_,rfl⟩
    have hne : ¬ (kind = .evBerserk ∧ uid = id) := by
      rintro ⟨rfl,rfl⟩
      exact hk rfl hk'
    rw [due_addTimer, if_neg hne, add_zero]
  | levelUp =>
    simp only [levelUp]
    split
    · exact ⟨rfl,rfl⟩
    · exact ⟨rfl,rfl⟩
  | send | record | player | monster | boss | quary => exact ⟨rfl,rfl⟩

/-- Berserk after its blows. -/
theorem enrage (hp : w.player id = some p) (he : Earns id w w') (hd : w'.due id = w.due id) (t : ℕ) :
    ∃ q, ((w'.modifyPlayer id CPlayer.enraged).addTimer (.off .evBerserk id) t 0).player id =
      some q.enraged ∧ CPlayer.Earned p q ∧
        ((w'.modifyPlayer id CPlayer.enraged).addTimer (.off .evBerserk id) t 0).due id =
          w.due id+1 := by
  obtain ⟨q,hq,hearned⟩ := he p hp
  refine ⟨q,modifyPlayer_self CPlayer.enraged hq,hearned,?_⟩
  rw [due_addTimer, if_pos ⟨rfl,rfl⟩]
  exact congrArg (· + 1) hd

section Attacks
variable [FloatArith F]

theorem earns_strike (i : MonsterId) (m : CMonster F) (damage : ℤ) (w : World F) :
    Earns id w (w.strike id i m damage) := by
  intro p hp
  have hplayer := congrFun (struck_strike i m damage hp).player id
  rw [Function.update_self] at hplayer
  refine ⟨_,hplayer,?_⟩
  split_ifs
  · exact p.earned_rewarded m.exp
  · exact .of_account rfl

theorem earns_faceFirst (m : CMonster F) (s : World F × Bool) :
    Earns id s.1 (faceFirst id m s).1 := by
  have hturn : Earns id s.1 (s.1.modifyPlayer id fun p =>
      { p with rotation := { p.rotation with y := getDegree p.pos m.pos } }) :=
    (Earns.refl s.1).modifyPlayer fun _ => rfl
  unfold faceFirst
  split_ifs
  · exact .refl _
  · dsimp only
    split
    · exact hturn
    · exact hturn.sendTo

theorem earns_sweep {k : Sweep F} (hbefore : ∀ m s, Earns id s.1 (k.before id m s).1)
    (hafter : ∀ w, Earns id w (k.after id w)) (w : World F) : Earns id w (w.sweep k id) := by
  have hone : ∀ s i, Earns id s.1 (sweepOne k id s i).1 := by
    intro s i
    simp only [sweepOne]
    split
    · split_ifs
      · exact .refl _
      · exact .refl _
      · exact ((hbefore _ s).trans (earns_strike i _ _ _)).trans (hafter _)
      · exact .refl _
    · exact .refl _
  rw [sweep, sweepOver_eq_foldl]
  exact KeyedFold.foldl_related (R := fun s t : World F × Bool => Earns id s.1 t.1)
    (fun s => .refl s.1) .trans hone monsterIds (w,false)

theorem earns_attck (p : CPlayer F) (now : ℕ) (w : World F) : Earns id w (w.attck id p now) := by
  simp only [attck]
  split_ifs
  · exact .refl w
  · exact .refl w
  · have hready : Earns id w ((w.modifyPlayer id fun q =>
        { q with isAttack := true, comboCnt := nextCombo p now }).broadcast
          (.scAttack id (nextCombo p now))) := by
      apply Earns.sendTo
      exact (Earns.refl w).modifyPlayer fun _ => rfl
    have hsweep := hready.trans (earns_sweep (k := attckSweep) earns_faceFirst .refl _)
    apply Earns.addTimer
    refine hsweep.trans (.of_account ?_)
    rw [attckBoss_player]

theorem earns_assassinate (p : CPlayer F) (now : ℕ) (w : World F) :
    Earns id w (w.assassinate id p now) := by
  simp only [assassinate]
  split_ifs
  · exact .refl w
  · have hsent : Earns id w (w.broadcast (.scAssassin id)) := (Earns.refl w).sendTo
    have hshow : ∀ v : World F, Earns id v (assassinateSweep.after id v) :=
      fun v => (Earns.refl v).modifyPlayer fun _ => rfl
    apply Earns.addTimer
    exact hsent.trans (earns_sweep (k := assassinateSweep) (fun _ s => .refl s.1) hshow _)

theorem berserk_eq (h : AreaAttack.berserk.Ready p) (id : Slot) (now : ℕ) (w : World F) :
    w.berserk id p now = (((w.sendView p.viewList (.scBerserk id)).sweep berserkSweep id).modifyPlayer
      id CPlayer.enraged).addTimer (.off .evBerserk id) (now+15000) 0 := by
  obtain ⟨hcalm,hsword⟩ := h
  simp only [berserk]
  rw [hcalm, if_neg Bool.false_ne_true, if_neg (not_not.mpr hsword)]
  rfl

theorem earns_berserkSweep (p : CPlayer F) (w : World F) :
    Earns id w ((w.sendView p.viewList (.scBerserk id)).sweep berserkSweep id) := by
  have hsent : Earns id w (w.sendView p.viewList (.scBerserk id)) := (Earns.refl w).sendTo
  exact hsent.trans (earns_sweep (k := berserkSweep) (fun _ s => .refl s.1) .refl _)

theorem effects_berserkSweep (p : CPlayer F) (w : World F) : Effects (some .evAtkOff) id w
    ((w.sendView p.viewList (.scBerserk id)).sweep berserkSweep id) :=
  (Effects.refl w).sendTo.sweep rfl (fun _ s => ⟨.refl s.1,rfl⟩) fun w => .refl w

/-- A Berserk, with the levels of its own blows. -/
theorem berserk_spec (hready : AreaAttack.berserk.Ready p) (hp : w.player id = some p) (now : ℕ) :
    ∃ q, (w.berserk id p now).player id = some q.enraged ∧ CPlayer.Earned p q ∧
      (w.berserk id p now).due id = w.due id+1 := by
  rw [berserk_eq hready]
  have hdue : ((w.sendView p.viewList (.scBerserk id)).sweep berserkSweep id).due id = w.due id :=
    (effects_due (by simp) (effects_berserkSweep p w)).1
  exact enrage hp (earns_berserkSweep p w) hdue (now+15000)

/-- An attack keeps the sums unless it is worth a level during a Berserk. -/
theorem attack_step {a : AreaAttack} {now : ℕ} {r : Row} (hp : w.player id = some p)
    (hsums : p.Sums r) (howes : w.due id = p.isBerserk.toNat) :
    ∃ q, (a.perform id p now w).player id = some q ∧
      (a.perform id p now w).due id = q.isBerserk.toNat ∧
        (q.Sums r ↔ ¬ LevelsInBerserk id w (.attack a now)) := by
  have hlevels : LevelsInBerserk id w (.attack a now) ↔
      p.isBerserk = true ∧ a.Ready p ∧ a.Levels p w monsterIds := by
    constructor
    · rintro ⟨p',hp',h⟩
      cases hp.symm.trans hp'
      exact h
    · exact fun h => ⟨p,hp,h⟩
  rw [hlevels]
  by_cases hready : a.Ready p
  · have hearns : a ≠ .berserk → Earns id w (a.perform id p now w) ∧
        (a.perform id p now w).due id = w.due id := by
      intro hne
      cases a with
      | attck =>
        refine ⟨earns_attck p now w,?_⟩
        exact (effects_due (by simp) (effects_attck p now w)).1
      | berserk => exact absurd rfl hne
      | assassinate =>
        refine ⟨earns_assassinate p now w,?_⟩
        exact (effects_due (by simp) (effects_assassinate p now w)).1
    by_cases hberserk : a = .berserk
    · subst hberserk
      obtain ⟨q,hq,hearned,hdue⟩ := berserk_spec hready hp now
      have hcalm : p.isBerserk = false := hready.1
      refine ⟨q.enraged,hq,?_,iff_of_true ?_ fun h => ?_⟩
      · change (w.berserk id p now).due id = 1
        rw [hdue, howes, hcalm]
        rfl
      · refine CPlayer.Sums.enraged ((hearned.sums_iff hsums).mpr fun h => ?_)
          (hearned.isBerserk.trans hcalm)
        rw [hcalm] at h
        cases h
      · rw [hcalm] at h
        cases h.1
    · obtain ⟨hearns,hdue⟩ := hearns hberserk
      obtain ⟨q,hq,hearned⟩ := hearns p hp
      obtain ⟨q',hq',hworth⟩ := perform_level hready hp now
      cases hq.symm.trans hq'
      have hlow := hearned.level
      refine ⟨q,hq,by rw [hdue, howes, hearned.isBerserk],?_⟩
      rw [hearned.sums_iff hsums, hworth, and_iff_right hready, not_and, not_lt]
      refine forall_congr' fun _ => ?_
      omega
  · rw [AreaAttack.perform_of_not_ready hready]
    exact ⟨p,hp,howes,iff_of_true hsums fun h => hready h.2.1⟩

end Attacks

/-- What a count over the pending events loses with the event that TimerThread takes. -/
theorem Due.due {k now : ℕ} {ev : Event} (h : w.Due k now ev) (id : Slot) : w.due id =
    (w.setTimerQueue (w.timerQueue.eraseIdx k)).due id +
      if ev.key = .off .evBerserk id ∧ ev.era = w.era id then 1 else 0 := by
  have hcount := h.countP fun e => e.key = .off .evBerserk id ∧ e.era = w.era id
  simp only [decide_eq_true_eq] at hcount
  exact hcount

/-- The ends of Berserk keep the sums, and other ends of skills have nothing to do with them. -/
theorem timer_step {k now : ℕ} {r : Row} (hp : w.player id = some p) (hsums : p.Sums r)
    (howes : w.due id = p.isBerserk.toNat) (hfresh : ¬ w.Stale id k)
    (h : w.timerThread k now = some w') :
    ∃ q, w'.player id = some q ∧ w'.due id = q.isBerserk.toNat ∧ q.Sums r := by
  obtain ⟨ev,hdue,rfl⟩ := timerThread_spec h
  have hcount := hdue.due id
  simp only [timerEvent]
  cases hkey : ev.key with
  | evBoss | evMonster =>
    rw [hkey, if_neg (by simp), add_zero] at hcount
    exact ⟨p,hp,hcount.symm.trans howes,hsums⟩
  | off kind i =>
    by_cases hi : i = id
    · subst hi
      refine ⟨p.skillOff kind now,modifyPlayer_self (w := w.setTimerQueue _) _ hp,?_⟩
      by_cases hkind : kind = .evBerserk
      · subst hkind
        have hera : ev.era = w.era i := by
          by_contra hera
          exact hfresh ⟨ev,hdue.1,hkey,hera⟩
        rw [if_pos ⟨hkey,hera⟩, howes] at hcount
        have hberserk : p.isBerserk = true := by
          cases hb : p.isBerserk with
          | true => rfl
          | false =>
            rw [hb] at hcount
            exact absurd hcount (Nat.succ_ne_zero _).symm
        rw [hberserk] at hcount
        exact ⟨(Nat.succ.inj hcount).symm,hsums.berserkOff hberserk⟩
      · rw [hkey, if_neg (by simp [hkind]), add_zero] at hcount
        have haccount : (p.skillOff kind now).account = p.account := by
          cases kind with
          | evBerserk => exact absurd rfl hkind
          | evAtkOff | evGuardOff | evEvadeOff | evAssOff => rfl
        rw [CPlayer.isBerserk_congr haccount]
        exact ⟨hcount.symm.trans howes,hsums.congr haccount⟩
    · rw [hkey, if_neg (by simp [hi]), add_zero] at hcount
      exact ⟨p,(modifyPlayer_of_ne (w := w.setTimerQueue _) (Ne.symm hi)).trans hp,
        hcount.symm.trans howes,hsums⟩

theorem due_eq_zero (h : Dated w) (ht : w'.timerQueue = w.timerQueue) (hera : w.era id < w'.era id) :
    w'.due id = 0 := by
  simp only [due]
  rw [List.countP_eq_zero, ht]
  intro e he hown
  obtain ⟨hkey,hnow⟩ := of_decide_eq_true hown
  have hold := h e he _ id hkey
  omega

theorem Dated.mono (h : Dated w) (ht : ∀ e ∈ w'.timerQueue, e ∈ w.timerQueue)
    (he : w.era ≤ w'.era) : Dated w' := fun e hmem kind i hkey => (h e (ht e hmem) kind i hkey).trans (he i)

section Runs
variable [FloatArith F]

theorem dated_start : Dated (start : World F) := fun e he kind i hkey =>
  absurd hkey (start_timers e he kind i)

theorem dated_next {a : Input F} (h : Dated w) (hstep : w.next a = some w') : Dated w' := by
  have hkeeps : Keeps w w' → Dated w' := by
    intro hk e he kind i hkey
    obtain ⟨new,ht,hnew⟩ := hk.timers
    rw [ht, List.mem_append] at he
    rw [hk.era]
    cases he with
    | inl he => exact h e he kind i hkey
    | inr he => exact (hnew e he kind i hkey).le
  cases a with
  | packet uid buf now => exact hkeeps (keeps_next (a := .packet uid buf now) trivial hstep)
  | login uid id password character =>
    exact hkeeps (keeps_next (a := .login uid id password character) trivial hstep)
  | levelUp uid => exact hkeeps (keeps_next (a := .levelUp uid) trivial hstep)
  | accept heap =>
    cases hstep
    simp only [accept]
    split
    · exact h
    · exact h.mono (fun _ => id) (era_le_renew _ _)
  | disconnect uid =>
    obtain ⟨-,-,-,ht,-,-,he⟩ := disconnect_spec (toOption_eq_some hstep)
    exact h.mono (fun _ => (ht ▸ ·)) (he ▸ era_le_renew uid w)
  | dbTake outcome heap =>
    obtain rfl | ⟨ev,queue,-,-,rfl | ⟨queue',rfl⟩ | ⟨exp,rfl⟩⟩ := dbTake_cases (toOption_eq_some hstep)
    · exact h
    · refine h.mono ?_ (era_le_ensurePlayer ev.userId heap (w.setQuaryQueue queue))
      have ht := ensurePlayer_timerQueue ev.userId heap (w.setQuaryQueue queue)
      exact fun e he => ht ▸ he
    · exact h
    · exact h
  | dbFinish outcome heap now =>
    cases hstep
    simp only [dbFinish]
    split
    · exact h
    · rename_i ev _
      cases outcome with
      | row r =>
        have ht := loadPlayer_timerQueue ev.userId r heap now (w.setHandling none)
        refine h.mono (fun e he => ht ▸ he) ?_
        exact (era_le_ensurePlayer ev.userId heap (w.setHandling none)).trans
          (era_le_renew ev.userId ((w.setHandling none).ensurePlayer ev.userId heap))
      | fail | noRow => exact h
  | timer k now =>
    obtain ⟨ev,-,rfl⟩ := timerThread_spec hstep
    simp only [timerEvent]
    split
    all_goals exact h.mono (fun _ => List.mem_of_mem_eraseIdx) fun _ => le_rfl

theorem era_lt_loadPlayer (id : Slot) (r : Row) (heap : CPlayer F) (now : ℕ) (w : World F) :
    w.era id < (w.loadPlayer id r heap now).era id := by
  have hera : (w.loadPlayer id r heap now).era id = (w.ensurePlayer id heap).era id+1 :=
    Function.update_self ..
  rw [hera]
  exact Nat.lt_succ_of_le (era_le_ensurePlayer id heap w id)

theorem statsNext_attack (a : AreaAttack) (now : ℕ) (hp : w.player id = some p) :
    statsNext id w (.attack a now) = some (a.perform id p now w) := by
  dsimp only [statsNext]
  rw [onPlayer_some hp]
  rfl

theorem statsNext_world (h : Beside id w w') : statsNext id w (.world w') = some w' := if_pos h

/-- A step keeps the sums if and only if it is worth no level during a Berserk. -/
theorem stats_step {a : StatsInput F} {r : Row} (howes : Owes id w) (hadds : AddsUp id r w)
    (hstep : statsNext id w a = some w') :
    Owes id w' ∧ (AddsUp id r w' ↔ ¬ LevelsInBerserk id w a) := by
  obtain ⟨p,hp,hdue⟩ := howes
  obtain ⟨p',hp',hsums⟩ := hadds
  cases hp.symm.trans hp'
  have hdone : (∃ q, w'.player id = some q ∧ w'.due id = q.isBerserk.toNat ∧
      (q.Sums r ↔ ¬ LevelsInBerserk id w a)) →
        Owes id w' ∧ (AddsUp id r w' ↔ ¬ LevelsInBerserk id w a) := by
    rintro ⟨q,hq,hqdue,hiff⟩
    refine ⟨⟨q,hq,hqdue⟩,?_⟩
    rw [← hiff]
    constructor
    · rintro ⟨q',hq',hsums'⟩
      cases hq.symm.trans hq'
      exact hsums'
    · exact fun hsums' => ⟨q,hq,hsums'⟩
  apply hdone
  cases a with
  | attack a now =>
    rw [statsNext_attack a now hp] at hstep
    cases hstep
    exact attack_step hp hsums hdue
  | timer k now =>
    dsimp only [statsNext] at hstep
    split_ifs at hstep with hfresh
    obtain ⟨q,hq,hqdue,hqsums⟩ := timer_step hp hsums hdue hfresh hstep
    exact ⟨q,hq,hqdue,iff_of_true hqsums not_false⟩
  | world v =>
    dsimp only [statsNext] at hstep
    split_ifs at hstep with hbeside
    cases hstep
    have haccount := hbeside.account
    rw [hp, Option.map_some] at haccount
    obtain ⟨q,hq,hsame⟩ := Option.map_eq_some_iff.mp haccount
    refine ⟨q,hq,?_,iff_of_true (hsums.congr hsame) not_false⟩
    rw [hbeside.due, hdue, CPlayer.isBerserk_congr hsame]

/-- From any login on the stats come to what they should be throughout a session if and only if no
attack is worth a level to the player during a Berserk. -/
theorem stats_iff {bs : List (Input F)} (hrun : Runs.run next start bs = some w) (id : Slot) (r : Row)
    (heap : CPlayer F) (now : ℕ) (as : List (StatsInput F)) :
    Runs.Always (statsNext id) (AddsUp id r) (w.loadPlayer id r heap now) as ↔
      Runs.Along (statsNext id) (fun w a => ¬ LevelsInBerserk id w a) (w.loadPlayer id r heap now)
        as := by
  have hdated : Dated w :=
    (Runs.always (fun s a t hs hstep => dated_next hs hstep) dated_start).last hrun
  have hp := loadPlayer_player id r heap now w
  refine Runs.always_iff_along (I := Owes id) ?_ ?_ ?_ ?_
  · exact fun s a t howes hadds _ hstep => (stats_step howes hadds hstep).1
  · exact fun s a t howes hadds hstep => (stats_step howes hadds hstep).2
  · refine ⟨_,hp,?_⟩
    exact due_eq_zero hdated (loadPlayer_timerQueue id r heap now w) (era_lt_loadPlayer id r heap now w)
  · refine ⟨_,hp,?_,?_,?_,?_⟩
    all_goals simp [CPlayer.initializePlayer, CPlayer.bonus]

end Runs

/-- The player of `veteran` with a sword. -/
def swordsman : CPlayer ℚ := { zeroPlayer.initializePlayer 10 1 90 1 100 0 with wpnType := .wpnSword }

/-- It is alone at first, -/
def drill : World ℚ := empty.setPlayer 0 (some swordsman)

theorem beside_drill : Beside 0 ((start : World ℚ).loadPlayer 0 veteran zeroPlayer 0) drill := by
  refine ⟨?_,?_⟩
  · rw [loadPlayer_player]
    rfl
  · rw [due_eq_zero dated_start (loadPlayer_timerQueue 0 veteran zeroPlayer 0 start)
      (era_lt_loadPlayer 0 veteran zeroPlayer 0 start)]
    rfl

/-- then meets a goblin. -/
def meeting : World ℚ := cornered.setPlayer 0 (some swordsman)

/-- A Berserk, its end, and a goblin that is worth a level. -/
def session : List (StatsInput ℚ) := [.world drill,.attack .berserk 0,.timer 0 15000,.world meeting,
  .attack .assassinate 15000]

theorem stats_session : ∃ w, Runs.run (statsNext 0)
    ((start : World ℚ).loadPlayer 0 veteran zeroPlayer 0) session = some w ∧
      (w.player 0).map (fun p => (p.level,p.atkPoint,p.magicPoint)) = some (2,12,102) ∧
      Runs.Always (statsNext 0) (AddsUp 0 veteran)
        ((start : World ℚ).loadPlayer 0 veteran zeroPlayer 0) session := by
  have hbegin := statsNext_world beside_drill
  have hcalm : (drill.sendView swordsman.viewList (.scBerserk 0)).sweep berserkSweep 0 =
      drill.sendView swordsman.viewList (.scBerserk 0) :=
    sweep_only (i := 0) (calm_berserk 0) fun _ _ => rfl
  have hrage : statsNext 0 drill (.attack .berserk 0) = some (((drill.sendView swordsman.viewList
      (.scBerserk 0)).modifyPlayer 0 CPlayer.enraged).addTimer (.off .evBerserk 0) 15000 0) := by
    rw [statsNext_attack .berserk 0 rfl]
    change some (drill.berserk 0 swordsman 0) = _
    simp only [berserk]
    rw [show swordsman.isBerserk = false from rfl, if_neg Bool.false_ne_true,
      if_neg (show ¬ swordsman.wpnType ≠ .wpnSword by decide), hcalm]
    rfl
  obtain ⟨v,hend,hsame⟩ : ∃ v, statsNext 0 (((drill.sendView swordsman.viewList
      (.scBerserk 0)).modifyPlayer 0 CPlayer.enraged).addTimer (.off .evBerserk 0) 15000 0)
        (.timer 0 15000) = some v ∧ Beside 0 v meeting := ⟨_,rfl,rfl,rfl⟩
  have hmeet := statsNext_world hsame
  have hsweep : (meeting.broadcast (.scAssassin 0)).sweep assassinateSweep 0 =
      (sweepOne assassinateSweep 0 (meeting.broadcast (.scAssassin 0),false) 0).1 :=
    sweep_only (calm_assassinate 0) fun j hj => Function.update_of_ne (Ne.symm hj) ..
  obtain ⟨w,hkill,hgain⟩ : ∃ w, statsNext 0 meeting (.attack .assassinate 15000) = some w ∧
      (w.player 0).map (fun p => (p.level,p.atkPoint,p.magicPoint)) = some (2,12,102) := by
    refine ⟨_,statsNext_attack .assassinate 15000 rfl,?_⟩
    change ((meeting.assassinate 0 swordsman 15000).player 0).map _ = _
    simp only [assassinate]
    rw [show swordsman.isAssasinate = false from rfl, if_neg Bool.false_ne_true, hsweep]
    decide +kernel
  refine ⟨w,?_,hgain,?_⟩
  · exact Runs.run_cons_eq_some.mpr ⟨_,hbegin,Runs.run_cons_eq_some.mpr ⟨_,hrage,
      Runs.run_cons_eq_some.mpr ⟨_,hend,Runs.run_cons_eq_some.mpr ⟨_,hmeet,
        Runs.run_cons_eq_some.mpr ⟨_,hkill,rfl⟩⟩⟩⟩⟩
  · refine (stats_iff (show Runs.run next start [] = some start from rfl) 0 veteran zeroPlayer 0
      session).mpr ?_
    have hunfit : ∀ {w : World ℚ} {a : AreaAttack} {now : ℕ}, w.player 0 = some swordsman →
        ¬ LevelsInBerserk 0 w (.attack a now) := by
      rintro w a now hp ⟨p,hp',hberserk,-⟩
      cases hp.symm.trans hp'
      cases hberserk
    rw [session, Runs.along_cons hbegin, Runs.along_cons hrage, Runs.along_cons hend,
      Runs.along_cons hmeet, Runs.along_cons hkill]
    exact ⟨id,hunfit rfl,id,id,hunfit rfl,trivial⟩

/-- A player who meets the goblin during its Berserk. -/
def rampage : World ℚ :=
  { cornered.setPlayer 0 (some swordsman.enraged) with
    timerQueue := [⟨.off .evBerserk 0,15000,0,0⟩] }

/-- Without monsters there is nothing to gain. -/
theorem not_levels_of_none [FloatArith F] {a : AreaAttack} (h : ∀ i, w.monster i = none)
    (l : List MonsterId) : ¬ a.Levels p w l := by
  rintro ⟨l',i,-,hprize,-⟩
  simp [AreaAttack.prize, h] at hprize

/-- The goblin is worth a level, and the bonus of Berserk is gone before its end. -/
theorem berserk_levels : ∃ (w : World ℚ) (bs : List (Input ℚ)), Runs.run next start bs = some w ∧
    ∃ (r : Row) (as : List (StatsInput ℚ)),
      ¬ Runs.Always (statsNext 0) (AddsUp 0 r) (w.loadPlayer 0 r zeroPlayer 0) as := by
  refine ⟨start,[],rfl,veteran,[.world drill,.attack .berserk 0,.world rampage,
    .attack .assassinate 0],fun h => ?_⟩
  have hready : AreaAttack.berserk.Ready swordsman := ⟨rfl,rfl⟩
  have hp : drill.player 0 = some swordsman := rfl
  obtain ⟨q,hq,hearned,hdue⟩ := berserk_spec hready hp 0
  have hsame : q.level = swordsman.level := by
    obtain ⟨q',hq',hlevels⟩ := perform_level hready hp 0
    cases hq.symm.trans hq'
    have hnot := mt hlevels.mpr (not_levels_of_none (fun _ => rfl) monsterIds)
    exact le_antisymm (not_lt.mp hnot) hearned.level
  have hmet : Beside 0 (drill.berserk 0 swordsman 0) rampage := by
    have hcount : rampage.due 0 = drill.due 0+1 := by decide +kernel
    refine ⟨?_,hcount.trans hdue.symm⟩
    rw [hq]
    exact congrArg some (hearned.enraged_account hsame).symm
  have hfirst : statsNext 0 drill (.attack .berserk 0) = some (drill.berserk 0 swordsman 0) :=
    statsNext_attack .berserk 0 hp
  have hlast : statsNext 0 rampage (.attack .assassinate 0) =
      some (rampage.assassinate 0 swordsman.enraged 0) := statsNext_attack .assassinate 0 rfl
  have hworth : LevelsInBerserk 0 rampage (.attack .assassinate 0) :=
    ⟨swordsman.enraged,rfl,rfl,rfl,[],0,first_monster,by decide +kernel,by decide +kernel⟩
  have hrest := ((h.2 drill (statsNext_world beside_drill)).2 _ hfirst).2 rampage (statsNext_world hmet)
  have howes : Owes 0 rampage := ⟨swordsman.enraged,rfl,rfl⟩
  exact (stats_step howes hrest.1 hlast).2.mp (hrest.2 _ hlast).head hworth

end World

end LastHero
