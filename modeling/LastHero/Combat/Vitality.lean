import LastHero.Combat.Range
import LastHero.Game.Effects
import LastHero.Threads.System

/-! Whether isAlive mirrors the hit points of a player. Only damage clears it and nothing sets it
again, but a level fills up the hit points, also those of a dead player that still attacks. -/
namespace LastHero
variable {F : Type}

/-- isAlive is right, and the hit points are in their bounds. -/
structure CPlayer.Mirrors (p : CPlayer F) : Prop where
  nonneg : 0 ≤ p.healthPoint
  le_maxHP : p.healthPoint ≤ p.maxHP
  isAlive : p.isAlive = true ↔ 0 < p.healthPoint

theorem CPlayer.Mirrors.congr {p q : CPlayer F} (hp : p.Mirrors) (h : q.vitals = p.vitals) :
    q.Mirrors := by
  simp only [CPlayer.vitals, Prod.mk.injEq] at h
  obtain ⟨-,hhp,hmax,halive⟩ := h
  exact ⟨hhp ▸ hp.nonneg,hhp ▸ hmax ▸ hp.le_maxHP,by rw [halive, hhp, hp.isAlive]⟩

/-- What an attack of a player depends on. -/
def CPlayer.stats (p : CPlayer F) : ℤ × ℤ × ℤ × Position F := (p.level,p.exp,p.atkPoint,p.pos)

/-- The attack that a packet asks for. -/
def CsType.areaAttack : CsType → Option AreaAttack
  | .csAttack => some .attck
  | .csBerserk => some .berserk
  | .csAssassin => some .assassinate
  | _ => none

/-- What happens to a player of a slot, and around it. -/
inductive LifeInput (F : Type)
  | packet (uid : Slot) (buf : Buffer) (now : Now)
  /-- by a monster -/
  | takeDamage
  /-- CMonster::Attack -/
  | attack (i : MonsterId) (draw : ℕ)
  | timer (k now : ℕ)
  /-- whatever becomes of the rest of the world -/
  | world (v : World F)

namespace AreaAttack
variable [FloatArith F]

/-- A monster that falls to a blow of the player. -/
def Slays (a : AreaAttack) (p : CPlayer F) (m : CMonster F) : Prop :=
  m.healthPoint ≠ 0 ∧ getDistance p.pos m.pos < a.range ∧ 0 ≤ getDistance p.pos m.pos ∧
    m.healthPoint ≤ a.sweepKind.damage p

instance (a : AreaAttack) (p : CPlayer F) (m : CMonster F) : Decidable (a.Slays p m) :=
  inferInstanceAs (Decidable (_ ∧ _ ∧ _ ∧ _))

/-- The experience that the player gets for a monster, if it falls. -/
def prize (a : AreaAttack) (p : CPlayer F) (w : World F) (i : MonsterId) : Option ℤ :=
  (w.monster i).bind fun m => if a.Slays p m then some m.exp else none

/-- The experience for some monsters. -/
def spoils (a : AreaAttack) (p : CPlayer F) (w : World F) (l : List MonsterId) : ℤ :=
  (l.filterMap (a.prize p w)).sum

/-- With one of these monsters, in this order, the experience is enough for a level. -/
def Levels (a : AreaAttack) (p : CPlayer F) (w : World F) (l : List MonsterId) : Prop :=
  ∃ l' i, l' ++ [i] <+: l ∧ (a.prize p w i).isSome ∧ 100 ≤ p.exp + a.spoils p w (l' ++ [i])

end AreaAttack

namespace World
variable {w w' w'' : World F} {id uid : Slot} {p q : CPlayer F}

/-- What a packet does to a player: nothing to its hit points, or a level. -/
structure Grown (p q : CPlayer F) : Prop where
  isAlive : q.isAlive = p.isAlive
  level : p.level ≤ q.level
  maxHP : p.maxHP ≤ q.maxHP
  same : q.level = p.level → q.vitals = p.vitals
  healed : p.level < q.level → q.healthPoint = q.maxHP

def Grows (w w' : World F) : Prop :=
  ∀ i p, w.player i = some p → ∃ q, w'.player i = some q ∧ Grown p q

theorem Grown.of_vitals (h : q.vitals = p.vitals) : Grown p q := by
  simp only [CPlayer.vitals, Prod.mk.injEq] at h
  obtain ⟨hlevel,hhp,hmax,halive⟩ := h
  refine ⟨halive,hlevel.ge,hmax.ge,fun _ => ?_,fun hlt => absurd hlevel hlt.ne'⟩
  simp only [CPlayer.vitals, hlevel, hhp, hmax, halive]

theorem Grown.trans {r : CPlayer F} (h : Grown p q) (h' : Grown q r) : Grown p r where
  isAlive := h'.isAlive.trans h.isAlive
  level := h.level.trans h'.level
  maxHP := h.maxHP.trans h'.maxHP
  same hr := by
    have hq : q.level = p.level := le_antisymm (hr ▸ h'.level) h.level
    exact (h'.same (hr.trans hq.symm)).trans (h.same hq)
  healed hr := by
    by_cases hlt : q.level < r.level
    · exact h'.healed hlt
    · have hsame : r.level = q.level := le_antisymm (not_lt.mp hlt) h'.level
      have hvitals := h'.same hsame
      simp only [CPlayer.vitals, Prod.mk.injEq] at hvitals
      rw [hvitals.2.1, hvitals.2.2.1]
      exact h.healed (hsame ▸ hr)

theorem Grows.refl (w : World F) : Grows w w := fun _ p hp => ⟨p,hp,.of_vitals rfl⟩

theorem Grows.trans (h : Grows w w') (h' : Grows w' w'') : Grows w w'' := by
  intro i p hp
  obtain ⟨q,hq,hpq⟩ := h i p hp
  obtain ⟨r,hr,hqr⟩ := h' i q hq
  exact ⟨r,hr,hpq.trans hqr⟩

theorem grows_modifyPlayer {f : CPlayer F → CPlayer F} (hf : ∀ p, Grown p (f p)) (w : World F)
    (i : Slot) : Grows w (w.modifyPlayer i f) := by
  intro j p hp
  rw [modifyPlayer_player]
  split_ifs with hj
  · exact ⟨f p,by rw [← hj, hp, Option.map_some],hf p⟩
  · exact ⟨p,hp,.of_vitals rfl⟩

theorem grown_gainLevel (p : CPlayer F) : Grown p p.gainLevel where
  isAlive := rfl
  level := by simp [CPlayer.gainLevel]
  maxHP := by simp [CPlayer.gainLevel, levelUpBonus]
  same h := by simp [CPlayer.gainLevel] at h
  healed _ := rfl

theorem grows_effects {k : Option OffEvent} (h : Effects k uid w w') : Grows w w' := by
  refine h.lift .refl .trans fun w w' h => ?_
  cases h with
  | player i f hv => exact grows_modifyPlayer (fun p => .of_vitals (hv p)) w i
  | levelUp =>
    intro i p hp
    rw [levelUp_player]
    exact grows_modifyPlayer grown_gainLevel w uid i p hp
  | send | record | timer | monster | boss | quary => exact .refl w

/-- Levels come from sweeps, and only to the player that sweeps. -/
theorem level_effects {k : Option OffEvent} (hk : id = uid → k.any OffEvent.sweeps = false)
    (h : Effects k uid w w') :
    (w'.player id).map CPlayer.level = (w.player id).map CPlayer.level := by
  refine h.lift (R := fun w w' => (w'.player id).map CPlayer.level =
    (w.player id).map CPlayer.level) (fun _ => rfl) (fun h h' => h'.trans h) fun w w' h => ?_
  cases h with
  | player i f hv => exact map_modifyPlayer (fun p => congrArg Prod.fst (hv p)) w i id
  | levelUp hk' =>
    have hne : id ≠ uid := fun heq => Bool.false_ne_true ((hk heq).symm.trans hk')
    rw [levelUp_player, modifyPlayer_player, if_neg hne]
  | send | record | timer | monster | boss | quary => rfl

/-- The hit points mirror isAlive again, unless somebody dead got a level. -/
theorem Grown.mirrors_iff (h : Grown p q) (hmax : 0 < p.maxHP) (hp : p.Mirrors) :
    q.Mirrors ↔ (p.isAlive = false → q.level = p.level) := by
  constructor
  · intro hq hdead
    by_contra hlevel
    have hhealed := h.healed (lt_of_le_of_ne h.level (Ne.symm hlevel))
    have halive := hq.isAlive.mpr (hhealed ▸ hmax.trans_le h.maxHP)
    rw [h.isAlive, hdead] at halive
    cases halive
  · intro hlevel
    by_cases hsame : q.level = p.level
    · exact hp.congr (h.same hsame)
    · have hhealed := h.healed (lt_of_le_of_ne h.level (Ne.symm hsame))
      have hpos : 0 < q.healthPoint := hhealed ▸ hmax.trans_le h.maxHP
      have halive : p.isAlive = true := by
        by_contra hdead
        exact hsame (hlevel (Bool.eq_false_iff.mpr hdead))
      exact ⟨hpos.le,hhealed.le,iff_of_true (h.isAlive.trans halive) hpos⟩

theorem takeDamage_player (damage : ℤ) (hp : w.player id = some p) :
    (w.takeDamage id damage).player id = some
      (if p.healthPoint-damage ≤ 0 then (p.hurt damage).fall else p.hurt damage) := by
  have hhurt := modifyPlayer_some (CPlayer.hurt damage) hp
  simp only [takeDamage]
  rw [hhurt, Function.update_self]
  dsimp only [CPlayer.hurt]
  split_ifs
  · change (modifyPlayer id CPlayer.fall (w.modifyPlayer id (CPlayer.hurt damage))).player id = _
    rw [modifyPlayer_player, if_pos rfl, hhurt, Function.update_self]
    rfl
  · change (w.modifyPlayer id (CPlayer.hurt damage)).player id = _
    rw [hhurt, Function.update_self]
    rfl

/-- Damage keeps the mirror, also against a dead player. -/
theorem mirrors_takeDamage {damage : ℤ} (hd : 0 ≤ damage) (h : p.Mirrors) :
    (if p.healthPoint-damage ≤ 0 then (p.hurt damage).fall else p.hurt damage).Mirrors := by
  obtain ⟨hnonneg,hle,halive⟩ := h
  split_ifs with hdead
  · exact ⟨le_rfl,hnonneg.trans hle,by simp [CPlayer.fall]⟩
  · have hpos : 0 < p.healthPoint-damage := not_le.mp hdead
    refine ⟨hpos.le,?_,iff_of_true (halive.mpr ?_) hpos⟩
    · change p.healthPoint-damage ≤ p.maxHP
      omega
    · omega

theorem Around.stats (h : Around w w') (hp : w.player id = some p) :
    ∃ q, w'.player id = some q ∧ q.stats = p.stats := by
  have hreward := h.reward id
  have hstance := h.stance id
  rw [hp] at hreward hstance
  obtain ⟨q,hq,hlevel⟩ := Option.map_eq_some_iff.mp hreward
  rw [hq, Option.map_some, Option.map_some, Option.some_inj, Prod.mk.injEq] at hstance
  rw [Prod.mk.injEq] at hlevel
  refine ⟨q,hq,?_⟩
  simp only [CPlayer.stats]
  rw [hlevel.1, hlevel.2, hstance.1, hstance.2]

theorem rewarded_stats {e : ℤ} (h : q.stats = p.stats) :
    (q.rewarded e).stats = (p.rewarded e).stats := by
  simp only [CPlayer.stats, Prod.mk.injEq] at h
  obtain ⟨hlevel,hexp,hatk,hpos⟩ := h
  unfold CPlayer.rewarded CPlayer.gainLevel CPlayer.gainExp CPlayer.stats
  dsimp only
  rw [hexp]
  split_ifs <;> simp [hlevel, hatk, hpos]

theorem le_rewarded_level (e : ℤ) (p : CPlayer F) : p.level ≤ (p.rewarded e).level := by
  unfold CPlayer.rewarded CPlayer.gainLevel CPlayer.gainExp
  split_ifs
  · exact (lt_add_one p.level).le
  · exact le_rfl

theorem mirrors_damaged (hmirror : p.Mirrors) (hp : w.player id = some p)
    (hw : w'.player id = (w.takeDamage id monsterAtkPoint).player id) :
    ∃ q, w'.player id = some q ∧ q.maxHP = p.maxHP ∧ q.Mirrors := by
  rw [takeDamage_player _ hp] at hw
  refine ⟨_,hw,?_,mirrors_takeDamage (by decide) hmirror⟩
  split_ifs
  · rfl
  · rfl

theorem timer_vitals {k now : ℕ} (id : Slot) (h : w.timerThread k now = some w') :
    (w'.player id).map CPlayer.vitals = (w.player id).map CPlayer.vitals := by
  obtain ⟨ev,-,rfl⟩ := timerThread_spec h
  simp only [timerEvent]
  split
  · rfl
  · rfl
  · rename_i kind i _
    exact map_modifyPlayer (f := CPlayer.skillOff kind now) (fun p => by cases kind <;> rfl)
      (w.setTimerQueue (w.timerQueue.eraseIdx k)) i id

section Attacks
variable [FloatArith F] {a : AreaAttack} {i : MonsterId} {l : List MonsterId}

theorem slays_iff {m : CMonster F} : a.Slays p m ↔
    Reaches a.sweepKind p.pos m ∧ m.healthPoint ≤ a.sweepKind.damage p := by
  simp only [AreaAttack.Slays]
  rw [← a.range_eq (F := F)]
  constructor
  · rintro ⟨hhp,hlt,hnonneg,hle⟩
    exact ⟨⟨hhp,hlt,hnonneg⟩,hle⟩
  · rintro ⟨⟨hhp,hlt,hnonneg⟩,hle⟩
    exact ⟨hhp,hlt,hnonneg,hle⟩

/-- Attacks of players with the same attack points in the same place slay the same monsters. -/
theorem prize_congr (hatk : q.atkPoint = p.atkPoint) (hpos : q.pos = p.pos)
    (hm : w'.monster i = w.monster i) : a.prize q w' i = a.prize p w i := by
  have hdamage : a.sweepKind.damage q = a.sweepKind.damage p := by
    cases a with
    | attck => exact hatk
    | berserk => rfl
    | assassinate => exact congrArg (· * 2) hatk
  have hslays : ∀ m, a.Slays q m ↔ a.Slays p m := by
    intro m
    simp only [AreaAttack.Slays]
    rw [hpos, hdamage]
  simp only [AreaAttack.prize]
  simp only [hm, hslays]

/-- The experience and the level of the attacker after one iteration. -/
theorem Iterates.stats (h : Iterates a.sweepKind id i w w') (hp : w.player id = some p) :
    ∃ q, w'.player id = some q ∧
      q.stats = ((a.prize p w i).elim p fun e => p.rewarded e).stats := by
  cases h with
  | skip hskip hw =>
    refine ⟨p,hw ▸ hp,?_⟩
    have hnone : a.prize p w i = none := by
      simp only [AreaAttack.prize]
      rw [Option.bind_eq_none_iff]
      intro m hm
      rw [if_neg]
      exact fun hs => hskip p m hp hm (slays_iff.mp hs).1
    rw [hnone]
    rfl
  | strike p' q m v v' hp' hm hr hbefore hq hstruck hafter =>
    cases hp.symm.trans hp'
    obtain ⟨q',hq',hstats⟩ := hbefore.stats hp
    cases hq.symm.trans hq'
    have hprize : a.prize p w i =
        if (m.damaged (a.sweepKind.damage p)).healthPoint ≤ 0 then some m.exp else none := by
      have hdead : (m.damaged (a.sweepKind.damage p)).healthPoint ≤ 0 ↔
          m.healthPoint ≤ a.sweepKind.damage p := by
        rw [m.damaged_healthPoint]
        omega
      simp only [AreaAttack.prize]
      simp only [hm, Option.bind_some, slays_iff, hr, true_and, hdead]
    have hplayer := congrFun hstruck.player id
    rw [Function.update_self] at hplayer
    obtain ⟨r,hr',hrstats⟩ := hafter.stats hplayer
    refine ⟨r,hr',hrstats.trans ?_⟩
    rw [hprize]
    split_ifs
    · exact rewarded_stats hstats
    · exact hstats

theorem spoils_concat : a.spoils p w (l ++ [i]) = a.spoils p w l + (a.prize p w i).getD 0 := by
  simp only [AreaAttack.spoils]
  rw [List.filterMap_append, List.sum_append]
  cases hprize : a.prize p w i <;> simp [hprize]

theorem levels_concat : a.Levels p w (l ++ [i]) ↔
    a.Levels p w l ∨ (a.prize p w i).isSome ∧ 100 ≤ p.exp + a.spoils p w (l ++ [i]) := by
  constructor
  · rintro ⟨l',j,hinit,hprize,hexp⟩
    cases List.prefix_concat_iff.mp hinit with
    | inl heq =>
      obtain ⟨rfl,hj⟩ := List.append_inj' heq rfl
      cases hj
      exact Or.inr ⟨hprize,hexp⟩
    | inr hinit => exact Or.inl ⟨l',j,hinit,hprize,hexp⟩
  · rintro (⟨l',j,hinit,hprize,hexp⟩ | ⟨hprize,hexp⟩)
    · exact ⟨l',j,hinit.trans (List.prefix_append l [i]),hprize,hexp⟩
    · exact ⟨l,i,List.prefix_rfl,hprize,hexp⟩

/-- The attacker after the first monsters: it has got a level, or collected what they are worth. -/
structure Marched (a : AreaAttack) (id : Slot) (p : CPlayer F) (w : World F) (l : List MonsterId)
    (v : World F) (q : CPlayer F) : Prop where
  player : v.player id = some q
  monster : ∀ i ∉ l, v.monster i = w.monster i
  levels : a.Levels p w l → p.level < q.level
  stats : ¬ a.Levels p w l → q.stats = (p.level,p.exp + a.spoils p w l,p.atkPoint,p.pos)

theorem Marched.iterate {v v' : World F} (h : Marched a id p w l v q) (hi : i ∉ l)
    (hit : Iterates a.sweepKind id i v v') : ∃ q', Marched a id p w (l ++ [i]) v' q' := by
  obtain ⟨q',hq',hstats'⟩ := hit.stats h.player
  have hmonster : ∀ j ∉ l ++ [i], v'.monster j = w.monster j := by
    intro j hj
    rw [List.mem_append, not_or, List.mem_singleton] at hj
    exact (hit.other (Ne.symm hj.2)).2.trans (h.monster j hj.1)
  by_cases hbefore : a.Levels p w l
  · have hlevel : q.level ≤ q'.level := by
      rw [show q'.level = _ from congrArg Prod.fst hstats']
      cases a.prize q v i with
      | none => exact le_rfl
      | some e => exact le_rewarded_level e q
    exact ⟨q',hq',hmonster,fun _ => (h.levels hbefore).trans_le hlevel,
      fun hnot => absurd (levels_concat.mpr (Or.inl hbefore)) hnot⟩
  have hstats := h.stats hbefore
  simp only [CPlayer.stats, Prod.mk.injEq] at hstats
  obtain ⟨hlevel,hexp,hatk,hpos⟩ := hstats
  rw [prize_congr hatk hpos (h.monster i hi)] at hstats'
  cases hprize : a.prize p w i with
  | none =>
    rw [hprize] at hstats'
    have hnot : ¬ a.Levels p w (l ++ [i]) := by
      rw [levels_concat, hprize]
      simpa using hbefore
    refine ⟨q',hq',hmonster,fun hl => absurd hl hnot,fun _ => hstats'.trans ?_⟩
    rw [spoils_concat, hprize, Option.getD_none, add_zero, ← hexp, ← hlevel, ← hatk, ← hpos]
    rfl
  | some e =>
    rw [hprize] at hstats'
    have hlevels : a.Levels p w (l ++ [i]) ↔ 100 ≤ q.exp + e := by
      rw [levels_concat, spoils_concat, hprize, hexp, Option.getD_some, add_assoc]
      simp [hbefore]
    have hq : q'.stats = if 100 ≤ q.exp + e
        then (q.level+1,q.exp+e-100,q.atkPoint+levelUpBonus,q.pos)
        else (q.level,q.exp+e,q.atkPoint,q.pos) := by
      rw [hstats', Option.elim_some]
      unfold CPlayer.rewarded CPlayer.gainLevel CPlayer.gainExp
      split_ifs
      · rfl
      · rfl
    refine ⟨q',hq',hmonster,fun hl => ?_,fun hl => ?_⟩
    · rw [if_pos (hlevels.mp hl)] at hq
      rw [show q'.level = q.level+1 from congrArg Prod.fst hq, hlevel]
      exact lt_add_one p.level
    · rw [if_neg fun he => hl (hlevels.mpr he)] at hq
      rw [hq, spoils_concat, hprize, Option.getD_some, ← add_assoc, hexp, hlevel, hatk, hpos]

/-- A sweep brings a level if and only if the monsters that fall are worth it. -/
theorem sweep_level (hp : w.player id = some p) : ∃ q,
    (w.sweep a.sweepKind id).player id = some q ∧
      (a.Levels p w monsterIds ↔ p.level < q.level) := by
  rw [sweep, sweepOver_eq_foldl]
  have hmarch : ∃ q, Marched a id p w monsterIds
      (monsterIds.foldl (sweepOne a.sweepKind id) (w,false)).1 q := by
    apply KeyedFold.foldl_prefixes (P := fun l (s : World F × Bool) => ∃ q, Marched a id p w l s.1 q)
      nodup_monsterIds
    · refine ⟨p,hp,fun _ _ => rfl,?_,fun _ => ?_⟩
      · rintro ⟨l',i,hinit,-⟩
        simp at hinit
      · simp [CPlayer.stats, AreaAttack.spoils]
    · rintro l i s hi ⟨q,hq⟩
      exact hq.iterate hi (sweepOne_iterates (a.calm id) s i)
  obtain ⟨q,hq⟩ := hmarch
  refine ⟨q,hq.player,hq.levels,fun hlt => ?_⟩
  by_contra hnot
  exact absurd (congrArg Prod.fst (hq.stats hnot)) hlt.ne'

theorem levels_congr {m : List MonsterId} (hstats : q.stats = p.stats)
    (hm : w'.monster = w.monster) : a.Levels q w' m ↔ a.Levels p w m := by
  simp only [CPlayer.stats, Prod.mk.injEq] at hstats
  obtain ⟨-,hexp,hatk,hpos⟩ := hstats
  have hprize : a.prize q w' = a.prize p w := funext fun i => prize_congr hatk hpos (congrFun hm i)
  simp only [AreaAttack.Levels, AreaAttack.spoils]
  rw [hprize, hexp]

theorem perform_level (hready : a.Ready p) (hp : w.player id = some p) (now : ℕ) : ∃ q,
    (a.perform id p now w).player id = some q ∧
      (a.Levels p w monsterIds ↔ p.level < q.level) := by
  obtain ⟨v,hv,hend⟩ := AreaAttack.perform_blows hready id now w
  obtain ⟨r,hr,hstats⟩ := hv.stats hp
  obtain ⟨s,hs,hlevels⟩ := sweep_level (a := a) hr
  rw [levels_congr hstats hv.monster, show r.level = p.level from congrArg Prod.fst hstats] at hlevels
  have hblows : (a.blows id v).player id = some s := by
    rw [← hs]
    cases a with
    | attck => rw [AreaAttack.blows_attck, attckBoss_player, AreaAttack.sweepKind]
    | berserk => rw [AreaAttack.blows_berserk, AreaAttack.sweepKind]
    | assassinate => rw [AreaAttack.blows_assassinate, AreaAttack.sweepKind]
  have hreward := hend.reward id
  rw [hblows, Option.map_some] at hreward
  obtain ⟨q,hq,hsame⟩ := Option.map_eq_some_iff.mp hreward
  exact ⟨q,hq,by rw [hlevels, show q.level = s.level from congrArg Prod.fst hsame]⟩

/-- The attack gets the player a level. -/
def GainsLevel (id uid : Slot) (buf : Buffer) (p : CPlayer F) (w : World F) : Prop :=
  uid = id ∧ ∃ a, (CsType.ofByte (buf.byteAt 1)).bind CsType.areaAttack = some a ∧ a.Ready p ∧
    a.Levels p w monsterIds

theorem onType_areaAttack {t : CsType} (ht : t.areaAttack = some a) (buf : Buffer) (now : Now) :
    w.onType t id buf now = w.onPlayer id fun p w => a.perform id p now.time w := by
  cases t <;> cases ht <;> rfl

theorem sweeps_of_areaAttack {t : CsType} (ht : t.areaAttack = none) :
    t.skill.any OffEvent.sweeps = false := by
  cases t <;> first | rfl | cases ht

/-- A packet of player `uid` leaves the level of player `id` unless it is an attack worth one. -/
theorem packet_level {buf : Buffer} {now : Now} (hp : w.player id = some p)
    (h : w.processPacket uid buf now = .ok w') (hq : w'.player id = some q) (hle : p.level ≤ q.level) :
    q.level = p.level ↔ ¬ GainsLevel id uid buf p w := by
  obtain ⟨t,ht,hok⟩ := processPacket_spec h
  have hsame : (id = uid → t.skill.any OffEvent.sweeps = false) → q.level = p.level := by
    intro hk
    have hlevel := level_effects hk (effects_onType hok)
    rw [hp, hq] at hlevel
    exact Option.some.inj hlevel
  by_cases hid : uid = id
  · subst hid
    cases ha : t.areaAttack with
    | none =>
      refine iff_of_true (hsame fun _ => sweeps_of_areaAttack ha) ?_
      rintro ⟨-,a,ha',-⟩
      rw [ht, Option.bind_some, ha] at ha'
      cases ha'
    | some a =>
      rw [onType_areaAttack ha, onPlayer_some hp] at hok
      cases hok
      have hgains : GainsLevel uid uid buf p w ↔ a.Ready p ∧ a.Levels p w monsterIds := by
        constructor
        · rintro ⟨-,a',ha',h⟩
          rw [ht, Option.bind_some, ha] at ha'
          cases ha'
          exact h
        · exact fun h => ⟨rfl,a,by rw [ht, Option.bind_some, ha],h⟩
      rw [hgains]
      by_cases hready : a.Ready p
      · obtain ⟨r,hr,hlevels⟩ := perform_level hready hp now.time
        cases hq.symm.trans hr
        rw [and_iff_right hready, hlevels]
        omega
      · rw [AreaAttack.perform_of_not_ready hready] at hq
        cases hp.symm.trans hq
        exact iff_of_true rfl fun h => hready h.1
  · exact iff_of_true (hsame fun heq => absurd heq.symm hid) fun h => hid h.1

end Attacks

section Life
variable [FloatArith F]

def lifeNext (id : Slot) (w : World F) : LifeInput F → Option (World F)
  | .packet uid buf now => (w.processPacket uid buf now).toOption
  | .takeDamage => (w.player id).map fun _ => w.takeDamage id monsterAtkPoint
  | .attack i draw => (w.player id).bind fun p => (w.monster i).map fun m =>
      (w.monsterAttack i m id p draw).2
  | .timer k now => w.timerThread k now
  | .world v => some (v.setPlayer id (w.player id))

/-- The player is there and isAlive mirrors its hit points. -/
def MirrorsHP (id : Slot) (w : World F) : Prop := ∃ p, w.player id = some p ∧ p.Mirrors

/-- A dead player attacks and gets a level. -/
def Revives (id : Slot) (w : World F) : LifeInput F → Prop
  | .packet uid buf _ => ∃ p, w.player id = some p ∧ p.isAlive = false ∧ GainsLevel id uid buf p w
  | _ => False

/-- CMonster::Attack damages its target or leaves it. -/
theorem monsterAttack_player (i : MonsterId) (m : CMonster F) (draw : ℕ)
    (hp : w.player id = some p) :
    (w.monsterAttack i m id p draw).2.player id = some p ∨
      (w.monsterAttack i m id p draw).2.player id = (w.takeDamage id monsterAtkPoint).player id := by
  have hstart : (w.attackStart i (m.face p.pos) draw).player id = some p := by
    rw [attackStart_player]
    exact hp
  simp only [monsterAttack]
  split_ifs
  · exact Or.inl hp
  · exact Or.inl hp
  · simp only [attackEnd]
    split_ifs
    · exact Or.inl hstart
    · exact Or.inl hstart
    · rw [takeDamage_player _ hp]
      exact Or.inr (takeDamage_player monsterAtkPoint (w := broadcast _ _) hstart)

/-- All but packets keep the mirror. -/
theorem mirrors_other {a : LifeInput F} (ha : ∀ uid buf now, a ≠ .packet uid buf now)
    (hp : w.player id = some p) (hmirror : p.Mirrors) (h : w.lifeNext id a = some w') :
    ∃ q, w'.player id = some q ∧ q.maxHP = p.maxHP ∧ q.Mirrors := by
  cases a with
  | packet uid buf now => exact absurd rfl (ha uid buf now)
  | takeDamage =>
    dsimp only [lifeNext] at h
    rw [hp] at h
    cases h
    exact mirrors_damaged hmirror hp rfl
  | attack i draw =>
    dsimp only [lifeNext] at h
    rw [hp] at h
    obtain ⟨m,-,rfl⟩ := Option.map_eq_some_iff.mp h
    cases monsterAttack_player i m draw hp with
    | inl hkeep => exact ⟨p,hkeep,rfl,hmirror⟩
    | inr hhurt => exact mirrors_damaged hmirror hp hhurt
  | timer k now =>
    have hvitals := timer_vitals id h
    rw [hp, Option.map_some] at hvitals
    obtain ⟨q,hq,hsame⟩ := Option.map_eq_some_iff.mp hvitals
    exact ⟨q,hq,congrArg (·.2.2.1) hsame,hmirror.congr hsame⟩
  | world v =>
    cases h
    refine ⟨p,?_,rfl,hmirror⟩
    change Function.update v.player id _ id = _
    rw [Function.update_self, hp]

/-- The mirror holds after a step if and only if no dead player got a level. -/
theorem mirrorsHP_iff {a : LifeInput F} (hp : w.player id = some p) (hmax : 0 < p.maxHP)
    (hmirror : p.Mirrors) (h : w.lifeNext id a = some w') :
    (∃ q, w'.player id = some q ∧ 0 < q.maxHP) ∧ (MirrorsHP id w' ↔ ¬ Revives id w a) := by
  by_cases ha : ∀ uid buf now, a ≠ .packet uid buf now
  · obtain ⟨q,hq,hsame,hmirrors⟩ := mirrors_other ha hp hmirror h
    refine ⟨⟨q,hq,hsame ▸ hmax⟩,iff_of_true ⟨q,hq,hmirrors⟩ ?_⟩
    cases a with
    | packet uid buf now => exact absurd rfl (ha uid buf now)
    | takeDamage | attack | timer | world => exact False.elim
  · push Not at ha
    obtain ⟨uid,buf,now,rfl⟩ := ha
    have hok := toOption_eq_some h
    obtain ⟨t,-,heffects⟩ := effects_processPacket hok
    obtain ⟨q,hq,hgrown⟩ := grows_effects heffects id p hp
    refine ⟨⟨q,hq,hmax.trans_le hgrown.maxHP⟩,?_⟩
    have hiff := hgrown.mirrors_iff hmax hmirror
    rw [packet_level hp hok hq hgrown.level] at hiff
    constructor
    · rintro ⟨q',hq',hmirrors⟩ ⟨p',hp',hdead,hgains⟩
      cases hq.symm.trans hq'
      cases hp.symm.trans hp'
      exact hiff.mp hmirrors hdead hgains
    · intro hnot
      exact ⟨q,hq,hiff.mpr fun hdead hgains => hnot ⟨p,hp,hdead,hgains⟩⟩

/-- From a login with positive hit points on, isAlive mirrors them throughout a run if and only if
no dead player attacks and gets a level. -/
theorem mirrors_hp_iff {r : Row} (hr : 0 < r.hp) (id : Slot) (heap : CPlayer F) (now : ℕ)
    (w : World F) (as : List (LifeInput F)) :
    Runs.Always (lifeNext id) (MirrorsHP id) (w.loadPlayer id r heap now) as ↔
      Runs.Along (lifeNext id) (fun w a => ¬ Revives id w a) (w.loadPlayer id r heap now) as := by
  have hp := loadPlayer_player id r heap now w
  refine Runs.always_iff_along (I := fun w => ∀ p, w.player id = some p → 0 < p.maxHP) ?_ ?_ ?_ ?_
  · rintro s a t hs ⟨p,hp,hmirror⟩ - hstep q hq
    obtain ⟨q',hq',hpos⟩ := (mirrorsHP_iff hp (hs p hp) hmirror hstep).1
    cases hq.symm.trans hq'
    exact hpos
  · rintro s a t hs ⟨p,hp,hmirror⟩ hstep
    exact (mirrorsHP_iff hp (hs p hp) hmirror hstep).2
  · intro q hq
    cases hp.symm.trans hq
    exact hr
  · exact ⟨_,hp,hr.le,le_rfl,iff_of_true rfl hr⟩

end Life

theorem first_monster : [] ++ [0] <+: monsterIds := by
  have hinit : ∀ n, [0] <+: List.finRange (n+1) := by
    intro n
    rw [List.finRange_succ]
    exact List.prefix_append [0] _
  exact hinit 9999

/-- A goblin with ten hit points where players appear. -/
def cornered : World ℚ :=
  empty.setMonster 0 { CMonster.initializeMonster (Position.lits 10227.3125 76509.90625 0)
    CMonster.objGoblin with healthPoint := 10, healthPoint_nonneg := by decide }

/-- Ten hit points, and ten points of experience short of a level. -/
def veteran : Row := ⟨10,1,90,1,100⟩

theorem mirrors_hp_cornered : Runs.Always (lifeNext 0) (MirrorsHP 0)
    (cornered.loadPlayer 0 veteran zeroPlayer 0) [.takeDamage] := by
  apply (mirrors_hp_iff (by decide) 0 zeroPlayer 0 cornered [.takeDamage]).mpr
  exact fun _ _ => ⟨False.elim,trivial⟩

/-- The player dies, assassinates the goblin all the same, and is dead with twelve hit points. -/
theorem dead_player_healed : ∃ (w : World ℚ) (r : Row), 0 < r.hp ∧ ∃ as : List (LifeInput ℚ),
    ¬ Runs.Always (lifeNext 0) (MirrorsHP 0) (w.loadPlayer 0 r zeroPlayer 0) as := by
  refine ⟨cornered,veteran,by decide,[.takeDamage,.packet 0 (shortPacket .csAssassin) ⟨0,true⟩],
    fun h => ?_⟩
  obtain ⟨w₁,hhit,p,hp,hmax,hdead,hready,hlevels⟩ : ∃ w₁,
      lifeNext 0 (cornered.loadPlayer 0 veteran zeroPlayer 0) .takeDamage = some w₁ ∧
        ∃ p, w₁.player 0 = some p ∧ 0 < p.maxHP ∧ p.isAlive = false ∧
          AreaAttack.assassinate.Ready p ∧ AreaAttack.assassinate.Levels p w₁ monsterIds := by
    refine ⟨_,rfl,_,rfl,by decide,rfl,rfl,[],0,first_monster,?_,?_⟩
    · decide +kernel
    · decide +kernel
  have hrest := h.2 w₁ hhit
  obtain ⟨q,hq,hmirrors⟩ := hrest.head
  cases hp.symm.trans hq
  have hattack : lifeNext 0 w₁ (.packet 0 (shortPacket .csAssassin) ⟨0,true⟩) =
      some (AreaAttack.assassinate.perform 0 p 0 w₁) := by
    dsimp only [lifeNext]
    rw [processPacket_shortPacket, onType_areaAttack rfl, onPlayer_some hp]
    rfl
  exact (mirrorsHP_iff hp hmax hmirrors hattack).2.mp (hrest.2 _ hattack).head
    ⟨p,hp,hdead,rfl,_,rfl,hready,hlevels⟩

end World

end LastHero
