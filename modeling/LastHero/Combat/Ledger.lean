import LastHero.Combat.Strike
import LastHero.Threads.System
import Mathlib.Algebra.BigOperators.Group.Finset.Basic

/-! The ledger of the monsters: over any sequence of attacks every monster that dies is killed
once, and the experience of the players grows by what the dead monsters are worth. -/
namespace LastHero
variable {F : Type}

def Act.killOf : Act F → Option (Slot × MonsterId)
  | .kill id i => some (id,i)
  | _ => none

/-- A blow that leaves no hit points. -/
def Act.lethalOf : Act F → Option (Slot × MonsterId)
  | .hit id i _ left => if left = 0 then some (id,i) else none
  | _ => none

/-- The news of a dead monster to a client. -/
def Act.tellsDead (c : Slot) (i : MonsterId) : Act F → Bool
  | .send c' (.scDead oid) => c' = c && oid = i.oid
  | _ => false

/-- The attacks of players, and what happens between them. -/
inductive FightInput
  | attack (a : AreaAttack) (uid : Slot) (now : ℕ)
  | timer (k now : ℕ)
  | weaponOn (uid : Slot) (wpn : Weapon)
  | weaponOff (uid : Slot) (wpn : Weapon)
  | move (uid : Slot) (buf : Buffer)

/-- A sum in which one summand grows. -/
theorem sum_eq_add_of_eq {ι : Type*} [Fintype ι] [DecidableEq ι] {f g : ι → ℤ} {i : ι} {e : ℤ}
    (hother : ∀ j, j ≠ i → g j = f j) (hi : g i = f i + e) : ∑ j, g j = ∑ j, f j + e := by
  have herase : ∑ j ∈ Finset.univ.erase i, g j = ∑ j ∈ Finset.univ.erase i, f j :=
    Finset.sum_congr rfl fun j hj => hother j (Finset.ne_of_mem_erase hj)
  rw [← Finset.add_sum_erase Finset.univ g (Finset.mem_univ i),
    ← Finset.add_sum_erase Finset.univ f (Finset.mem_univ i), herase, hi]
  ring

namespace World

def kills (w : World F) : List (Slot × MonsterId) := w.fights.filterMap Act.killOf

def lethals (w : World F) : List (Slot × MonsterId) := w.fights.filterMap Act.lethalOf

/-- How often a monster was killed. -/
def killCount (w : World F) (i : MonsterId) : ℕ := w.kills.countP fun k => k.2 = i

/-- How often a client was told that a monster is dead. -/
def deadNews (w : World F) (c : Slot) (i : MonsterId) : ℕ := w.fights.countP (Act.tellsDead c i)

def isDead (w : World F) (i : MonsterId) : Bool := (w.monster i).any fun m => m.healthPoint = 0

/-- Experience of all players, levels included. -/
def totalExp (w : World F) : ℤ := ∑ i, (w.player i).elim 0 fun p => 100*p.level + p.exp

/-- Experience that the dead monsters are worth. -/
def bounty (w : World F) : ℤ := ∑ i, if w.isDead i then (w.monster i).elim 0 CMonster.exp else 0

/-- Freshly spawned monsters, players with less than a level of experience, no fights yet. -/
structure Fresh [FloatArith F] (w : World F) : Prop where
  monster : ∀ i m, w.monster i = some m → ∃ pos type, m = CMonster.initializeMonster pos type
  player : ∀ i p, w.player i = some p → 0 ≤ p.exp ∧ p.exp < 100
  fights : w.fights = []

/-- The books of the state `w` that a run from `w₀` reached. -/
structure Balanced (w₀ w : World F) : Prop where
  present : ∀ i, (w.monster i).isSome = (w₀.monster i).isSome
  monster : ∀ i m, w.monster i = some m → ∃ m₀, w₀.monster i = some m₀ ∧
    0 ≤ m.healthPoint ∧ m.healthPoint ≤ m₀.healthPoint ∧ m.exp = m₀.exp
  killed : ∀ i, w.killCount i = if w.isDead i then 1 else 0
  killer : w.kills = w.lethals
  news : ∀ c i, (w.player c).isSome → w.deadNews c i = w.killCount i
  exp : ∀ i p, w.player i = some p → 0 ≤ p.exp ∧ p.exp < 100
  ledger : w.totalExp = w₀.totalExp + w.bounty

/-- No hit points come back. -/
def NeverRises (w w' : World F) : Prop :=
  ∀ i m, w.monster i = some m → ∃ m', w'.monster i = some m' ∧ m'.healthPoint ≤ m.healthPoint

section Fights
variable [FloatArith F]

def fight (w : World F) : FightInput → Option (World F)
  | .attack a uid now => (w.onPlayer uid fun p w => a.perform uid p now w).toOption
  | .timer k now => w.timerThread k now
  | .weaponOn uid wpn => (w.onPlayer uid fun p w => w.weaponOn uid p wpn).toOption
  | .weaponOff uid wpn => (w.onPlayer uid fun p w => w.weaponOff uid p wpn).toOption
  | .move uid buf => some (w.onMove uid buf)

/-- An attack does damage: Attck and Assassinate need attack points, Berserk has its own. -/
def Hurts (w : World F) : FightInput → Prop
  | .attack a uid _ => ∀ p, w.player uid = some p → 0 < (a.sweepKind (F := F)).damage p
  | _ => True

end Fights

variable {w₀ w w' : World F} {id : Slot} {p : CPlayer F} {i j : MonsterId} {m : CMonster F}
  {damage left : ℤ} {audience : List Slot}

theorem sends_filterMap {α : Type} {g : Act F → Option α} (hg : ∀ c pkt, g (.send c pkt) = none) :
    (audience.map fun c => Act.send c (.scDead i.oid)).filterMap g = [] := by
  rw [List.filterMap_eq_nil_iff]
  intro a ha
  obtain ⟨c,-,rfl⟩ := List.mem_map.mp ha
  exact hg c _

theorem blow_kills : (blow (F := F) id i damage left audience).filterMap Act.killOf =
    if left ≤ 0 then [(id,i)] else [] := by
  simp only [blow]
  rw [List.filterMap_cons_none rfl]
  split_ifs
  · have hsome : Act.killOf (Act.kill id i : Act F) = some (id,i) := rfl
    rw [List.filterMap_cons_some hsome, sends_filterMap fun _ _ => rfl]
  · rfl

theorem blow_lethals : (blow (F := F) id i damage left audience).filterMap Act.lethalOf =
    if left = 0 then [(id,i)] else [] := by
  have hrest : (if left ≤ 0 then (Act.kill id i : Act F) ::
      audience.map fun c => .send c (.scDead i.oid) else []).filterMap Act.lethalOf = [] := by
    split_ifs
    · rw [List.filterMap_cons_none rfl, sends_filterMap fun _ _ => rfl]
    · rfl
  simp only [blow]
  have hhit : Act.lethalOf (Act.hit id i damage left : Act F) =
      if left = 0 then some (id,i) else none := rfl
  rw [List.filterMap_cons, hrest, hhit]
  by_cases hleft : left = 0
  · rw [if_pos hleft, if_pos hleft]
  · rw [if_neg hleft, if_neg hleft]

theorem countP_blow_tellsDead {c : Slot} (hnodup : audience.Nodup) :
    (blow (F := F) id i damage left audience).countP (Act.tellsDead c j) =
      if left ≤ 0 ∧ c ∈ audience ∧ i = j then 1 else 0 := by
  simp only [blow]
  rw [List.countP_cons_of_neg Bool.false_ne_true]
  by_cases hleft : left ≤ 0
  · rw [if_pos hleft, List.countP_cons_of_neg Bool.false_ne_true, List.countP_map]
    have htell : (Act.tellsDead c j ∘ fun c' => (Act.send c' (.scDead i.oid) : Act F)) =
        fun c' => c' == c && decide (i = j) := by
      funext c'
      simp [Act.tellsDead, MonsterId.oid_inj, beq_eq_decide]
    rw [htell]
    by_cases hij : i = j
    · simp only [hij, decide_true, Bool.and_true, and_true, hleft, true_and]
      change audience.count c = _
      exact hnodup.count
    · simp [hij]
  · simp [hleft]

theorem connected_nodup (w : World F) : w.connected.Nodup :=
  (List.nodup_finRange maxPlayer).filter _

theorem mem_connected {c : Slot} : c ∈ w.connected ↔ (w.player c).isSome := by
  simp only [connected]
  rw [List.mem_filter]
  exact and_iff_right (mem_slots c)

/-- Steps that the books do not see. -/
structure Unbooked (w w' : World F) : Prop where
  reward : ∀ i, (w'.player i).map (fun p => (p.level,p.exp)) =
    (w.player i).map fun p => (p.level,p.exp)
  monster : w'.monster = w.monster
  kills : w'.kills = w.kills
  lethals : w'.lethals = w.lethals
  deadNews : ∀ c i, w'.deadNews c i = w.deadNews c i

theorem Peaceful.unbooked (h : Peaceful w w') : Unbooked w w' where
  reward := h.reward
  monster := h.monster
  kills := by rw [kills, h.fights, kills]
  lethals := by rw [lethals, h.fights, lethals]
  deadNews c i := by rw [deadNews, h.fights, deadNews]

theorem Unbooked.balanced (hu : Unbooked w w') (h : Balanced w₀ w) : Balanced w₀ w' := by
  have hsome : ∀ c, (w'.player c).isSome = (w.player c).isSome := by
    intro c
    rw [← Option.isSome_map, hu.reward, Option.isSome_map]
  have hkill : ∀ i, w'.killCount i = w.killCount i := by
    intro i
    rw [killCount, hu.kills, killCount]
  have hdead : ∀ i, w'.isDead i = w.isDead i := by
    intro i
    rw [isDead, hu.monster, isDead]
  constructor
  · intro i
    rw [hu.monster, h.present]
  · intro i m hm
    rw [hu.monster] at hm
    exact h.monster i m hm
  · intro i
    rw [hkill, hdead]
    exact h.killed i
  · rw [hu.kills, hu.lethals]
    exact h.killer
  · intro c i hc
    rw [hkill, hu.deadNews]
    exact h.news c i (by rw [← hsome]; exact hc)
  · intro c p hc
    have hr := hu.reward c
    rw [hc] at hr
    obtain ⟨q,hq,heq⟩ := Option.map_eq_some_iff.mp hr.symm
    rw [Prod.mk.injEq] at heq
    rw [← heq.2]
    exact h.exp c q hq
  · have htotal : w'.totalExp = w.totalExp := by
      refine Finset.sum_congr rfl fun c _ => ?_
      have hr := congrArg (Option.elim · 0 fun q : ℤ × ℤ => 100*q.1 + q.2) (hu.reward c)
      rw [Option.elim_map, Option.elim_map] at hr
      exact hr
    have hbounty : w'.bounty = w.bounty := by
      simp only [bounty]
      rw [hu.monster]
      simp only [hdead]
    rw [htotal, hbounty]
    exact h.ledger

/-- The end of Attck is about the boss only. -/
theorem unbooked_attckBoss [FloatArith F] (id : Slot) (w : World F) : Unbooked w (w.attckBoss id) := by
  simp only [attckBoss]
  split
  · split_ifs
    · have hfights := fights_hitBoss id 20 w
      have hsame : ((w.record (.hitBoss id 20)).bossTakeDamage 20).player = w.player ∧
          ((w.record (.hitBoss id 20)).bossTakeDamage 20).monster = w.monster := by
        simp only [bossTakeDamage]
        split
        · exact ⟨rfl,rfl⟩
        · split_ifs
          · exact ⟨rfl,rfl⟩
          · exact ⟨rfl,rfl⟩
      constructor
      · intro i
        rw [hsame.1]
      · exact hsame.2
      · rw [kills, hfights, List.filterMap_append]
        exact List.append_nil _
      · rw [lethals, hfights, List.filterMap_append]
        exact List.append_nil _
      · intro c i
        rw [deadNews, hfights, List.countP_append]
        rfl
    · exact (Peaceful.refl w).unbooked
  · exact (Peaceful.refl w).unbooked

section Struck
variable {m' : CMonster F}

theorem Struck.kills (h : Struck id p i m m' damage w w') :
    w'.kills = w.kills ++ if m'.healthPoint ≤ 0 then [(id,i)] else [] := by
  simp only [World.kills]
  rw [h.fights, List.filterMap_append, blow_kills]

theorem Struck.lethals (h : Struck id p i m m' damage w w') :
    w'.lethals = w.lethals ++ if m'.healthPoint = 0 then [(id,i)] else [] := by
  simp only [World.lethals]
  rw [h.fights, List.filterMap_append, blow_lethals]

theorem Struck.killCount (h : Struck id p i m m' damage w w') (j : MonsterId) :
    w'.killCount j = w.killCount j + if m'.healthPoint ≤ 0 ∧ i = j then 1 else 0 := by
  simp only [World.killCount]
  rw [h.kills, List.countP_append]
  by_cases hdead : m'.healthPoint ≤ 0
  · simp [hdead]
  · simp [hdead]

theorem Struck.deadNews (h : Struck id p i m m' damage w w') {c : Slot}
    (hc : (w.player c).isSome) (j : MonsterId) :
    w'.deadNews c j = w.deadNews c j + if m'.healthPoint ≤ 0 ∧ i = j then 1 else 0 := by
  simp only [World.deadNews]
  rw [h.fights, List.countP_append, countP_blow_tellsDead w.connected_nodup]
  simp only [mem_connected.mpr hc, true_and]

theorem Struck.monster_eq (h : Struck id p i m m' damage w w') (j : MonsterId) :
    w'.monster j = if j = i then some m' else w.monster j := by
  rw [h.monster, Function.update_apply]

theorem Struck.isDead (h : Struck id p i m m' damage w w') (j : MonsterId) :
    w'.isDead j = if j = i then decide (m'.healthPoint = 0) else w.isDead j := by
  simp only [World.isDead]
  rw [h.monster_eq]
  split_ifs
  · rfl
  · rfl

theorem Struck.totalExp (h : Struck id p i m m' damage w w') (hp : w.player id = some p) :
    w'.totalExp = w.totalExp + if m'.healthPoint ≤ 0 then m.exp else 0 := by
  simp only [World.totalExp]
  refine sum_eq_add_of_eq (i := id) (fun j hj => ?_) ?_
  · rw [h.player, Function.update_of_ne hj]
  · rw [h.player, Function.update_self, hp]
    dsimp only [Option.elim_some]
    split_ifs
    · exact p.rewarded_total m.exp
    · ring

theorem Struck.bounty (h : Struck id p i m m' damage w w') (hm : w.monster i = some m)
    (hlive : m.healthPoint ≠ 0) (hexp : m'.exp = m.exp) :
    w'.bounty = w.bounty + if m'.healthPoint = 0 then m.exp else 0 := by
  have hnot : w.isDead i = false := by
    simp only [World.isDead]
    rw [hm]
    exact decide_eq_false hlive
  simp only [World.bounty]
  refine sum_eq_add_of_eq (i := i) (fun j hj => ?_) ?_
  · rw [h.isDead, if_neg hj, h.monster_eq, if_neg hj]
  · rw [h.isDead, if_pos rfl, h.monster_eq, if_pos rfl, hnot, if_neg Bool.false_ne_true, zero_add]
    simp [hexp]

end Struck

/-- A blow against a living monster is booked right. -/
theorem Balanced.struck [FloatArith F] (hworth : ∀ i m, w.monster i = some m → 0 ≤ m.exp ∧ m.exp ≤ 100)
    (h : Balanced w₀ w) (hp : w.player id = some p) (hm : w.monster i = some m)
    (hlive : m.healthPoint ≠ 0) (hd : 0 < damage)
    (hs : Struck id p i m (m.damaged damage) damage w w') : Balanced w₀ w' := by
  have hpos := m.healthPoint_nonneg
  have hleft := (m.damaged damage).healthPoint_nonneg
  have hle : (m.damaged damage).healthPoint ≤ m.healthPoint := by
    rw [m.damaged_healthPoint]
    omega
  have hzero : (m.damaged damage).healthPoint ≤ 0 ↔ (m.damaged damage).healthPoint = 0 :=
    ⟨fun hz => le_antisymm hz hleft,le_of_eq⟩
  have hsome : ∀ c, (w'.player c).isSome = (w.player c).isSome := by
    intro c
    rw [hs.player, Function.update_apply]
    by_cases hc : c = id
    · rw [if_pos hc, hc, hp]
      rfl
    · rw [if_neg hc]
  constructor
  · intro j
    rw [hs.monster_eq]
    split_ifs with hj
    · rw [← h.present, hj, hm]
      rfl
    · exact h.present j
  · intro j m₁ hm₁
    rw [hs.monster_eq] at hm₁
    split_ifs at hm₁ with hj
    · cases hm₁
      obtain ⟨m₀,hm₀,-,hle₀,hexp₀⟩ := h.monster i m hm
      exact ⟨m₀,hj ▸ hm₀,hleft,hle.trans hle₀,(m.damaged_exp damage).trans hexp₀⟩
    · exact h.monster j m₁ hm₁
  · intro j
    rw [hs.killCount, hs.isDead, h.killed]
    simp only [hzero]
    by_cases hj : j = i
    · have hnot : w.isDead j = false := by
        simp only [World.isDead]
        rw [hj, hm]
        exact decide_eq_false hlive
      rw [if_pos hj, hnot]
      simp [hj]
    · have hij : ¬ ((m.damaged damage).healthPoint = 0 ∧ i = j) := fun hij => hj hij.2.symm
      rw [if_neg hj, if_neg hij, add_zero]
  · rw [hs.kills, hs.lethals, h.killer]
    simp only [hzero]
  · intro c j hc
    rw [hsome] at hc
    rw [hs.deadNews hc, hs.killCount, h.news c j hc]
  · intro c q hq
    rw [hs.player, Function.update_apply] at hq
    split_ifs at hq
    · cases hq
      exact p.rewarded_exp m.exp (h.exp id p hp) (hworth i m hm)
    · cases hq
      exact h.exp id p hp
    · exact h.exp c q hq
  · rw [hs.totalExp hp, hs.bounty hm hlive (m.damaged_exp damage), h.ledger]
    simp only [hzero]
    ring

theorem Fresh.worth [FloatArith F] (hf : Fresh w₀) (h : Balanced w₀ w) (i : MonsterId)
    (m : CMonster F) (hm : w.monster i = some m) : 0 ≤ m.exp ∧ m.exp ≤ 100 := by
  obtain ⟨m₀,hm₀,-,-,hexp⟩ := h.monster i m hm
  obtain ⟨pos,type,rfl⟩ := hf.monster i m₀ hm₀
  rw [hexp]
  change 0 ≤ (10 : ℤ) ∧ (10 : ℤ) ≤ 100
  decide

theorem Fresh.balanced [FloatArith F] (hf : Fresh w₀) : Balanced w₀ w₀ := by
  have hdead : ∀ i, w₀.isDead i = false := by
    intro i
    simp only [isDead]
    cases hm : w₀.monster i with
    | none => rfl
    | some m =>
      obtain ⟨pos,type,rfl⟩ := hf.monster i m hm
      simp only [CMonster.initializeMonster]
      rw [Option.any_some]
      split_ifs
      · rfl
      · rfl
  have hkills : w₀.kills = [] := by rw [kills, hf.fights, List.filterMap_nil]
  constructor
  · exact fun _ => rfl
  · exact fun i m hm => ⟨m,hm,m.healthPoint_nonneg,le_rfl,rfl⟩
  · intro i
    rw [killCount, hkills, hdead]
    rfl
  · rw [hkills, lethals, hf.fights, List.filterMap_nil]
  · intro c i _
    rw [deadNews, hf.fights, killCount, hkills]
    rfl
  · exact hf.player
  · simp only [bounty]
    simp only [hdead, Bool.false_eq_true, if_false, Finset.sum_const_zero, add_zero]

theorem NeverRises.refl (w : World F) : NeverRises w w := fun _ m hm => ⟨m,hm,le_rfl⟩

theorem NeverRises.trans {w'' : World F} (h : NeverRises w w') (h' : NeverRises w' w'') :
    NeverRises w w'' := by
  intro i m hm
  obtain ⟨m',hm',hle⟩ := h i m hm
  obtain ⟨m'',hm'',hle'⟩ := h' i m' hm'
  exact ⟨m'',hm'',hle'.trans hle⟩

theorem NeverRises.of_eq (h : w'.monster = w.monster) : NeverRises w w' :=
  fun _ m hm => ⟨m,h ▸ hm,le_rfl⟩

theorem Struck.neverRises [FloatArith F] (hs : Struck id p i m (m.damaged damage) damage w w')
    (hm : w.monster i = some m) (hd : 0 < damage) : NeverRises w w' := by
  intro j m₁ hm₁
  rw [hs.monster_eq]
  split_ifs with hj
  · subst hj
    cases hm.symm.trans hm₁
    have hpos := m.healthPoint_nonneg
    refine ⟨_,rfl,?_⟩
    rw [m.damaged_healthPoint]
    omega
  · exact ⟨m₁,hm₁,le_rfl⟩

theorem peaceful_timer {k now : ℕ} (h : w.timerThread k now = some w') : Peaceful w w' := by
  obtain ⟨ev,-,rfl⟩ := timerThread_spec h
  have hqueue : Peaceful w (w.setTimerQueue (w.timerQueue.eraseIdx k)) := ⟨fun _ => rfl,rfl,rfl⟩
  simp only [timerEvent]
  split
  · exact ⟨fun _ => rfl,rfl,rfl⟩
  · exact ⟨fun _ => rfl,rfl,rfl⟩
  · rename_i kind id _
    refine hqueue.modifyPlayer fun q => ?_
    cases kind
    · rfl
    · rfl
    · rfl
    · rfl
    · rfl

theorem peaceful_putOn (wpn : Weapon) (w : World F) : Peaceful w (w.putOn id wpn) := by
  apply Peaceful.sendTo
  · cases wpn
    · exact fun _ => rfl
    · exact fun _ => rfl
  · exact (Peaceful.refl w).modifyPlayer fun _ => rfl

theorem peaceful_takeOff (p : CPlayer F) (wpn : Weapon) (w : World F) :
    Peaceful w (w.takeOff id p wpn) := by
  simp only [takeOff]
  split_ifs
  · exact ((Peaceful.refl w).sendTo fun _ => rfl).modifyPlayer fun _ => rfl
  · exact .refl w

theorem peaceful_weaponOn (p : CPlayer F) (wpn : Weapon) (w : World F) :
    Peaceful w (w.weaponOn id p wpn) := by
  simp only [weaponOn]
  split_ifs
  · exact peaceful_takeOff p wpn w
  · exact peaceful_putOn wpn w

theorem peaceful_weaponOff (p : CPlayer F) (wpn : Weapon) (w : World F) :
    Peaceful w (w.weaponOff id p wpn) := by
  simp only [weaponOff]
  split_ifs
  · exact peaceful_putOn wpn w
  · exact peaceful_takeOff p wpn w

section Attacks
variable [FloatArith F] {a : AreaAttack}

/-- More attack points do not do less damage. -/
theorem damage_mono {p q : CPlayer F} (h : p.atkPoint ≤ q.atkPoint) :
    a.sweepKind.damage p ≤ a.sweepKind.damage q := by
  cases a with
  | attck => exact h
  | berserk => exact le_rfl
  | assassinate => exact Int.mul_le_mul_of_nonneg_right h (by decide)

/-- What holds in the middle of an attack that began in `w`. -/
structure Midway (w₀ w : World F) (a : AreaAttack) (id : Slot) (v : World F) : Prop where
  balanced : Balanced w₀ v
  falls : NeverRises w v
  hurts : ∀ p, v.player id = some p → 0 < (a.sweepKind (F := F)).damage p

theorem Midway.around {v v' : World F} (h : Midway w₀ w a id v) (ha : Around v v') :
    Midway w₀ w a id v' where
  balanced := ha.unbooked.balanced h.balanced
  falls := h.falls.trans (.of_eq ha.monster)
  hurts q hq := by
    have hs := ha.stance id
    rw [hq] at hs
    obtain ⟨p,hp,heq⟩ := Option.map_eq_some_iff.mp hs.symm
    rw [Prod.mk.injEq] at heq
    exact (h.hurts p hp).trans_le (damage_mono heq.2.le)

theorem Midway.iterate (hf : Fresh w₀) {v v' : World F} (h : Midway w₀ w a id v)
    (hi : Iterates a.sweepKind id i v v') : Midway w₀ w a id v' := by
  cases hi with
  | skip _ hv => rw [hv]; exact h
  | strike p q m u u' hp hm hr hbefore hq hstruck hafter =>
    have hd := h.hurts p hp
    have hu := h.around hbefore
    have hmu : u.monster i = some m := by rw [hbefore.monster]; exact hm
    refine Midway.around ⟨?_,hu.falls.trans (hstruck.neverRises hmu hd),fun q' hq' => ?_⟩ hafter
    · exact hu.balanced.struck (hf.worth hu.balanced) hq hmu hr.healthPoint hd hstruck
    · have hqd := hu.hurts q hq
      rw [hstruck.player, Function.update_self] at hq'
      split_ifs at hq'
      · cases hq'
        exact hqd.trans_le (damage_mono (q.le_rewarded_atkPoint m.exp))
      · cases hq'
        exact hqd

/-- An attack keeps the books in balance. -/
theorem Balanced.perform (hf : Fresh w₀) (h : Balanced w₀ w) (hp : w.player id = some p)
    (hd : 0 < (a.sweepKind (F := F)).damage p) (now : ℕ) :
    Balanced w₀ (a.perform id p now w) ∧ NeverRises w (a.perform id p now w) := by
  by_cases hready : a.Ready p
  · obtain ⟨v,hv,hend⟩ := AreaAttack.perform_blows hready id now w
    have hstart : Midway w₀ w a id w := ⟨h,.refl w,fun q hq => by cases hp.symm.trans hq; exact hd⟩
    have hsweep := sweep_induction (a.calm id) (fun _ _ _ hi hm => hm.iterate hf hi)
      (hstart.around hv)
    have hblows : Balanced w₀ (a.blows id v) ∧ NeverRises w (a.blows id v) := by
      cases a with
      | attck =>
        rw [AreaAttack.blows_attck]
        have hu := unbooked_attckBoss id (v.sweep attckSweep id)
        exact ⟨hu.balanced hsweep.balanced,hsweep.falls.trans (.of_eq hu.monster)⟩
      | berserk =>
        rw [AreaAttack.blows_berserk]
        exact ⟨hsweep.balanced,hsweep.falls⟩
      | assassinate =>
        rw [AreaAttack.blows_assassinate]
        exact ⟨hsweep.balanced,hsweep.falls⟩
    exact ⟨hend.unbooked.balanced hblows.1,hblows.2.trans (.of_eq hend.monster)⟩
  · rw [AreaAttack.perform_of_not_ready hready]
    exact ⟨h,.refl w⟩

theorem peaceful_onMove (buf : Buffer) (w : World F) : Peaceful w (w.onMove id buf) := by
  have hposition : ∀ (p : CPlayer F) pos,
      ((p.setPosition pos).level,(p.setPosition pos).exp) = (p.level,p.exp) := by
    intro p pos
    simp only [CPlayer.setPosition]
    split_ifs
    · rfl
    · rfl
  have hvelocity : ∀ (p : CPlayer F) v,
      ((p.setVelocity v).level,(p.setVelocity v).exp) = (p.level,p.exp) := by
    intro p v
    simp only [CPlayer.setVelocity]
    split_ifs
    · rfl
    · rfl
  unfold onMove ifPlayer moveTo
  split
  · exact .refl w
  · have hturned : Peaceful w (w.modifyPlayer id fun p =>
        { p.setVelocity (.ofBuffer buf 26) with rotation := .ofBuffer buf 14 }) :=
      (Peaceful.refl w).modifyPlayer fun p => hvelocity p _
    have hmoved : Peaceful w ((w.modifyPlayer id fun p =>
        { p.setVelocity (.ofBuffer buf 26) with rotation := .ofBuffer buf 14 }).modifyPlayer id
          fun p => p.setPosition (.ofBuffer buf 2)) :=
      hturned.modifyPlayer fun p => hposition p _
    dsimp only
    split
    · exact hmoved
    · exact hmoved.sendTo fun _ => rfl

/-- Every step keeps the books in balance. -/
theorem Balanced.fight (hf : Fresh w₀) (h : Balanced w₀ w) {f : FightInput} (hhurts : Hurts w f)
    (hstep : w.fight f = some w') : Balanced w₀ w' ∧ NeverRises w w' := by
  have hpeace : ∀ {v}, Peaceful w v → Balanced w₀ v ∧ NeverRises w v :=
    fun hp => ⟨hp.unbooked.balanced h,.of_eq hp.monster⟩
  cases f with
  | attack a uid now =>
    obtain ⟨p,hp,rfl⟩ := onPlayer_spec (toOption_eq_some hstep)
    exact h.perform hf hp (hhurts p hp) now
  | timer k now => exact hpeace (peaceful_timer hstep)
  | weaponOn uid wpn =>
    obtain ⟨p,-,rfl⟩ := onPlayer_spec (toOption_eq_some hstep)
    exact hpeace (peaceful_weaponOn p wpn w)
  | weaponOff uid wpn =>
    obtain ⟨p,-,rfl⟩ := onPlayer_spec (toOption_eq_some hstep)
    exact hpeace (peaceful_weaponOff p wpn w)
  | move uid buf =>
    cases hstep
    exact hpeace (peaceful_onMove buf w)

/-- In every state that attacks reach from fresh monsters, every dead monster was killed once, by
the blow that left it no hit points, and the players have got the experience it is worth. -/
theorem ledger_balances (hf : Fresh w₀) (as : List FightInput)
    (h : Runs.run World.fight w₀ as = some w) (hok : Runs.Along World.fight Hurts w₀ as) :
    Balanced w₀ w ∧ ∀ f w', Hurts w f → w.fight f = some w' → NeverRises w w' := by
  have hb : Balanced w₀ w := Runs.invariant (fun _ _ _ hs hq ht => (hs.fight hf hq ht).1)
    hf.balanced hok h
  exact ⟨hb,fun f w' hq ht => (hb.fight hf hq ht).2⟩

end Attacks

/-- A player with five points to go to its next level. -/
def assassin : CPlayer ℚ := { zeroPlayer with level := 1, exp := 95, atkPoint := 30 }

/-- It stands next to a goblin. -/
def ambush : World ℚ :=
  (empty.setPlayer 0 (some assassin)).setMonster 0
    (CMonster.initializeMonster (Position.lits 100 100 0) CMonster.objGoblin)

theorem fresh_ambush : Fresh ambush where
  monster i m hm := by
    change Function.update (fun _ => none) 0 _ i = some m at hm
    rw [Function.update_apply] at hm
    split_ifs at hm
    cases hm
    exact ⟨_,_,rfl⟩
  player i p hp := by
    change Function.update (fun _ => none) 0 _ i = some p at hp
    rw [Function.update_apply] at hp
    split_ifs at hp
    cases hp
    exact ⟨by decide,by decide⟩
  fights := rfl

/-- The goblin dies and is worth a level. -/
theorem ledger_balances_ambush : ∃ w : World ℚ,
    Runs.run World.fight ambush [.attack .assassinate 0 0] = some w ∧ Balanced ambush w ∧
      w.kills = [(0,0)] ∧ (w.player 0).map (fun p => (p.level,p.exp)) = some (2,5) := by
  refine ⟨AreaAttack.assassinate.perform 0 assassin 0 ambush,rfl,?_,?_⟩
  · refine (ledger_balances fresh_ambush [.attack .assassinate 0 0] rfl ?_).1
    refine fun _ _ => ⟨fun p hp => ?_,trivial⟩
    cases hp
    decide
  · have hsweep : (ambush.broadcast (.scAssassin 0)).sweep assassinateSweep 0 =
        (sweepOne assassinateSweep 0 (ambush.broadcast (.scAssassin 0),false) 0).1 :=
      sweep_only (calm_assassinate 0) fun j hj => Function.update_of_ne (Ne.symm hj) ..
    have hperform : AreaAttack.assassinate.perform 0 assassin 0 ambush =
        ((sweepOne assassinateSweep 0 (ambush.broadcast (.scAssassin 0),false) 0).1.addTimer
          (.off .evAssOff 0) 2000 0) := by
      change World.assassinate 0 assassin 0 ambush = _
      simp only [World.assassinate]
      rw [show assassin.isAssasinate = false from rfl, if_neg Bool.false_ne_true, hsweep]
    rw [hperform]
    exact ⟨by decide +kernel,by decide +kernel⟩

end World

end LastHero
