import LastHero.Game.Frame

/-! The kill path that Attck, Berserk and Assassinate share: what one blow against a monster
does to the monster, to the attacker and to what the clients are told. -/
namespace LastHero
variable {F : Type}

/-- Blows, kills, and news of dead monsters. -/
def Act.isFight : Act F → Bool
  | .hit .. => true
  | .kill .. => true
  | .hitBoss .. => true
  | .send _ (.scDead oid) => oid ≠ bossIdx
  | _ => false

/-- What a blow that leaves `left` hit points adds to the fights. -/
def blow (id : Slot) (i : MonsterId) (damage left : ℤ) (audience : List Slot) : List (Act F) :=
  .hit id i damage left ::
    if left ≤ 0 then .kill id i :: audience.map fun c => .send c (.scDead i.oid) else []

namespace CPlayer

/-- A player that has got the experience of a kill. -/
def rewarded (exp : ℤ) (p : CPlayer F) : CPlayer F :=
  if 100 ≤ (p.gainExp exp).exp then (p.gainExp exp).gainLevel else p.gainExp exp

variable (exp : ℤ) (p : CPlayer F)

theorem rewarded_pos : (p.rewarded exp).pos = p.pos := by
  simp only [rewarded]
  split_ifs
  · rfl
  · rfl

theorem le_rewarded_atkPoint : p.atkPoint ≤ (p.rewarded exp).atkPoint := by
  simp only [rewarded]
  split_ifs
  · exact (le_add_iff_nonneg_right _).mpr (by decide)
  · exact le_rfl

/-- A level is worth the experience that it costs. -/
theorem rewarded_total : 100*(p.rewarded exp).level + (p.rewarded exp).exp =
    100*p.level + p.exp + exp := by
  unfold rewarded gainLevel gainExp
  split_ifs
  · dsimp only
    ring
  · dsimp only
    ring

theorem rewarded_exp (h : 0 ≤ p.exp ∧ p.exp < 100) (hexp : 0 ≤ exp ∧ exp ≤ 100) :
    0 ≤ (p.rewarded exp).exp ∧ (p.rewarded exp).exp < 100 := by
  unfold rewarded gainLevel gainExp
  dsimp only
  split_ifs with hlevel
  · dsimp only
    omega
  · dsimp only
    omega

end CPlayer

/-- Object ids of monsters are below that of the boss. -/
theorem MonsterId.oid_ne_bossIdx (i : MonsterId) : i.oid ≠ bossIdx := by
  have hi : (i : ℕ) < 10000 := i.isLt
  simp only [MonsterId.oid, npcIdStart, bossIdx]
  omega

theorem MonsterId.oid_inj {i j : MonsterId} : i.oid = j.oid ↔ i = j := by
  simp only [MonsterId.oid]
  rw [add_right_inj, Int.natCast_inj, Fin.val_inj]

theorem CMonster.damaged_healthPoint [FloatArith F] (m : CMonster F) (damage : ℤ) :
    (m.damaged damage).healthPoint = max 0 (m.healthPoint - damage) := by
  simp only [CMonster.damaged]
  split_ifs with h
  · exact (max_eq_left h).symm
  · exact (max_eq_right (not_le.mp h).le).symm

theorem CMonster.damaged_exp [FloatArith F] (m : CMonster F) (damage : ℤ) :
    (m.damaged damage).exp = m.exp := by
  simp only [CMonster.damaged]
  split_ifs
  · rfl
  · rfl

namespace World
variable {w w' w'' : World F} {id : Slot} {p : CPlayer F}

def fights (w : World F) : List (Act F) := w.trace.filter Act.isFight

theorem fights_sendTo (l : List Slot) (pkt : Packet F) (w : World F) :
    (w.sendTo l pkt).fights = w.fights ++ (l.map fun i => Act.send i pkt).filter Act.isFight :=
  List.filter_append ..

/-- Packets that tell of no dead monster. -/
theorem fights_sendTo_quiet {l : List Slot} {pkt : Packet F}
    (h : ∀ i, (Act.send i pkt).isFight = false) (w : World F) :
    (w.sendTo l pkt).fights = w.fights := by
  rw [fights_sendTo, List.filter_eq_nil_iff.mpr, List.append_nil]
  intro a ha
  obtain ⟨i,-,rfl⟩ := List.mem_map.mp ha
  rw [h i]
  exact Bool.false_ne_true

theorem fights_record {a : Act F} (h : a.isFight = true) (w : World F) :
    (w.record a).fights = w.fights ++ [a] := by
  simp only [fights, record]
  rw [List.filter_append, List.filter_singleton, h]
  rfl

/-- A level costs 100 points of experience. -/
theorem levelUp_spec (id : Slot) (w : World F) (hp : w.player id = some p) :
    (w.levelUp id).player = Function.update w.player id (some p.gainLevel) ∧
      (w.levelUp id).monster = w.monster ∧ (w.levelUp id).boss = w.boss ∧
      (w.levelUp id).fights = w.fights := by
  have hgain := modifyPlayer_some CPlayer.gainLevel hp
  simp only [levelUp]
  rw [hgain, Function.update_self]
  exact ⟨hgain,rfl,rfl,fights_sendTo_quiet (fun _ => rfl) _⟩

theorem fights_broadcast_dead (i : MonsterId) (w : World F) :
    (w.broadcast (.scDead i.oid)).fights =
      w.fights ++ w.connected.map fun c => .send c (.scDead i.oid) := by
  simp only [broadcast]
  rw [fights_sendTo, List.filter_eq_self.mpr]
  intro a ha
  obtain ⟨c,-,rfl⟩ := List.mem_map.mp ha
  exact decide_eq_true i.oid_ne_bossIdx

theorem fights_bossTakeDamage (damage : ℤ) (w : World F) :
    (w.bossTakeDamage damage).fights = w.fights := by
  simp only [bossTakeDamage]
  split
  · rfl
  · split_ifs
    · exact fights_sendTo_quiet (fun _ => rfl) _
    · rfl

theorem fights_hitBoss (id : Slot) (damage : ℤ) (w : World F) :
    ((w.record (.hitBoss id damage)).bossTakeDamage damage).fights =
      w.fights ++ [.hitBoss id damage] := by
  rw [fights_bossTakeDamage]
  exact fights_record rfl w

theorem attckBoss_player [FloatArith F] (id : Slot) (w : World F) :
    (w.attckBoss id).player = w.player := by
  simp only [attckBoss, bossTakeDamage]
  split
  · split_ifs
    · split
      · rfl
      · split_ifs
        · rfl
        · rfl
    · rfl
  · rfl

/-- The kill is announced to every player. -/
theorem killMonster_spec (i : MonsterId) (m : CMonster F) (hp : w.player id = some p) :
    (w.killMonster id i m).player = Function.update w.player id (some (p.rewarded m.exp)) ∧
      (w.killMonster id i m).monster = w.monster ∧ (w.killMonster id i m).boss = w.boss ∧
      (w.killMonster id i m).fights =
        w.fights ++ .kill id i :: w.connected.map fun c => .send c (.scDead i.oid) := by
  have hgain := modifyPlayer_some (w := w.record (.kill id i)) (CPlayer.gainExp m.exp) hp
  simp only [killMonster]
  rw [hgain, Function.update_self]
  dsimp only
  generalize hv : ((w.record (.kill id i)).modifyPlayer id (CPlayer.gainExp m.exp)).sendPacket id
    (.scGetExp (p.gainExp m.exp).exp) = v
  have hplayer : v.player = Function.update w.player id (some (p.gainExp m.exp)) := by
    rw [← hv]
    exact hgain
  have hfights : (v.broadcast (.scDead i.oid)).fights =
      w.fights ++ .kill id i :: w.connected.map fun c => .send c (.scDead i.oid) := by
    have hconn : v.connected = w.connected := by
      rw [← hv]
      exact connected_modifyPlayer (CPlayer.gainExp m.exp) (w.record (.kill id i))
    have hkill : v.fights = w.fights ++ [.kill id i] := by
      rw [← hv, sendPacket, fights_sendTo_quiet fun _ => rfl]
      exact fights_record rfl w
    rw [fights_broadcast_dead, hconn, hkill, List.append_assoc]
    rfl
  have hmonster : v.monster = w.monster := by rw [← hv]; rfl
  have hboss : v.boss = w.boss := by rw [← hv]; rfl
  simp only [CPlayer.rewarded]
  split_ifs with hlevel
  · obtain ⟨hp',hm,hb,hf⟩ := levelUp_spec id (v.broadcast (.scDead i.oid))
      (p := p.gainExp m.exp) (by
        change v.player id = _
        rw [hplayer, Function.update_self])
    refine ⟨?_,hm.trans hmonster,hb.trans hboss,hf.trans hfights⟩
    rw [hp']
    change Function.update v.player id _ = _
    rw [hplayer, Function.update_idem]
  · exact ⟨hplayer,hmonster,hboss,hfights⟩

/-- A blow, with all that follows from it. -/
structure Struck (id : Slot) (p : CPlayer F) (i : MonsterId) (m m' : CMonster F) (damage : ℤ)
    (w w' : World F) : Prop where
  player : w'.player = Function.update w.player id
    (some (if m'.healthPoint ≤ 0 then p.rewarded m.exp else p))
  monster : w'.monster = Function.update w.monster i (some m')
  boss : w'.boss = w.boss
  fights : w'.fights = w.fights ++ blow id i damage m'.healthPoint w.connected

theorem struck_strike [FloatArith F] (i : MonsterId) (m : CMonster F) (damage : ℤ)
    (hp : w.player id = some p) :
    Struck id p i m (m.damaged damage) damage w (w.strike id i m damage) := by
  have hhit := fights_record (a := .hit id i damage (m.damaged damage).healthPoint) rfl
    (w.setMonster i (m.damaged damage))
  simp only [strike]
  split_ifs with hdead
  · obtain ⟨hplayer,hm,hb,hf⟩ := killMonster_spec (w := (w.setMonster i (m.damaged damage)).record
      (.hit id i damage (m.damaged damage).healthPoint)) i (m.damaged damage) hp
    constructor
    · rw [hplayer, if_pos hdead, m.damaged_exp]
      rfl
    · exact hm
    · exact hb
    · rw [hf, hhit, blow, if_pos hdead, List.append_assoc]
      rfl
  · constructor
    · rw [if_neg hdead, Function.update_eq_self_iff.mpr hp.symm]
      rfl
    · rfl
    · rfl
    · rw [broadcast, fights_sendTo_quiet fun _ => rfl, hhit, blow, if_neg hdead]
      rfl

/-- Nobody is hurt or rewarded. -/
structure Peaceful (w w' : World F) : Prop where
  reward : ∀ i, (w'.player i).map (fun p => (p.level,p.exp)) =
    (w.player i).map fun p => (p.level,p.exp)
  monster : w'.monster = w.monster
  fights : w'.fights = w.fights

/-- What surrounds the blows of an attack: besides, nobody moves. -/
structure Around (w w' : World F) : Prop extends Peaceful w w' where
  stance : ∀ i, (w'.player i).map (fun p => (p.pos,p.atkPoint)) =
    (w.player i).map fun p => (p.pos,p.atkPoint)
  boss : w'.boss = w.boss

theorem Peaceful.refl (w : World F) : Peaceful w w := ⟨fun _ => rfl,rfl,rfl⟩

theorem Peaceful.trans (h : Peaceful w w') (h' : Peaceful w' w'') : Peaceful w w'' :=
  ⟨fun i => (h'.reward i).trans (h.reward i),h'.monster.trans h.monster,h'.fights.trans h.fights⟩

theorem Peaceful.sendTo {l : List Slot} {pkt : Packet F}
    (hf : ∀ i, (Act.send i pkt).isFight = false) (h : Peaceful w w') :
    Peaceful w (w'.sendTo l pkt) :=
  ⟨h.reward,h.monster,(fights_sendTo_quiet hf w').trans h.fights⟩

theorem Peaceful.modifyPlayer {f : CPlayer F → CPlayer F}
    (hf : ∀ p, ((f p).level,(f p).exp) = (p.level,p.exp)) (h : Peaceful w w') :
    Peaceful w (w'.modifyPlayer id f) := h.trans ⟨map_modifyPlayer hf w' id,rfl,rfl⟩

theorem Peaceful.addTimer {key : EventKey} {t : ℕ} {target : ℤ} (h : Peaceful w w') :
    Peaceful w (w'.addTimer key t target) := ⟨h.reward,h.monster,h.fights⟩

theorem Around.refl (w : World F) : Around w w := ⟨.refl w,fun _ => rfl,rfl⟩

theorem Around.sendTo {l : List Slot} {pkt : Packet F} (hf : ∀ i, (Act.send i pkt).isFight = false)
    (h : Around w w') : Around w (w'.sendTo l pkt) := ⟨h.toPeaceful.sendTo hf,h.stance,h.boss⟩

theorem Around.modifyPlayer {f : CPlayer F → CPlayer F}
    (hr : ∀ p, ((f p).level,(f p).exp) = (p.level,p.exp))
    (hs : ∀ p, ((f p).pos,(f p).atkPoint) = (p.pos,p.atkPoint)) (h : Around w w') :
    Around w (w'.modifyPlayer id f) :=
  ⟨h.toPeaceful.modifyPlayer hr,fun i => (map_modifyPlayer hs w' id i).trans (h.stance i),h.boss⟩

theorem around_faceFirst [FloatArith F] (id : Slot) (m : CMonster F) (s : World F × Bool) :
    Around s.1 (faceFirst id m s).1 := by
  have hturn : Around s.1 (s.1.modifyPlayer id fun p =>
      { p with rotation := { p.rotation with y := getDegree p.pos m.pos } }) :=
    (Around.refl s.1).modifyPlayer (fun _ => rfl) fun _ => rfl
  unfold faceFirst
  split_ifs
  · exact .refl _
  · dsimp only
    split
    · exact hturn
    · exact hturn.sendTo fun _ => rfl

/-- A sweep whose surroundings hurt nobody. -/
structure Calm [FloatArith F] (k : Sweep F) (id : Slot) : Prop where
  before : ∀ m s, Around s.1 (k.before id m s).1
  after : ∀ w, Around w (k.after id w)

theorem calm_attck [FloatArith F] (id : Slot) : Calm (attckSweep : Sweep F) id :=
  ⟨around_faceFirst id,.refl⟩

theorem calm_berserk [FloatArith F] (id : Slot) : Calm (berserkSweep : Sweep F) id :=
  ⟨fun _ s => .refl s.1,.refl⟩

theorem calm_assassinate [FloatArith F] (id : Slot) : Calm (assassinateSweep : Sweep F) id :=
  ⟨fun _ s => .refl s.1,fun w => (Around.refl w).modifyPlayer (fun _ => rfl) fun _ => rfl⟩

section Sweep
variable [FloatArith F] {k : Sweep F}

/-- What an iteration tests before its blow. -/
structure Reaches (k : Sweep F) (pos : Position F) (m : CMonster F) : Prop where
  healthPoint : m.healthPoint ≠ 0
  lt_range : getDistance pos m.pos < k.range
  nonneg : 0 ≤ getDistance pos m.pos

/-- The effect of one iteration. -/
inductive Iterates (k : Sweep F) (id : Slot) (i : MonsterId) (w w' : World F) : Prop
  | skip (h : ∀ p m, w.player id = some p → w.monster i = some m → ¬ Reaches k p.pos m) (hw : w' = w)
  | strike (p q : CPlayer F) (m : CMonster F) (v v' : World F) (hp : w.player id = some p)
    (hm : w.monster i = some m) (hr : Reaches k p.pos m) (hbefore : Around w v)
    (hq : v.player id = some q)
    (hstruck : Struck id q i m (m.damaged (k.damage p)) (k.damage p) v v') (hafter : Around v' w')

theorem sweepOne_iterates (hc : Calm k id) (s : World F × Bool) (i : MonsterId) :
    Iterates k id i s.1 (sweepOne k id s i).1 := by
  simp only [sweepOne]
  split
  · rename_i p m hp hm
    split_ifs with hdead hrange hneg
    · refine .skip (fun p' m' hp' hm' hr => ?_) rfl
      cases hm.symm.trans hm'
      exact hr.healthPoint hdead
    · refine .skip (fun p' m' hp' hm' hr => ?_) rfl
      cases hm.symm.trans hm'
      cases hp.symm.trans hp'
      exact absurd hneg (not_lt.mpr hr.nonneg)
    · have hbefore := hc.before m s
      have hq := hbefore.reward id
      rw [hp] at hq
      obtain ⟨q,hq,-⟩ := Option.map_eq_some_iff.mp hq
      exact .strike p q m _ _ hp hm ⟨hdead,hrange,not_lt.mp hneg⟩ hbefore hq
        (struck_strike i m (k.damage p) hq) (hc.after _)
    · refine .skip (fun p' m' hp' hm' hr => ?_) rfl
      cases hm.symm.trans hm'
      cases hp.symm.trans hp'
      exact hrange hr.lt_range
  · rename_i hnone
    exact .skip (fun p m hp hm => absurd hm (hnone p m hp)) rfl

theorem Iterates.monster_of_ne {j : MonsterId} (h : Iterates k id i w w') (hij : i ≠ j) :
    w'.monster j = w.monster j := by
  cases h with
  | skip _ hw => rw [hw]
  | strike p q m v v' hp hm hr hbefore hq hstruck hafter =>
    rw [hafter.monster, hstruck.monster, Function.update_of_ne (Ne.symm hij), hbefore.monster]

/-- Where there is one monster, a sweep is one iteration. -/
theorem sweep_only (hc : Calm k id) (halone : ∀ j, i ≠ j → w.monster j = none) :
    w.sweep k id = (sweepOne k id (w,false) i).1 := by
  have hskip : ∀ (s : World F × Bool) j, s.1.monster j = none → sweepOne k id s j = s := by
    intro s j hj
    simp only [sweepOne]
    rw [hj]
    cases s.1.player id
    · rfl
    · rfl
  have hloop : monsterIds.foldl (sweepOne k id) (w,false) =
      if i ∈ monsterIds then sweepOne k id (w,false) i else (w,false) := by
    apply KeyedFold.foldl_prefixes (P := fun l s => s = if i ∈ l then sweepOne k id (w,false) i
      else (w,false)) nodup_monsterIds
    · simp
    · intro l j s hj hs
      by_cases hij : i = j
      · subst hij
        rw [hs, if_neg hj]
        simp
      · have hnone : s.1.monster j = none := by
          rw [hs]
          split_ifs
          · exact ((sweepOne_iterates hc (w,false) i).monster_of_ne hij).trans (halone j hij)
          · exact halone j hij
        rw [hskip s j hnone, hs]
        simp [hij]
  rw [sweep, sweepOver_eq_foldl, hloop, if_pos (mem_monsterIds i)]

/-- What every iteration keeps, a sweep keeps. -/
theorem sweep_induction {P : World F → Prop} (hc : Calm k id)
    (hstep : ∀ i w w', Iterates k id i w w' → P w → P w') (hw : P w) : P (w.sweep k id) := by
  rw [sweep, sweepOver_eq_foldl]
  apply List.foldlRecOn (motive := fun s : World F × Bool => P s.1) monsterIds _ hw
  exact fun s hs i _ => hstep i _ _ (sweepOne_iterates hc s i) hs

end Sweep

end World

/-- The attacks that sweep over the monsters. -/
inductive AreaAttack
  | attck
  | berserk
  | assassinate
  deriving DecidableEq

namespace AreaAttack
variable [FloatArith F]

def range : AreaAttack → ℤ
  | .berserk => berserkRange
  | _ => attackRange

def sweepKind : AreaAttack → World.Sweep F
  | .attck => World.attckSweep
  | .berserk => World.berserkSweep
  | .assassinate => World.assassinateSweep

/-- The call by a player. -/
def perform : AreaAttack → Slot → CPlayer F → ℕ → World F → World F
  | .attck => World.attck
  | .berserk => World.berserk
  | .assassinate => World.assassinate

/-- The tests at the beginning let the attack through. -/
def Ready (p : CPlayer F) : AreaAttack → Prop
  | .attck => p.isAttack = false ∧ p.wpnType ≠ .wpnNone
  | .berserk => p.isBerserk = false ∧ p.wpnType = .wpnSword
  | .assassinate => p.isAssasinate = false

/-- The blows of an attack. -/
def blows (a : AreaAttack) (id : Slot) (w : World F) : World F :=
  match a with
  | .attck => (w.sweep a.sweepKind id).attckBoss id
  | _ => w.sweep a.sweepKind id

theorem blows_attck (id : Slot) (w : World F) :
    attck.blows id w = (w.sweep World.attckSweep id).attckBoss id := rfl

theorem blows_berserk (id : Slot) (w : World F) :
    berserk.blows id w = w.sweep World.berserkSweep id := rfl

theorem blows_assassinate (id : Slot) (w : World F) :
    assassinate.blows id w = w.sweep World.assassinateSweep id := rfl

theorem range_eq (a : AreaAttack) : (a.sweepKind (F := F)).range = a.range := by
  cases a
  · rfl
  · rfl
  · rfl

theorem calm (a : AreaAttack) (id : Slot) : World.Calm (a.sweepKind (F := F)) id := by
  cases a with
  | attck => exact World.calm_attck id
  | berserk => exact World.calm_berserk id
  | assassinate => exact World.calm_assassinate id

variable {a : AreaAttack} {p : CPlayer F}

theorem perform_of_not_ready (h : ¬ a.Ready p) (id : Slot) (now : ℕ) (w : World F) :
    a.perform id p now w = w := by
  cases a with
  | attck =>
    change World.attck id p now w = w
    simp only [World.attck]
    split_ifs with hattack hnone
    · rfl
    · rfl
    · exact absurd ⟨Bool.eq_false_iff.mpr hattack,hnone⟩ h
  | berserk =>
    change World.berserk id p now w = w
    simp only [World.berserk]
    split_ifs with hberserk hsword
    · rfl
    · rfl
    · exact absurd ⟨Bool.eq_false_iff.mpr hberserk,not_not.mp hsword⟩ h
  | assassinate =>
    change World.assassinate id p now w = w
    simp only [World.assassinate]
    split_ifs with hass
    · rfl
    · exact absurd (Bool.eq_false_iff.mpr hass) h

/-- Before and after its blows an attack is peaceful. -/
theorem perform_blows (h : a.Ready p) (id : Slot) (now : ℕ) (w : World F) :
    ∃ v, World.Around w v ∧ World.Peaceful (a.blows id v) (a.perform id p now w) := by
  cases a with
  | attck =>
    change ∃ v, _ ∧ World.Peaceful _ (World.attck id p now w)
    simp only [blows_attck]
    simp only [World.attck]
    rw [h.1, if_neg Bool.false_ne_true, if_neg h.2]
    refine ⟨_,?_,World.Peaceful.addTimer (.refl _)⟩
    apply World.Around.sendTo fun _ => rfl
    exact (World.Around.refl w).modifyPlayer (fun _ => rfl) fun _ => rfl
  | berserk =>
    change ∃ v, _ ∧ World.Peaceful _ (World.berserk id p now w)
    simp only [blows_berserk]
    simp only [World.berserk]
    rw [h.1, if_neg Bool.false_ne_true, if_neg (not_not.mpr h.2)]
    refine ⟨w.sendView p.viewList (.scBerserk id),?_,World.Peaceful.addTimer ?_⟩
    · exact (World.Around.refl w).sendTo fun _ => rfl
    · exact (World.Peaceful.refl _).modifyPlayer fun _ => rfl
  | assassinate =>
    change ∃ v, _ ∧ World.Peaceful _ (World.assassinate id p now w)
    simp only [blows_assassinate]
    simp only [World.assassinate]
    rw [show p.isAssasinate = false from h, if_neg Bool.false_ne_true]
    refine ⟨_,?_,World.Peaceful.addTimer (.refl _)⟩
    exact (World.Around.refl w).sendTo fun _ => rfl

end AreaAttack

end LastHero
