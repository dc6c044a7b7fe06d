import LastHero.Combat.Strike
import LastHero.Support.KeyedFold
import Mathlib.Analysis.Real.Sqrt

/-! What the area attacks hit, compared with the true distances. The squares of GetDistance
overflow inside the map; what that does depends on both axes and on the test of the caller. -/
namespace LastHero
variable {F : Type}

/-- The distance of two points of the plane. -/
noncomputable def planarDistance (p q : ℤ × ℤ) : ℝ := √(((p.1-q.1)^2 + (p.2-q.2)^2 : ℤ) : ℝ)

theorem planarDistance_lt_iff {p q : ℤ × ℤ} {r : ℤ} (hr : 0 < r) :
    planarDistance p q < r ↔ (p.1-q.1)^2 + (p.2-q.2)^2 < r^2 := by
  simp only [planarDistance]
  rw [Real.sqrt_lt' (by exact_mod_cast hr)]
  norm_cast

/-- Integer coordinates of an attacker, the monsters and the boss. -/
structure Placement where
  me : ℤ × ℤ
  monster : MonsterId → ℤ × ℤ
  boss : ℤ × ℤ

/-- The coordinates are inside the map and those of the world. -/
structure Placed (l : Placement) (p : CPlayer F) (w : World F) [FloatArith F] : Prop where
  me : Grid p.pos l.me.1 l.me.2
  monster : ∀ i m, w.monster i = some m → Grid m.pos (l.monster i).1 (l.monster i).2
  boss : ∀ b, w.boss = some b → Grid b.pos l.boss.1 l.boss.2

def Act.hits (i : MonsterId) : Act F → Bool
  | .hit _ j _ _ => j = i
  | _ => false

def Act.hitsBoss : Act F → Bool
  | .hitBoss .. => true
  | _ => false

namespace World

/-- Damage taken by a monster so far, in blows. -/
def hitCount (w : World F) (i : MonsterId) : ℕ := w.fights.countP (Act.hits i)

def bossHits (w : World F) : ℕ := w.fights.countP Act.hitsBoss

end World

/-- The two squares of the distance of two points both leave the range of `int`. -/
def BothOverflow (p q : ℤ × ℤ) : Prop :=
  CInt.rootMax < |p.1-q.1| ∧ CInt.rootMax < |p.2-q.2|

instance (p q : ℤ × ℤ) : Decidable (BothOverflow p q) := inferInstanceAs (Decidable (_ ∧ _))

namespace AreaAttack

/-- An attack damages the living monsters in range; the boss is a target of Attck only. -/
structure HitsExactly (a : AreaAttack) (l : Placement) (w w' : World F) : Prop where
  monster : ∀ i, w.hitCount i < w'.hitCount i ↔
    ∃ m, w.monster i = some m ∧ 0 < m.healthPoint ∧ planarDistance l.me (l.monster i) < a.range
  boss : a = .attck → (w.bossHits < w'.bossHits ↔
    ∃ b, w.boss = some b ∧ 0 < b.mainHP ∧ planarDistance l.me l.boss < a.range)

/-- No living monster is so far away that both squares overflow, and the squared distance of the
living boss is an `int`. -/
structure InBounds (a : AreaAttack) (l : Placement) (w : World F) : Prop where
  monster : ∀ i m, w.monster i = some m → 0 < m.healthPoint → ¬ BothOverflow l.me (l.monster i)
  boss : a = .attck → ∀ b, w.boss = some b → 0 < b.mainHP →
    (l.me.1-l.boss.1)^2 + (l.me.2-l.boss.2)^2 ≤ CInt.intMax

end AreaAttack

/-- A blow in terms of a count that looks at hits only. -/
theorem countP_blow {q : Act F → Bool} {id : Slot} {i : MonsterId} (hkill : q (.kill id i) = false)
    (hsend : ∀ c, q (.send c (.scDead i.oid)) = false) (damage left : ℤ) (audience : List Slot) :
    (blow id i damage left audience).countP q = if q (.hit id i damage left) then 1 else 0 := by
  simp only [blow]
  rw [List.countP_cons, List.countP_eq_zero.mpr, zero_add]
  intro a ha
  split_ifs at ha
  · cases ha with
    | head => rw [hkill]; exact Bool.false_ne_true
    | tail _ ha =>
      obtain ⟨c,-,rfl⟩ := List.mem_map.mp ha
      rw [hsend]
      exact Bool.false_ne_true
  · cases ha

namespace World
variable {w w' : World F} {id : Slot} {p : CPlayer F}

theorem hitCount_congr (h : w'.fights = w.fights) (i : MonsterId) : w'.hitCount i = w.hitCount i := by
  simp only [hitCount]
  rw [h]

theorem bossHits_congr (h : w'.fights = w.fights) : w'.bossHits = w.bossHits := by
  simp only [bossHits]
  rw [h]

theorem Struck.hitCount {i : MonsterId} {m m' : CMonster F} {damage : ℤ}
    (h : Struck id p i m m' damage w w') (j : MonsterId) :
    w'.hitCount j = w.hitCount j + if i = j then 1 else 0 := by
  simp only [World.hitCount]
  rw [h.fights, List.countP_append, countP_blow rfl fun _ => rfl]
  simp [Act.hits]

theorem Struck.bossHits {i : MonsterId} {m m' : CMonster F} {damage : ℤ}
    (h : Struck id p i m m' damage w w') : w'.bossHits = w.bossHits := by
  simp only [World.bossHits]
  rw [h.fights, List.countP_append, countP_blow rfl fun _ => rfl]
  rfl

theorem Struck.pos {i : MonsterId} {m m' : CMonster F} {damage : ℤ}
    (h : Struck id p i m m' damage w w') (hp : w.player id = some p) (j : Slot) :
    (w'.player j).map CPlayer.pos = (w.player j).map CPlayer.pos := by
  rw [h.player, Function.update_apply]
  by_cases hj : j = id
  · rw [if_pos hj, hj, hp]
    split_ifs
    · rw [Option.map_some, CPlayer.rewarded_pos, Option.map_some]
    · rfl
  · rw [if_neg hj]

theorem Around.pos (h : Around w w') (j : Slot) :
    (w'.player j).map CPlayer.pos = (w.player j).map CPlayer.pos := by
  have hs := congrArg (Option.map Prod.fst) (h.stance j)
  rw [Option.map_map, Option.map_map] at hs
  exact hs

section Sweep
variable [FloatArith F] {k : Sweep F}

/-- What an iteration sees of its monster, with the blows against it so far. -/
def sight (id : Slot) (s : World F × Bool) (i : MonsterId) :
    ℕ × Option (Position F) × Option (CMonster F) :=
  (s.1.hitCount i,(s.1.player id).map CPlayer.pos,s.1.monster i)

theorem Iterates.frame {i : MonsterId} (h : Iterates k id i w w') :
    (w'.player id).map CPlayer.pos = (w.player id).map CPlayer.pos ∧ w'.boss = w.boss ∧
      w'.bossHits = w.bossHits := by
  cases h with
  | skip _ hw => rw [hw]; exact ⟨rfl,rfl,rfl⟩
  | strike p q m v v' hp hm hr hbefore hq hstruck hafter =>
    exact ⟨(hafter.pos id).trans ((hstruck.pos hq id).trans (hbefore.pos id)),
      hafter.boss.trans (hstruck.boss.trans hbefore.boss),
      (bossHits_congr hafter.fights).trans (hstruck.bossHits.trans (bossHits_congr hbefore.fights))⟩

theorem Iterates.other {i j : MonsterId} (h : Iterates k id i w w') (hij : i ≠ j) :
    w'.hitCount j = w.hitCount j ∧ w'.monster j = w.monster j := by
  refine ⟨?_,h.monster_of_ne hij⟩
  cases h with
  | skip _ hw => rw [hw]
  | strike p q m v v' hp hm hr hbefore hq hstruck hafter =>
    rw [hitCount_congr hafter.fights, hstruck.hitCount, if_neg hij, add_zero,
      hitCount_congr hbefore.fights]

theorem Iterates.own {i : MonsterId} (h : Iterates k id i w w') : w.hitCount i < w'.hitCount i ↔
    ∃ pos m, (w.player id).map CPlayer.pos = some pos ∧ w.monster i = some m ∧ Reaches k pos m := by
  cases h with
  | skip h hw =>
    rw [hw]
    refine iff_of_false (lt_irrefl _) ?_
    rintro ⟨pos,m,hpos,hm,hr⟩
    obtain ⟨p,hp,rfl⟩ := Option.map_eq_some_iff.mp hpos
    exact h p m hp hm hr
  | strike p q m v v' hp hm hr hbefore hq hstruck hafter =>
    refine iff_of_true ?_ ⟨p.pos,m,by rw [hp]; rfl,hm,hr⟩
    rw [hitCount_congr hafter.fights, hstruck.hitCount, if_pos rfl, hitCount_congr hbefore.fights]
    exact Nat.lt_succ_self _

theorem foldl_hitCount (hc : Calm k id) {l : List MonsterId} {i : MonsterId} (hl : l.Nodup)
    (hi : i ∈ l) (s : World F × Bool) :
    s.1.hitCount i < (l.foldl (sweepOne k id) s).1.hitCount i ↔ ∃ pos m,
      (s.1.player id).map CPlayer.pos = some pos ∧ s.1.monster i = some m ∧ Reaches k pos m := by
  have hlocal : KeyedFold.Local (sweepOne k id) (sight id) := by
    intro s i j hij
    have hit := sweepOne_iterates hc s i
    obtain ⟨hcount,hm⟩ := hit.other hij
    simp only [sight]
    rw [hcount, hm, hit.frame.1]
  exact hlocal.foldl_of_mem (R := fun b b' => b.1 < b'.1 ↔
    ∃ pos m, b.2.1 = some pos ∧ b.2.2 = some m ∧ Reaches k pos m)
    (fun s => (sweepOne_iterates hc s i).own) hl hi s

/-- A sweep hits the monsters that its attacker reaches from where it stands. -/
theorem sweep_hitCount (hc : Calm k id) (hp : w.player id = some p) (i : MonsterId) :
    w.hitCount i < (w.sweep k id).hitCount i ↔ ∃ m, w.monster i = some m ∧ Reaches k p.pos m := by
  rw [sweep, sweepOver_eq_foldl,
    foldl_hitCount hc nodup_monsterIds (mem_monsterIds i) (w,false), hp]
  constructor
  · rintro ⟨pos,m,hpos,hm,hr⟩
    cases hpos
    exact ⟨m,hm,hr⟩
  · rintro ⟨m,hm,hr⟩
    exact ⟨p.pos,m,rfl,hm,hr⟩

theorem sweep_frame (hc : Calm k id) (w : World F) :
    ((w.sweep k id).player id).map CPlayer.pos = (w.player id).map CPlayer.pos ∧
      (w.sweep k id).boss = w.boss ∧ (w.sweep k id).bossHits = w.bossHits := by
  refine sweep_induction (P := fun w' => (w'.player id).map CPlayer.pos =
    (w.player id).map CPlayer.pos ∧ w'.boss = w.boss ∧ w'.bossHits = w.bossHits) hc
    (fun i v v' hit hv => ?_) ⟨rfl,rfl,rfl⟩
  obtain ⟨hpos,hboss,hhits⟩ := hit.frame
  exact ⟨hpos.trans hv.1,hboss.trans hv.2.1,hhits.trans hv.2.2⟩

/-- The boss takes damage when the int distance is below the range, negative ones included. -/
theorem attckBoss_spec (hp : (w.player id).map CPlayer.pos = some p.pos) :
    (∀ i, (w.attckBoss id).hitCount i = w.hitCount i) ∧
      (w.bossHits < (w.attckBoss id).bossHits ↔
        ∃ b, w.boss = some b ∧ 0 < b.mainHP ∧ getDistance p.pos b.pos < attackRange) := by
  obtain ⟨q,hq,hpos⟩ := Option.map_eq_some_iff.mp hp
  simp only [attckBoss]
  split
  · rename_i q' b hq' hb
    cases hq.symm.trans hq'
    rw [hpos]
    split_ifs with hreach
    · have hfights := fights_hitBoss id 20 w
      constructor
      · intro i
        simp only [hitCount]
        rw [hfights, List.countP_append]
        rfl
      · refine iff_of_true ?_ ⟨b,hb,hreach⟩
        simp only [bossHits]
        rw [hfights, List.countP_append]
        exact Nat.lt_succ_self _
    · refine ⟨fun _ => rfl,iff_of_false (lt_irrefl _) ?_⟩
      rintro ⟨b',hb',hreach'⟩
      cases hb.symm.trans hb'
      exact hreach hreach'
  · rename_i hnone
    refine ⟨fun _ => rfl,iff_of_false (lt_irrefl _) ?_⟩
    rintro ⟨b,hb,-⟩
    exact hnone q b hq hb

end Sweep

end World

namespace AreaAttack
variable [FloatArith F] {a : AreaAttack} {id : Slot} {p : CPlayer F} {w w' : World F}

/-- What the blows of an attack count. -/
theorem blows_counts (hp : w.player id = some p) :
    (∀ i, w.hitCount i < (a.blows id w).hitCount i ↔
      ∃ m, w.monster i = some m ∧ World.Reaches a.sweepKind p.pos m) ∧
    (a = .attck → (w.bossHits < (a.blows id w).bossHits ↔
      ∃ b, w.boss = some b ∧ 0 < b.mainHP ∧ getDistance p.pos b.pos < attackRange)) := by
  cases a with
  | attck =>
    obtain ⟨hpos,hboss,hhits⟩ := World.sweep_frame (World.calm_attck id) w
    rw [hp] at hpos
    obtain ⟨hcount,hb⟩ := World.attckBoss_spec hpos
    rw [hboss, hhits] at hb
    rw [blows_attck]
    refine ⟨fun i => ?_,fun _ => hb⟩
    rw [hcount i]
    exact World.sweep_hitCount (World.calm_attck id) hp i
  | berserk =>
    rw [blows_berserk]
    exact ⟨World.sweep_hitCount (World.calm_berserk id) hp,fun h => by cases h⟩
  | assassinate =>
    rw [blows_assassinate]
    exact ⟨World.sweep_hitCount (World.calm_assassinate id) hp,fun h => by cases h⟩

theorem perform_counts (hp : w.player id = some p) (hready : a.Ready p) (now : ℕ) :
    (∀ i, w.hitCount i < (a.perform id p now w).hitCount i ↔
      ∃ m, w.monster i = some m ∧ World.Reaches a.sweepKind p.pos m) ∧
    (a = .attck → (w.bossHits < (a.perform id p now w).bossHits ↔
      ∃ b, w.boss = some b ∧ 0 < b.mainHP ∧ getDistance p.pos b.pos < attackRange)) := by
  obtain ⟨v,hv,hend⟩ := perform_blows hready id now w
  have hpos := hv.pos id
  rw [hp] at hpos
  obtain ⟨q,hq,hqpos⟩ := Option.map_eq_some_iff.mp hpos
  obtain ⟨hmonster,hboss⟩ := blows_counts (a := a) hq
  rw [hqpos, hv.boss, World.bossHits_congr hv.fights] at hboss
  constructor
  · intro i
    have hi := hmonster i
    rw [hqpos, hv.monster, World.hitCount_congr hv.fights] at hi
    rw [World.hitCount_congr hend.fights]
    exact hi
  · intro ha
    rw [World.bossHits_congr hend.fights]
    exact hboss ha

theorem range_pos (a : AreaAttack) : 0 < a.range ∧ a.range ≤ CInt.rootMax := by
  cases a
  · decide
  · decide
  · decide

theorem not_lt_of_bothOverflow {u v : ℤ × ℤ} {r : ℤ} (hr : 0 < r) (hr' : r ≤ CInt.rootMax)
    (h : BothOverflow u v) : ¬ planarDistance u v < r := by
  have hx : CInt.intMax < (u.1-v.1)^2 :=
    not_le.mp fun hle => absurd (CInt.sq_le_intMax.mp hle) (not_le.mpr h.1)
  have hy : 0 ≤ (u.2-v.2)^2 := sq_nonneg _
  have hr2 : r^2 ≤ CInt.intMax := CInt.sq_le_intMax.mpr (by rwa [abs_of_pos hr])
  rw [planarDistance_lt_iff hr]
  omega

/-- What an iteration reaches is in range, or far away on both axes. -/
theorem reaches_iff [ExactIntegers F] {l : Placement} (hplaced : Placed l p w) {i : MonsterId}
    {m : CMonster F} (hm : w.monster i = some m) : World.Reaches a.sweepKind p.pos m ↔
      0 < m.healthPoint ∧
        (planarDistance l.me (l.monster i) < a.range ∨ BothOverflow l.me (l.monster i)) := by
  have hd := hplaced.me.getDistance (hplaced.monster i m hm)
  have hrange := CInt.hypot_mem_range_iff (l.me.1-(l.monster i).1)
    (l.me.2-(l.monster i).2) a.range_pos.1 a.range_pos.2
  rw [← hd, ← planarDistance_lt_iff a.range_pos.1] at hrange
  constructor
  · intro hr
    have hlt := hr.lt_range
    rw [a.range_eq] at hlt
    exact ⟨lt_of_le_of_ne m.healthPoint_nonneg (Ne.symm hr.healthPoint),hrange.mp ⟨hr.nonneg,hlt⟩⟩
  · rintro ⟨hpos,hr⟩
    obtain ⟨hnonneg,hlt⟩ := hrange.mpr hr
    exact ⟨hpos.ne',by rw [a.range_eq]; exact hlt,hnonneg⟩

theorem boss_reach_iff [ExactIntegers F] {l : Placement} (hplaced : Placed l p w) {b : Boss F}
    (hb : w.boss = some b) : getDistance p.pos b.pos < attackRange ↔
      planarDistance l.me l.boss < attackRange ∨
        CInt.intMax < (l.me.1-l.boss.1)^2 + (l.me.2-l.boss.2)^2 := by
  rw [hplaced.me.getDistance (hplaced.boss b hb), planarDistance_lt_iff (by decide),
    CInt.hypot_lt_iff (by decide)]

/-- What overflows is hit from out of range. -/
theorem HitsExactly.inBounds [ExactIntegers F] {l : Placement} {now : ℕ}
    (hp : w.player id = some p) (hready : a.Ready p) (hplaced : Placed l p w)
    (h : a.HitsExactly l w (a.perform id p now w)) : a.InBounds l w := by
  obtain ⟨hmonster,hboss⟩ := perform_counts hp hready now
  constructor
  · intro i m hm hpos hover
    have hhit := (hmonster i).mpr ⟨m,hm,(reaches_iff hplaced hm).mpr ⟨hpos,Or.inr hover⟩⟩
    obtain ⟨-,-,-,hlt⟩ := (h.monster i).mp hhit
    exact not_lt_of_bothOverflow a.range_pos.1 a.range_pos.2 hover hlt
  · intro ha b hb hpos
    by_contra hover
    have hhit := (hboss ha).mpr ⟨b,hb,hpos,(boss_reach_iff hplaced hb).mpr (Or.inr (not_le.mp hover))⟩
    obtain ⟨-,-,-,hlt⟩ := (h.boss ha).mp hhit
    rw [planarDistance_lt_iff a.range_pos.1] at hlt
    have hr2 : a.range^2 ≤ CInt.intMax :=
      CInt.sq_le_intMax.mpr (by rw [abs_of_pos a.range_pos.1]; exact a.range_pos.2)
    omega

/-- An attack that its first tests let through hits exactly what is in range if and only if no
square that matters overflows. -/
theorem hits_exactly_iff [ExactIntegers F] (l : Placement) (hp : w.player id = some p)
    (hready : a.Ready p) (hplaced : Placed l p w) (now : ℕ) :
    a.HitsExactly l w (a.perform id p now w) ↔ a.InBounds l w := by
  obtain ⟨hmonster,hboss⟩ := perform_counts hp hready now
  refine ⟨HitsExactly.inBounds hp hready hplaced,fun h => ⟨fun i => ?_,fun ha => ?_⟩⟩
  · rw [hmonster i]
    constructor
    · rintro ⟨m,hm,hr⟩
      obtain ⟨hpos,hr⟩ := (reaches_iff hplaced hm).mp hr
      exact ⟨m,hm,hpos,hr.resolve_right (h.monster i m hm hpos)⟩
    · rintro ⟨m,hm,hpos,hlt⟩
      exact ⟨m,hm,(reaches_iff hplaced hm).mpr ⟨hpos,Or.inl hlt⟩⟩
  · subst ha
    rw [hboss rfl]
    constructor
    · rintro ⟨b,hb,hpos,hlt⟩
      have hlt := (boss_reach_iff hplaced hb).mp hlt
      exact ⟨b,hb,hpos,hlt.resolve_right (not_lt.mpr (h.boss rfl b hb hpos))⟩
    · rintro ⟨b,hb,hpos,hlt⟩
      exact ⟨b,hb,hpos,(boss_reach_iff hplaced hb).mpr (Or.inl hlt)⟩

end AreaAttack

/-- A player at the origin and a goblin on the diagonal. -/
def diagonal (d : ℤ) : World ℚ :=
  (World.empty.setPlayer 0 (some zeroPlayer)).setMonster 0
    (CMonster.initializeMonster (Position.lits d d 0) CMonster.objGoblin)

def onDiagonal (d : ℤ) : Placement := ⟨(0,0),fun _ => (d,d),(0,0)⟩

theorem diagonal_placed {d : ℤ} (h : InMap d) : Placed (onDiagonal d) zeroPlayer (diagonal d) where
  me := ⟨rfl,rfl,show InMap 0 by decide,show InMap 0 by decide⟩
  monster i m hm := by
    change Function.update (fun _ => none) 0 _ i = some m at hm
    rw [Function.update_apply] at hm
    split_ifs at hm
    cases hm
    exact ⟨rfl,rfl,h,h⟩
  boss b hb := by cases hb

namespace AreaAttack

theorem assassinate_near : assassinate.HitsExactly (onDiagonal 100) (diagonal 100)
    (assassinate.perform 0 zeroPlayer 0 (diagonal 100)) := by
  have hready : assassinate.Ready zeroPlayer := rfl
  apply (hits_exactly_iff (onDiagonal 100) rfl hready (diagonal_placed (by decide)) 0).mpr
  exact ⟨fun _ _ _ _ => show ¬ BothOverflow (0,0) (100,100) by decide,fun ha => by cases ha⟩

/-- A goblin that is 70000 away on both axes is hit. -/
theorem assassinate_far : ∃ (l : Placement) (w : World ℚ) (p : CPlayer ℚ), w.player 0 = some p ∧
    assassinate.Ready p ∧ Placed l p w ∧
      ¬ assassinate.HitsExactly l w (assassinate.perform 0 p 0 w) := by
  have hready : assassinate.Ready zeroPlayer := rfl
  have hplaced : Placed (onDiagonal 70000) zeroPlayer (diagonal 70000) := diagonal_placed (by decide)
  refine ⟨onDiagonal 70000,diagonal 70000,zeroPlayer,rfl,hready,hplaced,fun h => ?_⟩
  exact (h.inBounds rfl hready hplaced).monster 0 _ rfl (by decide)
    (show BothOverflow (0,0) (70000,70000) by decide)

end AreaAttack

end LastHero
