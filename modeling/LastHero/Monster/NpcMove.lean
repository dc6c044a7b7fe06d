import LastHero.Game.Tracking
import LastHero.Support.Plane
import LastHero.Threads.System

/-! How far a client can move a monster with cs_npc_move. SetPosition accepts a position whose
distance is below 10, but a distance that overflows is negative or 0. -/
namespace LastHero
open FloatArith ExactFloat
variable {F : Type} [FloatArith F] [ExactFloat F]

/-- The coordinates, if both are finite. -/
def Position.point (p : Position F) : Option (ℚ × ℚ) :=
  (value p.x).bind fun x => (value p.y).map fun y => (x,y)

/-- Where a monster is. -/
def World.monsterPoint (i : MonsterId) (w : World F) : Option (ℚ × ℚ) :=
  (w.monster i).bind fun m => m.pos.point

/-- A cs_npc_move packet with integer coordinates. -/
structure NpcMove (F : Type) [FloatArith F] [ExactFloat F] where
  uid : Slot
  buf : Buffer
  now : Now
  type_eq : CsType.ofByte (buf.byteAt 1) = some .csNpcMove
  x : ℤ
  y : ℤ
  x_le : |x| ≤ 10^6
  y_le : |y| ≤ 10^6
  pos : (Position.ofBuffer buf 4 : Position F).At x y

/-- ProcessPacket -/
def World.npcMove (w : World F) (a : NpcMove F) : Option (World F) :=
  (w.processPacket a.uid a.buf a.now).toOption

/-- The packet is for the monster, and the sum of the squares overflows or is too small for the
true distance. -/
def NpcMove.Misjudged (i : MonsterId) (w : World F) (a : NpcMove F) : Prop :=
  MonsterId.ofOid (a.buf.short 2) = some i ∧ ∃ x y : ℚ, w.monsterPoint i = some (x,y) ∧
    (CInt.intMax < roundedSquares F (x-a.x) (y-a.y) ∨
      roundedSquares F (x-a.x) (y-a.y) < 10^2 ∧ 10^2 ≤ (x-a.x)^2+(y-a.y)^2)

variable {p q : Position F} {m : CMonster F} {w w' : World F} {i : MonsterId} {a : NpcMove F}
  {x y : ℚ}

theorem Position.point_eq_some : p.point = some (x,y) ↔ p.At x y := by
  simp only [point, Option.bind_eq_some_iff, Option.map_eq_some_iff, Prod.mk.injEq]
  constructor
  · rintro ⟨_,hx,_,hy,rfl,rfl⟩
    exact ⟨hx,hy⟩
  · rintro ⟨hx,hy⟩
    exact ⟨x,hx,y,hy,rfl,rfl⟩

theorem World.npcMove_eq (h : w.npcMove a = some w') : w' = w.onNpcMove a.buf := by
  have hok := toOption_eq_some h
  simp only [processPacket, a.type_eq, onType] at hok
  cases hok
  rfl

/-- A packet for another monster leaves this one alone. -/
theorem World.npcMove_other (hother : MonsterId.ofOid (a.buf.short 2) ≠ some i)
    (h : w.npcMove a = some w') : w'.monsterPoint i = w.monsterPoint i := by
  rw [npcMove_eq h]
  simp only [monsterPoint, onNpcMove]
  split_ifs
  · split
    · rfl
    · rename_i j hj
      have hne : i ≠ j := fun hij => hother (hij ▸ hj)
      split
      · rfl
      · simp only [setMonster, Function.update_of_ne hne]
  · rfl

/-- A packet for the monster goes through SetPosition. -/
theorem World.npcMove_self (hself : MonsterId.ofOid (a.buf.short 2) = some i)
    (hm : w.monster i = some m) (h : w.npcMove a = some w') :
    w'.monsterPoint i = (m.setPosition (.ofBuffer a.buf 4)).pos.point := by
  have hlt : a.buf.short 2 < bossIdx := by
    unfold MonsterId.ofOid at hself
    split_ifs at hself with hrange
    exact hrange.2
  rw [npcMove_eq h]
  simp only [monsterPoint, onNpcMove, if_pos hlt, hself, hm, setMonster, Function.update_self,
    Option.bind_some]
  rw [updateWithClient_pos]

theorem World.placed_npcMove (hplaced : (w.monsterPoint i).isSome) (h : w.npcMove a = some w') :
    (w'.monsterPoint i).isSome := by
  by_cases hself : MonsterId.ofOid (a.buf.short 2) = some i
  · obtain ⟨u,hpoint⟩ := Option.isSome_iff_exists.mp hplaced
    obtain ⟨m,hm,hpos⟩ := Option.bind_eq_some_iff.mp hpoint
    rw [npcMove_self hself hm h, CMonster.setPosition]
    split_ifs
    · rw [Position.point_eq_some.mpr a.pos, Option.isSome_some]
    · rw [hpos, Option.isSome_some]
  · rw [npcMove_other hself h]
    exact hplaced

variable [ExactSquares F]

/-- SetPosition moves a monster by less than 10 if and only if it does not misjudge the distance. -/
theorem CMonster.near_setPosition_iff {a b : ℤ} (hp : m.pos.At x y) (hq : q.At a b) :
    (∃ v, (m.setPosition q).pos.point = some v ∧ Plane.dist (x,y) v < (10 : ℚ)) ↔
      ¬ (CInt.intMax < roundedSquares F (x-a) (y-b) ∨
        roundedSquares F (x-a) (y-b) < 10^2 ∧ 10^2 ≤ (x-a)^2+(y-b)^2) := by
  have htest : getDistance m.pos q < 10 ↔ roundedSquares F (x-a) (y-b) < 10^2 ∨
      CInt.intMax < roundedSquares F (x-a) (y-b) := by
    rw [getDistance_eq_rounded hp hq]
    exact root_rounded_lt_iff (x-a) (y-b) (by decide)
  simp only [setPosition]
  split_ifs with hmoves
  · have hpoint : q.point = some ((a : ℚ),(b : ℚ)) := Position.point_eq_some.mpr hq
    have hnear : (∃ v, q.point = some v ∧ Plane.dist (x,y) v < (10 : ℚ)) ↔
        (x-a)^2+(y-b)^2 < 10^2 := by
      rw [← Plane.dist_lt_iff (p := (x,y)) (q := ((a : ℚ),(b : ℚ))) (by norm_num), hpoint]
      simp
    rw [hnear]
    constructor
    · rintro hclose (hover | ⟨-,hfar⟩)
      · have hlong := lt_of_overflow (F := F) hover
        unfold CInt.intMax at hlong
        push_cast at hlong
        linarith
      · exact absurd hclose (not_lt.mpr hfar)
    · intro hjudged
      refine not_le.mp fun hfar => hjudged ?_
      exact (htest.mp hmoves).symm.imp_right fun hsmall => ⟨hsmall,hfar⟩
  · have hpoint : m.pos.point = some (x,y) := Position.point_eq_some.mpr hp
    have hjudged := mt htest.mpr hmoves
    refine iff_of_true ⟨_,hpoint,?_⟩ fun hbad => hjudged (hbad.symm.imp_left And.left)
    rw [Plane.dist_lt_iff (by norm_num)]
    norm_num

/-- One packet moves the monster by less than 10 if and only if it is not misjudged. -/
theorem World.npcMove_near_iff (hplaced : (w.monsterPoint i).isSome) (h : w.npcMove a = some w') :
    Plane.Near (monsterPoint i) 10 w w' ↔ ¬ a.Misjudged i w := by
  obtain ⟨⟨x,y⟩,hpoint⟩ := Option.isSome_iff_exists.mp hplaced
  obtain ⟨m,hm,hpos⟩ := Option.bind_eq_some_iff.mp hpoint
  by_cases hself : MonsterId.ofOid (a.buf.short 2) = some i
  · have hiff := CMonster.near_setPosition_iff (Position.point_eq_some.mp hpos) a.pos
    rw [← npcMove_self hself hm h] at hiff
    have hnear : Plane.Near (monsterPoint i) 10 w w' ↔
        ∃ v, w'.monsterPoint i = some v ∧ Plane.dist (x,y) v < (10 : ℚ) := by
      simp [Plane.Near, hpoint]
    have hjudged : a.Misjudged i w ↔ CInt.intMax < roundedSquares F (x-a.x) (y-a.y) ∨
        roundedSquares F (x-a.x) (y-a.y) < 10^2 ∧ 10^2 ≤ (x-a.x)^2+(y-a.y)^2 := by
      simp [NpcMove.Misjudged, hself, hpoint]
    rw [hnear, hiff, hjudged]
  · refine iff_of_true ⟨(x,y),(x,y),hpoint,?_,?_⟩ fun hbad => hself hbad.1
    · rw [npcMove_other hself h, hpoint]
    · rw [Plane.dist_lt_iff (by norm_num)]
      norm_num

/-- Clients move a monster by less than 10 with each packet, and by less than 10 times their number
with several, if and only if no packet is misjudged. -/
theorem World.dragged_iff (as : List (NpcMove F)) (hplaced : (w.monsterPoint i).isSome) :
    (Runs.Along npcMove (fun w a => ∀ w', w.npcMove a = some w' →
        Plane.Near (monsterPoint i) 10 w w') w as ∧
      (as ≠ [] → ∀ w', Runs.run npcMove w as = some w' →
        Plane.Near (monsterPoint i) (as.length*10) w w')) ↔
      Runs.Along npcMove (fun w a => ¬ a.Misjudged i w) w as := by
  have hsteps : Runs.Along npcMove (fun w a => ∀ w', w.npcMove a = some w' →
      Plane.Near (monsterPoint i) 10 w w') w as ↔
        Runs.Along npcMove (fun w a => ¬ a.Misjudged i w) w as := by
    refine Runs.along_congr_of (fun w a w' => placed_npcMove) (fun w a w' hw hstep => ?_) hplaced
    rw [← npcMove_near_iff hw hstep]
    constructor
    · exact fun h => h w' hstep
    · intro h u hu
      cases hstep.symm.trans hu
      exact h
  rw [← hsteps]
  exact and_iff_left_of_imp fun h hne w' hrun => Plane.near_run h hne hrun

/-- A goblin in the middle of the map. -/
def meadow : World ℚ where
  __ := (World.empty : World ℚ)
  monster _ := some (CMonster.initializeMonster (Position.lits 0 0 0) CMonster.objGoblin)

/-- A client reports it at (50000,0). -/
def faraway : NpcMove ℚ where
  uid := 0
  buf := Buffer.zero.fill [16,69,16,39,0,80,67,71,0,0,0,0,0,0,0,0]
  now := ⟨0,true⟩
  type_eq := by decide
  x := 50000
  y := 0
  x_le := by decide
  y_le := by decide
  pos := ⟨by decide +kernel,by decide +kernel⟩

theorem World.dragged_meadow : (Runs.Along npcMove (fun w a => ∀ w', w.npcMove a = some w' →
        Plane.Near (monsterPoint 0) 10 w w') meadow [faraway] ∧
      ([faraway] ≠ [] → ∀ w', Runs.run npcMove meadow [faraway] = some w' →
        Plane.Near (monsterPoint 0) (([faraway] : List (NpcMove ℚ)).length*10) meadow w')) ↔
      Runs.Along npcMove (fun w a => ¬ a.Misjudged 0 w) meadow [faraway] :=
  dragged_iff _ rfl

/-- One packet moves the goblin by 50000. -/
theorem World.goblin_teleported : ∃ (w : World ℚ) (i : MonsterId) (as : List (NpcMove ℚ)),
    (w.monsterPoint i).isSome ∧
      ¬ (Runs.Along npcMove (fun w a => ∀ w', w.npcMove a = some w' →
          Plane.Near (monsterPoint i) 10 w w') w as ∧
        (as ≠ [] → ∀ w', Runs.run npcMove w as = some w' →
          Plane.Near (monsterPoint i) (as.length*10) w w')) := by
  refine ⟨meadow,0,[faraway],rfl,fun h => ?_⟩
  have hmoved :
      (meadow.npcMove faraway).any (fun w => w.monsterPoint 0 = some (50000,0)) = true := by
    decide +kernel
  obtain ⟨w,hw,hpoint⟩ := (Option.any_eq_true _ _).mp hmoved
  obtain ⟨p,q,hp,hq,hnear⟩ := (h.1 w hw).1 w hw
  rw [Plane.dist_lt_iff (by norm_num)] at hnear
  cases (of_decide_eq_true hpoint).symm.trans hq
  cases (show meadow.monsterPoint 0 = some (0,0) from rfl).symm.trans hp
  norm_num at hnear

end LastHero
