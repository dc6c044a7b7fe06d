import LastHero.Game.Rounded
import LastHero.Monster.Swing
import LastHero.Server.Steps

/-! A monster that has seen a lone player who stands still and does not defend itself. Every step of
Chase takes nearly three percent off the distance, so 63 of them end in the range of Attack, and
every Attack takes ten hit points; the player is dead after that many updates, whatever else the
server does meanwhile. -/
namespace LastHero
open FloatArith ExactFloat
variable {F : Type}

/-- The attacks that it takes to kill a player. -/
def CPlayer.blows (p : CPlayer F) : ℕ := max 1 ((p.healthPoint+9)/10).toNat

/-- A point of the map. -/
def Position.OnMap [FloatArith F] [ExactFloat F] (p : Position F) : Prop :=
  ∃ x y : ℚ, p.At x y ∧ sideMin ≤ x ∧ x ≤ sideMax ∧ sideMin ≤ y ∧ y ≤ sideMax

/-- An update of monster `i`. -/
def ServerInput.updates (i : MonsterId) : ServerInput F → Bool
  | .monster j .. => j = i
  | _ => false

namespace World

/-- `c` is the only living player, and does not defend itself. -/
structure Stands (c : Slot) (p : CPlayer F) (w : World F) : Prop where
  player : w.player c = some p
  isAlive : p.isAlive = true
  isGuard : p.isGuard = false
  isEvade : p.isEvade = false
  alone : ∀ d q, w.player d = some q → q.isAlive = true → d = c

/-- The player has died. -/
def Slain (c : Slot) (w : World F) : Prop := ∃ p, w.player c = some p ∧ p.isAlive = false

/-- A step that leaves the monster as it is and the player where it stands; it may hurt it. -/
def PassesBy (i : MonsterId) (c : Slot) (w w' : World F) : Prop :=
  w'.monster i = w.monster i ∧ ∀ p, w.Stands c p → w'.Slain c ∨
    ∃ q, w'.Stands c q ∧ q.pos = p.pos ∧ q.healthPoint ≤ p.healthPoint

section Stages
variable [FloatArith F] [ExactFloat F]

/-- The coordinates of a monster and of a player in its sight. -/
structure Facing (m : CMonster F) (p : CPlayer F) (a b x y : ℚ) : Prop where
  monster : m.pos.At a b
  player : p.pos.At x y
  x_near : |a-x| ≤ sightRange
  y_near : |b-y| ≤ sightRange

/-- How many updates away the death of the player is. -/
inductive Stage (c : Slot) (m : CMonster F) (p : CPlayer F) : ℕ → Prop
  | sees (hstate : m.state = .idleState) (hpos : 0 < getDistance m.pos p.pos)
      (hlt : getDistance m.pos p.pos < chaseRange) : Stage c m p (64+p.blows)
  | chases (n : ℕ) (a b x y : ℚ) (hstate : m.state = .chaseState) (htarget : m.target = some c)
      (hfacing : Facing m p a b x y) (hfar : 89996 ≤ (a-x)^2+(b-y)^2)
      (hn : (941/1000)^n*((a-x)^2+(b-y)^2) < 89996) : Stage c m p (n+p.blows)
  | strikes (hstate : m.state = .attackState) (htarget : m.target = some c)
      (hpos : 0 < getDistance m.pos p.pos) (hle : getDistance m.pos p.pos ≤ atkRange) :
      Stage c m p p.blows

/-- Monster `i` is at most `k` updates away from the death of player `c`. -/
def Hunted (i : MonsterId) (c : Slot) (k : ℕ) (w : World F) : Prop :=
  ∃ m p j, w.monster i = some m ∧ w.Stands c p ∧ 0 < m.healthPoint ∧ (∃ a b, m.pos.At a b) ∧
    p.pos.OnMap ∧ Stage c m p j ∧ j ≤ k

end Stages

variable {w w' : World F} {i : MonsterId} {c : Slot} {m m' : CMonster F} {p q : CPlayer F} {k : ℕ}

theorem one_le_blows (p : CPlayer F) : 1 ≤ p.blows := le_max_left _ _

theorem blows_mono (h : q.healthPoint ≤ p.healthPoint) : q.blows ≤ p.blows := by
  have hdiv := Int.ediv_le_ediv (show (0 : ℤ) < 10 by decide)
    (show q.healthPoint+9 ≤ p.healthPoint+9 by omega)
  exact max_le_max_left 1 (Int.toNat_le_toNat hdiv)

/-- An attack that is survived is one less. -/
theorem blows_hurt (h : 0 < p.healthPoint-monsterAtkPoint) :
    (p.hurt monsterAtkPoint).blows+1 ≤ p.blows := by
  unfold monsterAtkPoint at h
  simp only [CPlayer.blows, CPlayer.hurt, monsterAtkPoint]
  omega

/-- The world after a change of other things. -/
theorem Stands.congr (h : w.Stands c p) (hw : w'.player = w.player) : w'.Stands c p :=
  ⟨hw ▸ h.player,h.isAlive,h.isGuard,h.isEvade,fun d q hq => h.alone d q (hw ▸ hq)⟩

/-- A step that touches neither monster `i` nor a player, save that the players suffer. -/
structure SuffersBy (i : MonsterId) (w w' : World F) : Prop where
  monster : w'.monster i = w.monster i
  player : ∀ d, Option.Rel CPlayer.Suffers (w.player d) (w'.player d)

theorem SuffersBy.of_eq (hm : w'.monster i = w.monster i) (hp : w'.player = w.player) :
    SuffersBy i w w' := by
  refine ⟨hm,fun d => ?_⟩
  rw [hp]
  cases w.player d with
  | none => exact .none
  | some p => exact .some (.refl p)

theorem SuffersBy.trans {w'' : World F} (h : SuffersBy i w w') (h' : SuffersBy i w' w'') :
    SuffersBy i w w'' :=
  ⟨h'.monster.trans h.monster,fun d => rel_trans .trans (h.player d) (h'.player d)⟩

theorem suffersBy_modifyPlayer {f : CPlayer F → CPlayer F} (hf : ∀ p : CPlayer F, p.Suffers (f p))
    (d : Slot) (w : World F) : SuffersBy i w (w.modifyPlayer d f) := by
  refine ⟨rfl,fun e => ?_⟩
  rw [modifyPlayer_player]
  split_ifs with he
  · subst he
    cases w.player e with
    | none => exact .none
    | some p => exact .some (hf p)
  · cases w.player e with
    | none => exact .none
    | some p => exact .some (.refl p)

/-- The player may have been killed, or still stands there. -/
theorem SuffersBy.passesBy (h : SuffersBy i w w') : w.PassesBy i c w' := by
  refine ⟨h.monster,fun p hp => ?_⟩
  have hc := h.player c
  rw [hp.player] at hc
  generalize hq : w'.player c = x at hc
  cases hc with
  | some hs =>
    rename_i q
    cases halive : q.isAlive with
    | false => exact Or.inl ⟨q,hq,halive⟩
    | true =>
      refine Or.inr ⟨q,⟨hq,halive,?_,?_,fun d r hr hlive => ?_⟩,hs.pos,(hs.alive halive).2⟩
      · exact Bool.eq_false_iff.mpr fun hg => absurd (hs.guard hg) (by simp [hp.isGuard])
      · exact Bool.eq_false_iff.mpr fun he => absurd (hs.evade he) (by simp [hp.isEvade])
      · have hd := h.player d
        rw [hr] at hd
        generalize hd' : w.player d = y at hd
        cases hd with
        | some hs' => exact hp.alone d _ hd' (hs'.alive hlive).1

section Others
variable [FloatArith F] {turn : Turn}

theorem SuffersBy.deed (hc : turn ≠ .clients) (hi : turn ≠ .monster i) (hd : Deed turn w w') :
    SuffersBy i w w' := by
  cases hd with
  | send | update | appear | announce => exact .of_eq rfl rfl
  | player d f hf => exact suffersBy_modifyPlayer (hf.resolve_left hc) d w
  | timers _ _ hs => exact .of_eq (by rw [hs.monster]) hs.player
  | monster j m m' ht =>
    obtain rfl := ht.resolve_left hc
    have hne : i ≠ j := fun he => hi (he ▸ rfl)
    exact .of_eq (Function.update_of_ne hne ..) rfl
  | hurt id j m damage ht => exact absurd ht hc
  | slay id j m damage exp ht => exact absurd ht hc
  | boss b b' => exact .of_eq rfl rfl
  | wound id b _ hb =>
    have hb' : (w.record (.hitBoss id 20)).boss = some b := hb
    simp only [bossTakeDamage]
    rw [hb']
    dsimp only
    split_ifs
    · exact .of_eq rfl rfl
    · exact .of_eq rfl rfl

/-- The boss, the other monsters and the timers do not save the player. -/
theorem passesBy_serverNext {getPath : ℤ × ℤ → ℤ × ℤ → List (ℤ × ℤ)} {a : ServerInput F}
    (hc : a.turn ≠ .clients) (hi : a.updates i = false) (h : w.serverNext getPath a = some w') :
    w.PassesBy i c w' := by
  have hplain : ServerInput.Plain a := by
    cases a with
    | boss | monster | io => trivial
    | thread a =>
      cases a with
      | timer => trivial
      | accept | disconnect | packet | login | levelUp | dbTake | dbFinish => exact absurd rfl hc
  have hturn : a.turn ≠ .monster i := by
    intro ht
    cases a with
    | monster j => simp_all [ServerInput.turn, ServerInput.updates]
    | boss | io => cases ht
    | thread a => cases a <;> cases ht
  refine ((deeds_serverNext hplain h).lift (R := SuffersBy i) (fun _ => .of_eq rfl rfl) .trans
    fun _ _ => .deed hc hturn).passesBy

end Others

variable [FloatArith F]

/-- The only player is the target of an idle monster. -/
theorem executeIdleState_alone (i : MonsterId) (now : ℕ) (hp : w.Stands c p)
    (hhp : 0 < m.healthPoint) (hpos : 0 < getDistance m.pos p.pos)
    (hlt : getDistance m.pos p.pos < chaseRange) : ∃ m',
      w.executeIdleState i m now = .ok ((w.setMonster i m').monsterTimer i (now+1000)) ∧
        m'.target = some c ∧ m'.healthPoint = m.healthPoint ∧ m'.pos = m.pos ∧
        m'.state = if getDistance m.pos p.pos < atkRange then .attackState else .chaseState := by
  obtain ⟨q,hc,hq,hsight⟩ := chaseId_of_inSight ⟨c,p,hp.player,hp.isAlive,hpos.le,hlt⟩
  have hnearest : nearest (w.disArray m) = c := hp.alone _ q hq hsight.1
  rw [hnearest] at hc hq
  obtain rfl : p = q := Option.some.inj (hp.player.symm.trans hq)
  have haim : (({ m with target := some c } : CMonster F).target.bind w.player).isSome := by
    rw [Option.bind_some, hp.player]
    rfl
  have hhome := not_lt.mpr (getDistance_le_activityRange m.pos m.defaultPos)
  obtain ⟨m',hm',htarget⟩ := exists_changeState
    (if getDistance m.pos p.pos < atkRange then .attackState else .chaseState) haim
  obtain ⟨hstate,-,hsame,hpos'⟩ := changeState_spec hm'
  refine ⟨m',?_,htarget,hsame,hpos',hstate⟩
  have hbury : w.changeIf (m.healthPoint ≤ 0) .deadState m = .ok m := if_neg (not_le.mpr hhp)
  simp only [executeIdleState]
  rw [hbury]
  change w.watchOut i m now = _
  simp only [watchOut]
  simp only [hc, hp.player, not_lt.mpr hpos.le, if_false, hhome, hlt, if_true]
  split_ifs with hnear
  · rw [if_pos hnear] at hm'
    rw [hm']
    rfl
  · rw [if_neg hnear] at hm'
    rw [hm']
    rfl

/-- There is nobody else to turn to. -/
theorem updateTarget_alone (hp : w.Stands c p) (htarget : m.target = some c) :
    w.updateTarget m = .ok m := by
  have hstep : ∀ d, w.closer m (some c) d = .ok (some c) := by
    intro d
    simp only [closer]
    cases hd : w.player d with
    | none => rfl
    | some q =>
      dsimp only
      split_ifs with hdead hneg hless
      · rfl
      · rfl
      · rw [hp.alone d q hd (by simpa using hdead)]
      · rfl
  have hfold : ∀ l : List Slot, l.foldlM (w.closer m) (some c) = .ok (some c) := by
    intro l
    induction l with
    | nil => rfl
    | cons d l ih =>
      rw [List.foldlM_cons, hstep d]
      exact ih
  simp only [updateTarget]
  rw [htarget, hfold]
  change Except.ok _ = _
  rw [← htarget]

/-- A step of Chase, and what it decides behind it. -/
theorem executeChaseState_alone (now : ℕ) (hp : w.Stands c p) (hhp : 0 < m.healthPoint)
    (htarget : m.target = some c) : ∃ m' w',
      w.executeChaseState i m now = .ok w' ∧ w'.monster i = some m' ∧ w'.player = w.player ∧
        m'.target = some c ∧ m'.healthPoint = m.healthPoint ∧ m'.pos = (m.chase p.pos).pos ∧
        m'.state = if getDistance (m.chase p.pos).pos p.pos < atkRange then .attackState
          else m.state := by
  have hplayer : m.target.bind w.player = some p := by
    rw [htarget]
    exact hp.player
  simp only [executeChaseState]
  rw [if_neg (not_le.mpr hhp), updateTarget_alone hp htarget]
  dsimp only [bind, Except.bind]
  rw [hplayer]
  dsimp only
  split_ifs with hnear
  · have haim : ((m.chase p.pos).target.bind ((w.setMonster i (m.chase p.pos)).broadcast
        ((m.chase p.pos).makeUpdatePacket i)).player).isSome := by
      change (m.target.bind w.player).isSome
      rw [hplayer]
      rfl
    obtain ⟨m',hm',ht⟩ := exists_changeState .attackState haim
    obtain ⟨hstate,-,hsame,hpos⟩ := changeState_spec hm'
    rw [hm']
    exact ⟨m',_,rfl,Function.update_self ..,rfl,ht.trans htarget,hsame,hpos,hstate⟩
  · exact ⟨_,_,rfl,Function.update_self ..,rfl,htarget,rfl,rfl,rfl⟩

/-- An Attack in range. -/
theorem executeAttackState_alone (draw now : ℕ) (hp : w.Stands c p) (hhp : 0 < m.healthPoint)
    (htarget : m.target = some c)
    (hpos : 0 < getDistance m.pos p.pos) (hle : getDistance m.pos p.pos ≤ atkRange) : ∃ m' w',
      w.executeAttackState i m draw now = .ok w' ∧ w'.monster i = some m' ∧
        w'.player = Function.update w.player c
          (some (if p.healthPoint-monsterAtkPoint ≤ 0 then (p.hurt monsterAtkPoint).fall
            else p.hurt monsterAtkPoint)) ∧
        m'.target = some c ∧ m'.healthPoint = m.healthPoint ∧ m'.pos = m.pos ∧
        m'.state = m.state := by
  have hstart : (w.attackStart i (m.face p.pos) draw).player c = some p := by
    rw [attackStart_player]
    exact hp.player
  have hattack : w.monsterAttack i m c p draw =
      (m.face p.pos,(w.attackStart i (m.face p.pos) draw).attackEnd i (m.face p.pos) c p) := by
    simp only [monsterAttack]
    rw [if_neg (show ¬ attackRange < _ from not_lt.mpr hle), if_neg (not_le.mpr hpos)]
  have hblow : ((m.face p.pos).blow p).victim p =
      if p.healthPoint-monsterAtkPoint ≤ 0 then (p.hurt monsterAtkPoint).fall
        else p.hurt monsterAtkPoint := by
    simp only [CMonster.blow]
    rw [if_neg (by simp [hp.isGuard]), if_neg (by simp [hp.isEvade])]
    split_ifs
    · rfl
    · rfl
  have hfar : ¬ atkRange < getDistance (m.face p.pos).pos p.pos := not_lt.mpr hle
  simp only [executeAttackState]
  rw [if_neg (not_le.mpr hhp), htarget]
  dsimp only
  rw [hp.player]
  dsimp only
  rw [if_neg (by simp [hp.isAlive]), hattack]
  dsimp only
  rw [if_neg hfar, attackEnd_eq hstart, hblow]
  refine ⟨m.face p.pos,_,rfl,?_,?_,htarget,rfl,rfl,rfl⟩
  · change (broadcasts _ _).monster i = _
    rw [broadcasts_monster]
    exact attackStart_monster i (m.face p.pos) draw w
  · change (broadcasts _ _).player = _
    rw [broadcasts_player]
    change Function.update (w.attackStart i (m.face p.pos) draw).player c _ = _
    rw [attackStart_player]

section Approach
variable [ExactFloat F] [RoundedArith F] {a b x y : ℚ}

/-- A point of the map and what is in sight of it. -/
theorem coordinate_le {a x : ℚ} (hmin : sideMin ≤ x) (hmax : x ≤ sideMax) (h : |a-x| ≤ sightRange) :
    |a| ≤ 2^17 := by
  obtain ⟨h₁,h₂⟩ := abs_le.mp h
  unfold sightRange at h₁ h₂
  unfold sideMin at hmin
  unfold sideMax at hmax
  push_cast at hmin hmax
  exact abs_le.mpr ⟨by norm_num; linarith,by norm_num; linarith⟩

/-- One coordinate comes nearer. -/
theorem approach {u t : F} {a x : ℚ} (hu : value u = some a) (ht : value t = some x)
    (hmin : sideMin ≤ x) (hmax : x ≤ sideMax) (h : |a-x| ≤ sightRange) : ∃ a',
      value (add u (mul (sub t u) (lit monsterSpeed))) = some a' ∧
        |(a'-x)-97/100*(a-x)| ≤ 1/100 ∧ |a'-x| ≤ sightRange := by
  obtain ⟨a',ha',hnear⟩ := chase_coordinate hu ht (coordinate_le hmin hmax h)
    (by rwa [abs_sub_comm])
  have hflip : (a'-x)-97/100*(a-x) = -((x-a')-97/100*(x-a)) := by ring
  have hstep : |(a'-x)-97/100*(a-x)| ≤ 1/100 := by rwa [hflip, abs_neg]
  refine ⟨a',ha',hstep,?_⟩
  obtain ⟨h₁,h₂⟩ := abs_le.mp h
  obtain ⟨hs₁,hs₂⟩ := abs_le.mp hstep
  unfold sightRange at h₁ h₂ ⊢
  exact abs_le.mpr ⟨by linarith,by linarith⟩

/-- A step of Chase. -/
theorem Facing.chase (h : Facing m p a b x y) (hmap : p.pos.OnMap) : ∃ a' b',
    Facing (m.chase p.pos) p a' b' x y ∧ |(a'-x)-97/100*(a-x)| ≤ 1/100 ∧
      |(b'-y)-97/100*(b-y)| ≤ 1/100 := by
  obtain ⟨x',y',hat,hx,hx',hy,hy'⟩ := hmap
  obtain ⟨rfl,rfl⟩ := hat.inj h.player
  obtain ⟨a',ha,hnear,hsight⟩ := approach h.monster.x_value hat.x_value hx hx' h.x_near
  obtain ⟨b',hb,hnear',hsight'⟩ := approach h.monster.y_value hat.y_value hy hy' h.y_near
  exact ⟨a',b',⟨⟨ha,hb⟩,hat,hsight,hsight'⟩,hnear,hnear'⟩

omit [FloatArith F] [ExactFloat F] [RoundedArith F] in
/-- As long as the distance is long enough for the errors. -/
theorem gap_chase {dx dy dx' dy' : ℚ} (hx : |dx'-97/100*dx| ≤ 1/100)
    (hy : |dy'-97/100*dy| ≤ 1/100) (hfar : 89996 ≤ dx^2+dy^2) :
    80000 ≤ dx'^2+dy'^2 ∧ dx'^2+dy'^2 ≤ 941/1000*(dx^2+dy^2) := by
  obtain ⟨hx₁,hx₂⟩ := sq_perturbed hx
  obtain ⟨hy₁,hy₂⟩ := sq_perturbed hy
  constructor
  · linarith
  · linarith

variable [ExactSquares F]

/-- What comes after a monster has decided whether to attack. -/
theorem stage_of_decided {n : ℕ} (hfacing : Facing m p a b x y) (htarget : m.target = some c)
    (hstate : m.state = if getDistance m.pos p.pos < atkRange then .attackState else .chaseState)
    (hpos : 0 < getDistance m.pos p.pos)
    (hn : (941/1000)^n*((a-x)^2+(b-y)^2) < 89996) : ∃ j, Stage c m p j ∧ j ≤ n+p.blows := by
  by_cases hnear : getDistance m.pos p.pos < atkRange
  · rw [if_pos hnear] at hstate
    exact ⟨_,.strikes hstate htarget hpos hnear.le,Nat.le_add_left _ _⟩
  · rw [if_neg hnear] at hstate
    have hfar := le_sq_of_far hfacing.monster hfacing.player hfacing.x_near hfacing.y_near hnear
    exact ⟨_,.chases n a b x y hstate htarget hfacing hfar hn,le_rfl⟩

/-- An update of the monster takes it one stage further. -/
theorem Hunted.monsterUpdate (draw now : ℕ) (h : w.Hunted i c (k+1)) :
    ∃ w', w.monsterUpdate i draw now = .ok w' ∧ (w'.Slain c ∨ w'.Hunted i c k) := by
  obtain ⟨m,p,j,hm,hp,hhp,⟨a,b,hat⟩,hmap,hstage,hj⟩ := h
  have hplaced := hmap
  obtain ⟨x,y,hpat,-⟩ := hplaced
  rw [monsterUpdate_some hm]
  unfold monsterExecute
  cases hstage with
  | sees hstate hpos hlt =>
    obtain ⟨m',hok,htarget,hsame,hpos',hstate'⟩ := executeIdleState_alone i now hp hhp hpos hlt
    rw [← hpos'] at hat hpos hlt hstate'
    obtain ⟨hx,hy⟩ := sight_of_getDistance hat hpat hpos hlt
    have hn : (941/1000 : ℚ)^63*((a-x)^2+(b-y)^2) < 89996 := by
      have hle := sq_le_of_lt_chaseRange hat hpat hx hy hlt
      have hmul := mul_le_mul_of_nonneg_left hle (show (0 : ℚ) ≤ (941/1000)^63 by positivity)
      exact hmul.trans_lt (by norm_num)
    obtain ⟨j',hstage',hj'⟩ := stage_of_decided ⟨hat,hpat,hx,hy⟩ htarget hstate' hpos hn
    rw [hstate]
    refine ⟨_,hok,Or.inr ⟨m',p,j',Function.update_self ..,hp.congr rfl,hsame ▸ hhp,⟨a,b,hat⟩,hmap,
      hstage',by omega⟩⟩
  | chases n a' b' x' y' hstate htarget hfacing hfar hn =>
    obtain ⟨m',w',hok,hm',hplayer,htarget',hsame,hpos,hstate'⟩ :=
      executeChaseState_alone (i := i) now hp hhp htarget
    obtain ⟨a₁,b₁,hfacing',hx,hy⟩ := hfacing.chase hmap
    obtain ⟨hlow,hhigh⟩ := gap_chase hx hy hfar
    have hfacing₁ : Facing m' p a₁ b₁ x' y' :=
      ⟨hpos ▸ hfacing'.monster,hfacing'.player,hfacing'.x_near,hfacing'.y_near⟩
    have haway := getDistance_pos_of_le_sq hfacing₁.monster hfacing₁.player hfacing₁.x_near
      hfacing₁.y_near hlow
    rw [← hpos, hstate] at hstate'
    have hn0 : n ≠ 0 := by
      rintro rfl
      rw [pow_zero, one_mul] at hn
      linarith
    obtain ⟨n',rfl⟩ := Nat.exists_eq_succ_of_ne_zero hn0
    have hn' : (941/1000 : ℚ)^n'*((a₁-x')^2+(b₁-y')^2) < 89996 := by
      have hmul := mul_le_mul_of_nonneg_left hhigh (show (0 : ℚ) ≤ (941/1000)^n' by positivity)
      rw [pow_succ, mul_assoc] at hn
      exact hmul.trans_lt hn
    obtain ⟨j',hstage',hj'⟩ := stage_of_decided hfacing₁ htarget' hstate' haway hn'
    rw [hstate]
    exact ⟨w',hok,Or.inr ⟨m',p,j',hm',hp.congr hplayer,hsame ▸ hhp,⟨a₁,b₁,hfacing₁.monster⟩,hmap,
      hstage',by omega⟩⟩
  | strikes hstate htarget hpos hle =>
    obtain ⟨m',w',hok,hm',hplayer,htarget',hsame,hpos',hstate'⟩ :=
      executeAttackState_alone (i := i) draw now hp hhp htarget hpos hle
    rw [hstate]
    refine ⟨w',hok,?_⟩
    split_ifs at hplayer with hfatal
    · exact Or.inl ⟨_,by rw [hplayer, Function.update_self],rfl⟩
    · refine Or.inr ⟨m',p.hurt monsterAtkPoint,_,hm',?_,hsame ▸ hhp,⟨a,b,hpos' ▸ hat⟩,hmap,
        .strikes (hstate'.trans hstate) htarget' (hpos' ▸ hpos) (hpos' ▸ hle),?_⟩
      · refine ⟨by rw [hplayer, Function.update_self],hp.isAlive,hp.isGuard,hp.isEvade,?_⟩
        intro d q hq hlive
        by_contra hd
        rw [hplayer, Function.update_of_ne hd] at hq
        exact hd (hp.alone d q hq hlive)
      · have hless := blows_hurt (not_le.mp hfatal)
        omega

omit [RoundedArith F] [ExactSquares F] in
/-- A player that has been hurt meanwhile dies the sooner. -/
theorem Stage.hurt {j : ℕ} (h : Stage c m p j) (hpos : q.pos = p.pos)
    (hhp : q.healthPoint ≤ p.healthPoint) : ∃ j', Stage c m q j' ∧ j' ≤ j := by
  have hblows := blows_mono hhp
  cases h with
  | sees hstate hfar hlt =>
    rw [← hpos] at hfar hlt
    exact ⟨_,.sees hstate hfar hlt,by omega⟩
  | chases n a b x y hstate htarget hfacing hfar hn =>
    have hfacing' : Facing m q a b x y :=
      ⟨hfacing.monster,hpos ▸ hfacing.player,hfacing.x_near,hfacing.y_near⟩
    exact ⟨_,.chases n a b x y hstate htarget hfacing' hfar hn,by omega⟩
  | strikes hstate htarget hfar hle =>
    rw [← hpos] at hfar hle
    exact ⟨_,.strikes hstate htarget hfar hle,by omega⟩

omit [RoundedArith F] [ExactSquares F] in
theorem Hunted.congr (h : w.Hunted i c k) (hm : w'.monster = w.monster)
    (hw : w'.player = w.player) : w'.Hunted i c k := by
  obtain ⟨m,p,j,hmonster,hp,hrest⟩ := h
  exact ⟨m,p,j,hm ▸ hmonster,hp.congr hw,hrest⟩

omit [RoundedArith F] [ExactSquares F] in
/-- Other steps do not save the player. -/
theorem Hunted.passesBy (h : w.Hunted i c k) (hw : w.PassesBy i c w') :
    w'.Slain c ∨ w'.Hunted i c k := by
  obtain ⟨m,p,j,hm,hp,hhp,hat,hmap,hstage,hj⟩ := h
  obtain ⟨hmonster,hplayer⟩ := hw
  rcases hplayer p hp with hslain | ⟨q,hq,hpos,hle⟩
  · exact Or.inl hslain
  · obtain ⟨j',hstage',hj'⟩ := hstage.hurt hpos hle
    exact Or.inr ⟨m,q,j',hmonster.trans hm,hq,hhp,hat,hpos ▸ hmap,hstage',hj'.trans hj⟩

omit [RoundedArith F] [ExactSquares F] in
/-- The last stage is the blow that kills. -/
theorem not_hunted_zero (w : World F) : ¬ w.Hunted i c 0 := by
  rintro ⟨m,p,j,-,-,-,-,-,hstage,hj⟩
  have hone := one_le_blows p
  cases hstage <;> omega

omit [RoundedArith F] [ExactSquares F] in
/-- From the moment that an idle monster can see the player. -/
theorem hunted_of_sight (hm : w.monster i = some m) (hp : w.Stands c p) (hhp : 0 < m.healthPoint)
    (hat : m.pos.At a b) (hmap : p.pos.OnMap) (hstate : m.state = .idleState)
    (hpos : 0 < getDistance m.pos p.pos) (hlt : getDistance m.pos p.pos < chaseRange) :
    w.Hunted i c (64+p.blows) :=
  ⟨m,p,_,hm,hp,hhp,⟨a,b,hat⟩,hmap,.sees hstate hpos hlt,le_rfl⟩

/-- The hunt ends by the time the monster has been updated often enough. -/
theorem Hunted.kills {getPath : ℤ × ℤ → ℤ × ℤ → List (ℤ × ℤ)} {as : List (ServerInput F)}
    (h : w.Hunted i c k) (hrun : Runs.run (serverNext getPath) w as = some w')
    (hpasses : Runs.Along (serverNext getPath) (fun v a => a.turn = .clients →
      ∀ v', v.serverNext getPath a = some v' → v.PassesBy i c v') w as)
    (hcount : k ≤ as.countP (ServerInput.updates i)) :
    Runs.Visits (serverNext getPath) (Slain c) w as := by
  refine Runs.visits_of_progress not_hunted_zero ?_ ?_ h hpasses hrun hcount
  · intro k v a v' hv ha _ hstep
    cases a with
    | monster j draw now =>
      obtain rfl : j = i := by simpa [ServerInput.updates] using ha
      dsimp only [serverNext, monsterNext] at hstep
      split_ifs at hstep
      have hstage : (v.unpost (.evMonster j)).Hunted j c (k+1) := hv.congr rfl rfl
      obtain ⟨u,hok,hu⟩ := hstage.monsterUpdate draw now
      cases (toOption_eq_some hstep).symm.trans hok
      exact hu
    | thread | io | boss => cases ha
  · intro k v a v' hv ha hq hstep
    by_cases hc : a.turn = .clients
    · exact hv.passesBy (hq hc v' hstep)
    · exact hv.passesBy (passesBy_serverNext hc ha hstep)

/-- A lone player that stands still, in the sight of an idle monster and without defence, is killed
by the time the monster has been updated 64 times and once for each blow that it takes, in any order
with the steps of the boss, the other monsters and the timers, and with all steps of clients that
leave the monster and the place of the player as they are. -/
theorem hunt_kills {getPath : ℤ × ℤ → ℤ × ℤ → List (ℤ × ℤ)} (as : List (ServerInput F))
    (hm : w.monster i = some m) (hp : w.Stands c p) (hhp : 0 < m.healthPoint)
    (hat : m.pos.At a b) (hmap : p.pos.OnMap) (hstate : m.state = .idleState)
    (hpos : 0 < getDistance m.pos p.pos) (hlt : getDistance m.pos p.pos < chaseRange)
    (hrun : Runs.run (serverNext getPath) w as = some w')
    (hpasses : Runs.Along (serverNext getPath) (fun v a => a.turn = .clients →
      ∀ v', v.serverNext getPath a = some v' → v.PassesBy i c v') w as)
    (hcount : 64+p.blows ≤ as.countP (ServerInput.updates i)) :
    Runs.Visits (serverNext getPath) (Slain c) w as :=
  (hunted_of_sight hm hp hhp hat hmap hstate hpos hlt).kills hrun hpasses hcount

end Approach

def lurker : CMonster ℚ := { Battle.hunter with state := .idleState }

/-- A goblin with its events due, in sight of a player with ten hit points. -/
def field : World ℚ :=
  { (World.empty : World ℚ) with
    monster := fun i => if i = 0 then some lurker else none
    player := fun c => if c = 0 then some Battle.prey else none
    posted := List.replicate 65 (.evMonster 0) }

def fieldUpdates : List (ServerInput ℚ) := List.replicate 65 (.monster 0 0 0)

theorem hunt_kills_field :
    Runs.Visits (serverNext fun _ _ => []) (Slain 0) field fieldUpdates := by
  have hstands : field.Stands 0 Battle.prey := by
    refine ⟨rfl,rfl,rfl,rfl,fun d q hq _ => ?_⟩
    by_contra hd
    simp [field, hd] at hq
  have hrun : (Runs.run (serverNext fun _ _ => []) field fieldUpdates).isSome := by
    decide +kernel
  obtain ⟨w',hrun⟩ := Option.isSome_iff_exists.mp hrun
  have hgoblin : field.monster 0 = some lurker := rfl
  have hpos : 0 < getDistance lurker.pos Battle.prey.pos := by decide +kernel
  have hlt : getDistance lurker.pos Battle.prey.pos < chaseRange := by decide +kernel
  have hmap : Battle.prey.pos.OnMap := ⟨100,0,⟨rfl,rfl⟩,by norm_num [sideMin, sideMax]⟩
  have hupdates : ∀ v : World ℚ, ∀ a ∈ fieldUpdates, a.turn = .clients →
      ∀ v', v.serverNext (fun _ _ => []) a = some v' → v.PassesBy 0 0 v' := by
    intro v a ha hc
    rw [List.eq_of_mem_replicate ha] at hc
    cases hc
  exact hunt_kills (a := 0) (b := 0) fieldUpdates hgoblin hstands (by decide) ⟨rfl,rfl⟩ hmap rfl
    hpos hlt hrun (Runs.along_of_mem hupdates) (by decide)

end World

end LastHero
