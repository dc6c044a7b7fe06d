import LastHero.Threads.System

/-! The limbs of the boss and its attacks. An Execute leaves the limbs alone and announces only
attacks that they allow, also when they broke after the attack was chosen. -/
namespace LastHero
variable {F : Type}

inductive Limb
  | leg
  | rightArm
  | leftArm
  deriving DecidableEq

def Part.limb : Part → Limb
  | .rHand | .rForearm | .rUpperarm => .rightArm
  | .lHand | .lForearm | .lUpperarm => .leftArm
  | _ => .leg

namespace Boss

/-- What only damage changes. -/
def limbs (b : Boss F) : HealthPoint × IsDestroy × (Part → ℤ) × ℤ :=
  (b.healthPoint,b.isDestroy,b.boneMap,b.mainHP)

/-- A part of the limb is destroyed. -/
def Broken (l : Limb) (b : Boss F) : Prop := ∃ p, p.limb = l ∧ b.isDestroy.part p = true

/-- The law of the attacks: on the ground with broken legs only, and with whole arms. -/
structure Strikes (b : Boss F) (atk : BState) : Prop where
  down : b.Broken .leg ↔ atk = .bDownAtkR ∨ atk = .bDownAtkL ∨ atk = .bDownAtkSweep
  right : atk = .bDownAtkR → ¬ b.Broken .rightArm
  left : atk = .bDownAtkL ∨ atk = .bDownAtkSweep → ¬ b.Broken .leftArm

theorem any_iff_broken {l : Limb} (b : Boss F) (parts : List Part)
    (hparts : ∀ p, p ∈ parts ↔ p.limb = l) : parts.any b.isDestroy.part = true ↔ b.Broken l := by
  simp only [List.any_eq_true, hparts, Broken]

theorem isLegBroken_iff (b : Boss F) : b.isLegBroken = true ↔ b.Broken .leg := by
  rw [← any_iff_broken b [.rFoot,.rThigh,.rCalf,.lFoot,.lThigh,.lCalf]
    fun p => by cases p <;> decide]
  simp [isLegBroken, or_assoc]

theorem isRHandBroken_iff (b : Boss F) : b.isRHandBroken = true ↔ b.Broken .rightArm := by
  rw [← any_iff_broken b [.rForearm,.rUpperarm,.rHand] fun p => by cases p <;> decide]
  simp [isRHandBroken, or_assoc]

theorem isLHandBroken_iff (b : Boss F) : b.isLHandBroken = true ↔ b.Broken .leftArm := by
  rw [← any_iff_broken b [.lForearm,.lUpperarm,.lHand] fun p => by cases p <;> decide]
  simp [isLHandBroken, or_assoc]

theorem Strikes.congr {b b' : Boss F} {atk : BState} (h : b.Strikes atk)
    (hd : b'.isDestroy = b.isDestroy) : b'.Strikes atk := by
  have hbroken : ∀ l, b'.Broken l ↔ b.Broken l := by
    intro l
    simp only [Broken]
    rw [hd]
  exact ⟨(hbroken _).trans h.down,fun ha => mt (hbroken _).mp (h.right ha),
    fun ha => mt (hbroken _).mp (h.left ha)⟩

end Boss

/-- What an Execute may send: turns, and attacks that the limbs allow. -/
def Act.Allowed (b : Boss F) : Act F → Prop
  | .send _ (.scSetRotation ..) => True
  | .send _ (.scBossAttack _ atk _) => b.Strikes atk
  | _ => False

/-- The attack of the boss that a packet announces. -/
def Act.strike : Act F → Option BState
  | .send _ (.scBossAttack _ atk _) => some atk
  | _ => none

/-- The receiver of the news that a part is broken. -/
def Act.breaks (p : Part) : Act F → Option Slot
  | .send i (.scBoneBreak _ q) => if q = p then some i else none
  | _ => none

/-- What happens to the boss next: an Update, a BoneMapUpdate, the attack of a player, a new
position from a client, or a change of the players. -/
inductive LimbInput (F : Type)
  | update (draw now : ℕ)
  | bones (newBoneMap : ℕ → ℤ)
  | hit (attacker : Slot)
  | bossMove (uid : Slot) (buf : Buffer)
  | players (f : Slot → Option (CPlayer F))

namespace World

/-- The attacks of the boss so far, one for each packet. -/
def strikes (w : World F) : List BState := w.trace.filterMap Act.strike

/-- The players that were told that a part is broken. -/
def breakNews (p : Part) (w : World F) : List Slot := w.trace.filterMap (Act.breaks p)

/-- The hit points of the boss are gone. -/
def Felled (w : World F) : Prop := ∃ b, w.boss = some b ∧ b.mainHP ≤ 0

variable {w w' w'' : World F} {b b' : Boss F}

/-- Only allowed packets are sent. -/
def Sends (b : Boss F) (w w' : World F) : Prop :=
  ∃ new, w'.trace = w.trace ++ new ∧ ∀ a ∈ new, a.Allowed b

/-- What an Execute does to the limbs, and what it sends. -/
structure Poses (b : Boss F) (w w' : World F) : Prop where
  boss : ∃ b', w'.boss = some b' ∧ b'.limbs = b.limbs
  sends : Sends b w w'

theorem Sends.of_eq (h : w'.trace = w.trace) : Sends b w w' :=
  ⟨[],by rw [h, List.append_nil],by simp⟩

theorem Sends.trans (h : Sends b w w') (h' : Sends b w' w'') : Sends b w w'' :=
  append_trans (fun _ ha => ha) h h'

theorem sends_broadcast {p : Packet F} (hp : ∀ i, (Act.send i p).Allowed b) (w : World F) :
    Sends b w (w.broadcast p) := by
  refine ⟨_,rfl,fun a ha => ?_⟩
  obtain ⟨i,-,rfl⟩ := List.mem_map.mp ha
  exact hp i

theorem Poses.of_eq (hb : w'.boss = some b') (hl : b'.limbs = b.limbs) (ht : w'.trace = w.trace) :
    Poses b w w' := ⟨⟨b',hb,hl⟩,.of_eq ht⟩

/-- The attacks of a boss that stands. -/
theorem strikes_standing {atk : BState} (hleg : b.isLegBroken = false)
    (hatk : atk ≠ .bDownAtkR ∧ atk ≠ .bDownAtkL ∧ atk ≠ .bDownAtkSweep) : b.Strikes atk := by
  have hwhole : ¬ b.Broken .leg := by
    rw [← b.isLegBroken_iff, hleg]
    exact Bool.false_ne_true
  exact ⟨iff_of_false hwhole (by simp [hatk]),fun h => absurd h hatk.1,by simp [hatk]⟩

/-- The attacks of a boss on the ground. -/
theorem strikes_down {draw : ℕ} {atk : BState} (hleg : b.isLegBroken = true)
    (h : downAttack b draw = some atk) : b.Strikes atk := by
  have hbroken := b.isLegBroken_iff.mp hleg
  have hleft : b.isLHandBroken = false → b.Strikes .bDownAtkL ∧ b.Strikes .bDownAtkSweep := by
    intro hl
    have hwhole : ¬ b.Broken .leftArm := by simp [← b.isLHandBroken_iff, hl]
    exact ⟨⟨by simpa using hbroken,by simp,fun _ => hwhole⟩,
      by simpa using hbroken,by simp,fun _ => hwhole⟩
  have hright : b.isRHandBroken = false → b.Strikes .bDownAtkR := by
    intro hr
    have hwhole : ¬ b.Broken .rightArm := by simp [← b.isRHandBroken_iff, hr]
    exact ⟨by simpa using hbroken,fun _ => hwhole,by simp⟩
  unfold downAttack at h
  cases hl : b.isLHandBroken with
  | true =>
    cases hr : b.isRHandBroken with
    | true => simp [hl, hr] at h
    | false =>
      simp only [hl, hr, if_true, Bool.false_eq_true, if_false] at h
      cases h
      exact hright hr
  | false =>
    cases hr : b.isRHandBroken with
    | true =>
      simp only [hl, hr, if_true, Bool.false_eq_true, if_false] at h
      split_ifs at h
      · cases h
        exact (hleft hl).1
      · cases h
        exact (hleft hl).2
    | false =>
      simp only [hl, hr, Bool.false_eq_true, if_false] at h
      split at h
      · cases h
        exact (hleft hl).1
      · cases h
        exact hright hr
      · cases h
        exact (hleft hl).2

section Execute
variable [FloatArith F]

theorem sends_attack {atk : BState} (hs : b.Strikes atk) (b' : Boss F) (p : CPlayer F)
    (w : World F) : Sends b w ((w.turnTo b' p).announce atk p) := by
  have hturn : Sends b w (w.turnTo b' p) :=
    sends_broadcast (p := .scSetRotation bossIdx (facing (getDegree b'.pos p.pos)))
      (fun _ => trivial) w
  exact hturn.trans (sends_broadcast (p := .scBossAttack bossIdx atk p.pos) (fun _ => hs) _)

theorem poses_strike {atk : BState} {delay now : ℕ}
    (hatk : atk ≠ .bDownAtkR ∧ atk ≠ .bDownAtkL ∧ atk ≠ .bDownAtkSweep) :
    Poses b w (executeStrike atk delay b now w) := by
  simp only [executeStrike]
  split
  · exact .of_eq rfl rfl rfl
  · rename_i p _
    split_ifs with hleg
    · exact .of_eq rfl rfl rfl
    · refine ⟨⟨b.changeState .bossAttack,rfl,rfl⟩,?_⟩
      exact (sends_attack (strikes_standing (Bool.eq_false_iff.mpr hleg) hatk) b p w).trans
        (.of_eq rfl)

theorem poses_down {draw now : ℕ} : Poses b w (w.executeDownAttack b draw now) := by
  unfold executeDownAttack
  split
  · exact .of_eq rfl rfl rfl
  · rename_i p _
    split_ifs with hleg
    · exact .of_eq rfl rfl rfl
    · have hturn : Sends b w ((w.setBoss b).turnTo b p) :=
        sends_broadcast (p := .scSetRotation bossIdx (facing (getDegree b.pos p.pos)))
          (fun _ => trivial) (w.setBoss b)
      dsimp only
      split
      · exact ⟨⟨b,rfl,rfl⟩,hturn⟩
      · rename_i atk hatk
        refine ⟨⟨b.changeState .bossAttack,rfl,rfl⟩,?_⟩
        have hdown : b.Strikes atk := strikes_down (by simpa using hleg) hatk
        exact (hturn.trans (sends_broadcast (p := .scBossAttack bossIdx atk p.pos)
          (fun _ => hdown) _)).trans (.of_eq rfl)

theorem poses_idle {now : ℕ} : Poses b w (w.executeIdle b now) := by
  simp only [executeIdle]
  refine .of_eq rfl ?_ rfl
  split_ifs
  · rfl
  · rfl

/-- A choice of attack changes the target only. A normal attack is for a boss that stands. -/
theorem bossAttackChoice_limbs {draw : ℕ} {atk : BState}
    (h : w.bossAttackChoice b draw = (b',atk)) :
    b'.limbs = b.limbs ∧ (atk = .bNormalAtk → b.isLegBroken = false) := by
  unfold bossAttackChoice at h
  dsimp only at h
  -- the boss with its new target
  generalize haim : (if (w.player (slots.foldl (scanTarget b w) (0,bossActivityRange)).1).isSome
    then _ else b) = b₁ at h
  have hsame : b₁.limbs = b.limbs := by
    subst haim
    split_ifs
    · rfl
    · rfl
  have hlegs : b₁.isLegBroken = b.isLegBroken := by
    simp only [Boss.limbs, Prod.mk.injEq] at hsame
    simp only [Boss.isLegBroken]
    rw [hsame.2.1]
  split_ifs at h with hfar hleg
  · cases h
    exact ⟨hsame,by simp⟩
  · cases h
    exact ⟨hsame,by simp⟩
  · have hwhole : b.isLegBroken = false := hlegs ▸ Bool.eq_false_iff.mpr hleg
    split at h
    · cases h
      exact ⟨hsame,by simp⟩
    · cases h
      exact ⟨hsame,fun _ => hwhole⟩

theorem poses_attack {draw now : ℕ} (h : w.executeAttack b draw now = .ok w') : Poses b w w' := by
  unfold executeAttack at h
  cases hc : w.bossAttackChoice b draw with
  | mk b' atk =>
    obtain ⟨hlimbs,hnormal⟩ := bossAttackChoice_limbs hc
    rw [hc] at h
    dsimp only at h
    split_ifs at h with hatk hatk'
    · cases h
      exact .of_eq rfl hlimbs rfl
    · split at h
      · cases h
      · rename_i p _
        cases h
        have hset : Sends b w (w.setBoss b') := .of_eq rfl
        have hstrikes : b.Strikes .bNormalAtk := strikes_standing (hnormal hatk') (by simp)
        have hattack := hset.trans (sends_attack hstrikes b' p (w.setBoss b'))
        exact ⟨⟨b',rfl,hlimbs⟩,hattack.trans (.of_eq rfl)⟩
    · cases h
      exact .of_eq rfl hlimbs rfl

theorem poses_chase {getPath : ℤ × ℤ → ℤ × ℤ → List (ℤ × ℤ)}
    (h : w.executeChase getPath b = .ok w') : Poses b w w' := by
  have hchase : ∀ {c next}, w.bossChase getPath b = .ok (c,next) → c.limbs = b.limbs := by
    intro c next hc
    unfold bossChase at hc
    dsimp only at hc
    split at hc
    · cases hc
      rfl
    · split at hc
      · cases hc
      · cases hc
      · split_ifs at hc
        · cases hc
          rfl
        · split at hc
          · cases hc
          · split_ifs at hc <;> cases hc <;> rfl
  unfold executeChase at h
  split_ifs at h with hfoot
  · cases h
    exact .of_eq rfl rfl rfl
  · cases hc : w.bossChase getPath b with
    | error e => rw [hc] at h; cases h
    | ok r =>
      obtain ⟨c,next⟩ := r
      rw [hc] at h
      cases h
      refine .of_eq rfl ?_ rfl
      rw [← hchase hc]
      split_ifs
      · rfl
      · rfl

/-- Every class derived from BossState. -/
theorem poses_bossExecute {getPath : ℤ × ℤ → ℤ × ℤ → List (ℤ × ℤ)} {draw now : ℕ}
    (h : w.bossExecute getPath b draw now = .ok w') : Poses b w w' := by
  unfold bossExecute at h
  cases hstate : b.state with
  | bossIdle =>
    rw [hstate] at h
    cases h
    exact poses_idle
  | bossChase =>
    rw [hstate] at h
    exact poses_chase h
  | bossAttack =>
    rw [hstate] at h
    exact poses_attack h
  | bossDead =>
    rw [hstate] at h
    cases h
    exact .of_eq rfl rfl rfl
  | bossDownAttack =>
    rw [hstate] at h
    cases h
    exact poses_down
  | bossDashAttack | bossSwingAttack | bossStrikeAttack | bossThrowAttack | bossStompAttack
    | bossIceSpearAttack | bossHandClapAttack | bossPunchAttack =>
    rw [hstate] at h
    cases h
    exact poses_strike (by simp)

/-- An Update of a dead boss, or of a living one. -/
theorem bossUpdate_cases {getPath : ℤ × ℤ → ℤ × ℤ → List (ℤ × ℤ)} {draw now : ℕ}
    (hb : w.boss = some b) (h : w.bossUpdate getPath draw now = .ok w') :
    (¬ b.Alive ∧ w' = w.setBoss (b.changeState .bossDead)) ∨
      (b.Alive ∧ Poses b.isPartDestroyed w w') := by
  unfold bossUpdate at h
  rw [hb] at h
  dsimp only at h
  simp only [Boss.Alive]
  split_ifs at h with hdead
  · cases h
    exact Or.inl ⟨by omega,rfl⟩
  · exact Or.inr ⟨by omega,poses_bossExecute h⟩

end Execute

theorem Sends.strikes (h : Sends b w w') :
    ∃ new, w'.strikes = w.strikes ++ new ∧ ∀ atk ∈ new, b.Strikes atk := by
  obtain ⟨new,htrace,hnew⟩ := h
  refine ⟨new.filterMap Act.strike,?_,fun atk hatk => ?_⟩
  · rw [World.strikes, htrace, List.filterMap_append]
    rfl
  · obtain ⟨a,ha,hstrike⟩ := List.mem_filterMap.mp hatk
    have hallowed := hnew a ha
    unfold Act.strike at hstrike
    split at hstrike
    · cases hstrike
      exact hallowed
    · cases hstrike

theorem Sends.breakNews (h : Sends b w w') (p : Part) : w'.breakNews p = w.breakNews p := by
  obtain ⟨new,htrace,hnew⟩ := h
  have hnone : new.filterMap (Act.breaks p) = [] := by
    rw [List.filterMap_eq_nil_iff]
    intro a ha
    have hallowed := hnew a ha
    simp only [Act.breaks]
    split
    · exact hallowed.elim
    · rfl
  rw [World.breakNews, htrace, List.filterMap_append, hnone, List.append_nil]
  rfl

/-- What neither an Update nor a BoneMapUpdate touches. -/
structure Intact (w w' : World F) : Prop where
  boss : ∀ b, w.boss = some b → ∃ b', w'.boss = some b' ∧ b'.healthPoint = b.healthPoint ∧
    b'.isDestroy = b.isDestroy ∧ b'.boneMap = b.boneMap
  felled : w.Felled → w'.Felled
  strikes : w'.strikes = w.strikes
  breakNews : ∀ p, w'.breakNews p = w.breakNews p

theorem Intact.refl (w : World F) : Intact w w :=
  ⟨fun b hb => ⟨b,hb,rfl,rfl,rfl⟩,id,rfl,fun _ => rfl⟩

theorem Intact.trans (h : Intact w w') (h' : Intact w' w'') : Intact w w'' := by
  refine ⟨fun b hb => ?_,fun hf => h'.felled (h.felled hf),h'.strikes.trans h.strikes,
    fun p => (h'.breakNews p).trans (h.breakNews p)⟩
  obtain ⟨b',hb',hhp,hdestroy,hmap⟩ := h.boss b hb
  obtain ⟨b'',hb'',hhp',hdestroy',hmap'⟩ := h'.boss b' hb'
  exact ⟨b'',hb'',hhp'.trans hhp,hdestroy'.trans hdestroy,hmap'.trans hmap⟩

theorem Intact.setBoss (hb : w'.boss = some b) (hlimbs : b'.healthPoint = b.healthPoint ∧
    b'.isDestroy = b.isDestroy ∧ b'.boneMap = b.boneMap)
    (hhp : b.mainHP ≤ 0 → b'.mainHP ≤ 0) (h : Intact w w') : Intact w (w'.setBoss b') := by
  refine h.trans ⟨fun c hc => ?_,fun ⟨c,hc,hfelled⟩ => ?_,rfl,fun _ => rfl⟩
  · cases hb.symm.trans hc
    exact ⟨b',rfl,hlimbs⟩
  · cases hb.symm.trans hc
    exact ⟨b',rfl,hhp hfelled⟩

theorem sendTo_strikes {p : Packet F} (hp : ∀ i, (Act.send i p).strike = none) (l : List Slot)
    (w : World F) : (w.sendTo l p).strikes = w.strikes := by
  have hnone : (l.map fun i => Act.send i p).filterMap Act.strike = [] := by
    rw [List.filterMap_eq_nil_iff]
    intro a ha
    obtain ⟨i,-,rfl⟩ := List.mem_map.mp ha
    exact hp i
  rw [World.strikes, sendTo, List.filterMap_append, hnone, List.append_nil]
  rfl

theorem sendTo_breakNews {p : Packet F} (part : Part)
    (hp : ∀ i, (Act.send i p).breaks part = none) (l : List Slot) (w : World F) :
    (w.sendTo l p).breakNews part = w.breakNews part := by
  have hnone : (l.map fun i => Act.send i p).filterMap (Act.breaks part) = [] := by
    rw [List.filterMap_eq_nil_iff]
    intro a ha
    obtain ⟨i,-,rfl⟩ := List.mem_map.mp ha
    exact hp i
  rw [World.breakNews, sendTo, List.filterMap_append, hnone, List.append_nil]
  rfl

theorem Intact.sendTo {l : List Slot} {p : Packet F} (hs : ∀ i, (Act.send i p).strike = none)
    (hb : ∀ i part, (Act.send i p).breaks part = none) (h : Intact w w') :
    Intact w (w'.sendTo l p) :=
  h.trans ⟨fun b hb => ⟨b,hb,rfl,rfl,rfl⟩,id,sendTo_strikes hs l w',
    fun part => sendTo_breakNews part (fun i => hb i part) l w'⟩

theorem Intact.hitBoss {i : Slot} {damage : ℤ} (h : Intact w w') :
    Intact w (w'.record (.hitBoss i damage)) :=
  h.trans ⟨fun b hb => ⟨b,hb,rfl,rfl,rfl⟩,id,
    by simp [World.strikes, record, Act.strike],
    fun p => by simp [World.breakNews, record, Act.breaks]⟩

theorem Intact.bossTakeDamage {damage : ℤ} (hd : 0 ≤ damage) (h : Intact w w') :
    Intact w (w'.bossTakeDamage damage) := by
  simp only [World.bossTakeDamage]
  split
  · exact h
  · rename_i b hb
    split_ifs with hdead
    · refine Intact.sendTo (fun _ => rfl) (fun _ _ => rfl) ?_
      exact h.setBoss hb ⟨rfl,rfl,rfl⟩ fun _ => le_rfl
    · exact h.setBoss hb ⟨rfl,rfl,rfl⟩ fun hle => (sub_le_self _ hd).trans hle

/-- A BoneMapUpdate announces no attack. -/
theorem boneMapUpdate_strikes (newBoneMap : ℕ → ℤ) (w : World F) :
    (w.Felled → (w.boneMapUpdate newBoneMap).Felled) ∧
      (w.boneMapUpdate newBoneMap).strikes = w.strikes := by
  refine KeyedFold.foldl_related
    (R := fun w w' : World F => (w.Felled → w'.Felled) ∧ w'.strikes = w.strikes)
    (fun w => ⟨fun hf => hf,rfl⟩) (fun h h' => ⟨fun hf => h'.1 (h.1 hf),h'.2.trans h.2⟩)
    (fun w part => ?_) boneParts w
  unfold bonePart
  split
  · exact ⟨fun hf => hf,rfl⟩
  · rename_i b hb
    have hfelled : ∀ b' : Boss F, b'.mainHP = b.mainHP → w.Felled → (w.setBoss b').Felled := by
      rintro b' hsame ⟨c,hc,hle⟩
      cases hb.symm.trans hc
      exact ⟨b',rfl,hsame.trans_le hle⟩
    dsimp only
    split_ifs
    · exact ⟨hfelled _ rfl,sendTo_strikes (fun _ => rfl) _ (w.setBoss _)⟩
    · exact ⟨hfelled _ rfl,rfl⟩
    · exact ⟨fun hf => hf,rfl⟩

section Steps
variable [FloatArith F] (getPath : ℤ × ℤ → ℤ × ℤ → List (ℤ × ℤ))

/-- One step; an Update that leaves the path of the model is disabled. -/
def limbNext (w : World F) : LimbInput F → Option (World F)
  | .update draw now => (w.bossUpdate getPath draw now).toOption
  | .bones newBoneMap => some (w.boneMapUpdate newBoneMap)
  | .hit attacker => some (w.attckBoss attacker)
  | .bossMove uid buf => some (w.onBossMove uid buf)
  | .players f => some { w with player := f }

/-- The attacks that a step announces are allowed by the limbs of a living boss, and once the boss
is felled there are none. -/
def Lawful (w : World F) (a : LimbInput F) : Prop :=
  ∀ w', w.limbNext getPath a = some w' →
    (∃ new, w'.strikes = w.strikes ++ new ∧
      ∀ atk ∈ new, ∃ b, w'.boss = some b ∧ b.Strikes atk ∧ 0 < b.mainHP) ∧
    (w.Felled → w'.Felled ∧ w'.strikes = w.strikes)

variable {getPath}

theorem Intact.attckBoss {i : Slot} (h : Intact w w') : Intact w (w'.attckBoss i) := by
  simp only [World.attckBoss]
  split
  · split_ifs
    · exact h.hitBoss.bossTakeDamage (by decide)
    · exact h
  · exact h

theorem intact_onBossMove (uid : Slot) (buf : Buffer) (w : World F) :
    Intact w (w.onBossMove uid buf) := by
  simp only [onBossMove]
  split
  · exact .refl w
  · rename_i b hb
    refine Intact.sendTo (fun _ => rfl) (fun _ _ => rfl) ?_
    exact (Intact.refl w).setBoss hb ⟨rfl,rfl,rfl⟩ fun hle => hle

/-- The steps besides Update and BoneMapUpdate. -/
theorem intact_limbNext {a : LimbInput F} (hu : ∀ draw now, a ≠ .update draw now)
    (hbones : ∀ newBoneMap, a ≠ .bones newBoneMap) (h : w.limbNext getPath a = some w') :
    Intact w w' := by
  cases a with
  | update draw now => exact absurd rfl (hu draw now)
  | bones newBoneMap => exact absurd rfl (hbones newBoneMap)
  | hit attacker =>
    cases h
    exact (Intact.refl w).attckBoss
  | bossMove uid buf =>
    cases h
    exact intact_onBossMove uid buf w
  | players f =>
    cases h
    exact ⟨fun b hb => ⟨b,hb,rfl,rfl,rfl⟩,fun hf => hf,rfl,fun _ => rfl⟩

theorem lawful_update (draw now : ℕ) (w : World F) : w.Lawful getPath (.update draw now) := by
  intro w' h
  have hok := toOption_eq_some h
  cases hb : w.boss with
  | none =>
    unfold bossUpdate at hok
    rw [hb] at hok
    cases hok
    refine ⟨⟨[],by rw [List.append_nil],by simp⟩,?_⟩
    rintro ⟨c,hc,-⟩
    rw [hb] at hc
    cases hc
  | some b =>
    cases bossUpdate_cases hb hok with
    | inl hdead =>
      obtain ⟨-,rfl⟩ := hdead
      refine ⟨⟨[],(List.append_nil _).symm,by simp⟩,?_⟩
      rintro ⟨c,hc,hle⟩
      cases hb.symm.trans hc
      exact ⟨⟨_,rfl,hle⟩,rfl⟩
    | inr halive =>
      obtain ⟨⟨hpos,-⟩,hposes⟩ := halive
      obtain ⟨b',hb',hlimbs⟩ := hposes.boss
      simp only [Boss.limbs, Prod.mk.injEq] at hlimbs
      obtain ⟨-,hdestroy,-,hhp⟩ := hlimbs
      obtain ⟨new,hnew,hstrikes⟩ := hposes.sends.strikes
      refine ⟨⟨new,hnew,fun atk hatk => ⟨b',hb',?_,?_⟩⟩,?_⟩
      · exact (hstrikes atk hatk).congr hdestroy
      · rw [hhp]
        exact hpos
      · rintro ⟨c,hc,hle⟩
        cases hb.symm.trans hc
        exact absurd hle (not_le.mpr hpos)

theorem lawful_limbNext (w : World F) (a : LimbInput F) : w.Lawful getPath a := by
  cases a with
  | update draw now => exact lawful_update draw now w
  | bones newBoneMap =>
    intro w' h
    cases h
    obtain ⟨hfelled,hstrikes⟩ := boneMapUpdate_strikes newBoneMap w
    exact ⟨⟨[],by rw [hstrikes, List.append_nil],by simp⟩,fun hf => ⟨hfelled hf,hstrikes⟩⟩
  | hit | bossMove | players =>
    intro w' h
    have hintact := intact_limbNext (by simp) (by simp) h
    exact ⟨⟨[],by rw [hintact.strikes, List.append_nil],by simp⟩,
      fun hf => ⟨hintact.felled hf,hintact.strikes⟩⟩

/-- In every run the boss attacks with whole limbs only, and not after its death. -/
theorem boss_strikes (w : World F) (as : List (LimbInput F)) :
    Runs.Along (limbNext getPath) (Lawful getPath) w as :=
  Runs.along_of_invariant (I := fun _ => True) (fun _ _ _ _ _ => trivial)
    (fun w a _ _ _ => lawful_limbNext w a) trivial

end Steps

end World

end LastHero
