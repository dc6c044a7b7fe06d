import LastHero.Threads.System

/-! The timer event of the boss is a token: each Update consumes it, and most paths through the
Execute of its state queue it again. This module says exactly which ones do. -/
namespace LastHero
variable {F : Type}

/-- The events that the boss goes through, with any change of the players in between. -/
inductive BossInput (F : Type)
  | timer (k now : ℕ)
  | update (draw now : ℕ)
  | bones (newBoneMap : ℕ → ℤ)
  /-- the end of Attck for an attacker in range -/
  | hit (attacker : Slot)
  /-- moves, connects and disconnects -/
  | players (f : Slot → Option (CPlayer F))

namespace World

/-- Pending EV_BOSS events, in timerQueue and in the completion queue. -/
def tokens (w : World F) : ℕ :=
  w.timerQueue.countP (fun e => e.key = .evBoss) + w.posted.count .evBoss

/-- The Execute that runs in this state queues the next event: an attack needs a target and whole
legs, the attack on the ground a target, a broken leg and a whole arm. -/
def Refires (b : Boss F) (w : World F) : Prop :=
  match b.state with
  | .bossIdle | .bossAttack => True
  | .bossChase | .bossDead => False
  | .bossDownAttack => (w.targetPlayer b).isSome ∧ b.isLegBroken ∧
      ¬ (b.isLHandBroken ∧ b.isRHandBroken)
  | _ => (w.targetPlayer b).isSome ∧ ¬ b.isLegBroken

/-- The states that a living boss gets into. -/
def Active (s : BossState) : Prop := s ≠ .bossChase ∧ s ≠ .bossDead

/-- A living boss has exactly one event. -/
def OneToken (w : World F) : Prop := ∀ b, w.boss = some b → b.Alive → w.tokens = 1

/-- A living boss is in one of the states that it gets into. -/
def BossInv (w : World F) : Prop := ∀ b, w.boss = some b → b.Alive → Active b.state

variable {w w' : World F} {b : Boss F}

@[simp] theorem tokens_setBoss (b : Boss F) (w : World F) : (w.setBoss b).tokens = w.tokens := rfl

@[simp] theorem tokens_turnTo [FloatArith F] (b : Boss F) (p : CPlayer F) (w : World F) :
    (w.turnTo b p).tokens = w.tokens := rfl

@[simp] theorem tokens_announce (atk : BState) (p : CPlayer F) (w : World F) :
    (w.announce atk p).tokens = w.tokens := rfl

@[simp] theorem tokens_bossTimer (b : Boss F) (t : ℕ) (w : World F) :
    (w.bossTimer b t).tokens = w.tokens+1 := by
  simp only [tokens, bossTimer, addTimer]
  simp only [List.countP_append, List.countP_singleton, decide_true, if_pos]
  omega

/-- What an Execute does to the boss and its event. -/
structure Executed (b : Boss F) (w w' : World F) : Prop where
  boss : ∃ b', w'.boss = some b' ∧ b'.mainHP = b.mainHP ∧ b'.healthPoint = b.healthPoint ∧
    (Active b.state → Active b'.state)
  token : w'.tokens = w.tokens+1 ∧ Refires b w ∨ w'.tokens = w.tokens ∧ ¬ Refires b w

theorem executed_changeState {s : BossState} (hb : w'.boss = some (b.changeState s))
    (hs : Active s)
    (ht : w'.tokens = w.tokens+1 ∧ Refires b w ∨ w'.tokens = w.tokens ∧ ¬ Refires b w) :
    Executed b w w' := ⟨⟨_,hb,rfl,rfl,fun _ => hs⟩,ht⟩

/-- The event that an Update of a living boss uses is replaced exactly if its state refires. -/
theorem Executed.oneToken_iff (h : Executed b w w') (halive : b.Alive) (htokens : w.tokens = 0) :
    OneToken w' ↔ Refires b w := by
  obtain ⟨⟨b',hb',hm,hh,-⟩,htoken⟩ := h
  constructor
  · intro hone
    have hone' := hone b' hb' (by unfold Boss.Alive; rw [hm, hh]; exact halive)
    rcases htoken with ⟨-,hr⟩ | ⟨ht,-⟩
    · exact hr
    · omega
  · intro hr b'' _ _
    rcases htoken with ⟨ht,-⟩ | ⟨-,hnot⟩
    · omega
    · exact absurd hr hnot

section Execute
variable [FloatArith F]

theorem executed_strike {atk : BState} {delay now : ℕ} (hr : Refires b w ↔
    (w.targetPlayer b).isSome ∧ ¬ b.isLegBroken) :
    Executed b w (executeStrike atk delay b now w) := by
  simp only [executeStrike]
  split
  · rename_i hnone
    refine executed_changeState rfl ⟨by simp,by simp⟩ (Or.inr ⟨rfl,?_⟩)
    rw [hr, hnone]
    simp
  · rename_i p hp
    split_ifs with hleg
    · refine executed_changeState rfl ⟨by simp,by simp⟩ (Or.inr ⟨rfl,?_⟩)
      rw [hr]
      exact fun h => h.2 hleg
    · refine executed_changeState rfl ⟨by simp,by simp⟩ (Or.inl ⟨by simp,?_⟩)
      rw [hr, hp]
      exact ⟨rfl,hleg⟩

theorem executed_down {draw now : ℕ} (hstate : b.state = .bossDownAttack) :
    Executed b w (w.executeDownAttack b draw now) := by
  have hr : Refires b w ↔ (w.targetPlayer b).isSome ∧ b.isLegBroken ∧
      ¬ (b.isLHandBroken ∧ b.isRHandBroken) := by
    simp only [Refires]
    rw [hstate]
  have harms : downAttack b draw = none ↔ b.isLHandBroken ∧ b.isRHandBroken := by
    simp only [downAttack]
    split_ifs <;> simp_all
    split <;> simp
  unfold executeDownAttack
  split
  · rename_i hnone
    refine executed_changeState rfl ⟨by simp,by simp⟩ (Or.inr ⟨rfl,?_⟩)
    rw [hr, hnone]
    simp
  · rename_i p hp
    split_ifs with hleg
    · refine executed_changeState rfl ⟨by simp,by simp⟩ (Or.inr ⟨rfl,?_⟩)
      rw [hr]
      intro h
      simp [h.2.1] at hleg
    · dsimp only
      split
      · rename_i hnone
        refine ⟨⟨b,rfl,rfl,rfl,id⟩,Or.inr ⟨rfl,?_⟩⟩
        rw [hr]
        exact fun h => h.2.2 (harms.mp hnone)
      · rename_i a ha
        refine executed_changeState rfl ⟨by simp,by simp⟩ (Or.inl ⟨by simp,?_⟩)
        rw [hr, hp]
        refine ⟨rfl,by simpa using hleg,fun h => ?_⟩
        rw [harms.mpr h] at ha
        cases ha

theorem executed_idle {now : ℕ} (hstate : b.state = .bossIdle) :
    Executed b w (w.executeIdle b now) := by
  have hnext : w.bossIdle b = .bIdle ∨ w.bossIdle b = .bAttack := by
    simp only [bossIdle]
    split_ifs
    · exact Or.inr rfl
    · exact Or.inl rfl
  have hr : Refires b w := by unfold Refires; rw [hstate]; trivial
  refine ⟨?_,Or.inl ⟨by unfold executeIdle; simp,hr⟩⟩
  simp only [executeIdle]
  refine ⟨_,rfl,?_⟩
  cases hnext with
  | inl h => rw [if_pos h]; exact ⟨rfl,rfl,id⟩
  | inr h => rw [h]; exact ⟨rfl,rfl,fun _ => ⟨by simp [nextBossState, Boss.changeState],
      by simp [nextBossState, Boss.changeState]⟩⟩

/-- An attack is chosen against the player of some slot; only the target of the boss changes. -/
theorem bossAttackChoice_spec {draw : ℕ} {b' : Boss F} {atk : BState}
    (h : w.bossAttackChoice b draw = (b',atk)) :
    (b'.state = b.state ∧ b'.mainHP = b.mainHP ∧ b'.healthPoint = b.healthPoint) ∧
      (atk = .bNormalAtk → (w.targetPlayer b').isSome) ∧
      (atk ≠ .bNormalAtk → Active (nextBossState atk)) := by
  have hchoice : ∀ far, chooseAttack far draw ≠ .bNormalAtk →
      Active (nextBossState (chooseAttack far draw)) := by
    intro far
    simp only [chooseAttack, Active]
    split_ifs
    · split <;> simp [nextBossState]
    · split <;> simp [nextBossState]
  unfold bossAttackChoice at h
  rw [foldl_scanTarget] at h
  dsimp only at h
  rw [if_neg (lt_irrefl _)] at h
  -- the boss with its new target
  generalize haim : (if (w.player 0).isSome then { b with target := some 0 } else b) = b₁ at h
  have hsame : b₁.state = b.state ∧ b₁.mainHP = b.mainHP ∧ b₁.healthPoint = b.healthPoint := by
    subst haim
    split_ifs
    · exact ⟨rfl,rfl,rfl⟩
    · exact ⟨rfl,rfl,rfl⟩
  split_ifs at h with hleg
  · cases h
    exact ⟨hsame,by simp,fun _ => ⟨by simp [nextBossState],by simp [nextBossState]⟩⟩
  · split at h
    · cases h
      exact ⟨hsame,by simp,fun _ => ⟨by simp [nextBossState],by simp [nextBossState]⟩⟩
    · rename_i p hp
      cases h
      exact ⟨hsame,fun _ => Option.isSome_of_mem hp,hchoice _⟩

theorem executed_attack {draw now : ℕ} (hstate : b.state = .bossAttack)
    (h : w.executeAttack b draw now = .ok w') : Executed b w w' := by
  have hr : Refires b w := by unfold Refires; rw [hstate]; trivial
  unfold executeAttack at h
  cases hc : w.bossAttackChoice b draw with
  | mk b' atk =>
    obtain ⟨⟨hs,hm,hh⟩,-,hactive⟩ := bossAttackChoice_spec hc
    rw [hc] at h
    dsimp only at h
    split_ifs at h with hatk hnormal
    · cases h
      exact ⟨⟨b',rfl,hm,hh,fun ha => hs ▸ ha⟩,Or.inl ⟨by simp,hr⟩⟩
    · split at h
      · cases h
      · cases h
        exact ⟨⟨b',rfl,hm,hh,fun ha => hs ▸ ha⟩,Or.inl ⟨by simp,hr⟩⟩
    · cases h
      exact ⟨⟨_,rfl,hm,hh,fun _ => hactive hnormal⟩,Or.inl ⟨by simp,hr⟩⟩

/-- Every class derived from BossState but BossChase, which nothing leads to. -/
theorem executed_bossExecute {getPath : ℤ × ℤ → ℤ × ℤ → List (ℤ × ℤ)} {draw now : ℕ}
    (hb : b.state ≠ .bossChase) (h : w.bossExecute getPath b draw now = .ok w') :
    Executed b w w' := by
  unfold bossExecute at h
  cases hstate : b.state with
  | bossChase => exact absurd hstate hb
  | bossIdle =>
    rw [hstate] at h
    cases h
    exact executed_idle hstate
  | bossAttack =>
    rw [hstate] at h
    exact executed_attack hstate h
  | bossDead =>
    rw [hstate] at h
    cases h
    exact ⟨⟨b,rfl,rfl,rfl,id⟩,Or.inr ⟨rfl,by unfold Refires; rw [hstate]; exact id⟩⟩
  | bossDownAttack =>
    rw [hstate] at h
    cases h
    exact executed_down hstate
  | bossDashAttack | bossSwingAttack | bossStrikeAttack | bossThrowAttack | bossStompAttack
    | bossIceSpearAttack | bossHandClapAttack | bossPunchAttack =>
    rw [hstate] at h
    cases h
    exact executed_strike (by unfold Refires; rw [hstate])

end Execute

/-- Steps that neither use an event nor bring a boss to life. -/
structure Idles (w w' : World F) : Prop where
  tokens : w'.tokens = w.tokens
  alive : ∀ b', w'.boss = some b' → b'.Alive → ∃ b, w.boss = some b ∧ b.Alive ∧ b.state = b'.state

theorem Idles.of_boss (ht : w'.tokens = w.tokens) (hb : w'.boss = w.boss) : Idles w w' :=
  ⟨ht,fun b' hb' halive => ⟨b',hb ▸ hb',halive,rfl⟩⟩

theorem Idles.trans {w'' : World F} (h : Idles w w') (h' : Idles w' w'') : Idles w w'' := by
  refine ⟨h'.tokens.trans h.tokens,fun b'' hb'' halive'' => ?_⟩
  obtain ⟨b',hb',halive',hs'⟩ := h'.alive b'' hb'' halive''
  obtain ⟨b,hb,halive,hs⟩ := h.alive b' hb' halive'
  exact ⟨b,hb,halive,hs.trans hs'⟩

theorem Idles.bossInv (h : Idles w w') (hw : BossInv w) : BossInv w' := by
  intro b' hb' halive'
  obtain ⟨b,hb,halive,hs⟩ := h.alive b' hb' halive'
  exact hs ▸ hw b hb halive

theorem Idles.oneToken (h : Idles w w') (hw : OneToken w) : OneToken w' := by
  intro b' hb' halive'
  obtain ⟨b,hb,halive,-⟩ := h.alive b' hb' halive'
  exact h.tokens.trans (hw b hb halive)

/-- TimerThread moves the event of the boss to the completion queue. -/
theorem idles_timer {k now : ℕ} (h : w.timerThread k now = some w') : Idles w w' := by
  obtain ⟨ev,hdue,rfl⟩ := timerThread_spec h
  have hcount := hdue.countKey .evBoss
  simp only [timerEvent]
  split
  · rename_i hkey
    refine .of_boss ?_ rfl
    rw [if_pos hkey] at hcount
    simp only [tokens, post, setTimerQueue]
    rw [hcount, List.count_append]
    simp only [List.count_singleton_self]
    omega
  · rename_i i hkey
    refine .of_boss ?_ rfl
    rw [if_neg (by simp [hkey])] at hcount
    simp only [tokens, post, setTimerQueue]
    rw [hcount, List.count_append]
    simp
  · rename_i kind id hkey
    refine .of_boss ?_ rfl
    rw [if_neg (by simp [hkey])] at hcount
    exact congrArg (· + w.posted.count .evBoss) hcount.symm

theorem idles_bonePart (bones : ℕ → ℤ) (w : World F) (part : Part × ℕ) :
    Idles w (bonePart bones w part) := by
  unfold bonePart
  split
  · exact .of_boss rfl rfl
  · rename_i b hb
    dsimp only
    split_ifs
    · refine ⟨rfl,fun b' hb' halive => ⟨b,hb,?_⟩⟩
      cases hb'
      exact ⟨halive,rfl⟩
    · refine ⟨rfl,fun b' hb' halive => ⟨b,hb,?_⟩⟩
      cases hb'
      exact ⟨halive,rfl⟩
    · exact .of_boss rfl rfl

theorem idles_boneMapUpdate (bones : ℕ → ℤ) (w : World F) : Idles w (w.boneMapUpdate bones) :=
  KeyedFold.foldl_related (fun _ => .of_boss rfl rfl) .trans (idles_bonePart bones) boneParts w

theorem idles_bossTakeDamage {damage : ℤ} (hd : 0 ≤ damage) (w : World F) :
    Idles w (w.bossTakeDamage damage) := by
  simp only [bossTakeDamage]
  split
  · exact .of_boss rfl rfl
  · rename_i b hb
    split_ifs with hdead
    · refine ⟨rfl,fun b' hb' halive => ?_⟩
      cases hb'
      exact absurd halive.1 (lt_irrefl _)
    · refine ⟨rfl,fun b' hb' halive => ⟨b,hb,?_⟩⟩
      cases hb'
      have hpos : 0 < b.mainHP - damage := halive.1
      exact ⟨⟨by omega,halive.2⟩,rfl⟩

theorem tokens_unpost (h : .evBoss ∈ w.posted) : (w.unpost .evBoss).tokens + 1 = w.tokens := by
  have hpos := List.count_pos_iff.mpr h
  have hcount : (w.unpost .evBoss).posted.count .evBoss = w.posted.count .evBoss - 1 :=
    List.count_erase_self
  have hqueue : (w.unpost .evBoss).timerQueue = w.timerQueue := rfl
  simp only [tokens]
  rw [hcount, hqueue]
  omega

section Steps
variable [FloatArith F] (getPath : ℤ × ℤ → ℤ × ℤ → List (ℤ × ℤ))

/-- One step; the boss takes damage only while it is alive, as Attck checks. -/
def bossNext (w : World F) : BossInput F → Option (World F)
  | .timer k now => w.timerThread k now
  | .update draw now =>
    if .evBoss ∈ w.posted then ((w.unpost .evBoss).bossUpdate getPath draw now).toOption else none
  | .bones newBoneMap => some (w.boneMapUpdate newBoneMap)
  | .hit attacker =>
    match w.boss with
    | none => none
    | some b =>
      if 0 < b.mainHP then some ((w.record (.hitBoss attacker 20)).bossTakeDamage 20) else none
  | .players f => some { w with player := f }

/-- Every Update of a living boss finds what its state needs. -/
def SoundUpdate (w : World F) : BossInput F → Prop
  | .update _ _ => ∀ b, w.boss = some b → b.Alive → Refires b.isPartDestroyed w
  | _ => True

variable {getPath}

/-- An Update of a living boss. -/
theorem executed_bossUpdate {draw now : ℕ} (hb : w.boss = some b) (halive : b.Alive)
    (hstate : Active b.state) (h : w.bossUpdate getPath draw now = .ok w') :
    Executed b.isPartDestroyed w w' := by
  unfold bossUpdate at h
  rw [hb] at h
  dsimp only at h
  rw [if_neg (by rintro (h | h) <;> have := halive.1 <;> have := halive.2 <;> omega)] at h
  exact executed_bossExecute hstate.1 h

/-- An Update leaves no boss where there is none, and a dead one dead. -/
theorem bossUpdate_not_alive {draw now : ℕ} (hdead : ∀ b, w.boss = some b → ¬ b.Alive)
    (h : w.bossUpdate getPath draw now = .ok w') : ∀ b', w'.boss = some b' → ¬ b'.Alive := by
  unfold bossUpdate at h
  split at h
  · cases h
    exact hdead
  · rename_i b hb
    have hb' := hdead b hb
    rw [if_pos (by unfold Boss.Alive at hb'; omega)] at h
    cases h
    intro b' h'
    cases h'
    exact hb'

theorem oneToken_update_iff {draw now : ℕ} (hinv : BossInv w) (hone : OneToken w)
    (h : w.bossNext getPath (.update draw now) = some w') :
    BossInv w' ∧ (OneToken w' ↔ w.SoundUpdate (.update draw now)) := by
  unfold bossNext at h
  dsimp only at h
  split_ifs at h with hposted
  have hok := toOption_eq_some h
  have htokens := tokens_unpost hposted
  by_cases halive : ∃ b, w.boss = some b ∧ b.Alive
  · obtain ⟨b,hb,halive⟩ := halive
    have hstate := hinv b hb halive
    have hexec := executed_bossUpdate (w := w.unpost .evBoss) hb halive hstate hok
    have hiff := hexec.oneToken_iff halive (by have := hone b hb halive; omega)
    constructor
    · obtain ⟨b',hb',-,-,hactive⟩ := hexec.boss
      intro b'' hb'' _
      cases hb'.symm.trans hb''
      exact hactive hstate
    · refine hiff.trans ⟨fun hr b'' hb'' _ => ?_,fun hs => hs b hb halive⟩
      cases hb.symm.trans hb''
      exact hr
  · have hdead : ∀ b, w.boss = some b → ¬ b.Alive := fun b hb ha => halive ⟨b,hb,ha⟩
    have hdead' := bossUpdate_not_alive (w := w.unpost .evBoss) hdead hok
    refine ⟨fun b' hb' ha => absurd ha (hdead' b' hb'),iff_of_true ?_ ?_⟩
    · exact fun b' hb' ha => absurd ha (hdead' b' hb')
    · exact fun b hb ha => absurd ha (hdead b hb)

/-- The other steps keep the number of events. -/
theorem idles_bossNext {a : BossInput F} (ha : ∀ draw now, a ≠ .update draw now)
    (h : w.bossNext getPath a = some w') : Idles w w' := by
  cases a with
  | timer k now => exact idles_timer h
  | update draw now => exact absurd rfl (ha draw now)
  | bones newBoneMap =>
    cases h
    exact idles_boneMapUpdate newBoneMap w
  | hit attacker =>
    unfold bossNext at h
    dsimp only at h
    split at h
    · cases h
    · split_ifs at h
      cases h
      exact (Idles.of_boss rfl rfl : Idles w (w.record (.hitBoss attacker 20))).trans
        (idles_bossTakeDamage (by decide) _)
  | players f =>
    cases h
    exact .of_boss rfl rfl

theorem bossNext_spec {a : BossInput F} (hinv : BossInv w) (hone : OneToken w)
    (h : w.bossNext getPath a = some w') : BossInv w' ∧ (OneToken w' ↔ w.SoundUpdate a) := by
  cases a with
  | update draw now => exact oneToken_update_iff hinv hone h
  | timer | bones | hit | players =>
    have hidles := idles_bossNext (by simp) h
    exact ⟨hidles.bossInv hinv,iff_of_true (hidles.oneToken hone) trivial⟩

theorem spawnMonster_spec (w : World F) (s : MonsterId × ℚ × ℚ × ℚ × ℤ) :
    (spawnMonster w s).tokens = w.tokens ∧ (spawnMonster w s).boss = w.boss := by
  refine ⟨?_,rfl⟩
  simp only [spawnMonster, tokens, addTimer]
  rw [List.countP_append]
  simp
  rfl

/-- CreateMonsters gives the boss its first event. -/
theorem start_spec :
    (start : World F).boss = some Boss.initializeBoss ∧ (start : World F).tokens = 1 := by
  simp only [start, createMonsters]
  generalize spawns = l
  have hspawn := KeyedFold.foldl_related
    (R := fun w w' : World F => w'.tokens = w.tokens ∧ w'.boss = w.boss) (fun _ => ⟨rfl,rfl⟩)
    (fun h h' => ⟨h'.1.trans h.1,h'.2.trans h.2⟩) spawnMonster_spec l
    (((empty : World F).setBoss Boss.initializeBoss).addTimer .evBoss 1000 0)
  exact ⟨hspawn.2,hspawn.1⟩

/-- A run keeps exactly one event for the living boss if and only if every Update of the living
boss in it finds what its state needs. -/
theorem one_token_iff (as : List (BossInput F)) :
    Runs.Always (bossNext getPath) OneToken start as ↔
      Runs.Along (bossNext getPath) SoundUpdate start as := by
  refine Runs.always_iff_along (I := BossInv) (fun _ _ _ hi hp _ ht => (bossNext_spec hi hp ht).1)
    (fun _ _ _ hi hp ht => (bossNext_spec hi hp ht).2) (fun b hb _ => ?_) fun _ _ _ => start_spec.2
  rw [start_spec.1] at hb
  cases hb
  exact ⟨by simp [Boss.initializeBoss],by simp [Boss.initializeBoss]⟩

end Steps

/-- The boss chooses an attack against the only player, who leaves before the boss attacks. -/
def targetLeaves : List (BossInput ℚ) :=
  List.replicate 19 (.timer 0 1000) ++ [
    .players fun i => if i = 0 then some { zeroPlayer with pos := ⟨23000,35700,0⟩ } else none,
    .update 0 1000,.timer 0 2000,.update 0 2000,.timer 0 3000,.players fun _ => none,
    .update 0 3000]

/-- Then no event is left for the living boss. -/
theorem boss_stalls : ∃ as : List (BossInput ℚ),
    ¬ Runs.Always (bossNext fun _ _ => []) OneToken start as := by
  -- the kernel evaluates the run: elsewhere the arithmetic of ℚ is irreducible
  have heval : (Runs.run (bossNext fun _ _ => []) start targetLeaves).any
      (fun w => w.tokens = 0 && w.boss.any fun b => decide b.Alive) = true := by decide +kernel
  obtain ⟨w,hrun,hbad⟩ := (Option.any_eq_true _ _).mp heval
  rw [Bool.and_eq_true, decide_eq_true_eq, Option.any_eq_true] at hbad
  obtain ⟨htokens,b,hb,halive⟩ := hbad
  refine ⟨targetLeaves,fun h => ?_⟩
  have hone := h.last hrun b hb (of_decide_eq_true halive)
  omega

end World

end LastHero
