import LastHero.Boss.Target
import LastHero.Server.Steps

/-! Whom the boss attacks in the runs of the server, and how often. It attacks the player of slot 0
and nobody else. Each Update takes it one state further, from idling over the choice of an attack to
the attack; a state that cannot go on does not queue the event of the boss again, and no Update
follows it. -/
namespace LastHero
variable {F : Type}

/-- An Update of the boss. -/
def ServerInput.isBoss : ServerInput F → Bool
  | .boss .. => true
  | _ => false

theorem ServerInput.turn_ne_boss {a : ServerInput F} (ha : a.isBoss = false) : a.turn ≠ .boss := by
  cases a with
  | boss draw now => cases ha
  | io | monster => exact Turn.noConfusion
  | thread a => cases a <;> exact Turn.noConfusion

/-- The receiver of the news of an attack, with the attack and the place that it is aimed at. -/
def Act.attack : Act F → Option (Slot × BState × Position F)
  | .send i (.scBossAttack _ atk pos) => some (i,atk,pos)
  | _ => none

namespace Boss

/-- Nobody but the player of slot 0 is ever the target, and nobody is chased. -/
structure Stays (b : Boss F) : Prop where
  target : b.target = none ∨ b.target = some 0
  state : b.state ≠ .bossChase

/-- The Updates that the next attack takes. -/
def updatesLeft (b : Boss F) : ℕ :=
  match b.state with
  | .bossIdle => 3
  | .bossAttack => 2
  | _ => 1

theorem updatesLeft_pos (b : Boss F) : 0 < b.updatesLeft := by
  unfold updatesLeft
  split
  · exact Nat.succ_pos _
  · exact Nat.succ_pos _
  · exact Nat.one_pos

theorem updatesLeft_le (b : Boss F) : b.updatesLeft ≤ 3 := by
  unfold updatesLeft
  split
  · exact le_rfl
  · exact Nat.le_succ _
  · exact Nat.le_of_ble_eq_true rfl

theorem Rests.stays {b b' : Boss F} (h : b.Rests b') (hs : b.Stays) : b'.Stays :=
  ⟨h.target ▸ hs.target,h.state ▸ hs.state⟩

end Boss

namespace World

/-- The attacks that were announced. -/
def attacks (w : World F) : List (Slot × BState × Position F) := w.trace.filterMap Act.attack

/-- One attack on the player of slot 0 is announced, to everybody. -/
def Announces (w w' : World F) : Prop := ∃ atk p, w.player 0 = some p ∧
  w'.attacks = w.attacks ++ w.connected.map fun i => (i,atk,p.pos)

variable {w w' w'' : World F} {b b' : Boss F} {turn : Turn}

theorem attacks_sendTo (l : List Slot) (p : Packet F) (w : World F) :
    (w.sendTo l p).attacks = w.attacks ++ l.filterMap fun i => (Act.send i p).attack := by
  rw [attacks, World.sendTo, List.filterMap_append, List.filterMap_map]
  rfl

theorem attacks_sendTo_none {p : Packet F} (hp : ∀ i, (Act.send i p).attack = none)
    (l : List Slot) (w : World F) : (w.sendTo l p).attacks = w.attacks := by
  rw [attacks_sendTo]
  simp [hp]

/-- The other packets are no attacks. -/
theorem attack_idle {p : Packet F} (hp : p.Idle) (i : Slot) : (Act.send i p).attack = none := by
  cases p with
  | scBossAttack => exact hp.elim
  | _ => rfl

/-- Somebody is told. -/
theorem Announces.length_lt (h : Announces w w') : w.attacks.length < w'.attacks.length := by
  obtain ⟨atk,p,hp,he⟩ := h
  have hfirst : (0 : Slot) ∈ w.connected := by simp [connected, mem_slots, hp]
  have hpos : 0 < w.connected.length := List.length_pos_of_mem hfirst
  rw [he, List.length_append, List.length_map]
  omega

section
variable [FloatArith F]

/-- Somebody is near the boss, and there is a player in slot 0. -/
structure Provokes (w : World F) (b : Boss F) : Prop where
  near : ∃ i, w.Near b i
  first : (w.player 0).isSome

instance (w : World F) (b : Boss F) (i : Slot) : Decidable (w.Near b i) :=
  decidable_of_iff ((w.player i).any fun p => floatGt (floatDistance b.pos p.pos) 0 &&
    floatLt (floatDistance b.pos p.pos) bossActivityRange) (by simp [Near, Option.any_eq_true])

instance (w : World F) (b : Boss F) : Decidable (w.Provokes b) :=
  decidable_of_iff ((∃ i, w.Near b i) ∧ (w.player 0).isSome)
    ⟨fun h => ⟨h.1,h.2⟩,fun h => ⟨h.near,h.first⟩⟩

/-- What an Execute comes to: an attack, or a step towards it. -/
def Comes (b : Boss F) (w w' : World F) : Prop := ∃ b', w'.boss = some b' ∧ b'.Stays ∧
  (Announces w w' ∨ w'.attacks = w.attacks ∧
    (w.Provokes b → Refires b w → b'.updatesLeft < b.updatesLeft))

theorem announces_announce {atk : BState} {p : CPlayer F} (hp : w.player 0 = some p)
    (b : Boss F) : Announces w ((w.turnTo b p).announce atk p) := by
  have hturn : (w.turnTo b p).attacks = w.attacks := attacks_sendTo_none (fun _ => rfl) _ w
  refine ⟨atk,p,hp,?_⟩
  rw [announce, World.broadcast, attacks_sendTo, hturn]
  simp only [Act.attack, List.filterMap_eq_map']
  rfl

omit [FloatArith F] in
/-- The target is the player of slot 0. -/
theorem first_of_target {p : CPlayer F} (hs : b.Stays) (hp : w.targetPlayer b = some p) :
    w.player 0 = some p := by
  rcases hs.target with hnone | hfirst
  · rw [targetPlayer, hnone] at hp
    cases hp
  · rwa [targetPlayer, hfirst] at hp

theorem comes_strike {atk : BState} {delay now : ℕ} (hs : b.Stays) (hr : Refires b w ↔
    (w.targetPlayer b).isSome ∧ ¬ b.isLegBroken) :
    Comes b w (executeStrike atk delay b now w) := by
  have hattack : (b.changeState .bossAttack).Stays := ⟨hs.target,by simp [Boss.changeState]⟩
  simp only [executeStrike]
  split
  · rename_i hnone
    refine ⟨_,rfl,hattack,Or.inr ⟨rfl,fun _ hf => ?_⟩⟩
    rw [hr, hnone] at hf
    cases hf.1
  · rename_i p hp
    split_ifs with hleg
    · exact ⟨_,rfl,hattack,Or.inr ⟨rfl,fun _ hf => absurd hleg (hr.mp hf).2⟩⟩
    · exact ⟨_,rfl,hattack,Or.inl (announces_announce (first_of_target hs hp) b)⟩

theorem comes_down {draw now : ℕ} (hs : b.Stays) (hstate : b.state = .bossDownAttack) :
    Comes b w (w.executeDownAttack b draw now) := by
  have hattack : (b.changeState .bossAttack).Stays := ⟨hs.target,by simp [Boss.changeState]⟩
  have hr : Refires b w → (w.targetPlayer b).isSome ∧ b.isLegBroken ∧
      ¬ (b.isLHandBroken ∧ b.isRHandBroken) := by
    intro hf
    unfold Refires at hf
    rwa [hstate] at hf
  unfold executeDownAttack
  split
  · rename_i hnone
    refine ⟨_,rfl,hattack,Or.inr ⟨rfl,fun _ hf => ?_⟩⟩
    rw [hnone] at hr
    cases (hr hf).1
  · rename_i p hp
    split_ifs with hleg
    · refine ⟨_,rfl,hattack,Or.inr ⟨rfl,fun _ hf => ?_⟩⟩
      rw [(hr hf).2.1] at hleg
      cases hleg
    · dsimp only
      split
      · rename_i hnone
        have hturn : ((w.setBoss b).turnTo b p).attacks = w.attacks :=
          attacks_sendTo_none (fun _ => rfl) _ (w.setBoss b)
        refine ⟨b,rfl,hs,Or.inr ⟨hturn,fun _ hf => ?_⟩⟩
        -- a whole arm can always attack
        have harms := (hr hf).2.2
        simp only [downAttack] at hnone
        split_ifs at hnone with hl hr
        · exact absurd ⟨hl,hr⟩ harms
        · split at hnone <;> cases hnone
      · have hset : w.player 0 = some p := first_of_target hs hp
        exact ⟨_,rfl,hattack,Or.inl (announces_announce (w := w.setBoss b) hset b)⟩

theorem bossIdle_near (h : ∃ i, w.Near b i) : w.bossIdle b = .bAttack := by
  obtain ⟨i,p,hp,hgt,hlt⟩ := h
  simp only [bossIdle]
  refine if_pos (List.any_eq_true.mpr ⟨i,mem_slots i,?_⟩)
  simp [hp, hgt, hlt]

theorem bossIdle_cases (b : Boss F) (w : World F) :
    w.bossIdle b = .bIdle ∨ w.bossIdle b = .bAttack := by
  simp only [bossIdle]
  split_ifs
  · exact Or.inr rfl
  · exact Or.inl rfl

theorem comes_idle {now : ℕ} (hs : b.Stays) (hstate : b.state = .bossIdle) :
    Comes b w (w.executeIdle b now) := by
  simp only [executeIdle]
  refine ⟨_,rfl,?_,Or.inr ⟨rfl,fun hp _ => ?_⟩⟩
  · rcases bossIdle_cases b w with hnext | hnext
    · rw [if_pos hnext]
      exact hs
    · rw [hnext]
      exact ⟨hs.target,by simp [Boss.changeState, nextBossState]⟩
  · rw [bossIdle_near hp.near, if_neg (by simp)]
    simp only [Boss.updatesLeft, Boss.changeState, nextBossState]
    rw [hstate]
    exact Nat.lt_succ_self 2

omit [FloatArith F] in
/-- A single attack is the next state, unless it is made at once. -/
theorem updatesLeft_attack {atk : BState} (h : atk.IsAttack) (b : Boss F) :
    (b.changeState (nextBossState atk)).updatesLeft = 1 := by
  obtain ⟨hidle,hchase,hattack,hdead⟩ := h
  cases atk <;> first | rfl | contradiction

theorem comes_attack {draw now : ℕ} (hs : b.Stays) (hstate : b.state = .bossAttack)
    (h : w.executeAttack b draw now = .ok w') : Comes b w w' := by
  unfold executeAttack at h
  cases hc : w.bossAttackChoice b draw with
  | mk b₁ atk =>
    obtain ⟨⟨hstate₁,-⟩,-,hactive⟩ := bossAttackChoice_spec hc
    obtain ⟨haim,hattack⟩ := bossAttackChoice_eq b draw w
    rw [hc] at haim hattack
    have htarget : b₁.target = none ∨ b₁.target = some 0 := by
      rw [haim, Boss.aim]
      split_ifs
      · exact Or.inr rfl
      · exact hs.target
    have hs₁ : b₁.Stays := ⟨htarget,by rw [hstate₁, hstate]; simp⟩
    have hprovoked : w.Provokes b → atk.IsAttack := by
      intro hp
      refine hattack.mpr (Or.inr ?_)
      rw [Boss.aim, if_pos hp.first]
      exact hp.first
    rw [hc] at h
    dsimp only at h
    split_ifs at h with hwait hnormal
    · cases h
      exact ⟨b₁,rfl,hs₁,Or.inr ⟨rfl,fun hp _ => absurd hwait (hprovoked hp).2.2.1⟩⟩
    · split at h
      · cases h
      · rename_i p hp
        cases h
        have hfirst : (w.setBoss b₁).player 0 = some p := first_of_target hs₁ hp
        exact ⟨b₁,rfl,hs₁,Or.inl (announces_announce (w := w.setBoss b₁) hfirst b₁)⟩
    · cases h
      refine ⟨_,rfl,⟨htarget,(hactive hnormal).1⟩,Or.inr ⟨rfl,fun hp _ => ?_⟩⟩
      rw [updatesLeft_attack (hprovoked hp)]
      simp only [Boss.updatesLeft]
      rw [hstate]
      exact Nat.lt_succ_self 1

/-- Every class derived from BossState. -/
theorem comes_bossExecute {getPath : ℤ × ℤ → ℤ × ℤ → List (ℤ × ℤ)} {draw now : ℕ} (hs : b.Stays)
    (h : w.bossExecute getPath b draw now = .ok w') : Comes b w w' := by
  unfold bossExecute at h
  cases hstate : b.state with
  | bossIdle =>
    rw [hstate] at h
    cases h
    exact comes_idle hs hstate
  | bossChase => exact absurd hstate hs.state
  | bossAttack =>
    rw [hstate] at h
    exact comes_attack hs hstate h
  | bossDead =>
    rw [hstate] at h
    cases h
    refine ⟨b,rfl,hs,Or.inr ⟨rfl,fun _ hf => ?_⟩⟩
    unfold Refires at hf
    rw [hstate] at hf
    exact hf.elim
  | bossDownAttack =>
    rw [hstate] at h
    cases h
    exact comes_down hs hstate
  | bossDashAttack | bossSwingAttack | bossStrikeAttack | bossThrowAttack | bossStompAttack
  | bossIceSpearAttack | bossHandClapAttack | bossPunchAttack =>
    rw [hstate] at h
    cases h
    exact comes_strike hs (by unfold Refires; rw [hstate])

/-- An Update attacks, or takes a provoked boss further, or its event is lost. -/
theorem comes_bossUpdate {getPath : ℤ × ℤ → ℤ × ℤ → List (ℤ × ℤ)} {draw now : ℕ}
    (hb : w.boss = some b) (hs : b.Stays) (h : w.bossUpdate getPath draw now = .ok w') :
    ∃ b', w'.boss = some b' ∧ b'.Stays ∧ w'.tokens ≤ w.tokens+1 ∧ (Announces w w' ∨
      w'.attacks = w.attacks ∧ (w.Provokes b → w'.tokens = w.tokens ∨
        b'.updatesLeft < b.updatesLeft)) := by
  unfold bossUpdate at h
  rw [hb] at h
  dsimp only at h
  split_ifs at h with hdead
  · cases h
    exact ⟨_,rfl,⟨hs.target,by simp [Boss.changeState]⟩,Nat.le_succ _,
      Or.inr ⟨rfl,fun _ => Or.inl rfl⟩⟩
  · have hs' : b.isPartDestroyed.Stays := ⟨hs.target,hs.state⟩
    obtain ⟨b',hb',hstays,hattack⟩ := comes_bossExecute hs' h
    have htokens := (executed_bossExecute hs'.state h).token
    refine ⟨b',hb',hstays,by omega,hattack.imp_right fun hquiet => ⟨hquiet.1,fun hp => ?_⟩⟩
    rcases htokens with ⟨-,hr⟩ | ⟨htokens,-⟩
    · exact Or.inr (hquiet.2 ⟨hp.near,hp.first⟩ hr)
    · exact Or.inl htokens

/-- What happens between the Updates. -/
structure Pauses (w w' : World F) : Prop where
  attacks : w'.attacks = w.attacks
  tokens : w'.tokens = w.tokens
  boss : ∀ b, w.boss = some b → ∃ b', w'.boss = some b' ∧ b.Rests b'

omit [FloatArith F] in
theorem Pauses.refl (w : World F) : Pauses w w := ⟨rfl,rfl,fun b hb => ⟨b,hb,rfl,rfl⟩⟩

omit [FloatArith F] in
theorem Pauses.trans (h : Pauses w w') (h' : Pauses w' w'') : Pauses w w'' := by
  refine ⟨h'.attacks.trans h.attacks,h'.tokens.trans h.tokens,fun b hb => ?_⟩
  obtain ⟨b',hb',hrests⟩ := h.boss b hb
  obtain ⟨b'',hb'',hrests'⟩ := h'.boss b' hb'
  exact ⟨b'',hb'',hrests'.state.trans hrests.state,hrests'.target.trans hrests.target⟩

omit [FloatArith F] in
theorem Pauses.sendTo {l : List Slot} {p : Packet F} (hp : ∀ i, (Act.send i p).attack = none)
    (h : Pauses w w') : Pauses w (w'.sendTo l p) :=
  h.trans ⟨attacks_sendTo_none hp l w',rfl,(Pauses.refl w').boss⟩

omit [FloatArith F] in
theorem Pauses.record {a : Act F} (ha : a.attack = none) (h : Pauses w w') :
    Pauses w (w'.record a) := by
  refine h.trans ⟨?_,rfl,(Pauses.refl w').boss⟩
  rw [World.attacks, World.record, List.filterMap_append]
  simp [ha, World.attacks]

omit [FloatArith F] in
theorem Pauses.setBoss (hb : w'.boss = some b) (hrests : b.Rests b') (h : Pauses w w') :
    Pauses w (w'.setBoss b') := by
  refine h.trans ⟨rfl,rfl,fun b₁ hb₁ => ⟨b',rfl,?_⟩⟩
  obtain rfl : b = b₁ := Option.some.inj (hb.symm.trans hb₁)
  exact hrests

theorem Pauses.beaten {id : Slot} {i : MonsterId} {m : CMonster F} {damage : ℤ}
    (h : Pauses w w') : Pauses w (w'.beaten id i m damage) := by
  have hput : Pauses w (w'.setMonster i (m.damaged damage)) := h.trans
    ⟨rfl,rfl,(Pauses.refl w').boss⟩
  exact hput.record rfl

theorem Pauses.deed (hturn : turn ≠ .boss) (hd : Deed turn w w') : Pauses w w' := by
  have hself := Pauses.refl w
  cases hd with
  | send l p hp => exact hself.sendTo (attack_idle hp)
  | player i f => exact hself.trans ⟨rfl,rfl,hself.boss⟩
  | update id name pass => exact hself.trans ⟨rfl,rfl,hself.boss⟩
  | timers _ _ hs ht =>
    refine ⟨?_,ht hturn,fun b hb => ⟨b,hs.boss ▸ hb,rfl,rfl⟩⟩
    rw [World.attacks, hs.trace, World.attacks]
  | monster i m m' => exact hself.trans ⟨rfl,rfl,hself.boss⟩
  | appear id i m => exact hself.sendTo fun _ => rfl
  | hurt id i m damage =>
    have hbeaten : Pauses w (w.beaten id i m damage) := hself.beaten
    exact hbeaten.sendTo fun _ => rfl
  | slay id i m damage exp =>
    have hbeaten : Pauses w (w.beaten id i m damage) := hself.beaten
    have hkill := hbeaten.record (a := .kill id i) rfl
    have hgain : Pauses w (((w.beaten id i m damage).record (.kill id i)).modifyPlayer id
        (CPlayer.gainExp m.exp)) := hkill.trans ⟨rfl,rfl,(Pauses.refl _).boss⟩
    have htold : Pauses w ((((w.beaten id i m damage).record (.kill id i)).modifyPlayer id
        (CPlayer.gainExp m.exp)).sendPacket id (.scGetExp exp)) := hgain.sendTo fun _ => rfl
    exact htold.sendTo fun _ => rfl
  | boss b b' _ hb _ hrests => exact hself.setBoss hb (hrests hturn)
  | wound id b _ hb =>
    have hhit : Pauses w (w.record (.hitBoss id 20)) := hself.record rfl
    have hb' : (w.record (.hitBoss id 20)).boss = some b := hb
    simp only [bossTakeDamage]
    rw [hb']
    dsimp only
    split_ifs
    · exact Pauses.sendTo (fun _ => rfl) (hhit.setBoss hb' ⟨rfl,rfl⟩)
    · exact hhit.setBoss hb' ⟨rfl,rfl⟩
  | announce b atk p ht => exact absurd ht hturn

omit [FloatArith F] in
theorem Pauses.aside (h : Aside w w') : Pauses w w' := by
  refine ⟨?_,h.tokens,fun b hb => ⟨b,h.boss ▸ hb,rfl,rfl⟩⟩
  obtain ⟨new,ht,hnew⟩ := h.acts
  have hnone : new.filterMap Act.attack = [] := by
    refine List.filterMap_eq_nil_iff.mpr fun a ha => ?_
    have haside := hnew a ha
    cases a with
    | send i p =>
      rcases haside with hp | ⟨uid,rfl⟩ | rfl
      · exact attack_idle hp i
      · rfl
      · rfl
    | _ => rfl
  rw [World.attacks, ht, List.filterMap_append, hnone, List.append_nil, World.attacks]

variable {getPath : ℤ × ℤ → ℤ × ℤ → List (ℤ × ℤ)} {a : ServerInput F}

/-- All steps but the Updates of the boss. -/
theorem pauses_serverNext (ha : a.isBoss = false) (h : w.serverNext getPath a = some w') :
    Pauses w w' := by
  obtain ⟨v,haside,hd⟩ := step_spec h
  exact (Pauses.aside haside).trans
    (hd.lift (R := Pauses) .refl .trans fun _ _ => .deed (ServerInput.turn_ne_boss ha))

/-- The boss and its event in all runs. -/
structure Poised (w : World F) : Prop where
  boss : ∃ b, w.boss = some b ∧ b.Stays
  tokens : w.tokens ≤ 1

/-- An Update that was dispatched. -/
theorem comes_serverNext {draw now : ℕ} (hb : w.boss = some b) (hs : b.Stays)
    (h : w.serverNext getPath (.boss draw now) = some w') : 0 < w.tokens ∧
      ∃ b', w'.boss = some b' ∧ b'.Stays ∧ w'.tokens ≤ w.tokens ∧ (Announces w w' ∨
        w'.attacks = w.attacks ∧ (w.Provokes b → w'.tokens < w.tokens ∨
          b'.updatesLeft < b.updatesLeft)) := by
  dsimp only [serverNext, bossNext] at h
  split_ifs at h with hposted
  have htokens := tokens_unpost hposted
  obtain ⟨b',hb',hs',hle,hattack⟩ :=
    comes_bossUpdate (w := w.unpost .evBoss) hb hs (toOption_eq_some h)
  refine ⟨by omega,b',hb',hs',by omega,hattack.imp_right fun hquiet => ⟨hquiet.1,fun hp => ?_⟩⟩
  exact (hquiet.2 ⟨hp.near,hp.first⟩).imp_left fun hlost => by omega

theorem Poised.next (hw : Poised w) (h : w.serverNext getPath a = some w') : Poised w' ∧
    (w'.attacks = w.attacks ∨ a.isBoss = true ∧ Announces w w') := by
  obtain ⟨b,hb,hs⟩ := hw.boss
  cases ha : a.isBoss with
  | false =>
    have hpauses := pauses_serverNext ha h
    obtain ⟨b',hb',hrests⟩ := hpauses.boss b hb
    exact ⟨⟨⟨b',hb',hrests.stays hs⟩,hpauses.tokens.trans_le hw.tokens⟩,Or.inl hpauses.attacks⟩
  | true =>
    cases a with
    | boss draw now =>
      obtain ⟨-,b',hb',hs',hle,hattack⟩ := comes_serverNext hb hs h
      refine ⟨⟨⟨b',hb',hs'⟩,hle.trans hw.tokens⟩,?_⟩
      exact hattack.symm.imp And.left fun hannounces => ⟨rfl,hannounces⟩
    | thread | io | monster => cases ha

theorem poised_start : Poised (start : World F) := by
  obtain ⟨hboss,htokens⟩ := start_spec (F := F)
  exact ⟨⟨_,hboss,Or.inl rfl,by simp [Boss.initializeBoss]⟩,htokens.le⟩

/-- In every run of the server the boss chases nobody, and attacks only the player of slot 0,
whoever is nearest: an Update announces at most one attack, to everybody, at the place where that
player stands, and nothing else announces any. -/
theorem boss_attacks_first (getPath : ℤ × ℤ → ℤ × ℤ → List (ℤ × ℤ)) (as : List (ServerInput F)) :
    Runs.Always (serverNext getPath) (fun w => ∃ b, w.boss = some b ∧ b.Stays) start as ∧
      Runs.Along (serverNext getPath) (fun w a => ∀ w', w.serverNext getPath a = some w' →
        w'.attacks = w.attacks ∨ a.isBoss = true ∧ Announces w w') start as :=
  ⟨(Runs.always (fun _ _ _ hw h => (hw.next h).1) poised_start).imp fun _ => Poised.boss,
    Runs.along_of_invariant (fun _ _ _ hw h => (hw.next h).1)
      (fun _ _ _ hw _ _ h => (hw.next h).2) poised_start⟩

/-- The boss has announced `n` attacks, and the next one is less than `k` Updates away, unless the
boss has lost its event. -/
def Awaits (n k : ℕ) (w : World F) : Prop := n ≤ w.attacks.length ∧ 0 < k ∧
  ∃ b, w.boss = some b ∧ b.Stays ∧ (w.tokens = 0 ∨ w.tokens ≤ 1 ∧ b.updatesLeft < k)

omit [FloatArith F] in
theorem Awaits.pauses {n k : ℕ} (h : Awaits n k w) (hw : Pauses w w') : Awaits n k w' := by
  obtain ⟨hn,hk,b,hb,hs,hleft⟩ := h
  obtain ⟨b',hb',hrests⟩ := hw.boss b hb
  refine ⟨hw.attacks ▸ hn,hk,b',hb',hrests.stays hs,?_⟩
  rw [hw.tokens, Boss.updatesLeft, hrests.state]
  exact hleft

theorem Awaits.update {n k draw now : ℕ} (h : Awaits n (k+1) w)
    (hp : ∀ b ∈ w.boss, w.Provokes b)
    (hstep : w.serverNext getPath (.boss draw now) = some w') :
    n < w'.attacks.length ∨ Awaits n k w' := by
  obtain ⟨hn,-,b,hb,hs,hleft⟩ := h
  obtain ⟨hpos,b',hb',hs',hle,hattack⟩ := comes_serverNext hb hs hstep
  obtain ⟨hone,hlt⟩ := hleft.resolve_left hpos.ne'
  have hb₀ := b.updatesLeft_pos
  rcases hattack with hannounces | ⟨hquiet,hnext⟩
  · exact Or.inl (hn.trans_lt hannounces.length_lt)
  · refine Or.inr ⟨hquiet ▸ hn,by omega,b',hb',hs',?_⟩
    rcases hnext (hp b hb) with hlost | hfurther
    · exact Or.inl (by omega)
    · exact Or.inr ⟨hle.trans hone,by omega⟩

/-- Among any four Updates of the boss in a run of the server at which somebody is near and there is
a player in slot 0, at least one announces an attack. -/
theorem boss_keeps_attacking {before as : List (ServerInput F)}
    (hbefore : Runs.run (serverNext getPath) start before = some w)
    (hrun : Runs.run (serverNext getPath) w as = some w')
    (hprovoked : Runs.Along (serverNext getPath) (fun v a => a.isBoss = true →
      ∀ b ∈ v.boss, v.Provokes b) w as)
    (hfour : 4 ≤ as.countP ServerInput.isBoss) :
    Runs.Visits (serverNext getPath) (fun v => w.attacks.length < v.attacks.length) w as := by
  have hpoised : Poised w :=
    (Runs.always (fun _ _ _ hw h => (hw.next h).1) poised_start).last hbefore
  obtain ⟨b,hb,hs⟩ := hpoised.boss
  have hstage : Awaits w.attacks.length 4 w :=
    ⟨le_rfl,Nat.succ_pos 3,b,hb,hs,Or.inr ⟨hpoised.tokens,Nat.lt_succ_of_le b.updatesLeft_le⟩⟩
  have hlast : ∀ v : World F, ¬ Awaits w.attacks.length 0 v :=
    fun v hv => absurd hv.2.1 (lt_irrefl 0)
  refine Runs.visits_of_progress hlast ?_ ?_ hstage hprovoked hrun hfour
  · intro k v a v' hv ha hp hstep
    cases a with
    | boss draw now => exact hv.update (hp rfl) hstep
    | thread | io | monster => cases ha
  · intro k v a v' hv ha _ hstep
    exact Or.inr (hv.pauses (pauses_serverNext ha hstep))

end

/-- A player in slot 0 who stands next to the boss. -/
def visitor : CPlayer ℚ := { zeroPlayer with pos := Position.lits (23076.5) (35731.7) (-932.3) }

/-- The first event of the boss is dispatched. -/
def arrival : List (ServerInput ℚ) := [.thread (.accept visitor),.thread (.timer 0 1000)]

def visit : List (ServerInput ℚ) := [.boss 3 0,.thread (.timer 18 1000),.boss 3 0,
  .thread (.timer 18 1000),.boss 3 0,.thread (.timer 18 1000),.boss 3 0]

theorem boss_keeps_attacking_visitor : ∃ w : World ℚ,
    Runs.run (serverNext fun _ _ => []) start arrival = some w ∧
      Runs.Visits (serverNext fun _ _ => []) (fun v => w.attacks.length < v.attacks.length) w
        visit := by
  obtain ⟨w,hw⟩ : ∃ w : World ℚ, Runs.run (serverNext fun _ _ => []) start arrival = some w :=
    ⟨_,rfl⟩
  have hvisit : (Runs.run (serverNext fun _ _ => []) (start : World ℚ) arrival).all (fun w =>
      (Runs.run (serverNext fun _ _ => []) w visit).isSome && decide (Runs.Along
        (serverNext fun _ _ => []) (fun v a => a.isBoss = true → ∀ b ∈ v.boss, v.Provokes b) w
        visit)) = true := by decide +kernel
  rw [hw, Option.all_some, Bool.and_eq_true, decide_eq_true_eq] at hvisit
  obtain ⟨w',hw'⟩ := Option.isSome_iff_exists.mp hvisit.1
  exact ⟨w,hw,boss_keeps_attacking hw hw' hvisit.2 (by decide)⟩

end World

end LastHero
