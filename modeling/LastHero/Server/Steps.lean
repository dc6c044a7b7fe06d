import LastHero.Server.Deeds

/-! The steps of the server as deeds: the updates of the monsters and the boss, and from them every
step. Connections, logins and DB_Thread stand aside; they touch neither a monster nor the boss. -/
namespace LastHero
variable {F : Type}

/-- The steps that are nothing but deeds: those that neither begin nor end a connection, and have
nothing to do with a login. -/
def ServerInput.Plain : ServerInput F → Prop
  | .boss .. | .monster .. | .io .. | .thread (.levelUp _) | .thread (.timer ..) => True
  | .thread (.packet _ buf _) => CsType.ofByte (buf.byteAt 1) ≠ some .csLogin
  | .thread _ => False

/-- Who takes a step; connections and logins are for the clients. -/
def ServerInput.turn : ServerInput F → Turn
  | .boss .. => .boss
  | .monster i .. => .monster i
  | .io .. | .thread (.timer ..) => .timer
  | .thread _ => .clients

/-- What is told of connections and logins. -/
def Act.Aside : Act F → Prop
  | .send _ p => p.Idle ∨ (∃ uid, p = .scLoginOk uid) ∨ p = .scLoginFail
  | .updateUser .. => True
  | _ => False

namespace World
section
variable [FloatArith F] {w w' w'' : World F} {id i : Slot} {j : MonsterId} {m m' : CMonster F}
  {l : List Slot} {p : Packet F}

/-- Monster `j` is worth as much as before, whatever else was done. -/
structure Minds (j : MonsterId) (m : CMonster F) (w w' : World F) : Prop where
  deeds : Deeds (.monster j) w w'
  monster : ∃ m', w'.monster j = some m' ∧ m'.worth = m.worth

omit [FloatArith F] in
theorem Slot.idle_dead (i : Slot) : (Packet.scDead (Slot.oid i) : Packet F).Idle := by
  have hi : (i : ℕ) < 10 := i.isLt
  change Slot.oid i < npcIdStart
  simp only [Slot.oid, npcIdStart]
  omega

theorem Minds.refl (hm : w.monster j = some m) : Minds j m w w := ⟨.refl w,m,hm,rfl⟩

theorem Minds.setMonster (hworth : m'.worth = m.worth) (h : Minds j m w w') :
    Minds j m w (w'.setMonster j m') := by
  obtain ⟨m₀,hm₀,hworth₀⟩ := h.monster
  exact ⟨h.deeds.tail (.monster j m₀ m' (Or.inr rfl) w' hm₀ (hworth.trans hworth₀.symm)),m',
    Function.update_self ..,hworth⟩

theorem Minds.sendTo (hp : p.Idle) (h : Minds j m w w') : Minds j m w (w'.sendTo l p) :=
  ⟨h.deeds.sendTo hp,h.monster⟩

theorem Minds.monsterTimer {t : ℕ} (h : Minds j m w w') : Minds j m w (w'.monsterTimer j t) :=
  ⟨h.deeds.addTimer (by simp),h.monster⟩

omit [FloatArith F] in
theorem suffers_hurt {damage : ℤ} (hd : 0 ≤ damage) (p : CPlayer F) :
    p.Suffers (p.hurt damage) :=
  ⟨rfl,rfl,fun halive => ⟨halive,sub_le_self _ hd⟩,id,id⟩

omit [FloatArith F] in
theorem suffers_die (p : CPlayer F) : p.Suffers { p with healthPoint := 0, isAlive := false } :=
  ⟨rfl,rfl,fun halive => absurd halive Bool.false_ne_true,id,id⟩

omit [FloatArith F] in
theorem suffers_skillOff (kind : OffEvent) (now : ℕ) (p : CPlayer F) :
    p.Suffers (p.skillOff kind now) := by
  cases kind with
  | evGuardOff =>
    exact ⟨rfl,rfl,fun halive => ⟨halive,le_rfl⟩,fun hguard => absurd hguard Bool.false_ne_true,id⟩
  | evEvadeOff =>
    exact ⟨rfl,rfl,fun halive => ⟨halive,le_rfl⟩,id,
      fun hevade => absurd hevade Bool.false_ne_true⟩
  | evBerserk | evAtkOff | evAssOff => exact ⟨rfl,rfl,fun halive => ⟨halive,le_rfl⟩,id,id⟩

theorem Minds.takeDamage {damage : ℤ} (hd : 0 ≤ damage) (h : Minds j m w w') :
    Minds j m w (w'.takeDamage id damage) := by
  have hhurt : Minds j m w (w'.modifyPlayer id (CPlayer.hurt damage)) :=
    ⟨h.deeds.suffer (suffers_hurt hd),h.monster⟩
  simp only [World.takeDamage]
  split
  · exact hhurt
  · rename_i q _
    have htold := hhurt.sendTo (l := (w'.modifyPlayer id (CPlayer.hurt damage)).connected)
      (p := .scDamaged (Slot.oid id) q.healthPoint) trivial
    split_ifs
    · exact Minds.sendTo (Slot.idle_dead id) ⟨htold.deeds.suffer suffers_die,htold.monster⟩
    · exact htold

theorem minds_attackStart (hm : w.monster j = some m) (hworth : m'.worth = m.worth)
    (draw : ℕ) : Minds j m w (w.attackStart j m' draw) :=
  List.foldlRecOn (motive := Minds j m w) _ _ ((Minds.refl hm).setMonster hworth) fun _ h _ _ =>
    (h.sendTo (p := .scSetRotation ..) trivial).sendTo (p := .scAttack ..) trivial

theorem minds_monsterAttack {q : CPlayer F} {draw : ℕ} (hm : w.monster j = some m)
    (h : w.monsterAttack j m id q draw = (m',w')) : Minds j m w w' := by
  unfold World.monsterAttack at h
  split_ifs at h
  · cases h
    exact .refl hm
  · cases h
    exact .refl hm
  · cases h
    have hface : (m.face q.pos).worth = m.worth := rfl
    have hstart := minds_attackStart hm hface draw
    simp only [attackEnd]
    split_ifs
    · exact hstart.sendTo trivial
    · exact hstart
    · exact (hstart.sendTo (p := .scDamaged ..) trivial).takeDamage (by decide)

theorem changeState_worth {s : State} (h : w.changeState s m = .ok m') : m'.worth = m.worth := by
  have hexit : m.exit.exp = m.exp := by
    simp only [CMonster.exit]
    split
    · rfl
    · rfl
  have hexp : m'.exp = m.exp := by
    unfold World.changeState World.enter at h
    cases s with
    | idleState | returnHomeState | deadState =>
      cases h
      exact hexit
    | chaseState | attackState =>
      dsimp only at h
      split_ifs at h
      cases h
      exact hexit
  exact Prod.ext (changeState_spec h).2.2.1 hexp

/-- The monster is worth the same while it changes its state. -/
theorem Minds.changeState {s : State} {t : ℕ} {m₁ : CMonster F}
    (hworth : m₁.worth = m.worth) (hw : Minds j m w w')
    (h : (do let m' ← w'.changeState s m₁
             return (w'.setMonster j m').monsterTimer j t) = .ok w'') :
    Minds j m w w'' := by
  obtain ⟨m₂,hm₂,h⟩ := bind_eq_ok.mp h
  cases h
  exact (hw.setMonster ((changeState_worth hm₂).trans hworth)).monsterTimer

theorem changeIf_worth {c : Prop} [Decidable c] {s : State}
    (h : w.changeIf c s m = .ok m') : m'.worth = m.worth := by
  unfold changeIf at h
  split_ifs at h
  · exact changeState_worth h
  · cases h
    rfl

theorem minds_idleState {now : ℕ} (hm : w.monster j = some m)
    (h : w.executeIdleState j m now = .ok w') : Minds j m w w' := by
  obtain ⟨m₁,hbury,h⟩ := bind_eq_ok.mp h
  have hworth := changeIf_worth hbury
  have hself := Minds.refl hm
  unfold watchOut at h
  split at h
  · cases h
    exact (hself.setMonster hworth).monsterTimer
  · rename_i c _
    split at h
    · cases h
      exact (hself.setMonster hworth).monsterTimer
    · have haim : ({ m₁ with target := some c } : CMonster F).worth = m.worth := hworth
      dsimp only at h
      split_ifs at h
      · cases h
        exact (hself.setMonster haim).monsterTimer
      · exact hself.changeState haim h
      · exact hself.changeState haim h
      · exact hself.changeState haim h
      · cases h
        exact (hself.setMonster haim).monsterTimer

theorem updateTarget_worth (h : w.updateTarget m = .ok m') : m'.worth = m.worth := by
  obtain ⟨t,-,h⟩ := bind_eq_ok.mp h
  cases h
  rfl

theorem minds_chaseState {now : ℕ} (hm : w.monster j = some m)
    (h : w.executeChaseState j m now = .ok w') : Minds j m w w' := by
  have hself := Minds.refl hm
  unfold executeChaseState at h
  split_ifs at h
  · exact hself.changeState rfl h
  · obtain ⟨m₁,htarget,h⟩ := bind_eq_ok.mp h
    have hworth := updateTarget_worth htarget
    split at h
    · cases h
      exact (hself.setMonster hworth).monsterTimer
    · rename_i q _
      have hchase : (m₁.chase q.pos).worth = m.worth := hworth
      have hput : Minds j m w ((w.setMonster j (m₁.chase q.pos)).broadcast
          ((m₁.chase q.pos).makeUpdatePacket j)) :=
        (hself.setMonster hchase).sendTo (p := .scUpdateObj ..) trivial
      dsimp only at h
      split_ifs at h
      · exact hput.changeState hchase h
      · cases h
        exact hput.monsterTimer

theorem minds_attackState {draw now : ℕ} (hm : w.monster j = some m)
    (h : w.executeAttackState j m draw now = .ok w') : Minds j m w w' := by
  have hself := Minds.refl hm
  unfold executeAttackState at h
  split_ifs at h
  · exact hself.changeState rfl h
  · split at h
    · exact hself.changeState rfl h
    · rename_i id _
      split at h
      · exact hself.changeState rfl h
      · rename_i q _
        split_ifs at h
        · exact hself.changeState rfl h
        · cases hattack : w.monsterAttack j m id q draw with
          | mk m₁ w₁ =>
            obtain ⟨-,r,hr⟩ := puts_monsterAttack hm hattack
            have hput := minds_monsterAttack hm hattack
            rw [hattack] at h
            dsimp only at h
            split_ifs at h
            · exact hput.changeState (by rw [hr]; rfl) h
            · cases h
              exact hput.monsterTimer

theorem minds_returnHomeState {now : ℕ} (hm : w.monster j = some m)
    (h : w.executeReturnHomeState j m now = .ok w') : Minds j m w w' := by
  obtain ⟨m₁,h₁,h⟩ := bind_eq_ok.mp h
  obtain ⟨m₂,h₂,h⟩ := bind_eq_ok.mp h
  obtain ⟨m₃,h₃,h⟩ := bind_eq_ok.mp h
  cases h
  have hworth := (changeIf_worth h₃).trans ((changeIf_worth h₂).trans (changeIf_worth h₁))
  exact ((Minds.refl hm).setMonster hworth).monsterTimer

omit [FloatArith F] in
theorem tokens_unpost_monster (i : MonsterId) (w : World F) :
    (w.unpost (.evMonster i)).tokens = w.tokens := by
  simp only [tokens, unpost]
  rw [List.count_erase_of_ne (by simp)]

theorem deeds_monsterUpdate {draw now : ℕ} (h : w.monsterUpdate j draw now = .ok w') :
    Deeds (.monster j) w w' := by
  cases hm : w.monster j with
  | none =>
    rw [monsterUpdate_none hm] at h
    cases h
    exact .refl w
  | some m =>
    rw [monsterUpdate_some hm] at h
    unfold monsterExecute at h
    cases hstate : m.state with
    | idleState => rw [hstate] at h; exact (minds_idleState hm h).deeds
    | chaseState => rw [hstate] at h; exact (minds_chaseState hm h).deeds
    | attackState => rw [hstate] at h; exact (minds_attackState hm h).deeds
    | returnHomeState => rw [hstate] at h; exact (minds_returnHomeState hm h).deeds
    | deadState =>
      rw [hstate] at h
      cases h
      exact .refl w

section Boss
variable {b b' : Boss F}

/-- The boss goes on to another state. -/
theorem Deeds.goOn (hb : w'.boss = some b) (hhp : b'.mainHP = b.mainHP) (h : Deeds .boss w w') :
    Deeds .boss w (w'.setBoss b') := h.tail (.boss b b' w' hb hhp fun hne => absurd rfl hne)

theorem Deeds.bossTimer {t : ℕ} (h : Deeds .boss w w') : Deeds .boss w (w'.bossTimer b t) :=
  h.tail (.timers _ _ ⟨rfl,rfl,rfl,rfl,rfl,rfl,rfl⟩ fun hne => absurd rfl hne)

/-- Boss::Update turns to the target, announces an attack and goes on to the next state. -/
theorem deeds_executeStrike {atk : BState} {delay now : ℕ} (hb : w.boss = some b')
    (hhp : b.mainHP = b'.mainHP) (halive : 0 < b'.mainHP) :
    Deeds .boss w (executeStrike atk delay b now w) := by
  simp only [executeStrike]
  split
  · exact (Deeds.refl w).goOn hb hhp
  · rename_i q _
    split_ifs
    · exact (Deeds.refl w).goOn hb hhp
    · have hturn : Deeds .boss w (w.turnTo b q) :=
        (Deeds.refl w).sendTo (p := .scSetRotation ..) trivial
      have htold : Deeds .boss w ((w.turnTo b q).announce atk q) :=
        hturn.tail (.announce b' atk q rfl _ hb halive)
      have hb' : ((w.turnTo b q).announce atk q).boss = some b' := hb
      have hnext : (b.changeState .bossAttack).mainHP = b'.mainHP := hhp
      exact (htold.goOn hb' hnext).bossTimer

theorem deeds_executeDownAttack {draw now : ℕ} (hb : w.boss = some b')
    (hhp : b.mainHP = b'.mainHP) (halive : 0 < b'.mainHP) :
    Deeds .boss w (w.executeDownAttack b draw now) := by
  simp only [executeDownAttack]
  split
  · exact (Deeds.refl w).goOn hb hhp
  · rename_i q _
    split_ifs
    · exact (Deeds.refl w).goOn hb hhp
    · have hturn : Deeds .boss w ((w.setBoss b).turnTo b q) :=
        ((Deeds.refl w).goOn hb hhp).sendTo (p := .scSetRotation ..) trivial
      split
      · exact hturn
      · rename_i atk _
        have htold : Deeds .boss w (((w.setBoss b).turnTo b q).announce atk q) :=
          hturn.tail (.announce b atk q rfl _ rfl (hhp ▸ halive))
        exact (htold.goOn (b := b) rfl (by rfl)).bossTimer

theorem deeds_executeAttack {draw now : ℕ} (hb : w.boss = some b')
    (hhp : b.mainHP = b'.mainHP) (halive : 0 < b'.mainHP)
    (h : w.executeAttack b draw now = .ok w') : Deeds .boss w w' := by
  unfold executeAttack at h
  cases hc : w.bossAttackChoice b draw with
  | mk b₁ atk =>
    obtain ⟨⟨-,hhp₁,-⟩,-⟩ := bossAttackChoice_spec hc
    have hset : Deeds .boss w (w.setBoss b₁) := (Deeds.refl w).goOn hb (hhp₁.trans hhp)
    rw [hc] at h
    dsimp only at h
    split_ifs at h
    · cases h
      exact hset.bossTimer
    · split at h
      · cases h
      · rename_i q _
        cases h
        have hturn : Deeds .boss w ((w.setBoss b₁).turnTo b₁ q) :=
          hset.sendTo (p := .scSetRotation ..) trivial
        exact Deeds.bossTimer (hturn.tail (.announce b₁ .bNormalAtk q rfl _ rfl
          (by rw [hhp₁, hhp]; exact halive)))
    · cases h
      exact (hset.goOn (b := b₁) rfl (by rfl)).bossTimer

theorem bossChase_mainHP {getPath : ℤ × ℤ → ℤ × ℤ → List (ℤ × ℤ)} {next : BState}
    (h : bossChase getPath b w = .ok (b',next)) : b'.mainHP = b.mainHP := by
  unfold bossChase at h
  split at h
  · cases h
    rfl
  · dsimp only at h
    split at h
    · cases h
    · cases h
    · split_ifs at h
      · cases h
        rfl
      · split at h
        · cases h
        · split_ifs at h
          · cases h
            rfl
          · cases h
            rfl
          · cases h
            rfl

theorem deeds_bossUpdate {getPath : ℤ × ℤ → ℤ × ℤ → List (ℤ × ℤ)} {draw now : ℕ}
    (h : w.bossUpdate getPath draw now = .ok w') : Deeds .boss w w' := by
  unfold bossUpdate at h
  split at h
  · cases h
    exact .refl w
  · rename_i b hb
    split_ifs at h with hdead
    · cases h
      exact (Deeds.refl w).goOn hb rfl
    · have halive : 0 < b.mainHP := not_le.mp fun hle => hdead (Or.inr hle)
      have hhp : b.isPartDestroyed.mainHP = b.mainHP := rfl
      unfold bossExecute at h
      split at h
      · cases h
        simp only [executeIdle]
        refine ((Deeds.refl w).goOn hb ?_).bossTimer
        split_ifs
        · exact hhp
        · exact hhp
      · unfold executeChase at h
        split_ifs at h
        · cases h
          exact (Deeds.refl w).goOn hb hhp
        · obtain ⟨⟨b₁,next⟩,hchase,h⟩ := bind_eq_ok.mp h
          cases h
          have hsame : b₁.mainHP = b.mainHP := (bossChase_mainHP hchase).trans hhp
          refine (Deeds.refl w).goOn hb ?_
          split_ifs
          · exact hsame
          · exact hsame
      · exact deeds_executeAttack hb hhp halive h
      · cases h
        exact (Deeds.refl w).goOn hb hhp
      all_goals cases h
      · exact deeds_executeStrike hb hhp halive
      · exact deeds_executeStrike hb hhp halive
      · exact deeds_executeStrike hb hhp halive
      · exact deeds_executeStrike hb hhp halive
      · exact deeds_executeStrike hb hhp halive
      · exact deeds_executeStrike hb hhp halive
      · exact deeds_executeStrike hb hhp halive
      · exact deeds_executeStrike hb hhp halive
      · exact deeds_executeDownAttack hb hhp halive

end Boss

theorem deeds_timer {k now : ℕ} (h : w.timerThread k now = some w') : Deeds .timer w w' := by
  have htokens := (idles_timer h).tokens
  obtain ⟨ev,-,rfl⟩ := timerThread_spec h
  simp only [timerEvent] at htokens ⊢
  split at htokens
  · exact Relation.ReflTransGen.single (.timers _ _ ⟨rfl,rfl,rfl,rfl,rfl,rfl,rfl⟩ fun _ => htokens)
  · exact Relation.ReflTransGen.single (.timers _ _ ⟨rfl,rfl,rfl,rfl,rfl,rfl,rfl⟩ fun _ => htokens)
  · have htake : Deeds .timer w (w.setTimerQueue (w.timerQueue.eraseIdx k)) :=
      Relation.ReflTransGen.single (.timers _ _ ⟨rfl,rfl,rfl,rfl,rfl,rfl,rfl⟩ fun _ => htokens)
    exact htake.suffer (suffers_skillOff _ now)

theorem deeds_serverNext {getPath : ℤ × ℤ → ℤ × ℤ → List (ℤ × ℤ)} {a : ServerInput F}
    (ha : ServerInput.Plain a) (h : w.serverNext getPath a = some w') : Deeds a.turn w w' := by
  cases a with
  | io ops recv =>
    cases h
    exact Relation.ReflTransGen.single (.timers _ _ ⟨rfl,rfl,rfl,rfl,rfl,rfl,rfl⟩ fun _ => rfl)
  | boss draw now =>
    dsimp only [serverNext, bossNext] at h
    split_ifs at h
    have htake : Deeds .boss w (w.unpost .evBoss) :=
      Relation.ReflTransGen.single (.timers _ _ ⟨rfl,rfl,rfl,rfl,rfl,rfl,rfl⟩
        fun hne => absurd rfl hne)
    exact htake.trans (deeds_bossUpdate (toOption_eq_some h))
  | monster i draw now =>
    dsimp only [serverNext, monsterNext] at h
    split_ifs at h
    have htake : Deeds (.monster i) w (w.unpost (.evMonster i)) :=
      Relation.ReflTransGen.single (.timers _ _ ⟨rfl,rfl,rfl,rfl,rfl,rfl,rfl⟩ fun _ =>
        tokens_unpost_monster i w)
    exact htake.trans (deeds_monsterUpdate (toOption_eq_some h))
  | thread a =>
    dsimp only [serverNext] at h
    cases a with
    | packet uid buf now =>
      obtain ⟨t,ht,hok⟩ := processPacket_spec (toOption_eq_some h)
      refine deeds_onType (t := t) ?_ hok
      rintro rfl
      exact ha ht
    | levelUp uid =>
      dsimp only [World.next] at h
      split_ifs at h
      cases h
      exact (Deeds.refl w).levelUp
    | timer k now => exact deeds_timer h
    | accept | disconnect | login | dbTake | dbFinish => exact ha.elim

end

/-- Monsters and boss have no part in what happens. -/
structure Aside (w w' : World F) : Prop where
  monster : w'.monster = w.monster
  boss : w'.boss = w.boss
  tokens : w'.tokens = w.tokens
  acts : ∃ new, w'.trace = w.trace ++ new ∧ ∀ a ∈ new, Act.Aside a

variable {w w' w'' : World F} {id : Slot} {l : List Slot} {p : Packet F}

theorem Aside.of_eq (hm : w'.monster = w.monster) (hb : w'.boss = w.boss)
    (htokens : w'.tokens = w.tokens) (ht : w'.trace = w.trace) : Aside w w' :=
  ⟨hm,hb,htokens,[],by rw [ht, List.append_nil],by simp⟩

theorem Aside.refl (w : World F) : Aside w w := .of_eq rfl rfl rfl rfl

theorem Aside.trans (h : Aside w w') (h' : Aside w' w'') : Aside w w'' := by
  refine ⟨h'.monster.trans h.monster,h'.boss.trans h.boss,h'.tokens.trans h.tokens,?_⟩
  obtain ⟨new,ht,hnew⟩ := h.acts
  obtain ⟨new',ht',hnew'⟩ := h'.acts
  refine ⟨new ++ new',by rw [ht', ht, List.append_assoc],fun a ha => ?_⟩
  exact (List.mem_append.mp ha).elim (hnew a) (hnew' a)

theorem Aside.sendTo (hp : p.Idle ∨ (∃ uid, p = .scLoginOk uid) ∨ p = .scLoginFail)
    (h : Aside w w') : Aside w (w'.sendTo l p) := by
  refine h.trans ⟨rfl,rfl,rfl,_,rfl,fun a ha => ?_⟩
  obtain ⟨c,-,rfl⟩ := List.mem_map.mp ha
  exact hp

theorem aside_accept (heap : CPlayer F) (w : World F) : Aside w (w.accept heap) := by
  simp only [World.accept]
  split
  · exact .refl w
  · exact .of_eq rfl rfl rfl rfl

theorem aside_disconnect (h : w.disconnect id = .ok w') : Aside w w' := by
  unfold World.disconnect at h
  split at h
  · cases h
  · cases h
    have hgone : Aside w (((w.setPlayer id none).renew id).setClient id
        { w.client id with isconnected := false, sock := none }) := .of_eq rfl rfl rfl rfl
    exact hgone.sendTo (Or.inl trivial)

theorem aside_ensurePlayer (heap : CPlayer F) (w : World F) : Aside w (w.ensurePlayer id heap) := by
  simp only [World.ensurePlayer]
  split
  · exact .refl w
  · exact .of_eq rfl rfl rfl rfl

theorem aside_dbTake {outcome : Outcome} {heap : CPlayer F} (h : w.dbTake outcome heap = .ok w') :
    Aside w w' := by
  rcases dbTake_cases h with rfl | ⟨ev,queue,-,-,rfl | ⟨queue',rfl⟩ | ⟨exp,rfl⟩⟩
  · exact .refl w'
  · have htake : Aside w (w.setQuaryQueue queue) := .of_eq rfl rfl rfl rfl
    exact (htake.trans (aside_ensurePlayer heap _)).trans (.of_eq rfl rfl rfl rfl)
  · exact .of_eq rfl rfl rfl rfl
  · refine ⟨rfl,rfl,rfl,_,rfl,fun a ha => ?_⟩
    obtain rfl := List.mem_singleton.mp ha
    trivial

theorem aside_login {name pass : List Byte} {character : ℤ}
    (h : w.login id name pass character = .ok w') : Aside w w' := by
  obtain ⟨-,n,q,rfl⟩ := login_spec h
  exact .of_eq rfl rfl rfl rfl

section
variable [FloatArith F]

theorem aside_dbFinish (outcome : Outcome) (heap : CPlayer F) (now : ℕ) (w : World F) :
    Aside w (w.dbFinish outcome heap now) := by
  simp only [World.dbFinish]
  split
  · exact .refl w
  · rename_i ev _
    have hidle : Aside w (w.setHandling none) := .of_eq rfl rfl rfl rfl
    split
    · rename_i r
      have hload : Aside (w.setHandling none) ((w.setHandling none).loadPlayer ev.userId r heap now) :=
        (aside_ensurePlayer heap _).trans (.of_eq rfl rfl rfl rfl)
      exact (hidle.trans hload).sendTo (Or.inr (Or.inl ⟨_,rfl⟩))
    · exact hidle.sendTo (Or.inr (Or.inr rfl))

/-- A packet with a login. -/
theorem login_packet {uid : Slot} {buf : Buffer} {now : Now}
    (ht : CsType.ofByte (buf.byteAt 1) = some .csLogin)
    (h : w.processPacket uid buf now = .ok w') : ∃ v,
      w.login uid (buf.cString 2) (buf.cString 12) (buf.byteAt 22).toInt = .ok v ∧
        (v.player uid).isSome ∧ w' = v.enterGame uid := by
  obtain ⟨t,ht',hok⟩ := processPacket_spec h
  obtain rfl : .csLogin = t := Option.some.inj (ht.symm.trans ht')
  obtain ⟨v,hlogin,hok⟩ := bind_eq_ok.mp hok
  obtain ⟨q,hq,rfl⟩ := onPlayer_spec (w := v) hok
  exact ⟨v,hlogin,Option.isSome_of_mem hq,rfl⟩

/-- First what happens aside, then the deeds. -/
theorem step_spec {getPath : ℤ × ℤ → ℤ × ℤ → List (ℤ × ℤ)} {a : ServerInput F}
    (h : w.serverNext getPath a = some w') : ∃ v, Aside w v ∧ Deeds a.turn v w' := by
  by_cases ha : ServerInput.Plain a
  · exact ⟨w,.refl w,deeds_serverNext ha h⟩
  · cases a with
    | boss | monster | io => exact absurd trivial ha
    | thread a =>
      dsimp only [serverNext] at h
      cases a with
      | accept heap =>
        cases h
        exact ⟨_,aside_accept heap w,.refl _⟩
      | disconnect uid => exact ⟨w',aside_disconnect (toOption_eq_some h),.refl w'⟩
      | packet uid buf now =>
        obtain ⟨v,hlogin,huid,rfl⟩ := login_packet (not_not.mp ha) (toOption_eq_some h)
        exact ⟨v,aside_login hlogin,deeds_enterGame huid⟩
      | login uid name pass character => exact ⟨w',aside_login (toOption_eq_some h),.refl w'⟩
      | dbTake outcome heap => exact ⟨w',aside_dbTake (toOption_eq_some h),.refl w'⟩
      | dbFinish outcome heap now =>
        cases h
        exact ⟨_,aside_dbFinish outcome heap now w,.refl _⟩
      | levelUp | timer => exact absurd trivial ha

theorem start_trace : (start : World F).trace = [] := by
  have hspawn := KeyedFold.foldl_related (R := fun w w' : World F => w'.trace = w.trace)
    (fun _ => rfl) (fun h h' => h'.trans h) (fun _ _ => rfl) spawns
    (((empty : World F).setBoss Boss.initializeBoss).addTimer .evBoss 1000 0)
  exact hspawn

end

end World

end LastHero
