import LastHero.Server.Steps
import LastHero.Combat.Ledger

/-! Experience over all that can happen on the server. It comes from dead monsters only, each of
which pays once, to the player of the last blow; a login sets what its player begins with, and the
monsters never come back. -/
namespace LastHero
variable {F : Type}

namespace World

/-- All experience of the player of a slot. -/
def score (w : World F) (i : Slot) : ℤ := (w.player i).elim 0 CPlayer.score

/-- What the monsters are worth, dead or alive. -/
def stock (w : World F) : ℤ := ∑ i, (w.monster i).elim 0 CMonster.exp

end World

/-- The server and the books of its sessions. A session of a slot begins and ends with the
incarnation of its player. -/
structure Accounts (F : Type) where
  world : World F
  /-- what the player of a slot began its session with -/
  opening : Slot → ℤ
  /-- what was earned in the sessions that are over -/
  closed : ℤ

namespace Accounts

/-- What the player of a slot has earned in its session. -/
def earned (s : Accounts F) (i : Slot) : ℤ := s.world.score i - s.opening i

/-- The accounts of the sessions that a step ends are closed, and those of the new ones opened. -/
def carry (s : Accounts F) (w' : World F) : Accounts F where
  world := w'
  opening i := if w'.era i = s.world.era i then s.opening i else w'.score i
  closed := s.closed + ∑ i, if w'.era i = s.world.era i then 0 else s.earned i

def start [FloatArith F] : Accounts F := ⟨World.start,fun _ => 0,0⟩

def next [FloatArith F] (getPath : ℤ × ℤ → ℤ × ℤ → List (ℤ × ℤ)) (s : Accounts F)
    (a : ServerInput F) : Option (Accounts F) :=
  (s.world.serverNext getPath a).map s.carry

end Accounts

namespace World
variable {w w' w'' : World F} {id i : Slot} {j : MonsterId} {m m' : CMonster F} {turn : Turn}

/-- No monster takes experience away. -/
def Worthy (w : World F) : Prop := ∀ j m, w.monster j = some m → 0 ≤ m.exp

/-- The sessions go on, and what the players earn is the worth of the monsters that die. -/
structure Pays (w w' : World F) : Prop where
  era : w'.era = w.era
  exp : ∀ j, (w'.monster j).map CMonster.exp = (w.monster j).map CMonster.exp
  score : Worthy w → ∀ i, w.score i ≤ w'.score i
  ledger : w'.totalExp + w.bounty = w.totalExp + w'.bounty

/-- Sessions begin or end. -/
structure Opens (w w' : World F) : Prop where
  monster : w'.monster = w.monster
  era : w.era ≤ w'.era
  score : ∀ i, w'.era i = w.era i → w'.score i = w.score i

theorem worthy_congr (hexp : ∀ j, (w'.monster j).map CMonster.exp = (w.monster j).map CMonster.exp)
    (h : Worthy w) : Worthy w' := by
  intro j m' hm'
  have hj := hexp j
  rw [hm'] at hj
  obtain ⟨m,hm,he⟩ := Option.map_eq_some_iff.mp hj.symm
  exact he ▸ h j m hm

theorem stock_congr (hexp : ∀ j, (w'.monster j).map CMonster.exp = (w.monster j).map CMonster.exp) :
    w'.stock = w.stock := by
  refine Finset.sum_congr rfl fun j _ => ?_
  have hj := congrArg (fun x : Option ℤ => x.elim 0 id) (hexp j)
  rw [Option.elim_map, Option.elim_map] at hj
  exact hj

/-- The dead monsters are some of all. -/
theorem bounty_le_stock (h : Worthy w) : w.bounty ≤ w.stock := by
  refine Finset.sum_le_sum fun j _ => ?_
  split_ifs
  · exact le_rfl
  · cases hm : w.monster j with
    | none => exact le_rfl
    | some m => exact h j m hm

theorem score_congr (h : w'.player i = w.player i) : w'.score i = w.score i := by
  simp only [World.score]
  rw [h]

theorem isDead_congr (h : w'.monster j = w.monster j) : w'.isDead j = w.isDead j := by
  simp only [isDead]
  rw [h]

theorem bounty_congr (h : w'.monster = w.monster) : w'.bounty = w.bounty := by
  refine Finset.sum_congr rfl fun j _ => ?_
  rw [isDead_congr (congrFun h j), h]

/-- Neither the scores nor the monsters change. -/
theorem Pays.of_eq (he : w'.era = w.era) (hm : w'.monster = w.monster)
    (hs : ∀ i, w'.score i = w.score i) : Pays w w' where
  era := he
  exp j := by rw [hm]
  score _ i := (hs i).ge
  ledger := by
    have htotal : w'.totalExp = w.totalExp := Finset.sum_congr rfl fun i _ => hs i
    rw [htotal, bounty_congr hm]

theorem Pays.of_player (he : w'.era = w.era) (hm : w'.monster = w.monster)
    (hp : w'.player = w.player) : Pays w w' := .of_eq he hm fun i => score_congr (congrFun hp i)

theorem Pays.refl (w : World F) : Pays w w := .of_player rfl rfl rfl

theorem Pays.trans (h : Pays w w') (h' : Pays w' w'') : Pays w w'' where
  era := h'.era.trans h.era
  exp j := (h'.exp j).trans (h.exp j)
  score hw i := (h.score hw i).trans (h'.score (worthy_congr h.exp hw) i)
  ledger := by
    have hfirst := h.ledger
    have hsecond := h'.ledger
    omega

theorem score_modifyPlayer {f : CPlayer F → CPlayer F}
    (hf : ∀ p : CPlayer F, (f p).score = p.score) (i : Slot) (w : World F) (c : Slot) :
    (w.modifyPlayer i f).score c = w.score c := by
  simp only [score]
  rw [modifyPlayer_player]
  split_ifs with hc
  · subst hc
    cases w.player c with
    | none => rfl
    | some p => exact hf p
  · rfl

/-- What the bounty gains with another monster in the place of `m`. -/
theorem bounty_setMonster (hm : w.monster j = some m) (hexp : m'.exp = m.exp) :
    (w.setMonster j m').bounty = w.bounty + ((if m'.healthPoint = 0 then m.exp else 0) -
      if m.healthPoint = 0 then m.exp else 0) := by
  refine sum_eq_add_of_eq (i := j) (fun k hk => ?_) ?_
  · have hother : (w.setMonster j m').monster k = w.monster k := Function.update_of_ne hk ..
    rw [isDead_congr hother, hother]
  · have hself : (w.setMonster j m').monster j = some m' := Function.update_self ..
    have hnew : (w.setMonster j m').isDead j = decide (m'.healthPoint = 0) := by
      simp only [isDead]
      rw [hself]
      rfl
    have hold : w.isDead j = decide (m.healthPoint = 0) := by
      simp only [isDead]
      rw [hm]
      rfl
    rw [hnew, hold, hself, hm]
    simp [hexp]

theorem exp_setMonster (hm : w.monster j = some m) (hexp : m'.exp = m.exp) (k : MonsterId) :
    ((w.setMonster j m').monster k).map CMonster.exp = (w.monster k).map CMonster.exp := by
  by_cases hk : k = j
  · subst hk
    have hself : (w.setMonster k m').monster k = some m' := Function.update_self ..
    rw [hself, hm, Option.map_some, Option.map_some, hexp]
  · exact congrArg _ (Function.update_of_ne hk ..)

/-- A monster that lives on, or stays dead. -/
theorem pays_setMonster (hm : w.monster j = some m) (hexp : m'.exp = m.exp)
    (hdead : m'.healthPoint = 0 ↔ m.healthPoint = 0) : Pays w (w.setMonster j m') where
  era := rfl
  exp := exp_setMonster hm hexp
  score _ _ := le_rfl
  ledger := by
    have hbounty := bounty_setMonster hm hexp
    simp only [hdead, sub_self, add_zero] at hbounty
    have htotal : (w.setMonster j m').totalExp = w.totalExp := rfl
    rw [hbounty, htotal]

/-- The worth of a dead monster goes to a player. -/
theorem pays_slay [FloatArith F] {damage : ℤ} (hid : (w.player id).isSome) (hm : w.monster j = some m)
    (halive : m.healthPoint ≠ 0) (hleft : (m.damaged damage).healthPoint = 0) :
    Pays w (((w.beaten id j m damage).record (.kill id j)).modifyPlayer id
      (CPlayer.gainExp m.exp)) := by
  obtain ⟨p,hp⟩ := Option.isSome_iff_exists.mp hid
  have hexp : (m.damaged damage).exp = m.exp := (spared_damaged halive damage).exp
  have hself : (((w.beaten id j m damage).record (.kill id j)).modifyPlayer id
      (CPlayer.gainExp m.exp)).score id = w.score id + m.exp := by
    have hgain := modifyPlayer_self (w := (w.beaten id j m damage).record (.kill id j))
      (CPlayer.gainExp m.exp) hp
    simp only [score]
    rw [hgain, hp]
    simp only [Option.elim_some, CPlayer.score, CPlayer.gainExp]
    ring
  have hother : ∀ c, c ≠ id → (((w.beaten id j m damage).record (.kill id j)).modifyPlayer id
      (CPlayer.gainExp m.exp)).score c = w.score c := by
    intro c hc
    have hsame := modifyPlayer_of_ne (w := (w.beaten id j m damage).record (.kill id j))
      (f := CPlayer.gainExp m.exp) hc
    simp only [score]
    rw [hsame]
    rfl
  refine ⟨rfl,exp_setMonster hm hexp,fun hw c => ?_,?_⟩
  · by_cases hc : c = id
    · rw [hc, hself]
      exact le_add_of_nonneg_right (hw j m hm)
    · rw [hother c hc]
  · have hbounty := bounty_setMonster hm hexp
    simp only [hleft, halive, if_true, if_false, sub_zero] at hbounty
    have htotal : (((w.beaten id j m damage).record (.kill id j)).modifyPlayer id
        (CPlayer.gainExp m.exp)).totalExp = w.totalExp + m.exp :=
      sum_eq_add_of_eq (i := id) hother hself
    have hsame : (((w.beaten id j m damage).record (.kill id j)).modifyPlayer id
        (CPlayer.gainExp m.exp)).bounty = (w.setMonster j (m.damaged damage)).bounty := rfl
    rw [hsame, hbounty, htotal]
    ring

theorem Pays.sendTo {l : List Slot} {p : Packet F} (h : Pays w w') : Pays w (w'.sendTo l p) :=
  h.trans (.of_player rfl rfl rfl)

theorem pays_deed [FloatArith F] (hd : Deed turn w w') : Pays w w' := by
  have hself := Pays.refl w
  cases hd with
  | send | update | boss | announce => exact .of_player rfl rfl rfl
  | appear => exact hself.sendTo
  | player i f _ hscore => exact .of_eq rfl rfl (score_modifyPlayer hscore i w)
  | timers _ _ hs => exact .of_player hs.era hs.monster hs.player
  | monster j m m' _ _ hm hworth =>
    obtain ⟨hhp,hexp⟩ := Prod.mk.inj hworth
    exact pays_setMonster hm hexp (by rw [hhp])
  | hurt id j m damage _ _ hm halive hleft =>
    have hbeaten : Pays w (w.beaten id j m damage) :=
      (pays_setMonster hm (spared_damaged halive damage).exp (iff_of_false hleft.ne' halive)).trans
        (.of_player rfl rfl rfl)
    exact hbeaten.sendTo
  | slay id j m damage exp _ _ hid hm halive hleft =>
    have hslain := pays_slay hid hm halive hleft
    exact hslain.sendTo.sendTo
  | wound id b =>
    simp only [bossTakeDamage]
    split
    · exact .of_player rfl rfl rfl
    · split_ifs
      · exact .of_player rfl rfl rfl
      · exact .of_player rfl rfl rfl

theorem pays_login {name pass : List Byte} {character : ℤ}
    (h : w.login id name pass character = .ok w') : Pays w w' := by
  obtain ⟨-,n,q,rfl⟩ := login_spec h
  have hset := score_modifyPlayer (f := CPlayer.setObjType character) (fun _ => rfl) id
    (w.addQuary id .evLogin n q)
  exact .of_eq rfl rfl hset

theorem Opens.refl (w : World F) : Opens w w := ⟨rfl,le_rfl,fun _ _ => rfl⟩

theorem Opens.trans (h : Opens w w') (h' : Opens w' w'') : Opens w w'' := by
  refine ⟨h'.monster.trans h.monster,h.era.trans h'.era,fun i hi => ?_⟩
  have hsame : w'.era i = w.era i := le_antisymm ((h'.era i).trans hi.le) (h.era i)
  exact (h'.score i (hi.trans hsame.symm)).trans (h.score i hsame)

/-- A session ends, and nothing else happens to the other slots. -/
theorem Opens.of_renew (id : Slot) (hm : w'.monster = w.monster) (hera : w'.era = (w.renew id).era)
    (hp : ∀ i, i ≠ id → w'.player i = w.player i) : Opens w w' := by
  refine ⟨hm,hera ▸ era_le_renew id w,fun i hi => ?_⟩
  have hne : i ≠ id := by
    rintro rfl
    have hself : (w.renew i).era i = w.era i + 1 := Function.update_self ..
    rw [hera, hself] at hi
    exact Nat.succ_ne_self _ hi
  exact score_congr (hp i hne)

theorem opens_accept (heap : CPlayer F) (w : World F) : Opens w (w.accept heap) := by
  cases hfree : w.freeSlot with
  | none =>
    rw [accept_full heap hfree]
    exact .refl w
  | some i =>
    have hplayer := accept_player heap hfree
    simp only [World.accept] at hplayer ⊢
    rw [hfree] at hplayer ⊢
    refine .of_renew i rfl rfl fun c hc => ?_
    exact (congrFun hplayer c).trans (Function.update_of_ne hc ..)

theorem opens_disconnect (h : w.disconnect id = .ok w') : Opens w w' := by
  obtain ⟨-,hplayer,-,-,-,-,hera⟩ := disconnect_spec h
  refine .of_renew id (aside_disconnect h).monster hera fun c hc => ?_
  exact (congrFun hplayer c).trans (Function.update_of_ne hc ..)

/-- DB_Thread creates a player in an empty slot. -/
theorem opens_ensurePlayer (id : Slot) (heap : CPlayer F) (w : World F) :
    Opens w (w.ensurePlayer id heap) := by
  simp only [World.ensurePlayer]
  split
  · exact .refl w
  · exact .of_renew id rfl rfl fun c hc => Function.update_of_ne hc ..

theorem opens_setQuaryQueue (queue : List DBEvent) (w : World F) :
    Opens w (w.setQuaryQueue queue) := ⟨rfl,le_rfl,fun _ _ => rfl⟩

theorem opens_dbTake {outcome : Outcome} {heap : CPlayer F} (h : w.dbTake outcome heap = .ok w') :
    Opens w w' := by
  rcases dbTake_cases h with rfl | ⟨ev,queue,-,-,rfl | ⟨queue',rfl⟩ | ⟨exp,rfl⟩⟩
  · exact .refl w'
  · have hensure := (opens_setQuaryQueue queue w).trans (opens_ensurePlayer ev.userId heap _)
    have hset := score_modifyPlayer (f := CPlayer.setCredentials ev.name ev.pass) (fun _ => rfl)
      ev.userId ((w.setQuaryQueue queue).ensurePlayer ev.userId heap)
    exact hensure.trans ⟨rfl,le_rfl,fun i _ => hset i⟩
  · exact opens_setQuaryQueue queue' w
  · exact ⟨rfl,le_rfl,fun _ _ => rfl⟩

theorem opens_dbFinish [FloatArith F] (outcome : Outcome) (heap : CPlayer F) (now : ℕ)
    (w : World F) : Opens w (w.dbFinish outcome heap now) := by
  have hidle : Opens w (w.setHandling none) := ⟨rfl,le_rfl,fun _ _ => rfl⟩
  simp only [World.dbFinish]
  split
  · exact .refl w
  · rename_i ev _
    split
    · have hensure := hidle.trans (opens_ensurePlayer ev.userId heap (w.setHandling none))
      refine hensure.trans (.of_renew ev.userId rfl rfl fun c hc => ?_)
      exact modifyPlayer_of_ne (w := (((w.setHandling none).ensurePlayer ev.userId heap).renew
        ev.userId)) hc
    · exact hidle.trans ⟨rfl,le_rfl,fun _ _ => rfl⟩

/-- Every step either pays or opens and ends sessions. -/
theorem pays_or_opens [FloatArith F] {getPath : ℤ × ℤ → ℤ × ℤ → List (ℤ × ℤ)} {a : ServerInput F}
    (h : w.serverNext getPath a = some w') : Pays w w' ∨ Opens w w' := by
  have hdeeds : ∀ {turn : Turn} {v v' : World F}, Deeds turn v v' → Pays v v' := fun hd =>
    hd.lift (R := Pays) .refl .trans fun _ _ => pays_deed
  by_cases ha : ServerInput.Plain a
  · exact Or.inl (hdeeds (deeds_serverNext ha h))
  · cases a with
    | boss | monster | io => exact absurd trivial ha
    | thread a =>
      dsimp only [serverNext] at h
      cases a with
      | accept heap =>
        cases h
        exact Or.inr (opens_accept heap w)
      | disconnect uid => exact Or.inr (opens_disconnect (toOption_eq_some h))
      | packet uid buf now =>
        obtain ⟨v,hlogin,huid,rfl⟩ := login_packet (not_not.mp ha) (toOption_eq_some h)
        exact Or.inl ((pays_login hlogin).trans (hdeeds (deeds_enterGame huid)))
      | login uid name pass character => exact Or.inl (pays_login (toOption_eq_some h))
      | dbTake outcome heap => exact Or.inr (opens_dbTake (toOption_eq_some h))
      | dbFinish outcome heap now =>
        cases h
        exact Or.inr (opens_dbFinish outcome heap now w)
      | levelUp | timer => exact absurd trivial ha

/-- A spawned monster adds its worth. -/
theorem stock_spawnMonster [FloatArith F] (s : MonsterId × ℚ × ℚ × ℚ × ℤ) (w : World F)
    (hfree : w.monster s.1 = none) : (w.spawnMonster s).stock = w.stock + 10 := by
  obtain ⟨i,x,y,z,type⟩ := s
  refine sum_eq_add_of_eq (i := i) (fun k hk => ?_) ?_
  · have hother : (w.spawnMonster (i,x,y,z,type)).monster k = w.monster k :=
      Function.update_of_ne hk ..
    rw [hother]
  · have hself : (w.spawnMonster (i,x,y,z,type)).monster i =
        some (CMonster.initializeMonster (Position.lits x y z) type) := Function.update_self ..
    rw [hself, hfree]
    rfl

theorem stock_spawns [FloatArith F] (l : List (MonsterId × ℚ × ℚ × ℚ × ℤ)) (w : World F)
    (hnew : (l.map Prod.fst).Nodup) (hfree : ∀ s ∈ l, w.monster s.1 = none) :
    (l.foldl spawnMonster w).stock = w.stock + 10 * l.length := by
  induction l generalizing w with
  | nil => simp
  | cons s l ih =>
    rw [List.map_cons, List.nodup_cons] at hnew
    have hrest : ∀ t ∈ l, (w.spawnMonster s).monster t.1 = none := by
      intro t ht
      have hne : t.1 ≠ s.1 := fun he => hnew.1 (he ▸ List.mem_map_of_mem ht)
      exact (Function.update_of_ne hne ..).trans (hfree t (List.mem_cons_of_mem s ht))
    rw [List.foldl_cons, ih (w.spawnMonster s) hnew.2 hrest,
      stock_spawnMonster s w (hfree s (List.mem_cons_self ..)), List.length_cons]
    push_cast
    ring

/-- All monsters together are worth 180. -/
theorem stock_start [FloatArith F] : (start : World F).stock = 180 := by
  have hspawn := stock_spawns spawns (((empty : World F).setBoss Boss.initializeBoss).addTimer
    .evBoss 1000 0) (by decide) fun _ _ => rfl
  have hnone : (((empty : World F).setBoss Boss.initializeBoss).addTimer .evBoss 1000 0).stock =
      0 := Finset.sum_eq_zero fun _ _ => rfl
  rw [hnone] at hspawn
  exact hspawn

/-- No monster is dead. -/
theorem bounty_start [FloatArith F] : (start : World F).bounty = 0 := by
  refine Finset.sum_eq_zero fun j _ => if_neg ?_
  simp only [isDead]
  cases hm : (start : World F).monster j with
  | none => exact Bool.false_ne_true
  | some m =>
    obtain ⟨-,pos,type,rfl⟩ := Watched.start_monster hm
    have hhp : (CMonster.initializeMonster pos type).healthPoint =
        if type = CMonster.objGoblin then 50 else 30 := rfl
    rw [Option.any_some, hhp]
    split_ifs
    · decide
    · decide

theorem worthy_start [FloatArith F] : Worthy (start : World F) := by
  intro j m hm
  obtain ⟨-,pos,type,rfl⟩ := Watched.start_monster hm
  have hten : (CMonster.initializeMonster pos type).exp = 10 := rfl
  rw [hten]
  decide

end World

namespace Accounts
variable {s s' : Accounts F} {w' : World F}

/-- The books agree with the monsters. -/
structure InOrder (s : Accounts F) : Prop where
  worthy : s.world.Worthy
  stock : s.world.stock = 180
  earned : ∀ i, 0 ≤ s.earned i
  closed : 0 ≤ s.closed
  balance : s.closed + ∑ i, s.earned i = s.world.bounty

theorem sum_earned (s : Accounts F) :
    ∑ i, s.earned i = s.world.totalExp - ∑ i, s.opening i := Finset.sum_sub_distrib ..

theorem carry_same (he : w'.era = s.world.era) : s.carry w' = { s with world := w' } := by
  simp only [carry]
  rw [he]
  simp

theorem InOrder.pays (h : InOrder s) (hp : World.Pays s.world w') : InOrder (s.carry w') := by
  rw [carry_same hp.era]
  refine ⟨World.worthy_congr hp.exp h.worthy,(World.stock_congr hp.exp).trans h.stock,
    fun i => ?_,h.closed,?_⟩
  · exact (h.earned i).trans (sub_le_sub_right (hp.score h.worthy i) _)
  · have hbalance := h.balance
    have hledger := hp.ledger
    rw [sum_earned] at hbalance ⊢
    dsimp only
    omega

/-- What a player has earned is closed with its session, or carried on. -/
theorem carry_earned (ho : World.Opens s.world w') (i : Slot) :
    (if w'.era i = s.world.era i then 0 else s.earned i) + (s.carry w').earned i = s.earned i := by
  simp only [earned, carry]
  split_ifs with hi
  · rw [ho.score i hi, zero_add]
  · rw [sub_self, add_zero]

theorem InOrder.opens (h : InOrder s) (ho : World.Opens s.world w') : InOrder (s.carry w') := by
  have hexp : ∀ j, (w'.monster j).map CMonster.exp = (s.world.monster j).map CMonster.exp :=
    fun j => by rw [ho.monster]
  have hsum : ∑ i, (if w'.era i = s.world.era i then 0 else s.earned i) +
      ∑ i, (s.carry w').earned i = ∑ i, s.earned i := by
    rw [← Finset.sum_add_distrib]
    exact Finset.sum_congr rfl fun i _ => carry_earned ho i
  refine ⟨World.worthy_congr hexp h.worthy,(World.stock_congr hexp).trans h.stock,fun i => ?_,?_,?_⟩
  · have hcarry := carry_earned ho i
    have hold := h.earned i
    by_cases hi : w'.era i = s.world.era i
    · rw [if_pos hi, zero_add] at hcarry
      exact hcarry ▸ hold
    · rw [if_neg hi] at hcarry
      omega
  · refine add_nonneg h.closed (Finset.sum_nonneg fun i _ => ?_)
    split_ifs
    · exact le_rfl
    · exact h.earned i
  · have hclosed : (s.carry w').closed = s.closed +
        ∑ i, if w'.era i = s.world.era i then 0 else s.earned i := rfl
    have hbounty : (s.carry w').world.bounty = s.world.bounty := World.bounty_congr ho.monster
    have hbalance := h.balance
    rw [hclosed, hbounty]
    omega

theorem InOrder.next [FloatArith F] {getPath : ℤ × ℤ → ℤ × ℤ → List (ℤ × ℤ)} {a : ServerInput F}
    (h : InOrder s) (hstep : s.next getPath a = some s') : InOrder s' := by
  obtain ⟨w',hw,rfl⟩ := Option.map_eq_some_iff.mp hstep
  exact (World.pays_or_opens hw).elim h.pays h.opens

theorem earned_start [FloatArith F] (i : Slot) : (start : Accounts F).earned i = 0 := by
  have hplayer : (start : Accounts F).world.player i = none := World.start_player i
  simp only [earned, World.score]
  rw [hplayer]
  rfl

theorem inOrder_start [FloatArith F] : InOrder (start : Accounts F) where
  worthy := World.worthy_start
  stock := World.stock_start
  earned i := (earned_start i).ge
  closed := le_rfl
  balance := by
    have hnone : (start : Accounts F).world.bounty = 0 := World.bounty_start
    rw [hnone, Finset.sum_eq_zero fun i _ => earned_start i]
    rfl

/-- In every run of the server the players have earned, in the sessions that are over and in those
that go on, what the dead monsters are worth: no experience is lost or made up, no session loses
any, and all sessions together never earn more than 180. -/
theorem experience_conserved [FloatArith F] (getPath : ℤ × ℤ → ℤ × ℤ → List (ℤ × ℤ))
    (as : List (ServerInput F)) : Runs.Always (next getPath) (fun s =>
      s.closed + ∑ i, s.earned i = s.world.bounty ∧ s.world.bounty ≤ 180 ∧ 0 ≤ s.closed ∧
        ∀ i, 0 ≤ s.earned i) start as := by
  have hinOrder : Runs.Always (next getPath) InOrder (start : Accounts F) as :=
    Runs.always (fun _ _ _ h hstep => h.next hstep) inOrder_start
  exact hinOrder.imp fun s h =>
    ⟨h.balance,(World.bounty_le_stock h.worthy).trans_eq h.stock,h.closed,h.earned⟩

end Accounts

end LastHero
