import LastHero.Combat.Vitality
import LastHero.Monster.Swing
import LastHero.Threads.Cooldowns

/-! How often a player dies. A monster looks whether its target is alive before the pause of its
attack and not after it, so that all blows that are under way hit a dead player as well. -/
namespace LastHero
variable {F : Type}

/-- What happens while monsters attack. -/
inductive BattleInput (F : Type)
  | server (a : Input F)
  /-- moves, states and damage of the monsters -/
  | monsters (f : MonsterId → Option (CMonster F))
  | check (i : MonsterId) (now : ℕ)
  | swing (i : MonsterId) (draw : ℕ)
  | land (i : MonsterId)
  | finish (i : MonsterId) (now : ℕ)

namespace World
variable {w w' : World F} {id uid : Slot} {p q : CPlayer F} [FloatArith F]

/-- The end of a session brings another player or another era. -/
theorem era_of_ends {a : Input F} (hends : w.ends id a = true) (h : w.next a = some w')
    (hq : w'.player id = some q) : w.replaces a w' id = true ∨ w'.era id ≠ w.era id := by
  cases a with
  | accept heap =>
    refine Or.inl ?_
    simp only [replaces]
    rw [Bool.or_eq_true]
    exact Or.inr hends
  | disconnect uid =>
    obtain ⟨-,hplayer,-⟩ := disconnect_spec (toOption_eq_some h)
    obtain rfl : uid = id := of_decide_eq_true hends
    rw [hplayer, Function.update_self] at hq
    cases hq
  | dbFinish outcome heap now =>
    cases outcome with
    | row r =>
      cases h
      obtain ⟨ev,hev,huid⟩ := (Option.any_eq_true _ _).mp hends
      obtain rfl : ev.userId = id := of_decide_eq_true huid
      refine Or.inr ?_
      have hera : ((w.dbFinish (.row r) heap now).era ev.userId) =
          ((w.setHandling none).ensurePlayer ev.userId heap).era ev.userId+1 := by
        simp only [dbFinish]
        rw [hev]
        exact Function.update_self ..
      have hmono := era_le_ensurePlayer ev.userId heap (w.setHandling none) ev.userId
      change w.era ev.userId ≤ _ at hmono
      omega
    | fail | noRow => cases hends
  | packet | login | levelUp | dbTake | timer => cases hends

/-- Apart from logins only damage decides whether a player is alive. -/
theorem isAlive_next {a : Input F} (h : w.next a = some w') (hnew : w.replaces a w' id = false)
    (hera : w'.era id = w.era id) (hp : w.player id = some p) (hq : w'.player id = some q) :
    q.isAlive = p.isAlive := by
  have hends : w.ends id a = false := by
    rw [← Bool.not_eq_true]
    intro hends
    rcases era_of_ends hends h hq with hnew' | hera'
    · rw [hnew] at hnew'
      cases hnew'
    · exact hera' hera
  have hgrows : Grows w w' → q.isAlive = p.isAlive := by
    intro hg
    obtain ⟨q',hq',hgrown⟩ := hg id p hp
    cases hq.symm.trans hq'
    exact hgrown.isAlive
  have hwaits : Waits id w w' → q.isAlive = p.isAlive := by
    intro hw
    obtain ⟨q',hq',_,_,_,rfl⟩ := hw.player p hp
    cases hq.symm.trans hq'
    rfl
  cases a with
  | packet uid buf now =>
    obtain ⟨t,-,heffects⟩ := effects_processPacket (toOption_eq_some h)
    exact hgrows (grows_effects heffects)
  | levelUp uid =>
    dsimp only [next] at h
    split_ifs at h
    cases h
    exact hgrows (grows_effects (k := some .evBerserk) ((Effects.refl w).levelUp rfl))
  | timer k now =>
    have hvitals := timer_vitals id h
    rw [hp, hq, Option.map_some, Option.map_some, Option.some_inj] at hvitals
    exact congrArg (fun v => v.2.2.2) hvitals
  | accept | disconnect | login | dbTake | dbFinish =>
    exact hwaits (waits_next hp hends (by simp) (by simp) (by simp) h)

end World

namespace World

theorem broadcasts_trace (l : List (Packet F)) (w : World F) : (w.broadcasts l).trace =
    w.trace ++ l.flatMap fun p => w.connected.map fun j => .send j p := by
  induction l generalizing w with
  | nil => exact (List.append_nil _).symm
  | cons p l ih =>
    rw [List.flatMap_cons, ← List.append_assoc]
    exact ih (w.broadcast p)

end World

namespace Battle

/-- Who has died is dead, and the players of later sessions are not there yet. -/
structure Mortal (s : Battle F) : Prop where
  once : ∀ id n, s.deaths id n ≤ 1
  dead : ∀ id n p, s.deaths id n ≠ 0 → s.player id n = some p → p.isAlive = false
  later : ∀ id n, s.session id < n → s.player id n = none ∧ s.deaths id n = 0

variable {s t : Battle F} {i : MonsterId} {id c : Slot} {m : CMonster F} {p q : CPlayer F} {n k : ℕ}

/-- Steps that have nothing to do with players. -/
structure Aside (s t : Battle F) : Prop where
  player : t.world.player = s.world.player
  session : t.session = s.session
  gone : t.gone = s.gone
  deaths : t.deaths = s.deaths

theorem Aside.refl (s : Battle F) : Aside s s := ⟨rfl,rfl,rfl,rfl⟩

theorem Mortal.aside (h : Mortal s) (ha : Aside s t) : Mortal t := by
  have hplayer : t.player = s.player := by
    unfold player
    rw [ha.player, ha.session, ha.gone]
  exact ⟨by rw [ha.deaths]; exact h.once,by rw [ha.deaths, hplayer]; exact h.dead,
    by rw [ha.deaths, hplayer, ha.session]; exact h.later⟩

theorem player_setPlayer_of_ne (hne : (c,k) ≠ (id,n)) :
    (s.setPlayer id n q).player c k = s.player c k := by
  simp only [player, setPlayer]
  by_cases hc : c = id
  · subst hc
    have hk : k ≠ n := fun hk => hne (by rw [hk])
    split_ifs with h₁ h₂ h₃
    · exact absurd (h₂.symm.trans h₁) hk
    · rfl
    · rfl
    · simp [hk]
  · split_ifs
    · exact Function.update_of_ne hc ..
    · rfl
    · rfl
    · simp [hc]

/-- Who is in a slot of its session number. -/
theorem player_current (s : Battle F) (id : Slot) : s.player id (s.session id) = s.world.player id :=
  if_pos rfl

theorem player_gone (h : n ≠ s.session id) : s.player id n = s.gone id n := if_neg (Ne.symm h)

section Steps
variable [FloatArith F]

/-- Defence, or damage that nobody hears of, to a player that is dead already. -/
def Spent (w : World F) (m : CMonster F) (p : CPlayer F) : Prop :=
  (getDistance m.pos p.pos < guardRange ∧ ¬ p.isGuard ∧ p.isEvade) ∨
    (w.connected = [] ∧ (getDistance m.pos p.pos < guardRange ∧ p.isGuard ∨ p.healthPoint = 0))

/-- A blow finds its target alive, or is spent on it. -/
def Lands (s : Battle F) (a : BattleInput F) : Prop :=
  ∀ i m id n p, a = .land i → s.world.monster i = some m → s.phase i = .waiting id n →
    s.player id n = some p → p.isAlive ∨ Spent s.world m p

/-- The step of an input. A crash is the end of the run. -/
def next (s : Battle F) : BattleInput F → Option (Battle F)
  | .server a => s.server a
  | .monsters f => some { s with world := { s.world with monster := f } }
  | .check i now => (s.check i now).toOption
  | .swing i draw => (s.swing i draw).toOption
  | .land i => some (s.land i)
  | .finish i now => (s.finish i now).toOption

/-- The server starts, and no attack is under way. -/
def start : Battle F where
  world := World.start
  phase _ := .ready
  session _ := 0
  gone _ _ := none
  deaths _ _ := 0
  struck := []

theorem aside_check {now : ℕ} (h : s.check i now = .ok t) : Aside s t := by
  by_cases hcalled : ∃ m, s.phase i = .ready ∧ s.world.monster i = some m ∧ m.state = .attackState
  · obtain ⟨m,hready,hm,hs⟩ := hcalled
    by_cases hengaged : ∀ id p, ¬ Engages s.world m id p
    · obtain ⟨m',hok,-⟩ := check_idle 0 now hm hs hready hengaged
      cases hok.symm.trans h
      exact ⟨rfl,rfl,rfl,rfl⟩
    · push Not at hengaged
      obtain ⟨id,p,hengaged⟩ := hengaged
      cases (check_engaged now hm hs hready hengaged).symm.trans h
      exact ⟨rfl,rfl,rfl,rfl⟩
  · have hidle : s.check i now = .ok s := by
      simp only [check]
      split
      · rename_i m hready hm
        exact if_neg fun hs => hcalled ⟨m,hready,hm,hs⟩
      · rfl
    cases hidle.symm.trans h
    exact .refl s

theorem aside_swing {draw : ℕ} (h : s.swing i draw = .ok t) : Aside s t := by
  unfold swing at h
  split at h
  · unfold beginAttack at h
    split at h
    · cases h
    · split_ifs at h
      · cases h
        exact ⟨rfl,rfl,rfl,rfl⟩
      · cases h
        exact ⟨rfl,rfl,rfl,rfl⟩
      · cases h
        exact ⟨World.attackStart_player ..,rfl,rfl,rfl⟩
  · cases h
    exact .refl s

theorem aside_finish {now : ℕ} (h : s.finish i now = .ok t) : Aside s t := by
  unfold finish at h
  split at h
  · unfold checkRange at h
    split at h
    · cases h
    · split_ifs at h
      · obtain ⟨m',-,h⟩ := bind_eq_ok.mp h
        cases h
        exact ⟨rfl,rfl,rfl,rfl⟩
      · cases h
        exact ⟨rfl,rfl,rfl,rfl⟩
  · cases h
    exact .refl s

/-- A step of the other threads that puts somebody else into a slot. -/
theorem server_replaced {a : Input F} {w : World F} (hw : s.world.next a = some w)
    (h : s.server a = some t) (hnew : s.world.replaces a w id = true) :
    t.session id = s.session id+1 ∧ t.deaths id = s.deaths id ∧
      t.player id (s.session id) = s.world.replaced w id ∧
      ∀ n, n ≠ s.session id → n ≠ s.session id+1 → t.player id n = s.player id n := by
  rw [server, hw, Option.map_some, Option.some_inj] at h
  subst h
  refine ⟨if_pos hnew,if_pos (Or.inl hnew),?_,fun n hn hn' => ?_⟩
  · simp [player, hnew]
  · rw [player_gone hn]
    simp [player, hnew, hn, Ne.symm hn']

/-- Other steps leave the player there, unless it is initialised. -/
theorem server_kept {a : Input F} {w : World F} (hw : s.world.next a = some w)
    (h : s.server a = some t) (hnew : s.world.replaces a w id = false) :
    t.session id = s.session id ∧ t.world.player id = w.player id ∧
      (w.era id = s.world.era id → t.deaths id = s.deaths id) ∧
      (w.era id ≠ s.world.era id → t.deaths id (s.session id) = 0) ∧
      ∀ n, n ≠ s.session id → t.player id n = s.player id n ∧ t.deaths id n = s.deaths id n := by
  rw [server, hw, Option.map_some, Option.some_inj] at h
  subst h
  refine ⟨by simp [hnew],rfl,fun hera => if_pos (Or.inr hera),fun hera => ?_,fun n hn => ?_⟩
  · simp [hnew, hera]
  · rw [player_gone hn]
    refine ⟨by simp [player, hnew, Ne.symm hn],?_⟩
    dsimp only
    split_ifs
    · rfl
    · exact Function.update_of_ne hn ..

/-- What a step of the other threads does to the players. -/
theorem Mortal.server {a : Input F} (h : Mortal s) (hstep : s.server a = some t) : Mortal t := by
  obtain ⟨w,hw,-⟩ := Option.map_eq_some_iff.mp hstep
  constructor
  · intro id n
    cases hnew : s.world.replaces a w id with
    | true =>
      rw [(server_replaced hw hstep hnew).2.1]
      exact h.once id n
    | false =>
      obtain ⟨-,-,hsame,hreset,hold⟩ := server_kept hw hstep hnew
      by_cases hn : n = s.session id
      · subst hn
        by_cases hera : w.era id = s.world.era id
        · rw [hsame hera]
          exact h.once id _
        · rw [hreset hera]
          exact Nat.zero_le 1
      · rw [(hold n hn).2]
        exact h.once id n
  · intro id n p hd hp
    cases hnew : s.world.replaces a w id with
    | true =>
      obtain ⟨-,hdeaths,hleft,hold⟩ := server_replaced hw hstep hnew
      rw [hdeaths] at hd
      by_cases hn : n = s.session id
      · subst hn
        rw [hleft] at hp
        obtain ⟨p₀,hp₀,rfl⟩ := Option.map_eq_some_iff.mp hp
        have hdead := h.dead id _ p₀ hd ((player_current s id).trans hp₀)
        split_ifs
        · exact hdead
        · rfl
      · have hn' : n ≠ s.session id+1 := by
          rintro rfl
          exact hd (h.later id _ (Nat.lt_succ_self _)).2
        exact h.dead id n p hd ((hold n hn hn').symm.trans hp)
    | false =>
      obtain ⟨hsession,hplayer,hsame,hreset,hold⟩ := server_kept hw hstep hnew
      by_cases hn : n = s.session id
      · subst hn
        have hera : w.era id = s.world.era id := by
          by_contra hera
          exact hd (hreset hera)
        rw [hsame hera] at hd
        rw [← hsession, player_current, hplayer] at hp
        have hsome : (s.world.player id).isSome := by
          unfold World.replaces at hnew
          rw [Bool.or_eq_false_iff, bne_eq_false_iff_eq] at hnew
          rw [hnew.1, hp, Option.isSome_some]
        obtain ⟨p₀,hp₀⟩ := Option.isSome_iff_exists.mp hsome
        rw [World.isAlive_next hw hnew hera hp₀ hp]
        exact h.dead id _ p₀ hd ((player_current s id).trans hp₀)
      · rw [(hold n hn).2] at hd
        exact h.dead id n p hd ((hold n hn).1.symm.trans hp)
  · intro id n hn
    cases hnew : s.world.replaces a w id with
    | true =>
      obtain ⟨hsession,hdeaths,-,hold⟩ := server_replaced hw hstep hnew
      rw [hsession] at hn
      obtain ⟨hnone,hzero⟩ := h.later id n (by omega)
      exact ⟨(hold n (by omega) (by omega)).trans hnone,by rw [hdeaths, hzero]⟩
    | false =>
      obtain ⟨hsession,-,-,-,hold⟩ := server_kept hw hstep hnew
      rw [hsession] at hn
      obtain ⟨hplayer,hdeaths⟩ := hold n hn.ne'
      rw [hplayer, hdeaths]
      exact h.later id n hn

/-- What a blow leaves as it was. -/
theorem endAttack_frame_other (i : MonsterId) (m : CMonster F) (id : Slot) (n : ℕ) (p : CPlayer F)
    (s : Battle F) (hne : (c,k) ≠ (id,n)) :
    (s.endAttack i m id n p).player c k = s.player c k ∧
      (s.endAttack i m id n p).deaths c k = s.deaths c k := by
  constructor
  · have hplayer := player_setPlayer_of_ne (q := (m.blow p).victim p) (s := s) hne
    simp only [player] at hplayer ⊢
    rw [← hplayer]
    change (if _ = k then (World.broadcasts _ _).player c else _) = _
    rw [World.broadcasts_player]
    rfl
  · dsimp only [endAttack]
    split_ifs
    · by_cases hc : c = id
      · subst hc
        rw [Function.update_self]
        exact Function.update_of_ne (fun hk => hne (by rw [hk])) ..
      · rw [Function.update_of_ne hc]
    · rfl

theorem endAttack_deaths (i : MonsterId) (m : CMonster F) (id : Slot) (n : ℕ) (p : CPlayer F)
    (s : Battle F) : (s.endAttack i m id n p).deaths id n =
      if m.blow p = .fatal ∧ s.world.connected ≠ [] then s.deaths id n+1 else s.deaths id n := by
  dsimp only [endAttack]
  split_ifs
  · rw [Function.update_self, Function.update_self]
  · rfl

theorem endAttack_trace (hp : s.player id n = some p) : (s.endAttack i m id n p).world.trace =
    s.world.trace ++
      ((m.blow p).packets i id p).flatMap fun a => s.world.connected.map fun j => .send j a := by
  have hconnected : (s.setPlayer id n ((m.blow p).victim p)).world.connected = s.world.connected :=
    World.connected_congr (setPlayer_isSome (Option.isSome_of_mem hp))
  have htrace : (s.setPlayer id n ((m.blow p).victim p)).world.trace = s.world.trace := by
    simp only [setPlayer]
    split_ifs
    · rfl
    · rfl
  have hsent := World.broadcasts_trace ((m.blow p).packets i id p)
    (s.setPlayer id n ((m.blow p).victim p)).world
  rw [hconnected, htrace] at hsent
  exact hsent

/-- The history counts the blows that send SC_DEAD for their target to somebody. -/
theorem endAttack_deaths_ne_iff (hp : s.player id n = some p) :
    (s.endAttack i m id n p).deaths id n ≠ s.deaths id n ↔
      ∃ sent j, (s.endAttack i m id n p).world.trace = s.world.trace ++ sent ∧
        .send j (.scDead id.oid) ∈ sent := by
  have hdead : .scDead id.oid ∈ (m.blow p).packets i id p ↔ m.blow p = .fatal := by
    cases m.blow p <;> simp [Blow.packets]
  have hcounted : (s.endAttack i m id n p).deaths id n ≠ s.deaths id n ↔
      m.blow p = .fatal ∧ s.world.connected ≠ [] := by
    rw [endAttack_deaths]
    split_ifs with hfatal
    · simp [hfatal]
    · simp [hfatal]
  rw [hcounted, endAttack_trace hp, ← hdead]
  constructor
  · rintro ⟨hmem,hconnected⟩
    obtain ⟨j,hj⟩ := List.exists_mem_of_ne_nil _ hconnected
    exact ⟨_,j,rfl,List.mem_flatMap.mpr ⟨_,hmem,List.mem_map_of_mem hj⟩⟩
  · rintro ⟨sent,j,hsent,hmem⟩
    rw [← List.append_cancel_left hsent, List.mem_flatMap] at hmem
    obtain ⟨a,ha,hmem⟩ := hmem
    obtain ⟨k,hk,hka⟩ := List.mem_map.mp hmem
    cases hka
    exact ⟨ha,List.ne_nil_of_mem hk⟩

/-- The blows that a dead player does not feel. -/
theorem spent_iff (i : MonsterId) (id : Slot) (w : World F) (m : CMonster F)
    (hdead : p.isAlive = false) : (m.blow p).victim p = p ∧
      ((m.blow p).packets i id p = [] ∨ w.connected = []) ↔ Spent w m p := by
  simp only [CMonster.blow, Spent]
  split_ifs with hguard hevade hfatal
  · simp [Blow.victim, Blow.packets, hguard]
  · exact iff_of_true ⟨rfl,Or.inl rfl⟩ (Or.inl ⟨hevade.1,fun hg => hguard ⟨hevade.1,hg⟩,hevade.2⟩)
  · have hvictim : (p.hurt monsterAtkPoint).fall = p ↔ p.healthPoint = 0 := by
      constructor
      · exact fun h => (congrArg CPlayer.healthPoint h).symm
      · intro h
        cases p
        simp only at h hdead
        simp [CPlayer.hurt, CPlayer.fall, h, hdead]
    have hdefence : ¬ (getDistance m.pos p.pos < guardRange ∧ ¬ p.isGuard ∧ p.isEvade) :=
      fun h => hevade ⟨h.1,h.2.2⟩
    simp only [Blow.victim, Blow.packets, hvictim, hguard, hdefence, false_or, reduceCtorEq]
    exact and_comm
  · have hvictim : p.hurt monsterAtkPoint ≠ p := by
      intro h
      have hhp := congrArg CPlayer.healthPoint h
      simp [CPlayer.hurt, monsterAtkPoint] at hhp
    refine iff_of_false (fun h => hvictim h.1) ?_
    rintro (h | ⟨-,h | h⟩)
    · exact hevade ⟨h.1,h.2.2⟩
    · exact hguard h
    · rw [h] at hfatal
      exact hfatal (by decide)

/-- A blow, or nothing that players notice. -/
theorem land_cases (s : Battle F) (i : MonsterId) :
    (∃ m id n p, s.world.monster i = some m ∧ s.phase i = .waiting id n ∧
      s.player id n = some p ∧ s.land i = s.endAttack i m id n p) ∨
    ((∀ m id n p, s.world.monster i = some m → s.phase i = .waiting id n → s.player id n ≠ some p) ∧
      Aside s (s.land i)) := by
  simp only [land]
  split
  · rename_i id n m hphase hm
    cases hp : s.player id n with
    | some p => exact Or.inl ⟨m,id,n,p,hm,hphase,hp,rfl⟩
    | none =>
      refine Or.inr ⟨?_,⟨rfl,rfl,rfl,rfl⟩⟩
      rintro m' id' n' p - hphase' hp'
      cases hphase.symm.trans hphase'
      cases hp.symm.trans hp'
  · rename_i hother
    exact Or.inr ⟨fun m id n p hm hphase _ => hother id n m hphase hm,.refl s⟩

/-- A blow leaves a living target once dead at most, -/
theorem Mortal.endAttack_alive (h : Mortal s) (hp : s.player id n = some p) (halive : p.isAlive) :
    Mortal (s.endAttack i m id n p) := by
  have hzero : s.deaths id n = 0 := by
    by_contra hd
    rw [h.dead id n p hd hp] at halive
    cases halive
  have hnow : n ≤ s.session id := by
    by_contra hn
    rw [(h.later id n (not_le.mp hn)).1] at hp
    cases hp
  constructor
  · intro c k
    by_cases hck : (c,k) = (id,n)
    · cases hck
      rw [endAttack_deaths, hzero]
      split_ifs
      · exact le_rfl
      · exact Nat.zero_le 1
    · rw [(endAttack_frame_other i m id n p s hck).2]
      exact h.once c k
  · intro c k q hd hq
    by_cases hck : (c,k) = (id,n)
    · cases hck
      rw [endAttack_deaths, hzero] at hd
      rw [endAttack_player] at hq
      cases hq
      split_ifs at hd with hfatal
      · rw [hfatal.1]
        rfl
      · exact absurd rfl hd
    · obtain ⟨hplayer,hdeaths⟩ := endAttack_frame_other i m id n p s hck
      rw [hdeaths] at hd
      exact h.dead c k q hd (hplayer.symm.trans hq)
  · intro c k hk
    rw [(endAttack_frame i m id n p s).2.1] at hk
    have hck : (c,k) ≠ (id,n) := by
      intro hck
      cases hck
      exact absurd hnow (not_le.mpr hk)
    obtain ⟨hplayer,hdeaths⟩ := endAttack_frame_other i m id n p s hck
    rw [hplayer, hdeaths]
    exact h.later c k hk

/-- and one that is spent on a dead target changes nothing. -/
theorem Mortal.endAttack_spent (h : Mortal s) (hp : s.player id n = some p)
    (hdead : p.isAlive = false) (hspent : Spent s.world m p) : Mortal (s.endAttack i m id n p) := by
  obtain ⟨hvictim,hsent⟩ := (spent_iff i id s.world m hdead).mpr hspent
  have hplayer : (s.endAttack i m id n p).player = s.player := by
    funext c k
    by_cases hck : (c,k) = (id,n)
    · cases hck
      rw [endAttack_player, hvictim, hp]
    · exact (endAttack_frame_other i m id n p s hck).1
  have hdeaths : (s.endAttack i m id n p).deaths = s.deaths := by
    funext c k
    by_cases hck : (c,k) = (id,n)
    · cases hck
      rw [endAttack_deaths]
      refine if_neg fun ⟨hfatal,hconnected⟩ => ?_
      rw [hfatal] at hsent
      simp [Blow.packets, hconnected] at hsent
    · exact (endAttack_frame_other i m id n p s hck).2
  have hsession := (endAttack_frame i m id n p s).2.1
  exact ⟨by rw [hdeaths]; exact h.once,by rw [hdeaths, hplayer]; exact h.dead,
    by rw [hdeaths, hplayer, hsession]; exact h.later⟩

/-- The invariant of the runs in which every blow lands. -/
theorem Mortal.next {a : BattleInput F} (h : Mortal s) (hlands : Lands s a)
    (hstep : s.next a = some t) : Mortal t := by
  cases a with
  | server a => exact h.server hstep
  | monsters f =>
    cases hstep
    exact h.aside ⟨rfl,rfl,rfl,rfl⟩
  | check i now => exact h.aside (aside_check (toOption_eq_some hstep))
  | swing i draw => exact h.aside (aside_swing (toOption_eq_some hstep))
  | land i =>
    cases hstep
    rcases land_cases s i with ⟨m,id,n,p,hm,hphase,hp,hland⟩ | ⟨-,haside⟩
    · rw [hland]
      cases halive : p.isAlive with
      | true => exact h.endAttack_alive hp halive
      | false =>
        have hspent := (hlands i m id n p rfl hm hphase hp).resolve_left (by simp [halive])
        exact h.endAttack_spent hp halive hspent
    · exact h.aside haside
  | finish i now => exact h.aside (aside_finish (toOption_eq_some hstep))

end Steps

/-- A goblin 100 away from where players log in, with its blade raised at slot 0. -/
def raider : CMonster ℚ := { hunter with pos := ⟨10327.3125,76509.90625,0⟩ }

/-- A player with 10 hit points logs in, and two goblins begin to attack it. -/
def ambush : List (BattleInput ℚ) := [.server (.accept zeroPlayer),.server (.login 0 [97] [98] 0),
  .server (.dbTake .noRow zeroPlayer),.server (.dbFinish (.row ⟨10,0,0,1,100⟩) zeroPlayer 0),
  .monsters fun i => if i.val ≤ 1 then some raider else none,
  .check 0 0,.check 1 0,.swing 0 0,.swing 1 0]

end Battle

end LastHero
