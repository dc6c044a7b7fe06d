import LastHero.Game.Fields
import LastHero.Boss.Bones
import LastHero.Threads.Announce

/-! What a packet does and the bytes that decide it. No handler compares the declared size with the
size of its struct, so that a short packet is completed by what earlier packets left in
packet_buf. -/
namespace LastHero
open Known

namespace Buffer
variable {n : ℕ} {b b' : Buffer}

/-- The bytes of the packet already differ from BOSS_IDX. -/
def NotBoss (b : Buffer) (n : ℕ) : Prop :=
  (3 ≤ n ∧ b.byteAt 2 ≠ 32) ∨ (4 ≤ n ∧ b.byteAt 3 ≠ 78)

/-- What a handler reads after it has found BOSS_IDX. -/
def ifBoss {α : Type} (g : Buffer → α) (b : Buffer) : Option α :=
  if b.short 2 = bossIdx then some (g b) else none

theorem short_eq_bossIdx : b.short 2 = bossIdx ↔ b.byteAt 2 = 32 ∧ b.byteAt 3 = 78 := by
  have hbytes : ∀ x y : Byte, x.toInt % 256 + 256*y.toInt = bossIdx ↔ x = 32 ∧ y = 78 := by
    intro x y
    rw [← Int8.toInt_inj (x := x), ← Int8.toInt_inj (x := y)]
    have hx := x.le_toInt
    have hx' := x.toInt_lt
    have h32 : (32 : Byte).toInt = 32 := by decide
    have h78 : (78 : Byte).toInt = 78 := by decide
    rw [h32, h78]
    simp only [bossIdx]
    omega
  exact hbytes _ _

theorem NotBoss.short_ne (h : b.NotBoss n) : b.short 2 ≠ bossIdx := by
  rw [Ne, short_eq_bossIdx]
  obtain ⟨-,hne⟩ | ⟨-,hne⟩ := h
  · exact fun hsame => hne hsame.1
  · exact fun hsame => hne hsame.2

theorem notBoss_of_short_ne (hn : 4 ≤ n) (h : b.short 2 ≠ bossIdx) : b.NotBoss n := by
  rw [Ne, short_eq_bossIdx, not_and_or] at h
  exact h.imp (fun hne => ⟨by omega,hne⟩) fun hne => ⟨hn,hne⟩

theorem NotBoss.agree (h : b.NotBoss n) (hb' : Agree n b b') : b'.NotBoss n := by
  obtain ⟨hn,hne⟩ | ⟨hn,hne⟩ := h
  · exact Or.inl ⟨hn,hb' 2 (by omega) ▸ hne⟩
  · exact Or.inr ⟨hn,hb' 3 (by omega) ▸ hne⟩

/-- Without a byte that differs, the missing ones can make it BOSS_IDX. -/
theorem exists_boss (hn : n < 4) (h : ¬ b.NotBoss n) :
    ∃ b', Agree n b b' ∧ b'.short 2 = bossIdx := by
  by_cases hshort : n ≤ 2
  · refine ⟨(b.poke 2 32).poke 3 78,(agree_poke hshort (by decide)).trans
      (agree_poke (by omega) (by decide)),?_⟩
    rw [short_eq_bossIdx, byteAt_poke (by decide), byteAt_poke (by decide),
      byteAt_poke (by decide)]
    exact ⟨rfl,rfl⟩
  · have hlow : b.byteAt 2 = 32 := by
      by_contra hne
      exact h (Or.inl ⟨by omega,hne⟩)
    refine ⟨b.poke 3 78,agree_poke (by omega) (by decide),?_⟩
    rw [short_eq_bossIdx, byteAt_poke (by decide), byteAt_poke (by decide)]
    exact ⟨hlow,rfl⟩

theorem own_isBoss : Own n b (fun b => if b.short 2 = bossIdx then some () else none) ↔
    4 ≤ n ∨ b.NotBoss n := by
  constructor
  · intro h
    by_contra hnot
    rw [not_or, not_le] at hnot
    -- the boss, and another object
    obtain ⟨b',hb',hboss⟩ := exists_boss hnot.1 hnot.2
    have hother : (b.poke 3 0).short 2 ≠ bossIdx := by
      rw [Ne, short_eq_bossIdx, byteAt_poke (by decide), byteAt_poke (by decide), if_pos rfl]
      exact fun hsame => absurd hsame.2 (by decide)
    have hsame := (h b' hb').symm.trans (h (b.poke 3 0) (agree_poke (by omega) (by decide)))
    dsimp only at hsame
    rw [if_pos hboss, if_neg hother] at hsame
    cases hsame
  · rintro (h | h)
    · exact ((own_short (i := 2) (by decide)).mpr h).comp fun oid =>
        if oid = bossIdx then some () else none
    · exact determined_of_forall (if_neg h.short_ne) fun b' hb' => if_neg (h.agree hb').short_ne

theorem own_ifBoss {α : Type} {g : Buffer → α} {m : ℕ} (hm : 4 ≤ m) (hg : Own n b g ↔ m ≤ n) :
    Own n b (ifBoss g) ↔ m ≤ n ∨ b.NotBoss n := by
  have hmap : ifBoss g = fun b => (if b.short 2 = bossIdx then some () else none).map fun _ =>
      g b := by
    funext c
    simp only [ifBoss]
    split_ifs
    · rfl
    · rfl
  rw [hmap, Own, determined_map (k := fun _ a => a) fun _ _ _ _ h => ⟨rfl,h⟩]
  refine (and_congr own_isBoss (imp_congr_right fun _ => hg)).trans ?_
  constructor
  · rintro ⟨hkey,hfield⟩
    by_cases hboss : b.short 2 = bossIdx
    · exact Or.inl (hfield (by rw [if_pos hboss]; rfl))
    · exact Or.inr (hkey.elim (fun hn => notBoss_of_short_ne hn hboss) id)
  · rintro (h | h)
    · exact ⟨Or.inl (hm.trans h),fun _ => h⟩
    · refine ⟨Or.inr h,fun hsome => ?_⟩
      rw [if_neg h.short_ne] at hsome
      cases hsome

theorem own_clip {i : ℕ} (hi : i < bufSize) :
    Own n b (fun b => max (b.byteAt i).toInt 0) ↔ i < n := by
  constructor
  · intro h
    by_contra hn
    have hsame : ∀ x : Byte, max x.toInt 0 = max (b.byteAt i).toInt 0 := by
      intro x
      have hpoke := h (b.poke i x) (agree_poke (not_lt.mp hn) hi)
      dsimp only at hpoke
      rw [byteAt_poke hi, if_pos rfl] at hpoke
      exact hpoke.symm
    have hdiffer : max (0 : Byte).toInt 0 = max (127 : Byte).toInt 0 :=
      (hsame 0).trans (hsame 127).symm
    exact absurd hdiffer (by decide)
  · intro h
    exact ((own_byteAt hi).mpr h).comp fun x => max x.toInt 0

/-- The new BoneMap. A negative count hits like none. -/
def bones (b : Buffer) (i : Fin 12) : ℤ := max (b.byteAt (4+i)).toInt 0

theorem own_bones : Own n b bones ↔ 16 ≤ n := by
  unfold bones
  rw [Own, determined_pi]
  constructor
  · intro h
    exact (own_clip (i := 15) (by decide)).mp (h 11)
  · intro h i
    have hi := i.isLt
    exact (own_clip (show 4+(i : ℕ) < 512 by omega)).mpr (by omega)

/-- The monster that a client moves, and where. -/
def npcMove {F : Type} [FloatArith F] (b : Buffer) : Option (MonsterId × Position F) :=
  (MonsterId.ofOid (b.short 2)).map fun i => (i,.ofBuffer b 4)

theorem own_ofOid : Own n b (fun b => MonsterId.ofOid (b.short 2)) ↔ 4 ≤ n := by
  constructor
  · intro h
    by_contra hn
    have hpoke : ∀ x, (b.poke 3 x).short 2 = (b.byteAt 2).toInt % 256 + 256*x.toInt := by
      intro x
      simp only [short]
      rw [byteAt_poke (by decide), byteAt_poke (by decide), if_neg (by decide), if_pos rfl]
    have hsame : ∀ x, MonsterId.ofOid (b.short 2) = MonsterId.ofOid ((b.poke 3 x).short 2) :=
      fun x => h _ (agree_poke (by omega) (by decide))
    -- a monster, and another object
    have hsome : (MonsterId.ofOid ((b.poke 3 40).short 2)).isSome := by
      rw [hpoke, MonsterId.ofOid, dif_pos]
      · rfl
      · have h40 : (40 : Byte).toInt = 40 := by decide
        rw [h40]
        simp only [npcIdStart, maxMonster]
        omega
    have hnone : MonsterId.ofOid ((b.poke 3 0).short 2) = none := by
      rw [hpoke, MonsterId.ofOid, dif_neg]
      have h0 : (0 : Byte).toInt = 0 := by decide
      rw [h0]
      simp only [npcIdStart]
      omega
    rw [← hsame 40, hsame 0, hnone] at hsome
    cases hsome
  · intro h
    exact ((own_short (i := 2) (by decide)).mpr h).comp MonsterId.ofOid

theorem own_npcMove {F : Type} [FloatArith F] [ExactBytes F] : Own n b (npcMove (F := F)) ↔
    16 ≤ n ∨ (4 ≤ n ∧ MonsterId.ofOid (b.short 2) = none) := by
  have hmap : Own n b (npcMove (F := F)) ↔ Own n b (fun b => MonsterId.ofOid (b.short 2)) ∧
      ((MonsterId.ofOid (b.short 2)).isSome →
        Own n b fun b => (Position.ofBuffer b 4 : Position F)) :=
    determined_map (k := Prod.mk) fun _ _ _ _ h => Prod.mk.inj h
  rw [hmap, own_ofOid, own_ofBuffer (by decide)]
  cases MonsterId.ofOid (b.short 2) with
  | none => simp; omega
  | some i => simp; omega

end Buffer

namespace World
variable {F : Type} {w : World F} {uid : Slot} {p : CPlayer F} {n : ℕ} {b b' : Buffer}

/-- The same player in every slot. -/
def crowd (p : CPlayer F) : World F := { empty with player := fun _ => some p }

/-- A player at the origin with a velocity. -/
def mover [FloatArith F] (velocity : Position F) : CPlayer F :=
  { zeroPlayer with pos := .lits 0 0 0, rotation := .lits 0 0 0, velocity := velocity }

/-- The position that a packet for another client shows. -/
def Act.rotation : Act F → Option (Position F)
  | .send _ (.scUpdateObj _ _ rotation _) => some rotation
  | _ => none

/-- Login and EnterGame with the fields of the packet. -/
def loginEnter (uid : Slot) (w : World F) (l : Credential × Credential × ℤ) :
    Except Fault (World F) := do
  let w ← (w.addQuary uid .evLogin l.1 l.2.1).onPlayer uid fun _ w =>
    w.modifyPlayer uid (CPlayer.setObjType l.2.2)
  w.onPlayer uid fun _ w => w.enterGame uid

/-- The event and the type of the player show what the packet said. -/
theorem loginEnter_spec (hp : w.player uid = some p) (hq : w.quaryQueue = [])
    (l : Credential × Credential × ℤ) : ∃ w', w.loginEnter uid l = .ok w' ∧
      w'.quaryQueue.head?.map (fun ev => (ev.name,ev.pass)) = some (l.1,l.2.1) ∧
      (w'.player uid).map CPlayer.objType = some l.2.2 := by
  have hset := modifyPlayer_self (w := w.addQuary uid .evLogin l.1 l.2.1)
    (CPlayer.setObjType l.2.2) hp
  have hok : w.loginEnter uid l = .ok (((w.addQuary uid .evLogin l.1 l.2.1).modifyPlayer uid
      (CPlayer.setObjType l.2.2)).enterGame uid) := by
    simp only [loginEnter]
    rw [onPlayer_some (w := w.addQuary uid .evLogin l.1 l.2.1) hp]
    exact onPlayer_some hset
  refine ⟨_,hok,?_,?_⟩
  · have hkeeps := keeps_enterGame uid ((w.addQuary uid .evLogin l.1 l.2.1).modifyPlayer uid
      (CPlayer.setObjType l.2.2))
    obtain ⟨new,hnew,-⟩ := hkeeps.quary
    rw [hnew]
    change ((w.quaryQueue ++ [_]) ++ new).head?.map _ = _
    rw [hq]
    rfl
  · rw [map_enterGame (fun _ _ => rfl), hset]
    rfl

/-- What a client is told about its new account. -/
def Act.signedUp : Act F → Option Bool
  | .send _ .scSignupOk => some true
  | .send _ .scSignupFail => some false
  | _ => none

theorem onSignup_injective : Function.Injective fun (statement : List Byte)
    (answer : List Byte → Bool) uid (_ : ℕ) (w : World F) =>
      (.ok (w.signUp uid (answer statement)) : Except Fault (World F)) := by
  intro l l' h
  have hanswer : ∀ ok, (empty.signUp 0 ok : World F).trace.head?.bind Act.signedUp = some ok := by
    intro ok
    cases ok <;> rfl
  have hsame : some (decide (l = l)) = some (decide (l' = l)) := by
    have hworld := Except.ok.inj (congrFun (congrFun (congrFun (congrFun h fun x => decide (x = l))
      0) 0) empty)
    rw [← hanswer (decide (l = l)), ← hanswer (decide (l' = l)), hworld]
  simpa [eq_comm] using hsame

/-- A handler that returns and does not look at the database or the clock. -/
theorem own_ok {f : Buffer → Slot → World F → World F} :
    Buffer.Own n b (fun b (_ : List Byte → Bool) uid (_ : ℕ) w =>
      (.ok (f b uid w) : Except Fault (World F))) ↔ Buffer.Own n b f := by
  refine determined_injective (k := fun (g : Slot → World F → World F) (_ : List Byte → Bool) uid
    (_ : ℕ) w => (.ok (g uid w) : Except Fault (World F))) fun g g' h => ?_
  funext uid w
  exact Except.ok.inj (congrFun (congrFun (congrFun (congrFun h fun _ => true) uid) 0) w)

/-- One that does not look at the client either. -/
theorem own_ok_const {f : Buffer → World F → World F} :
    Buffer.Own n b (fun b (_ : List Byte → Bool) (_ : Slot) (_ : ℕ) w =>
      (.ok (f b w) : Except Fault (World F))) ↔ Buffer.Own n b f :=
  (own_ok (f := fun b _ => f b)).trans
    (determined_injective (k := fun (g : World F → World F) (_ : Slot) => g) fun _ _ h =>
      congrFun h 0)

theorem bones_range (b : Buffer) (i : Fin 12) : 0 ≤ b.bones i ∧ b.bones i < 128 := by
  have hlt := (b.byteAt (4+i)).toInt_lt
  simp only [Buffer.bones]
  omega

/-- The counts as the handler uses them. -/
theorem onBossBone_eq (b : Buffer) (w : World F) : w.onBossBone b =
    match b.ifBoss Buffer.bones with
    | none => w
    | some m => w.boneMapUpdate fun i => if h : i < 12 then m ⟨i,h⟩ else 0 := by
  simp only [onBossBone, Buffer.ifBoss]
  by_cases hboss : b.short 2 = bossIdx
  · rw [if_pos hboss, if_pos hboss]
    refine boneMapUpdate_congr (fun i hi => ?_) w
    rw [dif_pos hi]
    simp [Buffer.bones]
  · rw [if_neg hboss, if_neg hboss]

section Handlers
variable [FloatArith F]

theorem setVelocity_ofBuffer (p : CPlayer F) (b : Buffer) (i : ℕ) :
    p.setVelocity (.ofBuffer b i) = { p with velocity := (b.velocity i).getD p.velocity } := by
  simp only [CPlayer.setVelocity, Buffer.velocity]
  split_ifs
  · rfl
  · rfl

theorem onMove_congr (hdest : (Position.ofBuffer b 2 : Position F) = .ofBuffer b' 2)
    (hrot : (Position.ofBuffer b 14 : Position F) = .ofBuffer b' 14)
    (hvel : (b.velocity 26 : Option (Position F)) = b'.velocity 26) :
    w.onMove uid b = w.onMove uid b' := by
  simp only [onMove]
  simp only [setVelocity_ofBuffer]
  rw [hdest, hrot, hvel]

/-- A client that moves gets its velocity from the packet. -/
theorem onMove_velocity (hp : w.player uid = some p) (b : Buffer) :
    ((w.onMove uid b).player uid).map CPlayer.velocity =
      some ((b.velocity 26).getD p.velocity) := by
  have hturn := modifyPlayer_self
    (fun p => { p.setVelocity (.ofBuffer b 26) with rotation := .ofBuffer b 14 }) hp
  have hmove := modifyPlayer_self (fun p => p.setPosition (.ofBuffer b 2)) hturn
  have hkept : ∀ (q : CPlayer F) pos, (q.setPosition pos).velocity = q.velocity := by
    intro q pos
    simp only [CPlayer.setPosition]
    split_ifs
    · rfl
    · rfl
  simp only [onMove, ifPlayer]
  rw [hp]
  dsimp only
  simp only [moveTo]
  rw [hmove]
  refine (congrArg (Option.map _) hmove).trans ?_
  rw [Option.map_some, hkept, setVelocity_ofBuffer]

/-- A value and a default tell whether there is a value. -/
theorem getD_injective {α : Type} [Nontrivial α] :
    Function.Injective fun (o : Option α) (a : α) => o.getD a := by
  intro o o' h
  have hall : ∀ a, o.getD a = o'.getD a := congrFun h
  cases o with
  | none =>
    cases o' with
    | none => rfl
    | some a =>
      obtain ⟨a',ha'⟩ := exists_ne a
      exact absurd (hall a') ha'
  | some a =>
    cases o' with
    | none =>
      obtain ⟨a',ha'⟩ := exists_ne a
      exact absurd (hall a').symm ha'
    | some a' => exact congrArg some (hall a)

theorem own_onMove [ExactBytes F] :
    Buffer.Own n b (fun b uid (w : World F) => w.onMove uid b) ↔
      38 ≤ n ∨ (34 ≤ n ∧ (Position.ofBuffer b 26 : Position F).isZero) := by
  constructor
  · intro h
    have : Nontrivial (Position F) := Buffer.nontrivial_position
    have hvelocity : Buffer.Own n b (Buffer.velocity (F := F) 26) := by
      refine (determined_injective getD_injective).mp (determined_pi.mpr fun velocity => ?_)
      exact h.observe (k := fun f : Slot → World F → World F =>
        ((f 0 (crowd (mover velocity))).player 0).map CPlayer.velocity) (Option.some_injective _)
          fun b => onMove_velocity (p := mover velocity) rfl b
    exact (Buffer.own_velocity (by decide)).mp hvelocity
  · intro h b' hb'
    have hle : 34 ≤ n := by omega
    funext uid w
    exact onMove_congr
      (Buffer.own_ofBuffer_of_le (show 2+12 ≤ n by omega) (by decide) b' hb')
      (Buffer.own_ofBuffer_of_le (show 14+12 ≤ n by omega) (by decide) b' hb')
      (Buffer.own_velocity_of_le h (by decide) b' hb')

/-- The handlers that read a state of the player from the packet. -/
theorem own_moveState :
    Buffer.Own n b (fun b uid (w : World F) => w.ifPlayer uid fun p w =>
      w.setMoveState uid p (b.short 2)) ↔ 4 ≤ n := by
  constructor
  · intro h
    have hstate : ∀ (p : CPlayer F) (state : ℤ), (((crowd p).ifPlayer 0 fun p w =>
        w.setMoveState 0 p state).player 0).map CPlayer.moveState = some state := by
      intro p state
      have hp : (crowd p).player 0 = some p := rfl
      simp only [ifPlayer]
      rw [hp]
      dsimp only
      simp only [setMoveState]
      split_ifs with hsame
      · rw [hp, hsame]
        rfl
      · exact congrArg (Option.map _) (modifyPlayer_self
          (fun p => { p with moveState := state }) hp)
    exact (Buffer.own_short (i := 2) (by decide)).mp <| h.observe
      (k := fun f : Slot → World F → World F =>
        ((f 0 (crowd (mover (.lits 0 0 0)))).player 0).map CPlayer.moveState)
      (Option.some_injective _) fun _ => hstate _ _
  · intro h
    exact ((Buffer.own_short (i := 2) (by decide)).mpr h).comp fun state uid (w : World F) =>
      w.ifPlayer uid fun p w => w.setMoveState uid p state

theorem own_onBossMove [ExactBytes F] :
    Buffer.Own n b (fun b uid (w : World F) => w.onBossMove uid b) ↔ 26 ≤ n := by
  constructor
  · intro h
    -- the packet to the others shows the rotation
    exact (Buffer.own_ofBuffer (F := F) (i := 14) (by decide)).mp <| h.observe
      (k := fun f : Slot → World F → World F => (f 0 ((crowd (mover (.lits 0 0 0))).setBoss
        Boss.initializeBoss)).trace.head?.bind Act.rotation)
      (Option.some_injective _) fun _ => rfl
  · intro h b' hb'
    have hdest := Buffer.own_ofBuffer_of_le (F := F) (b := b) (show 2+12 ≤ n by omega) (by decide)
      b' hb'
    have hrot := Buffer.own_ofBuffer_of_le (F := F) (b := b) (show 14+12 ≤ n by omega) (by decide)
      b' hb'
    dsimp only at hdest hrot
    funext uid w
    dsimp only
    simp only [onBossMove]
    rw [hdest, hrot]

/-- The attack number that a client sends to the others. -/
def Act.relay : Act F → Option ℤ
  | .send _ (.scBossAttackRelay _ atk) => some atk
  | _ => none

theorem own_onBossAttack :
    Buffer.Own n b (fun b uid (w : World F) => w.onBossAttack uid b) ↔
      5 ≤ n ∨ b.NotBoss n := by
  rw [← Buffer.own_ifBoss (g := (·.byteAt 4)) (by decide) (Buffer.own_byteAt (by decide))]
  have hattack : ∀ (b : Buffer) uid (w : World F), w.onBossAttack uid b =
      match b.ifBoss (·.byteAt 4) with
      | none => w
      | some x => if w.boss.isSome then
          w.broadcastOthers uid (.scBossAttackRelay bossIdx x.toInt) else w := by
    intro b uid w
    simp only [onBossAttack, Buffer.ifBoss]
    by_cases hboss : b.short 2 = bossIdx
    · simp [hboss]
    · simp [hboss]
  constructor
  · intro h
    have hrelay : ∀ b : Buffer, ((((crowd (mover (.lits 0 0 0) : CPlayer F)).setBoss
        Boss.initializeBoss).onBossAttack 0 b).trace.head?.bind Act.relay) =
          (b.ifBoss (·.byteAt 4)).map Int8.toInt := by
      intro b
      rw [hattack]
      cases b.ifBoss (·.byteAt 4) <;> rfl
    exact h.observe (k := fun f : Slot → World F → World F =>
      (f 0 ((crowd (mover (.lits 0 0 0))).setBoss Boss.initializeBoss)).trace.head?.bind Act.relay)
      (Option.map_injective fun _ _ => Int8.toInt_inj.mp) hrelay
  · intro h b' hb'
    have hsame := h b' hb'
    funext uid w
    dsimp only
    rw [hattack, hattack, hsame]

/-- A position next to another one and different from it. -/
theorem exists_near [ExactBytes F] (pos : Position F) :
    ∃ q : Position F, q ≠ pos ∧ getDistance q pos < 10 := by
  have := Buffer.nontrivial_float (F := F)
  obtain ⟨z,hz⟩ := exists_ne pos.z
  refine ⟨{ pos with z := z },fun h => hz (congrArg Position.z h),?_⟩
  simp only [getDistance, sumSquares]
  obtain hx | hx := ExactBytes.square_sub_self pos.x
  · obtain hy | hy := ExactBytes.square_sub_self pos.y
    · rw [hx, hy]
      decide
    · rw [hx, hy]
      decide
  · obtain hy | hy := ExactBytes.square_sub_self pos.y
    · rw [hx, hy]
      decide
    · rw [hx, hy]
      decide

/-- The same monster everywhere. -/
def herd (pos : Position F) : World F :=
  { empty with monster := fun _ => some (CMonster.initializeMonster pos 4) }

theorem onNpcMove_eq (b : Buffer) (w : World F) : w.onNpcMove b =
    match (b.npcMove : Option (MonsterId × Position F)) with
    | none => w
    | some (i,pos) =>
      match w.monster i with
      | none => w
      | some m => w.setMonster i (w.updateWithClient (m.setPosition pos)) := by
  simp only [onNpcMove, Buffer.npcMove]
  cases hoid : MonsterId.ofOid (b.short 2) with
  | none =>
    split_ifs
    · rfl
    · rfl
  | some i =>
    have hlt : b.short 2 < bossIdx := by
      unfold MonsterId.ofOid at hoid
      split_ifs at hoid with hrange
      exact hrange.2
    rw [if_pos hlt]
    rfl

/-- A monster of the herd after the move of a client. -/
theorem onNpcMove_herd (q : Position F) (j : MonsterId) (b : Buffer) :
    (((herd q).onNpcMove b).monster j).map CMonster.pos = some
      (match (b.npcMove : Option (MonsterId × Position F)) with
        | none => q
        | some (i,pos) => if j = i ∧ getDistance q pos < 10 then pos else q) := by
  rw [onNpcMove_eq]
  cases (b.npcMove : Option (MonsterId × Position F)) with
  | none => rfl
  | some move =>
    obtain ⟨i,pos⟩ := move
    have hm : (herd q : World F).monster i = some (CMonster.initializeMonster q 4) := rfl
    dsimp only
    rw [hm]
    dsimp only [setMonster]
    by_cases hj : j = i
    · subst hj
      rw [Function.update_self, Option.map_some, updateWithClient_pos]
      unfold CMonster.setPosition
      split_ifs with hnear hnear' hnear'
      · rfl
      · exact absurd ⟨rfl,hnear⟩ hnear'
      · exact absurd hnear'.2 hnear
      · rfl
    · rw [Function.update_of_ne hj, if_neg fun h => hj h.1]
      rfl

/-- The move of a monster shows where a monster stands right next to its end. -/
theorem npcMove_of_same [ExactBytes F] (h : ∀ w : World F, w.onNpcMove b = w.onNpcMove b')
    {move : MonsterId × Position F} (hb : b.npcMove = some move) : b'.npcMove = some move := by
  obtain ⟨i,pos⟩ := move
  obtain ⟨q,hne,hnear⟩ := exists_near pos
  have hsame := congrArg (fun w : World F => (w.monster i).map CMonster.pos) (h (herd q))
  rw [onNpcMove_herd, onNpcMove_herd, hb, Option.some.injEq] at hsame
  dsimp only at hsame
  rw [if_pos ⟨rfl,hnear⟩] at hsame
  cases hb' : (b'.npcMove : Option (MonsterId × Position F)) with
  | none =>
    rw [hb'] at hsame
    exact absurd hsame.symm hne
  | some move' =>
    obtain ⟨i',pos'⟩ := move'
    rw [hb'] at hsame
    dsimp only at hsame
    split_ifs at hsame with hmove
    · rw [hmove.1, hsame]
    · exact absurd hsame.symm hne

theorem own_onNpcMove [ExactBytes F] : Buffer.Own n b (fun b (w : World F) => w.onNpcMove b) ↔
    16 ≤ n ∨ (4 ≤ n ∧ MonsterId.ofOid (b.short 2) = none) := by
  rw [← Buffer.own_npcMove (F := F)]
  constructor
  · intro h b' hb'
    have hsame : ∀ w : World F, w.onNpcMove b = w.onNpcMove b' := congrFun (h b' hb')
    cases hnone : (b.npcMove : Option (MonsterId × Position F)) with
    | some move => exact (npcMove_of_same hsame hnone).symm
    | none =>
      cases hnone' : (b'.npcMove : Option (MonsterId × Position F)) with
      | none => rfl
      | some move => exact hnone.symm.trans (npcMove_of_same (fun w => (hsame w).symm) hnone')
  · intro h b' hb'
    have hsame := h b' hb'
    funext w
    dsimp only
    rw [onNpcMove_eq, onNpcMove_eq, hsame]

/-- A boss with the same hit count everywhere. -/
def whole (count : ℤ) : World F :=
  empty.setBoss { (Boss.initializeBoss : Boss F) with boneMap := fun _ => count }

/-- A part of the whole boss after the counts of a client. -/
theorem onBossBone_whole (b : Buffer) (p : Part) (c : ℤ) :
    ((whole c : World F).onBossBone b).boss.map (·.boneMap p) = some
      ((b.ifBoss Buffer.bones).elim c fun m => oneHit (m ⟨p.index,p.index_lt⟩) c) := by
  rw [onBossBone_eq]
  cases b.ifBoss Buffer.bones with
  | none => rfl
  | some m =>
    dsimp only
    rw [boneMapUpdate_count, dif_pos p.index_lt]
    rfl

theorem own_onBossBone : Buffer.Own n b (fun b (w : World F) => w.onBossBone b) ↔
    16 ≤ n ∨ b.NotBoss n := by
  rw [← Buffer.own_ifBoss (by decide) Buffer.own_bones]
  constructor
  · intro h b' hb'
    have hsame : ∀ (p : Part) c,
        (b.ifBoss Buffer.bones).elim c (fun m => oneHit (m ⟨p.index,p.index_lt⟩) c) =
          (b'.ifBoss Buffer.bones).elim c fun m => oneHit (m ⟨p.index,p.index_lt⟩) c :=
      fun p c => h.observe (k := fun f : World F → World F =>
        (f (whole c)).boss.map (·.boneMap p)) (Option.some_injective _)
          (fun b => onBossBone_whole b p c) b' hb'
    simp only [Buffer.ifBoss] at hsame ⊢
    split_ifs at hsame ⊢
    · congr 1
      funext i
      obtain ⟨p,rfl⟩ := Part.exists_index i
      exact oneHit_inj (bones_range b _).1 (bones_range b' _).1 (hsame p)
    · have hhit := hsame .rHand 128
      simp [oneHit, (bones_range b _).2] at hhit
    · have hhit := hsame .rHand 128
      simp [oneHit, (bones_range b' _).2] at hhit
    · rfl
  · intro h b' hb'
    have hsame := h b' hb'
    funext w
    dsimp only
    rw [onBossBone_eq, onBossBone_eq, hsame]

theorem onType_login (now : Now) :
    w.onType .csLogin uid b now = b.login.bind (w.loginEnter uid) := by
  unfold onType World.login Buffer.login loginEnter
  cases strcpyS (b.cString 2) with
  | error e => rfl
  | ok name =>
    cases strcpyS (b.cString 12) with
    | error e => rfl
    | ok pass => rfl

theorem onLogin_injective : Function.Injective fun
    (l : Except Fault (Credential × Credential × ℤ)) (_ : List Byte → Bool) uid (_ : ℕ)
      (w : World F) => l.bind (w.loginEnter uid) := by
  intro l l' h
  have hsame := congrFun (congrFun (congrFun (congrFun h fun _ => true) 0) 0)
    (crowd (mover (.lits 0 0 0)))
  have hp : (crowd (mover (.lits 0 0 0) : CPlayer F)).player 0 = some (mover (.lits 0 0 0)) := rfl
  have hspec := loginEnter_spec hp rfl
  cases l with
  | error e =>
    cases l' with
    | error e' => exact congrArg Except.error (Except.error.inj hsame)
    | ok l' =>
      obtain ⟨w',hw',-⟩ := hspec l'
      cases hsame.trans hw'
  | ok l =>
    obtain ⟨w',hw',hevent,htype⟩ := hspec l
    cases l' with
    | error e' => cases hsame.symm.trans hw'
    | ok l' =>
      obtain ⟨v,hv,hevent',htype'⟩ := hspec l'
      obtain rfl : w' = v := Except.ok.inj (hw'.symm.trans (hsame.trans hv))
      have hstrings := Option.some.inj (hevent.symm.trans hevent')
      have hchar := Option.some.inj (htype.symm.trans htype')
      rw [Prod.mk.injEq] at hstrings
      exact congrArg Except.ok (Prod.ext hstrings.1 (Prod.ext hstrings.2 hchar))

/-- ProcessPacket, where the database answers the statement of SignUp. -/
def serve (b : Buffer) (answer : List Byte → Bool) (uid : Slot) (time : ℕ) (w : World F) :
    Except Fault (World F) := w.processPacket uid b ⟨time,answer b.signUpStatement⟩

/-- The packet holds all that its handler reads. -/
def Covers (F : Type) [FloatArith F] (n : ℕ) (b : Buffer) : Prop :=
  match CsType.ofByte (b.byteAt 1) with
  | some .csLogin => 23 ≤ n ∨ (12 ≤ n ∧ maxLen ≤ (b.cString 2).length) ∨
      (22 ≤ n ∧ maxLen ≤ (b.cString 12).length)
  | some .csSignup => (b.cString 2).length < n-2 ∧ (b.cString 12).length < n-12
  | some .movePacket => 38 ≤ n ∨ (34 ≤ n ∧ (Position.ofBuffer b 26 : Position F).isZero)
  | some .csBossMove => 26 ≤ n
  | some .csNpcMove => 16 ≤ n ∨ (4 ≤ n ∧ MonsterId.ofOid (b.short 2) = none)
  | some .csBossAttack => 5 ≤ n ∨ b.NotBoss n
  | some .csBossBone => 16 ≤ n ∨ b.NotBoss n
  | some .csUpdateMoveState => 4 ≤ n
  | _ => True

/-- The effect of a packet depends only on its own bytes exactly if they are all that its handler
reads. -/
theorem own_bytes_iff [ExactBytes F] (hn : 2 ≤ n) (hsize : (b.byteAt 0).toInt = n) :
    Buffer.Own n b (serve (F := F)) ↔ Covers F n b := by
  have hlt : n < bufSize := by
    have hbyte := (b.byteAt 0).toInt_lt
    simp only [bufSize]
    omega
  simp only [Covers]
  cases ht : CsType.ofByte (b.byteAt 1) with
  | none =>
    refine iff_of_true (fun b' hb' => ?_) trivial
    funext answer uid time w
    simp only [serve, processPacket]
    rw [← hb' 1 hn, ht]
  | some t =>
    have hserve : ∀ c, CsType.ofByte (c.byteAt 1) = some t → serve c = fun answer uid time
        (w : World F) => w.onType t uid c ⟨time,answer c.signUpStatement⟩ := by
      intro c hc
      funext answer uid time w
      simp only [serve, processPacket]
      rw [hc]
    refine (determined_congr (r := Buffer.Agree n) (hserve b ht) fun b' hb' =>
      hserve b' (hb' 1 hn ▸ ht)).trans ?_
    cases t with
    | csLogin =>
      simp only [onType_login]
      exact (determined_injective onLogin_injective).trans (Buffer.own_login hlt)
    | csSignup =>
      exact (determined_injective (f := Buffer.signUpStatement) onSignup_injective).trans
        (Buffer.own_signUpStatement hlt)
    | movePacket => exact own_ok.trans own_onMove
    | csBossMove => exact own_ok.trans own_onBossMove
    | csNpcMove => exact own_ok_const.trans own_onNpcMove
    | csBossAttack => exact own_ok.trans own_onBossAttack
    | csBossBone => exact own_ok_const.trans own_onBossBone
    | csUpdateMoveState => exact own_ok.trans own_moveState
    | csChat | csAttack | csGuard | csFireball | csJump | csEvade | csWeaponOn | csWeaponOff
    | csBerserk | csReady | csHide | csHideOff | csAssassin | csMoveStop | csSwordOn | csSwordOff
    | csHammerOn | csHammerOff | csSyncFail => exact iff_of_true (fun _ _ => rfl) trivial

end Handlers

/-- A move state that is sent with its four bytes. -/
theorem own_bytes_move_state :
    Buffer.Own 4 (Buffer.zero.fill [4,81,2]) (serve (F := RawFloat)) :=
  (own_bytes_iff (by decide) (by decide)).mpr (by change 4 ≤ 4; exact le_rfl)

/-- A client that sends only the size and the type gets the move state of its last packet. -/
theorem leftover_move_state : ¬ ∀ (b : Buffer) (n : ℕ), 2 ≤ n → (b.byteAt 0).toInt = n →
    Buffer.Own n b (serve (F := ℚ)) := by
  intro h
  have hagree : Buffer.Agree 2 (Buffer.zero.fill [2,81]) (Buffer.zero.fill [2,81,5]) := by
    simp only [Buffer.Agree]
    decide
  have hserve := h _ 2 le_rfl (by decide) _ hagree
  have hsame := congrArg (fun f => (f (fun _ => true) 0 0 (start.accept zeroPlayer)).toOption.bind
    fun w => (w.player 0).map CPlayer.moveState) hserve
  have hmove : (some 0 : Option ℤ) = some 5 := hsame
  cases hmove

end World

end LastHero
