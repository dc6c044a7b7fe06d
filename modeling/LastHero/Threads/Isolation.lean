import LastHero.Threads.Database
import LastHero.Boss.Token
import LastHero.Monster.Token

/-! What the packets of one client do to the others. No handler touches another connection, but a
login with a long string and an unknown type end the whole process. -/
namespace LastHero
variable {F : Type}

/-- All that happens to the server: its threads, the socket operations with what they leave in the
receive buffers, and the updates of the boss and of the monsters. -/
inductive ServerInput (F : Type)
  | thread (a : Input F)
  | io (ops : List IoOp) (recv : Slot → Client)
  | boss (draw now : ℕ)
  | monster (i : MonsterId) (draw now : ℕ)

/-- The type is known, and the strings of a login end within their fields. -/
def Buffer.Harmless (b : Buffer) : Prop := ∃ t, CsType.ofByte (b.byteAt 1) = some t ∧
  (t = .csLogin → (b.cString 2).length < maxLen ∧ (b.cString 12).length < maxLen)

namespace World

/-- The connection of a slot is as before. -/
structure SameConnection (i : Slot) (w w' : World F) : Prop where
  isconnected : (w'.client i).isconnected = (w.client i).isconnected
  prevSize : (w'.client i).recv.prevSize = (w.client i).recv.prevSize
  packetBuf : (w'.client i).recv.packetBuf = (w.client i).recv.packetBuf
  player : (w'.player i).isSome = (w.player i).isSome

/-- Every client has its player. -/
def Seated (w : World F) : Prop := ∀ i, (w.client i).isconnected = true → (w.player i).isSome

/-- A step that neither connects nor disconnects loses no player. -/
structure Gains (w w' : World F) : Prop where
  client : ∀ i, (w'.client i).isconnected = (w.client i).isconnected
  player : ∀ i, (w.player i).isSome → (w'.player i).isSome

/-- Completions, and what recv_packet_construct leaves of them. -/
def setIo (ops : List IoOp) (recv : Slot → Client) (w : World F) : World F :=
  { w with ops := ops, client := fun i => { w.client i with recv := recv i } }

variable {w w' w'' : World F} {i uid : Slot} {b : Boss F} {k : MonsterId} {m m' : CMonster F}

theorem Gains.seated (h : Gains w w') (hw : Seated w) : Seated w' :=
  fun i hi => h.player i (hw i (h.client i ▸ hi))

theorem Gains.trans (h : Gains w w') (h' : Gains w' w'') : Gains w w'' :=
  ⟨fun i => (h'.client i).trans (h.client i),fun i hi => h'.player i (h.player i hi)⟩

theorem SameSlots.gains (h : SameSlots w w') : Gains w w' :=
  ⟨fun i => by rw [h.client],fun i hi => by rwa [h.player]⟩

theorem SameSlots.of_eq (hc : w'.client = w.client) (hp : w'.player = w.player) :
    SameSlots w w' := ⟨hc,fun i => by rw [hp]⟩

theorem Gains.of_eq (hc : w'.client = w.client) (hp : w'.player = w.player) : Gains w w' :=
  (SameSlots.of_eq hc hp).gains

theorem gains_ensurePlayer (uid : Slot) (heap : CPlayer F) (w : World F) :
    Gains w (w.ensurePlayer uid heap) := by
  simp only [World.ensurePlayer]
  split
  · exact ⟨fun _ => rfl,fun _ => id⟩
  · refine ⟨fun _ => rfl,fun j hj => ?_⟩
    change (Function.update w.player uid _ j).isSome
    rw [Function.update_apply]
    split_ifs
    · rfl
    · exact hj

theorem seated_accept (heap : CPlayer F) (hw : Seated w) : Seated (w.accept heap) := by
  cases hfree : w.freeSlot with
  | none => rwa [accept_full heap hfree]
  | some i =>
    intro j hj
    rw [accept_client heap hfree] at hj
    rw [accept_player heap hfree]
    by_cases hji : j = i
    · rw [hji, Function.update_self]
      rfl
    · rw [Function.update_of_ne hji] at hj ⊢
      exact hw j hj

theorem seated_disconnect (hd : w.disconnect uid = .ok w') (hw : Seated w) : Seated w' := by
  obtain ⟨-,hplayer,hclient,-⟩ := disconnect_spec hd
  intro j hj
  rw [hclient] at hj
  rw [hplayer]
  by_cases hju : j = uid
  · rw [hju, Function.update_self] at hj
    cases hj
  · rw [Function.update_of_ne hju] at hj ⊢
    exact hw j hj

theorem gains_dbTake {outcome : Outcome} {heap : CPlayer F} (h : w.dbTake outcome heap = .ok w') :
    Gains w w' := by
  obtain rfl | ⟨ev,queue,-,-,rfl | ⟨queue',rfl⟩ | ⟨exp,rfl⟩⟩ := dbTake_cases h
  · exact .of_eq rfl rfl
  · have hnew := gains_ensurePlayer ev.userId heap (w.setQuaryQueue queue)
    have hset := (sameSlots_modifyPlayer (i := ev.userId) (CPlayer.setCredentials ev.name ev.pass)
      ((w.setQuaryQueue queue).ensurePlayer ev.userId heap)).gains
    exact ⟨(hnew.trans hset).client,(hnew.trans hset).player⟩
  · exact .of_eq rfl rfl
  · exact .of_eq rfl rfl

/-- The end of most Executes of a monster. -/
theorem SameSlots.put {t : ℕ} (h : SameSlots w w') :
    SameSlots w ((w'.setMonster k m).monsterTimer k t) := ⟨h.client,h.player⟩

theorem SameSlots.sendTo {l : List Slot} {p : Packet F} (h : SameSlots w w') :
    SameSlots w (w'.sendTo l p) := ⟨h.client,h.player⟩

theorem SameSlots.modifyPlayer {f : CPlayer F → CPlayer F} (h : SameSlots w w') :
    SameSlots w (w'.modifyPlayer uid f) := h.trans (sameSlots_modifyPlayer f w')

theorem SameSlots.takeDamage {damage : ℤ} (h : SameSlots w w') :
    SameSlots w (w'.takeDamage uid damage) := by
  simp only [World.takeDamage]
  split
  · exact h.modifyPlayer
  · split_ifs
    · exact h.modifyPlayer.sendTo.modifyPlayer.sendTo
    · exact h.modifyPlayer.sendTo

theorem sameSlots_attackStart (draw : ℕ) (w : World F) :
    SameSlots w (w.attackStart k m draw) :=
  List.foldlRecOn (motive := SameSlots w) _ _ (.of_eq rfl rfl) fun _ h _ _ => h.sendTo.sendTo

section Updates
variable [FloatArith F] {getPath : ℤ × ℤ → ℤ × ℤ → List (ℤ × ℤ)} {draw now : ℕ}

/-- A change of the state of a monster before its event is queued. -/
theorem sameSlots_changeState {s : State} {t : ℕ} (hs : SameSlots w w')
    (h : (do let m' ← w'.changeState s m; return (w'.setMonster k m').monsterTimer k t) = .ok w'') :
    SameSlots w w'' := by
  obtain ⟨m',-,h⟩ := bind_eq_ok.mp h
  cases h
  exact hs.put

theorem gains_dbFinish (outcome : Outcome) (heap : CPlayer F) (now : ℕ) (w : World F) :
    Gains w (w.dbFinish outcome heap now) := by
  unfold World.dbFinish
  split
  · exact .of_eq rfl rfl
  · rename_i ev _
    dsimp only
    split
    · rename_i r
      have hnew := gains_ensurePlayer ev.userId heap (w.setHandling none)
      have hload := (sameSlots_modifyPlayer (i := ev.userId) (fun p =>
        { p.initializePlayer r.hp r.oType r.exp r.level r.mp now with state := .inGame })
        ((w.setHandling none).ensurePlayer ev.userId heap)).gains
      exact ⟨(hnew.trans hload).client,(hnew.trans hload).player⟩
    · exact .of_eq rfl rfl

theorem sameSlots_monsterAttack {p : CPlayer F}
    (h : w.monsterAttack k m uid p draw = (m',w')) : SameSlots w w' := by
  unfold World.monsterAttack at h
  split_ifs at h
  · cases h
    exact .of_eq rfl rfl
  · cases h
    exact .of_eq rfl rfl
  · cases h
    have hstart := sameSlots_attackStart (k := k) (m := m.face p.pos) draw w
    simp only [attackEnd]
    split_ifs
    · exact hstart.sendTo
    · exact hstart
    · exact hstart.sendTo.takeDamage

theorem sameSlots_idleState (h : w.executeIdleState k m now = .ok w') : SameSlots w w' := by
  have hself : SameSlots w w := .of_eq rfl rfl
  obtain ⟨m₁,-,h⟩ := bind_eq_ok.mp h
  unfold watchOut at h
  split at h
  · cases h
    exact hself.put
  · split at h
    · cases h
      exact hself.put
    · dsimp only at h
      split_ifs at h
      · cases h
        exact hself.put
      · exact sameSlots_changeState hself h
      · exact sameSlots_changeState hself h
      · exact sameSlots_changeState hself h
      · cases h
        exact hself.put

theorem sameSlots_chaseState (h : w.executeChaseState k m now = .ok w') : SameSlots w w' := by
  have hself : SameSlots w w := .of_eq rfl rfl
  unfold executeChaseState at h
  split_ifs at h
  · exact sameSlots_changeState hself h
  · obtain ⟨m₁,-,h⟩ := bind_eq_ok.mp h
    split at h
    · cases h
      exact hself.put
    · rename_i p _
      have hchase : SameSlots w ((w.setMonster k (m₁.chase p.pos)).broadcast
          ((m₁.chase p.pos).makeUpdatePacket k)) := .of_eq rfl rfl
      dsimp only at h
      split_ifs at h
      · exact sameSlots_changeState hchase h
      · cases h
        exact .of_eq rfl rfl

theorem sameSlots_attackState (h : w.executeAttackState k m draw now = .ok w') :
    SameSlots w w' := by
  have hself : SameSlots w w := .of_eq rfl rfl
  unfold executeAttackState at h
  split_ifs at h
  · exact sameSlots_changeState hself h
  · split at h
    · exact sameSlots_changeState hself h
    · split at h
      · exact sameSlots_changeState hself h
      · split_ifs at h
        · exact sameSlots_changeState hself h
        · rename_i id _ _ p _ _
          cases hattack : w.monsterAttack k m id p draw with
          | mk m₁ w₁ =>
            have hs := sameSlots_monsterAttack hattack
            rw [hattack] at h
            dsimp only at h
            split_ifs at h
            · exact sameSlots_changeState hs h
            · cases h
              exact ⟨hs.client,hs.player⟩

theorem sameSlots_returnHomeState (h : w.executeReturnHomeState k m now = .ok w') :
    SameSlots w w' := by
  have hself : SameSlots w w := .of_eq rfl rfl
  obtain ⟨m₁,-,h⟩ := bind_eq_ok.mp h
  obtain ⟨m₂,-,h⟩ := bind_eq_ok.mp h
  obtain ⟨m₃,-,h⟩ := bind_eq_ok.mp h
  cases h
  exact hself.put

theorem sameSlots_monsterUpdate (h : w.monsterUpdate k draw now = .ok w') : SameSlots w w' := by
  unfold monsterUpdate at h
  split at h
  · cases h
    exact .of_eq rfl rfl
  · rename_i m _
    unfold monsterExecute at h
    cases hstate : m.state with
    | idleState =>
      rw [hstate] at h
      exact sameSlots_idleState h
    | chaseState =>
      rw [hstate] at h
      exact sameSlots_chaseState h
    | attackState =>
      rw [hstate] at h
      exact sameSlots_attackState h
    | returnHomeState =>
      rw [hstate] at h
      exact sameSlots_returnHomeState h
    | deadState =>
      rw [hstate] at h
      cases h
      exact .of_eq rfl rfl

theorem sameSlots_strike {atk : BState} {delay : ℕ} :
    SameSlots w (executeStrike atk delay b now w) := by
  simp only [executeStrike]
  split
  · exact .of_eq rfl rfl
  · split_ifs
    · exact .of_eq rfl rfl
    · exact .of_eq rfl rfl

theorem sameSlots_down : SameSlots w (w.executeDownAttack b draw now) := by
  unfold executeDownAttack
  split
  · exact .of_eq rfl rfl
  · split_ifs
    · exact .of_eq rfl rfl
    · dsimp only
      split
      · exact .of_eq rfl rfl
      · exact .of_eq rfl rfl

theorem sameSlots_attack (h : w.executeAttack b draw now = .ok w') : SameSlots w w' := by
  unfold executeAttack at h
  dsimp only at h
  split_ifs at h
  · cases h
    exact .of_eq rfl rfl
  · split at h
    · cases h
    · cases h
      exact .of_eq rfl rfl
  · cases h
    exact .of_eq rfl rfl

theorem sameSlots_chase (h : w.executeChase getPath b = .ok w') : SameSlots w w' := by
  unfold executeChase at h
  split_ifs at h
  · cases h
    exact .of_eq rfl rfl
  · obtain ⟨r,-,h⟩ := bind_eq_ok.mp h
    cases h
    exact .of_eq rfl rfl

theorem sameSlots_bossUpdate (h : w.bossUpdate getPath draw now = .ok w') : SameSlots w w' := by
  unfold bossUpdate at h
  split at h
  · cases h
    exact .of_eq rfl rfl
  · rename_i b _
    split_ifs at h
    · cases h
      exact .of_eq rfl rfl
    · unfold bossExecute at h
      cases hstate : b.isPartDestroyed.state with
      | bossChase =>
        rw [hstate] at h
        exact sameSlots_chase h
      | bossAttack =>
        rw [hstate] at h
        exact sameSlots_attack h
      | bossDownAttack =>
        rw [hstate] at h
        cases h
        exact sameSlots_down
      | bossIdle | bossDead =>
        rw [hstate] at h
        cases h
        exact .of_eq rfl rfl
      | bossDashAttack | bossSwingAttack | bossStrikeAttack | bossThrowAttack | bossStompAttack
        | bossIceSpearAttack | bossHandClapAttack | bossPunchAttack =>
        rw [hstate] at h
        cases h
        exact sameSlots_strike

/-- One step of the whole server. -/
def serverNext (getPath : ℤ × ℤ → ℤ × ℤ → List (ℤ × ℤ)) (w : World F) :
    ServerInput F → Option (World F)
  | .thread a => w.next a
  | .io ops recv => some (w.setIo ops recv)
  | .boss draw now => w.bossNext getPath (.update draw now)
  | .monster k draw now => w.monsterNext (.update k draw now)

theorem seated_next {a : Input F} (h : w.next a = some w') (hw : Seated w) : Seated w' := by
  cases a with
  | accept heap =>
    cases h
    exact seated_accept heap hw
  | disconnect uid => exact seated_disconnect (toOption_eq_some h) hw
  | packet uid buf now =>
    exact (keeps_next (a := .packet uid buf now) trivial h).sameSlots.gains.seated hw
  | login uid id password character =>
    exact (keeps_next (a := .login uid id password character) trivial h).sameSlots.gains.seated hw
  | levelUp uid => exact (keeps_next (a := .levelUp uid) trivial h).sameSlots.gains.seated hw
  | dbTake outcome heap => exact (gains_dbTake (toOption_eq_some h)).seated hw
  | dbFinish outcome heap now =>
    cases h
    exact (gains_dbFinish outcome heap now w).seated hw
  | timer k now =>
    obtain ⟨e,-,rfl⟩ := timerThread_spec h
    have hs := (sameSlots_timerEvent e now (w.setTimerQueue (w.timerQueue.eraseIdx k))).1
    exact SameSlots.gains ⟨hs.client,hs.player⟩ |>.seated hw

/-- Whatever the server does, its clients have players. -/
theorem seated_serverNext {a : ServerInput F} (h : w.serverNext getPath a = some w')
    (hw : Seated w) : Seated w' := by
  cases a with
  | thread a => exact seated_next h hw
  | io ops recv =>
    cases h
    exact hw
  | boss draw now =>
    dsimp only [serverNext, bossNext] at h
    split_ifs at h
    have hs := sameSlots_bossUpdate (toOption_eq_some h)
    exact SameSlots.gains ⟨hs.client,hs.player⟩ |>.seated hw
  | monster k draw now =>
    dsimp only [serverNext, monsterNext] at h
    split_ifs at h
    have hs := sameSlots_monsterUpdate (toOption_eq_some h)
    exact SameSlots.gains ⟨hs.client,hs.player⟩ |>.seated hw

theorem seated_start : Seated (start : World F) :=
  (quiet_start (F := F)).toKeeps.sameSlots.gains.seated fun _ h => by cases h

/-- A handler fails only without a player, or on the strings of a login. -/
theorem onType_ok {t : CsType} {buf : Buffer} (now : Now) (hp : (w.player uid).isSome)
    (hfits : t = .csLogin → (buf.cString 2).length < maxLen ∧ (buf.cString 12).length < maxLen) :
    ∃ w', w.onType t uid buf now = .ok w' := by
  have hok : ∀ {v : World F} (f : CPlayer F → World F → World F), (v.player uid).isSome →
      ∃ v', v.onPlayer uid f = .ok v' := by
    intro v f hv
    obtain ⟨q,hq⟩ := Option.isSome_iff_exists.mp hv
    exact ⟨_,onPlayer_some hq⟩
  cases t with
  | csLogin =>
    obtain ⟨hname,hpass⟩ := hfits rfl
    obtain ⟨w₁,hw₁⟩ := hok (v := w.addQuary uid .evLogin ⟨_,hname⟩ ⟨_,hpass⟩) _ hp
    rw [← login_of_fits] at hw₁
    obtain ⟨w₂,hw₂⟩ := hok (fun _ w => w.enterGame uid)
      (((quiet_login hw₁).toKeeps.isSome uid).trans hp)
    exact ⟨w₂,bind_eq_ok.mpr ⟨w₁,hw₁,hw₂⟩⟩
  | csFireball =>
    exact hok _ ((isSome_modifyPlayer (fun p => p.setPosition (.lits 59060 55640 1970)) w uid
      uid).trans hp)
  | csAttack | csGuard | csEvade | csWeaponOn | csWeaponOff | csBerserk | csReady | csHide
  | csHideOff | csAssassin | csMoveStop | csSwordOn | csSwordOff | csHammerOn | csHammerOff =>
    exact hok _ hp
  | csSignup | movePacket | csChat | csJump | csBossMove | csNpcMove | csBossAttack | csBossBone
  | csSyncFail | csUpdateMoveState => exact ⟨_,rfl⟩

/-- The clients that the server reaches have their players. -/
theorem seated_run {as : List (ServerInput F)}
    (hrun : Runs.run (serverNext getPath) start as = some w) : Seated w :=
  Runs.Always.last (Runs.always (fun _ _ _ hs h => seated_serverNext h hs) seated_start) hrun

/-- ProcessPacket returns, and the other connections are as before. -/
def Serves (w : World F) (uid : Slot) (buf : Buffer) (now : Now) : Prop :=
  ∃ w', w.processPacket uid buf now = .ok w' ∧ ∀ i, i ≠ uid → SameConnection i w w'

/-- Of a client in a state that the server reaches, exactly the harmless packets are served. -/
theorem serves_iff {as : List (ServerInput F)}
    (hrun : Runs.run (serverNext getPath) start as = some w)
    (hconnected : (w.client uid).isconnected = true) (buf : Buffer) (now : Now) :
    w.Serves uid buf now ↔ buf.Harmless := by
  have hplayer : (w.player uid).isSome := seated_run hrun uid hconnected
  constructor
  · rintro ⟨w',hok,-⟩
    obtain ⟨t,ht,htype⟩ := processPacket_spec hok
    refine ⟨t,ht,?_⟩
    rintro rfl
    obtain ⟨w₁,hlogin,-⟩ := bind_eq_ok.mp htype
    exact login_fits hlogin
  · rintro ⟨t,ht,hfits⟩
    obtain ⟨w',hok⟩ := onType_ok now hplayer hfits
    have hpacket : w.processPacket uid buf now = .ok w' := by
      simp only [processPacket]
      rw [ht]
      exact hok
    have hkeeps := keeps_processPacket hpacket
    refine ⟨w',hpacket,fun i _ => ?_⟩
    have hclient : w'.client i = w.client i := congrFun hkeeps.client i
    exact ⟨by rw [hclient],by rw [hclient],by rw [hclient],hkeeps.isSome i⟩

end Updates

/-- The first packet of a new client. -/
theorem serves_ready :
    (start.accept zeroPlayer : World ℚ).Serves 0 (shortPacket .csReady) ⟨0,true⟩ :=
  (serves_iff (show Runs.run (serverNext fun _ _ => []) start [.thread (.accept zeroPlayer)] =
    some (start.accept zeroPlayer) from rfl) rfl _ _).mpr ⟨.csReady,by decide,by decide⟩

/-- One packet of an unknown type, or one login whose ten bytes of id hold no terminator, ends the
process. -/
theorem client_ends_server : ∃ (as : List (ServerInput ℚ)) (w : World ℚ),
    Runs.run (serverNext fun _ _ => []) start as = some w ∧ (w.client 0).isconnected = true ∧
      ¬ w.Serves 0 (Buffer.zero.fill [2,100]) ⟨0,true⟩ ∧
      ¬ w.Serves 0 (Buffer.zero.fill ([23,0] ++ List.replicate 10 97)) ⟨0,true⟩ := by
  refine ⟨[.thread (.accept zeroPlayer)],start.accept zeroPlayer,rfl,rfl,?_,?_⟩
  · rintro ⟨w',hok,-⟩
    have hexit : (start.accept zeroPlayer : World ℚ).processPacket 0 (Buffer.zero.fill [2,100])
        ⟨0,true⟩ = .error .exit := rfl
    cases hexit.symm.trans hok
  · rintro ⟨w',hok,-⟩
    have habort : (start.accept zeroPlayer : World ℚ).processPacket 0
        (Buffer.zero.fill ([23,0] ++ List.replicate 10 97)) ⟨0,true⟩ =
          .error .invalidParameter := rfl
    cases habort.symm.trans hok

end World

end LastHero
