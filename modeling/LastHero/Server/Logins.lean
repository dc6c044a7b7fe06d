import LastHero.Server.Steps

/-! The logins that the clients ask for, and the answers of DB_Thread. In between they wait in one
queue; no request gets lost, none is answered twice, no answer goes to another slot, and none waits
for ever. -/
namespace LastHero
variable {F : Type}

/-- The slot that logs in, with the strings of its packet. -/
structure LoginRequest where
  uid : Slot
  name : List Byte
  pass : List Byte

/-- The login that a step asks for. -/
def ServerInput.request : ServerInput F → Option LoginRequest
  | .thread (.packet uid buf _) =>
    if CsType.ofByte (buf.byteAt 1) = some .csLogin then
      some ⟨uid,buf.cString 2,buf.cString 12⟩
    else none
  | .thread (.login uid name pass _) => some ⟨uid,name,pass⟩
  | _ => none

/-- The login that an event of DB_Thread is about. -/
def DBEvent.request (ev : DBEvent) : Option LoginRequest :=
  if ev.evId = .evLogin then some ⟨ev.userId,ev.name.bytes,ev.pass.bytes⟩ else none

/-- A step of DB_Thread. -/
def ServerInput.isDB : ServerInput F → Bool
  | .thread (.dbTake ..) | .thread (.dbFinish ..) => true
  | _ => false

/-- The answer to a login. -/
def Act.answer : Act F → Option Slot
  | .send c (.scLoginOk _) => some c
  | .send c .scLoginFail => some c
  | _ => none

namespace World

/-- The logins that are queued or being handled. -/
def waiting (w : World F) : List LoginRequest := w.unfinished.filterMap DBEvent.request

/-- The slots whose logins have been answered. -/
def answers (w : World F) : List Slot := w.trace.filterMap Act.answer

/-- Nobody queues EV_SIGN, and what DB_Thread handles is a login. -/
structure OnlyLogins (w : World F) : Prop where
  queue : ∀ ev ∈ w.quaryQueue, ev.evId ≠ .evSign
  handling : ∀ ev, w.handling = some ev → ev.evId = .evLogin

/-- The step asks for a login at most. -/
structure Asks (asked : List LoginRequest) (w w' : World F) : Prop where
  handling : w'.handling = w.handling
  queue : ∃ new, w'.quaryQueue = w.quaryQueue ++ new ∧ new.filterMap DBEvent.request = asked ∧
    ∀ ev ∈ new, ev.evId ≠ .evSign
  answers : w'.answers = w.answers

variable {w w' w'' : World F} {asked asked' : List LoginRequest} {new : List (Act F)}

theorem Asks.trans (h : Asks asked w w') (h' : Asks asked' w' w'') :
    Asks (asked ++ asked') w w'' := by
  obtain ⟨new,hq,hnew,hsign⟩ := h.queue
  obtain ⟨new',hq',hnew',hsign'⟩ := h'.queue
  refine ⟨h'.handling.trans h.handling,⟨new ++ new',?_,?_,fun ev hev => ?_⟩,
    h'.answers.trans h.answers⟩
  · rw [hq', hq, List.append_assoc]
  · rw [List.filterMap_append, hnew, hnew']
  · exact (List.mem_append.mp hev).elim (hsign ev) (hsign' ev)

theorem Asks.of_append (hh : w'.handling = w.handling) (hq : w'.quaryQueue = w.quaryQueue)
    (ht : w'.trace = w.trace ++ new) (hnew : ∀ a ∈ new, a.answer = none) : Asks [] w w' := by
  have hsame : w'.answers = w.answers := by
    rw [World.answers, ht, List.filterMap_append, List.filterMap_eq_nil_iff.mpr hnew,
      List.append_nil]
    rfl
  exact ⟨hh,⟨[],by rw [hq, List.append_nil],rfl,by simp⟩,hsame⟩

theorem Asks.of_trace (hh : w'.handling = w.handling) (hq : w'.quaryQueue = w.quaryQueue)
    (ht : w'.trace = w.trace) : Asks [] w w' := by
  have hnone : w'.trace = w.trace ++ [] := ht.trans (List.append_nil _).symm
  exact .of_append hh hq hnone (by simp)

theorem asks_sendTo {l : List Slot} {p : Packet F} (hp : ∀ c, (Act.send c p).answer = none) :
    Asks [] w (w.sendTo l p) := by
  refine .of_append rfl rfl rfl fun a ha => ?_
  obtain ⟨c,-,rfl⟩ := List.mem_map.mp ha
  exact hp c

theorem answer_of_idle {p : Packet F} (hp : p.Idle) (c : Slot) : (Act.send c p).answer = none := by
  cases p with
  | scLoginOk | scLoginFail => exact hp.elim
  | _ => rfl

theorem asks_deed [FloatArith F] {turn : Turn} (hd : Deed turn w w') : Asks [] w w' := by
  cases hd with
  | send l p hp => exact asks_sendTo (answer_of_idle hp)
  | player | monster | boss => exact .of_trace rfl rfl rfl
  | update id name pass =>
    refine ⟨rfl,⟨_,rfl,rfl,fun ev hev => ?_⟩,rfl⟩
    obtain rfl := List.mem_singleton.mp hev
    simp
  | timers _ _ hs => exact .of_trace hs.handling hs.quaryQueue hs.trace
  | appear | announce => exact asks_sendTo fun _ => rfl
  | hurt id i m damage =>
    have hbeaten : Asks [] w (w.beaten id i m damage) :=
      .of_append rfl rfl rfl (by simp [Act.answer])
    exact hbeaten.trans (asks_sendTo fun _ => rfl)
  | slay id i m damage =>
    have hbeaten : Asks [] w (w.beaten id i m damage) :=
      .of_append rfl rfl rfl (by simp [Act.answer])
    have hacts : (((w.beaten id i m damage).record (.kill id i)).modifyPlayer id
        (CPlayer.gainExp m.exp)).trace = (w.beaten id i m damage).trace ++ [.kill id i] := rfl
    have hkill : Asks [] w (((w.beaten id i m damage).record (.kill id i)).modifyPlayer id
        (CPlayer.gainExp m.exp)) :=
      hbeaten.trans (.of_append rfl rfl hacts (by simp [Act.answer]))
    exact (hkill.trans (asks_sendTo fun _ => rfl)).trans (asks_sendTo fun _ => rfl)
  | wound id b _ hb =>
    have hrecord : Asks [] w (w.record (.hitBoss id 20)) :=
      .of_append rfl rfl rfl (by simp [Act.answer])
    simp only [bossTakeDamage]
    rw [show (w.record (.hitBoss id 20)).boss = some b from hb]
    have hset : ∀ b', Asks [] w ((w.record (.hitBoss id 20)).setBoss b') := fun b' =>
      hrecord.trans (.of_trace rfl rfl rfl)
    dsimp only
    split_ifs
    · exact (hset _).trans (asks_sendTo fun _ => rfl)
    · exact hset _

theorem asks_deeds [FloatArith F] {turn : Turn} (h : Deeds turn w w') : Asks [] w w' :=
  h.lift (R := Asks []) (fun _ => .of_trace rfl rfl rfl) .trans fun _ _ => asks_deed

/-- Login queues the two strings of its packet. -/
theorem asks_login {uid : Slot} {name pass : List Byte} {character : ℤ}
    (h : w.login uid name pass character = .ok w') : Asks [⟨uid,name,pass⟩] w w' := by
  obtain ⟨hname,hpass⟩ := login_fits h
  rw [login_of_fits hname hpass] at h
  obtain ⟨p,-,rfl⟩ := onPlayer_spec h
  refine ⟨rfl,⟨_,rfl,rfl,fun ev hev => ?_⟩,rfl⟩
  obtain rfl := List.mem_singleton.mp hev
  simp

theorem asks_accept (heap : CPlayer F) (w : World F) : Asks [] w (w.accept heap) := by
  simp only [World.accept]
  split
  · exact .of_trace rfl rfl rfl
  · exact .of_trace rfl rfl rfl

theorem asks_disconnect {uid : Slot} (h : w.disconnect uid = .ok w') : Asks [] w w' := by
  unfold World.disconnect at h
  split at h
  · cases h
  · cases h
    have hgone : Asks [] w (((w.setPlayer uid none).renew uid).setClient uid
        { w.client uid with isconnected := false, sock := none }) := .of_trace rfl rfl rfl
    exact hgone.trans (asks_sendTo fun _ => rfl)

/-- Requests that were answered, in their order, and those that wait. -/
structure Accounted (done : List LoginRequest) (w : World F) : Prop where
  logins : ∃ answered, done = answered ++ w.waiting ∧ w.answers = answered.map LoginRequest.uid
  only : OnlyLogins w

theorem Accounted.asks {done : List LoginRequest} (h : Accounted done w) (ha : Asks asked w w') :
    Accounted (done ++ asked) w' := by
  obtain ⟨answered,hdone,hanswers⟩ := h.logins
  obtain ⟨new,hq,hnew,hsign⟩ := ha.queue
  have hwaiting : w'.waiting = w.waiting ++ asked := by
    simp only [waiting, unfinished]
    rw [hq, ha.handling, ← List.append_assoc, List.filterMap_append, hnew]
  refine ⟨⟨answered,?_,ha.answers.trans hanswers⟩,fun ev hev => ?_,fun ev hev => ?_⟩
  · rw [hdone, hwaiting, List.append_assoc]
  · rw [hq] at hev
    exact (List.mem_append.mp hev).elim (h.only.queue ev) (hsign ev)
  · exact h.only.handling ev (ha.handling ▸ hev)

theorem ensurePlayer_keeps (uid : Slot) (heap : CPlayer F) (w : World F) :
    (w.ensurePlayer uid heap).handling = w.handling ∧
      (w.ensurePlayer uid heap).quaryQueue = w.quaryQueue ∧
        (w.ensurePlayer uid heap).trace = w.trace := by
  simp only [World.ensurePlayer]
  split
  · exact ⟨rfl,rfl,rfl⟩
  · exact ⟨rfl,rfl,rfl⟩

/-- DB_Thread takes the first event: a login is handled now, an update is done. -/
theorem take_spec {ev : DBEvent} {queue : List DBEvent} {outcome : Outcome} {heap : CPlayer F}
    (h : OnlyLogins w) (hh : w.handling = none) (hq : w.quaryQueue = ev::queue)
    (ht : w.dbTake outcome heap = .ok w') : w'.quaryQueue = queue ∧ w'.answers = w.answers ∧
      (ev.evId = .evLogin ∧ w'.handling = some ev ∨ ev.request = none ∧ w'.handling = none) := by
  simp only [dbTake] at ht
  rw [hh, hq] at ht
  dsimp only at ht
  split at ht
  · rename_i hlogin
    cases ht
    obtain ⟨-,hqueue,htrace⟩ := ensurePlayer_keeps ev.userId heap (w.setQuaryQueue queue)
    exact ⟨hqueue,congrArg (fun l => l.filterMap Act.answer) htrace,Or.inl ⟨hlogin,rfl⟩⟩
  · rename_i hsign
    exact absurd hsign (h.queue ev (hq ▸ List.mem_cons_self ..))
  · rename_i hupdate
    obtain ⟨p,-,rfl⟩ := onPlayer_spec ht
    refine ⟨rfl,?_,Or.inr ⟨if_neg (by rw [hupdate]; simp),hh⟩⟩
    simp only [answers, World.record]
    rw [List.filterMap_append]
    exact List.append_nil _

/-- The statement of a login returns. Whatever the outcome, one answer goes to the slot of the
event. -/
theorem finish_spec [FloatArith F] {ev : DBEvent} (hh : w.handling = some ev) (outcome : Outcome)
    (heap : CPlayer F) (now : ℕ) : (w.dbFinish outcome heap now).handling = none ∧
      (w.dbFinish outcome heap now).quaryQueue = w.quaryQueue ∧
        (w.dbFinish outcome heap now).answers = w.answers ++ [ev.userId] := by
  obtain ⟨hhandling,hqueue,htrace⟩ := ensurePlayer_keeps ev.userId heap (w.setHandling none)
  simp only [dbFinish]
  rw [hh]
  dsimp only
  split
  · refine ⟨hhandling,hqueue,?_⟩
    simp only [answers, sendPacket, sendTo]
    rw [List.filterMap_append]
    exact congrArg (fun l : List (Act F) => l.filterMap Act.answer ++ [ev.userId]) htrace
  · refine ⟨rfl,rfl,?_⟩
    simp only [answers, sendPacket, sendTo]
    rw [List.filterMap_append]
    rfl

theorem dbTake_busy {outcome : Outcome} {heap : CPlayer F} (ht : w.dbTake outcome heap = .ok w')
    (hbusy : w.handling = none → w.quaryQueue = []) : w' = w := by
  unfold dbTake at ht
  split at ht
  · rename_i hh hq
    rw [hbusy hh] at hq
    cases hq
  · cases ht
    rfl

theorem waiting_eq {queue : List DBEvent} {handling : Option DBEvent} (hh : w.handling = handling)
    (hq : w.quaryQueue = queue) :
    w.waiting = (handling.toList ++ queue).filterMap DBEvent.request := by
  simp only [waiting, unfinished]
  rw [hh, hq]

theorem request_login {ev : DBEvent} (h : ev.evId = .evLogin) :
    ev.request = some ⟨ev.userId,ev.name.bytes,ev.pass.bytes⟩ := if_pos h

/-- A login goes on waiting. -/
theorem Accounted.take {done : List LoginRequest} {outcome : Outcome} {heap : CPlayer F}
    (h : Accounted done w) (ht : w.dbTake outcome heap = .ok w') : Accounted done w' := by
  by_cases hidle : w.handling = none → w.quaryQueue = []
  · rwa [dbTake_busy ht hidle]
  · obtain ⟨hh,hne⟩ := Classical.not_imp.mp hidle
    obtain ⟨ev,queue,hq⟩ := List.exists_cons_of_ne_nil hne
    obtain ⟨answered,hdone,hanswers⟩ := h.logins
    obtain ⟨hq',hanswers',hev⟩ := take_spec h.only hh hq ht
    have hrest : ∀ e ∈ w'.quaryQueue, e.evId ≠ .evSign := fun e he =>
      h.only.queue e (hq ▸ List.mem_cons_of_mem _ (hq' ▸ he))
    have hwait := waiting_eq hh hq
    have hsame : w'.waiting = w.waiting ∧ ∀ e, w'.handling = some e → e.evId = .evLogin := by
      rcases hev with ⟨hlogin,hh'⟩ | ⟨hnone,hh'⟩
      · refine ⟨(waiting_eq hh' hq').trans hwait.symm,fun e he => ?_⟩
        obtain rfl : ev = e := Option.some.inj (hh'.symm.trans he)
        exact hlogin
      · refine ⟨(waiting_eq hh' hq').trans ?_,fun e he => ?_⟩
        · rw [hwait]
          exact (List.filterMap_cons_none hnone).symm
        · rw [hh'] at he
          cases he
    exact ⟨⟨answered,hsame.1 ▸ hdone,hanswers'.trans hanswers⟩,hrest,hsame.2⟩

/-- Its client gets the answer. -/
theorem Accounted.finish [FloatArith F] {done : List LoginRequest} (h : Accounted done w)
    (outcome : Outcome) (heap : CPlayer F) (now : ℕ) :
    Accounted done (w.dbFinish outcome heap now) := by
  obtain ⟨answered,hdone,hanswers⟩ := h.logins
  cases hh : w.handling with
  | none => rwa [dbFinish_idle outcome heap now hh]
  | some ev =>
    have hrequest := request_login (h.only.handling ev hh)
    have hwait : w.waiting = ⟨ev.userId,ev.name.bytes,ev.pass.bytes⟩::
        w.quaryQueue.filterMap DBEvent.request :=
      (waiting_eq hh rfl).trans (List.filterMap_cons_some hrequest)
    obtain ⟨hhandling,hqueue,hanswer⟩ := finish_spec hh outcome heap now
    refine ⟨⟨answered ++ [⟨ev.userId,ev.name.bytes,ev.pass.bytes⟩],?_,?_⟩,fun e he => ?_,
      fun e he => ?_⟩
    · rw [waiting_eq hhandling hqueue, List.append_assoc, hdone, hwait]
      rfl
    · rw [hanswer, hanswers, List.map_append]
      rfl
    · exact h.only.queue e (hqueue ▸ he)
    · rw [hhandling] at he
      cases he

/-- The steps of the other threads. -/
theorem asks_serverNext [FloatArith F] {getPath : ℤ × ℤ → ℤ × ℤ → List (ℤ × ℤ)}
    {a : ServerInput F} (hdb : a.isDB = false) (hstep : w.serverNext getPath a = some w') :
    Asks a.request.toList w w' := by
  by_cases ha : ServerInput.Plain a
  · have hnone : a.request = none := by
      cases a with
      | boss | monster | io => rfl
      | thread a =>
        cases a with
        | packet uid buf now => exact if_neg ha
        | levelUp | timer => rfl
        | accept | disconnect | login | dbTake | dbFinish => exact ha.elim
    rw [hnone]
    exact asks_deeds (deeds_serverNext ha hstep)
  · cases a with
    | boss | monster | io => exact absurd trivial ha
    | thread a =>
      dsimp only [serverNext] at hstep
      cases a with
      | accept heap =>
        cases hstep
        exact asks_accept heap w
      | disconnect uid => exact asks_disconnect (toOption_eq_some hstep)
      | packet uid buf now =>
        have htype := not_not.mp ha
        obtain ⟨v,hlogin,huid,rfl⟩ := login_packet htype (toOption_eq_some hstep)
        have hrequest : (ServerInput.thread (.packet uid buf now) : ServerInput F).request =
            some ⟨uid,buf.cString 2,buf.cString 12⟩ := if_pos htype
        rw [hrequest]
        have henter : Deeds .clients v (v.enterGame uid) := deeds_enterGame huid
        have hasks := (asks_login hlogin).trans (asks_deeds henter)
        rwa [List.append_nil] at hasks
      | login uid name pass character => exact asks_login (toOption_eq_some hstep)
      | dbTake | dbFinish => cases hdb
      | levelUp | timer => exact absurd trivial ha

theorem Accounted.step [FloatArith F] {getPath : ℤ × ℤ → ℤ × ℤ → List (ℤ × ℤ)}
    {done : List LoginRequest} {a : ServerInput F} (h : Accounted done w)
    (hstep : w.serverNext getPath a = some w') : Accounted (done ++ a.request.toList) w' := by
  cases hdb : a.isDB with
  | false => exact h.asks (asks_serverNext hdb hstep)
  | true =>
    cases a with
    | boss | monster | io => cases hdb
    | thread a =>
      dsimp only [serverNext] at hstep
      cases a with
      | dbTake outcome heap =>
        have htake := h.take (toOption_eq_some hstep)
        rwa [← List.append_nil done] at htake
      | dbFinish outcome heap now =>
        cases hstep
        have hfinish := h.finish outcome heap now
        rwa [← List.append_nil done] at hfinish
      | _ => cases hdb

theorem Accounted.run [FloatArith F] {getPath : ℤ × ℤ → ℤ × ℤ → List (ℤ × ℤ)}
    {done : List LoginRequest} {as : List (ServerInput F)} (h : Accounted done w)
    (hrun : Runs.run (serverNext getPath) w as = some w') :
    Accounted (done ++ as.filterMap ServerInput.request) w' := by
  induction as generalizing done w with
  | nil =>
    cases hrun
    rwa [List.filterMap_nil, List.append_nil]
  | cons a as ih =>
    obtain ⟨v,hv,hrun⟩ := Runs.run_cons_eq_some.mp hrun
    have hrest := ih (h.step hv) hrun
    rw [List.append_assoc] at hrest
    cases hreq : a.request with
    | none =>
      rw [hreq] at hrest
      rw [List.filterMap_cons_none hreq]
      exact hrest
    | some r =>
      rw [hreq] at hrest
      rw [List.filterMap_cons_some hreq]
      exact hrest

theorem accounted_start [FloatArith F] : Accounted [] (start : World F) := by
  have hspawn := KeyedFold.foldl_related
    (R := fun w w' : World F => w'.quaryQueue = w.quaryQueue ∧ w'.handling = w.handling)
    (fun _ => ⟨rfl,rfl⟩) (fun h h' => ⟨h'.1.trans h.1,h'.2.trans h.2⟩) (fun _ _ => ⟨rfl,rfl⟩) spawns
    (((empty : World F).setBoss Boss.initializeBoss).addTimer .evBoss 1000 0)
  have hqueue : (start : World F).quaryQueue = [] := hspawn.1
  have hhandling : (start : World F).handling = none := hspawn.2
  refine ⟨⟨[],?_,?_⟩,fun ev hev => ?_,fun ev hev => ?_⟩
  · simp only [waiting, unfinished]
    rw [hqueue, hhandling]
    rfl
  · rw [answers, start_trace]
    rfl
  · rw [hqueue] at hev
    cases hev
  · rw [hhandling] at hev
    cases hev

/-- In every run of the server DB_Thread answers the logins in the order in which the clients ask,
each one once and to the slot that asked; the others wait as they came. -/
theorem logins_answered [FloatArith F] {getPath : ℤ × ℤ → ℤ × ℤ → List (ℤ × ℤ)}
    (as : List (ServerInput F)) (h : Runs.run (serverNext getPath) start as = some w) :
    ∃ answered, as.filterMap ServerInput.request = answered ++ w.waiting ∧
      w.answers = answered.map LoginRequest.uid := (accounted_start.run h).logins

/-- A client asks twice before the first login fails. -/
theorem logins_answered_fail : ∃ w : World ℚ, Runs.run (serverNext fun _ _ => []) start
    [.thread (.accept zeroPlayer),.thread (.login 0 [65] [66] 0),.thread (.login 0 [67] [68] 0),
      .thread (.dbTake .noRow zeroPlayer),.thread (.dbFinish .noRow zeroPlayer 0)] = some w ∧
    ∃ answered, [⟨0,[65],[66]⟩,⟨0,[67],[68]⟩] = answered ++ w.waiting ∧
      w.answers = answered.map LoginRequest.uid := by
  refine ⟨_,rfl,?_⟩
  exact logins_answered [.thread (.accept zeroPlayer),.thread (.login 0 [65] [66] 0),
    .thread (.login 0 [67] [68] 0),.thread (.dbTake .noRow zeroPlayer),
    .thread (.dbFinish .noRow zeroPlayer 0)]
    (show Runs.run (serverNext fun _ _ => []) start _ = some _ from rfl)

/-- DB_Thread handles one event after the other. -/
def TakesTurns (w : World F) : ServerInput F → Prop
  | .thread (.dbTake ..) => w.handling = none
  | .thread (.dbFinish ..) => w.handling.isSome
  | _ => True

/-- The slots that wait for the answers to the logins among some events. -/
def askers (events : List DBEvent) : List Slot :=
  (events.filterMap DBEvent.request).map LoginRequest.uid

theorem askers_nil : askers [] = [] := rfl

theorem askers_cons_none {ev : DBEvent} {events : List DBEvent} (h : ev.request = none) :
    askers (ev::events) = askers events := by
  simp only [askers]
  rw [List.filterMap_cons_none h]

theorem askers_cons_login {ev : DBEvent} {events : List DBEvent} (h : ev.evId = .evLogin) :
    askers (ev::events) = ev.userId::askers events := by
  simp only [askers]
  rw [List.filterMap_cons_some (request_login h)]
  rfl

/-- With `k` more steps of DB_Thread it is done with the events in front of `new`, and the answers
begin with `expected`. -/
def Drains (expected : List Slot) (k : ℕ) (w : World F) : Prop := (∃ done, Accounted done w) ∧
  ∃ old new, w.quaryQueue = old ++ new ∧
    0 < 2*old.length + w.handling.toList.length ∧ 2*old.length + w.handling.toList.length ≤ k ∧
      expected <+: w.answers ++ askers (w.handling.toList ++ old)

variable {expected : List Slot}

theorem Drains.asks {k : ℕ} (h : Drains expected k w) (hdone : ∃ done, Accounted done w')
    (ha : Asks asked w w') : Drains expected k w' := by
  obtain ⟨-,old,new,hq,hpos,hle,hn⟩ := h
  obtain ⟨added,hq',-⟩ := ha.queue
  refine ⟨hdone,old,new ++ added,by rw [hq', hq, List.append_assoc],?_,?_,?_⟩
  · rwa [ha.handling]
  · rwa [ha.handling]
  · rwa [ha.handling, ha.answers]

theorem Drains.take {k : ℕ} {outcome : Outcome} {heap : CPlayer F} (h : Drains expected (k+1) w)
    (hh : w.handling = none) (ht : w.dbTake outcome heap = .ok w') :
    expected <+: w'.answers ∨ Drains expected k w' := by
  obtain ⟨⟨done,hdone⟩,old,new,hq,hpos,hle,hn⟩ := h
  rw [hh] at hpos hle hn
  cases old with
  | nil => exact absurd hpos (lt_irrefl 0)
  | cons ev old =>
    obtain ⟨hq',hanswers,hev⟩ := take_spec hdone.only hh hq ht
    simp only [Option.toList_none, List.nil_append, List.length_nil, List.length_cons] at hle hn
    rcases hev with ⟨-,hh'⟩ | ⟨hnone,hh'⟩
    · refine Or.inr ⟨⟨done,hdone.take ht⟩,old,new,hq',?_⟩
      rw [hh', hanswers]
      simp only [Option.toList_some, List.length_singleton]
      exact ⟨by omega,by omega,hn⟩
    · rw [askers_cons_none hnone] at hn
      cases old with
      | nil =>
        rw [askers_nil, List.append_nil, ← hanswers] at hn
        exact Or.inl hn
      | cons e old =>
        refine Or.inr ⟨⟨done,hdone.take ht⟩,e::old,new,hq',?_⟩
        rw [hh', hanswers]
        simp only [Option.toList_none, List.length_nil, List.nil_append, List.length_cons] at hle ⊢
        exact ⟨by omega,by omega,hn⟩

theorem Drains.finish [FloatArith F] {k : ℕ} (h : Drains expected (k+1) w)
    (hh : w.handling.isSome) (outcome : Outcome) (heap : CPlayer F) (now : ℕ) :
    expected <+: (w.dbFinish outcome heap now).answers ∨
      Drains expected k (w.dbFinish outcome heap now) := by
  obtain ⟨⟨done,hdone⟩,old,new,hq,hpos,hle,hn⟩ := h
  obtain ⟨ev,hev⟩ := Option.isSome_iff_exists.mp hh
  obtain ⟨hh',hq',hanswers⟩ := finish_spec hev outcome heap now
  rw [hev] at hle hn
  simp only [Option.toList_some, List.length_singleton, List.singleton_append] at hle hn
  -- The answer comes in front of those to the rest of the queue.
  rw [askers_cons_login (hdone.only.handling ev hev), List.append_cons, ← hanswers] at hn
  cases old with
  | nil =>
    rw [askers_nil, List.append_nil] at hn
    exact Or.inl hn
  | cons e old =>
    refine Or.inr ⟨⟨done,hdone.finish outcome heap now⟩,e::old,new,hq'.trans hq,?_⟩
    rw [hh']
    simp only [Option.toList_none, List.length_nil, List.nil_append, List.length_cons] at hle ⊢
    exact ⟨by omega,by omega,hn⟩

/-- No login waits for ever: those that wait in a state that the server reaches are the next ones to
be answered, and all of them have been once DB_Thread has made two steps for each queued event and
one for the event that it handles, whatever else happens and whatever is queued meanwhile. -/
theorem logins_progress [FloatArith F] {getPath : ℤ × ℤ → ℤ × ℤ → List (ℤ × ℤ)}
    {before as : List (ServerInput F)}
    (hbefore : Runs.run (serverNext getPath) start before = some w)
    (hrun : Runs.run (serverNext getPath) w as = some w')
    (hturns : Runs.Along (serverNext getPath) TakesTurns w as)
    (hmany : 2*w.quaryQueue.length + w.handling.toList.length ≤ as.countP ServerInput.isDB) :
    Runs.Visits (serverNext getPath) (fun v =>
      w.answers ++ w.waiting.map LoginRequest.uid <+: v.answers) w as := by
  have hdone := accounted_start.run hbefore
  by_cases hidle : 2*w.quaryQueue.length + w.handling.toList.length = 0
  · have hempty : w.unfinished = [] := List.length_eq_zero_iff.mp (by
      rw [unfinished, List.length_append]
      omega)
    refine .head ?_
    rw [waiting, hempty, List.filterMap_nil, List.map_nil, List.append_nil]
  · have hstage : Drains (w.answers ++ w.waiting.map LoginRequest.uid)
        (2*w.quaryQueue.length + w.handling.toList.length) w :=
      ⟨⟨_,hdone⟩,w.quaryQueue,[],(List.append_nil _).symm,Nat.pos_of_ne_zero hidle,le_rfl,
        List.prefix_rfl⟩
    refine Runs.visits_of_progress ?_ ?_ ?_ hstage hturns hrun hmany
    · rintro v ⟨-,old,new,-,hpos,hle,-⟩
      omega
    · intro k v a v' hv ha hturn hstep
      cases a with
      | boss | monster | io => cases ha
      | thread a =>
        dsimp only [serverNext] at hstep
        cases a with
        | dbTake outcome heap => exact hv.take hturn (toOption_eq_some hstep)
        | dbFinish outcome heap now =>
          cases hstep
          exact hv.finish hturn outcome heap now
        | _ => cases ha
    · intro k v a v' hv ha _ hstep
      obtain ⟨done,haccounted⟩ := hv.1
      exact Or.inr (hv.asks ⟨_,haccounted.step hstep⟩ (asks_serverNext ha hstep))

/-- A client logs in twice. -/
def twoLogins : List (ServerInput ℚ) := [.thread (.accept zeroPlayer),
  .thread (.login 0 [65] [66] 0),.thread (.login 0 [67] [68] 0)]

/-- DB_Thread handles both, with another packet in between. -/
def twoAnswers : List (ServerInput ℚ) := [.thread (.dbTake .noRow zeroPlayer),
  .thread (.dbFinish .noRow zeroPlayer 0),.thread (.packet 0 (shortPacket .csReady) ⟨0,true⟩),
  .thread (.dbTake .noRow zeroPlayer),.thread (.dbFinish .noRow zeroPlayer 0)]

theorem logins_progress_two : ∃ w : World ℚ,
    Runs.run (serverNext fun _ _ => []) start twoLogins = some w ∧
      Runs.Visits (serverNext fun _ _ => []) (fun v =>
        w.answers ++ w.waiting.map LoginRequest.uid <+: v.answers) w twoAnswers := by
  obtain ⟨w,hw,w',hw'⟩ : ∃ w : World ℚ, Runs.run (serverNext fun _ _ => []) start twoLogins =
      some w ∧ ∃ w', Runs.run (serverNext fun _ _ => []) w twoAnswers = some w' :=
    ⟨_,rfl,_,rfl⟩
  refine ⟨w,hw,logins_progress hw hw' ?_ ?_⟩
  · obtain rfl := Option.some.inj hw
    refine (Runs.along_cons rfl).mpr ⟨rfl,?_⟩
    refine (Runs.along_cons rfl).mpr ⟨rfl,?_⟩
    refine (Runs.along_cons rfl).mpr ⟨trivial,?_⟩
    refine (Runs.along_cons rfl).mpr ⟨rfl,?_⟩
    exact (Runs.along_cons rfl).mpr ⟨rfl,trivial⟩
  · obtain rfl := Option.some.inj hw
    decide

end World

end LastHero
