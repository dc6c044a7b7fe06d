import LastHero.Threads.System

/-! The events of DB_Thread carry only a slot number. They stay with the session that queued them
as long as no session ends while one of its events is queued or being handled. -/
namespace LastHero
variable {F : Type}

namespace World

/-- The events that DB_Thread has not finished. -/
def unfinished (w : World F) : List DBEvent := w.handling.toList ++ w.quaryQueue

/-- The slot of the event still belongs to the session that queued it. -/
structure Current (w : World F) (ev : DBEvent) : Prop where
  session : ev.session.isSome ∧ (w.client ev.userId).sock = ev.session
  present : (w.player ev.userId).isSome

/-- The step from `w` to `w'` handles `ev` for the session that queued it: it touches no other
player, creates none, and writes the experience of that player under the queued name. -/
structure Handles (ev : DBEvent) (w w' : World F) : Prop where
  current : w.Current ev
  others : ∀ i, i ≠ ev.userId → w'.player i = w.player i
  updates : ∃ new, w'.trace = w.trace ++ new ∧ ∀ uid name exp, .updateUser uid name exp ∈ new →
    uid = ev.userId ∧ name = ev.name ∧ (w.player ev.userId).map CPlayer.exp = some exp

/-- Free slots hold no player, connected ones a player and an open socket. -/
structure Linked (w : World F) : Prop where
  player : ∀ i, (w.player i).isSome = (w.client i).isconnected
  sock : ∀ i, (w.client i).sock.isSome = (w.client i).isconnected

/-- What keeps the events with their sessions. -/
structure DbInv (w : World F) : Prop extends Linked w where
  events : ∀ ev ∈ w.unfinished, w.Current ev

variable {w w' : World F} {i uid : Slot} {ev : DBEvent}

/-- Steps that neither connect nor disconnect. -/
structure SameSlots (w w' : World F) : Prop where
  client : w'.client = w.client
  player : ∀ i, (w'.player i).isSome = (w.player i).isSome

theorem Linked.mono (h : Linked w) (hs : SameSlots w w') : Linked w' :=
  ⟨fun i => by rw [hs.player, hs.client, h.player],fun i => by rw [hs.client, h.sock]⟩

theorem Current.mono (h : w.Current ev) (hs : SameSlots w w') : w'.Current ev :=
  ⟨by rw [hs.client]; exact h.session,by rw [hs.player]; exact h.present⟩

theorem Linked.current (h : Linked w) (hev : ev.session = (w.client ev.userId).sock)
    (hp : (w.player ev.userId).isSome) : w.Current ev :=
  ⟨⟨by rw [hev, h.sock, ← h.player]; exact hp,hev.symm⟩,hp⟩

theorem DbInv.mono (h : DbInv w) (hs : SameSlots w w')
    (hev : ∀ ev ∈ w'.unfinished, ev ∈ w.unfinished ∨
      ev.session = (w.client ev.userId).sock ∧ (w.player ev.userId).isSome) : DbInv w' := by
  refine ⟨h.toLinked.mono hs,fun ev hmem => ?_⟩
  cases hev ev hmem with
  | inl hold => exact (h.events ev hold).mono hs
  | inr hnew => exact (h.toLinked.current hnew.1 hnew.2).mono hs

theorem sameSlots_modifyPlayer (f : CPlayer F → CPlayer F) (w : World F) :
    SameSlots w (w.modifyPlayer i f) := by
  refine ⟨rfl,fun j => ?_⟩
  rw [modifyPlayer_player]
  split_ifs with h
  · rw [h, Option.isSome_map]
  · rfl

theorem SameSlots.trans {w'' : World F} (h : SameSlots w w') (h' : SameSlots w' w'') :
    SameSlots w w'' :=
  ⟨h'.client.trans h.client,fun i => (h'.player i).trans (h.player i)⟩

theorem Keeps.sameSlots (h : Keeps w w') : SameSlots w w' := ⟨h.client,h.isSome⟩

theorem Keeps.dbInv (h : Keeps w w') (hw : DbInv w) : DbInv w' := by
  refine hw.mono h.sameSlots fun ev hev => ?_
  obtain ⟨new,hq,hnew⟩ := h.quary
  rw [unfinished, h.handling, hq, ← List.append_assoc, List.mem_append] at hev
  exact hev.imp_right (hnew ev)

/-- A connection that changes only slot `i` is no business of the events of other slots. -/
theorem Current.of_ne (h : w.Current ev) (hne : ev.userId ≠ i) {p : Option (CPlayer F)}
    {c : ClientSlot} (hp : w'.player = Function.update w.player i p)
    (hc : w'.client = Function.update w.client i c) : w'.Current ev := by
  refine ⟨?_,?_⟩
  · rw [hc, Function.update_of_ne hne]
    exact h.session
  · rw [hp, Function.update_of_ne hne]
    exact h.present

theorem Linked.update (h : Linked w) {p : Option (CPlayer F)} {c : ClientSlot}
    (hp : w'.player = Function.update w.player i p)
    (hc : w'.client = Function.update w.client i c)
    (hpc : p.isSome = c.isconnected ∧ c.sock.isSome = c.isconnected) : Linked w' := by
  constructor
  · intro j
    rw [hp, hc]
    by_cases hj : j = i
    · rw [hj, Function.update_self, Function.update_self, hpc.1]
    · rw [Function.update_of_ne hj, Function.update_of_ne hj, h.player]
  · intro j
    rw [hc]
    by_cases hj : j = i
    · rw [hj, Function.update_self, hpc.2]
    · rw [Function.update_of_ne hj, h.sock]

theorem DbInv.accept (h : DbInv w) (heap : CPlayer F) : DbInv (w.accept heap) := by
  cases hi : w.freeSlot with
  | none => rw [accept_full heap hi]; exact h
  | some i =>
    have hp := accept_player heap hi
    have hc := accept_client heap hi
    refine ⟨h.toLinked.update hp hc ⟨rfl,rfl⟩,fun ev hev => ?_⟩
    have hold : ev ∈ w.unfinished := by
      unfold World.accept at hev
      rw [hi] at hev
      exact hev
    -- a free slot has no events
    have hne : ev.userId ≠ i := by
      rintro rfl
      have hpresent := (h.events ev hold).present
      rw [h.player, freeSlot_spec hi] at hpresent
      cases hpresent
    exact (h.events ev hold).of_ne hne hp hc

theorem DbInv.disconnect (h : DbInv w) (hd : w.disconnect uid = .ok w')
    (hno : ∀ ev ∈ w.unfinished, ev.userId ≠ uid) : DbInv w' := by
  obtain ⟨-,hp,hc,-,hq,hh,-⟩ := disconnect_spec hd
  refine ⟨h.toLinked.update hp hc ⟨rfl,rfl⟩,fun ev hev => ?_⟩
  have hold : ev ∈ w.unfinished := by
    unfold unfinished at hev
    rw [hq, hh] at hev
    exact hev
  exact (h.events ev hold).of_ne (hno ev hold) hp hc

theorem ensurePlayer_eq (heap : CPlayer F) (hp : (w.player uid).isSome) :
    w.ensurePlayer uid heap = w := by
  obtain ⟨p,hp⟩ := Option.isSome_iff_exists.mp hp
  simp only [ensurePlayer]
  rw [hp]

/-- A step without statements that only touches the player of the event. -/
theorem Current.handles (h : w.Current ev) (hp : ∀ i, i ≠ ev.userId → w'.player i = w.player i)
    (ht : ∃ new, w'.trace = w.trace ++ new ∧ ∀ uid name exp, .updateUser uid name exp ∉ new) :
    Handles ev w w' := by
  obtain ⟨new,ht,hnew⟩ := ht
  exact ⟨h,hp,new,ht,fun uid name exp hmem => absurd hmem (hnew uid name exp)⟩

/-- Taking an event from the queue leaves the others. -/
theorem unfinished_eq {queue : List DBEvent} (hh : w.handling = none) (hq : w.quaryQueue = ev::queue) :
    w.unfinished = ev::queue ∧ (w.setQuaryQueue queue).unfinished = queue := by
  constructor
  · rw [unfinished, hh, hq]
    rfl
  · change w.handling.toList ++ queue = queue
    rw [hh]
    rfl

theorem Current.takeLogin (h : w.Current ev) (heap : CPlayer F) :
    Handles ev w (w.takeLogin ev heap) ∧ SameSlots w (w.takeLogin ev heap) ∧
      (w.takeLogin ev heap).unfinished = ev::w.quaryQueue := by
  simp only [World.takeLogin]
  rw [ensurePlayer_eq heap h.present]
  refine ⟨h.handles (fun i hi => ?_) ⟨[],(List.append_nil _).symm,by simp⟩,?_,rfl⟩
  · exact modifyPlayer_of_ne hi
  · exact (sameSlots_modifyPlayer _ w).trans ⟨rfl,fun _ => rfl⟩

theorem Current.handleSign (h : w.Current ev) (outcome : Outcome) :
    Handles ev w (w.handleSign ev outcome) ∧ SameSlots w (w.handleSign ev outcome) ∧
      ∀ e ∈ (w.handleSign ev outcome).unfinished, e ∈ w.unfinished ∨
        e.session = (w.client e.userId).sock ∧ (w.player e.userId).isSome := by
  have hquiet : Handles ev w (w.handleSign ev outcome) ∧ SameSlots w (w.handleSign ev outcome) := by
    simp only [World.handleSign]
    split
    · exact ⟨h.handles (fun _ _ => rfl) ⟨[],(List.append_nil _).symm,by simp⟩,rfl,fun _ => rfl⟩
    · exact ⟨h.handles (fun _ _ => rfl) ⟨[],(List.append_nil _).symm,by simp⟩,rfl,fun _ => rfl⟩
  refine ⟨hquiet.1,hquiet.2,fun e he => ?_⟩
  unfold World.handleSign at he
  split at he
  · change e ∈ w.handling.toList ++ (w.quaryQueue ++ _) at he
    rw [← List.append_assoc, List.mem_append, List.mem_singleton] at he
    refine he.imp_right fun he => ?_
    subst he
    exact ⟨h.session.2.symm,h.present⟩
  · exact Or.inl he

theorem Current.handleUpdate (h : w.Current ev) : ∃ w', w.handleUpdate ev = .ok w' ∧
    Handles ev w w' ∧ SameSlots w w' ∧ w'.unfinished = w.unfinished := by
  obtain ⟨p,hp⟩ := Option.isSome_iff_exists.mp h.present
  simp only [World.handleUpdate, onPlayer]
  rw [hp]
  refine ⟨_,rfl,⟨h,fun _ _ => rfl,_,rfl,fun uid name exp hmem => ?_⟩,⟨rfl,fun _ => rfl⟩,rfl⟩
  rw [List.mem_singleton] at hmem
  cases hmem
  exact ⟨rfl,rfl,by rw [hp]; rfl⟩

/-- DB_Thread takes an event: it does not fail, and works for the session of the event. -/
theorem DbInv.take (h : DbInv w) {queue : List DBEvent} (hh : w.handling = none)
    (hq : w.quaryQueue = ev::queue) (outcome : Outcome) (heap : CPlayer F) :
    ∃ w', w.dbTake outcome heap = .ok w' ∧ Handles ev w w' ∧ DbInv w' := by
  obtain ⟨hun,hun'⟩ := unfinished_eq hh hq
  have hev : w.Current ev := h.events ev (by rw [hun]; exact List.mem_cons_self)
  have htail : ∀ e ∈ queue, e ∈ w.unfinished := fun e he => by
    rw [hun]; exact List.mem_cons_of_mem _ he
  have hpop : SameSlots w (w.setQuaryQueue queue) := ⟨rfl,fun _ => rfl⟩
  have hev' : (w.setQuaryQueue queue).Current ev := hev.mono hpop
  simp only [dbTake]
  rw [hh, hq]
  dsimp only
  cases ev.evId with
  | evLogin =>
    obtain ⟨⟨-,ho,ht⟩,hs,hl⟩ := hev'.takeLogin heap
    refine ⟨_,rfl,⟨hev,ho,ht⟩,h.mono (hpop.trans hs) fun e he => Or.inl ?_⟩
    rw [hl] at he
    rw [hun]
    exact he
  | evSign =>
    obtain ⟨⟨-,ho,ht⟩,hs,hl⟩ := hev'.handleSign outcome
    refine ⟨_,rfl,⟨hev,ho,ht⟩,h.mono (hpop.trans hs) fun e he => ?_⟩
    refine (hl e he).imp_left fun hold => ?_
    rw [hun'] at hold
    exact htail e hold
  | evUpdate =>
    obtain ⟨w',hw',⟨-,ho,ht⟩,hs,hl⟩ := hev'.handleUpdate
    refine ⟨w',hw',⟨hev,ho,ht⟩,h.mono (hpop.trans hs) fun e he => Or.inl ?_⟩
    rw [hl, hun'] at he
    exact htail e he

theorem sameSlots_timerEvent (e : Event) (now : ℕ) (w : World F) :
    SameSlots w (timerEvent e now w) ∧ (timerEvent e now w).unfinished = w.unfinished := by
  simp only [timerEvent]
  split
  · exact ⟨⟨rfl,fun _ => rfl⟩,rfl⟩
  · exact ⟨⟨rfl,fun _ => rfl⟩,rfl⟩
  · exact ⟨sameSlots_modifyPlayer _ w,rfl⟩

section Steps
variable [FloatArith F]

theorem DbInv.finish (h : DbInv w) (hh : w.handling = some ev) (outcome : Outcome)
    (heap : CPlayer F) (now : ℕ) :
    Handles ev w (w.dbFinish outcome heap now) ∧ DbInv (w.dbFinish outcome heap now) := by
  have hun : w.unfinished = ev::w.quaryQueue := by rw [unfinished, hh]; rfl
  have hev : w.Current ev := h.events ev (by rw [hun]; exact List.mem_cons_self)
  have hqueue : ∀ e ∈ w.quaryQueue, e ∈ w.unfinished := fun e he => by
    rw [hun]; exact List.mem_cons_of_mem _ he
  simp only [dbFinish]
  rw [hh]
  cases outcome with
  | fail | noRow =>
    refine ⟨hev.handles (fun _ _ => rfl) ⟨_,rfl,by simp⟩,?_⟩
    exact h.mono ⟨rfl,fun _ => rfl⟩ fun e he => Or.inl (hqueue e he)
  | row r =>
    dsimp only
    simp only [loadPlayer]
    have hset : (w.setHandling none).Current ev := hev.mono ⟨rfl,fun _ => rfl⟩
    rw [ensurePlayer_eq heap hset.present]
    constructor
    · refine hev.handles (fun i hi => ?_) ⟨_,rfl,by simp⟩
      exact modifyPlayer_of_ne (w := (w.setHandling none).renew ev.userId) hi
    · have hmod := sameSlots_modifyPlayer (i := ev.userId) (fun p =>
        { p.initializePlayer r.hp r.oType r.exp r.level r.mp now with state := .inGame })
        ((w.setHandling none).renew ev.userId)
      exact h.mono ⟨hmod.client,hmod.player⟩ fun e he => Or.inl (hqueue e he)

/-- No session ends before DB_Thread has finished its events. -/
def Undisturbed (w : World F) : Input F → Prop
  | .disconnect uid => ∀ ev ∈ w.unfinished, ev.userId ≠ uid
  | _ => True

theorem DbInv.next {a : Input F} (h : DbInv w) (ha : w.Undisturbed a)
    (hstep : w.next a = some w') : DbInv w' := by
  cases a with
  | accept heap =>
    cases hstep
    exact h.accept heap
  | disconnect uid => exact h.disconnect (toOption_eq_some hstep) ha
  | packet uid buf now =>
    exact (keeps_next (a := .packet uid buf now) trivial hstep).dbInv h
  | login uid id password character =>
    exact (keeps_next (a := .login uid id password character) trivial hstep).dbInv h
  | levelUp uid =>
    exact (keeps_next (a := .levelUp uid) trivial hstep).dbInv h
  | dbTake outcome heap =>
    have hok := toOption_eq_some hstep
    cases dbTake_cases hok with
    | inl hidle =>
      rw [hidle]
      exact h
    | inr htake =>
      obtain ⟨ev,queue,hh,hq,-⟩ := htake
      obtain ⟨v,hv,-,hinv⟩ := h.take hh hq outcome heap
      obtain rfl : v = w' := Except.ok.inj (hv.symm.trans hok)
      exact hinv
  | dbFinish outcome heap now =>
    cases hstep
    cases hh : w.handling with
    | none =>
      rw [dbFinish_idle outcome heap now hh]
      exact h
    | some ev => exact (h.finish hh outcome heap now).2
  | timer k now =>
    obtain ⟨e,-,rfl⟩ := timerThread_spec hstep
    obtain ⟨hs,hun⟩ := sameSlots_timerEvent e now (w.setTimerQueue (w.timerQueue.eraseIdx k))
    refine h.mono ⟨hs.client,hs.player⟩ fun ev hev => Or.inl ?_
    rw [hun] at hev
    exact hev

theorem start_dbInv : DbInv (start : World F) := by
  refine (quiet_start (F := F)).toKeeps.dbInv ⟨⟨fun _ => rfl,fun _ => rfl⟩,fun ev hev => ?_⟩
  cases hev

/-- Whatever DB_Thread does next, it does for the session that asked for it. -/
def DbSafe (w : World F) : Prop :=
  (∀ ev queue outcome heap, w.handling = none → w.quaryQueue = ev::queue →
    ∃ w', w.dbTake outcome heap = .ok w' ∧ Handles ev w w') ∧
  ∀ ev outcome heap now, w.handling = some ev → Handles ev w (w.dbFinish outcome heap now)

theorem DbInv.safe (h : DbInv w) : DbSafe w := by
  constructor
  · intro ev queue outcome heap hh hq
    obtain ⟨w',hw',hhandles,-⟩ := h.take hh hq outcome heap
    exact ⟨w',hw',hhandles⟩
  · intro ev outcome heap now hh
    exact (h.finish hh outcome heap now).1

/-- In every state that a run reaches without ending a session whose events are unfinished, the
next event is handled for the session that queued it. -/
theorem db_events_stay (as : List (Input F)) (h : Runs.run next start as = some w)
    (hok : Runs.Along next Undisturbed start as) : DbSafe w :=
  Runs.invariant (fun _ _ _ hs hq ht => hs.next hq ht) start_dbInv hok h |>.safe

end Steps

/-- A login that waits for DB_Thread while its session goes on. -/
theorem db_events_stay_login : ∃ w : World ℚ,
    Runs.run next start [.accept zeroPlayer,.login 0 [97] [98] 0] = some w ∧
      w.quaryQueue ≠ [] ∧ DbSafe w := by
  refine ⟨_,rfl,List.cons_ne_nil _ _,?_⟩
  apply db_events_stay [.accept zeroPlayer,.login 0 [97] [98] 0] rfl
  exact fun _ _ => ⟨trivial,fun _ _ => ⟨trivial,trivial⟩⟩

/-- A client logs in and leaves before DB_Thread takes its event: DB_Thread then puts a player
into the free slot. -/
theorem db_event_outlives_session : ∃ (as : List (Input ℚ)) (w : World ℚ),
    Runs.run next start as = some w ∧ ¬ DbSafe w := by
  refine ⟨[.accept zeroPlayer,.login 0 [97] [98] 0,.disconnect 0],_,rfl,fun hsafe => ?_⟩
  obtain ⟨w',-,hhandles⟩ := hsafe.1 _ [] .fail zeroPlayer rfl rfl
  exact absurd hhandles.current.present Bool.false_ne_true

end World

end LastHero
