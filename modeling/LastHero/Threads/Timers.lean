import LastHero.Threads.System

/-! The events that end a skill carry only a slot number. They reach the player that used the
skill as long as no slot gets a new or reinitialised player while such an event is pending. -/
namespace LastHero
variable {F : Type}

namespace World

/-- No skill of the slot is waiting for its end. -/
def NoTimers (w : World F) (i : Slot) : Prop := ∀ e ∈ w.timerQueue, ∀ kind, e.key ≠ .off kind i

/-- The slot that a step gives a new or reinitialised player. -/
def renews (w : World F) : Input F → Option Slot
  | .accept _ => w.freeSlot
  | .dbTake _ _ =>
    match w.handling, w.quaryQueue with
    | none, ev::_ =>
      if ev.evId = .evLogin ∧ (w.player ev.userId).isNone then some ev.userId else none
    | _, _ => none
  | .dbFinish (.row _) _ _ => w.handling.map DBEvent.userId
  | _ => none

/-- Players are only created or initialised in slots without pending events. -/
def Settled (w : World F) (a : Input F) : Prop := ∀ i, w.renews a = some i → w.NoTimers i

/-- Pending events belong to the players that are there, and attack points are above their
initial value by the bonuses that are still to be taken back. -/
structure TimerInv (w : World F) : Prop where
  era : ∀ e ∈ w.timerQueue, ∀ kind i, e.key = .off kind i → (w.player i).isSome → e.era = w.era i
  atk : ∀ i p, w.player i = some p → p.state = .inGame →
    initialAtkPoint ≤ p.atkPoint - 2*w.berserks i

/-- An event of TimerThread only changes the incarnation that scheduled it, and attack points
are never below their initial value. -/
def TimerSafe (w : World F) : Prop :=
  (∀ k now ev w', w.Due k now ev → w.timerThread k now = some w' →
    ∀ i, w'.player i ≠ w.player i → ∃ kind, ev.key = .off kind i ∧ ev.era = w.era i) ∧
  ∀ i p, w.player i = some p → p.state = .inGame → initialAtkPoint ≤ p.atkPoint

variable {w w' : World F} {i uid : Slot} {ev : Event} {k now : ℕ}

theorem Keeps.timerInv (h : Keeps w w') (hw : TimerInv w) : TimerInv w' := by
  constructor
  · intro e he kind i hk hi
    obtain ⟨new,ht,hnew⟩ := h.timers
    rw [h.isSome] at hi
    rw [h.era]
    rw [ht, List.mem_append] at he
    cases he with
    | inl he => exact hw.era e he kind i hk hi
    | inr he => exact hnew e he kind i hk
  · intro i p' hp' hstate
    obtain ⟨p,hp,hle⟩ := h.atk i p' hp'
    have hsame := h.state i
    rw [hp', hp, Option.map_some, Option.map_some, Option.some.injEq] at hsame
    exact (hw.atk i p hp (hsame ▸ hstate)).trans hle

theorem NoTimers.berserks (h : w.NoTimers i) : w.berserks i = 0 := by
  simp only [World.berserks]
  rw [List.countP_eq_zero]
  intro e he
  simpa using h e he _

/-- A step that changes one slot, without pending events or by removing its player. -/
theorem TimerInv.update (h : TimerInv w) (ht : w'.timerQueue = w.timerQueue)
    (hp : ∀ j, j ≠ i → w'.player j = w.player j) (he : ∀ j, j ≠ i → w'.era j = w.era j)
    (hi : ∀ p, w'.player i = some p → w.NoTimers i ∧
      (p.state = .inGame → initialAtkPoint ≤ p.atkPoint)) : TimerInv w' := by
  constructor
  · intro e hmem kind j hk hj
    rw [ht] at hmem
    by_cases hji : j = i
    · subst hji
      obtain ⟨p,hp'⟩ := Option.isSome_iff_exists.mp hj
      exact absurd hk ((hi p hp').1 e hmem kind)
    · rw [hp j hji] at hj
      rw [he j hji]
      exact h.era e hmem kind j hk hj
  · intro j p hj hstate
    have hcount : w'.berserks j = w.berserks j := by unfold World.berserks; rw [ht]
    rw [hcount]
    by_cases hji : j = i
    · subst hji
      obtain ⟨hno,hatk⟩ := hi p hj
      rw [hno.berserks]
      simpa using hatk hstate
    · exact h.atk j p (hp j hji ▸ hj) hstate

/-- A step that keeps the players' states and attack points, the timers and incarnations. -/
theorem TimerInv.mono (h : TimerInv w) (ht : w'.timerQueue = w.timerQueue) (he : w'.era = w.era)
    (hp : ∀ i, (w'.player i).map (fun p => (p.state,p.atkPoint)) =
      (w.player i).map (fun p => (p.state,p.atkPoint))) : TimerInv w' := by
  constructor
  · intro e hmem kind i hk hi
    rw [← Option.isSome_map (f := fun p : CPlayer F => (p.state,p.atkPoint)), hp,
      Option.isSome_map] at hi
    rw [ht] at hmem
    rw [he]
    exact h.era e hmem kind i hk hi
  · intro i p' hp' hstate
    have hi := hp i
    rw [hp', Option.map_some, eq_comm, Option.map_eq_some_iff] at hi
    obtain ⟨p,hp,heq⟩ := hi
    rw [Prod.mk.injEq] at heq
    have hcount : w'.berserks i = w.berserks i := by unfold World.berserks; rw [ht]
    rw [hcount, ← heq.2]
    exact h.atk i p hp (heq.1.trans hstate)

theorem TimerInv.accept (h : TimerInv w) (heap : CPlayer F)
    (hno : ∀ i, w.freeSlot = some i → w.NoTimers i) : TimerInv (w.accept heap) := by
  cases hi : w.freeSlot with
  | none => rw [accept_full heap hi]; exact h
  | some i =>
    have hp := accept_player heap hi
    have he : (w.accept heap).timerQueue = w.timerQueue ∧
        (w.accept heap).era = Function.update w.era i (w.era i+1) := by
      simp only [World.accept]
      rw [hi]
      exact ⟨rfl,rfl⟩
    refine h.update (i := i) he.1 (fun j hj => ?_) (fun j hj => ?_) fun p hp' => ⟨hno i hi,?_⟩
    · rw [hp, Function.update_of_ne hj]
    · rw [he.2, Function.update_of_ne hj]
    · rw [hp, Function.update_self, Option.some.injEq] at hp'
      subst hp'
      intro hstate
      cases hstate

theorem TimerInv.disconnect (h : TimerInv w) (hd : w.disconnect uid = .ok w') : TimerInv w' := by
  obtain ⟨-,hp,-,ht,-,-,he⟩ := disconnect_spec hd
  refine h.update (i := uid) ht (fun j hj => ?_) (fun j hj => ?_) fun p hp' => ?_
  · rw [hp, Function.update_of_ne hj]
  · rw [he, Function.update_of_ne hj]
  · rw [hp, Function.update_self] at hp'
    cases hp'

theorem TimerInv.ensurePlayer (h : TimerInv w) (uid : Slot) (heap : CPlayer F)
    (hno : w.player uid = none → w.NoTimers uid) : TimerInv (w.ensurePlayer uid heap) := by
  simp only [World.ensurePlayer]
  split
  · exact h
  · rename_i hnone
    refine h.update (i := uid) rfl (fun j hj => ?_) (fun j hj => ?_) fun p hp =>
      ⟨hno hnone,?_⟩
    · exact Function.update_of_ne hj ..
    · exact Function.update_of_ne hj ..
    · unfold World.renew World.setPlayer at hp
      dsimp only at hp
      rw [Function.update_self, Option.some.injEq] at hp
      subst hp
      intro hstate
      cases hstate

theorem TimerInv.take (h : TimerInv w) {ev : DBEvent} {queue : List DBEvent}
    {outcome : Outcome} {heap : CPlayer F} (hh : w.handling = none) (hq : w.quaryQueue = ev::queue)
    (hno : ev.evId = .evLogin → w.player ev.userId = none → w.NoTimers ev.userId)
    (hok : w.dbTake outcome heap = .ok w') : TimerInv w' := by
  have hpop : TimerInv (w.setQuaryQueue queue) := h.mono rfl rfl fun _ => rfl
  unfold dbTake at hok
  rw [hh, hq] at hok
  dsimp only at hok
  cases hid : ev.evId with
  | evLogin =>
    rw [hid] at hok
    cases hok
    refine (hpop.ensurePlayer ev.userId heap (hno hid)).mono rfl rfl fun i => ?_
    exact map_modifyPlayer (f := CPlayer.setCredentials ev.name ev.pass) (fun _ => rfl) _ ev.userId i
  | evSign =>
    rw [hid] at hok
    cases hok
    simp only [handleSign]
    split
    · exact hpop.mono rfl rfl fun _ => rfl
    · exact hpop
  | evUpdate =>
    rw [hid] at hok
    dsimp only at hok
    obtain ⟨p,-,rfl⟩ := onPlayer_spec hok
    exact hpop.mono rfl rfl fun _ => rfl

theorem TimerInv.finish (h : TimerInv w) {ev : DBEvent} (hh : w.handling = some ev)
    (outcome : Outcome) (heap : CPlayer F) (now : ℕ) [FloatArith F]
    (hno : ∀ r, outcome = .row r → w.NoTimers ev.userId) :
    TimerInv (w.dbFinish outcome heap now) := by
  have hset : TimerInv (w.setHandling none) := h.mono rfl rfl fun _ => rfl
  simp only [dbFinish]
  rw [hh]
  cases outcome with
  | fail | noRow => exact hset.mono rfl rfl fun _ => rfl
  | row r =>
    have hclear := hno r rfl
    have hp : TimerInv ((w.setHandling none).ensurePlayer ev.userId heap) :=
      hset.ensurePlayer ev.userId heap fun _ => hclear
    have hq : ((w.setHandling none).ensurePlayer ev.userId heap).timerQueue = w.timerQueue := by
      simp only [World.ensurePlayer]
      split <;> rfl
    dsimp only
    simp only [loadPlayer]
    refine hp.update (i := ev.userId) rfl (fun j hj => ?_) (fun j hj => ?_) fun p hp' => ⟨?_,?_⟩
    · exact (modifyPlayer_player ..).trans (if_neg hj)
    · exact Function.update_of_ne hj ..
    · intro e he
      rw [hq] at he
      exact hclear e he
    · intro _
      have hmod := (modifyPlayer_player ev.userId ev.userId (fun p : CPlayer F =>
        { p.initializePlayer r.hp r.oType r.exp r.level r.mp now with state := .inGame })
        (((w.setHandling none).ensurePlayer ev.userId heap).renew ev.userId)).symm.trans hp'
      rw [if_pos rfl, Option.map_eq_some_iff] at hmod
      obtain ⟨q,-,rfl⟩ := hmod
      exact le_rfl

/-- Taking an event out of the queue leaves one berserk less when it is one. -/
theorem Due.berserks (h : w.Due k now ev) (i : Slot) :
    w.berserks i = (w.setTimerQueue (w.timerQueue.eraseIdx k)).berserks i +
      if ev.key = .off .evBerserk i then 1 else 0 := h.countKey _

theorem skillOff_state (kind : OffEvent) (now : ℕ) (p : CPlayer F) :
    (p.skillOff kind now).state = p.state ∧
      (p.skillOff kind now).atkPoint = p.atkPoint - if kind = .evBerserk then 2 else 0 := by
  cases kind with
  | evBerserk => exact ⟨rfl,rfl⟩
  | evAtkOff | evGuardOff | evEvadeOff | evAssOff => exact ⟨rfl,(sub_zero _).symm⟩

theorem TimerInv.timer (h : TimerInv w) (hdue : w.Due k now ev) :
    TimerInv (timerEvent ev now (w.setTimerQueue (w.timerQueue.eraseIdx k))) := by
  have hmem : ∀ e ∈ w.timerQueue.eraseIdx k, e ∈ w.timerQueue := fun e he =>
    List.mem_of_mem_eraseIdx he
  have hcount := hdue.berserks
  cases hkey : ev.key with
  | evBoss | evMonster id =>
    simp only [timerEvent]
    rw [hkey]
    refine ⟨fun e he => h.era e (hmem e he),fun i p hp hstate => ?_⟩
    have hle := h.atk i p hp hstate
    have hi := hcount i
    rw [hkey, if_neg (by simp), add_zero] at hi
    rw [hi] at hle
    exact hle
  | off kind id =>
    simp only [timerEvent]
    rw [hkey]
    constructor
    · intro e he kind' i hk hi
      refine h.era e (hmem e he) kind' i hk ?_
      rwa [← Option.isSome_map (f := CPlayer.state), map_modifyPlayer
        (fun p => (skillOff_state kind now p).1), Option.isSome_map] at hi
    · intro i p' hp' hstate
      have hi := hcount i
      rw [hkey] at hi
      change (modifyPlayer id (CPlayer.skillOff kind now) _).player i = some p' at hp'
      rw [modifyPlayer_player] at hp'
      change _ ≤ p'.atkPoint - 2*(((w.setTimerQueue (w.timerQueue.eraseIdx k)).berserks i : ℕ) : ℤ)
      split_ifs at hp' with hid
      · obtain ⟨p,hp,rfl⟩ := Option.map_eq_some_iff.mp hp'
        obtain ⟨hs,hatk⟩ := skillOff_state kind now p
        have hle := h.atk i p (hid ▸ hp) (hs ▸ hstate)
        rw [hatk]
        rw [hi] at hle
        subst hid
        by_cases hkind : kind = .evBerserk
        · rw [if_pos (by rw [hkind])] at hle
          rw [if_pos hkind]
          push_cast at hle
          omega
        · rw [if_neg (by simpa using hkind)] at hle
          rw [if_neg hkind]
          simpa using hle
      · have hle := h.atk i p' hp' hstate
        rw [if_neg (by simp [Ne.symm hid]), add_zero] at hi
        rwa [hi] at hle

theorem timerEvent_player (ev : Event) (now : ℕ) (w : World F)
    (h : (timerEvent ev now w).player i ≠ w.player i) :
    (w.player i).isSome ∧ ∃ kind, ev.key = .off kind i := by
  unfold timerEvent at h
  split at h
  · exact absurd rfl h
  · exact absurd rfl h
  · rename_i kind id hkey
    rw [modifyPlayer_player] at h
    split_ifs at h with hid
    · subst hid
      refine ⟨?_,kind,hkey⟩
      by_contra hnone
      rw [Option.not_isSome_iff_eq_none] at hnone
      rw [hnone] at h
      exact h rfl
    · exact absurd rfl h

theorem TimerInv.safe (h : TimerInv w) : TimerSafe w := by
  constructor
  · intro k now ev w' hdue hstep i hi
    obtain ⟨ev',hdue',rfl⟩ := timerThread_spec hstep
    obtain rfl : ev = ev' := Option.some.inj (hdue.1.symm.trans hdue'.1)
    obtain ⟨hsome,kind,hkey⟩ := timerEvent_player ev now _ hi
    exact ⟨kind,hkey,h.era ev (List.mem_of_getElem? hdue.1) kind i hkey hsome⟩
  · intro i p hp hstate
    have hle := h.atk i p hp hstate
    omega

section Steps
variable [FloatArith F]

theorem TimerInv.next {a : Input F} (h : TimerInv w) (ha : w.Settled a)
    (hstep : w.next a = some w') : TimerInv w' := by
  cases a with
  | accept heap =>
    cases hstep
    exact h.accept heap ha
  | disconnect uid => exact h.disconnect (toOption_eq_some hstep)
  | packet uid buf now =>
    exact (keeps_next (a := .packet uid buf now) trivial hstep).timerInv h
  | login uid id password character =>
    exact (keeps_next (a := .login uid id password character) trivial hstep).timerInv h
  | levelUp uid => exact (keeps_next (a := .levelUp uid) trivial hstep).timerInv h
  | dbTake outcome heap =>
    have hok := toOption_eq_some hstep
    cases dbTake_cases hok with
    | inl hidle =>
      rw [hidle]
      exact h
    | inr htake =>
      obtain ⟨ev,queue,hh,hq,-⟩ := htake
      refine h.take hh hq (fun hid hnone => ha _ ?_) hok
      simp only [renews]
      rw [hh, hq]
      exact if_pos ⟨hid,by rw [hnone]; rfl⟩
  | dbFinish outcome heap now =>
    cases hstep
    cases hh : w.handling with
    | none =>
      rw [dbFinish_idle outcome heap now hh]
      exact h
    | some ev =>
      refine h.finish hh outcome heap now fun r hr => ha _ ?_
      subst hr
      simp only [renews]
      rw [hh, Option.map_some]
  | timer k now =>
    obtain ⟨ev,hdue,rfl⟩ := timerThread_spec hstep
    exact h.timer hdue

end Steps

end World

end LastHero
