import LastHero.Game.Frame
import LastHero.Support.Runs

/-! The server as a transition system: accepted and closed connections, client packets,
DB_Thread and TimerThread in any order. A step that ends the process is disabled. -/
namespace LastHero
variable {F : Type}

namespace World
variable {w w' : World F} {i uid : Slot}

theorem freeSlot_spec (h : w.freeSlot = some i) : (w.client i).isconnected = false := by
  simpa using List.find?_some h

/-- An accepted connection gets its player in a slot that was free. -/
theorem accept_player (heap : CPlayer F) (h : w.freeSlot = some i) :
    (w.accept heap).player = Function.update w.player i (some (CPlayer.new heap)) := by
  simp only [accept]
  rw [h]
  rfl

theorem accept_client (heap : CPlayer F) (h : w.freeSlot = some i) :
    (w.accept heap).client =
      Function.update w.client i ⟨true,some w.accepted,(w.client i).recv.accept⟩ := by
  simp only [accept]
  rw [h]
  rfl

theorem accept_full (heap : CPlayer F) (h : w.freeSlot = none) : w.accept heap = w := by
  simp only [accept]
  rw [h]

/-- What Disconnect leaves behind. -/
theorem disconnect_spec (h : w.disconnect uid = .ok w') :
    (w.player uid).isSome ∧ w'.player = Function.update w.player uid none ∧
      w'.client = Function.update w.client uid
        { w.client uid with isconnected := false, sock := none } ∧
      w'.timerQueue = w.timerQueue ∧ w'.quaryQueue = w.quaryQueue ∧ w'.handling = w.handling ∧
      w'.era = Function.update w.era uid (w.era uid+1) := by
  unfold disconnect at h
  split at h
  · cases h
  · rename_i p hp
    cases h
    exact ⟨Option.isSome_of_mem hp,rfl,rfl,rfl,rfl,rfl,rfl⟩

/-- Disconnect returns when there is a player. -/
theorem disconnect_some (h : (w.player uid).isSome) : ∃ w', w.disconnect uid = .ok w' := by
  obtain ⟨p,hp⟩ := Option.isSome_iff_exists.mp h
  simp only [disconnect]
  rw [hp]
  exact ⟨_,rfl⟩

/-- TimerThread takes a due event and lets it act. -/
theorem timerThread_spec {k now : ℕ} (h : w.timerThread k now = some w') :
    ∃ ev, w.Due k now ev ∧ w' = timerEvent ev now (w.setTimerQueue (w.timerQueue.eraseIdx k)) := by
  unfold timerThread at h
  split at h
  · cases h
  · rename_i ev _
    split_ifs at h with hdue
    cases h
    exact ⟨ev,hdue,rfl⟩

theorem handleSign_spec (ev : DBEvent) (outcome : Outcome) (w : World F) :
    ∃ queue, w.handleSign ev outcome = w.setQuaryQueue queue := by
  simp only [handleSign]
  split
  · exact ⟨_,rfl⟩
  · exact ⟨w.quaryQueue,rfl⟩

/-- DB_Thread is idle, or takes an event: a login up to its statement, or another event that
changes no more than the queue and the database. -/
theorem dbTake_cases {outcome : Outcome} {heap : CPlayer F}
    (h : w.dbTake outcome heap = .ok w') :
    w' = w ∨ ∃ ev queue, w.handling = none ∧ w.quaryQueue = ev::queue ∧
      (w' = (w.setQuaryQueue queue).takeLogin ev heap ∨ (∃ queue', w' = w.setQuaryQueue queue') ∨
        ∃ exp, w' = (w.setQuaryQueue queue).record (.updateUser ev.userId ev.name exp)) := by
  unfold dbTake at h
  split at h
  · rename_i ev queue hh hq
    refine Or.inr ⟨ev,queue,hh,hq,?_⟩
    dsimp only at h
    split at h
    · cases h
      exact Or.inl rfl
    · cases h
      obtain ⟨queue',hsign⟩ := handleSign_spec ev outcome (w.setQuaryQueue queue)
      exact Or.inr (Or.inl ⟨queue',hsign⟩)
    · obtain ⟨p,-,rfl⟩ := onPlayer_spec h
      exact Or.inr (Or.inr ⟨p.exp,rfl⟩)
  · cases h
    exact Or.inl rfl

theorem dbFinish_idle [FloatArith F] (outcome : Outcome) (heap : CPlayer F) (now : ℕ)
    (h : w.handling = none) : w.dbFinish outcome heap now = w := by
  simp only [dbFinish]
  rw [h]

/-- The player after a login, a new one if the slot was empty. -/
theorem loadPlayer_player [FloatArith F] (uid : Slot) (r : Row) (heap : CPlayer F) (now : ℕ)
    (w : World F) : (w.loadPlayer uid r heap now).player uid =
      some { ((w.player uid).getD (CPlayer.new heap)).initializePlayer r.hp r.oType r.exp r.level
        r.mp now with state := .inGame } := by
  have hplayer : (w.ensurePlayer uid heap).player uid =
      some ((w.player uid).getD (CPlayer.new heap)) := by
    simp only [ensurePlayer]
    split
    · rename_i p hp
      rw [hp, Option.getD_some]
    · rename_i hnone
      rw [hnone, Option.getD_none]
      exact Function.update_self ..
  exact modifyPlayer_self (w := (w.ensurePlayer uid heap).renew uid) _ hplayer

theorem ensurePlayer_timerQueue (uid : Slot) (heap : CPlayer F) (w : World F) :
    (w.ensurePlayer uid heap).timerQueue = w.timerQueue := by
  simp only [ensurePlayer]
  split
  · rfl
  · rfl

theorem loadPlayer_timerQueue [FloatArith F] (uid : Slot) (r : Row) (heap : CPlayer F) (now : ℕ)
    (w : World F) : (w.loadPlayer uid r heap now).timerQueue = w.timerQueue :=
  ensurePlayer_timerQueue uid heap w

theorem era_le_renew (uid : Slot) (w : World F) : w.era ≤ (w.renew uid).era := by
  intro i
  by_cases hi : i = uid
  · subst hi
    exact (Nat.le_succ _).trans (Function.update_self (f := w.era) ..).ge
  · exact (Function.update_of_ne (f := w.era) hi ..).ge

theorem era_le_ensurePlayer (uid : Slot) (heap : CPlayer F) (w : World F) :
    w.era ≤ (w.ensurePlayer uid heap).era := by
  simp only [ensurePlayer]
  split
  · exact le_rfl
  · exact era_le_renew uid _

/-- What a count of pending events loses with the event that TimerThread takes. -/
theorem Due.countP {k now : ℕ} {ev : Event} (h : w.Due k now ev) (f : Event → Bool) :
    w.timerQueue.countP f = (w.timerQueue.eraseIdx k).countP f + if f ev then 1 else 0 := by
  obtain ⟨hk,rfl⟩ := List.getElem?_eq_some_iff.mp h.1
  rw [← (List.getElem_cons_eraseIdx_perm hk).countP_eq, List.countP_cons]

theorem Due.countKey {k now : ℕ} {ev : Event} (h : w.Due k now ev) (key : EventKey) :
    w.timerQueue.countP (fun e => e.key = key) =
      (w.timerQueue.eraseIdx k).countP (fun e => e.key = key) + if ev.key = key then 1 else 0 := by
  rw [h.countP]
  simp only [decide_eq_true_eq]

end World

/-- What one of the threads does next, with what it finds outside the server. -/
inductive Input (F : Type)
  | accept (heap : CPlayer F)
  | disconnect (uid : Slot)
  | packet (uid : Slot) (buf : Buffer) (now : Now)
  /-- Login by itself, before the EnterGame that follows it in a packet -/
  | login (uid : Slot) (id password : List Byte) (character : ℤ)
  /-- LevelUp by itself, whatever the experience -/
  | levelUp (uid : Slot)
  | dbTake (outcome : World.Outcome) (heap : CPlayer F)
  | dbFinish (outcome : World.Outcome) (heap : CPlayer F) (now : ℕ)
  | timer (k now : ℕ)

namespace World
variable [FloatArith F]

def next (w : World F) : Input F → Option (World F)
  | .accept heap => some (w.accept heap)
  | .disconnect uid => (w.disconnect uid).toOption
  | .packet uid buf now => (w.processPacket uid buf now).toOption
  | .login uid id password character => (w.login uid id password character).toOption
  | .levelUp uid => if (w.player uid).isSome then some (w.levelUp uid) else none
  | .dbTake outcome heap => (w.dbTake outcome heap).toOption
  | .dbFinish outcome heap now => some (w.dbFinish outcome heap now)
  | .timer k now => w.timerThread k now

/-- The state in which main starts the threads. -/
def start : World F := empty.createMonsters

variable {w w' : World F} {i uid : Slot}

omit [FloatArith F] in
theorem onPlayer_map_spec {α : Type} {f : CPlayer F → World F → World F} {g : World F → α} {a : α}
    (h : (w.onPlayer uid f).toOption.map g = some a) :
    ∃ p, w.player uid = some p ∧ a = g (f p w) := by
  obtain ⟨w',hok,rfl⟩ := Option.map_eq_some_iff.mp h
  obtain ⟨p,hp,rfl⟩ := onPlayer_spec (toOption_eq_some hok)
  exact ⟨p,hp,rfl⟩

/-- The steps of client packets. -/
def Input.IsPacket : Input F → Prop
  | .packet .. | .login .. | .levelUp .. => True
  | _ => False

theorem keeps_next {a : Input F} (ha : Input.IsPacket a) (h : w.next a = some w') :
    Keeps w w' := by
  cases a with
  | packet uid buf now => exact keeps_processPacket (toOption_eq_some h)
  | login uid id password character => exact (quiet_login (toOption_eq_some h)).toKeeps
  | levelUp uid =>
    rw [next] at h
    split_ifs at h
    cases h
    exact (Quiet.refl w).levelUp.toKeeps
  | accept | disconnect | dbTake | dbFinish | timer => exact ha.elim

theorem quiet_spawnMonster (w : World F) (s : MonsterId × ℚ × ℚ × ℚ × ℤ) :
    Quiet w (spawnMonster w s) :=
  (Quiet.refl w).setMonster.addTimer (by simp)

theorem quiet_foldl_spawnMonster (l : List (MonsterId × ℚ × ℚ × ℚ × ℤ)) (w : World F) :
    Quiet w (l.foldl spawnMonster w) :=
  KeyedFold.foldl_related .refl .trans quiet_spawnMonster l w

theorem quiet_start : Quiet (empty : World F) start := by
  simp only [start, createMonsters]
  generalize spawns = l
  refine Quiet.trans ?_ (quiet_foldl_spawnMonster l _)
  exact (Quiet.refl empty).setBoss.addTimer (by simp)

theorem start_player (i : Slot) : (start : World F).player i = none := by
  rw [← Option.not_isSome_iff_eq_none, quiet_start.toKeeps.isSome i]
  exact Bool.false_ne_true

/-- TimerThread has no player event when the threads start. -/
theorem start_timers (e : Event) (he : e ∈ (start : World F).timerQueue) (kind : OffEvent)
    (i : Slot) : e.key ≠ .off kind i := by
  unfold start createMonsters at he
  generalize spawns = l at he
  revert e
  apply List.foldlRecOn (motive := fun w : World F => ∀ e ∈ w.timerQueue, e.key ≠ .off kind i) l
  · intro e he
    rw [List.mem_singleton.mp he]
    simp
  · intro w hw s _ e he
    cases List.mem_append.mp he with
    | inl he => exact hw e he
    | inr he =>
      rw [List.mem_singleton.mp he]
      simp

end World

/-- A packet without fields. -/
def shortPacket (t : CsType) : Buffer := Buffer.zero.fill [2,Int8.ofInt t.code]

theorem processPacket_shortPacket [FloatArith F] (t : CsType) (id : Slot) (now : Now)
    (w : World F) :
    w.processPacket id (shortPacket t) now = w.onType t id (shortPacket t) now := by
  have hbyte : CsType.ofByte ((shortPacket t).byteAt 1) = some t := t.ofByte_code
  simp only [World.processPacket]
  rw [hbyte]

end LastHero
