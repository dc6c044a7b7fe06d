import LastHero.Support.PriorityQueue
import LastHero.Support.Runs
import LastHero.Threads.System

/-! The order in which TimerThread takes the timers. AddTimer and the iterations of its inner loop
hold timerLock, so that they come one after another. -/
namespace LastHero

/-- Event -/
structure TimerEvent where
  objID : ℤ
  eventID : ℤ
  wakeupTime : ℕ
  targetID : ℤ
  deriving DecidableEq, Repr

namespace TimerEvent

/-- `operator<` -/
def lt (e f : TimerEvent) : Prop := f.wakeupTime < e.wakeupTime

instance : IsStrictOrder TimerEvent lt where
  irrefl e := lt_irrefl e.wakeupTime
  trans _ _ _ hef hfg := Nat.lt_trans hfg hef

end TimerEvent

/-- How the last step ended. -/
inductive Dispatched
  | added
  /-- the inner loop has ended -/
  | ended
  | popped (n : ℕ) (ev : TimerEvent)

/-- The queue, each event with the number of its AddTimer. -/
structure Dispatcher where
  timerQueue : List (ℕ × TimerEvent)
  /-- what the clock last showed -/
  clock : ℕ
  /-- history: the calls of AddTimer -/
  added : ℕ
  /-- history: the events that were popped, and when -/
  popped : List ((ℕ × TimerEvent) × ℕ)
  last : Dispatched

inductive DispatchInput
  | addTimer (oid eventType : ℤ) (duration : ℕ) (target : ℤ)
  /-- an iteration of the inner loop with the top at position `k` -/
  | iterate (k now : ℕ)

def DispatchInput.isIterate : DispatchInput → Bool
  | .iterate .. => true
  | _ => false

namespace Dispatcher

/-- `operator<` of the events in the queue -/
def lt (p q : ℕ × TimerEvent) : Prop := p.2.lt q.2

instance : IsStrictOrder (ℕ × TimerEvent) lt where
  irrefl p := irrefl p.2
  trans _ _ _ hpq hqr := IsTrans.trans (r := TimerEvent.lt) _ _ _ hpq hqr

instance : DecidableRel lt :=
  fun p q => inferInstanceAs (Decidable (q.2.wakeupTime < p.2.wakeupTime))

/-- AddTimer -/
def addTimer (oid eventType : ℤ) (duration : ℕ) (target : ℤ) (s : Dispatcher) : Dispatcher :=
  { s with
    timerQueue := s.timerQueue ++ [(s.added,⟨oid,eventType,duration,target⟩)]
    added := s.added+1
    last := .added }

/-- The inner loop of TimerThread between lock and unlock, with the event `p` on top. -/
def take (k now : ℕ) (p : ℕ × TimerEvent) (s : Dispatcher) : Dispatcher :=
  if now < p.2.wakeupTime then { s with clock := now, last := .ended }
  else
    { s with
      timerQueue := s.timerQueue.eraseIdx k
      clock := now
      popped := s.popped ++ [(p,now)]
      last := .popped p.1 p.2 }

/-- An iteration, which is impossible if another event is on top or the clock goes back. -/
def iterate (k now : ℕ) (s : Dispatcher) : Option Dispatcher :=
  if now < s.clock then none
  else if s.timerQueue = [] then some { s with clock := now, last := .ended }
  else
    match s.timerQueue[k]? with
    | none => none
    | some p => if PriorityQueue.IsTop lt s.timerQueue k p then some (s.take k now p) else none

def next (s : Dispatcher) : DispatchInput → Option Dispatcher
  | .addTimer oid eventType duration target => some (s.addTimer oid eventType duration target)
  | .iterate k now => s.iterate k now

/-- No timer is running. -/
def start : Dispatcher := ⟨[],0,0,[],.ended⟩

/-- Every event that was added is in the queue or was popped once, when it was due and before all
later ones, and an inner loop that has ended leaves no event that is due. -/
structure Dispatches (s : Dispatcher) : Prop where
  conserved : (s.timerQueue.map Prod.fst ++ s.popped.map fun p => p.1.1).Perm (List.range s.added)
  once : (s.popped.map fun p => p.1.1).Nodup
  due : ∀ p ∈ s.popped, p.1.2.wakeupTime ≤ p.2 ∧ p.2 ≤ s.clock
  earliest : ∀ n ev, s.last = .popped n ev → ∀ p ∈ s.timerQueue, ev.wakeupTime ≤ p.2.wakeupTime
  ended : s.last = .ended → ∀ p ∈ s.timerQueue, s.clock < p.2.wakeupTime

variable {s t : Dispatcher} {k now : ℕ} {p : ℕ × TimerEvent}

/-- An iteration either finds no event that is due, or pops the top. -/
theorem iterate_cases (h : s.iterate k now = some t) : s.clock ≤ now ∧
    ((t = { s with clock := now, last := .ended } ∧ ∀ p ∈ s.timerQueue, now < p.2.wakeupTime) ∨
      ∃ p, PriorityQueue.IsTop lt s.timerQueue k p ∧ p.2.wakeupTime ≤ now ∧ t =
        { s with
          timerQueue := s.timerQueue.eraseIdx k
          clock := now
          popped := s.popped ++ [(p,now)]
          last := .popped p.1 p.2 }) := by
  unfold iterate at h
  split_ifs at h with hclock hempty
  · cases h
    refine ⟨not_lt.mp hclock,Or.inl ⟨rfl,fun p hp => ?_⟩⟩
    rw [hempty] at hp
    cases hp
  · refine ⟨not_lt.mp hclock,?_⟩
    split at h
    · cases h
    · rename_i p _
      split_ifs at h with htop
      cases h
      simp only [take]
      split_ifs with hearly
      · exact Or.inl ⟨rfl,fun q hq => hearly.trans_le (not_lt.mp (htop.2 q hq))⟩
      · exact Or.inr ⟨p,htop,not_lt.mp hearly,rfl⟩

/-- Whatever the queue holds, some event is on top and the iteration goes through. -/
theorem exists_iterate (hclock : s.clock ≤ now) : ∃ k t, s.next (.iterate k now) = some t := by
  by_cases hempty : s.timerQueue = []
  · exact ⟨0,_,by rw [next, iterate, if_neg (not_lt.mpr hclock), if_pos hempty]⟩
  · obtain ⟨k,p,htop⟩ := PriorityQueue.exists_isTop lt hempty
    refine ⟨k,s.take k now p,?_⟩
    rw [next, iterate, if_neg (not_lt.mpr hclock), if_neg hempty, htop.1]
    exact if_pos htop

theorem Dispatches.addTimer (h : Dispatches s) (oid eventType : ℤ) (duration : ℕ) (target : ℤ) :
    Dispatches (s.addTimer oid eventType duration target) where
  conserved := by
    simp only [Dispatcher.addTimer, List.map_append, List.map_cons, List.map_nil, List.range_succ]
    rw [List.append_assoc]
    refine List.perm_middle.trans ?_
    exact (h.conserved.cons s.added).trans (List.perm_append_singleton s.added _).symm
  once := h.once
  due := h.due
  earliest _ _ hlast := nomatch hlast
  ended hlast := nomatch hlast

/-- Only the clock has moved. -/
theorem Dispatches.end (h : Dispatches s) (hclock : s.clock ≤ now)
    (hearly : ∀ p ∈ s.timerQueue, now < p.2.wakeupTime) :
    Dispatches { s with clock := now, last := .ended } where
  conserved := h.conserved
  once := h.once
  due p hp := ⟨(h.due p hp).1,(h.due p hp).2.trans hclock⟩
  earliest _ _ hlast := nomatch hlast
  ended _ := hearly

/-- The top goes over from the queue to the popped events. -/
theorem Dispatches.pop (h : Dispatches s) (hclock : s.clock ≤ now)
    (htop : PriorityQueue.IsTop lt s.timerQueue k p) (hdue : p.2.wakeupTime ≤ now) :
    Dispatches
      { s with
        timerQueue := s.timerQueue.eraseIdx k
        clock := now
        popped := s.popped ++ [(p,now)]
        last := .popped p.1 p.2 } := by
  have hperm : ((s.timerQueue.eraseIdx k).map Prod.fst ++
      (s.popped ++ [(p,now)]).map fun p => p.1.1).Perm (List.range s.added) := by
    refine List.Perm.trans ?_ h.conserved
    rw [List.map_append, ← List.append_assoc]
    refine (List.perm_append_singleton p.1 _).trans ?_
    rw [← List.cons_append]
    exact (htop.perm.map Prod.fst).symm.append_right _
  refine ⟨hperm,?_,fun q hq => ?_,?_,fun hlast => nomatch hlast⟩
  · have hnodup := hperm.nodup_iff.mpr List.nodup_range
    exact (List.nodup_append.mp hnodup).2.1
  · rcases List.mem_append.mp hq with hq | hq
    · exact ⟨(h.due q hq).1,(h.due q hq).2.trans hclock⟩
    · rw [List.mem_singleton.mp hq]
      exact ⟨hdue,le_rfl⟩
  · rintro n ev ⟨⟩ q hq
    exact not_lt.mp (htop.not_lt_of_mem_eraseIdx hq)

theorem Dispatches.next {a : DispatchInput} (h : Dispatches s) (hstep : s.next a = some t) :
    Dispatches t := by
  cases a with
  | addTimer oid eventType duration target =>
    cases hstep
    exact h.addTimer oid eventType duration target
  | iterate k now =>
    obtain ⟨hclock,⟨rfl,hearly⟩ | ⟨p,htop,hdue,rfl⟩⟩ := iterate_cases hstep
    · exact h.end hclock hearly
    · exact h.pop hclock htop hdue

theorem dispatches_start : Dispatches start where
  conserved := .nil
  once := List.nodup_nil
  due _ hp := nomatch hp
  earliest _ _ hlast := nomatch hlast
  ended _ _ hp := nomatch hp

/-- Whatever timers are added, and whenever the inner loop of TimerThread runs. -/
theorem timers_dispatched (as : List DispatchInput) : Runs.Always next Dispatches start as :=
  Runs.always (fun _ _ _ h hstep => h.next hstep) dispatches_start

/-- The events that wake up no later than at `time`. -/
def ahead (time : ℕ) (s : Dispatcher) : ℕ := s.timerQueue.countP fun q => q.2.wakeupTime ≤ time

/-- From `time` on: new timers are set for later, and the clock shows no less. -/
def After (time : ℕ) : DispatchInput → Prop
  | .addTimer _ _ duration _ => time < duration
  | .iterate _ now => time ≤ now

/-- The event is queued, and among the first `k`. -/
def Stands (p : ℕ × TimerEvent) (k : ℕ) (s : Dispatcher) : Prop :=
  p ∈ s.timerQueue ∧ s.ahead p.2.wakeupTime ≤ k

theorem ahead_pos (hp : p ∈ s.timerQueue) : 0 < s.ahead p.2.wakeupTime :=
  List.countP_pos_iff.mpr ⟨p,hp,decide_eq_true le_rfl⟩

/-- An iteration pops the event or one in front of it. -/
theorem Stands.iterate (h : Stands p (k+1) s) {j : ℕ} (hnow : p.2.wakeupTime ≤ now)
    (hstep : s.iterate j now = some t) : (∃ time, (p,time) ∈ t.popped) ∨ Stands p k t := by
  obtain ⟨hp,hahead⟩ := h
  obtain ⟨-,⟨-,hearly⟩ | ⟨q,htop,-,rfl⟩⟩ := iterate_cases hstep
  · exact absurd (hearly p hp) (not_lt.mpr hnow)
  · have hfirst : q.2.wakeupTime ≤ p.2.wakeupTime := not_lt.mp (htop.2 p hp)
    have hcount := htop.perm.countP_eq fun r => decide (r.2.wakeupTime ≤ p.2.wakeupTime)
    rw [List.countP_cons_of_pos (by simpa using hfirst)] at hcount
    rcases List.mem_cons.mp (htop.perm.mem_iff.mp hp) with rfl | hrest
    · exact Or.inl ⟨now,List.mem_append_right _ (List.mem_singleton_self _)⟩
    · refine Or.inr ⟨hrest,?_⟩
      simp only [ahead] at hahead ⊢
      omega

/-- A timer that is set for later stands behind. -/
theorem Stands.addTimer (h : Stands p k s) (oid eventType : ℤ) {duration : ℕ} (target : ℤ)
    (hlater : p.2.wakeupTime < duration) :
    Stands p k (s.addTimer oid eventType duration target) := by
  refine ⟨List.mem_append_left _ h.1,?_⟩
  simp only [ahead, Dispatcher.addTimer]
  rw [List.countP_append, List.countP_singleton, if_neg (by simpa using hlater)]
  exact h.2

/-- No event is left behind: once it is due and all new timers are set for later, it is popped
after at most as many iterations as there were events that wake up no later. -/
theorem timer_popped {as : List DispatchInput} (hp : p ∈ s.timerQueue)
    (hrun : Runs.run next s as = some t) (hafter : ∀ a ∈ as, After p.2.wakeupTime a)
    (hmany : s.ahead p.2.wakeupTime ≤ as.countP DispatchInput.isIterate) :
    Runs.Visits next (fun s => ∃ time, (p,time) ∈ s.popped) s as := by
  have hok : Runs.Along next (fun _ a => After p.2.wakeupTime a) s as :=
    Runs.along_of_mem fun _ => hafter
  have hlast : ∀ s, ¬ Stands p 0 s := fun s h => (ahead_pos h.1).not_ge h.2
  refine Runs.visits_of_progress hlast ?_ ?_ ⟨hp,le_rfl⟩ hok hrun hmany
  · intro k s a t hs ha hnow hstep
    cases a with
    | addTimer => cases ha
    | iterate j now => exact hs.iterate hnow hstep
  · intro k s a t hs ha hlater hstep
    cases a with
    | addTimer oid eventType duration target =>
      cases hstep
      exact Or.inr (hs.addTimer oid eventType target hlater)
    | iterate => cases ha

/-- The later of two timers, with a third one in between. -/
theorem timer_popped_second : ∃ s : Dispatcher,
    Runs.run next start [.addTimer 0 4 7 0,.addTimer 1 4 5 0] = some s ∧
      Runs.Visits next (fun s => ∃ time, ((0,⟨0,4,7,0⟩),time) ∈ s.popped) s
        [.iterate 1 8,.addTimer 2 4 9 0,.iterate 0 8] := by
  refine ⟨_,rfl,?_⟩
  exact timer_popped (p := (0,⟨0,4,7,0⟩)) (List.mem_cons_self ..)
    (show Runs.run next _ _ = some _ from rfl) (by simp [After]) (by decide)

end Dispatcher

/-- The step of TimerThread in the server takes the top of this queue when it is due. -/
theorem World.due_iff_isTop {F : Type} {w : World F} {k now : ℕ} {ev : Event} : w.Due k now ev ↔
    PriorityQueue.IsTop (fun e f : Event => f.wakeupTime < e.wakeupTime) w.timerQueue k ev ∧
      ev.wakeupTime ≤ now := by
  simp only [Due, PriorityQueue.IsTop, not_lt]
  constructor
  · rintro ⟨hk,hdue,hmin⟩
    exact ⟨⟨hk,hmin⟩,hdue⟩
  · rintro ⟨⟨hk,hmin⟩,hdue⟩
    exact ⟨hk,hdue,hmin⟩

end LastHero
