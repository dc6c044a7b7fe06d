import LastHero.Game.Effects
import LastHero.Threads.System

/-! The cooldowns of the skills: a flag is set exactly while one event is pending that clears it.
Assassinate breaks this, as it queues its event without setting its flag, and so can a login, which
does not clear isAttack. -/
namespace LastHero
variable {F : Type}

/-- The tests at the beginning of a handler let the skill through. -/
def CPlayer.Accepts (kind : OffEvent) (p : CPlayer F) : Prop :=
  p.flag kind = false ∧ match kind with
    | .evBerserk => p.wpnType = .wpnSword
    | .evAtkOff => p.wpnType ≠ .wpnNone
    | _ => True

/-- What a login in progress writes into a player. -/
def CPlayer.Relabeled (p q : CPlayer F) : Prop :=
  ∃ name pass objType, q = { p with name := name, pass := pass, objType := objType }

namespace World

/-- Pending ends of a skill. -/
def pending (w : World F) (kind : OffEvent) (id : Slot) : ℕ :=
  w.timerQueue.countP fun e => e.key = .off kind id

/-- Each flag of the player is set if one event is pending, and clear if none is. -/
def Cooldown (id : Slot) (w : World F) : Prop := ∃ p, w.player id = some p ∧ ∀ kind,
  (p.flag kind = true ↔ w.pending kind id = 1) ∧ (p.flag kind = false ↔ w.pending kind id = 0)

/-- A packet uses a skill. -/
def Uses (kind : OffEvent) (id : Slot) (w : World F) : Input F → Prop
  | .packet uid buf _ => uid = id ∧
      (CsType.ofByte (buf.byteAt 1)).bind CsType.skill = some kind ∧
        ∃ p, w.player id = some p ∧ p.Accepts kind
  | _ => False

/-- TimerThread takes the end of a skill. -/
def Fires (kind : OffEvent) (id : Slot) (w : World F) : Input F → Prop
  | .timer k _ => ∃ ev, w.timerQueue[k]? = some ev ∧ ev.key = .off kind id
  | _ => False

/-- The session of a slot ends: its client leaves, or logs in again. -/
def ends (id : Slot) (w : World F) : Input F → Bool
  | .accept _ => w.freeSlot = some id
  | .disconnect uid => uid = id
  | .dbFinish (.row _) _ _ => w.handling.any fun ev => ev.userId = id
  | _ => false

/-- The steps of the server within a session. -/
def sessionNext [FloatArith F] (id : Slot) (w : World F) (a : Input F) : Option (World F) :=
  if w.ends id a then none else w.next a

/-- Between two uses of a skill its event has fired. -/
def Apart [FloatArith F] (id : Slot) (s : World F) (as : List (Input F)) : Prop :=
  ∀ l₁ a l₂ b, l₁ ++ a :: (l₂ ++ [b]) <+: as → ∀ u u' t, Runs.run (sessionNext id) s l₁ = some u →
    sessionNext id u a = some u' → Runs.run (sessionNext id) u' l₂ = some t →
    ∀ kind, Uses kind id u a → Uses kind id t b →
      ¬ Runs.Along (sessionNext id) (fun v c => ¬ Fires kind id v c) u' l₂

variable {w w' w'' : World F} {id uid : Slot} {p q : CPlayer F} {kind : OffEvent}

theorem cooldown_iff : Cooldown id w ↔
    ∃ p, w.player id = some p ∧ ∀ kind, w.pending kind id = (p.flag kind).toNat := by
  refine exists_congr fun p => and_congr_right fun _ => forall_congr' fun kind => ?_
  cases p.flag kind
  · simp +contextual
  · simp +contextual

theorem pending_addTimer (kind' : OffEvent) (id' : Slot) (t : ℕ) (w : World F) :
    (w.addTimer (.off kind' id') t 0).pending kind id =
      w.pending kind id + if kind' = kind ∧ id' = id then 1 else 0 := by
  simp only [pending, World.addTimer]
  rw [List.countP_append, List.countP_singleton]
  simp

/-- A packet touches the cooldown of its own skill only. -/
theorem effects_cooldown {k : Option OffEvent} (hk : id = uid → k ≠ some kind)
    (h : Effects k uid w w') :
    (w'.player id).map (·.flag kind) = (w.player id).map (·.flag kind) ∧
      w'.pending kind id = w.pending kind id := by
  refine h.lift (R := fun w w' => (w'.player id).map (·.flag kind) =
    (w.player id).map (·.flag kind) ∧ w'.pending kind id = w.pending kind id)
    (fun _ => ⟨rfl,rfl⟩) (fun h h' => ⟨h'.1.trans h.1,h'.2.trans h.2⟩) fun w w' h => ?_
  cases h with
  | player i f hv hf =>
    refine ⟨?_,rfl⟩
    rw [modifyPlayer_player]
    split_ifs with hi
    · rw [hi, Option.map_map]
      congr 1
      funext p
      exact hf p kind fun hu => hk (hi.trans hu)
    · rfl
  | timer kind' t hk' =>
    refine ⟨rfl,?_⟩
    rw [pending_addTimer, if_neg, add_zero]
    rintro ⟨rfl,rfl⟩
    exact hk rfl hk'
  | levelUp =>
    simp only [levelUp]
    have hflag := map_modifyPlayer (f := CPlayer.gainLevel) (g := fun p => p.flag kind)
      (fun p => by cases kind <;> rfl) w uid id
    split
    · exact ⟨hflag,rfl⟩
    · exact ⟨hflag,rfl⟩
  | send | record | monster | boss | quary => exact ⟨rfl,rfl⟩

theorem flag_of_effects {k : Option OffEvent} (hk : k ≠ some kind) (hp : w.player id = some p)
    (h : Effects k id w w') : ∃ q, w'.player id = some q ∧ q.flag kind = p.flag kind ∧
      w'.pending kind id = w.pending kind id := by
  obtain ⟨hflag,hpending⟩ : (w'.player id).map (·.flag kind) = (w.player id).map (·.flag kind) ∧
      w'.pending kind id = w.pending kind id := effects_cooldown (fun _ => hk) h
  rw [hp, Option.map_some] at hflag
  obtain ⟨q,hq,hsame⟩ := Option.map_eq_some_iff.mp hflag
  exact ⟨q,hq,hsame,hpending⟩

theorem used_of_effects {k : Option OffEvent} (hk : k ≠ some kind) (hp : w.player id = some p)
    (h : Effects k id w w') (t : ℕ) :
    ∃ q, (w'.addTimer (.off kind id) t 0).player id = some q ∧ q.flag kind = p.flag kind ∧
      (w'.addTimer (.off kind id) t 0).pending kind id = w.pending kind id + 1 := by
  obtain ⟨q,hq,hflag,hpending⟩ := flag_of_effects hk hp h
  exact ⟨q,hq,hflag,by rw [pending_addTimer, if_pos ⟨rfl,rfl⟩, hpending]⟩

/-- A skill sets its flag, between effects that leave it, and queues its event. -/
theorem used_of_set {v u : World F} {k l : Option OffEvent} {f : CPlayer F → CPlayer F}
    (hk : k ≠ some kind) (hl : l ≠ some kind) (hp : w.player id = some p)
    (hbefore : Effects k id w v) (hafter : Effects l id (v.modifyPlayer id f) u)
    (hf : ∀ q, (f q).flag kind = true) (t : ℕ) :
    ∃ q, (u.addTimer (.off kind id) t 0).player id = some q ∧ q.flag kind = true ∧
      (u.addTimer (.off kind id) t 0).pending kind id = w.pending kind id + 1 := by
  obtain ⟨r,hr,-,hpending⟩ := flag_of_effects hk hp hbefore
  obtain ⟨q,hq,hflag,hpending'⟩ := used_of_effects hl (modifyPlayer_self f hr) hafter t
  exact ⟨q,hq,hflag.trans (hf r),hpending'.trans (congrArg (· + 1) hpending)⟩

section Skills
variable [FloatArith F]

/-- The handler of a skill. -/
def useSkill (kind : OffEvent) (id : Slot) (p : CPlayer F) (now : ℕ) (w : World F) : World F :=
  match kind with
  | .evBerserk => w.berserk id p now
  | .evAtkOff => w.attck id p now
  | .evGuardOff => w.guard id p now
  | .evEvadeOff => w.evade id p now
  | .evAssOff => w.assassinate id p now

theorem onType_skill {t : CsType} (ht : t.skill = some kind) (buf : Buffer) (now : Now) :
    w.onType t id buf now = w.onPlayer id fun p w => w.useSkill kind id p now.time := by
  cases t <;> cases ht <;> rfl

theorem useSkill_refused (h : ¬ p.Accepts kind) (now : ℕ) : w.useSkill kind id p now = w := by
  unfold CPlayer.Accepts CPlayer.flag at h
  cases kind with
  | evBerserk =>
    dsimp only [useSkill]
    simp only [berserk]
    split_ifs <;> simp_all
  | evAtkOff =>
    dsimp only [useSkill]
    simp only [attck]
    split_ifs <;> simp_all
  | evGuardOff =>
    dsimp only [useSkill]
    simp only [guard]
    rw [if_pos (by simpa using h)]
  | evEvadeOff =>
    dsimp only [useSkill]
    simp only [evade]
    rw [if_pos (by simpa using h)]
  | evAssOff =>
    dsimp only [useSkill]
    simp only [assassinate]
    rw [if_pos (by simpa using h)]

/-- A used skill queues its event. All but Assassinate set their flag. -/
theorem useSkill_accepted (hp : w.player id = some p) (h : p.Accepts kind) (now : ℕ) :
    ∃ q, (w.useSkill kind id p now).player id = some q ∧
      q.flag kind = decide (kind ≠ .evAssOff) ∧
      (w.useSkill kind id p now).pending kind id = w.pending kind id + 1 := by
  obtain ⟨hflag,hwpn⟩ := h
  cases kind with
  | evBerserk =>
    dsimp only [useSkill]
    simp only [berserk]
    rw [if_neg (by simpa [CPlayer.flag] using hflag), if_neg (not_not.mpr hwpn)]
    have hsweep : Effects (some .evAtkOff) id w
        ((w.sendView p.viewList (.scBerserk id)).sweep berserkSweep id) :=
      (Effects.refl w).sendTo.sweep rfl (fun _ t => ⟨.refl t.1,rfl⟩) fun w => .refl w
    exact used_of_set (l := none) (by simp) (by simp) hp hsweep (.refl _) (fun _ => rfl) _
  | evAtkOff =>
    dsimp only [useSkill]
    simp only [attck]
    rw [if_neg (by simpa [CPlayer.flag] using hflag), if_neg hwpn]
    have hsweep : ∀ v : World F, Effects (some .evBerserk) id v
        (((v.broadcast (.scAttack (id : ℕ) (nextCombo p now))).sweep attckSweep id).attckBoss id) :=
      fun v => ((Effects.refl v).sendTo.sweep rfl effects_faceFirst fun w => .refl w).attckBoss
    exact used_of_set (k := none) (by simp) (by simp) hp (.refl w) (hsweep _) (fun _ => rfl) _
  | evGuardOff =>
    dsimp only [useSkill]
    simp only [guard]
    rw [if_neg (by simpa [CPlayer.flag] using hflag)]
    exact used_of_set (k := none) (l := none) (by simp) (by simp) hp (.refl w)
      (Effects.refl _).sendTo (fun _ => rfl) _
  | evEvadeOff =>
    have hsent : ∀ v : World F, Effects none id v (if v.isBattleMode p
        then v.broadcastOthers id (.scEvade id) else v.broadcastOthers id (.scEvade id)) := by
      intro v
      split_ifs
      · exact (Effects.refl v).sendTo
      · exact (Effects.refl v).sendTo
    dsimp only [useSkill]
    simp only [evade]
    rw [if_neg (by simpa [CPlayer.flag] using hflag)]
    exact used_of_set (k := none) (by simp) (by simp) hp (.refl w) (hsent _) (fun _ => rfl) _
  | evAssOff =>
    dsimp only [useSkill]
    simp only [assassinate]
    have hkept : p.flag .evAssOff = decide (OffEvent.evAssOff ≠ .evAssOff) := hflag
    rw [if_neg (by simpa [CPlayer.flag] using hflag), ← hkept]
    refine used_of_effects (k := some .evAtkOff) (by simp) hp ?_ _
    refine (Effects.refl w).sendTo.sweep rfl (fun _ t => ⟨.refl t.1,rfl⟩) fun w => ?_
    exact (Effects.refl w).modifyPlayer fun _ => ⟨rfl,rfl⟩

end Skills

/-- A step that leaves the player of a slot alone, apart from a login. -/
structure Waits (id : Slot) (w w' : World F) : Prop where
  player : ∀ p, w.player id = some p → ∃ q, w'.player id = some q ∧ p.Relabeled q
  timerQueue : w'.timerQueue = w.timerQueue

theorem Waits.of_eq (hp : w'.player id = w.player id) (ht : w'.timerQueue = w.timerQueue) :
    Waits id w w' := ⟨fun p h => ⟨p,hp.trans h,_,_,_,rfl⟩,ht⟩

theorem Waits.trans (h : Waits id w w') (h' : Waits id w' w'') : Waits id w w'' := by
  refine ⟨fun p hp => ?_,h'.timerQueue.trans h.timerQueue⟩
  obtain ⟨q,hq,_,_,_,rfl⟩ := h.player p hp
  obtain ⟨r,hr,_,_,_,rfl⟩ := h'.player _ hq
  exact ⟨_,hr,_,_,_,rfl⟩

theorem waits_modifyPlayer {f : CPlayer F → CPlayer F} (hf : ∀ p : CPlayer F, p.Relabeled (f p))
    (w : World F) (i : Slot) : Waits id w (w.modifyPlayer i f) := by
  refine ⟨fun p hp => ?_,rfl⟩
  by_cases hi : id = i
  · subst hi
    exact ⟨f p,modifyPlayer_self f hp,hf p⟩
  · exact ⟨p,(modifyPlayer_of_ne hi).trans hp,_,_,_,rfl⟩

theorem waits_ensurePlayer (heap : CPlayer F) (hp : w.player id = some p) :
    Waits id w (w.ensurePlayer uid heap) := by
  simp only [ensurePlayer]
  split
  · exact .of_eq rfl rfl
  · rename_i hnone
    refine .of_eq (Function.update_of_ne ?_ ..) rfl
    rintro rfl
    rw [hp] at hnone
    cases hnone

theorem waits_dbTake {outcome : Outcome} {heap : CPlayer F} (hp : w.player id = some p)
    (h : w.dbTake outcome heap = .ok w') : Waits id w w' := by
  obtain rfl | ⟨ev,queue,-,-,rfl | ⟨queue',rfl⟩ | ⟨exp,rfl⟩⟩ := dbTake_cases h
  · exact .of_eq rfl rfl
  · have hqueue : Waits id w (w.setQuaryQueue queue) := .of_eq rfl rfl
    have hensure : Waits id (w.setQuaryQueue queue)
        ((w.setQuaryQueue queue).ensurePlayer ev.userId heap) :=
      waits_ensurePlayer heap (w := w.setQuaryQueue queue) hp
    have hset : Waits id ((w.setQuaryQueue queue).ensurePlayer ev.userId heap) _ :=
      waits_modifyPlayer (f := CPlayer.setCredentials ev.name ev.pass) (fun _ => ⟨_,_,_,rfl⟩) _
        ev.userId
    exact (hqueue.trans hensure).trans (hset.trans (.of_eq rfl rfl))
  · exact .of_eq rfl rfl
  · exact .of_eq rfl rfl

/-- A step that has nothing to do with skills. -/
structure Leaves (id : Slot) (w w' : World F) : Prop where
  player : ∀ p, w.player id = some p → ∃ q, w'.player id = some q ∧ q.flag = p.flag
  timerQueue : w'.timerQueue = w.timerQueue

theorem Waits.leaves (h : Waits id w w') : Leaves id w w' := by
  refine ⟨fun p hp => ?_,h.timerQueue⟩
  obtain ⟨q,hq,_,_,_,rfl⟩ := h.player p hp
  exact ⟨_,hq,rfl⟩

theorem Cooldown.leaves (h : Cooldown id w) (hl : Leaves id w w') : Cooldown id w' := by
  obtain ⟨p,hp,hcount⟩ := cooldown_iff.mp h
  obtain ⟨q,hq,hflag⟩ := hl.player p hp
  refine cooldown_iff.mpr ⟨q,hq,fun kind => ?_⟩
  simp only [pending]
  rw [hl.timerQueue, hflag]
  exact hcount kind

theorem Due.pending {k now : ℕ} {ev : Event} (h : w.Due k now ev) (kind : OffEvent) (id : Slot) :
    w.pending kind id = (w.setTimerQueue (w.timerQueue.eraseIdx k)).pending kind id +
      if ev.key = .off kind id then 1 else 0 := h.countKey _

theorem skillOff_flag (kind kind' : OffEvent) (now : ℕ) (p : CPlayer F) :
    (p.skillOff kind now).flag kind' = if kind' = kind then false else p.flag kind' := by
  cases kind <;> cases kind' <;> rfl

/-- TimerThread clears the flag of the event it takes. -/
theorem Cooldown.timer {k now : ℕ} (h : Cooldown id w) (hstep : w.timerThread k now = some w') :
    Cooldown id w' := by
  obtain ⟨p,hp,hcount⟩ := cooldown_iff.mp h
  obtain ⟨ev,hdue,rfl⟩ := timerThread_spec hstep
  have hleft := fun kind => (hdue.pending kind id).symm.trans (hcount kind)
  rw [cooldown_iff]
  simp only [timerEvent]
  cases hkey : ev.key with
  | evBoss | evMonster =>
    refine ⟨p,hp,fun kind => ?_⟩
    have hkind := hleft kind
    rw [hkey, if_neg (by simp), add_zero] at hkind
    exact hkind
  | off kind i =>
    by_cases hi : i = id
    · subst hi
      refine ⟨p.skillOff kind now,modifyPlayer_self (w := w.setTimerQueue _) _ hp,fun kind' => ?_⟩
      have hkind := hleft kind'
      rw [hkey] at hkind
      rw [skillOff_flag]
      change (w.setTimerQueue (w.timerQueue.eraseIdx k)).pending kind' i = _
      by_cases hsame : kind' = kind
      · subst hsame
        rw [if_pos rfl] at hkind
        rw [if_pos rfl, Bool.toNat_false]
        have hle := (p.flag kind').toNat_le
        omega
      · rw [if_neg (by simp [Ne.symm hsame]), add_zero] at hkind
        rw [if_neg hsame, hkind]
    · refine ⟨p,(modifyPlayer_of_ne (w := w.setTimerQueue _) (Ne.symm hi)).trans hp,fun kind' => ?_⟩
      have hkind := hleft kind'
      rw [hkey, if_neg (by simp [hi]), add_zero] at hkind
      exact hkind

section Session
variable [FloatArith F]

theorem waits_dbFinish {outcome : Outcome} {heap : CPlayer F} {now : ℕ}
    (hp : w.player id = some p) (hends : w.ends id (.dbFinish outcome heap now) = false) :
    Waits id w (w.dbFinish outcome heap now) := by
  unfold dbFinish
  split
  · exact .of_eq rfl rfl
  · rename_i ev hev
    dsimp only
    cases outcome with
    | row r =>
      have hne : id ≠ ev.userId := by
        rintro rfl
        simp [ends, hev] at hends
      have hidle : Waits id w (w.setHandling none) := .of_eq rfl rfl
      have hensure : Waits id (w.setHandling none)
          ((w.setHandling none).ensurePlayer ev.userId heap) :=
        waits_ensurePlayer heap (w := w.setHandling none) hp
      refine (hidle.trans hensure).trans ⟨fun q hq => ⟨q,?_,_,_,_,rfl⟩,rfl⟩
      exact (modifyPlayer_of_ne (w := ((w.setHandling none).ensurePlayer ev.userId heap).renew
        ev.userId) hne).trans hq
    | fail | noRow => exact .of_eq rfl rfl

/-- Within a session only packets, levels and timers change the player. -/
theorem waits_next {a : Input F} (hp : w.player id = some p) (hends : w.ends id a = false)
    (hpacket : ∀ uid buf now, a ≠ .packet uid buf now) (hlevel : ∀ uid, a ≠ .levelUp uid)
    (htimer : ∀ k now, a ≠ .timer k now) (h : w.next a = some w') : Waits id w w' := by
  cases a with
  | packet uid buf now => exact absurd rfl (hpacket uid buf now)
  | levelUp uid => exact absurd rfl (hlevel uid)
  | timer k now => exact absurd rfl (htimer k now)
  | accept heap =>
    cases h
    cases hfree : w.freeSlot with
    | none => rw [accept_full heap hfree]; exact .of_eq rfl rfl
    | some i =>
      have hne : id ≠ i := by
        rintro rfl
        simp [ends, hfree] at hends
      refine .of_eq ?_ ?_
      · rw [accept_player heap hfree, Function.update_of_ne hne]
      · simp only [accept]
        rw [hfree]
        rfl
  | disconnect uid =>
    obtain ⟨-,hplayer,-,htimers,-⟩ := disconnect_spec (toOption_eq_some h)
    have hne : id ≠ uid := by
      rintro rfl
      simp [ends] at hends
    exact .of_eq (by rw [hplayer, Function.update_of_ne hne]) htimers
  | login uid name pass character =>
    obtain ⟨-,n,q,rfl⟩ := login_spec (toOption_eq_some h)
    have hquary : Waits id w (w.addQuary uid .evLogin n q) := .of_eq rfl rfl
    exact hquary.trans (waits_modifyPlayer (f := CPlayer.setObjType character)
      (fun _ => ⟨_,_,_,rfl⟩) _ uid)
  | dbTake outcome heap => exact waits_dbTake hp (toOption_eq_some h)
  | dbFinish outcome heap now =>
    cases h
    exact waits_dbFinish hp hends

/-- A packet keeps the cooldowns unless it uses Assassinate. -/
theorem Cooldown.packet {buf : Buffer} {now : Now} (h : Cooldown id w)
    (hok : w.processPacket uid buf now = .ok w') :
    Cooldown id w' ↔ ¬ Uses .evAssOff id w (.packet uid buf now) := by
  obtain ⟨t,ht,hok⟩ := processPacket_spec hok
  obtain ⟨p,hp,hcount⟩ := cooldown_iff.mp h
  have hframe : ∀ kind, (id = uid → t.skill ≠ some kind) →
      (w'.player id).map (·.flag kind) = some (p.flag kind) ∧
        w'.pending kind id = (p.flag kind).toNat := by
    intro kind hk
    obtain ⟨hflag,hpending⟩ := effects_cooldown hk (effects_onType hok)
    rw [hp, Option.map_some] at hflag
    exact ⟨hflag,hpending.trans (hcount kind)⟩
  have hkeep : (∀ kind, id = uid → t.skill ≠ some kind) → Cooldown id w' := by
    intro hk
    obtain ⟨q,hq,-⟩ := Option.map_eq_some_iff.mp (hframe .evAtkOff (hk .evAtkOff)).1
    refine cooldown_iff.mpr ⟨q,hq,fun kind => ?_⟩
    obtain ⟨hflag,hpending⟩ := hframe kind (hk kind)
    rw [hq, Option.map_some, Option.some_inj] at hflag
    rw [hpending, hflag]
  by_cases hid : uid = id
  · subst hid
    cases hskill : t.skill with
    | none =>
      refine iff_of_true (hkeep fun kind _ => by simp [hskill]) ?_
      rintro ⟨-,hkind,-⟩
      rw [ht, Option.bind_some, hskill] at hkind
      cases hkind
    | some kind =>
      rw [onType_skill hskill, onPlayer_some hp] at hok
      cases hok
      have huses : Uses .evAssOff uid w (.packet uid buf now) ↔
          kind = .evAssOff ∧ p.Accepts kind := by
        constructor
        · rintro ⟨-,hkind,q,hq,haccepts⟩
          rw [ht, Option.bind_some, hskill] at hkind
          cases hkind
          cases hp.symm.trans hq
          exact ⟨rfl,haccepts⟩
        · rintro ⟨rfl,haccepts⟩
          exact ⟨rfl,by rw [ht, Option.bind_some, hskill],p,hp,haccepts⟩
      rw [huses]
      by_cases haccepts : p.Accepts kind
      · obtain ⟨q,hq,hflag,hpending⟩ := useSkill_accepted hp haccepts now.time
        rw [hcount kind, haccepts.1, Bool.toNat_false, zero_add] at hpending
        rw [cooldown_iff]
        constructor
        · rintro ⟨q',hq',hcount'⟩ ⟨rfl,-⟩
          cases hq.symm.trans hq'
          have hnone := hcount' .evAssOff
          rw [hpending, hflag] at hnone
          simp at hnone
        · intro hnot
          refine ⟨q,hq,fun kind' => ?_⟩
          by_cases hsame : kind' = kind
          · subst hsame
            have hne : kind' ≠ .evAssOff := fun heq => hnot ⟨heq,haccepts⟩
            rw [hpending, hflag, decide_eq_true hne, Bool.toNat_true]
          · obtain ⟨hflag',hpending'⟩ := hframe kind' fun _ => by simp [hskill, Ne.symm hsame]
            rw [hq, Option.map_some, Option.some_inj] at hflag'
            rw [hpending', hflag']
      · rw [useSkill_refused haccepts]
        exact iff_of_true h fun hu => haccepts hu.2
  · refine iff_of_true (hkeep fun kind heq => absurd heq.symm hid) fun hu => hid hu.1

end Session

end World

end LastHero
