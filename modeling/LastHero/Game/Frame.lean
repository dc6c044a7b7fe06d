import LastHero.Game.ProcessPacket
import LastHero.Support.KeyedFold

/-! What every client packet leaves alone: the connections, the login states, the incarnations
and the queued events. All packets but a login also announce nobody. -/
namespace LastHero
variable {F : Type}

/-- The player that a packet announces. -/
def Packet.enters : Packet F → Option Slot
  | .scEnterPlayer _ _ id _ => some id
  | _ => none

/-- The receiver and the player of an announcement. -/
def Act.announces : Act F → Option (Slot × Slot)
  | .send i p => p.enters.map fun j => (i,j)
  | _ => none

namespace World

/-- All announcements of players so far. -/
def announcements (w : World F) : List (Slot × Slot) := w.trace.filterMap Act.announces

/-- Pending ends of berserk. -/
def berserks (w : World F) (i : Slot) : ℕ :=
  w.timerQueue.countP fun e => e.key = .off .evBerserk i

/-- An operation that a send in `w` can have posted. -/
def Posts (w : World F) (o : IoOp) : Prop :=
  o.kind = .opSend ∧ o.result = none ∧ (w.client o.uid).sock = some o.session

/-- Queues only grow, by sends on open sockets, DB events of present players and timers of
current incarnations; attack points grow at least with the pending ends of berserk. -/
structure Keeps (w w' : World F) : Prop where
  state : ∀ i, (w'.player i).map CPlayer.state = (w.player i).map CPlayer.state
  client : w'.client = w.client
  accepted : w'.accepted = w.accepted
  era : w'.era = w.era
  handling : w'.handling = w.handling
  ops : ∃ new, w'.ops = w.ops ++ new ∧ ∀ o ∈ new, w.Posts o
  quary : ∃ new, w'.quaryQueue = w.quaryQueue ++ new ∧
    ∀ ev ∈ new, ev.session = (w.client ev.userId).sock ∧ (w.player ev.userId).isSome
  timers : ∃ new, w'.timerQueue = w.timerQueue ++ new ∧
    ∀ e ∈ new, ∀ kind i, e.key = .off kind i → e.era = w.era i
  atk : ∀ i p', w'.player i = some p' → ∃ p, w.player i = some p ∧
    p.atkPoint - 2*w.berserks i ≤ p'.atkPoint - 2*w'.berserks i

/-- Besides, nobody enters anybody's view. -/
structure Quiet (w w' : World F) : Prop extends Keeps w w' where
  view : ∀ i, (w'.player i).map CPlayer.viewList = (w.player i).map CPlayer.viewList
  announcements : w'.announcements = w.announcements

variable {w w' w'' : World F} {i id : Slot} {p : Packet F} {f : CPlayer F → CPlayer F}

theorem Keeps.isSome (h : Keeps w w') (i : Slot) : (w'.player i).isSome = (w.player i).isSome := by
  rw [← Option.isSome_map, h.state, Option.isSome_map]

/-- A step that changes only fields that `Keeps` says nothing about. -/
theorem Keeps.of_eq (hp : w'.player = w.player) (hc : w'.client = w.client)
    (ha : w'.accepted = w.accepted) (he : w'.era = w.era) (hh : w'.handling = w.handling)
    (ho : w'.ops = w.ops) (hq : w'.quaryQueue = w.quaryQueue)
    (ht : w'.timerQueue = w.timerQueue) : Keeps w w' where
  state _ := by rw [hp]
  client := hc
  accepted := ha
  era := he
  handling := hh
  ops := ⟨[],by rw [ho, List.append_nil],by simp⟩
  quary := ⟨[],by rw [hq, List.append_nil],by simp⟩
  timers := ⟨[],by rw [ht, List.append_nil],by simp⟩
  atk i p' h := ⟨p',hp ▸ h,by rw [berserks, berserks, ht]⟩

theorem Keeps.refl (w : World F) : Keeps w w := .of_eq rfl rfl rfl rfl rfl rfl rfl rfl

/-- Growing lists compose when what is said of the new elements is the same before and after. -/
theorem append_trans {α : Type} {P P' : α → Prop} {l l' l'' : List α} (hP : ∀ a, P' a → P a)
    (h : ∃ new, l' = l ++ new ∧ ∀ a ∈ new, P a) (h' : ∃ new, l'' = l' ++ new ∧ ∀ a ∈ new, P' a) :
    ∃ new, l'' = l ++ new ∧ ∀ a ∈ new, P a := by
  obtain ⟨new,rfl,hnew⟩ := h
  obtain ⟨new',rfl,hnew'⟩ := h'
  refine ⟨new ++ new',List.append_assoc ..,fun a ha => ?_⟩
  cases List.mem_append.mp ha with
  | inl ha => exact hnew a ha
  | inr ha => exact hP a (hnew' a ha)

theorem Keeps.trans (h : Keeps w w') (h' : Keeps w' w'') : Keeps w w'' where
  state i := (h'.state i).trans (h.state i)
  client := h'.client.trans h.client
  accepted := h'.accepted.trans h.accepted
  era := h'.era.trans h.era
  handling := h'.handling.trans h.handling
  ops := append_trans (fun _ ha => ⟨ha.1,ha.2.1,h.client ▸ ha.2.2⟩) h.ops h'.ops
  quary := append_trans (fun _ ha => ⟨h.client ▸ ha.1,h.isSome _ ▸ ha.2⟩) h.quary h'.quary
  timers := append_trans (fun _ ha k i hk => h.era ▸ ha k i hk) h.timers h'.timers
  atk i p'' h'' := by
    obtain ⟨p',hp',hle'⟩ := h'.atk i p'' h''
    obtain ⟨p,hp,hle⟩ := h.atk i p' hp'
    exact ⟨p,hp,hle.trans hle'⟩

theorem Quiet.refl (w : World F) : Quiet w w := ⟨.refl w,fun _ => rfl,rfl⟩

theorem Quiet.trans (h : Quiet w w') (h' : Quiet w' w'') : Quiet w w'' :=
  ⟨h.toKeeps.trans h'.toKeeps,fun i => (h'.view i).trans (h.view i),
    h'.announcements.trans h.announcements⟩

theorem keeps_sendTo (l : List Slot) (p : Packet F) (w : World F) : Keeps w (w.sendTo l p) := by
  refine { Keeps.refl w with ops := ⟨_,rfl,fun o ho => ?_⟩ }
  obtain ⟨i,-,ho⟩ := List.mem_filterMap.mp ho
  obtain ⟨s,hs,rfl⟩ := Option.map_eq_some_iff.mp ho
  exact ⟨rfl,rfl,hs⟩

theorem Quiet.sendTo {l : List Slot} (hp : p.enters = none) (h : Quiet w w') :
    Quiet w (w'.sendTo l p) := by
  refine h.trans ⟨keeps_sendTo l p w',fun _ => rfl,?_⟩
  have hnone : (l.map fun i => Act.send i p).filterMap Act.announces = [] := by
    rw [List.filterMap_eq_nil_iff]
    intro a ha
    obtain ⟨i,-,rfl⟩ := List.mem_map.mp ha
    rw [Act.announces, hp, Option.map_none]
  rw [World.announcements, World.sendTo, List.filterMap_append, hnone, List.append_nil]
  rfl

theorem modifyPlayer_player (i j : Slot) (f : CPlayer F → CPlayer F) (w : World F) :
    (w.modifyPlayer i f).player j = if j = i then (w.player i).map f else w.player j :=
  Function.update_apply ..

theorem modifyPlayer_of_ne {j : Slot} (h : j ≠ i) : (w.modifyPlayer i f).player j = w.player j := by
  rw [modifyPlayer_player, if_neg h]

theorem modifyPlayer_some (f : CPlayer F → CPlayer F) {p : CPlayer F} (hp : w.player id = some p) :
    (w.modifyPlayer id f).player = Function.update w.player id (some (f p)) := by
  simp only [modifyPlayer, setPlayer]
  rw [hp]
  rfl

theorem modifyPlayer_self (f : CPlayer F → CPlayer F) {p : CPlayer F} (hp : w.player id = some p) :
    (w.modifyPlayer id f).player id = some (f p) := by
  rw [modifyPlayer_player, if_pos rfl, hp, Option.map_some]

theorem isSome_modifyPlayer (f : CPlayer F → CPlayer F) (w : World F) (i c : Slot) :
    ((w.modifyPlayer i f).player c).isSome = (w.player c).isSome := by
  rw [modifyPlayer_player]
  split_ifs with hc
  · rw [hc, Option.isSome_map]
  · rfl

theorem connected_congr (h : ∀ i, (w'.player i).isSome = (w.player i).isSome) :
    w'.connected = w.connected := by
  simp only [connected]
  simp only [h]

theorem connected_modifyPlayer (f : CPlayer F → CPlayer F) (w : World F) :
    (w.modifyPlayer id f).connected = w.connected :=
  connected_congr (isSome_modifyPlayer f w id)

theorem map_modifyPlayer {α : Type} {g : CPlayer F → α} (hg : ∀ p, g (f p) = g p)
    (w : World F) (i j : Slot) : ((w.modifyPlayer i f).player j).map g = (w.player j).map g := by
  rw [modifyPlayer_player]
  split_ifs with h
  · rw [h, Option.map_map]
    congr 1
    funext p
    exact hg p
  · rfl

theorem keeps_modifyPlayer (hf : ∀ p, (f p).state = p.state ∧ p.atkPoint ≤ (f p).atkPoint)
    (w : World F) : Keeps w (w.modifyPlayer i f) := by
  refine { Keeps.refl w with state := map_modifyPlayer (fun p => (hf p).1) w i, atk := ?_ }
  intro j p' h
  rw [modifyPlayer_player] at h
  split_ifs at h with hj
  · obtain ⟨p,hp,rfl⟩ := Option.map_eq_some_iff.mp h
    exact ⟨p,hj ▸ hp,sub_le_sub_right (hf p).2 _⟩
  · exact ⟨p',h,le_rfl⟩

theorem Quiet.modifyPlayer (hf : ∀ p, (f p).state = p.state ∧ p.atkPoint ≤ (f p).atkPoint ∧
    (f p).viewList = p.viewList) (h : Quiet w w') : Quiet w (w'.modifyPlayer i f) :=
  h.trans ⟨keeps_modifyPlayer (fun p => ⟨(hf p).1,(hf p).2.1⟩) w',
    map_modifyPlayer (fun p => (hf p).2.2) w' i,rfl⟩

theorem addTimer_berserks (key : EventKey) (t : ℕ) (target : ℤ) (w : World F) (i : Slot) :
    (w.addTimer key t target).berserks i =
      w.berserks i + if key = .off .evBerserk i then 1 else 0 := by
  simp only [berserks, World.addTimer]
  rw [List.countP_append, List.countP_singleton]
  simp only [decide_eq_true_eq]

theorem addTimer_timers (key : EventKey) (t : ℕ) (target : ℤ) (w : World F) :
    ∃ new, (w.addTimer key t target).timerQueue = w.timerQueue ++ new ∧
      ∀ e ∈ new, ∀ kind i, e.key = .off kind i → e.era = w.era i := by
  refine ⟨_,rfl,fun e he kind i hk => ?_⟩
  rw [List.mem_singleton] at he
  subst he
  dsimp only at hk
  rw [hk]

theorem Quiet.addTimer {key : EventKey} {t : ℕ} {target : ℤ}
    (hk : ∀ i, key ≠ .off .evBerserk i) (h : Quiet w w') : Quiet w (w'.addTimer key t target) := by
  refine h.trans ⟨{ Keeps.refl w' with timers := addTimer_timers .., atk := ?_ },fun _ => rfl,rfl⟩
  intro i p hp
  exact ⟨p,hp,by rw [addTimer_berserks, if_neg (hk i), add_zero]⟩

/-- The bonus of berserk and the event that takes it back. -/
theorem Quiet.berserkTimer {t : ℕ} {target : ℤ} (hf : ∀ p, (f p).state = p.state ∧
    p.atkPoint+2 ≤ (f p).atkPoint ∧ (f p).viewList = p.viewList) (h : Quiet w w') :
    Quiet w ((w'.modifyPlayer id f).addTimer (.off .evBerserk id) t target) := by
  have hstate := map_modifyPlayer (fun p => (hf p).1) w' id
  have hview := map_modifyPlayer (fun p => (hf p).2.2) w' id
  refine h.trans ⟨{ Keeps.refl w' with state := hstate, timers := addTimer_timers .., atk := ?_ },
    hview,rfl⟩
  intro j p' hp'
  have hcount := addTimer_berserks (.off .evBerserk id) t target (w'.modifyPlayer id f) j
  have hsame : (w'.modifyPlayer id f).berserks j = w'.berserks j := rfl
  change (w'.modifyPlayer id f).player j = some p' at hp'
  rw [modifyPlayer_player] at hp'
  rw [hcount, hsame]
  split_ifs at hp' with hj
  · obtain ⟨p,hp,rfl⟩ := Option.map_eq_some_iff.mp hp'
    refine ⟨p,hj ▸ hp,?_⟩
    have hle := (hf p).2.1
    rw [if_pos (by rw [hj])]
    push_cast
    omega
  · refine ⟨p',hp',?_⟩
    rw [if_neg (by simpa using Ne.symm hj), add_zero]

theorem Quiet.addQuary {ev : DBEventId} {name pass : Credential} (hp : (w'.player id).isSome)
    (h : Quiet w w') : Quiet w (w'.addQuary id ev name pass) := by
  refine h.trans ⟨{ Keeps.refl w' with quary := ⟨_,rfl,fun e he => ?_⟩ },fun _ => rfl,rfl⟩
  rw [List.mem_singleton] at he
  subst he
  exact ⟨rfl,hp⟩

theorem Quiet.setMonster {k : MonsterId} {m : CMonster F} (h : Quiet w w') :
    Quiet w (w'.setMonster k m) := h.trans ⟨.of_eq rfl rfl rfl rfl rfl rfl rfl rfl,fun _ => rfl,rfl⟩

theorem Quiet.setBoss {b : Boss F} (h : Quiet w w') : Quiet w (w'.setBoss b) :=
  h.trans ⟨.of_eq rfl rfl rfl rfl rfl rfl rfl rfl,fun _ => rfl,rfl⟩

theorem Quiet.record {a : Act F} (ha : a.announces = none) (h : Quiet w w') :
    Quiet w (w'.record a) :=
  h.trans ⟨.of_eq rfl rfl rfl rfl rfl rfl rfl rfl,fun _ => rfl,
    by simp [World.announcements, World.record, ha]⟩

theorem Quiet.levelUp (h : Quiet w w') : Quiet w (w'.levelUp id) := by
  have hlevel : Quiet w (w'.modifyPlayer id CPlayer.gainLevel) :=
    h.modifyPlayer (f := CPlayer.gainLevel) fun p =>
      ⟨rfl,(le_add_iff_nonneg_right _).mpr (by decide),rfl⟩
  simp only [World.levelUp]
  split
  · exact hlevel
  · rename_i p hp
    exact Quiet.addQuary (Option.isSome_of_mem hp) (hlevel.sendTo rfl)

theorem Quiet.killMonster {k : MonsterId} {m : CMonster F} (h : Quiet w w') :
    Quiet w (w'.killMonster id k m) := by
  have hexp : Quiet w ((w'.record (.kill id k)).modifyPlayer id (CPlayer.gainExp m.exp)) :=
    (h.record rfl).modifyPlayer (f := CPlayer.gainExp m.exp) fun _ => ⟨rfl,le_rfl,rfl⟩
  simp only [World.killMonster]
  split
  · exact hexp
  · split_ifs
    · apply Quiet.levelUp
      apply Quiet.sendTo rfl
      apply Quiet.sendTo rfl hexp
    · apply Quiet.sendTo rfl
      apply Quiet.sendTo rfl hexp

theorem quiet_ready (w : World F) : Quiet w (w.ready id) :=
  (Quiet.refl w).modifyPlayer fun _ => ⟨rfl,le_rfl,rfl⟩

theorem quiet_guard (q : CPlayer F) (now : ℕ) (w : World F) : Quiet w (w.guard id q now) := by
  simp only [World.guard]
  split_ifs
  · exact .refl w
  · apply Quiet.addTimer (by simp)
    apply Quiet.sendTo rfl
    exact (Quiet.refl w).modifyPlayer fun _ => ⟨rfl,le_rfl,rfl⟩

theorem quiet_hide (q : CPlayer F) (w : World F) : Quiet w (w.hide id q) := by
  simp only [World.hide]
  split_ifs
  · exact .refl w
  · apply Quiet.sendTo rfl
    exact (Quiet.refl w).modifyPlayer fun _ => ⟨rfl,le_rfl,rfl⟩

theorem quiet_hideOff (q : CPlayer F) (w : World F) : Quiet w (w.hideOff id q) := by
  simp only [World.hideOff]
  split_ifs
  · exact .refl w
  · apply Quiet.sendTo rfl
    exact (Quiet.refl w).modifyPlayer fun _ => ⟨rfl,le_rfl,rfl⟩

theorem quiet_setMoveState (q : CPlayer F) (state : ℤ) (w : World F) :
    Quiet w (w.setMoveState id q state) := by
  simp only [World.setMoveState]
  split_ifs
  · exact .refl w
  · apply Quiet.sendTo rfl
    exact (Quiet.refl w).modifyPlayer fun _ => ⟨rfl,le_rfl,rfl⟩

theorem quiet_putOn (wpn : Weapon) (w : World F) : Quiet w (w.putOn id wpn) := by
  apply Quiet.sendTo
  · cases wpn <;> rfl
  · exact (Quiet.refl w).modifyPlayer fun _ => ⟨rfl,le_rfl,rfl⟩

theorem quiet_takeOff (q : CPlayer F) (wpn : Weapon) (w : World F) :
    Quiet w (w.takeOff id q wpn) := by
  simp only [World.takeOff]
  split_ifs
  · exact ((Quiet.refl w).sendTo rfl).modifyPlayer fun _ => ⟨rfl,le_rfl,rfl⟩
  · exact .refl w

theorem quiet_weaponOn (q : CPlayer F) (wpn : Weapon) (w : World F) :
    Quiet w (w.weaponOn id q wpn) := by
  simp only [World.weaponOn]
  split_ifs
  · exact quiet_takeOff q wpn w
  · exact quiet_putOn wpn w

theorem quiet_weaponOff (q : CPlayer F) (wpn : Weapon) (w : World F) :
    Quiet w (w.weaponOff id q wpn) := by
  simp only [World.weaponOff]
  split_ifs
  · exact quiet_putOn wpn w
  · exact quiet_takeOff q wpn w

theorem quiet_onWeaponOn (q : CPlayer F) (w : World F) : Quiet w (w.onWeaponOn id q) := by
  simp only [World.onWeaponOn]
  split_ifs
  · exact .refl w
  · apply Quiet.sendTo rfl
    exact (Quiet.refl w).modifyPlayer fun _ => ⟨rfl,le_rfl,rfl⟩

theorem quiet_onWeaponOff (q : CPlayer F) (w : World F) : Quiet w (w.onWeaponOff id q) := by
  apply Quiet.sendTo rfl
  exact (Quiet.refl w).modifyPlayer fun _ => ⟨rfl,le_rfl,rfl⟩

theorem quiet_onBossAttack (buf : Buffer) (w : World F) : Quiet w (w.onBossAttack id buf) := by
  simp only [World.onBossAttack]
  split_ifs
  · exact (Quiet.refl w).sendTo rfl
  · exact .refl w

theorem quiet_bonePart (bones : ℕ → ℤ) (w : World F) (part : Part × ℕ) :
    Quiet w (bonePart bones w part) := by
  unfold bonePart
  split
  · exact .refl w
  · dsimp only
    split_ifs
    · exact (Quiet.refl w).setBoss.sendTo rfl
    · exact (Quiet.refl w).setBoss
    · exact .refl w

theorem quiet_boneMapUpdate (bones : ℕ → ℤ) (w : World F) : Quiet w (w.boneMapUpdate bones) :=
  KeyedFold.foldl_related .refl .trans (quiet_bonePart bones) boneParts w

theorem onPlayer_some {f : CPlayer F → World F → World F} {q : CPlayer F}
    (hq : w.player id = some q) : w.onPlayer id f = .ok (f q w) := by
  simp only [onPlayer]
  rw [hq]

theorem onPlayer_spec {f : CPlayer F → World F → World F} (h : w.onPlayer id f = .ok w') :
    ∃ q, w.player id = some q ∧ w' = f q w := by
  unfold onPlayer at h
  split at h
  · cases h
  · rename_i q hq
    cases h
    exact ⟨q,hq,rfl⟩

theorem quiet_onPlayer {f : CPlayer F → World F → World F} (hf : ∀ p w, Quiet w (f p w))
    (h : w.onPlayer id f = .ok w') : Quiet w w' := by
  obtain ⟨q,-,rfl⟩ := onPlayer_spec h
  exact hf q w

theorem Keeps.sendTo {l : List Slot} (h : Keeps w w') : Keeps w (w'.sendTo l p) :=
  h.trans (keeps_sendTo l p w')

theorem Keeps.addView {j : Slot} (h : Keeps w w') :
    Keeps w (w'.modifyPlayer i (CPlayer.addView j)) :=
  h.trans (keeps_modifyPlayer (f := CPlayer.addView j) (fun _ => ⟨rfl,le_rfl⟩) w')

theorem Quiet.replay {j : Slot} {other : CPlayer F} (h : Quiet w w') :
    Quiet w (w'.replay id j other) := by
  simp only [World.replay]
  apply Quiet.sendTo rfl
  split
  · exact h.sendTo rfl
  · exact h.sendTo rfl
  · exact h

theorem keeps_meet (id : Slot) (w : World F) (i : Slot) : Keeps w (meet id w i) := by
  simp only [meet]
  split
  · split_ifs
    · exact .refl w
    · exact (Keeps.refl w).addView.addView.sendTo.sendTo.trans (Quiet.refl _).replay.toKeeps
  · exact .refl w

theorem keeps_foldl_meet (id : Slot) (l : List Slot) (w : World F) :
    Keeps w (l.foldl (meet id) w) :=
  KeyedFold.foldl_related .refl .trans (keeps_meet id) l w

theorem quiet_showMonster (id : Slot) (w : World F) (i : MonsterId) :
    Quiet w (showMonster id w i) := by
  simp only [showMonster]
  split
  · split_ifs
    · exact .refl w
    · exact (Quiet.refl w).sendTo rfl
  · exact .refl w

theorem quiet_foldl_showMonster (id : Slot) (l : List MonsterId) (w : World F) :
    Quiet w (l.foldl (showMonster id) w) :=
  KeyedFold.foldl_related .refl .trans (quiet_showMonster id) l w

/-- After its loop over the players, EnterGame announces nobody. -/
theorem quiet_enterGame (id : Slot) (w : World F) :
    Quiet (slots.foldl (meet id) w) (w.enterGame id) := by
  simp only [enterGame]
  split_ifs
  · exact (quiet_foldl_showMonster id monsterIds _).sendTo rfl
  · exact quiet_foldl_showMonster id monsterIds _

theorem keeps_enterGame (id : Slot) (w : World F) : Keeps w (w.enterGame id) :=
  (keeps_foldl_meet id slots w).trans (quiet_enterGame id w).toKeeps

/-- Login of two strings that fit. -/
theorem login_of_fits {name pass : List Byte} (hname : name.length < maxLen)
    (hpass : pass.length < maxLen) (character : ℤ) : w.login i name pass character =
      (w.addQuary i .evLogin ⟨name,hname⟩ ⟨pass,hpass⟩).onPlayer i fun _ w =>
        w.modifyPlayer i (CPlayer.setObjType character) := by
  simp only [login, strcpyS]
  rw [dif_pos hname, dif_pos hpass]
  rfl

/-- Other strings end the process. -/
theorem login_fits {name pass : List Byte} {character : ℤ}
    (h : w.login i name pass character = .ok w') : name.length < maxLen ∧ pass.length < maxLen := by
  obtain ⟨n,hname,h⟩ := bind_eq_ok.mp h
  obtain ⟨q,hpass,-⟩ := bind_eq_ok.mp h
  simp only [strcpyS] at hname hpass
  split_ifs at hname with hfits
  split_ifs at hpass with hfits'
  exact ⟨hfits,hfits'⟩

/-- A login that returns has queued its event for a present player. -/
theorem login_spec {name pass : List Byte} {character : ℤ}
    (h : w.login i name pass character = .ok w') : (w.player i).isSome ∧ ∃ n q,
      w' = (w.addQuary i .evLogin n q).modifyPlayer i (CPlayer.setObjType character) := by
  obtain ⟨hname,hpass⟩ := login_fits h
  rw [login_of_fits hname hpass] at h
  obtain ⟨p,hp,rfl⟩ := onPlayer_spec h
  exact ⟨Option.isSome_of_mem hp,_,_,rfl⟩

theorem quiet_login {name pass : List Byte} {character : ℤ}
    (h : w.login i name pass character = .ok w') : Quiet w w' := by
  obtain ⟨hp,n,q,rfl⟩ := login_spec h
  exact ((Quiet.refl w).addQuary hp).modifyPlayer fun _ => ⟨rfl,le_rfl,rfl⟩

section Handlers
variable [FloatArith F]

theorem Quiet.strike {k : MonsterId} {m : CMonster F} {damage : ℤ} (h : Quiet w w') :
    Quiet w (w'.strike id k m damage) := by
  simp only [World.strike]
  split_ifs
  · apply Quiet.killMonster
    apply Quiet.record rfl
    exact h.setMonster
  · apply Quiet.sendTo rfl
    apply Quiet.record rfl
    exact h.setMonster

theorem quiet_sweepOne {k : Sweep F} (hb : ∀ m s, Quiet s.1 (k.before id m s).1)
    (ha : ∀ w, Quiet w (k.after id w)) (s : World F × Bool) (i : MonsterId) :
    Quiet s.1 (sweepOne k id s i).1 := by
  simp only [sweepOne]
  split
  · split_ifs
    · exact .refl _
    · exact .refl _
    · exact (hb _ s).strike.trans (ha _)
    · exact .refl _
  · exact .refl _

theorem sweepOver_eq_foldl {k : Sweep F} (l : List MonsterId) (s : World F × Bool) :
    sweepOver k id l s = (l.foldl (sweepOne k id) s).1 := by
  induction l generalizing s with
  | nil => rfl
  | cons i l ih => exact ih _

/-- A sweep is quiet when what it does around the damage is. -/
theorem Quiet.sweep {k : Sweep F} (hb : ∀ m s, Quiet s.1 (k.before id m s).1)
    (ha : ∀ w, Quiet w (k.after id w)) (h : Quiet w w') : Quiet w (w'.sweep k id) := by
  rw [World.sweep, sweepOver_eq_foldl]
  exact h.trans (KeyedFold.foldl_related (R := fun s t : World F × Bool => Quiet s.1 t.1)
    (fun s => .refl s.1) .trans (quiet_sweepOne hb ha) monsterIds (w',false))

theorem quiet_faceFirst (id : Slot) (m : CMonster F) (s : World F × Bool) :
    Quiet s.1 (faceFirst id m s).1 := by
  have hturn : Quiet s.1 (s.1.modifyPlayer id fun p =>
      { p with rotation := { p.rotation with y := getDegree p.pos m.pos } }) :=
    (Quiet.refl s.1).modifyPlayer fun _ => ⟨rfl,le_rfl,rfl⟩
  unfold faceFirst
  split_ifs
  · exact .refl _
  · dsimp only
    split
    · exact hturn
    · exact hturn.sendTo rfl

theorem Quiet.attckBoss (h : Quiet w w') : Quiet w (w'.attckBoss id) := by
  simp only [World.attckBoss]
  split
  · split_ifs
    · simp only [World.bossTakeDamage]
      split
      · exact h.record rfl
      · split_ifs
        · apply Quiet.sendTo rfl
          apply Quiet.setBoss (h.record rfl)
        · apply Quiet.setBoss (h.record rfl)
    · exact h
  · exact h

theorem quiet_evade (q : CPlayer F) (now : ℕ) (w : World F) : Quiet w (w.evade id q now) := by
  have hset : Quiet w (w.modifyPlayer id fun p => { p with isEvade := true }) :=
    (Quiet.refl w).modifyPlayer fun _ => ⟨rfl,le_rfl,rfl⟩
  unfold World.evade
  split_ifs
  · exact .refl w
  · apply Quiet.addTimer (by simp)
    split_ifs
    · exact hset.sendTo rfl
    · exact hset.sendTo rfl

theorem quiet_attck (q : CPlayer F) (now : ℕ) (w : World F) : Quiet w (w.attck id q now) := by
  simp only [World.attck]
  split_ifs
  · exact .refl w
  · exact .refl w
  · apply Quiet.addTimer (by simp)
    apply Quiet.attckBoss
    apply Quiet.sweep (quiet_faceFirst id) (fun w => .refl w)
    apply Quiet.sendTo rfl
    exact (Quiet.refl w).modifyPlayer fun _ => ⟨rfl,le_rfl,rfl⟩

theorem quiet_berserk (q : CPlayer F) (now : ℕ) (w : World F) : Quiet w (w.berserk id q now) := by
  simp only [World.berserk]
  split_ifs
  · exact .refl w
  · exact .refl w
  · refine Quiet.berserkTimer (fun p => ⟨rfl,le_rfl,rfl⟩) ?_
    apply Quiet.sweep (fun _ s => .refl s.1) (fun w => .refl w)
    exact (Quiet.refl w).sendTo rfl

theorem quiet_assassinate (q : CPlayer F) (now : ℕ) (w : World F) :
    Quiet w (w.assassinate id q now) := by
  simp only [World.assassinate]
  split_ifs
  · exact .refl w
  · apply Quiet.addTimer (by simp)
    refine Quiet.sweep (fun _ s => .refl s.1) (fun w => ?_) ((Quiet.refl w).sendTo rfl)
    simp only [assassinateSweep]
    exact (Quiet.refl w).modifyPlayer fun _ => ⟨rfl,le_rfl,rfl⟩

theorem setPosition_state (q : CPlayer F) (pos : Position F) :
    (q.setPosition pos).state = q.state ∧ q.atkPoint ≤ (q.setPosition pos).atkPoint ∧
      (q.setPosition pos).viewList = q.viewList := by
  simp only [CPlayer.setPosition]
  split_ifs
  · exact ⟨rfl,le_rfl,rfl⟩
  · exact ⟨rfl,le_rfl,rfl⟩

theorem setVelocity_state (q : CPlayer F) (v : Position F) :
    (q.setVelocity v).state = q.state ∧ q.atkPoint ≤ (q.setVelocity v).atkPoint ∧
      (q.setVelocity v).viewList = q.viewList := by
  simp only [CPlayer.setVelocity]
  split_ifs
  · exact ⟨rfl,le_rfl,rfl⟩
  · exact ⟨rfl,le_rfl,rfl⟩

theorem Quiet.moveTo {pos : Position F} (h : Quiet w w') : Quiet w (w'.moveTo id pos) := by
  have hset : Quiet w (w'.modifyPlayer id fun p => p.setPosition pos) :=
    h.modifyPlayer fun p => setPosition_state p pos
  simp only [World.moveTo]
  split
  · exact hset
  · exact hset.sendTo rfl

theorem quiet_onMove (buf : Buffer) (w : World F) : Quiet w (w.onMove id buf) := by
  simp only [World.onMove, ifPlayer]
  split
  · exact .refl w
  · apply Quiet.moveTo
    exact (Quiet.refl w).modifyPlayer fun p => setVelocity_state p _

theorem quiet_onBossMove (buf : Buffer) (w : World F) : Quiet w (w.onBossMove id buf) := by
  simp only [World.onBossMove]
  split
  · exact .refl w
  · exact (Quiet.refl w).setBoss.sendTo rfl

theorem updateWithClient_pos (m : CMonster F) (w : World F) :
    (w.updateWithClient m).pos = m.pos := by
  simp only [updateWithClient]
  split_ifs
  · split
    · rfl
    · rfl
  · rfl

theorem quiet_onNpcMove (buf : Buffer) (w : World F) : Quiet w (w.onNpcMove buf) := by
  simp only [World.onNpcMove]
  split_ifs
  · split
    · exact .refl w
    · split
      · exact .refl w
      · exact (Quiet.refl w).setMonster
  · exact .refl w

/-- Every packet but a login is quiet. -/
theorem quiet_onType {t : CsType} {buf : Buffer} {now : Now} (ht : t ≠ .csLogin)
    (h : w.onType t id buf now = .ok w') : Quiet w w' := by
  cases t with
  | csLogin => exact absurd rfl ht
  | csSignup =>
    cases h
    exact (Quiet.refl w).sendTo (by split <;> rfl)
  | csFireball =>
    refine Quiet.trans ?_ (quiet_onPlayer (fun _ w => (Quiet.refl w).sendTo rfl) h)
    exact (Quiet.refl w).modifyPlayer fun p => setPosition_state p _
  | movePacket => cases h; exact quiet_onMove buf w
  | csChat => cases h; exact .refl w
  | csSyncFail => cases h; exact .refl w
  | csJump => cases h; exact (Quiet.refl w).sendTo rfl
  | csBossMove => cases h; exact quiet_onBossMove buf w
  | csNpcMove => cases h; exact quiet_onNpcMove buf w
  | csBossAttack => cases h; exact quiet_onBossAttack buf w
  | csBossBone =>
    cases h
    simp only [onBossBone]
    split_ifs
    · exact quiet_boneMapUpdate _ w
    · exact .refl w
  | csUpdateMoveState =>
    cases h
    simp only [ifPlayer]
    split
    · exact .refl w
    · exact quiet_setMoveState _ _ w
  | csAttack => exact quiet_onPlayer (fun p w => quiet_attck p _ w) h
  | csGuard => exact quiet_onPlayer (fun p w => quiet_guard p _ w) h
  | csEvade => exact quiet_onPlayer (fun p w => quiet_evade p _ w) h
  | csWeaponOn => exact quiet_onPlayer (fun p w => quiet_onWeaponOn p w) h
  | csWeaponOff => exact quiet_onPlayer (fun p w => quiet_onWeaponOff p w) h
  | csBerserk => exact quiet_onPlayer (fun p w => quiet_berserk p _ w) h
  | csReady => exact quiet_onPlayer (fun _ w => quiet_ready w) h
  | csHide => exact quiet_onPlayer (fun p w => quiet_hide p w) h
  | csHideOff => exact quiet_onPlayer (fun p w => quiet_hideOff p w) h
  | csAssassin => exact quiet_onPlayer (fun p w => quiet_assassinate p _ w) h
  | csMoveStop => exact quiet_onPlayer (fun _ w => (Quiet.refl w).sendTo rfl) h
  | csSwordOn => exact quiet_onPlayer (fun p w => quiet_weaponOn p _ w) h
  | csSwordOff => exact quiet_onPlayer (fun p w => quiet_weaponOff p _ w) h
  | csHammerOn => exact quiet_onPlayer (fun p w => quiet_weaponOn p _ w) h
  | csHammerOff => exact quiet_onPlayer (fun p w => quiet_weaponOff p _ w) h

theorem keeps_onType {t : CsType} {buf : Buffer} {now : Now} (h : w.onType t id buf now = .ok w') :
    Keeps w w' := by
  by_cases ht : t = .csLogin
  · subst ht
    unfold onType at h
    cases hlogin : w.login id (buf.cString 2) (buf.cString 12) (buf.byteAt 22).toInt with
    | error e => rw [hlogin] at h; cases h
    | ok v =>
      rw [hlogin] at h
      obtain ⟨q,-,rfl⟩ := onPlayer_spec (w := v) h
      exact (quiet_login hlogin).toKeeps.trans (keeps_enterGame id v)
  · exact (quiet_onType ht h).toKeeps

/-- The process goes on only after a packet of a known type. -/
theorem processPacket_spec {buf : Buffer} {now : Now} (h : w.processPacket id buf now = .ok w') :
    ∃ t, CsType.ofByte (buf.byteAt 1) = some t ∧ w.onType t id buf now = .ok w' := by
  unfold processPacket at h
  split at h
  · rename_i t ht
    exact ⟨t,ht,h⟩
  · cases hd : w.disconnect id with
    | error e => rw [hd] at h; cases h
    | ok v => rw [hd] at h; cases h

/-- A packet whose handling returns changes no connection and creates or removes no player. -/
theorem keeps_processPacket {buf : Buffer} {now : Now}
    (h : w.processPacket id buf now = .ok w') : Keeps w w' := by
  obtain ⟨t,-,hok⟩ := processPacket_spec h
  exact keeps_onType hok

end Handlers

end World

end LastHero
