import LastHero.Threads.Announce
import LastHero.Threads.Sessions

/-! What the clients know of the other players. A client is told of changes while it is connected,
and by EnterGame of what it has missed, unless EnterGame does not speak of it. -/
namespace LastHero
variable {F β : Type} [FloatArith F]

/-- A member of CPlayer and the packets that tell of it. -/
structure Shown (F β : Type) [FloatArith F] where
  get : CPlayer F → β
  /-- what a client shows before it is told anything, and what Initialize sets -/
  init : β
  /-- what a client makes of a packet -/
  tell : Packet F → (Slot → β) → Slot → β
  /-- EnterGame tells of the living players -/
  replayed : Bool
  tell_tell : ∀ p v, tell p (tell p v) = tell p v
  tell_login : ∀ p v, p.AboutLogin → tell p v = v
  get_new : ∀ heap, get (CPlayer.new heap) = get heap
  get_setObjType : ∀ type p, get (CPlayer.setObjType type p) = get p
  get_setCredentials : ∀ name pass p, get (CPlayer.setCredentials name pass p) = get p
  get_skillOff : ∀ kind now p, get (CPlayer.skillOff kind now p) = get p
  get_addView : ∀ p i, get (CPlayer.addView i p) = get p
  get_initialized : ∀ r now p, get (World.initialized r now p) = init

namespace Shown
variable {φ : Shown F β}

/-- What the clients should show for a slot. -/
def value (φ : Shown F β) (w : World F) (i : Slot) : β := ((w.player i).map φ.get).getD φ.init

/-- A packet reaches one client. -/
def act (φ : Shown F β) (v : Slot → Slot → β) : Act F → Slot → Slot → β
  | .send c p => Function.update v c (φ.tell p (v c))
  | _ => v

/-- EnterGame of `uid` tells the client `c` of the player of slot `i`. -/
def informs (φ : Shown F β) (w : World F) (uid c i : Slot) : Bool :=
  c = uid && φ.replayed && World.meets uid w i

/-- What the packets between two states make of the views. -/
def Shows (φ : Shown F β) (v : Slot → Slot → β) (w w' : World F) (v' : Slot → Slot → β) : Prop :=
  ∃ new, w'.trace = w.trace ++ new ∧ new.foldl φ.act v = v'

/-- A step that gives a slot a new player, or initialises its player, changes nothing that is
shown: no packet tells of it. -/
def Unseen (φ : Shown F β) (w : World F) : SessionInput F → Prop
  | .accept heap => w.freeSlot.isSome → φ.get heap = φ.init
  | .dbFinish (.row _) _ _ => ∀ ev, w.handling = some ev → φ.value w ev.userId = φ.init
  | _ => True

variable {w w' w'' : World F} {v v' v'' : Slot → Slot → β} {c i uid : Slot} {p : CPlayer F}

/-- Whether another player lives decides whether a client is told of it. -/
theorem informs_iff (hp : (w.player uid).isSome) (hne : uid ≠ i) :
    φ.informs w uid uid i = true ↔
      φ.replayed = true ∧ (w.player i).any CPlayer.isAlive = true := by
  simp [informs, World.meets, hp, hne]

/-- EnterGame does not change whom it tells of whom. -/
theorem informs_enterGame : φ.informs (w.enterGame uid) uid = φ.informs w uid := by
  have hk := World.keeps_enterGame uid w
  funext c i
  simp only [informs]
  rw [World.meets_congr (hk.isSome uid) (World.map_enterGame (fun _ _ => rfl) uid w i)]

theorem value_some (h : w.player i = some p) : φ.value w i = φ.get p := by
  simp only [value]
  rw [h]
  rfl

theorem value_none (h : w.player i = none) : φ.value w i = φ.init := by
  simp only [value]
  rw [h]
  rfl

/-- Only a player that is there can be in need of being told of. -/
theorem isSome_of_value (h : φ.value w i ≠ φ.init) : (w.player i).isSome := by
  rw [Option.isSome_iff_ne_none]
  exact fun hnone => h (value_none hnone)

theorem value_modifyPlayer {f : CPlayer F → CPlayer F} (hf : ∀ p, φ.get (f p) = φ.get p) :
    φ.value (w.modifyPlayer uid f) = φ.value w := by
  funext j
  simp only [value]
  rw [World.map_modifyPlayer hf]

theorem value_set {f : CPlayer F → CPlayer F} {b : β} (hf : ∀ p, φ.get (f p) = b)
    (hp : (w.player uid).isSome) :
    φ.value (w.modifyPlayer uid f) = Function.update (φ.value w) uid b := by
  obtain ⟨p,hp⟩ := Option.isSome_iff_exists.mp hp
  funext i
  simp only [value]
  rw [World.modifyPlayer_player, Function.update_apply]
  split_ifs with hi
  · rw [hp]
    exact hf p
  · rfl

theorem value_congr (h : w'.player = w.player) : φ.value w' = φ.value w := by
  funext i
  simp only [value]
  rw [h]

theorem value_meet (uid i : Slot) (w : World F) : φ.value (World.meet uid w i) = φ.value w := by
  funext j
  simp only [value]
  rw [World.map_meet φ.get_addView]

theorem value_enterGame (uid : Slot) (w : World F) : φ.value (w.enterGame uid) = φ.value w := by
  funext j
  simp only [value]
  rw [World.map_enterGame φ.get_addView]

theorem value_accept (heap : CPlayer F) (hfree : w.freeSlot = some i) :
    φ.value (w.accept heap) = Function.update (φ.value w) i (φ.get heap) := by
  funext j
  simp only [value]
  rw [World.accept_player heap hfree, Function.update_apply, Function.update_apply]
  split_ifs
  · exact φ.get_new heap
  · rfl

theorem Shows.refl (h : w'.trace = w.trace) : φ.Shows v w w' v := ⟨[],by simp [h],rfl⟩

theorem Shows.trans (h : φ.Shows v w w' v') (h' : φ.Shows v' w' w'' v'') :
    φ.Shows v w w'' v'' := by
  obtain ⟨new,ht,rfl⟩ := h
  obtain ⟨new',ht',rfl⟩ := h'
  exact ⟨new ++ new',by rw [ht', ht, List.append_assoc],List.foldl_append ..⟩

theorem Shows.congr {u : Slot → Slot → β} (h : φ.Shows v w w' v') (hu : ∀ c i, u c i = v' c i) :
    φ.Shows v w w' u := by
  obtain rfl : u = v' := funext fun c => funext (hu c)
  exact h

theorem shows_sendTo (l : List Slot) (p : Packet F) (v : Slot → Slot → β) (w : World F) :
    φ.Shows v w (w.sendTo l p) fun c => if c ∈ l then φ.tell p (v c) else v c := by
  refine ⟨_,rfl,?_⟩
  rw [List.foldl_map]
  exact KeyedFold.foldl_update (φ.tell_tell p) l v

/-- Packets that are about something else. -/
theorem Shows.sendTo {l : List Slot} {p : Packet F} (hp : ∀ v, φ.tell p v = v)
    (h : φ.Shows v w w' v') : φ.Shows v w (w'.sendTo l p) v' := by
  have hsame : φ.Shows v' w' (w'.sendTo l p) _ := shows_sendTo l p v' w'
  simp only [hp, ite_self] at hsame
  exact h.trans hsame

/-- Acts of which no client learns anything. -/
theorem Shows.record {a : Act F} (ha : ∀ v, φ.act v a = v) (h : φ.Shows v w w' v') :
    φ.Shows v w (w'.record a) v' := h.trans ⟨[a],rfl,ha v'⟩

theorem shows_broadcast (p : Packet F) (v : Slot → Slot → β) (w : World F) :
    φ.Shows v w (w.broadcast p) fun c => if (w.player c).isSome then φ.tell p (v c) else v c := by
  have hmem : ∀ c, c ∈ w.connected ↔ (w.player c).isSome = true := by
    simp [World.connected, mem_slots]
  have hshow : φ.Shows v w (w.broadcast p) _ := shows_sendTo w.connected p v w
  simp only [hmem] at hshow
  exact hshow

/-- Answers to logins are about nothing that is shown. -/
theorem shows_answers (h : World.Answers w w') : φ.Shows v w w' v := by
  obtain ⟨new,ht,hnew⟩ := h
  refine ⟨new,ht,List.foldlRecOn (motive := fun u => u = v) new _ rfl fun u hu a ha => ?_⟩
  subst hu
  cases a with
  | send c p =>
    simp only [act]
    rw [φ.tell_login p _ (hnew c p ha), Function.update_eq_self]
  | hit | kill | hitBoss | updateUser => rfl

theorem unseen_iff_value {a : SessionInput F} {f : CPlayer F → CPlayer F}
    (h : World.Touches w a f i) : φ.Unseen w a ↔ φ.value (w.modifyPlayer i f) = φ.value w := by
  cases h with
  | login uid id password character =>
    exact iff_of_true trivial (value_modifyPlayer (φ.get_setObjType character))
  | take outcome heap name pass i =>
    exact iff_of_true trivial (value_modifyPlayer (φ.get_setCredentials name pass))
  | off k now kind i => exact iff_of_true trivial (value_modifyPlayer (φ.get_skillOff kind now))
  | row hh =>
    rename_i r heap now ev
    have hrow : φ.Unseen w (.dbFinish (.row r) heap now) ↔ φ.value w ev.userId = φ.init := by
      simp only [Unseen]
      rw [hh]
      simp
    have hinit : ∀ p, φ.get (World.initialized r now p) = φ.init := φ.get_initialized r now
    rw [hrow]
    cases hp : (w.player ev.userId).isSome with
    | true =>
      rw [value_set hinit hp, Function.update_eq_self_iff]
      exact eq_comm
    | false =>
      have hnone : w.player ev.userId = none := by simpa using hp
      refine iff_of_true (value_none hnone) (value_congr ?_)
      simp [World.modifyPlayer, World.setPlayer, hnone]

/-- Nobody is accepted or initialised. -/
theorem unseen_idle {a : SessionInput F} (hnew : w.accepts a = none)
    (hidle : ∀ r heap now, a = .dbFinish (.row r) heap now → w.handling = none) :
    φ.Unseen w a := by
  cases a with
  | accept heap =>
    intro hfree
    rw [show w.freeSlot = none from hnew] at hfree
    cases hfree
  | dbFinish outcome heap now =>
    cases outcome with
    | row r =>
      intro ev hev
      rw [hidle r heap now rfl] at hev
      cases hev
    | fail | noRow => trivial
  | login | dbTake | timer => trivial

end Shown

/-- The server and what its clients show of each other. -/
structure Viewers (φ : Shown F β) where
  world : World F
  view : Slot → Slot → β
  /-- the clients that went through EnterGame -/
  joined : Finset Slot
  /-- history: what changed before a client was connected, and has not changed since nor been told
  to that client -/
  missed : Slot → Slot → Bool

namespace Viewers
variable [DecidableEq β] {φ : Shown F β}

/-- The clients receive what a step sends. -/
def receive (s : Viewers φ) (w' : World F) : Viewers φ :=
  { s with
    world := w'
    view := (w'.trace.drop s.world.trace.length).foldl φ.act s.view
    missed := fun c i => s.missed c i && decide (φ.value w' i = φ.value s.world i) }

/-- A new client has seen nothing. -/
def welcome (i : Slot) (s : Viewers φ) : Viewers φ :=
  { s with
    view := Function.update s.view i fun _ => φ.init
    joined := s.joined.erase i
    missed := Function.update s.missed i fun j => decide (φ.value s.world j ≠ φ.init) }

/-- A client has gone through EnterGame. -/
def join (uid : Slot) (s : Viewers φ) : Viewers φ :=
  { s with
    joined := insert uid s.joined
    missed := fun c i => s.missed c i && !φ.informs s.world uid c i }

/-- A connection, a login, DB_Thread or TimerThread. -/
def session (s : Viewers φ) (a : SessionInput F) : Option (Viewers φ) :=
  (s.world.next a.toInput).map fun w =>
    (s.world.accepts a).elim (s.receive w) fun i => welcome i (s.receive w)

/-- EnterGame, by itself. -/
def enter (s : Viewers φ) (uid : Slot) : Option (Viewers φ) :=
  (s.world.onPlayer uid fun _ w => w.enterGame uid).toOption.map fun w => join uid (s.receive w)

/-- A packet of the game. -/
def handle (s : Viewers φ) (uid : Slot) (f : CPlayer F → World F → World F) : Option (Viewers φ) :=
  (s.world.onPlayer uid f).toOption.map s.receive

/-- The players that a client shows: all, once it has joined, and its own before. -/
def InGame (s : Viewers φ) (c i : Slot) : Prop := c = i ∨ c ∈ s.joined

/-- Every client shows what is so. -/
def Agree (s : Viewers φ) : Prop :=
  ∀ c i p, s.world.player i = some p → s.InGame c i → s.view c i = φ.get p

/-- Nobody is connected yet. -/
def start (φ : Shown F β) : Viewers φ :=
  ⟨World.start,fun _ _ => φ.init,∅,fun _ _ => false⟩

/-- Clients show what is so, but for what they have missed. -/
structure Inv (s : Viewers φ) : Prop where
  db : World.DbInv s.world
  joined : ∀ c ∈ s.joined, (s.world.player c).isSome
  view : ∀ c i, (s.world.player c).isSome →
    s.view c i = if s.missed c i then φ.init else φ.value s.world i
  missed : ∀ c i, s.missed c i = true → φ.value s.world i ≠ φ.init

variable {s t : Viewers φ} {w' : World F} {i uid : Slot}

theorem receive_view {v : Slot → Slot → β} (h : φ.Shows s.view s.world w' v) :
    (s.receive w').view = v := by
  obtain ⟨new,ht,rfl⟩ := h
  simp only [receive]
  rw [ht, List.drop_left]

theorem receive_self (s : Viewers φ) : s.receive s.world = s := by
  simp only [receive]
  rw [List.drop_length]
  simp

theorem handle_spec {f : CPlayer F → World F → World F} (h : s.handle uid f = some t) :
    ∃ p, s.world.player uid = some p ∧ t = s.receive (f p s.world) := World.onPlayer_map_spec h

theorem handle_some {f : CPlayer F → World F → World F} {p : CPlayer F}
    (hp : s.world.player uid = some p) : s.handle uid f = some (s.receive (f p s.world)) := by
  simp only [handle]
  rw [World.onPlayer_some hp]
  rfl

theorem enter_some {p : CPlayer F} (hp : s.world.player uid = some p) :
    s.enter uid = some (join uid (s.receive (s.world.enterGame uid))) := by
  simp only [enter]
  rw [World.onPlayer_some hp]
  rfl

theorem receive_missed (s : Viewers φ) (c i : Slot) : (s.receive w').missed c i =
    (s.missed c i && decide (φ.value w' i = φ.value s.world i)) := rfl

omit [DecidableEq β] in
theorem Inv.present (h : Inv s) {c i : Slot} (hi : (s.world.player i).isSome)
    (hg : s.InGame c i) : (s.world.player c).isSome := by
  cases hg with
  | inl hci => exact hci ▸ hi
  | inr hc => exact h.joined c hc

omit [DecidableEq β] in
theorem Inv.agree_iff (h : Inv s) : s.Agree ↔ ∀ c i, s.InGame c i → s.missed c i = false := by
  constructor
  · intro ha c i hg
    rw [← Bool.not_eq_true]
    intro hmissed
    have hvalue := h.missed c i hmissed
    have hi := Shown.isSome_of_value hvalue
    obtain ⟨p,hp⟩ := Option.isSome_iff_exists.mp hi
    have hview := h.view c i (h.present hi hg)
    rw [ha c i p hp hg, if_pos hmissed, ← Shown.value_some hp] at hview
    exact hvalue hview
  · intro hnone c i p hp hg
    rw [h.view c i (h.present (Option.isSome_of_mem hp) hg), hnone c i hg, if_neg Bool.false_ne_true,
      Shown.value_some hp]

/-- Everybody is told of what changes. -/
theorem Inv.told (h : Inv s) (ha : s.Agree) (hdb : World.DbInv w')
    (hsome : ∀ i, (w'.player i).isSome = (s.world.player i).isSome)
    (hview : ∀ c i, (s.world.player c).isSome → (s.receive w').view c i =
      if φ.value w' i = φ.value s.world i then s.view c i else φ.value w' i) :
    Inv (s.receive w') ∧ (s.receive w').Agree := by
  have hinv : Inv (s.receive w') := by
    refine ⟨hdb,fun c hc => (hsome c).trans (h.joined c hc),fun c i hc => ?_,fun c i hm => ?_⟩
    · have hc : (s.world.player c).isSome := (hsome c).symm.trans hc
      rw [hview c i hc, h.view c i hc, receive_missed]
      change _ = if _ then _ else φ.value w' i
      by_cases hsame : φ.value w' i = φ.value s.world i
      · simp [hsame]
      · simp [hsame]
    · rw [receive_missed, Bool.and_eq_true, decide_eq_true_eq] at hm
      change φ.value w' i ≠ _
      rw [hm.2]
      exact h.missed c i hm.1
  refine ⟨hinv,hinv.agree_iff.mpr fun c i hg => ?_⟩
  rw [receive_missed, h.agree_iff.mp ha c i hg, Bool.false_and]

/-- Everybody who is there is told of one player. -/
theorem Inv.turn {b : β} (h : Inv s) (ha : s.Agree) (hk : s.world.Keeps w')
    (hvalue : φ.value w' = Function.update (φ.value s.world) uid b)
    (hne : φ.value s.world uid ≠ b) (hview : ∀ c, (s.world.player c).isSome →
      (s.receive w').view c = Function.update (s.view c) uid b) :
    Inv (s.receive w') ∧ (s.receive w').Agree := by
  refine h.told ha (hk.dbInv h.db) hk.isSome fun c i hc => ?_
  rw [hview c hc, hvalue]
  by_cases hi : i = uid
  · subst hi
    rw [Function.update_self, Function.update_self, if_neg (Ne.symm hne)]
  · rw [Function.update_of_ne hi, Function.update_of_ne hi, if_pos rfl]

/-- Of a change that its own client is not told of, that client knows nothing. -/
theorem Agree.untold (ha : s.Agree) (hi : (s.world.player i).isSome) (hi' : (w'.player i).isSome)
    (hview : (s.receive w').view i i = s.view i i) (hne : φ.value w' i ≠ φ.value s.world i) :
    ¬ (s.receive w').Agree := by
  intro ha'
  obtain ⟨p,hp⟩ := Option.isSome_iff_exists.mp hi
  obtain ⟨p',hp'⟩ := Option.isSome_iff_exists.mp hi'
  refine hne ?_
  rw [Shown.value_some hp', Shown.value_some hp, ← ha i i p hp (Or.inl rfl), ← hview]
  exact (ha' i i p' hp' (Or.inl rfl)).symm

/-- A step that tells nothing keeps the clients right if nothing changes. -/
theorem Inv.silent (h : Inv s) (ha : s.Agree) (hdb : World.DbInv w')
    (hsome : ∀ i, (w'.player i).isSome = (s.world.player i).isSome)
    (hs : φ.Shows s.view s.world w' s.view) :
    (φ.value w' = φ.value s.world → Inv (s.receive w')) ∧
      ((s.receive w').Agree ↔ φ.value w' = φ.value s.world) := by
  have hsame : φ.value w' = φ.value s.world → Inv (s.receive w') ∧ (s.receive w').Agree := by
    intro heq
    refine h.told ha hdb hsome fun c i _ => ?_
    rw [receive_view hs, if_pos (congrFun heq i)]
  refine ⟨fun heq => (hsame heq).1,fun ha' => ?_,fun heq => (hsame heq).2⟩
  by_contra hne
  obtain ⟨i,hi⟩ := Function.ne_iff.mp hne
  have hpresent : (s.world.player i).isSome := by
    rw [← Bool.not_eq_false, Option.isSome_eq_false_iff, Option.isNone_iff_eq_none]
    intro hnone
    have hnone' : w'.player i = none := by
      rw [← Option.isNone_iff_eq_none, ← Option.isSome_eq_false_iff, hsome, hnone]
      rfl
    exact hi ((Shown.value_none hnone').trans (Shown.value_none hnone).symm)
  refine ha.untold hpresent ((hsome i).trans hpresent) ?_ hi ha'
  rw [receive_view hs]

theorem welcome_view (s : Viewers φ) (heap : CPlayer F) (i c j : Slot) :
    (welcome i (s.receive (s.world.accept heap))).view c j =
      if c = i then φ.init else s.view c j := by
  have hshows : φ.Shows s.view s.world (s.world.accept heap) s.view :=
    .refl (World.accept_trace heap s.world)
  simp only [welcome]
  rw [receive_view hshows, Function.update_apply]
  split_ifs
  · rfl
  · rfl

theorem welcome_missed {heap : CPlayer F} (hsame : φ.value (s.world.accept heap) = φ.value s.world)
    (i c j : Slot) : (welcome i (s.receive (s.world.accept heap))).missed c j =
      if c = i then decide (φ.value s.world j ≠ φ.init) else s.missed c j := by
  simp only [welcome]
  rw [Function.update_apply]
  split_ifs
  · exact congrArg (fun v : Slot → β => decide (v j ≠ φ.init)) hsame
  · rw [receive_missed, hsame]
    simp

omit [DecidableEq β] in
theorem Inv.free (h : Inv s) (hfree : s.world.freeSlot = some i) : s.world.player i = none := by
  have hconnected := h.db.player i
  rwa [World.freeSlot_spec hfree, Option.isSome_eq_false_iff, Option.isNone_iff_eq_none]
    at hconnected

/-- The other clients know nothing of the new player, and there is nothing to know. -/
theorem Inv.welcome_unseen {heap : CPlayer F} (h : Inv s) (hfree : s.world.freeSlot = some i)
    (hsame : φ.value (s.world.accept heap) = φ.value s.world) :
    Inv (welcome i (s.receive (s.world.accept heap))) := by
  have hsome : ∀ c, c ≠ i → ((s.world.accept heap).player c).isSome = (s.world.player c).isSome := by
    intro c hc
    rw [World.accept_player heap hfree, Function.update_of_ne hc]
  refine ⟨h.db.accept heap,fun c hc => ?_,fun c j hc => ?_,fun c j hm => ?_⟩
  · obtain ⟨hne,hc⟩ := Finset.mem_erase.mp hc
    exact (hsome c hne).trans (h.joined c hc)
  · rw [welcome_view, welcome_missed hsame]
    change _ = if _ then _ else φ.value (s.world.accept heap) j
    rw [hsame]
    split_ifs with hci hinit hm
    · rfl
    · simpa using (Eq.symm (by simpa using hinit) : φ.init = φ.value s.world j)
    · rw [h.view c j ((hsome c hci).symm.trans hc), if_pos hm]
    · rw [h.view c j ((hsome c hci).symm.trans hc), if_neg hm]
  · rw [welcome_missed hsame] at hm
    change φ.value (s.world.accept heap) j ≠ _
    rw [hsame]
    split_ifs at hm
    · exact of_decide_eq_true hm
    · exact h.missed c j hm

/-- A new client knows of nobody, and nobody of its player. -/
theorem Inv.welcome (h : Inv s) (ha : s.Agree) (heap : CPlayer F)
    (hfree : s.world.freeSlot = some i) :
    (φ.get heap = φ.init → Inv (welcome i (s.receive (s.world.accept heap)))) ∧
      ((welcome i (s.receive (s.world.accept heap))).Agree ↔ φ.get heap = φ.init) := by
  have hnone := h.free hfree
  by_cases hget : φ.get heap = φ.init
  · have hsame : φ.value (s.world.accept heap) = φ.value s.world := by
      rw [Shown.value_accept heap hfree, hget, ← Shown.value_none hnone, Function.update_eq_self]
    have hinv := h.welcome_unseen hfree hsame
    refine ⟨fun _ => hinv,iff_of_true (hinv.agree_iff.mpr fun c j hg => ?_) hget⟩
    rw [welcome_missed hsame]
    split_ifs with hci
    · obtain rfl : c = j := hg.resolve_right fun hg => (Finset.mem_erase.mp hg).1 hci
      rw [hci, Shown.value_none hnone]
      simp
    · exact h.agree_iff.mp ha c j (hg.imp id fun hg => (Finset.mem_erase.mp hg).2)
  · -- the new client does not know its own player
    refine ⟨fun heq => absurd heq hget,iff_of_false (fun ha' => hget ?_) hget⟩
    have hown := ha' i i (CPlayer.new heap) (by
      change (s.world.accept heap).player i = _
      rw [World.accept_player heap hfree, Function.update_self]) (Or.inl rfl)
    rw [welcome_view, if_pos rfl, φ.get_new] at hown
    exact hown.symm

/-- What the threads do around the packets goes unnoticed if it changes nothing, and is never
told otherwise. -/
theorem Inv.session {a : SessionInput F} (h : Inv s) (ha : s.Agree) (ht : s.session a = some t) :
    (φ.Unseen s.world a → Inv t) ∧ (t.Agree ↔ φ.Unseen s.world a) := by
  obtain ⟨w',hw',rfl⟩ := Option.map_eq_some_iff.mp ht
  have hdb := World.session_dbInv h.db hw'
  obtain ⟨hanswers,⟨heap,i,rfl,hfree,rfl⟩ | ⟨hnew,hplayer⟩⟩ := World.session_cases h.db hw'
  · have hunseen : φ.Unseen s.world (.accept heap) ↔ φ.get heap = φ.init := by
      simp only [Shown.Unseen]
      rw [hfree]
      simp
    rw [hunseen]
    simp only [World.accepts]
    rw [hfree]
    exact h.welcome ha heap hfree
  · have hvalue : (∀ i, (w'.player i).isSome = (s.world.player i).isSome) ∧
        (φ.Unseen s.world a ↔ φ.value w' = φ.value s.world) := by
      obtain ⟨hsame,hidle⟩ | ⟨f,i,htouch,hset⟩ := hplayer
      · refine ⟨fun i => by rw [hsame],?_⟩
        exact iff_of_true (Shown.unseen_idle hnew hidle) (Shown.value_congr hsame)
      · refine ⟨fun j => ?_,?_⟩
        · rw [hset]
          exact (World.sameSlots_modifyPlayer f s.world).player j
        · rw [Shown.unseen_iff_value htouch, Shown.value_congr hset]
    rw [hnew, Option.elim_none, hvalue.2]
    exact h.silent ha hdb hvalue.1 (Shown.shows_answers hanswers)

theorem join_missed (s : Viewers φ) (uid c i : Slot) :
    (join uid (s.receive (s.world.enterGame uid))).missed c i =
      (s.missed c i && !φ.informs s.world uid c i) := by
  change ((s.receive (s.world.enterGame uid)).missed c i &&
    !φ.informs (s.world.enterGame uid) uid c i) = _
  rw [receive_missed, Shown.value_enterGame, Shown.informs_enterGame]
  simp

/-- EnterGame tells a client of what it has missed, or does not speak of it. -/
theorem Inv.join (h : Inv s) (hsome : (s.world.player uid).isSome)
    (hshows : φ.Shows s.view s.world (s.world.enterGame uid) fun c i =>
      if φ.informs s.world uid c i ∧ φ.value s.world i ≠ φ.init then φ.value s.world i
      else s.view c i) : Inv (join uid (s.receive (s.world.enterGame uid))) := by
  have hk := World.keeps_enterGame uid s.world
  have hvalue : φ.value (s.world.enterGame uid) = φ.value s.world := Shown.value_enterGame uid _
  refine ⟨hk.dbInv h.db,fun c hc => ?_,fun c i hc => ?_,fun c i hm => ?_⟩
  · obtain rfl | hc := Finset.mem_insert.mp hc
    · exact (hk.isSome c).trans hsome
    · exact (hk.isSome c).trans (h.joined c hc)
  · rw [join_missed]
    change (s.receive (s.world.enterGame uid)).view c i =
      if _ then _ else φ.value (s.world.enterGame uid) i
    rw [receive_view hshows, hvalue]
    dsimp only
    rw [h.view c i ((hk.isSome c).symm.trans hc)]
    cases hinf : φ.informs s.world uid c i with
    | true =>
      by_cases hinit : φ.value s.world i = φ.init
      · simp [hinit]
      · simp [hinit]
    | false => simp
  · rw [join_missed, Bool.and_eq_true] at hm
    change φ.value (s.world.enterGame uid) i ≠ _
    rw [hvalue]
    exact h.missed c i hm.1

/-- EnterGame tells a client of the living players that it meets, if it tells of them at all. -/
theorem Inv.enter (h : Inv s) (ha : s.Agree) (ht : s.enter uid = some t)
    (hshows : φ.Shows s.view s.world (s.world.enterGame uid) fun c i =>
      if φ.informs s.world uid c i ∧ φ.value s.world i ≠ φ.init then φ.value s.world i
      else s.view c i) :
    Inv t ∧ (t.Agree ↔ ∀ i, s.missed uid i = true →
      φ.replayed = true ∧ (s.world.player i).any CPlayer.isAlive = true) := by
  obtain ⟨w',hok,rfl⟩ := Option.map_eq_some_iff.mp ht
  obtain ⟨p,hp,rfl⟩ := World.onPlayer_spec (toOption_eq_some hok)
  have hinv := h.join (Option.isSome_of_mem hp) hshows
  refine ⟨hinv,?_⟩
  rw [hinv.agree_iff]
  simp only [join_missed]
  have hown := h.agree_iff.mp ha
  have hinforms : ∀ i, s.missed uid i = true → (φ.informs s.world uid uid i = true ↔
      φ.replayed = true ∧ (s.world.player i).any CPlayer.isAlive = true) := by
    intro i hm
    refine Shown.informs_iff (Option.isSome_of_mem hp) ?_
    rintro rfl
    rw [hown uid uid (Or.inl rfl)] at hm
    cases hm
  constructor
  · intro hall i hm
    have hinf := hall uid i (Or.inr (Finset.mem_insert_self ..))
    rw [hm, Bool.true_and, Bool.not_eq_false'] at hinf
    exact (hinforms i hm).mp hinf
  · intro hall c i hg
    cases hm : s.missed c i with
    | false => exact Bool.false_and _
    | true =>
      obtain rfl : c = uid := by
        by_contra hne
        have hfalse := hown c i (hg.imp id fun hg => (Finset.mem_insert.mp hg).resolve_left hne)
        rw [hm] at hfalse
        cases hfalse
      rw [Bool.true_and, Bool.not_eq_false']
      exact (hinforms i hm).mpr (hall i hm)

omit [DecidableEq β] in
theorem start_inv : Inv (start φ) where
  db := World.start_dbInv
  joined c hc := absurd hc (Finset.notMem_empty c)
  view c i hc := by
    rw [show (start φ).world.player c = none from World.start_player c] at hc
    cases hc
  missed _ _ hm := absurd hm Bool.false_ne_true

omit [DecidableEq β] in
theorem start_agree : (start φ).Agree := by
  intro c i p hp _
  cases (World.start_player i).symm.trans hp

end Viewers

end LastHero
