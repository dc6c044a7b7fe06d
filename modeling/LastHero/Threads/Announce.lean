import LastHero.Threads.System

/-! Who is announced to whom. EnterGame runs right after Login has queued its event, so players
are announced before DB_Thread has looked at them unless nobody else is there. -/
namespace LastHero
variable {F : Type}

/-- The server with the sessions whose login is confirmed. -/
structure Lobby (F : Type) where
  world : World F
  /-- history: the sessions that queued an EV_LOGIN for which DB_Thread has fetched a row -/
  confirmed : List ℕ

/-- DB_Thread has confirmed a login of the session that occupies the slot. -/
structure Lobby.Confirmed (s : Lobby F) (i : Slot) : Prop where
  session : ∃ n ∈ s.confirmed, (s.world.client i).sock = some n
  inGame : ∃ p, s.world.player i = some p ∧ p.state = .inGame

namespace World

/-- Between the two states only players of `C` are announced or enter a view list. -/
structure AnnouncesOnly (C : Slot → Prop) (w w' : World F) : Prop where
  announcements : ∃ new, w'.announcements = w.announcements ++ new ∧ ∀ a ∈ new, C a.2
  view : ∀ i p', w'.player i = some p' → ∀ j ∈ p'.viewList,
    (∃ p, w.player i = some p ∧ j ∈ p.viewList) ∨ C j

/-- EnterGame of `id` exchanges packets with the player of slot `i`. -/
def meets (id : Slot) (w : World F) (i : Slot) : Bool :=
  (w.player id).isSome && id ≠ i && (w.player i).any CPlayer.isAlive

/-- The second player is in the view list of the first. -/
def Sees (w : World F) (j k : Slot) : Prop := ∃ p, w.player j = some p ∧ k ∈ p.viewList

variable {w w' w'' : World F} {i id : Slot} {C : Slot → Prop}

theorem Quiet.announcesOnly (h : Quiet w w') : AnnouncesOnly C w w' := by
  refine ⟨⟨[],by rw [h.announcements, List.append_nil],by simp⟩,fun i p' hp' j hj => Or.inl ?_⟩
  have hi := h.view i
  rw [hp', Option.map_some, eq_comm, Option.map_eq_some_iff] at hi
  obtain ⟨p,hp,hv⟩ := hi
  exact ⟨p,hp,hv ▸ hj⟩

theorem meet_of_not_meets (h : meets id w i = false) : meet id w i = w := by
  simp only [meet]
  split
  · rename_i me other hme hother
    refine if_pos ?_
    by_cases hid : id = i
    · exact Or.inl hid
    · refine Or.inr ?_
      unfold meets at h
      rw [hme, hother] at h
      simpa [hid] using h
  · rfl

theorem meets_iff : meets id w i = true ↔ id ≠ i ∧ ∃ me other, w.player id = some me ∧
    w.player i = some other ∧ other.isAlive = true := by
  simp only [meets]
  cases w.player id with
  | none => simp
  | some me =>
    cases w.player i with
    | none => simp
    | some other => simp

/-- The state after the two announcements of a meeting. -/
def greet (id i : Slot) (me other : CPlayer F) (w : World F) : World F :=
  (((w.modifyPlayer id (CPlayer.addView i)).modifyPlayer i (CPlayer.addView id)).sendPacket i
    (me.makeEnterPacket id)).sendPacket id (other.makeEnterPacket i)

theorem meet_of_meets {me other : CPlayer F} (hne : id ≠ i) (hme : w.player id = some me)
    (hother : w.player i = some other) (halive : other.isAlive = true) :
    meet id w i = (w.greet id i me other).replay id i other := by
  simp only [meet]
  rw [hme, hother]
  refine if_neg ?_
  rintro (h | h)
  · exact hne h
  · rw [halive] at h
    cases h

/-- The announcements of a meeting. -/
theorem meet_announcements (id : Slot) (w : World F) (i : Slot) :
    (meet id w i).announcements =
      w.announcements ++ if meets id w i then [(i,id),(id,i)] else [] := by
  cases hm : meets id w i with
  | false => rw [meet_of_not_meets hm, if_neg Bool.false_ne_true, List.append_nil]
  | true =>
    obtain ⟨hne,me,other,hme,hother,halive⟩ := meets_iff.mp hm
    have hgreet : (w.greet id i me other).announcements = w.announcements ++ [(i,id)] ++ [(id,i)] := by
      simp only [World.announcements, greet]
      simp only [sendPacket, World.sendTo, List.filterMap_append]
      rfl
    rw [meet_of_meets hne hme hother halive, (Quiet.refl _).replay.announcements, hgreet,
      if_pos rfl, List.append_assoc]
    rfl

/-- Meetings do not change who can meet. -/
theorem map_meet {α : Type} {g : CPlayer F → α} (hg : ∀ p j, g (CPlayer.addView j p) = g p)
    (id : Slot) (w : World F) (i j : Slot) :
    ((meet id w i).player j).map g = (w.player j).map g := by
  have hreplay : ∀ (v : World F) (other : CPlayer F), (v.replay id i other).player = v.player := by
    intro v other
    simp only [World.replay]
    cases other.wpnType <;> rfl
  simp only [meet]
  split
  · split_ifs
    · rfl
    · rw [hreplay]
      change ((modifyPlayer i (CPlayer.addView id) (w.modifyPlayer id (CPlayer.addView i))).player
        j).map g = _
      rw [map_modifyPlayer (fun p => hg p id), map_modifyPlayer (fun p => hg p i)]
  · rfl

/-- EnterGame changes only view lists. -/
theorem map_enterGame {α : Type} {g : CPlayer F → α} (hg : ∀ p j, g (CPlayer.addView j p) = g p)
    (id : Slot) (w : World F) (i : Slot) :
    ((w.enterGame id).player i).map g = (w.player i).map g := by
  have hshow : ∀ (l : List MonsterId) (v : World F),
      (l.foldl (showMonster id) v).player = v.player := by
    refine KeyedFold.foldl_related (R := fun v v' : World F => v'.player = v.player) (fun _ => rfl)
      (fun h h' => Eq.trans h' h) fun v j => ?_
    simp only [showMonster]
    split
    · split_ifs
      · rfl
      · rfl
    · rfl
  have hmeet : ∀ (l : List Slot) (v : World F),
      ((l.foldl (meet id) v).player i).map g = (v.player i).map g :=
    KeyedFold.foldl_related (R := fun v v' : World F => (v'.player i).map g = (v.player i).map g)
      (fun _ => rfl) (fun h h' => Eq.trans h' h) fun v j => map_meet hg id v j i
  have hend : ∀ v : World F,
      (if id = 0 then v.sendPacket id .scSetHost else v).player = v.player := by
    intro v
    split_ifs
    · rfl
    · rfl
  simp only [enterGame]
  rw [hend, hshow, hmeet]

theorem meets_congr (hsome : (w'.player id).isSome = (w.player id).isSome)
    (halive : (w'.player i).map CPlayer.isAlive = (w.player i).map CPlayer.isAlive) :
    meets id w' i = meets id w i := by
  have hany : ∀ v : World F, (v.player i).any CPlayer.isAlive =
      ((v.player i).map CPlayer.isAlive).getD false := by
    intro v
    cases v.player i <;> rfl
  simp only [meets]
  rw [hsome, hany, hany, halive]

theorem meets_meet (j : Slot) : meets id (meet id w i) j = meets id w j :=
  meets_congr ((keeps_meet id w i).isSome id) (map_meet (fun _ _ => rfl) id w i j)

theorem foldl_meet_announcements (id : Slot) (l : List Slot) (w : World F) :
    (l.foldl (meet id) w).announcements =
      w.announcements ++ l.flatMap fun i => if meets id w i then [(i,id),(id,i)] else [] := by
  induction l generalizing w with
  | nil => exact (List.append_nil _).symm
  | cons i l ih =>
    rw [List.foldl_cons, ih, meet_announcements, List.flatMap_cons, List.append_assoc]
    simp only [meets_meet]

theorem sees_iff {j k : Slot} :
    w.Sees j k ↔ ∃ view, (w.player j).map CPlayer.viewList = some view ∧ k ∈ view := by
  simp only [Sees]
  cases w.player j <;> simp

theorem Quiet.sees {j k : Slot} (h : Quiet w w') : w'.Sees j k ↔ w.Sees j k := by
  rw [sees_iff, sees_iff, h.view]

theorem sees_addView {j k l : Slot} : (w.modifyPlayer i (CPlayer.addView k)).Sees j l ↔
    w.Sees j l ∨ (j = i ∧ l = k ∧ (w.player i).isSome) := by
  simp only [Sees]
  rw [modifyPlayer_player]
  split_ifs with hj
  · subst hj
    cases w.player j with
    | none => simp
    | some p => simp [CPlayer.addView, or_comm]
  · simp [hj]

/-- A meeting adds the two players to each other's view lists. -/
theorem meet_sees {j k : Slot} : (meet id w i).Sees j k ↔
    w.Sees j k ∨ (j = id ∧ k = i ∨ j = i ∧ k = id) ∧ meets id w i := by
  cases hm : meets id w i with
  | false => simp [meet_of_not_meets hm]
  | true =>
    obtain ⟨hne,me,other,hme,hother,halive⟩ := meets_iff.mp hm
    have hreplay : Quiet (w.greet id i me other) ((w.greet id i me other).replay id i other) :=
      (Quiet.refl _).replay
    have hgreet : (w.greet id i me other).Sees j k ↔ ((w.modifyPlayer id
        (CPlayer.addView i)).modifyPlayer i (CPlayer.addView id)).Sees j k := Iff.rfl
    rw [meet_of_meets hne hme hother halive, hreplay.sees, hgreet, sees_addView, sees_addView,
      isSome_modifyPlayer, hme, hother]
    simp [or_assoc]

/-- What the loop of EnterGame over the players adds to the view lists. -/
theorem foldl_meet_sees {l : List Slot} {j k : Slot} : (l.foldl (meet id) w).Sees j k ↔
    w.Sees j k ∨ (j = id ∧ k ∈ l ∧ meets id w k) ∨ (k = id ∧ j ∈ l ∧ meets id w j) := by
  induction l generalizing w with
  | nil => simp
  | cons i l ih =>
    rw [List.foldl_cons, ih, meet_sees]
    simp only [meets_meet, List.mem_cons]
    constructor
    · rintro ((h | ⟨⟨hj,rfl⟩ | ⟨rfl,hk⟩,hm⟩) | ⟨hj,hk,hm⟩ | ⟨hk,hj,hm⟩)
      · exact Or.inl h
      · exact Or.inr (Or.inl ⟨hj,Or.inl rfl,hm⟩)
      · exact Or.inr (Or.inr ⟨hk,Or.inl rfl,hm⟩)
      · exact Or.inr (Or.inl ⟨hj,Or.inr hk,hm⟩)
      · exact Or.inr (Or.inr ⟨hk,Or.inr hj,hm⟩)
    · rintro (h | ⟨hj,rfl | hk,hm⟩ | ⟨hk,rfl | hj,hm⟩)
      · exact Or.inl (Or.inl h)
      · exact Or.inl (Or.inr ⟨Or.inl ⟨hj,rfl⟩,hm⟩)
      · exact Or.inr (Or.inl ⟨hj,hk,hm⟩)
      · exact Or.inl (Or.inr ⟨Or.inr ⟨rfl,hk⟩,hm⟩)
      · exact Or.inr (Or.inr ⟨hk,hj,hm⟩)

theorem foldl_meet_view (hC : ∀ i, meets id w i → C i ∧ C id) {j k : Slot}
    (h : (slots.foldl (meet id) w).Sees j k) : w.Sees j k ∨ C k := by
  obtain h | ⟨-,-,hm⟩ | ⟨rfl,-,hm⟩ := foldl_meet_sees.mp h
  · exact Or.inl h
  · exact Or.inr (hC k hm).1
  · exact Or.inr (hC j hm).2

theorem AnnouncesOnly.trans_quiet (h : AnnouncesOnly C w w') (h' : Quiet w' w'') :
    AnnouncesOnly C w w'' := by
  refine ⟨h'.announcements ▸ h.announcements,fun i p'' hp'' j hj => ?_⟩
  have hi := h'.view i
  rw [hp'', Option.map_some, eq_comm, Option.map_eq_some_iff] at hi
  obtain ⟨p',hp',hv⟩ := hi
  exact h.view i p' hp' j (hv ▸ hj)

/-- EnterGame announces only players of `C` if and only if the players that meet are. -/
theorem enterGame_announcesOnly [FloatArith F] (w : World F) :
    AnnouncesOnly C w (w.enterGame id) ↔ ∀ i, meets id w i → C i ∧ C id := by
  have hann := foldl_meet_announcements id slots w
  constructor
  · intro h i hm
    obtain ⟨new,hnew,hC⟩ := h.announcements
    rw [(quiet_enterGame id w).announcements, hann] at hnew
    have hmem : ∀ a ∈ [(i,id),(id,i)], C a.2 := by
      intro a ha
      refine hC a ?_
      rw [← List.append_cancel_left hnew, List.mem_flatMap]
      exact ⟨i,mem_slots i,by rwa [if_pos hm]⟩
    exact ⟨hmem (id,i) (by simp),hmem (i,id) (by simp)⟩
  · intro h
    refine AnnouncesOnly.trans_quiet ⟨⟨_,hann,fun a ha => ?_⟩,fun j p' hp' k hk => ?_⟩
      (quiet_enterGame id w)
    · obtain ⟨i,-,ha⟩ := List.mem_flatMap.mp ha
      split_ifs at ha with hm
      · rw [List.mem_pair] at ha
        obtain rfl | rfl := ha
        · exact (h i hm).2
        · exact (h i hm).1
      · cases ha
    · exact foldl_meet_view h ⟨p',hp',hk⟩

/-- Nobody is announced; players keep their view lists or are new. -/
structure SameViews (w w' : World F) : Prop where
  announcements : w'.announcements = w.announcements
  view : ∀ i p', w'.player i = some p' →
    p'.viewList = ∅ ∨ ∃ p, w.player i = some p ∧ p.viewList = p'.viewList

theorem SameViews.announcesOnly (h : SameViews w w') : AnnouncesOnly C w w' := by
  refine ⟨⟨[],by rw [h.announcements, List.append_nil],by simp⟩,fun i p' hp' j hj => Or.inl ?_⟩
  cases h.view i p' hp' with
  | inl hempty =>
    rw [hempty] at hj
    exact absurd hj (Finset.notMem_empty j)
  | inr hold =>
    obtain ⟨p,hp,hv⟩ := hold
    exact ⟨p,hp,hv ▸ hj⟩

theorem SameViews.of_eq (hp : w'.player = w.player) (ha : w'.announcements = w.announcements) :
    SameViews w w' := ⟨ha,fun _ p' hp' => Or.inr ⟨p',hp ▸ hp',rfl⟩⟩

theorem SameViews.trans (h : SameViews w w') (h' : SameViews w' w'') : SameViews w w'' := by
  refine ⟨h'.announcements.trans h.announcements,fun i p'' hp'' => ?_⟩
  cases h'.view i p'' hp'' with
  | inl hempty => exact Or.inl hempty
  | inr hold =>
    obtain ⟨p',hp',hv'⟩ := hold
    refine (h.view i p' hp').imp (fun hempty => hv'.symm.trans hempty) fun hold => ?_
    obtain ⟨p,hp,hv⟩ := hold
    exact ⟨p,hp,hv.trans hv'⟩

theorem Quiet.sameViews (h : Quiet w w') : SameViews w w' := by
  refine ⟨h.announcements,fun i p' hp' => Or.inr ?_⟩
  have hi := h.view i
  rwa [hp', Option.map_some, eq_comm, Option.map_eq_some_iff] at hi

theorem SameViews.modifyPlayer {f : CPlayer F → CPlayer F} (hf : ∀ p, (f p).viewList = p.viewList)
    (h : SameViews w w') : SameViews w (w'.modifyPlayer i f) := by
  refine h.trans ⟨rfl,fun j p' hp' => Or.inr ?_⟩
  have hj := map_modifyPlayer hf w' i j
  rwa [hp', Option.map_some, eq_comm, Option.map_eq_some_iff] at hj

/-- A new player, or none, in one slot. -/
theorem SameViews.update {q : Option (CPlayer F)} (hp : w'.player = Function.update w.player i q)
    (ha : w'.announcements = w.announcements) (hq : ∀ p, q = some p → p.viewList = ∅) :
    SameViews w w' := by
  refine ⟨ha,fun j p' hp' => ?_⟩
  rw [hp] at hp'
  by_cases hj : j = i
  · rw [hj, Function.update_self] at hp'
    exact Or.inl (hq p' hp')
  · rw [Function.update_of_ne hj] at hp'
    exact Or.inr ⟨p',hp',rfl⟩

theorem sameViews_accept (heap : CPlayer F) (w : World F) : SameViews w (w.accept heap) := by
  cases hi : w.freeSlot with
  | none =>
    rw [accept_full heap hi]
    exact .of_eq rfl rfl
  | some i =>
    refine .update (accept_player heap hi) ?_ fun p hp => ?_
    · simp only [World.accept]
      rw [hi]
      rfl
    · cases hp
      rfl

theorem sameViews_disconnect (hd : w.disconnect id = .ok w') : SameViews w w' := by
  refine .update (disconnect_spec hd).2.1 ?_ fun p hp => by cases hp
  unfold World.disconnect at hd
  split at hd
  · cases hd
  · cases hd
    exact ((Quiet.refl _).sendTo rfl).announcements

theorem sameViews_ensurePlayer (id : Slot) (heap : CPlayer F) (w : World F) :
    SameViews w (w.ensurePlayer id heap) := by
  simp only [World.ensurePlayer]
  split
  · exact .of_eq rfl rfl
  · refine .update rfl rfl fun p hp => ?_
    cases hp
    rfl

theorem sameViews_dbTake {outcome : Outcome} {heap : CPlayer F}
    (hok : w.dbTake outcome heap = .ok w') : SameViews w w' := by
  obtain rfl | ⟨ev,queue,-,-,rfl | ⟨queue',rfl⟩ | ⟨exp,rfl⟩⟩ := dbTake_cases hok
  · exact .of_eq rfl rfl
  · have hpop : SameViews w (w.setQuaryQueue queue) := .of_eq rfl rfl
    have hnew := hpop.trans (sameViews_ensurePlayer ev.userId heap _)
    have hset := hnew.modifyPlayer (i := ev.userId)
      (f := CPlayer.setCredentials ev.name ev.pass) fun _ => rfl
    exact hset.trans (.of_eq rfl rfl)
  · exact .of_eq rfl rfl
  · have hpop : SameViews w (w.setQuaryQueue queue) := .of_eq rfl rfl
    exact hpop.trans ((Quiet.refl _).record rfl).sameViews

theorem skillOff_view (kind : OffEvent) (now : ℕ) (p : CPlayer F) :
    (p.skillOff kind now).viewList = p.viewList := by cases kind <;> rfl

theorem sameViews_timer {k now : ℕ} (h : w.timerThread k now = some w') : SameViews w w' := by
  obtain ⟨ev,-,rfl⟩ := timerThread_spec h
  have hset : SameViews w (w.setTimerQueue (w.timerQueue.eraseIdx k)) := .of_eq rfl rfl
  simp only [timerEvent]
  split
  · exact hset.trans (.of_eq rfl rfl)
  · exact hset.trans (.of_eq rfl rfl)
  · exact hset.modifyPlayer (skillOff_view _ now)

theorem view_of_map {w' : World F} {p' : CPlayer F}
    (hi : (w'.player i).map CPlayer.viewList = (w.player i).map CPlayer.viewList)
    (hp' : w'.player i = some p') : ∃ p, w.player i = some p ∧ p.viewList = p'.viewList := by
  rwa [hp', Option.map_some, eq_comm, Option.map_eq_some_iff] at hi

/-- A quiet step before makes no difference. -/
theorem Quiet.announcesOnly_iff (h : Quiet w w') :
    AnnouncesOnly C w w'' ↔ AnnouncesOnly C w' w'' := by
  constructor
  · intro ⟨⟨new,hnew,hC⟩,hview⟩
    refine ⟨⟨new,by rw [h.announcements, hnew],hC⟩,fun i p'' hp'' j hj => ?_⟩
    refine (hview i p'' hp'' j hj).imp_left fun hold => ?_
    obtain ⟨p,hp,hj⟩ := hold
    obtain ⟨p',hp',hv⟩ := view_of_map (h.view i).symm hp
    exact ⟨p',hp',hv ▸ hj⟩
  · intro ⟨⟨new,hnew,hC⟩,hview⟩
    refine ⟨⟨new,by rw [← h.announcements, hnew],hC⟩,fun i p'' hp'' j hj => ?_⟩
    refine (hview i p'' hp'' j hj).imp_left fun hold => ?_
    obtain ⟨p',hp',hj⟩ := hold
    obtain ⟨p,hp,hv⟩ := view_of_map (h.view i) hp'
    exact ⟨p,hp,hv ▸ hj⟩

theorem login_meets {name pass : List Byte} {character : ℤ}
    (h : w.login id name pass character = .ok w') (j : Slot) : meets id w' j = meets id w j := by
  refine meets_congr ((quiet_login h).toKeeps.isSome id) ?_
  obtain ⟨-,n,q,rfl⟩ := login_spec h
  exact map_modifyPlayer (f := CPlayer.setObjType character) (fun _ => rfl) _ id j

section Steps
variable [FloatArith F]

theorem sameViews_dbFinish (outcome : Outcome) (heap : CPlayer F) (now : ℕ) (w : World F) :
    SameViews w (w.dbFinish outcome heap now) := by
  unfold dbFinish
  split
  · exact .of_eq rfl rfl
  · rename_i ev _
    have hset : SameViews w (w.setHandling none) := .of_eq rfl rfl
    dsimp only
    split
    · refine SameViews.trans ?_ ((Quiet.refl _).sendTo rfl).sameViews
      simp only [loadPlayer]
      refine SameViews.modifyPlayer (fun _ => rfl) ?_
      exact (hset.trans (sameViews_ensurePlayer _ heap _)).trans (.of_eq rfl rfl)
    · exact hset.trans ((Quiet.refl _).sendTo rfl).sameViews

/-- The session whose login DB_Thread confirms. -/
def confirms (w : World F) : Input F → Option ℕ
  | .dbFinish (.row _) _ _ => w.handling.bind DBEvent.session
  | _ => none

theorem onType_announcesOnly {t : CsType} {buf : Buffer} {now : Now}
    (h : w.onType t id buf now = .ok w') : AnnouncesOnly C w w' ↔
      (t = .csLogin → ∀ i, meets id w i → C i ∧ C id) := by
  by_cases ht : t = .csLogin
  · subst ht
    unfold onType at h
    cases hlogin : w.login id (buf.cString 2) (buf.cString 12) (buf.byteAt 22).toInt with
    | error e => rw [hlogin] at h; cases h
    | ok v =>
      rw [hlogin] at h
      have hquiet := quiet_login hlogin
      obtain ⟨-,-,rfl⟩ := onPlayer_spec (f := fun _ w => w.enterGame id) h
      rw [hquiet.announcesOnly_iff, enterGame_announcesOnly]
      simp only [login_meets hlogin, forall_const]
  · exact iff_of_true (quiet_onType ht h).announcesOnly fun h => absurd h ht

end Steps

end World

namespace Lobby
variable [FloatArith F]

def next (s : Lobby F) (a : Input F) : Option (Lobby F) :=
  (s.world.next a).map fun w => ⟨w,s.confirmed ++ (s.world.confirms a).toList⟩

def start : Lobby F := ⟨World.start,[]⟩

/-- A login packet comes when everybody it makes the client meet, and the client itself, have had
a login of their session confirmed. -/
def LoginsFollow (s : Lobby F) : Input F → Prop
  | .packet uid buf _ => CsType.ofByte (buf.byteAt 1) = some .csLogin →
      ∀ i, World.meets uid s.world i → s.Confirmed i ∧ s.Confirmed uid
  | _ => True

/-- The step announces only players of confirmed sessions. -/
def StepConfirmed (s : Lobby F) (a : Input F) : Prop :=
  ∀ w', s.world.next a = some w' → World.AnnouncesOnly s.Confirmed s.world w'

/-- Only a login packet can announce somebody who is not confirmed. -/
theorem stepConfirmed_iff {s t : Lobby F} {a : Input F} (h : s.next a = some t) :
    s.StepConfirmed a ↔ s.LoginsFollow a := by
  obtain ⟨w',hw,-⟩ := Option.map_eq_some_iff.mp h
  have hstep : s.StepConfirmed a ↔ World.AnnouncesOnly s.Confirmed s.world w' := by
    constructor
    · intro hs
      exact hs w' hw
    · intro ho v hv
      obtain rfl : w' = v := Option.some.inj (hw.symm.trans hv)
      exact ho
  rw [hstep]
  cases a with
  | accept heap =>
    cases hw
    exact iff_of_true (World.sameViews_accept heap s.world).announcesOnly trivial
  | disconnect uid =>
    exact iff_of_true (World.sameViews_disconnect (toOption_eq_some hw)).announcesOnly trivial
  | packet uid buf now =>
    obtain ⟨t,ht,hok⟩ := World.processPacket_spec (toOption_eq_some hw)
    simp only [LoginsFollow]
    rw [World.onType_announcesOnly hok, ht, Option.some.injEq]
  | login uid id password character =>
    exact iff_of_true (World.quiet_login (toOption_eq_some hw)).announcesOnly trivial
  | levelUp uid =>
    rw [World.next] at hw
    split_ifs at hw
    cases hw
    exact iff_of_true (World.Quiet.refl s.world).levelUp.announcesOnly trivial
  | dbTake outcome heap =>
    exact iff_of_true (World.sameViews_dbTake (toOption_eq_some hw)).announcesOnly trivial
  | dbFinish outcome heap now =>
    cases hw
    exact iff_of_true (World.sameViews_dbFinish outcome heap now s.world).announcesOnly trivial
  | timer k now => exact iff_of_true (World.sameViews_timer hw).announcesOnly trivial

/-- A run announces nobody before DB_Thread has confirmed a login of that session exactly when every
login packet in it comes after that. -/
theorem announced_confirmed_iff (as : List (Input F)) :
    Runs.Along next StepConfirmed start as ↔ Runs.Along next LoginsFollow start as :=
  Runs.along_congr fun _ _ _ h => stepConfirmed_iff h

/-- A living player is in the game when another client sends its login packet: both are announced
before DB_Thread has seen the login. -/
theorem announced_unconfirmed : ∃ as : List (Input ℚ), ¬ Runs.Along next StepConfirmed start as := by
  refine ⟨[.accept zeroPlayer,.login 0 [97] [98] 0,.dbTake .noRow zeroPlayer,
    .dbFinish (.row ⟨100,0,0,1,100⟩) zeroPlayer 0,.accept zeroPlayer,
    .packet 1 (shortPacket .csLogin) ⟨0,true⟩],fun h => ?_⟩
  rw [Runs.along_cons rfl, Runs.along_cons rfl, Runs.along_cons rfl, Runs.along_cons rfl,
    Runs.along_cons rfl, Runs.along_cons rfl] at h
  obtain ⟨-,-,-,-,-,hlogin,-⟩ := h
  obtain ⟨p,hp,hstate⟩ := ((stepConfirmed_iff rfl).mp hlogin rfl 0 rfl).2.inGame
  cases hp
  cases hstate

end Lobby

end LastHero
