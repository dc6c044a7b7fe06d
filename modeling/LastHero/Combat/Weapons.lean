import LastHero.Combat.Viewers

/-! What the clients know of the weapons: they fold the packets they receive, the server changes
wpnType. Both agree until somebody takes off a hammer, Initialize takes a weapon away, or a client
enters that is not told of one. -/
namespace LastHero
variable {F : Type}

/-- What a client makes of a packet. -/
def Packet.showWeapon : Packet F → (Slot → WeaponType) → Slot → WeaponType
  | .scSwordOn i, v => Function.update v i .wpnSword
  | .scHammerOn i, v => Function.update v i .wpnHammer
  | .scSwordOff i, v => if v i = .wpnSword then Function.update v i .wpnNone else v
  | .scHammerOff i, v => if v i = .wpnHammer then Function.update v i .wpnNone else v
  | _, v => v

/-- A packet that comes twice says nothing new. -/
theorem Packet.showWeapon_idem (p : Packet F) (v : Slot → WeaponType) :
    p.showWeapon (p.showWeapon v) = p.showWeapon v := by
  cases p with
  | scSwordOn i => simp [Packet.showWeapon]
  | scHammerOn i => simp [Packet.showWeapon]
  | scSwordOff i =>
    simp only [Packet.showWeapon]
    by_cases h : v i = .wpnSword
    · simp [h]
    · simp [h]
  | scHammerOff i =>
    simp only [Packet.showWeapon]
    by_cases h : v i = .wpnHammer
    · simp [h]
    · simp [h]
  | _ => rfl

theorem Packet.AboutLogin.showWeapon {p : Packet F} (h : p.AboutLogin) (v : Slot → WeaponType) :
    p.showWeapon v = v := by
  cases p with
  | scLoginOk | scLoginFail => rfl
  | _ => exact h.elim

variable [FloatArith F]

/-- The weapons. EnterGame tells of them. -/
def weapons (F : Type) [FloatArith F] : Shown F WeaponType where
  get := CPlayer.wpnType
  init := .wpnNone
  tell := Packet.showWeapon
  replayed := true
  tell_tell := Packet.showWeapon_idem
  tell_login _ v h := h.showWeapon v
  get_new _ := rfl
  get_setObjType _ _ := rfl
  get_setCredentials _ _ _ := rfl
  get_skillOff kind _ _ := by cases kind <;> rfl
  get_addView _ _ := rfl
  get_initialized _ _ _ := rfl

/-- The server and the weapons that its clients show. -/
abbrev Audience (F : Type) [FloatArith F] := Viewers (weapons F)

inductive WeaponInput (F : Type)
  | session (a : SessionInput F)
  /-- EnterGame -/
  | join (uid : Slot)
  /-- cs_sword_on and cs_hammer_on -/
  | weaponOn (uid : Slot) (wpn : Weapon)
  /-- cs_sword_off and cs_hammer_off -/
  | weaponOff (uid : Slot) (wpn : Weapon)

namespace Audience

def next (s : Audience F) : WeaponInput F → Option (Audience F)
  | .session a => s.session a
  | .join uid => s.enter uid
  | .weaponOn uid wpn => s.handle uid fun p w => w.weaponOn uid p wpn
  | .weaponOff uid wpn => s.handle uid fun p w => w.weaponOff uid p wpn

/-- No player takes off a hammer, nobody joins who has missed the weapon of a player that EnterGame
leaves out, and no player has a weapon in hand when it is created or initialised. -/
def KeepsWeapons (s : Audience F) : WeaponInput F → Prop
  | .session a => (weapons F).Unseen s.world a
  | .join uid => ∀ i, s.missed uid i = true → (s.world.player i).any CPlayer.isAlive = true
  | .weaponOn uid wpn | .weaponOff uid wpn =>
    wpn = .hammer → (s.world.player uid).map CPlayer.wpnType ≠ some .wpnHammer

end Audience

namespace World
variable {w w' w'' : World F} {v : Slot → Slot → WeaponType} {uid : Slot} {p : CPlayer F}
  {wpn : Weapon}

/-- Everybody is told of a weapon that is put on. -/
theorem putOn_spec (v : Slot → Slot → WeaponType) (wpn : Weapon) (hp : (w.player uid).isSome) :
    (weapons F).value (w.putOn uid wpn) = Function.update ((weapons F).value w) uid wpn.type ∧
      (weapons F).Shows v w (w.putOn uid wpn) fun c => Function.update (v c) uid wpn.type := by
  refine ⟨Shown.value_set (fun _ => rfl) hp,?_⟩
  have hshow := Shown.shows_sendTo (φ := weapons F) slots (wpn.onPacket uid) v
    (w.modifyPlayer uid fun p => { p with wpnType := wpn.type })
  have hpacket : ∀ u, (weapons F).tell (wpn.onPacket uid) u = Function.update u uid wpn.type := by
    cases wpn
    · exact fun _ => rfl
    · exact fun _ => rfl
  simp only [mem_slots, if_true, hpacket] at hshow
  exact Shown.Shows.trans (.refl rfl) hshow

/-- Everybody is told that a sword is gone, whatever the weapon. -/
theorem takeOff_spec (v : Slot → Slot → WeaponType) (hp : (w.player uid).isSome)
    (hwpn : p.wpnType = wpn.type) :
    (weapons F).value (w.takeOff uid p wpn) = Function.update ((weapons F).value w) uid .wpnNone ∧
      (weapons F).Shows v w (w.takeOff uid p wpn) fun c =>
        if v c uid = .wpnSword then Function.update (v c) uid .wpnNone else v c := by
  simp only [takeOff]
  rw [if_pos hwpn]
  refine ⟨Shown.value_set (fun _ => rfl) (w := w.sendTo slots (.scSwordOff uid)) hp,?_⟩
  have hshow := Shown.shows_sendTo (φ := weapons F) slots (.scSwordOff uid) v w
  simp only [mem_slots, if_true] at hshow
  exact hshow.trans (.refl rfl)

/-- The named weapon is taken off if the player has it. Otherwise it is put on, or nothing
happens. -/
def Toggles (uid : Slot) (p : CPlayer F) (wpn : Weapon) (w w' : World F) : Prop :=
  p.wpnType = wpn.type ∧ w' = w.takeOff uid p wpn ∨
    p.wpnType ≠ wpn.type ∧ (w' = w.putOn uid wpn ∨ w' = w)

omit [FloatArith F] in
theorem toggles_weaponOn (p : CPlayer F) (wpn : Weapon) (w : World F) :
    Toggles uid p wpn w (w.weaponOn uid p wpn) := by
  simp only [weaponOn]
  split_ifs with h
  · exact Or.inl ⟨h,rfl⟩
  · exact Or.inr ⟨h,Or.inl rfl⟩

omit [FloatArith F] in
theorem toggles_weaponOff (p : CPlayer F) (wpn : Weapon) (w : World F) :
    Toggles uid p wpn w (w.weaponOff uid p wpn) := by
  simp only [weaponOff]
  split_ifs with hnone
  · refine Or.inr ⟨?_,Or.inl rfl⟩
    rw [hnone]
    cases wpn <;> simp [Weapon.type]
  · by_cases h : p.wpnType = wpn.type
    · exact Or.inl ⟨h,rfl⟩
    · exact Or.inr ⟨h,Or.inr (if_neg h)⟩

/-- Of a player without a weapon there is nothing to tell. -/
theorem replay_shows (uid i : Slot) (other : CPlayer F) (v : Slot → Slot → WeaponType)
    (w : World F) : (weapons F).Shows v w (w.replay uid i other) fun c j =>
      if c = uid ∧ j = i ∧ other.wpnType ≠ .wpnNone then other.wpnType else v c j := by
  simp only [replay]
  apply Shown.Shows.sendTo fun _ => rfl
  have hsend : ∀ (pkt : Packet F) (wpn : WeaponType), (∀ u, (weapons F).tell pkt u =
      Function.update u i wpn) → (weapons F).Shows v w (w.sendPacket uid pkt) fun c j =>
        if c = uid ∧ j = i then wpn else v c j := by
    intro pkt wpn hpkt
    have hshow := Shown.shows_sendTo (φ := weapons F) [uid] pkt v w
    simp only [List.mem_singleton, hpkt] at hshow
    refine hshow.congr fun c j => ?_
    by_cases hc : c = uid
    · simp [hc, Function.update_apply]
    · simp [hc]
  cases hwpn : other.wpnType with
  | wpnNone =>
    simp only [ne_eq, not_true_eq_false, and_false, if_false]
    exact .refl rfl
  | wpnSword =>
    simp only [ne_eq, reduceCtorEq, not_false_eq_true, and_true]
    exact hsend _ _ fun _ => rfl
  | wpnHammer =>
    simp only [ne_eq, reduceCtorEq, not_false_eq_true, and_true]
    exact hsend _ _ fun _ => rfl

/-- One iteration of the loop of EnterGame. -/
theorem meet_shows (i : Slot) (v : Slot → Slot → WeaponType) (w : World F) :
    (weapons F).Shows v w (meet uid w i) fun c j =>
      if c = uid ∧ j = i ∧ meets uid w i = true ∧ (weapons F).value w i ≠ .wpnNone then
        (weapons F).value w i else v c j := by
  cases hm : meets uid w i with
  | false =>
    rw [meet_of_not_meets hm]
    simp only [Bool.false_eq_true, false_and, and_false, if_false]
    exact .refl rfl
  | true =>
    obtain ⟨hne,me,other,hme,hother,halive⟩ := meets_iff.mp hm
    have hgreet : (weapons F).Shows v w (w.greet uid i me other) v := by
      apply Shown.Shows.sendTo fun _ => rfl
      apply Shown.Shows.sendTo fun _ => rfl
      exact .refl rfl
    rw [meet_of_meets hne hme hother halive, Shown.value_some hother]
    simp only [true_and]
    exact hgreet.trans (replay_shows uid i other v _)

theorem foldl_meet_shows (uid : Slot) (l : List Slot) (v : Slot → Slot → WeaponType) (w : World F) :
    (weapons F).Shows v w (l.foldl (meet uid) w) fun c j =>
      if c = uid ∧ j ∈ l ∧ meets uid w j = true ∧ (weapons F).value w j ≠ .wpnNone then
        (weapons F).value w j else v c j := by
  induction l generalizing w v with
  | nil =>
    simp only [List.not_mem_nil, false_and, and_false, if_false]
    exact .refl rfl
  | cons i l ih =>
    have hrest := ih (fun c j => if c = uid ∧ j = i ∧ meets uid w i = true ∧
      (weapons F).value w i ≠ .wpnNone then (weapons F).value w i else v c j) (meet uid w i)
    simp only [meets_meet, Shown.value_meet] at hrest
    refine ((meet_shows i v w).trans hrest).congr fun c j => ?_
    by_cases hj : j = i
    · subst hj
      by_cases hl : j ∈ l
      · by_cases hc : c = uid ∧ meets uid w j = true ∧ (weapons F).value w j ≠ .wpnNone
        · simp [hc]
        · simp only [List.mem_cons, true_or, hl, true_and, if_neg hc]
      · simp [hl]
    · simp [hj]

/-- A client that enters learns the weapons of all living players. -/
theorem enterGame_shows (uid : Slot) (v : Slot → Slot → WeaponType) (w : World F) :
    (weapons F).Shows v w (w.enterGame uid) fun c i =>
      if (weapons F).informs w uid c i ∧ (weapons F).value w i ≠ (weapons F).init then
        (weapons F).value w i else v c i := by
  have hmonster : ∀ (u : Slot → Slot → WeaponType) (l : List MonsterId) (w : World F),
      (weapons F).Shows u w (l.foldl (showMonster uid) w) u := by
    intro u
    refine KeyedFold.foldl_related (R := fun w w' => (weapons F).Shows u w w' u)
      (fun _ => .refl rfl) (fun h h' => Shown.Shows.trans h h') fun w i => ?_
    simp only [showMonster]
    split
    · split_ifs
      · exact .refl rfl
      · exact Shown.Shows.sendTo (fun _ => rfl) (.refl rfl)
    · exact .refl rfl
  have hshow := (foldl_meet_shows uid slots v w).trans (hmonster _ monsterIds _)
  have hinforms : ∀ c i, (weapons F).informs w uid c i = true ↔ c = uid ∧ meets uid w i = true := by
    intro c i
    simp [Shown.informs, weapons]
  simp only [mem_slots, true_and] at hshow
  simp only [hinforms, and_assoc]
  simp only [enterGame]
  split_ifs
  · exact hshow.sendTo fun _ => rfl
  · exact hshow

end World

namespace Audience
open Viewers
variable {s t : Audience F} {w' : World F} {uid : Slot} {p : CPlayer F}

/-- A hammer that is taken off is announced wrong: the views keep it. -/
theorem toggle {wpn : Weapon} (h : Inv s) (ha : s.Agree) (hp : s.world.player uid = some p)
    (hk : s.world.Keeps w') (hw : s.world.Toggles uid p wpn w') :
    ((wpn = .hammer → p.wpnType ≠ .wpnHammer) → Inv (s.receive w')) ∧
      ((s.receive w').Agree ↔ (wpn = .hammer → p.wpnType ≠ .wpnHammer)) := by
  have hsome := Option.isSome_of_mem hp
  have hvalue : (weapons F).value s.world uid = p.wpnType := Shown.value_some hp
  rcases hw with ⟨hwpn,rfl⟩ | ⟨hwpn,rfl | rfl⟩
  · obtain ⟨hof,hshows⟩ := World.takeOff_spec (p := p) s.view hsome hwpn
    cases wpn with
    | sword =>
      have hne : (weapons F).value s.world uid ≠ .wpnNone := by
        rw [hvalue, hwpn]
        decide
      obtain ⟨hinv,hagree⟩ := h.turn ha hk hof hne fun c hc => by
        rw [receive_view hshows]
        dsimp only
        split_ifs with hsword
        · rfl
        · -- the client has missed the sword
          have hview := h.view c uid hc
          rw [hvalue, hwpn] at hview
          have hnone : s.view c uid = .wpnNone := by
            split_ifs at hview
            · exact hview
            · exact absurd hview hsword
          rw [← hnone, Function.update_eq_self]
      exact ⟨fun _ => hinv,iff_of_true hagree (by simp)⟩
    | hammer =>
      have hown : s.view uid uid = .wpnHammer := (ha uid uid p hp (Or.inl rfl)).trans hwpn
      refine ⟨fun hq => absurd hwpn (hq rfl),iff_of_false ?_ fun hq => hq rfl hwpn⟩
      refine ha.untold hsome ((hk.isSome uid).trans hsome) ?_ ?_
      · rw [receive_view hshows]
        simp [hown]
      · rw [hof, Function.update_self, hvalue, hwpn]
        decide
  · obtain ⟨hof,hshows⟩ := World.putOn_spec s.view wpn hsome
    obtain ⟨hinv,hagree⟩ := h.turn ha hk hof (by rwa [hvalue]) fun c _ => by
      rw [receive_view hshows]
    exact ⟨fun _ => hinv,iff_of_true hagree (by rintro rfl; exact hwpn)⟩
  · rw [receive_self]
    exact ⟨fun _ => h,iff_of_true ha (by rintro rfl; exact hwpn)⟩

theorem next_spec {a : WeaponInput F} (h : Inv s) (ha : s.Agree) (ht : s.next a = some t) :
    (KeepsWeapons s a → Inv t) ∧ (t.Agree ↔ KeepsWeapons s a) := by
  have hhammer : ∀ {uid p} {wpn : Weapon}, s.world.player uid = some p →
      ((wpn = .hammer → (s.world.player uid).map CPlayer.wpnType ≠ some .wpnHammer) ↔
        (wpn = .hammer → p.wpnType ≠ .wpnHammer)) := by
    intro uid p wpn hp
    rw [hp]
    simp
  cases a with
  | session a => exact h.session ha ht
  | join uid =>
    obtain ⟨hinv,hagree⟩ := h.enter ha ht (World.enterGame_shows uid s.view s.world)
    refine ⟨fun _ => hinv,hagree.trans ?_⟩
    simp [KeepsWeapons, weapons]
  | weaponOn uid wpn =>
    obtain ⟨p,hp,rfl⟩ := handle_spec ht
    simp only [KeepsWeapons]
    rw [hhammer hp]
    exact toggle h ha hp (World.quiet_weaponOn p wpn s.world).toKeeps
      (World.toggles_weaponOn p wpn s.world)
  | weaponOff uid wpn =>
    obtain ⟨p,hp,rfl⟩ := handle_spec ht
    simp only [KeepsWeapons]
    rw [hhammer hp]
    exact toggle h ha hp (World.quiet_weaponOff p wpn s.world).toKeeps
      (World.toggles_weaponOff p wpn s.world)

/-- The clients show the right weapons throughout a run if and only if nobody takes off a hammer
in it, nobody joins who is not told of a weapon that it has missed, and players are created and
initialised without one. -/
theorem weapons_agree_iff (as : List (WeaponInput F)) :
    Runs.Always next Agree (start (weapons F)) as ↔
      Runs.Along next KeepsWeapons (start (weapons F)) as :=
  Runs.always_iff_along (fun _ _ _ hi hp hq ht => (next_spec hi hp ht).1 hq)
    (fun _ _ _ hi hp ht => (next_spec hi hp ht).2) start_inv start_agree

/-- Putting on a hammer and toggling it again leaves a wrong view. -/
theorem hammer_twice (h : Inv s) (ha : s.Agree) (hp : s.world.player uid = some p)
    (hne : p.wpnType ≠ .wpnHammer) :
    ¬ Runs.Always next Agree s [.weaponOn uid .hammer,.weaponOn uid .hammer] := by
  intro hall
  have hfirst : s.next (.weaponOn uid .hammer) = some (s.receive (s.world.weaponOn uid p .hammer)) :=
    handle_some hp
  have hkeeps : KeepsWeapons s (.weaponOn uid .hammer) := by
    intro _
    rw [hp]
    simpa using hne
  have hon : s.world.weaponOn uid p .hammer = s.world.putOn uid .hammer := if_neg hne
  have hinv := (next_spec h ha hfirst).1 hkeeps
  have hrest := hall.2 _ hfirst
  have hq : (s.world.weaponOn uid p .hammer).player uid = some { p with wpnType := .wpnHammer } := by
    rw [hon]
    exact World.modifyPlayer_self _ hp
  have hsecond : next (s.receive (s.world.weaponOn uid p .hammer)) (.weaponOn uid .hammer) = _ :=
    handle_some (s := s.receive (s.world.weaponOn uid p .hammer)) hq
  refine (next_spec hinv hrest.head hsecond).2.mp (hrest.2 _ hsecond) rfl ?_
  change ((s.world.weaponOn uid p .hammer).player uid).map CPlayer.wpnType = _
  rw [hq]
  rfl

/-- A client logs in, puts on a hammer and takes it off: it is still shown. -/
theorem hammer_stays_visible : ∃ as : List (WeaponInput ℚ),
    ¬ Runs.Always next Agree (start (weapons ℚ)) as := by
  let logins : List (WeaponInput ℚ) := [.session (.accept zeroPlayer),
    .session (.login 0 [97] [98] 0),.session (.dbTake .noRow zeroPlayer),
    .session (.dbFinish (.row ⟨100,0,0,1,100⟩) zeroPlayer 0)]
  refine ⟨logins ++ [.join 0,.weaponOn 0 .hammer,.weaponOn 0 .hammer],fun hall => ?_⟩
  obtain ⟨s,hs⟩ : ∃ s, Runs.run next (start (weapons ℚ)) logins = some s := ⟨_,rfl⟩
  have hok : Runs.Along next KeepsWeapons (start (weapons ℚ)) logins := by
    rw [Runs.along_cons rfl, Runs.along_cons rfl, Runs.along_cons rfl, Runs.along_cons rfl]
    refine ⟨fun _ => rfl,trivial,trivial,fun ev hev => ?_,trivial⟩
    cases hev
    rfl
  obtain ⟨p,hp,hwpn⟩ : ∃ p, s.world.player 0 = some p ∧ p.wpnType = .wpnNone := by
    cases hs
    exact ⟨_,rfl,rfl⟩
  obtain ⟨hinv,hagree⟩ := Runs.reached (fun _ _ _ hi hp hq ht => (next_spec hi hp ht).1 hq)
    (fun _ _ _ hi hp ht => (next_spec hi hp ht).2) start_inv start_agree hok hs
  have hrest := hall.right hs
  have hjoin : s.next (.join 0) = some (Viewers.join 0 (s.receive (s.world.enterGame 0))) :=
    enter_some hp
  obtain ⟨hinv',-⟩ := hinv.enter hagree hjoin (World.enterGame_shows 0 s.view s.world)
  have hplayer := World.map_enterGame (g := CPlayer.wpnType) (fun _ _ => rfl) 0 s.world 0
  rw [hp, Option.map_some, hwpn, Option.map_eq_some_iff] at hplayer
  obtain ⟨q,hq,hnone⟩ := hplayer
  have hlast := hrest.2 _ hjoin
  refine hammer_twice hinv' hlast.head hq ?_ hlast
  rw [hnone]
  decide

end Audience

end LastHero
