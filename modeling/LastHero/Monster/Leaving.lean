import LastHero.Monster.Swing

/-! Whether an Execute of AttackState survives its target. Execute looks at the slot of the target
before Attack, for Attack and after it, so that it does only as long as nobody comes or goes there. -/
namespace LastHero
variable {F : Type}

namespace Interleaving

/-- All visits of an Execute. -/
def visits (l : Interleaving F) : ℕ := l.checked.length+l.waiting.length+l.swung.length

/-- Nobody comes or goes while Execute runs. -/
def Undisturbed (l : Interleaving F) : Prop := l.checked = [] ∧ l.waiting = [] ∧ l.swung = []

theorem visits_eq_zero {l : Interleaving F} : l.visits = 0 ↔ l.Undisturbed := by
  simp only [visits, Undisturbed]
  rw [← List.length_eq_zero_iff, ← List.length_eq_zero_iff, ← List.length_eq_zero_iff]
  omega

end Interleaving

namespace Battle
variable {s t u : Battle F} {i : MonsterId} {id : Slot} {m : CMonster F} {p : CPlayer F} {j k : ℕ}

/-- An Execute survives: it ends, it neither damages nor ends up aiming at a player of a later
session, and it has queued the event of the monster once. -/
structure Survives (i : MonsterId) (s t : Battle F) : Prop where
  ended : t.phase i = .ready
  damage : ∀ id n, (id,n) ∈ t.struck → (id,n) ∈ s.struck ∨ n ≤ s.session id
  target : ∀ m id, t.world.monster i = some m → m.target = some id → (t.world.player id).isSome →
    t.session id ≤ s.session id
  event : ∃ e : Event, e.key = .evMonster i ∧ t.world.timerQueue = s.world.timerQueue ++ [e]

/-- What has become of s after k visits to a slot, if monster `i` has not ended its Execute. -/
structure Since (i : MonsterId) (id : Slot) (k : ℕ) (s t : Battle F) : Prop where
  session : t.session id = s.session id+k
  queue : t.world.timerQueue = s.world.timerQueue
  target : (t.world.monster i).map CMonster.target = (s.world.monster i).map CMonster.target
  struck : ∀ c n, (c,n) ∈ t.struck → (c,n) ∈ s.struck ∨ c = id ∧ n ≤ t.session id
  present : k = 0 → (t.world.player id).isSome = (s.world.player id).isSome

theorem Since.refl (i : MonsterId) (id : Slot) (s : Battle F) : Since i id 0 s s :=
  ⟨rfl,rfl,rfl,fun _ _ => Or.inl,fun _ => rfl⟩

theorem Since.trans (h : Since i id j s t) (h' : Since i id k t u) : Since i id (j+k) s u where
  session := by rw [h'.session, h.session, add_assoc]
  queue := h'.queue.trans h.queue
  target := h'.target.trans h.target
  struck c n hc := by
    rcases h'.struck c n hc with hc | hc
    · refine (h.struck c n hc).imp_right fun ⟨hcid,hn⟩ => ⟨hcid,hn.trans ?_⟩
      rw [h'.session]
      exact Nat.le_add_right ..
    · exact Or.inr hc
  present hk := by
    obtain ⟨rfl,rfl⟩ := Nat.add_eq_zero_iff.mp hk
    exact (h'.present rfl).trans (h.present rfl)

/-- An empty slot after some visits means that there was one. -/
theorem Since.visited (h : Since i id k s t) (hp : s.world.player id = some p)
    (hnone : t.world.player id = none) : 0 < k := by
  by_contra hk
  have hsame := h.present (by omega)
  rw [hp, hnone] at hsame
  cases hsame

section Steps
variable [FloatArith F]

/-- A step of the server that replaces the player of the slot. -/
theorem since_server {a : Input F} {w : World F} (hw : s.world.next a = some w)
    (hmonster : w.monster = s.world.monster) (hqueue : w.timerQueue = s.world.timerQueue)
    (hnew : s.world.replaces a w id = true) (h : s.server a = some t) :
    t.phase = s.phase ∧ Since i id 1 s t := by
  rw [server, hw, Option.map_some, Option.some_inj] at h
  subst h
  refine ⟨rfl,if_pos hnew,hqueue,?_,fun _ _ => Or.inl,by simp⟩
  dsimp only
  rw [hmonster]

/-- Disconnect and accept put an end to the session of the slot. -/
theorem since_visit {v : Visit F} (h : s.visit id v = some t) :
    t.phase = s.phase ∧ Since i id 1 s t := by
  cases v with
  | leave =>
    cases hw : s.world.next (.disconnect id) with
    | none => simp [visit, server, hw] at h
    | some w =>
      have hok := toOption_eq_some hw
      obtain ⟨hsome,hplayer,-⟩ := World.disconnect_spec hok
      have hnew : s.world.replaces (.disconnect id) w id = true := by
        simp [World.replaces, hplayer, hsome]
      have hframe : w.monster = s.world.monster ∧ w.timerQueue = s.world.timerQueue := by
        unfold World.disconnect at hok
        split at hok
        · cases hok
        · cases hok
          exact ⟨rfl,rfl⟩
      exact since_server hw hframe.1 hframe.2 hnew h
  | enter heap =>
    unfold visit at h
    split_ifs at h with hfree
    have hw : s.world.next (.accept heap) = some (s.world.accept heap) := rfl
    have hnew : s.world.replaces (.accept heap) (s.world.accept heap) id = true := by
      simp [World.replaces, hfree]
    have hframe : (s.world.accept heap).monster = s.world.monster ∧
        (s.world.accept heap).timerQueue = s.world.timerQueue := by
      simp only [World.accept]
      rw [hfree]
      exact ⟨rfl,rfl⟩
    exact since_server hw hframe.1 hframe.2 hnew h

theorem since_visits {l : List (Visit F)} (h : Runs.run (visit id) s l = some t) :
    t.phase = s.phase ∧ Since i id l.length s t := by
  induction l generalizing s with
  | nil =>
    cases h
    exact ⟨rfl,.refl i id _⟩
  | cons v l ih =>
    obtain ⟨u,hu,h⟩ := Runs.run_cons_eq_some.mp h
    obtain ⟨hphase,hone⟩ := since_visit (i := i) hu
    obtain ⟨hphase',hrest⟩ := ih h
    rw [List.length_cons, Nat.add_comm]
    exact ⟨hphase'.trans hphase,hone.trans hrest⟩

/-- Attack begins if there is a player in the slot, -/
theorem since_swing (draw : ℕ) (hphase : s.phase i = .checked id) (hm : s.world.monster i = some m)
    (hp : s.world.player id = some p) : ∃ t, s.swing i draw = .ok t ∧ Since i id 0 s t ∧
      (t.phase i = .waiting id (t.session id) ∨ t.phase i = .swung id) := by
  by_cases hnear : 0 < getDistance m.pos p.pos ∧ getDistance m.pos p.pos ≤ attackRange
  · refine ⟨_,swing_near draw hphase hm hp hnear.1 hnear.2,?_,Or.inl (setPhase_self ..)⟩
    refine ⟨rfl,World.attackStart_timerQueue ..,?_,fun _ _ => Or.inl,fun _ => ?_⟩
    · rw [World.attackStart_monster, hm]
      rfl
    · rw [World.attackStart_player]
  · exact ⟨_,swing_far draw hphase hm hp (by omega),⟨rfl,rfl,rfl,fun _ _ => Or.inl,fun _ => rfl⟩,
      Or.inr (setPhase_self ..)⟩

/-- and crashes otherwise. -/
theorem swing_nobody (draw : ℕ) (hphase : s.phase i = .checked id) (hm : s.world.monster i = some m)
    (hp : s.world.player id = none) : s.swing i draw = .error .nullPlayer := by
  simp only [swing, hphase, hm, beginAttack, hp]

/-- A blow, if Attack came to its pause. -/
theorem since_land {n : ℕ} (hm : s.world.monster i = some m) (hn : n ≤ s.session id)
    (h : s.phase i = .waiting id n ∨ s.phase i = .swung id) :
    Since i id 0 s (s.land i) ∧ (s.land i).phase i = .swung id := by
  rcases h with hphase | hphase
  · cases hp : s.player id n with
    | none =>
      have hland : s.land i = s.setPhase i (.swung id) := by simp only [land, hphase, hm, hp]
      rw [hland]
      exact ⟨⟨rfl,rfl,rfl,fun _ _ => Or.inl,fun _ => rfl⟩,setPhase_self ..⟩
    | some p =>
      obtain ⟨hdone,hsession,hmonster,hqueue⟩ := endAttack_frame i m id n p s
      rw [land_waiting hphase hm hp]
      refine ⟨⟨congrFun hsession id,hqueue,by rw [hmonster],?_,fun _ => ?_⟩,hdone⟩
      · intro c l hc
        dsimp only [endAttack] at hc
        split_ifs at hc
        · rw [List.mem_append, List.mem_singleton] at hc
          refine hc.imp_right fun heq => ?_
          cases heq
          exact ⟨rfl,hn.trans (congrFun hsession id).ge⟩
        · exact Or.inl hc
      · change ((World.broadcasts _ _).player id).isSome = _
        rw [World.broadcasts_player]
        exact setPlayer_isSome (Option.isSome_of_mem hp) id
  · rw [land_swung hphase]
    exact ⟨.refl i id s,hphase⟩

/-- The last step ends Execute, if there is a player in the slot. -/
theorem finish_ok (now : ℕ) (hphase : s.phase i = .swung id) (hm : s.world.monster i = some m)
    (htarget : m.target = some id) (hp : s.world.player id = some p) : ∃ t, s.finish i now = .ok t ∧
      t.phase i = .ready ∧ t.session = s.session ∧ t.struck = s.struck ∧
      (t.world.monster i).map CMonster.target = some (some id) ∧ t.world.player = s.world.player ∧
      ∃ e : Event, e.key = .evMonster i ∧ t.world.timerQueue = s.world.timerQueue ++ [e] := by
  have hthere : (m.target.bind s.world.player).isSome := by
    rw [htarget, Option.bind_some, hp]
    rfl
  obtain ⟨m',hm',hsame⟩ := World.exists_changeState .chaseState hthere
  rw [finish_swung now hphase hm]
  simp only [checkRange]
  rw [hp]
  dsimp only
  split_ifs with hfar
  · rw [hm']
    refine ⟨_,rfl,setPhase_self ..,rfl,rfl,?_,rfl,_,rfl,rfl⟩
    change (Function.update s.world.monster i (some m') i).map _ = _
    rw [Function.update_self, Option.map_some, hsame, htarget]
  · exact ⟨_,rfl,setPhase_self ..,rfl,rfl,by rw [← htarget]; exact congrArg _ hm,rfl,_,rfl,rfl⟩

/-- How an Execute ends that has a target to attack. -/
structure Concludes (i : MonsterId) (id : Slot) (k : ℕ) (s t : Battle F) : Prop where
  ended : t.phase i = .ready
  session : t.session id = s.session id+k
  struck : ∀ c n, (c,n) ∈ t.struck → (c,n) ∈ s.struck ∨ c = id ∧ n ≤ t.session id
  target : (t.world.monster i).map CMonster.target = some (some id)
  present : (t.world.player id).isSome
  event : ∃ e : Event, e.key = .evMonster i ∧ t.world.timerQueue = s.world.timerQueue ++ [e]

theorem Since.concludes {now : ℕ} (h : Since i id k s t) (hphase : t.phase i = .swung id)
    (htarget : (s.world.monster i).map CMonster.target = some (some id))
    (hp : (t.world.player id).isSome) : ∃ u, t.finish i now = .ok u ∧ Concludes i id k s u := by
  obtain ⟨m,hm,haim⟩ := Option.map_eq_some_iff.mp (h.target.trans htarget)
  obtain ⟨p,hp'⟩ := Option.isSome_iff_exists.mp hp
  obtain ⟨u,hok,hended,hsession,hstruck,hkept,hplayer,e,hkey,hqueue⟩ :=
    finish_ok now hphase hm haim hp'
  refine ⟨u,hok,hended,?_,?_,hkept,hplayer ▸ hp,e,hkey,by rw [hqueue, h.queue]⟩
  · rw [hsession, h.session]
  · rw [hstruck, hsession]
    exact h.struck

/-- It fails for an empty slot only, and then somebody has left. -/
theorem execute_engaged {l : Interleaving F} {r : Except Fault (Battle F)}
    (hm : s.world.monster i = some m) (hs : m.state = .attackState) (hready : s.phase i = .ready)
    (hengaged : Engages s.world m id p) (h : s.execute i l = some r) :
    (r = .error .nullPlayer ∧ 0 < l.visits) ∨ ∃ t, r = .ok t ∧ Concludes i id l.visits s t := by
  have htarget : (s.world.monster i).map CMonster.target = some (some id) := by
    rw [hm, Option.map_some, hengaged.target]
  unfold execute at h
  rw [check_engaged l.now hm hs hready hengaged] at h
  simp only [setPhase_self] at h
  obtain ⟨t₁,h₁,h⟩ := Option.bind_eq_some_iff.mp h
  obtain ⟨hphase₁,⟨hsession,hqueue,haim,hstruck,hpresent⟩⟩ := since_visits (i := i) h₁
  have hs₁ : Since i id l.checked.length s t₁ := ⟨hsession,hqueue,haim,hstruck,hpresent⟩
  have hcheck : t₁.phase i = .checked id := by rw [hphase₁, setPhase_self]
  obtain ⟨m₁,hm₁,-⟩ := Option.map_eq_some_iff.mp (hs₁.target.trans htarget)
  cases hp₁ : t₁.world.player id with
  | none =>
    rw [swing_nobody l.draw hcheck hm₁ hp₁] at h
    cases h
    have hvisited := hs₁.visited hengaged.player hp₁
    exact Or.inl ⟨rfl,by unfold Interleaving.visits; omega⟩
  | some p₁ =>
    obtain ⟨t₂,hswing,hs₂,hphase₂⟩ := since_swing l.draw hcheck hm₁ hp₁
    rw [hswing] at h
    obtain ⟨t₃,h₃,h⟩ := Option.bind_eq_some_iff.mp h
    obtain ⟨hphase₃,hs₃⟩ := since_visits (i := i) h₃
    have hs₁₃ := (hs₁.trans hs₂).trans hs₃
    obtain ⟨m₃,hm₃,-⟩ := Option.map_eq_some_iff.mp (hs₁₃.target.trans htarget)
    obtain ⟨hs₄,hphase₄⟩ := since_land hm₃ (by rw [hs₃.session]; omega)
      (hphase₃ ▸ hphase₂)
    obtain ⟨t₅,h₅,rfl⟩ := Option.map_eq_some_iff.mp h
    obtain ⟨hphase₅,hs₅⟩ := since_visits (i := i) h₅
    have hs₁₅ : Since i id l.visits s t₅ := (hs₁₃.trans hs₄).trans hs₅
    have hswung : t₅.phase i = .swung id := by rw [hphase₅, hphase₄]
    cases hp₅ : t₅.world.player id with
    | none =>
      obtain ⟨m₅,hm₅,-⟩ := Option.map_eq_some_iff.mp (hs₁₅.target.trans htarget)
      refine Or.inl ⟨?_,hs₁₅.visited hengaged.player hp₅⟩
      rw [finish_swung l.now hswung hm₅]
      simp only [checkRange, hp₅]
    | some q => exact Or.inr (hs₁₅.concludes hswung htarget (Option.isSome_of_mem hp₅))

/-- An Execute survives its target if and only if it finds nobody to attack, or nobody leaves or
comes while it runs. -/
theorem survives_iff {l : Interleaving F} {r : Except Fault (Battle F)}
    (hm : s.world.monster i = some m) (hs : m.state = .attackState) (hready : s.phase i = .ready)
    (h : s.execute i l = some r) : (∃ t, r = .ok t ∧ Survives i s t) ↔
      (∀ id p, ¬ Engages s.world m id p) ∨ l.Undisturbed := by
  by_cases hengaged : ∀ id p, ¬ Engages s.world m id p
  · obtain ⟨m',hcheck,-,-⟩ := check_idle l.draw l.now hm hs hready hengaged
    have hended := setPhase_self i .ready s
    unfold execute at h
    simp only [hcheck, conclude, hended, Option.some_inj] at h
    subst h
    exact iff_of_true ⟨_,rfl,hended,fun _ _ => Or.inl,fun _ _ _ _ _ => le_rfl,_,rfl,rfl⟩
      (Or.inl hengaged)
  · rw [or_iff_right hengaged, ← Interleaving.visits_eq_zero]
    push Not at hengaged
    obtain ⟨id,p,hengaged⟩ := hengaged
    rcases execute_engaged hm hs hready hengaged h with ⟨rfl,hvisits⟩ | ⟨t,rfl,hend⟩
    · exact iff_of_false (by rintro ⟨t,hok,-⟩; cases hok) hvisits.ne'
    · obtain ⟨m',hm',haim⟩ := Option.map_eq_some_iff.mp hend.target
      constructor
      · rintro ⟨u,hu,hsurvives⟩
        cases hu
        have hsession := hsurvives.target m' id hm' haim hend.present
        rw [hend.session] at hsession
        omega
      · intro hvisits
        have hsession := hend.session
        rw [hvisits, add_zero] at hsession
        refine ⟨t,rfl,hend.ended,fun c n hc => ?_,fun m'' c hm'' haim' _ => ?_,hend.event⟩
        · rcases hend.struck c n hc with hold | ⟨rfl,hn⟩
          · exact Or.inl hold
          · exact Or.inr (hn.trans hsession.le)
        · cases hm'.symm.trans hm''
          cases haim.symm.trans haim'
          exact hsession.le

end Steps

/-- The duel before the goblin looks at its target. -/
def eve : Battle ℚ := { duel with phase := fun _ => .ready }

theorem survives_eve : ∃ r, eve.execute 0 ⟨0,0,[],[],[]⟩ = some r ∧
    ((∃ t, r = .ok t ∧ Survives 0 eve t) ↔ (∀ id p, ¬ Engages eve.world hunter id p) ∨
      (⟨0,0,[],[],[]⟩ : Interleaving ℚ).Undisturbed) := by
  have hsome : (eve.execute 0 ⟨0,0,[],[],[]⟩).isSome = true := by decide +kernel
  obtain ⟨r,hr⟩ := Option.isSome_iff_exists.mp hsome
  exact ⟨r,hr,survives_iff rfl rfl rfl hr⟩

/-- The player leaves during the pause. The last step calls a method of NULL. -/
theorem leaving_crashes : ∃ (s : Battle ℚ) (i : MonsterId) (m : CMonster ℚ) (l : Interleaving ℚ)
    (r : Except Fault (Battle ℚ)), s.world.monster i = some m ∧ m.state = .attackState ∧
      s.phase i = .ready ∧ s.execute i l = some r ∧ ¬ ∃ t, r = .ok t ∧ Survives i s t := by
  have hcrash : (eve.execute 0 ⟨0,0,[],[.leave],[]⟩).any (fun r => r.toOption.isNone) = true := by
    decide +kernel
  obtain ⟨r,hr,hnone⟩ := (Option.any_eq_true _ _).mp hcrash
  refine ⟨eve,0,hunter,_,r,rfl,rfl,rfl,hr,?_⟩
  rintro ⟨t,rfl,-⟩
  cases hnone

end Battle

end LastHero
