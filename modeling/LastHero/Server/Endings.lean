import LastHero.Monster.Death
import LastHero.Server.BossAttacks

/-! What ends the process. The boss and the monsters never do: nobody is chased without a target,
and the walk home never begins. What is left are two packets, and the work for a player that has
left: a packet that another worker_thread still has, a second Disconnect and a level to store. -/
namespace LastHero
variable {F : Type}

/-- The monster chases or attacks somebody, and is not on the way home. -/
structure CMonster.Aimed (m : CMonster F) : Prop where
  home : m.state ≠ .returnHomeState
  target : m.state = .chaseState ∨ m.state = .attackState → m.target.isSome

namespace World
variable {w w' w'' : World F} {i : MonsterId} {uid : Slot} {m m' : CMonster F} {b : Boss F}

/-- Every monster is aimed. -/
def AllAimed (w : World F) : Prop := ∀ i m, w.monster i = some m → m.Aimed

theorem AllAimed.spares (h : AllAimed w) (hs : Spares w w') : AllAimed w' := by
  intro i m' hm'
  obtain ⟨m,hm,hspared⟩ := hs.before hm'
  have haimed := h i m hm
  exact ⟨hspared.state ▸ haimed.home,fun hs => hspared.target ▸ haimed.target (hspared.state ▸ hs)⟩

section Updates
variable [FloatArith F]

/-- The Execute returns, and leaves the monster aimed. -/
def Goes (i : MonsterId) (r : Except Fault (World F)) : Prop :=
  ∃ w' m', r = .ok w' ∧ w'.monster i = some m' ∧ m'.Aimed

omit [FloatArith F] in
theorem Goes.put {t : ℕ} (h : m.Aimed) : Goes i (.ok ((w.setMonster i m).monsterTimer i t)) :=
  ⟨_,m,rfl,Function.update_self ..,h⟩

theorem aimed_changeState {s : State} (hhome : s ≠ .returnHomeState)
    (h : s = .chaseState ∨ s = .attackState → (m.target.bind w.player).isSome) :
    ∃ m', w.changeState s m = .ok m' ∧ m'.Aimed := by
  have hhunt : (m.target.bind w.player).isSome → ∃ m', w.changeState s m = .ok m' ∧ m'.Aimed := by
    intro haim
    obtain ⟨m',hm',htarget⟩ := exists_changeState s haim
    refine ⟨m',hm',(changeState_spec hm').1 ▸ hhome,fun _ => ?_⟩
    rw [htarget]
    exact Option.isSome_of_isSome_bind haim
  cases s with
  | idleState => exact ⟨_,rfl,by simp,by simp⟩
  | deadState => exact ⟨_,rfl,by simp,by simp⟩
  | returnHomeState => exact absurd rfl hhome
  | chaseState => exact hhunt (h (Or.inl rfl))
  | attackState => exact hhunt (h (Or.inr rfl))

theorem Goes.changeState {s : State} {t : ℕ} (hhome : s ≠ .returnHomeState)
    (h : s = .chaseState ∨ s = .attackState → (m.target.bind w.player).isSome) :
    Goes i (do let m' ← w.changeState s m; return (w.setMonster i m').monsterTimer i t) := by
  obtain ⟨m',hm',haimed⟩ := aimed_changeState hhome h
  rw [hm']
  exact .put haimed

theorem goes_idleState (now : ℕ) (h : m.Aimed) : Goes i (w.executeIdleState i m now) := by
  obtain ⟨m₁,hbury,haimed⟩ : ∃ m₁, w.changeIf (m.healthPoint ≤ 0) .deadState m = .ok m₁ ∧
      m₁.Aimed := by
    unfold changeIf
    split_ifs
    · exact aimed_changeState (by simp) (by simp)
    · exact ⟨m,rfl,h⟩
  simp only [executeIdleState]
  rw [hbury]
  change Goes i (w.watchOut i m₁ now)
  simp only [watchOut]
  split
  · exact .put haimed
  · rename_i c _
    split
    · exact .put haimed
    · rename_i p hp
      have hc : (({ m₁ with target := some c } : CMonster F).target.bind w.player).isSome := by
        rw [Option.bind_some, hp]
        rfl
      split_ifs with hnear hneg hfar
      · exact .put ⟨haimed.home,fun _ => rfl⟩
      · exact .changeState (by simp) fun _ => hc
      · exact absurd hfar (not_lt.mpr (getDistance_le_activityRange _ _))
      · exact .changeState (by simp) fun _ => hc
      · exact .put ⟨haimed.home,fun _ => rfl⟩

/-- With a target UpdateTarget finds another one. -/
theorem foldlM_closer_isSome (m : CMonster F) (c : Slot) (l : List Slot) :
    ∃ d, l.foldlM (w.closer m) (some c) = .ok (some d) := by
  induction l generalizing c with
  | nil => exact ⟨c,rfl⟩
  | cons j l ih =>
    obtain ⟨d,hd⟩ : ∃ d, w.closer m (some c) j = .ok (some d) := by
      simp only [closer]
      cases w.player j with
      | none => exact ⟨c,rfl⟩
      | some p =>
        dsimp only
        split_ifs
        · exact ⟨c,rfl⟩
        · exact ⟨c,rfl⟩
        · exact ⟨j,rfl⟩
        · exact ⟨c,rfl⟩
    rw [List.foldlM_cons, hd]
    exact ih d

theorem goes_chaseState (now : ℕ) (h : m.Aimed) (hstate : m.state = .chaseState) :
    Goes i (w.executeChaseState i m now) := by
  obtain ⟨c,hc⟩ := Option.isSome_iff_exists.mp (h.target (Or.inl hstate))
  obtain ⟨d,hd⟩ := foldlM_closer_isSome (w := w) m c slots
  have htarget : w.updateTarget m = .ok { m with target := some d } := by
    simp only [updateTarget]
    rw [hc, hd]
    rfl
  have haimed : ({ m with target := some d } : CMonster F).Aimed := ⟨h.home,fun _ => rfl⟩
  simp only [executeChaseState]
  split_ifs
  · exact .changeState (by simp) (by simp)
  · rw [htarget]
    dsimp only [bind, Except.bind]
    split
    · exact .put haimed
    · rename_i p hp
      split_ifs
      · have hchase : ((({ m with target := some d } : CMonster F).chase p.pos).target.bind
            w.player).isSome := Option.isSome_of_mem hp
        exact .changeState (by simp) fun _ => hchase
      · exact ⟨_,_,rfl,Function.update_self ..,h.home,fun _ => rfl⟩

/-- An Attack turns the monster at most, and takes no player away. -/
theorem goes_attackState (draw now : ℕ) (hm : w.monster i = some m) (h : m.Aimed)
    (hstate : m.state = .attackState) : Goes i (w.executeAttackState i m draw now) := by
  obtain ⟨c,hc⟩ := Option.isSome_iff_exists.mp (h.target (Or.inr hstate))
  simp only [executeAttackState]
  split_ifs
  · exact .changeState (by simp) (by simp)
  · rw [hc]
    dsimp only
    split
    · exact .changeState (by simp) (by simp)
    · rename_i p hp
      cases hattack : w.monsterAttack i m c p draw with
      | mk m₁ w₁ =>
        obtain ⟨hput,r,hr⟩ := puts_monsterAttack hm hattack
        have hplayer : (w₁.player c).isSome :=
          ((sameSlots_monsterAttack hattack).player c).trans (Option.isSome_of_mem hp)
        have haim : (m₁.target.bind w₁.player).isSome := by
          rw [hr, hc]
          exact hplayer
        split_ifs
        · exact .changeState (by simp) (by simp)
        · exact .changeState (by simp) fun _ => haim
        · refine ⟨_,m₁,rfl,?_,?_⟩
          · change w₁.monster i = some m₁
            rw [hput.monster, Function.update_self]
          · rw [hr]
            exact ⟨h.home,h.target⟩

/-- Every Execute of an aimed monster returns. -/
theorem goes_monsterUpdate (draw now : ℕ) (hm : w.monster i = some m) (h : m.Aimed) :
    Goes i (w.monsterUpdate i draw now) := by
  rw [monsterUpdate_some hm]
  unfold monsterExecute
  cases hstate : m.state with
  | idleState => exact goes_idleState now h
  | chaseState => exact goes_chaseState now h hstate
  | attackState => exact goes_attackState draw now hm h hstate
  | returnHomeState => exact absurd hstate h.home
  | deadState => exact ⟨w,m,rfl,hm,h⟩

theorem monster_boss (h : Deeds .boss w w') : w'.monster = w.monster := by
  refine h.lift (R := fun w w' : World F => w'.monster = w.monster) (fun _ => rfl)
    (fun h h' => h'.trans h) fun w w' hd => ?_
  cases hd with
  | timers _ _ hs => exact hs.monster
  | monster i m m' ht => exact ht.elim Turn.noConfusion Turn.noConfusion
  | hurt id i m damage ht => cases ht
  | slay id i m damage exp ht => cases ht
  | wound id b _ hb =>
    simp only [bossTakeDamage]
    split
    · rfl
    · split_ifs
      · rfl
      · rfl
  | _ => rfl

/-- What keeps the boss and the monsters going. -/
structure Steady (w : World F) : Prop where
  aimed : AllAimed w
  poised : Poised w

variable {getPath : ℤ × ℤ → ℤ × ℤ → List (ℤ × ℤ)} {a : ServerInput F}

/-- One step. -/
theorem AllAimed.next (h : AllAimed w) (hstep : w.serverNext getPath a = some w') :
    AllAimed w' := by
  cases a with
  | thread a => exact h.spares (spares_next hstep)
  | io ops recv =>
    cases hstep
    exact h
  | boss draw now =>
    obtain ⟨v,haside,hd⟩ := step_spec hstep
    intro i m hm
    rw [monster_boss hd, haside.monster] at hm
    exact h i m hm
  | monster k draw now =>
    intro i m' hm'
    by_cases hik : i = k
    · subst hik
      dsimp only [serverNext, monsterNext] at hstep
      split_ifs at hstep
      have hok := toOption_eq_some hstep
      cases hm : w.monster i with
      | none =>
        rw [monsterUpdate_none (w := w.unpost (.evMonster i)) hm] at hok
        cases hok
        exact h i m' hm'
      | some m =>
        obtain ⟨v,m₁,hv,hm₁,haimed⟩ :=
          goes_monsterUpdate (w := w.unpost (.evMonster i)) draw now hm (h i m hm)
        obtain rfl : v = w' := Except.ok.inj (hv.symm.trans hok)
        obtain rfl : m₁ = m' := Option.some.inj (hm₁.symm.trans hm')
        exact haimed
    · exact h i m' ((monsterNext_other hik hstep).symm.trans hm')

theorem Steady.next (h : Steady w) (hstep : w.serverNext getPath a = some w') : Steady w' :=
  ⟨h.aimed.next hstep,(h.poised.next hstep).1⟩

end Updates

end World

end LastHero
