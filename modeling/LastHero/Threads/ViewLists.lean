import LastHero.Threads.Announce

/-! The view lists of the players. EnterGame enters both players into each other's list, but
Disconnect takes the leaving player out of no list, so that his number stays there for whoever
gets his slot. -/
namespace LastHero
variable {F : Type}

/-- What changes view lists and players, and whether they live. -/
inductive ViewInput (F : Type)
  | accept (heap : CPlayer F)
  | enterGame (uid : Slot)
  | disconnect (uid : Slot)
  | alive (uid : Slot) (isAlive : Bool)

/-- Initialize and TakeDamage set isAlive. -/
def CPlayer.setAlive (isAlive : Bool) (p : CPlayer F) : CPlayer F := { p with isAlive := isAlive }

namespace World

/-- Connected players see each other, and nobody sees a slot without a connection. -/
structure Mutual (w : World F) : Prop where
  symm : ∀ i j, i ≠ j → (w.client i).isconnected = true → (w.client j).isconnected = true →
    (w.Sees i j ↔ w.Sees j i)
  present : ∀ i j, (w.client i).isconnected = true → w.Sees i j → (w.client j).isconnected = true

/-- Only players that see nobody else leave. -/
def LeavesUnmet (w : World F) : ViewInput F → Prop
  | .disconnect uid => ∀ j, j ≠ uid → ¬ w.Sees uid j
  | _ => True

/-- The connections are those of the players. -/
def Manned (w : World F) : Prop := ∀ i, (w.player i).isSome = (w.client i).isconnected

variable {w w' : World F} {i j id uid : Slot}

theorem Sees.manned (h : w.Sees i j) (hw : Manned w) : (w.client i).isconnected = true := by
  obtain ⟨p,hp,-⟩ := h
  rw [← hw i, hp]
  rfl

theorem meets_manned (h : meets id w i) (hw : Manned w) :
    (w.client id).isconnected = true ∧ (w.client i).isconnected = true := by
  obtain ⟨-,me,other,hme,hother,-⟩ := meets_iff.mp h
  rw [← hw id, ← hw i, hme, hother]
  exact ⟨rfl,rfl⟩

/-- A step that leaves view lists and connections. -/
theorem Mutual.congr (hc : ∀ i, (w'.client i).isconnected = (w.client i).isconnected)
    (hs : ∀ i j, w'.Sees i j ↔ w.Sees i j) (h : Mutual w) : Mutual w' := by
  constructor
  · intro i j hij hi hj
    rw [hs, hs]
    exact h.symm i j hij (hc i ▸ hi) (hc j ▸ hj)
  · intro i j hi hij
    rw [hc]
    exact h.present i j (hc i ▸ hi) ((hs i j).mp hij)

theorem accept_sees (heap : CPlayer F) (hfree : w.freeSlot = some i) (j k : Slot) :
    (w.accept heap).Sees j k ↔ j ≠ i ∧ w.Sees j k := by
  simp only [Sees]
  rw [accept_player heap hfree]
  by_cases hj : j = i
  · subst hj
    simp [CPlayer.new]
  · simp [hj]

theorem accept_isconnected (heap : CPlayer F) (hfree : w.freeSlot = some i) (j : Slot) :
    ((w.accept heap).client j).isconnected = true ↔ j = i ∨ (w.client j).isconnected = true := by
  rw [accept_client heap hfree]
  by_cases hj : j = i
  · subst hj
    simp
  · simp [hj]

/-- A new player sees nobody, and nobody sees the slot that was free. -/
theorem mutual_accept (heap : CPlayer F) (hw : Manned w) (h : Mutual w) :
    Mutual (w.accept heap) := by
  cases hfree : w.freeSlot with
  | none => rwa [accept_full heap hfree]
  | some i =>
    have hempty := freeSlot_spec hfree
    have hunseen : ∀ k, ¬ w.Sees k i := by
      intro k hk
      have hi := h.present k i (hk.manned hw) hk
      rw [hempty] at hi
      cases hi
    constructor
    · intro j k hjk hj hk
      rw [accept_sees heap hfree, accept_sees heap hfree]
      rw [accept_isconnected heap hfree] at hj hk
      obtain rfl | hj := hj
      · exact iff_of_false (fun hs => hs.1 rfl) fun hs => hunseen k hs.2
      · obtain rfl | hk := hk
        · exact iff_of_false (fun hs => hunseen j hs.2) fun hs => hs.1 rfl
        · have hne : ∀ l, (w.client l).isconnected = true → l ≠ i := by
            rintro l hl rfl
            rw [hempty] at hl
            cases hl
          simp only [ne_eq, hne j hj, hne k hk, not_false_eq_true, true_and]
          exact h.symm j k hjk hj hk
    · intro j k hj hs
      rw [accept_sees heap hfree] at hs
      rw [accept_isconnected heap hfree]
      exact Or.inr (h.present j k (hs.2.manned hw) hs.2)

theorem disconnect_sees (h : w.disconnect uid = .ok w') (j k : Slot) :
    w'.Sees j k ↔ j ≠ uid ∧ w.Sees j k := by
  simp only [Sees]
  rw [(disconnect_spec h).2.1]
  by_cases hj : j = uid
  · subst hj
    simp
  · simp [hj]

theorem disconnect_isconnected (h : w.disconnect uid = .ok w') (j : Slot) :
    (w'.client j).isconnected = true ↔ j ≠ uid ∧ (w.client j).isconnected = true := by
  rw [(disconnect_spec h).2.2.1]
  by_cases hj : j = uid
  · subst hj
    simp
  · simp [hj]

/-- The others keep the number of a player who leaves: that does no harm if and only if there is
nobody who sees him. -/
theorem mutual_disconnect_iff (hw : Manned w) (h : Mutual w) (hd : w.disconnect uid = .ok w') :
    Mutual w' ↔ ∀ j, j ≠ uid → ¬ w.Sees uid j := by
  have huid : (w.client uid).isconnected = true := by
    rw [← hw uid]
    exact (disconnect_spec hd).1
  constructor
  · intro h' j hj hs
    have hother := h.present uid j huid hs
    have hback : w.Sees j uid := (h.symm uid j (Ne.symm hj) huid hother).mp hs
    have hgone := h'.present j uid ((disconnect_isconnected hd j).mpr ⟨hj,hother⟩)
      ((disconnect_sees hd j uid).mpr ⟨hj,hback⟩)
    exact ((disconnect_isconnected hd uid).mp hgone).1 rfl
  · intro hunmet
    constructor
    · intro j k hjk hj hk
      rw [disconnect_isconnected hd] at hj hk
      rw [disconnect_sees hd, disconnect_sees hd]
      simp only [ne_eq, hj.1, hk.1, not_false_eq_true, true_and]
      exact h.symm j k hjk hj.2 hk.2
    · intro j k hj hs
      rw [disconnect_isconnected hd] at hj ⊢
      have hs := ((disconnect_sees hd j k).mp hs).2
      refine ⟨?_,h.present j k hj.2 hs⟩
      rintro rfl
      exact hunmet j hj.1 ((h.symm j k hj.1 hj.2 huid).mp hs)

theorem enterGame_sees (id j k : Slot) (w : World F) : (w.enterGame id).Sees j k ↔
    w.Sees j k ∨ (j = id ∧ meets id w k) ∨ (k = id ∧ meets id w j) := by
  rw [(quiet_enterGame id w).sees, foldl_meet_sees]
  simp only [mem_slots, true_and]

/-- EnterGame enters both players. -/
theorem mutual_enterGame (id : Slot) (hw : Manned w) (h : Mutual w) : Mutual (w.enterGame id) := by
  have hclient : (w.enterGame id).client = w.client :=
    (keeps_enterGame id w).client
  constructor
  · intro j k hjk hj hk
    rw [hclient] at hj hk
    rw [enterGame_sees, enterGame_sees, h.symm j k hjk hj hk]
    exact or_congr_right or_comm
  · intro j k hj hs
    rw [hclient] at hj ⊢
    obtain hs | ⟨-,hm⟩ | ⟨rfl,hm⟩ := (enterGame_sees id j k w).mp hs
    · exact h.present j k hj hs
    · exact (meets_manned hm hw).2
    · exact (meets_manned hm hw).1

def viewNext (w : World F) : ViewInput F → Option (World F)
  | .accept heap => some (w.accept heap)
  | .enterGame uid => if (w.player uid).isSome then some (w.enterGame uid) else none
  | .disconnect uid => (w.disconnect uid).toOption
  | .alive uid isAlive => some (w.modifyPlayer uid (CPlayer.setAlive isAlive))

theorem manned_viewNext {a : ViewInput F} (hw : Manned w) (h : w.viewNext a = some w') :
    Manned w' := by
  intro j
  cases a with
  | accept heap =>
    cases h
    cases hfree : w.freeSlot with
    | none => rw [accept_full heap hfree, hw j]
    | some i =>
      rw [accept_player heap hfree, accept_client heap hfree]
      by_cases hj : j = i
      · subst hj
        simp
      · rw [Function.update_of_ne hj, Function.update_of_ne hj, hw j]
  | enterGame uid =>
    rw [viewNext] at h
    split_ifs at h
    cases h
    have hkeeps := keeps_enterGame uid w
    rw [hkeeps.isSome, hkeeps.client, hw j]
  | disconnect uid =>
    obtain ⟨-,hplayer,hclient,-⟩ := disconnect_spec (toOption_eq_some h)
    rw [hplayer, hclient]
    by_cases hj : j = uid
    · subst hj
      simp
    · rw [Function.update_of_ne hj, Function.update_of_ne hj, hw j]
  | alive uid isAlive =>
    cases h
    rw [isSome_modifyPlayer]
    exact hw j

/-- A step keeps the view lists mutual, but for the leave of a player who has met others. -/
theorem mutual_viewNext_iff {a : ViewInput F} (hw : Manned w) (hm : Mutual w)
    (h : w.viewNext a = some w') : Mutual w' ↔ w.LeavesUnmet a := by
  cases a with
  | accept heap =>
    cases h
    exact iff_of_true (mutual_accept heap hw hm) trivial
  | enterGame uid =>
    rw [viewNext] at h
    split_ifs at h
    cases h
    exact iff_of_true (mutual_enterGame uid hw hm) trivial
  | disconnect uid => exact mutual_disconnect_iff hw hm (toOption_eq_some h)
  | alive uid isAlive =>
    cases h
    refine iff_of_true (Mutual.congr (w := w) (fun _ => rfl) (fun i j => ?_) hm) trivial
    have hview := map_modifyPlayer (f := CPlayer.setAlive isAlive) (g := CPlayer.viewList)
      (fun _ => rfl) w uid i
    rw [sees_iff, hview, ← sees_iff]

section Runs
variable [FloatArith F]

theorem manned_start : Manned (start : World F) := by
  intro i
  rw [start_player, quiet_start.client]
  rfl

theorem mutual_start : Mutual (start : World F) := by
  have hunseen : ∀ i j, ¬ (start : World F).Sees i j := by
    rintro i j ⟨p,hp,-⟩
    rw [start_player] at hp
    cases hp
  exact ⟨fun i j _ _ _ => iff_of_false (hunseen i j) (hunseen j i),
    fun i j _ h => absurd h (hunseen i j)⟩

/-- The view lists stay mutual exactly in the runs in which only players leave who have met
nobody. -/
theorem views_mutual_iff (as : List (ViewInput F)) :
    Runs.Always viewNext Mutual start as ↔ Runs.Along viewNext LeavesUnmet start as :=
  Runs.always_iff_along (I := Manned) (fun _ _ _ hw _ _ h => manned_viewNext hw h)
    (fun _ _ _ hw hm h => mutual_viewNext_iff hw hm h) manned_start mutual_start

end Runs

/-- A player leaves whom another one has met: his number stays in the other view list. -/
theorem view_left_behind : ∃ as : List (ViewInput ℚ),
    ¬ Runs.Always viewNext Mutual start as := by
  refine ⟨[.accept zeroPlayer,.alive 0 true,.accept zeroPlayer] ++ [.enterGame 1,.disconnect 1],
    fun h => ?_⟩
  have hrun : Runs.run viewNext start [.accept zeroPlayer,.alive 0 true,.accept zeroPlayer] =
      some (((start.accept zeroPlayer).modifyPlayer 0 (CPlayer.setAlive true)).accept zeroPlayer) :=
    rfl
  have hmanned := (Runs.always (fun _ _ _ hw h => manned_viewNext hw h) manned_start).last hrun
  have hmet := h.right hrun
  generalize hw : ((start.accept zeroPlayer).modifyPlayer 0 (CPlayer.setAlive true)).accept
    zeroPlayer = w at hmanned hmet
  have hmeets : meets 1 w 0 = true := hw ▸ rfl
  have hplayer : (w.player 1).isSome := hw ▸ rfl
  have hstep : w.viewNext (.enterGame 1) = some (w.enterGame 1) := if_pos hplayer
  have hleft := hmet.2 (w.enterGame 1) hstep
  have hmanned' := manned_viewNext hmanned hstep
  have hkeeps := (keeps_foldl_meet 1 slots w).trans (quiet_enterGame 1 w).toKeeps
  obtain ⟨w',hd⟩ := disconnect_some ((hkeeps.isSome 1).trans hplayer)
  have hmutual : Mutual w' := (hleft.2 w' (by rw [viewNext, hd]; rfl)).head
  exact (mutual_disconnect_iff hmanned' hleft.head hd).mp hmutual 0 (by decide)
    ((enterGame_sees 1 1 0 w).mpr (Or.inr (Or.inl ⟨rfl,hmeets⟩)))

end World

end LastHero
