import LastHero.Game.Session

/-! Whom the boss attacks. The search of Boss::Attack begins at the range and looks for larger
distances below it, so the boss always takes the player of slot 0, and its old target without one. -/
namespace LastHero
variable {F : Type}

/-- The states of single attacks. -/
def BState.IsAttack (s : BState) : Prop :=
  s ≠ .bIdle ∧ s ≠ .bChase ∧ s ≠ .bAttack ∧ s ≠ .bDead

instance (s : BState) : Decidable s.IsAttack := inferInstanceAs (Decidable (_ ∧ _))

/-- The target of an attack: the player of slot 0, or the target so far. -/
def Boss.aim (b : Boss F) (w : World F) : Option Slot :=
  if (w.player 0).isSome then some 0 else b.target

namespace World
variable [FloatArith F]

/-- A connected player at a distance of at most the range of the boss. -/
def InRange (w : World F) (b : Boss F) (i : Slot) : Prop :=
  ∃ p n, w.player i = some p ∧ floatDistance b.pos p.pos = some n ∧ n ≤ bossActivityRange^2

/-- A connected player nearer than the range, but not on the boss. -/
def Near (w : World F) (b : Boss F) (i : Slot) : Prop :=
  ∃ p, w.player i = some p ∧ floatGt (floatDistance b.pos p.pos) 0 ∧
    floatLt (floatDistance b.pos p.pos) bossActivityRange

/-- The boss attacks a player in its range if one is near, and does not attack if none is in
range. -/
structure PicksTarget (w : World F) (b : Boss F) (target : Option Slot) (next : BState) : Prop where
  near : (∃ i, w.Near b i) → next.IsAttack ∧ ∃ i, target = some i ∧ w.InRange b i
  nobody : (∀ i, ¬ w.InRange b i) → ¬ next.IsAttack

/-- The player of slot 0, or else of the old target, is in range if anybody is near. If nobody is
in range, there is neither such a player nor a broken leg. -/
structure AimsWell (w : World F) (b : Boss F) : Prop where
  near : (∃ i, w.Near b i) → ∃ i, b.aim w = some i ∧ w.InRange b i
  nobody : (∀ i, ¬ w.InRange b i) → b.isLegBroken = false ∧ (b.aim w).bind w.player = none

variable {w : World F} {b : Boss F}

theorem isAttack_chooseAttack (far : Bool) (draw : ℕ) : (chooseAttack far draw).IsAttack := by
  simp only [chooseAttack]
  split_ifs
  · split <;> decide
  · split <;> decide

/-- What Boss::Attack decides. -/
theorem bossAttackChoice_eq (b : Boss F) (draw : ℕ) (w : World F) :
    (w.bossAttackChoice b draw).1.target = b.aim w ∧
      ((w.bossAttackChoice b draw).2.IsAttack ↔
        b.isLegBroken = true ∨ ((b.aim w).bind w.player).isSome) := by
  simp only [bossAttackChoice, Boss.aim]
  rw [foldl_scanTarget]
  dsimp only
  rw [if_neg (lt_irrefl _)]
  -- the boss with its new target
  generalize haim : (if (w.player 0).isSome then { b with target := some 0 } else b) = b'
  have htarget : b'.target = if (w.player 0).isSome then some 0 else b.target := by
    subst haim
    split_ifs
    · rfl
    · rfl
  have hleg : b'.isLegBroken = b.isLegBroken := by
    subst haim
    split_ifs
    · rfl
    · rfl
  rw [hleg, ← htarget]
  by_cases hbroken : b.isLegBroken = true
  · rw [if_pos hbroken]
    exact ⟨rfl,iff_of_true (show BState.bDownAtk.IsAttack by decide) (Or.inl hbroken)⟩
  · rw [if_neg hbroken]
    simp only [targetPlayer]
    split
    · rename_i hnone
      refine ⟨rfl,iff_of_false (show ¬ BState.bIdle.IsAttack by decide) ?_⟩
      rw [hnone]
      simp [hbroken]
    · rename_i p hp
      refine ⟨rfl,iff_of_true (isAttack_chooseAttack _ _) (Or.inr ?_)⟩
      rw [hp]
      rfl

/-- Boss::Attack picks a target as it should if and only if the players of slot 0 and of the old
target are such that taking them is right. -/
theorem picks_target_iff (b : Boss F) (draw : ℕ) (w : World F) :
    w.PicksTarget b (w.bossAttackChoice b draw).1.target (w.bossAttackChoice b draw).2 ↔
      w.AimsWell b := by
  obtain ⟨htarget,hattack⟩ := bossAttackChoice_eq b draw w
  rw [htarget]
  constructor
  · intro h
    refine ⟨fun hnear => (h.near hnear).2,fun hnobody => ?_⟩
    have hnot := h.nobody hnobody
    rw [hattack, not_or, Bool.not_eq_true, Option.not_isSome_iff_eq_none] at hnot
    exact hnot
  · intro h
    refine ⟨fun hnear => ?_,fun hnobody => ?_⟩
    · obtain ⟨i,haim,hrange⟩ := h.near hnear
      have ⟨p,_,hp,_⟩ := hrange
      refine ⟨hattack.mpr (Or.inr ?_),i,haim,hrange⟩
      rw [haim, Option.bind_some, hp]
      rfl
    · rw [hattack, not_or, Bool.not_eq_true, Option.not_isSome_iff_eq_none]
      exact h.nobody hnobody

/-- A boss at the origin. -/
def lurking : Boss ℚ := { (Boss.initializeBoss : Boss ℚ) with pos := ⟨0,0,0⟩ }

/-- A player far away in slot 0 and one next to the boss in slot 1. -/
def distracted : World ℚ where
  __ := (empty : World ℚ)
  player i := if i = 0 then some { zeroPlayer with pos := ⟨9000,0,0⟩ }
    else if i = 1 then some { zeroPlayer with pos := ⟨100,0,0⟩ } else none

/-- The boss aims at the player far away. -/
theorem boss_aims_far : ∃ (b : Boss ℚ) (draw : ℕ) (w : World ℚ), ¬ w.PicksTarget b
    (w.bossAttackChoice b draw).1.target (w.bossAttackChoice b draw).2 := by
  refine ⟨lurking,0,distracted,fun h => ?_⟩
  have hnear : distracted.Near lurking 1 := ⟨_,rfl,by decide +kernel,by decide +kernel⟩
  obtain ⟨-,i,htarget,p,n,hp,hn,hle⟩ := h.near ⟨1,hnear⟩
  rw [(bossAttackChoice_eq lurking 0 distracted).1] at htarget
  cases htarget
  cases hp
  have hfar : floatDistance lurking.pos (⟨9000,0,0⟩ : Position ℚ) = some 81000000 := by decide +kernel
  rw [hfar] at hn
  cases hn
  exact absurd hle (by decide)

end World

end LastHero
