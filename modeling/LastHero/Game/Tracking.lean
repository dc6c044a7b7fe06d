import LastHero.Game.Exact
import LastHero.Game.Frame
import LastHero.Support.Runs

/-! The positions that the server knows. SetPosition ignores short moves; its distance overflows
inside the map, so that it ignores some of the longest as well. -/
namespace LastHero
open FloatArith ExactFloat
variable {F : Type}

/-- A destination with integer coordinates inside the map. -/
structure Destination (F : Type) where
  x : ℤ
  y : ℤ
  z : F
  x_mem : InMap x
  y_mem : InMap y

/-- The calls that pass a destination on to SetPosition. -/
inductive Report (F : Type)
  | moveTo (d : Destination F)
  | setPosition (d : Destination F)

def Report.destination : Report F → Destination F
  | .moveTo d => d
  | .setPosition d => d

/-- The server, and history: the last reported destination of a player. -/
structure Tracked (F : Type) where
  world : World F
  last : Option (Destination F)

section Defs
variable [FloatArith F]

def Destination.position (d : Destination F) : Position F := ⟨lit d.x,lit d.y,d.z⟩

def World.report (id : Slot) (r : Report F) (w : World F) : World F :=
  match r with
  | .moveTo d => w.moveTo id d.position
  | .setPosition d => w.modifyPlayer id fun p => p.setPosition d.position

def Tracked.next (id : Slot) (s : Tracked F) (r : Report F) : Option (Tracked F) :=
  some ⟨s.world.report id r,some r.destination⟩

variable [ExactFloat F]

/-- The true distance of the point is below 100. -/
def Destination.Close (d : Destination F) (p : Position F) : Prop :=
  ∃ x y : ℚ, p.At x y ∧ (x-d.x)^2+(y-d.y)^2 < 100^2

/-- The sum of the squares that GetDistance converts to `int`. -/
def Destination.squares (d : Destination F) (x y : ℚ) : ℤ :=
  ⌊round F (x-d.x)^2⌋+⌊round F (y-d.y)^2⌋

/-- The sum overflows, or it is too small for the true distance. -/
def Destination.Misjudged (d : Destination F) (p : Position F) : Prop :=
  ∃ x y : ℚ, p.At x y ∧ (CInt.intMax < d.squares x y ∨
    d.squares x y < 100^2 ∧ 100^2 ≤ (x-d.x)^2+(y-d.y)^2)

namespace Tracked

/-- The stored position is near the last destination. -/
def Near (id : Slot) (s : Tracked F) : Prop :=
  ∀ d p, s.last = some d → s.world.player id = some p → d.Close p.pos

/-- The player is at the portal, or its distance to the destination is not misjudged. -/
def Judges (id : Slot) (s : Tracked F) (r : Report F) : Prop :=
  ∀ p, s.world.player id = some p → p.isTeleport ∨ ¬ r.destination.Misjudged p.pos

/-- The player is at a point of the plane, on the map or not. -/
def Placed (id : Slot) (s : Tracked F) : Prop :=
  ∃ p, s.world.player id = some p ∧ ∃ x y, p.pos.At x y

end Tracked

end Defs

variable [FloatArith F]

theorem World.report_player (id : Slot) (r : Report F) {w : World F} {p : CPlayer F}
    (hp : w.player id = some p) :
    (w.report id r).player id = some (p.setPosition r.destination.position) := by
  cases r with
  | moveTo d =>
    have hself := modifyPlayer_self (fun p => p.setPosition d.position) hp
    simp only [report, moveTo]
    rw [hself]
    exact hself
  | setPosition d => exact modifyPlayer_self _ hp

variable [ExactFloat F] {p : Position F} {q : CPlayer F} {d : Destination F} {x y : ℚ}

theorem Position.At.inj {x' y' : ℚ} (h : p.At x y) (h' : p.At x' y') : x = x' ∧ y = y' :=
  ⟨Option.some.inj (h.x_value.symm.trans h'.x_value),
    Option.some.inj (h.y_value.symm.trans h'.y_value)⟩

theorem InMap.small {n : ℤ} (h : InMap n) : |n| < 2^24 := by
  obtain ⟨hmin,hmax⟩ := h
  unfold sideMin at hmin
  unfold sideMax at hmax
  rw [abs_lt]
  omega

theorem Destination.at_position (d : Destination F) : d.position.At d.x d.y :=
  ⟨lit_value d.x d.x_mem.small,lit_value d.y d.y_mem.small⟩

theorem Destination.close_position (d : Destination F) : d.Close d.position :=
  ⟨d.x,d.y,d.at_position,by norm_num⟩

/-- Whoever is so far away that the sum overflows is not close. -/
theorem not_close_of_overflow (h : CInt.intMax < d.squares x y) :
    ¬ (x-d.x)^2+(y-d.y)^2 < 100^2 := by
  have hfar := lt_of_overflow (F := F) h
  unfold CInt.intMax at hfar
  push_cast at hfar
  linarith

section setPosition
variable [ExactSquares F]

/-- What the test of SetPosition amounts to. -/
theorem getDistance_position (hp : p.At x y) :
    getDistance p d.position < 100 ↔ d.squares x y < 100^2 ∨ CInt.intMax < d.squares x y := by
  rw [getDistance_eq_rounded hp d.at_position]
  exact root_rounded_lt_iff (x-d.x) (y-d.y) (by decide)

/-- A position that is not replaced is close enough unless the distance was misjudged. -/
theorem close_iff_of_short (hp : p.At x y) (hshort : getDistance p d.position < 100) :
    d.Close p ↔ ¬ d.Misjudged p := by
  have hsum := (getDistance_position hp).mp hshort
  constructor
  · rintro ⟨x₁,y₁,hp₁,hclose⟩ ⟨x₂,y₂,hp₂,hbad⟩
    obtain ⟨rfl,rfl⟩ := hp₁.inj hp₂
    cases hbad with
    | inl hover => exact not_close_of_overflow hover hclose
    | inr hsmall => exact absurd hclose (not_lt.mpr hsmall.2)
  · intro hjudged
    refine ⟨x,y,hp,not_le.mp fun hfar => hjudged ⟨x,y,hp,?_⟩⟩
    cases hsum with
    | inl hsmall => exact Or.inr ⟨hsmall,hfar⟩
    | inr hover => exact Or.inl hover

/-- Where the test fails the distance was not misjudged. -/
theorem not_misjudged_of_long (hlong : ¬ getDistance p d.position < 100) : ¬ d.Misjudged p := by
  rintro ⟨x,y,hp,hbad⟩
  exact hlong ((getDistance_position hp).mpr (hbad.symm.imp And.left id))

theorem close_setPosition_iff (hq : q.pos.At x y) :
    d.Close (q.setPosition d.position).pos ↔ q.isTeleport ∨ ¬ d.Misjudged q.pos := by
  simp only [CPlayer.setPosition]
  by_cases hportal : q.isTeleport = true
  · rw [if_neg fun h => h.1 hportal]
    exact iff_of_true d.close_position (Or.inl hportal)
  · rw [or_iff_right hportal]
    by_cases hshort : getDistance q.pos d.position < 100
    · rw [if_pos ⟨hportal,hshort⟩]
      exact close_iff_of_short hq hshort
    · rw [if_neg fun h => hshort h.2]
      exact iff_of_true d.close_position (not_misjudged_of_long hshort)

end setPosition

theorem at_setPosition (d : Destination F) (hq : q.pos.At x y) :
    ∃ x y, (q.setPosition d.position).pos.At x y := by
  simp only [CPlayer.setPosition]
  split_ifs
  · exact ⟨x,y,hq⟩
  · exact ⟨d.x,d.y,d.at_position⟩

namespace Tracked
variable {id : Slot} {s s' : Tracked F} {r : Report F}

theorem Placed.next (h : s.Placed id) (hstep : s.next id r = some s') : s'.Placed id := by
  obtain ⟨p,hp,x,y,hat⟩ := h
  cases hstep
  exact ⟨_,World.report_player id r hp,at_setPosition _ hat⟩

variable [ExactSquares F]

/-- One call leaves the player near its destination if and only if it judges the distance. -/
theorem near_next_iff (h : s.Placed id) (hstep : s.next id r = some s') :
    s'.Near id ↔ s.Judges id r := by
  obtain ⟨p,hp,x,y,hat⟩ := h
  cases hstep
  have hp' := World.report_player id r hp
  constructor
  · intro hnear q hq
    cases hp.symm.trans hq
    exact (close_setPosition_iff hat).mp (hnear _ _ rfl hp')
  · intro hjudges d q hd hq
    cases hd
    cases hp'.symm.trans hq
    exact (close_setPosition_iff hat).mpr (hjudges p hp)

/-- The server tracks a player through a run if and only if no call misjudges a distance. -/
theorem near_iff (rs : List (Report F)) {w : World F} (h : Placed id ⟨w,none⟩) :
    Runs.Always (next id) (Near id) ⟨w,none⟩ rs ↔ Runs.Along (next id) (Judges id) ⟨w,none⟩ rs :=
  Runs.always_iff_along (fun _ _ _ hplaced _ _ hstep => hplaced.next hstep)
    (fun _ _ _ hplaced _ hstep => near_next_iff hplaced hstep) h fun d _ hd => by cases hd

/-- A player in the east of the map. -/
def east : World ℚ where
  __ := (World.empty : World ℚ)
  player i := if i = 0 then some { zeroPlayer with pos := ⟨59000,57000,0⟩ } else none

theorem placed_east : Placed 0 ⟨east,none⟩ := ⟨_,rfl,59000,57000,rfl,rfl⟩

/-- A destination that is 59000 away. -/
def west : Destination ℚ := ⟨0,57000,0,by decide,by decide⟩

theorem near_east_iff : Runs.Always (next 0) (Near 0) ⟨east,none⟩ [.moveTo west] ↔
    Runs.Along (next 0) (Judges 0) ⟨east,none⟩ [.moveTo west] := near_iff _ placed_east

/-- The player stays in the east. -/
theorem east_stays : ∃ (w : World ℚ) (id : Slot) (rs : List (Report ℚ)), Placed id ⟨w,none⟩ ∧
    ¬ Runs.Always (next id) (Near id) ⟨w,none⟩ rs := by
  refine ⟨east,0,[.moveTo west],placed_east,fun h => ?_⟩
  have hpos : (((east.report 0 (.moveTo west)).player 0).map CPlayer.pos).any
      (fun p => p = ⟨59000,57000,0⟩) = true := by decide +kernel
  obtain ⟨pos,hpos,heq⟩ := (Option.any_eq_true _ _).mp hpos
  obtain ⟨p,hp,rfl⟩ := Option.map_eq_some_iff.mp hpos
  obtain ⟨x,y,hat,hclose⟩ := (h.2 _ rfl).head west p rfl hp
  rw [of_decide_eq_true heq] at hat
  obtain ⟨⟨⟩,⟨⟩⟩ := hat
  exact absurd hclose (by decide +kernel)

end Tracked

end LastHero
