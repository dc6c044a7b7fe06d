import LastHero.Game.Exact
import LastHero.Game.Session
import LastHero.Path.Search
import LastHero.Support.Runs

/-! How the boss follows its target. Chase asks for a path when the last one is used up, and takes
the first cell of the answer without looking whether there is one: from the cell of the target
there is none. -/
namespace LastHero
open FloatArith ExactFloat KingMoves
variable {F : Type} [FloatArith F]

/-- The path that Chase takes its cell from when the target is the player `p`. -/
def Boss.plan (f : CPathFinder) (b : Boss F) (p : CPlayer F) :
    Except Fault (List (ℤ × ℤ) × CPathFinder) :=
  if b.chasePath = [] then f.search b.pos.pos2D p.pos.pos2D else .ok (b.chasePath,f)

/-- Boss::Chase with the path finder of the boss. -/
def World.chase (f : CPathFinder) (b : Boss F) (w : World F) :
    Except Fault ((Boss F × BState) × CPathFinder) :=
  match w.targetPlayer b with
  | none => do
    let r ← w.bossChase (fun _ _ => []) b
    return (r,f)
  | some p => do
    let (path,f) ← b.plan f p
    let r ← w.bossChase (fun _ _ => path) b
    return (r,f)

/-- The coordinate of the corner of a cell. -/
def corner (n : ℤ) : ℤ := n*posScale+sideMin

/-- The two numbers of the cell and those of its neighbours are `short`. -/
def Numbered (c : ℤ × ℤ) : Prop := -32767 ≤ c.1 ∧ c.1 ≤ 32767 ∧ -32767 ≤ c.2 ∧ c.2 ≤ 32767

instance (c : ℤ × ℤ) : Decidable (Numbered c) := inferInstanceAs (Decidable (_ ∧ _))

theorem numbered_iff {c : ℤ × ℤ} :
    Numbered c ↔ c ∈ Set.Icc ((-32767,-32767) : Cell) (32767,32767) := by
  simp only [Numbered, Set.mem_Icc, Prod.le_def]
  tauto

/-- The cells of the map are numbered. -/
theorem numbered_of_mem {c : ℤ × ℤ} (h : c ∈ Set.Icc ((0,0) : Cell) (1530,1530)) : Numbered c := by
  simp only [Set.mem_Icc, Prod.le_def] at h
  simp only [Numbered]
  omega

/-- A search for another cell of the map begins with a neighbour and stays among numbered cells. -/
theorem exists_search_of_mem {p e : ℤ × ℤ} (f : CPathFinder) (hp : Numbered p)
    (he : e ∈ Set.Icc ((0,0) : Cell) (1530,1530)) (hne : p ≠ e) : ∃ c l f',
    f.search p e = .ok (c::l,f') ∧ (p::c::l).IsChain Adjacent ∧ ∀ d ∈ c::l, Numbered d := by
  have hclear : CPathFinder.Clear p e := by
    simp only [Set.mem_Icc, Prod.le_def] at he
    simp only [Numbered] at hp
    simp only [CPathFinder.Clear, CPathFinder.Reaches]
    omega
  have hwalk : ∀ k, Numbered (walk p e k) := fun k =>
    numbered_iff.mpr (walk_mem_Icc (numbered_iff.mp hp) (numbered_iff.mp (numbered_of_mem he)) k)
  have hpos : kingDist p e ≠ 0 := fun h0 => hne (kingDist_eq_zero.mp h0)
  obtain ⟨f',hpath⟩ := CPathFinder.getPath_eq f hne hclear le_rfl
  have hchain := CPathFinder.isChain_walk p e (min_le_left _ 99)
  obtain ⟨n,hn⟩ := Nat.exists_eq_add_one_of_ne_zero (show min (kingDist p e) 99 ≠ 0 by omega)
  rw [hn, List.range_succ_eq_map, List.map_cons, List.map_map] at hpath hchain
  refine ⟨_,_,f',CPathFinder.search_eq hpath,hchain,?_⟩
  rw [List.forall_mem_cons, List.forall_mem_map]
  exact ⟨hwalk _,fun k _ => hwalk _⟩

theorem pos2D_eq {p : Position F} (h : Numbered p.gridCell) : p.pos2D = p.gridCell := by
  obtain ⟨hx,hx',hy,hy'⟩ := h
  exact Prod.ext (CInt.toShort_eq_self.mpr ⟨by omega,by omega⟩)
    (CInt.toShort_eq_self.mpr ⟨by omega,by omega⟩)

namespace World
variable {w : World F} {b : Boss F} {f f' : CPathFinder} {i : Slot} {p : CPlayer F}
  {path l : List (ℤ × ℤ)} {c : ℤ × ℤ}

omit [FloatArith F] in
theorem targetPlayer_eq (htarget : b.target = some i) (hp : w.player i = some p) :
    w.targetPlayer b = some p := by
  rw [targetPlayer, htarget]
  exact hp

/-- The path finder is asked for one path at most. -/
theorem bossChase_congr {getPath getPath' : ℤ × ℤ → ℤ × ℤ → List (ℤ × ℤ)}
    (h : b.chasePath = [] → ∀ p, w.targetPlayer b = some p →
      getPath b.pos.pos2D p.pos.pos2D = getPath' b.pos.pos2D p.pos.pos2D) :
    w.bossChase getPath b = w.bossChase getPath' b := by
  simp only [bossChase]
  cases htarget : b.target with
  | none => rfl
  | some i =>
    dsimp only
    by_cases hpath : b.chasePath = []
    · cases hp : w.player i with
      | none => rfl
      | some p =>
        dsimp only
        rw [h hpath p (targetPlayer_eq htarget hp)]
    · rw [if_neg hpath, if_neg hpath]

theorem plan_eq (h : b.plan f p = .ok (path,f')) (hpath : b.chasePath = []) :
    f.search b.pos.pos2D p.pos.pos2D = .ok (path,f') := by
  rwa [Boss.plan, if_pos hpath] at h

/-- In the server Chase works with the answers of its path finder. -/
theorem bossChase_of_chase {r : Boss F × BState} (h : w.chase f b = .ok (r,f')) :
    w.bossChase CPathFinder.answer b = .ok r := by
  simp only [chase] at h
  cases hplayer : w.targetPlayer b with
  | none =>
    rw [hplayer] at h
    obtain ⟨r',hok,h⟩ := bind_eq_ok.mp h
    cases h
    rw [← hok]
    refine bossChase_congr fun _ p hp => ?_
    cases hplayer.symm.trans hp
  | some p =>
    rw [hplayer] at h
    obtain ⟨⟨path,g⟩,hplan,h⟩ := bind_eq_ok.mp h
    obtain ⟨r',hok,h⟩ := bind_eq_ok.mp h
    cases h
    rw [← hok]
    refine bossChase_congr fun hpath q hq => ?_
    cases hplayer.symm.trans hq
    exact CPathFinder.answer_eq (plan_eq hplan hpath)

/-- The rest of Chase after the search. -/
theorem bossChase_cons (getPath : ℤ × ℤ → ℤ × ℤ → List (ℤ × ℤ)) (htarget : b.target = some i)
    (hp : w.player i = some p)
    (hpath : (if b.chasePath = [] then getPath b.pos.pos2D p.pos.pos2D else b.chasePath) = c::l) :
    ∃ b' next, w.bossChase getPath b = .ok (b',next) ∧
      b'.pos = ⟨lit (corner c.1),lit (corner c.2),b.pos.z⟩ ∧
      (b'.chasePath = l ∨ b'.chasePath = []) := by
  have hok : (if b.chasePath = [] then Except.ok (getPath b.pos.pos2D p.pos.pos2D)
      else .ok b.chasePath : Except Fault _) = .ok (c::l) := by
    rw [← apply_ite, hpath]
  simp only [bossChase]
  rw [htarget]
  dsimp only
  rw [hp]
  dsimp only
  rw [hok]
  dsimp only
  split_ifs
  · exact ⟨_,_,rfl,rfl,.inl rfl⟩
  · exact ⟨_,_,rfl,rfl,.inr rfl⟩
  · exact ⟨_,_,rfl,rfl,.inr rfl⟩
  · exact ⟨_,_,rfl,rfl,.inl rfl⟩

theorem chase_of_plan (htarget : b.target = some i) (hp : w.player i = some p)
    (hplan : b.plan f p = .ok (path,f')) : w.chase f b =
      w.bossChase (fun _ _ => path) b >>= fun r => .ok (r,f') := by
  simp only [chase]
  rw [targetPlayer_eq htarget hp]
  dsimp only
  rw [hplan]
  rfl

/-- Chase with a path that has a first cell. -/
theorem chase_cons (htarget : b.target = some i) (hp : w.player i = some p)
    (hplan : b.plan f p = .ok (c::l,f')) :
    ∃ b' next, w.chase f b = .ok ((b',next),f') ∧
      b'.pos = ⟨lit (corner c.1),lit (corner c.2),b.pos.z⟩ ∧
      (b'.chasePath = l ∨ b'.chasePath = []) := by
  have hpath : (if b.chasePath = [] then c::l else b.chasePath) = c::l := by
    split_ifs with hpath
    · rfl
    · rw [Boss.plan, if_neg hpath] at hplan
      exact congrArg Prod.fst (Except.ok.inj hplan)
  obtain ⟨b',next,hok,hrest⟩ := bossChase_cons (fun _ _ => c::l) htarget hp hpath
  refine ⟨b',next,?_,hrest⟩
  rw [chase_of_plan htarget hp hplan, hok]
  rfl

/-- A search from the cell of the target finds no first cell. -/
theorem chase_together (htarget : b.target = some i) (hp : w.player i = some p)
    (hpath : b.chasePath = []) (hcell : b.pos.gridCell = p.pos.gridCell) :
    w.chase f b = .error .emptyPath := by
  have hsame : b.pos.pos2D = p.pos.pos2D := by rw [Position.pos2D, hcell, Position.pos2D]
  obtain ⟨f',hsearch⟩ := f.search_self p.pos.pos2D
  have hplan : b.plan f p = .ok ([],f') := by rw [Boss.plan, if_pos hpath, hsame, hsearch]
  have hnone : w.bossChase (fun _ _ => []) b = .error .emptyPath := by
    simp only [bossChase]
    rw [htarget]
    dsimp only
    rw [hp, if_pos hpath]
  rw [chase_of_plan htarget hp hplan, hnone]
  rfl

end World

section cells
variable [ExactFloat F] {a : F} {n : ℤ} {x : ℚ}

theorem value_corner (hn : -32767 ≤ n ∧ n ≤ 32767) :
    value (lit (corner n) : F) = some (corner n : ℚ) := by
  apply lit_value
  simp only [corner, posScale, sideMin]
  rw [abs_lt]
  omega

variable [ExactTrunc F]

theorem cellNumber_corner (hn : -32767 ≤ n ∧ n ≤ 32767) :
    cellNumber (lit (corner n) : F) = n := by
  have hsub : ((corner n : ℤ) : ℚ) - sideMin = ((n*posScale : ℤ) : ℚ) := by
    simp only [corner]
    push_cast
    ring
  have hmin : value (lit sideMin : F) = some (sideMin : ℚ) := lit_value _ (by decide)
  have hround : round F ((n*posScale : ℤ) : ℚ) = (n*posScale : ℤ) := by
    apply round_int
    simp only [posScale]
    rw [abs_lt]
    omega
  have hint : CInt.ofDouble (n*posScale) = n*posScale := by
    apply CInt.ofDouble_eq_self
    · simp only [CInt.intMin, posScale]
      omega
    · simp only [CInt.intMax, posScale]
      omega
  rw [cellNumber, ExactTrunc.trunc_sub_value (value_corner hn) hmin, hsub, hround,
    truncRat_intCast, hint]
  exact Int.mul_tdiv_cancel n (by decide)

/-- The cells of the map. -/
theorem cellNumber_mem (ha : value a = some x) (hx : (sideMin : ℚ) ≤ x ∧ x ≤ sideMax) :
    0 ≤ cellNumber a ∧ cellNumber a ≤ 1530 := by
  have hmin : value (lit sideMin : F) = some (sideMin : ℚ) := lit_value _ (by decide)
  have hzero : round F 0 = 0 := by exact_mod_cast round_int (F := F) 0 (by decide)
  have hmax : round F 153000 = 153000 := by exact_mod_cast round_int (F := F) 153000 (by decide)
  have hle : (0 : ℚ) ≤ round F (x-sideMin) := by
    rw [← hzero]
    exact ExactTrunc.round_mono (sub_nonneg.mpr hx.1)
  have hle' : round F (x-sideMin) ≤ 153000 := by
    rw [← hmax]
    apply ExactTrunc.round_mono
    have hwidth : (sideMax : ℚ) - sideMin = 153000 := by norm_num [sideMax, sideMin]
    linarith [hx.2]
  have hfloor : 0 ≤ (round F (x-sideMin)).floor := Int.floor_nonneg.mpr hle
  have hfloor' : (round F (x-sideMin)).floor ≤ 153000 := by
    exact_mod_cast (Int.floor_le _).trans hle'
  rw [cellNumber, ExactTrunc.trunc_sub_value ha hmin, truncRat, if_pos hle,
    CInt.ofDouble_of_le hfloor (hfloor'.trans (by decide)), Int.tdiv_eq_ediv_of_nonneg hfloor]
  simp only [posScale]
  omega

end cells

/-- A call of Chase finds a player somewhere in the map where the target is. -/
structure Sighting (F : Type) [FloatArith F] [ExactFloat F] where
  world : World F
  player : CPlayer F
  x : ℚ
  y : ℚ
  pos : player.pos.At x y
  x_mem : (sideMin : ℚ) ≤ x ∧ x ≤ sideMax
  y_mem : (sideMin : ℚ) ≤ y ∧ y ≤ sideMax

/-- The boss between two calls of Chase. -/
structure Hunt (F : Type) where
  boss : Boss F
  pathFinder : CPathFinder

namespace Hunt

/-- A boss that has not chased anyone yet. -/
def start (b : Boss F) (f : CPathFinder) : Hunt F := ⟨{ b with chasePath := [] },f⟩

/-- The path leads on from the cell of the boss. -/
structure OnPath (s : Hunt F) : Prop where
  chain : (s.boss.pos.gridCell :: s.boss.chasePath).IsChain Adjacent
  numbered : ∀ c ∈ s.boss.pos.gridCell :: s.boss.chasePath, Numbered c

theorem onPath_start {b : Boss F} (hb : Numbered b.pos.gridCell) (f : CPathFinder) :
    (start b f).OnPath where
  chain := List.isChain_singleton _
  numbered := List.forall_mem_singleton.mpr hb

variable [ExactFloat F] {s t : Hunt F} {a : Sighting F} {i : Slot}

/-- Chase, with the target in slot `i`. -/
def chase (i : Slot) (a : Sighting F) (s : Hunt F) :
    Except Fault ((Boss F × BState) × CPathFinder) :=
  (a.world.setPlayer i (some a.player)).chase s.pathFinder s.boss

/-- A call with a target, which ends the run if it does not return. -/
def next (s : Hunt F) (a : Sighting F) : Option (Hunt F) :=
  s.boss.target.bind fun i => (s.chase i a).toOption.map fun r => ⟨r.1.1,r.2⟩

/-- Chase returns and has moved the boss to the corner of a neighbouring cell. -/
def Steps (s : Hunt F) (a : Sighting F) : Prop :=
  ∀ i, s.boss.target = some i → ∃ b next f, s.chase i a = .ok ((b,next),f) ∧
    ∃ c, Adjacent s.boss.pos.gridCell c ∧ b.pos.At (corner c.1) (corner c.2)

/-- If Chase searches, the boss and its target are in different cells. -/
def Apart (s : Hunt F) (a : Sighting F) : Prop :=
  s.boss.target.isSome → s.boss.chasePath = [] → s.boss.pos.gridCell ≠ a.player.pos.gridCell

theorem next_eq_some (h : s.next a = some t) : ∃ i b next f, s.boss.target = some i ∧
    s.chase i a = .ok ((b,next),f) ∧ t = ⟨b,f⟩ := by
  obtain ⟨i,htarget,h⟩ := Option.bind_eq_some_iff.mp h
  obtain ⟨⟨⟨b,next⟩,f⟩,hok,rfl⟩ := Option.map_eq_some_iff.mp h
  exact ⟨i,b,next,f,htarget,toOption_eq_some hok,rfl⟩

/-- From the cell of the target Chase cannot go on. -/
theorem Steps.apart (h : s.Steps a) : s.Apart a := by
  intro hsome hpath hcell
  obtain ⟨i,htarget⟩ := Option.isSome_iff_exists.mp hsome
  obtain ⟨b,next,f,hok,-⟩ := h i htarget
  rw [chase, World.chase_together htarget (Function.update_self ..) hpath hcell] at hok
  cases hok

variable [ExactTrunc F]

/-- The cell of the target is one of the map. -/
theorem sighted_mem (a : Sighting F) :
    a.player.pos.gridCell ∈ Set.Icc ((0,0) : Cell) (1530,1530) := by
  obtain ⟨hx,hx'⟩ := cellNumber_mem a.pos.x_value a.x_mem
  obtain ⟨hy,hy'⟩ := cellNumber_mem a.pos.y_value a.y_mem
  exact ⟨⟨hx,hy⟩,hx',hy'⟩

/-- A search leads from the cell of the boss towards that of the target. -/
theorem exists_search (hnumbered : Numbered s.boss.pos.gridCell)
    (hapart : s.boss.pos.gridCell ≠ a.player.pos.gridCell) :
    ∃ c l f, s.pathFinder.search s.boss.pos.pos2D a.player.pos.pos2D = .ok (c::l,f) ∧
      (s.boss.pos.gridCell::c::l).IsChain Adjacent ∧ ∀ d ∈ c::l, Numbered d := by
  have htarget := sighted_mem a
  rw [pos2D_eq hnumbered, pos2D_eq (numbered_of_mem htarget)]
  exact exists_search_of_mem s.pathFinder hnumbered htarget hapart

theorem exists_plan (h : s.OnPath) (hapart : s.Apart a) (htarget : s.boss.target = some i) :
    ∃ c l f, s.boss.plan s.pathFinder a.player = .ok (c::l,f) ∧
      (s.boss.pos.gridCell::c::l).IsChain Adjacent ∧ ∀ d ∈ c::l, Numbered d := by
  simp only [Boss.plan]
  cases hpath : s.boss.chasePath with
  | nil =>
    rw [if_pos rfl]
    apply exists_search
    · exact h.numbered _ List.mem_cons_self
    · exact hapart (Option.isSome_of_mem htarget) hpath
  | cons c l =>
    rw [if_neg (List.cons_ne_nil c l)]
    refine ⟨c,l,_,rfl,hpath ▸ h.chain,fun d hd => h.numbered d ?_⟩
    rw [hpath]
    exact List.mem_cons_of_mem _ hd

/-- One call. -/
theorem OnPath.chase (h : s.OnPath) (hapart : s.Apart a) (htarget : s.boss.target = some i) :
    ∃ b next f, s.chase i a = .ok ((b,next),f) ∧ OnPath ⟨b,f⟩ ∧
      ∃ c, Adjacent s.boss.pos.gridCell c ∧ b.pos.At (corner c.1) (corner c.2) := by
  obtain ⟨c,l,f,hplan,hchain,hnumbered⟩ := exists_plan h hapart htarget
  obtain ⟨hadj,htail⟩ := List.isChain_cons_cons.mp hchain
  obtain ⟨b,next,hok,hpos,hpath⟩ := World.chase_cons (w := a.world.setPlayer i (some a.player))
    htarget (Function.update_self ..) hplan
  obtain ⟨hx,hx',hy,hy'⟩ := hnumbered c List.mem_cons_self
  have hcell : b.pos.gridCell = c := by
    rw [hpos]
    exact Prod.ext (cellNumber_corner ⟨hx,hx'⟩) (cellNumber_corner ⟨hy,hy'⟩)
  have hat : b.pos.At (corner c.1) (corner c.2) := by
    rw [hpos]
    exact ⟨value_corner ⟨hx,hx'⟩,value_corner ⟨hy,hy'⟩⟩
  refine ⟨b,next,f,hok,?_,c,hadj,hat⟩
  rw [← hcell] at htail hnumbered
  cases hpath with
  | inl hpath =>
    rw [← hpath] at htail hnumbered
    exact ⟨htail,hnumbered⟩
  | inr hpath =>
    refine ⟨?_,fun d hd => hnumbered d ?_⟩
    · dsimp only
      rw [hpath]
      exact List.isChain_singleton _
    · dsimp only at hd
      rw [hpath, List.mem_singleton] at hd
      rw [hd]
      exact List.mem_cons_self

theorem OnPath.next (h : s.OnPath) (hapart : s.Apart a) (hstep : s.next a = some t) :
    t.OnPath := by
  obtain ⟨i,b,next,f,htarget,hok,rfl⟩ := next_eq_some hstep
  obtain ⟨b',next',f',hok',hpath,-⟩ := h.chase hapart htarget
  cases hok.symm.trans hok'
  exact hpath

theorem OnPath.steps (h : s.OnPath) (hapart : s.Apart a) : s.Steps a := by
  intro i htarget
  obtain ⟨b,next,f,hok,-,hmoved⟩ := h.chase hapart htarget
  exact ⟨b,next,f,hok,hmoved⟩

/-- All calls of Chase take the boss from cell to cell if no search begins in the cell of the
target, and only then; the cell of the boss must be one that a search can leave on all sides. -/
theorem follows_safely (b : Boss F) (f : CPathFinder) (as : List (Sighting F)) :
    (Numbered b.pos.gridCell ∧ Runs.Tried next Apart (start b f) as →
      Runs.Tried next Steps (start b f) as) ∧
    (Runs.Tried next Steps (start b f) as → Runs.Tried next Apart (start b f) as) := by
  constructor
  · rintro ⟨hb,hapart⟩
    exact hapart.imp (fun _ _ _ h ha hstep => h.next ha hstep) (fun _ _ h ha => h.steps ha)
      (onPath_start hb f)
  · intro hsteps
    exact hsteps.imp (I := fun _ => True) (fun _ _ _ _ _ _ => trivial) (fun _ _ _ h => h.apart)
      trivial

end Hunt

/-- The boss where Initialize puts it, with the first player as its target. -/
def hunter : Boss ℚ := { Boss.initializeBoss with target := some 0 }

def finder : CPathFinder := ⟨[],[],[]⟩

/-- The target, in the next cell to the right. -/
def beside : Sighting ℚ where
  world := World.empty
  player := { zeroPlayer with pos := Position.lits 23050 35750 0 }
  x := 23050
  y := 35750
  pos := ⟨rfl,rfl⟩
  x_mem := by norm_num [sideMin, sideMax]
  y_mem := by norm_num [sideMin, sideMax]

/-- The target, two cells further. -/
def away : Sighting ℚ where
  world := World.empty
  player := { zeroPlayer with pos := Position.lits 23250 35750 0 }
  x := 23250
  y := 35750
  pos := ⟨rfl,rfl⟩
  x_mem := by norm_num [sideMin, sideMax]
  y_mem := by norm_num [sideMin, sideMax]

namespace Hunt

theorem hunter_follows : Runs.Tried next Steps (start hunter finder) [beside,away] := by
  refine (follows_safely hunter finder [beside,away]).1 ⟨by decide +kernel,?_,fun t ht => ⟨?_,?_⟩⟩
  · intro _ _
    decide +kernel
  · have hmoved : ((start hunter finder).next beside).any
        (fun t => t.boss.pos.gridCell = (740,867)) = true := by decide +kernel
    rw [ht] at hmoved
    intro _ _
    rw [of_decide_eq_true hmoved]
    decide +kernel
  · exact fun _ _ => trivial

/-- The boss steps into the cell of its target, and Chase fails with the next call. -/
theorem caught_target_ends : ¬ Runs.Tried next Steps (start hunter finder) [beside,beside] := by
  rintro ⟨-,h⟩
  have hmoved : ((start hunter finder).next beside).any (fun t => t.boss.target = some 0 ∧
      t.boss.chasePath = [] ∧ t.boss.pos.gridCell = (740,867)) = true := by decide +kernel
  obtain ⟨t,ht,hcaught⟩ := (Option.any_eq_true _ _).mp hmoved
  obtain ⟨htarget,hpath,hcell⟩ := of_decide_eq_true hcaught
  have hbeside : beside.player.pos.gridCell = (740,867) := by decide +kernel
  exact (h t ht).1.apart (Option.isSome_of_mem htarget) hpath (hcell.trans hbeside.symm)

end Hunt
end LastHero
