import LastHero.Path.Finder
import LastHero.Support.FirstMin
import LastHero.Support.KingMoves

/-! The path that CPathFinder finds. The estimate is too high for diagonal moves, but the node of
the move towards the end is always the only cheapest one, so the search goes straight ahead. -/
namespace LastHero
open KingMoves

namespace CPathFinder

/-- Cells far enough from the limits of `short`. -/
def InRange (p : Pos2D) : Prop := -32000 ≤ p.1 ∧ p.1 ≤ 32000 ∧ -32000 ≤ p.2 ∧ p.2 ≤ 32000

instance (p : Pos2D) : Decidable (InRange p) := inferInstanceAs (Decidable (_ ∧ _))

/-- No `short` on the way from `a` to `e` has a neighbour that wraps round and gets nearer to `e`. -/
def Reaches (a e : ℤ) : Prop :=
  (-32768 ≤ a ∧ a ≤ 32767) ∧ (-32768 ≤ e ∧ e ≤ 32767) ∧ (a = -32768 → e < 0) ∧ (a = 32767 → 0 ≤ e)

def Clear (p target : Pos2D) : Prop := Reaches p.1 target.1 ∧ Reaches p.2 target.2

/-- `operator+` without the narrowing. -/
def move (p q : Pos2D) : Pos2D := (p.1+q.1,p.2+q.2)

/-- The nodes of the moves towards the target. -/
inductive Route (start target : Pos2D) : ℕ → Node → Prop
  | nil : Route start target 0 (.start start target)
  | move {k : ℕ} {parent : Node} {dir : ℕ} (hr : Route start target k parent)
      (hne : parent.getPosition ≠ target) :
      Route start target (k+1) (.new (step parent.getPosition target) parent dir target)

/-- A child, unless its cell is that of the grandparent or of a closed node. -/
def child (closedList : List Node) (parent : Node) (target : Pos2D) (dir : ℕ × Pos2D) :
    Option Node :=
  let childPos := parent.getPosition.add dir.2
  if (parent.getParent.any fun n => childPos = n.getPosition) ||
      closedList.any fun cl => cl.getPosition = childPos then none
  else some (.new childPos parent dir.1 target)

variable {start target : Pos2D} {k fuel : ℕ} {parent n : Node} {openList closedList : List Node}
  {dir : ℕ × Pos2D}

theorem Route.getPosition (h : Route start target k n) : n.getPosition = walk start target k := by
  induction h with
  | nil => rfl
  | move hr _ ih =>
    rw [walk_succ, ← ih]
    rfl

theorem Route.kingDist (h : Route start target k n) :
    kingDist n.getPosition target + k = kingDist start target := by
  induction h with
  | nil => rfl
  | move hr hne ih =>
    have hstep := kingDist_step hne
    change KingMoves.kingDist (step _ target) target + _ = _
    omega

theorem InRange.clear (hs : InRange start) (ht : InRange target) : Clear start target := by
  simp only [InRange] at hs ht
  simp only [Clear, Reaches]
  omega

theorem Reaches.next {a e : ℤ} (h : Reaches a e) : Reaches (toward a e) e := by
  simp only [Reaches] at h ⊢
  simp only [toward]
  split_ifs <;> omega

theorem Clear.next {p : Pos2D} (h : Clear p target) : Clear (step p target) target :=
  ⟨h.1.next,h.2.next⟩

theorem Route.clear (h : Route start target k n) (hc : Clear start target) :
    Clear n.getPosition target := by
  induction h with
  | nil => exact hc
  | move _ _ ih => exact ih.next

/-- The cells of a route, in their order. -/
theorem Route.follow (h : Route start target k n) (l : List Pos2D) :
    follow n l = ((List.range k).map fun j => walk start target (j+1)) ++ l := by
  induction h generalizing l with
  | nil => rfl
  | @move k parent dir hr hne ih =>
    have hpos : step parent.getPosition target = walk start target (k+1) := by
      rw [walk_succ, ← hr.getPosition]
    rw [List.range_succ, List.map_append, List.append_assoc]
    change CPathFinder.follow parent (step parent.getPosition target :: l) = _
    rw [ih, hpos]
    rfl

/-- The estimate of a `short` cell is exact. -/
theorem setCostH_eq {p : Pos2D} (hp : (p.1-target.1).natAbs < 65536 ∧ (p.2-target.2).natAbs < 65536) :
    Node.setCostH p target = 10*manhattan p target := by
  simp only [Node.setCostH, manhattan]
  omega

theorem Clear.setCostH_eq {p : Pos2D} (h : Clear p target) :
    Node.setCostH p target = 10*manhattan p target := by
  simp only [Clear, Reaches] at h
  exact CPathFinder.setCostH_eq (by omega)

theorem directions_small (hdir : dir ∈ directions) :
    -1 ≤ dir.2.1 ∧ dir.2.1 ≤ 1 ∧ -1 ≤ dir.2.2 ∧ dir.2.2 ≤ 1 := by
  have hsmall : ∀ d ∈ directions, -1 ≤ d.2.1 ∧ d.2.1 ≤ 1 ∧ -1 ≤ d.2.2 ∧ d.2.2 ≤ 1 := by decide
  exact hsmall dir hdir

/-- The narrowing does not bring a neighbour nearer. -/
theorem Reaches.natAbs_le {a e d : ℤ} (h : Reaches a e) (hd : -1 ≤ d) (hd' : d ≤ 1) :
    (a+d-e).natAbs ≤ (CInt.toShort (a+d) - e).natAbs ∧
      (CInt.toShort (a+d) - e).natAbs < 65536 := by
  simp only [Reaches] at h
  simp only [CInt.toShort]
  rw [Int.bmod_def]
  split_ifs <;> omega

/-- A cell that is a `short` is not narrowed. -/
theorem Clear.add_eq_step {p q : Pos2D} (h : Clear p target) (heq : move p q = step p target) :
    p.add q = step p target := by
  obtain ⟨⟨hx,-⟩,hy,-⟩ := h.next
  rw [← heq] at hx hy ⊢
  exact Prod.ext (CInt.toShort_eq_self.mpr hx) (CInt.toShort_eq_self.mpr hy)

/-- The search never leaves what IsOutMap takes for the map. -/
theorem isOutMap_eq {p : Pos2D} (hx : -32768 ≤ p.1 ∧ p.1 ≤ 32767) (hy : -32768 ≤ p.2 ∧ p.2 ≤ 32767) :
    isOutMap p = true := by
  unfold isOutMap sideMin sideMax
  simp only [gt_iff_lt, Bool.and_eq_true, Bool.not_eq_true', Bool.or_eq_false_iff,
    decide_eq_false_iff_not]
  omega

theorem isOutMap_add (p q : Pos2D) : isOutMap (p.add q) = true :=
  isOutMap_eq (CInt.toShort_mem _) (CInt.toShort_mem _)

theorem child_some (h : child closedList parent target dir = some n) :
    n = .new (parent.getPosition.add dir.2) parent dir.1 target := by
  unfold child at h
  dsimp only at h
  split_ifs at h
  exact (Option.some.inj h).symm

/-- The cost of a move in a direction. -/
def dirCost (dir : ℕ × Pos2D) : ℤ := if dir.1 < 4 then 10 else 14

/-- A child is appended when no open node costs more than it. -/
theorem explore_eq (closedList : List Node) (target : Pos2D)
    (hg : ∀ n ∈ openList, n.getCostG ≤ parent.getCostG + dirCost dir) :
    explore closedList parent target openList dir =
      openList ++ (child closedList parent target dir).toList := by
  have hnone : (openList.find? fun ol => ol.getPosition =
      (Node.new (parent.getPosition.add dir.2) parent dir.1 target).getPosition ∧
        (Node.new (parent.getPosition.add dir.2) parent dir.1 target).getCostG < ol.getCostG) =
      none := by
    rw [List.find?_eq_none]
    intro n hn
    have hle : n.getCostG ≤ (Node.new (parent.getPosition.add dir.2) parent dir.1 target).getCostG :=
      hg n hn
    simp [hle]
  simp only [explore, child]
  rw [if_pos (isOutMap_add _ _)]
  by_cases hback : (parent.getParent.any fun n => parent.getPosition.add dir.2 = n.getPosition) = true
  · rw [if_pos hback, hback, Bool.true_or, if_pos rfl, Option.toList_none, List.append_nil]
  · rw [if_neg hback, Bool.eq_false_iff.mpr hback, Bool.false_or]
    simp only [isOverlap]
    rw [hnone]
    by_cases hclosed : (closedList.any fun cl =>
        cl.getPosition = parent.getPosition.add dir.2) = true
    · rw [if_pos hclosed, Option.toList_none, List.append_nil]
      exact if_pos hclosed
    · rw [if_neg hclosed, Option.toList_some]
      exact if_neg hclosed

/-- Directions of the same cost. -/
theorem foldl_explore (closedList : List Node) (target : Pos2D) {c : ℤ} {l : List (ℕ × Pos2D)}
    (hl : ∀ dir ∈ l, dirCost dir = c)
    (hg : ∀ n ∈ openList, n.getCostG ≤ parent.getCostG + c) :
    l.foldl (explore closedList parent target) openList =
        openList ++ l.filterMap (child closedList parent target) ∧
      ∀ n ∈ l.foldl (explore closedList parent target) openList,
        n.getCostG ≤ parent.getCostG + c := by
  induction l generalizing openList with
  | nil => exact ⟨by simp,hg⟩
  | cons dir l ih =>
    obtain rfl := hl dir List.mem_cons_self
    have hone := explore_eq closedList target hg
    have hg' : ∀ n ∈ openList ++ (child closedList parent target dir).toList,
        n.getCostG ≤ parent.getCostG + dirCost dir := by
      intro n hn
      cases List.mem_append.mp hn with
      | inl hn => exact hg n hn
      | inr hn =>
        rw [child_some (Option.mem_toList.mp hn)]
        exact le_rfl
    obtain ⟨heq,hcost⟩ := ih (fun d hd => hl d (List.mem_cons_of_mem _ hd)) hg'
    rw [List.foldl_cons, hone]
    refine ⟨?_,hcost⟩
    rw [heq, List.append_assoc, List.filterMap_cons]
    cases child closedList parent target dir with
    | none => rfl
    | some n => rfl

/-- The open nodes after all directions. -/
theorem foldl_directions (closedList : List Node) (target : Pos2D)
    (hg : ∀ n ∈ openList, n.getCostG ≤ parent.getCostG + 4) :
    directions.foldl (explore closedList parent target) openList =
        openList ++ directions.filterMap (child closedList parent target) ∧
      ∀ n ∈ directions.foldl (explore closedList parent target) openList,
        n.getCostG ≤ parent.getCostG + 14 := by
  have hsplit : directions = directions.take 4 ++ directions.drop 4 := rfl
  have hstraight : ∀ dir ∈ directions.take 4, dirCost dir = 10 := by decide
  have hdiagonal : ∀ dir ∈ directions.drop 4, dirCost dir = 14 := by decide
  have hten : ∀ n ∈ openList, n.getCostG ≤ parent.getCostG + 10 :=
    fun n hn => (hg n hn).trans (by omega)
  obtain ⟨heq,hcost⟩ := foldl_explore closedList target hstraight hten
  have hfourteen : ∀ n ∈ (directions.take 4).foldl (explore closedList parent target) openList,
      n.getCostG ≤ parent.getCostG + 14 := fun n hn => (hcost n hn).trans (by omega)
  obtain ⟨heq',hcost'⟩ := foldl_explore closedList target hdiagonal hfourteen
  rw [hsplit, List.foldl_append, List.filterMap_append]
  refine ⟨?_,hcost'⟩
  rw [heq', heq, List.append_assoc]

theorem adjacent_move (p : Pos2D) (hdir : dir ∈ directions) : Adjacent p (move p dir.2) := by
  have hstays : ∀ d ∈ directions, d.2 ≠ (0,0) := by decide
  exact adjacent_iff.mpr ⟨dir.2.1,dir.2.2,rfl,hstays dir hdir,directions_small hdir⟩

/-- The cost of a child is that of the move and the estimate of its cell. -/
theorem new_getCostF (p : Pos2D) (hdir : dir ∈ directions) :
    (Node.new p parent dir.1 target).getCostF = parent.getCostG +
      (moveCost 10 14 parent.getPosition (move parent.getPosition dir.2) + Node.setCostH p target) := by
  have hmove : ∀ d ∈ directions, (d.1 < 4 ↔ 0 = d.2.1 ∨ 0 = d.2.2) := by decide
  change (parent.getCostG + if dir.1 < 4 then 10 else 14) + Node.setCostH p target = _
  simp only [moveCost, move]
  rw [add_assoc]
  simp only [hmove dir hdir, left_eq_add, eq_comm]

/-- It is no lower than without the narrowing. -/
theorem le_new_getCostF (hc : Clear parent.getPosition target) (hdir : dir ∈ directions) :
    parent.getCostG +
        estimate 10 14 parent.getPosition (move parent.getPosition dir.2) target ≤
      (Node.new (parent.getPosition.add dir.2) parent dir.1 target).getCostF := by
  obtain ⟨hx,hx',hy,hy'⟩ := directions_small hdir
  obtain ⟨hxle,hxlt⟩ := hc.1.natAbs_le hx hx'
  obtain ⟨hyle,hylt⟩ := hc.2.natAbs_le hy hy'
  have hcostH : (10 : ℤ)*manhattan (move parent.getPosition dir.2) target ≤
      Node.setCostH (parent.getPosition.add dir.2) target := by
    rw [setCostH_eq ⟨hxlt,hylt⟩]
    simp only [manhattan, move, Pos2D.add]
    omega
  rw [new_getCostF _ hdir, estimate]
  linarith

/-- The child straight towards the target is among the open nodes then. -/
theorem exists_towards (hc : Clear parent.getPosition target) (hne : parent.getPosition ≠ target)
    (hr : Route start target k parent)
    (hclosed : ∀ cl ∈ closedList, kingDist parent.getPosition target ≤ kingDist cl.getPosition target) :
    ∃ dir ∈ directions, move parent.getPosition dir.2 = step parent.getPosition target ∧
      child closedList parent target dir =
        some (.new (step parent.getPosition target) parent dir.1 target) := by
  have hall : ∀ a b : ℤ, (a,b) ≠ (0,0) → -1 ≤ a → a ≤ 1 → -1 ≤ b → b ≤ 1 →
      ∃ dir ∈ directions, dir.2 = (a,b) := by
    intro a b hab ha ha' hb hb'
    interval_cases a <;> interval_cases b <;> revert hab <;> decide
  obtain ⟨a,b,hstep,hab,ha,ha',hb,hb'⟩ := adjacent_iff.mp (adjacent_step hne)
  obtain ⟨dir,hdir,hd⟩ := hall a b hab ha ha' hb hb'
  have hmove : move parent.getPosition dir.2 = step parent.getPosition target := by
    rw [hd, hstep, move]
  have hnear := kingDist_step hne
  refine ⟨dir,hdir,hmove,?_⟩
  simp only [child]
  rw [hc.add_eq_step hmove, if_neg]
  rw [Bool.or_eq_true, not_or]
  constructor
  · -- the grandparent is farther away
    cases hr with
    | nil => exact Bool.false_ne_true
    | move hr hne' =>
      rename_i k g d
      have hback := kingDist_step hne'
      change ¬ decide (step (step g.getPosition target) target = g.getPosition) = true
      rw [decide_eq_true_eq]
      intro heq
      change kingDist (step (step g.getPosition target) target) target + 1 =
        kingDist (step g.getPosition target) target at hnear
      rw [heq] at hnear
      omega
  · intro hany
    obtain ⟨cl,hcl,heq⟩ := List.any_eq_true.mp hany
    have hle := hclosed cl hcl
    rw [of_decide_eq_true heq] at hle
    omega

/-- The target lies in a straight line from a cell. -/
def Aligned (p target : Pos2D) : Prop := p.1 = target.1 ∨ p.2 = target.2

instance (p target : Pos2D) : Decidable (Aligned p target) := inferInstanceAs (Decidable (_ ∨ _))

/-- The node straight towards the target is cheaper than its parent, or as cheap in a straight
line. -/
theorem towards_getCostF (hc : Clear parent.getPosition target) (hne : parent.getPosition ≠ target)
    (hcostH : parent.getCostH = 10*manhattan parent.getPosition target) (hdir : dir ∈ directions)
    (hmove : move parent.getPosition dir.2 = step parent.getPosition target) :
    (Node.new (step parent.getPosition target) parent dir.1 target).getCostF =
      parent.getCostF + if Aligned parent.getPosition target then 0 else -6 := by
  rw [new_getCostF _ hdir, hmove, hc.next.setCostH_eq, ← estimate, estimate_step hne,
    Node.getCostF, hcostH]
  by_cases ha : parent.getPosition.1 = target.1 ∨ parent.getPosition.2 = target.2
  · rw [if_pos ha, if_pos (show Aligned _ _ from ha)]
    ring
  · rw [if_neg ha, if_neg (show ¬ Aligned _ _ from ha)]
    ring

/-- All other children are no cheaper than their parent. -/
theorem away_getCostF (hc : Clear parent.getPosition target)
    (hcostH : parent.getCostH = 10*manhattan parent.getPosition target) (hdir : dir ∈ directions)
    (haway : move parent.getPosition dir.2 ≠ step parent.getPosition target)
    (hn : child closedList parent target dir = some n) :
    parent.getCostF + (if Aligned parent.getPosition target then 1 else 0) ≤ n.getCostF := by
  have hle := le_new_getCostF hc hdir
  have hlt := estimate_lt (s := 10) (d := 14) (by omega) (by omega)
    (adjacent_move parent.getPosition hdir) haway
  rw [child_some hn, Node.getCostF, hcostH]
  simp only [Aligned]
  omega

/-- PathFind is called with the end of a route. The open nodes are no cheaper than it, and more
expensive in a straight line, and the closed ones are no nearer to the target. -/
structure Ahead (start target : Pos2D) (k : ℕ) (parent : Node) (openList closedList : List Node) :
    Prop where
  route : Route start target k parent
  length : closedList.length = k+1
  closed : ∀ cl ∈ closedList, kingDist parent.getPosition target ≤ kingDist cl.getPosition target
  costH : parent.getCostH = 10*manhattan parent.getPosition target
  costG : ∀ n ∈ openList, n.getCostG ≤ parent.getCostG + 4
  costF : ∀ n ∈ openList,
    parent.getCostF + (if Aligned parent.getPosition target then 1 else 0) ≤ n.getCostF

/-- Different directions lead to different cells. -/
theorem add_inj {dir' : ℕ × Pos2D} (hdir : dir ∈ directions) (hdir' : dir' ∈ directions)
    (h : parent.getPosition.add dir.2 = parent.getPosition.add dir'.2) : dir = dir' := by
  have hsame : ∀ d ∈ directions, ∀ d' ∈ directions, d.2 = d'.2 → d = d' := by decide
  have hd := directions_small hdir
  have hd' := directions_small hdir'
  unfold Pos2D.add at h
  rw [Prod.mk.injEq] at h
  exact hsame dir hdir dir' hdir' (Prod.ext (CInt.toShort_add_inj (abs_lt.mpr (by omega)) h.1)
    (CInt.toShort_add_inj (abs_lt.mpr (by omega)) h.2))

theorem nodup_children (parent : Node) (closedList : List Node) (target : Pos2D) :
    (directions.filterMap (child closedList parent target)).Nodup := by
  have hdirs : directions.Nodup := by decide
  simp only [List.Nodup] at hdirs ⊢
  rw [List.pairwise_filterMap]
  refine hdirs.imp_of_mem fun hd hd' hne n hn n' hn' heq => hne ?_
  have hpos : n.getPosition = n'.getPosition := congrArg Node.getPosition heq
  rw [child_some hn, child_some hn'] at hpos
  exact add_inj hd hd' hpos

/-- The only cheapest node is the one straight towards the target. -/
theorem Ahead.solution (h : Ahead start target k parent openList closedList)
    (hstart : Clear start target) (hne : parent.getPosition ≠ target) : ∃ dir,
    let best := Node.new (step parent.getPosition target) parent dir target
    let opened := directions.foldl (explore closedList parent target) openList
    best ∈ opened ∧ (∀ n ∈ opened, n ≠ best → best.getCostF < n.getCostF) ∧
      Ahead start target (k+1) best (opened.erase best) (closedList ++ [best]) := by
  have hc := h.route.clear hstart
  obtain ⟨dir,hdir,hmove,hchild⟩ := exists_towards hc hne h.route h.closed
  obtain ⟨hopened,hcostG⟩ := foldl_directions closedList target h.costG
  refine ⟨dir.1,?_⟩
  generalize hbest : Node.new (step parent.getPosition target) parent dir.1 target = best
  rw [hbest] at hchild
  dsimp only
  generalize directions.foldl (explore closedList parent target) openList = opened at hopened hcostG
  have hbestF : best.getCostF = parent.getCostF +
      if Aligned parent.getPosition target then 0 else -6 :=
    hbest ▸ towards_getCostF hc hne h.costH hdir hmove
  have hfar : ∀ n ∈ opened, n ≠ best →
      parent.getCostF + (if Aligned parent.getPosition target then 1 else 0) ≤ n.getCostF := by
    intro n hn hnb
    rw [hopened, List.mem_append, List.mem_filterMap] at hn
    rcases hn with hn | ⟨d,hd,hn⟩
    · exact h.costF n hn
    · refine away_getCostF hc h.costH hd (fun heq => hnb ?_) hn
      obtain rfl := add_inj hd hdir ((hc.add_eq_step heq).trans (hc.add_eq_step hmove).symm)
      exact Option.some.inj (hn.symm.trans hchild)
  have hlt : ∀ n ∈ opened, n ≠ best → best.getCostF < n.getCostF := by
    intro n hn hnb
    have hle := hfar n hn hnb
    rw [hbestF]
    split_ifs at hle ⊢ <;> omega
  have hold : best ∉ openList := by
    intro hmem
    have hle := h.costF best hmem
    rw [hbestF] at hle
    split_ifs at hle <;> omega
  have hmem : best ∈ opened := by
    rw [hopened, List.mem_append, List.mem_filterMap]
    exact Or.inr ⟨dir,hdir,hchild⟩
  -- the node is not in the list twice
  have herase : ∀ n ∈ opened.erase best, n ∈ opened ∧ n ≠ best := by
    intro n hn
    refine ⟨List.mem_of_mem_erase hn,?_⟩
    have hnodup := nodup_children parent closedList target
    rw [hopened, List.erase_append_right _ hold, List.mem_append, hnodup.mem_erase_iff] at hn
    rcases hn with hn | hn
    · exact fun heq => hold (heq ▸ hn)
    · exact hn.1
  refine ⟨hmem,hlt,?_⟩
  have hroute : Route start target (k+1) best := hbest ▸ h.route.move hne
  have hnear : kingDist best.getPosition target + 1 = kingDist parent.getPosition target := by
    rw [← hbest]
    exact kingDist_step hne
  have hbestG : parent.getCostG + 10 ≤ best.getCostG := by
    rw [← hbest]
    change _ ≤ parent.getCostG + if dir.1 < 4 then 10 else 14
    split_ifs <;> omega
  exact {
    route := hroute
    length := by rw [List.length_append, h.length, List.length_singleton]
    closed cl hcl := by
      rw [List.mem_append, List.mem_singleton] at hcl
      rcases hcl with hcl | rfl
      · have hle := h.closed cl hcl
        omega
      · exact le_rfl
    costH := by
      rw [← hbest]
      exact hc.next.setCostH_eq
    costG n hn := by
      have hle := hcostG n (herase n hn).1
      omega
    costF n hn := by
      have hle := hfar n (herase n hn).1 (herase n hn).2
      rw [hbestF]
      split_ifs at hle ⊢ <;> omega }

/-- PathFind goes on along the route, up to the target or the limit of the closed list. -/
theorem Ahead.pathFind (h : Ahead start target k parent openList closedList)
    (hstart : Clear start target) (hk : k ≤ 99) (hfuel : 100 ≤ k+fuel) :
    ∃ n openList' closedList',
      pathFind target fuel parent openList closedList = some (.ok (n,openList',closedList')) ∧
        Route start target (min (kingDist start target) 99) n := by
  induction fuel generalizing k parent openList closedList with
  | zero => omega
  | succ fuel ih =>
    have hdist := h.route.kingDist
    unfold CPathFinder.pathFind
    by_cases hne : parent.getPosition = target
    · rw [if_pos hne]
      refine ⟨parent,openList,closedList,rfl,?_⟩
      rw [kingDist_eq_zero.mpr hne, zero_add] at hdist
      rw [← hdist, min_eq_left hk]
      exact h.route
    · have hpos : kingDist parent.getPosition target ≠ 0 := fun h0 => hne (kingDist_eq_zero.mp h0)
      obtain ⟨dir,hmem,hlt,hnext⟩ := h.solution hstart hne
      rw [if_neg hne]
      dsimp only
      generalize directions.foldl (explore closedList parent target) openList = opened at *
      obtain ⟨front,rest,rfl⟩ := List.exists_cons_of_ne_nil (List.ne_nil_of_mem hmem)
      have hbest : (front::rest).foldl cheaper front =
          .new (step parent.getPosition target) parent dir target :=
        FirstMin.scan_eq (f := Node.getCostF) List.mem_cons_self hmem hlt
      dsimp only
      rw [hbest, List.length_append, h.length, List.length_singleton]
      split_ifs with hlimit
      · refine ⟨parent,_,_,rfl,?_⟩
        unfold maxListLen at hlimit
        rw [min_eq_right (by omega), show 99 = k by omega]
        exact h.route
      · unfold maxListLen at hlimit
        exact ih hnext (by omega) (by omega)

/-- GetPath returns the moves towards the target, up to the first 99. -/
theorem getPath_eq (f : CPathFinder) (hne : start ≠ target) (hc : Clear start target)
    (hfuel : maxListLen ≤ fuel) : ∃ f', getPath fuel f start target =
      some (.ok ((List.range (min (kingDist start target) 99)).map
        (fun j => walk start target (j+1)),f')) := by
  have hfirst : Ahead start target 0 (.start start target) [] [.start start target] := {
    route := .nil
    length := rfl
    closed cl hcl := by rw [List.mem_singleton.mp hcl]
    costH := hc.setCostH_eq
    costG n hn := by cases hn
    costF n hn := by cases hn }
  obtain ⟨n,openList,closedList,hrun,hroute⟩ := hfirst.pathFind hc (Nat.zero_le _)
    (show 100 ≤ 0+fuel by unfold maxListLen at hfuel; omega)
  have hmap : isOutMap target = true := isOutMap_eq hc.1.2.1 hc.2.2.1
  have hpath := hroute.follow []
  rw [List.append_nil] at hpath
  refine ⟨⟨openList,closedList,follow n []⟩,?_⟩
  rw [← hpath]
  simp only [getPath]
  rw [if_neg hne, hmap, free_eq_nil, free_eq_nil, List.nil_append, hrun]
  rfl

/-- The cells of a walk and the one it starts from. -/
theorem isChain_walk (start target : Pos2D) {n : ℕ} (hn : n ≤ kingDist start target) :
    (start :: (List.range n).map fun j => walk start target (j+1)).IsChain Adjacent := by
  have hcells : start :: (List.range n).map (fun j => walk start target (j+1)) =
      (List.range (n+1)).map (walk start target) := by
    rw [List.range_succ_eq_map, List.map_cons, List.map_map]
    rfl
  rw [hcells, List.isChain_map, List.isChain_range_succ]
  exact fun m hm => adjacent_walk (hm.trans_le hn)

/-- GetPath returns, whatever it was asked before, and the path takes a move of a king towards the
target with each cell, all of them up to the first 99. -/
theorem getPath_spec (f : CPathFinder) (hne : start ≠ target) (hs : InRange start)
    (ht : InRange target) (hfuel : maxListLen ≤ fuel) :
    ∃ path f', getPath fuel f start target = some (.ok (path,f')) ∧
      path.length = min (kingDist start target) 99 ∧ (start::path).IsChain Adjacent ∧
      (∀ k (hk : k < path.length),
        kingDist path[k] target + (k+1) = kingDist start target) ∧
      (kingDist start target ≤ 99 → path.getLast? = some target) := by
  have hpos : kingDist start target ≠ 0 := fun h0 => hne (kingDist_eq_zero.mp h0)
  obtain ⟨f',hpath⟩ := getPath_eq f hne (hs.clear ht) hfuel
  refine ⟨_,f',hpath,?_,isChain_walk start target (min_le_left _ _),?_,?_⟩
  · rw [List.length_map, List.length_range]
  · intro k hk
    rw [List.length_map, List.length_range] at hk
    rw [List.getElem_map, List.getElem_range]
    exact kingDist_walk (by omega)
  · intro hshort
    rw [min_eq_left hshort]
    obtain ⟨m,hm⟩ := Nat.exists_eq_add_one_of_ne_zero hpos
    have hend := kingDist_walk (p := start) (e := target) le_rfl
    rw [hm] at hend
    rw [hm, List.range_succ, List.map_append, List.map_singleton, List.getLast?_concat,
      Option.some_inj, ← kingDist_eq_zero]
    omega

/-- From one corner of the range to another, after an earlier search. -/
theorem getPath_corners : ∃ path f',
    getPath 100 ⟨[.start (0,0) (1,1)],[],[(5,5)]⟩ (-32000,-32000) (32000,31999) =
        some (.ok (path,f')) ∧ path.length = 99 := by
  obtain ⟨path,f',hpath,hlength,-⟩ := getPath_spec ⟨[.start (0,0) (1,1)],[],[(5,5)]⟩
    (show ((-32000,-32000) : Pos2D) ≠ (32000,31999) by decide) (by decide) (by decide) le_rfl
  exact ⟨path,f',hpath,hlength⟩

end CPathFinder

end LastHero
