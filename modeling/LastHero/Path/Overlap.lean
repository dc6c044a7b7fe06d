import LastHero.Path.Search

/-! What IsOverlap does to the open list. A child that is cheaper than the open node of its cell
replaces it, but with the cost of a straight move; one that is not cheaper is added to it. -/
namespace LastHero
namespace CPathFinder

/-- The child that PathFind builds in a direction. -/
def freshChild (parent : Node) (target : Pos2D) (dir : ℕ × Pos2D) : Node :=
  .new (parent.getPosition.add dir.2) parent dir.1 target

/-- The cost of a node is that of its parent and of the move from there. -/
def Costed (n : Node) : Prop :=
  ∀ parent, n.getParent = some parent → ∃ dir ∈ directions,
    n.getPosition = parent.getPosition.add dir.2 ∧ n.getCostG = parent.getCostG + dirCost dir

/-- Both lists together have at most one node for each cell, and all costs are right. -/
structure Tidy (openList closedList : List Node) : Prop where
  unique : ((openList ++ closedList).map Node.getPosition).Nodup
  costed : ∀ n ∈ openList ++ closedList, Costed n

/-- Unless it is closed, the cell of a node has the cheaper one of the node and the open node. -/
def Best (openList closedList : List Node) (node : Node) (openList' : List Node) : Prop :=
  (∀ cl ∈ closedList, cl.getPosition ≠ node.getPosition) →
    ∃ n ∈ openList', n.getPosition = node.getPosition ∧ n.getCostG ≤ node.getCostG ∧
      (∀ ol ∈ openList, ol.getPosition = node.getPosition → n.getCostG ≤ ol.getCostG) ∧
      (n.getCostG = node.getCostG ∨
        ∃ ol ∈ openList, ol.getPosition = node.getPosition ∧ n.getCostG = ol.getCostG)

/-- The cell is closed, or the move is straight and cheaper than the open node, if there is one. -/
def Improves (openList closedList : List Node) (node : Node) (dir : ℕ × Pos2D) : Prop :=
  (∃ cl ∈ closedList, cl.getPosition = node.getPosition) ∨
    ∀ ol ∈ openList, ol.getPosition = node.getPosition → node.getCostG < ol.getCostG ∧ dir.1 < 4

instance (n : Node) : Decidable (Costed n) :=
  inferInstanceAs (Decidable (∀ parent ∈ n.getParent, ∃ dir ∈ directions,
    n.getPosition = parent.getPosition.add dir.2 ∧ n.getCostG = parent.getCostG + dirCost dir))

instance (openList closedList : List Node) : Decidable (Tidy openList closedList) :=
  decidable_of_iff (_ ∧ _) ⟨fun h => ⟨h.1,h.2⟩,fun h => ⟨h.unique,h.costed⟩⟩

variable {openList closedList : List Node} {parent node ol : Node} {target : Pos2D}
  {dir : ℕ × Pos2D}

theorem costed_freshChild (hdir : dir ∈ directions) : Costed (freshChild parent target dir) := by
  rintro _ ⟨⟩
  exact ⟨dir,hdir,rfl,rfl⟩

/-- The cost of a straight move is right for straight moves only. -/
theorem costed_setCostG_iff (parent : Node) (target : Pos2D) (hdir : dir ∈ directions) :
    Costed ((freshChild parent target dir).setCostG (parent.getCostG+10)) ↔ dir.1 < 4 := by
  constructor
  · intro h
    obtain ⟨dir',hdir',hpos,hcost⟩ := h parent rfl
    obtain rfl : dir = dir' := add_inj hdir hdir' hpos
    have hten : dirCost dir = 10 := (add_left_cancel hcost).symm
    by_contra hdiagonal
    rw [dirCost, if_neg hdiagonal] at hten
    exact absurd hten (by decide)
  · rintro hstraight _ ⟨⟩
    refine ⟨dir,hdir,rfl,?_⟩
    rw [dirCost, if_pos hstraight]
    rfl

/-- Two open nodes of one cell are the same. -/
theorem Tidy.eq_of_getPosition (h : Tidy openList closedList) {n n' : Node} (hn : n ∈ openList)
    (hn' : n' ∈ openList) (hpos : n.getPosition = n'.getPosition) : n = n' :=
  List.inj_on_of_nodup_map h.unique (List.mem_append_left _ hn) (List.mem_append_left _ hn') hpos

/-- A node of an open cell takes the place of the open node. -/
theorem Tidy.replace_iff (h : Tidy openList closedList) (hol : ol ∈ openList)
    (hpos : ol.getPosition = node.getPosition) :
    Tidy (openList.erase ol ++ [node]) closedList ↔ Costed node := by
  have hperm : ((openList.erase ol ++ [node]) ++ closedList).Perm
      (node::(openList.erase ol ++ closedList)) := by
    rw [List.append_assoc]
    exact List.perm_middle
  have hcells : (((openList.erase ol ++ [node]) ++ closedList).map Node.getPosition).Perm
      ((openList ++ closedList).map Node.getPosition) := by
    refine (hperm.map _).trans ?_
    rw [List.map_cons, ← hpos, ← List.map_cons, ← List.cons_append]
    exact ((List.perm_cons_erase hol).symm.append_right closedList).map _
  constructor
  · intro h'
    exact h'.costed node (by simp)
  · intro hnode
    refine ⟨hcells.nodup_iff.mpr h.unique,fun n hn => ?_⟩
    rcases List.mem_cons.mp (hperm.mem_iff.mp hn) with rfl | hn
    · exact hnode
    · refine h.costed n (List.mem_append.mpr ?_)
      exact (List.mem_append.mp hn).imp_left List.mem_of_mem_erase

/-- A node of a new cell is one more. -/
theorem Tidy.append (h : Tidy openList closedList) (hnode : Costed node)
    (hopen : ∀ ol ∈ openList, ol.getPosition ≠ node.getPosition)
    (hclosed : ∀ cl ∈ closedList, cl.getPosition ≠ node.getPosition) :
    Tidy (openList ++ [node]) closedList := by
  have hperm : ((openList ++ [node]) ++ closedList).Perm (node::(openList ++ closedList)) := by
    rw [List.append_assoc]
    exact List.perm_middle
  refine ⟨(hperm.map _).nodup_iff.mpr ?_,fun n hn => ?_⟩
  · rw [List.map_cons, List.nodup_cons]
    refine ⟨fun hmem => ?_,h.unique⟩
    obtain ⟨n,hn,hpos⟩ := List.mem_map.mp hmem
    exact (List.mem_append.mp hn).elim (fun hn => hopen n hn hpos) fun hn => hclosed n hn hpos
  · rcases List.mem_cons.mp (hperm.mem_iff.mp hn) with rfl | hn
    · exact hnode
    · exact h.costed n hn

/-- and a second node of an open cell is one too many. -/
theorem not_tidy_append (hol : ol ∈ openList) (hpos : ol.getPosition = node.getPosition) :
    ¬ Tidy (openList ++ [node]) closedList := by
  intro h
  have hunique := h.unique
  rw [List.map_append, List.map_append] at hunique
  have hopen := (List.nodup_append.mp (List.nodup_append.mp hunique).1).2.2
  exact hopen _ (List.mem_map_of_mem hol) _ (List.mem_map_of_mem List.mem_cons_self) hpos

/-- What the two loops of IsOverlap find. -/
theorem isOverlap_cases (closedList : List Node) (parent node : Node) (openList : List Node) :
    ((∃ cl ∈ closedList, cl.getPosition = node.getPosition) ∧
      isOverlap closedList parent node openList = openList) ∨
    ((∀ cl ∈ closedList, cl.getPosition ≠ node.getPosition) ∧
      ((∃ ol ∈ openList, ol.getPosition = node.getPosition ∧ node.getCostG < ol.getCostG ∧
          isOverlap closedList parent node openList =
            openList.erase ol ++ [node.setCostG (parent.getCostG+10)]) ∨
        ((∀ ol ∈ openList, ol.getPosition = node.getPosition → ol.getCostG ≤ node.getCostG) ∧
          isOverlap closedList parent node openList = openList ++ [node]))) := by
  simp only [isOverlap]
  by_cases hclosed : (closedList.any fun cl => cl.getPosition = node.getPosition) = true
  · rw [if_pos hclosed]
    refine Or.inl ⟨?_,rfl⟩
    simpa using hclosed
  · rw [if_neg hclosed]
    refine Or.inr ⟨by simpa using hclosed,?_⟩
    cases hfind : openList.find? fun ol => ol.getPosition = node.getPosition ∧
        node.getCostG < ol.getCostG with
    | some ol =>
      have hsome := List.find?_some hfind
      rw [decide_eq_true_eq] at hsome
      exact Or.inl ⟨ol,List.mem_of_find?_eq_some hfind,hsome.1,hsome.2,rfl⟩
    | none =>
      refine Or.inr ⟨fun ol hol hpos => ?_,rfl⟩
      have hnone := List.find?_eq_none.mp hfind ol hol
      simpa [hpos] using hnone

/-- IsOverlap keeps one best open node for each cell if and only if the cell of the child is closed,
or the child comes by a straight move and costs less than the open node of its cell. -/
theorem best_open_iff (hdir : dir ∈ directions) (h : Tidy openList closedList) :
    (Tidy (isOverlap closedList parent (freshChild parent target dir) openList) closedList ∧
      Best openList closedList (freshChild parent target dir)
        (isOverlap closedList parent (freshChild parent target dir) openList)) ↔
      Improves openList closedList (freshChild parent target dir) dir := by
  have hcost : (freshChild parent target dir).getCostG = parent.getCostG + dirCost dir := rfl
  have hcosted : Costed (freshChild parent target dir) := costed_freshChild hdir
  have hstraight := costed_setCostG_iff parent target hdir
  generalize freshChild parent target dir = node at hcost hcosted hstraight ⊢
  rcases isOverlap_cases closedList parent node openList with
    ⟨⟨cl,hcl,hpos⟩,hsame⟩ | ⟨hfree,⟨ol,hol,hpos,hless,hnew⟩ | ⟨hmore,hnew⟩⟩
  · rw [hsame]
    exact iff_of_true ⟨h,fun hfree => absurd hpos (hfree cl hcl)⟩ (Or.inl ⟨cl,hcl,hpos⟩)
  · have hpos' : ol.getPosition = (node.setCostG (parent.getCostG+10)).getPosition := by
      rw [hpos]
      cases node <;> rfl
    have hcost' : (node.setCostG (parent.getCostG+10)).getCostG = parent.getCostG+10 := by
      cases node <;> rfl
    rw [hnew, h.replace_iff hol hpos', hstraight]
    constructor
    · rintro ⟨hdir4,-⟩
      refine Or.inr fun ol' hol' hpos'' => ⟨?_,hdir4⟩
      rw [h.eq_of_getPosition hol' hol (hpos''.trans hpos.symm)]
      exact hless
    · rintro (⟨cl,hcl,hclpos⟩ | hall)
      · exact absurd hclpos (hfree cl hcl)
      · have hdir4 := (hall ol hol hpos).2
        have hsame : (node.setCostG (parent.getCostG+10)).getCostG = node.getCostG := by
          rw [hcost', hcost, dirCost, if_pos hdir4]
        refine ⟨hdir4,fun _ => ⟨_,by simp,hpos'.symm.trans hpos,hsame.le,?_,Or.inl hsame⟩⟩
        intro ol' hol' hpos''
        rw [hsame]
        exact (hall ol' hol' hpos'').1.le
  · rw [hnew]
    by_cases hopen : ∃ ol ∈ openList, ol.getPosition = node.getPosition
    · obtain ⟨ol,hol,hpos⟩ := hopen
      refine iff_of_false (fun h' => not_tidy_append hol hpos h'.1) ?_
      rintro (⟨cl,hcl,hclpos⟩ | hall)
      · exact hfree cl hcl hclpos
      · exact absurd (hall ol hol hpos).1 (not_lt.mpr (hmore ol hol hpos))
    · have hnone : ∀ ol ∈ openList, ol.getPosition ≠ node.getPosition :=
        fun ol hol hpos => hopen ⟨ol,hol,hpos⟩
      refine iff_of_true ⟨h.append hcosted hnone hfree,fun _ => ⟨node,by simp,rfl,le_rfl,?_⟩⟩ ?_
      · exact ⟨fun ol hol hpos => absurd hpos (hnone ol hol),Or.inl rfl⟩
      · exact Or.inr fun ol hol hpos => absurd hpos (hnone ol hol)

/-- The beginning of a search from (0,0) to (5,0). -/
def origin : Node := .start (0,0) (5,0)

/-- Its first move. -/
def eastward : Node := freshChild origin (5,0) (0,(1,0))

/-- The cell (1,1) is open after the first move, and to enter it from there costs more. -/
theorem second_adds_cell : ∃ (openList closedList : List Node) (parent : Node) (target : Pos2D)
    (dir : ℕ × Pos2D), dir ∈ directions ∧ Tidy openList closedList ∧
      ¬ (Tidy (isOverlap closedList parent (freshChild parent target dir) openList) closedList ∧
        Best openList closedList (freshChild parent target dir)
          (isOverlap closedList parent (freshChild parent target dir) openList)) := by
  refine ⟨(directions.foldl (explore [origin] origin (5,0)) []).erase eastward,[origin,eastward],
    eastward,(5,0),(2,(0,1)),by decide,by decide +kernel,fun h => ?_⟩
  exact absurd h.1 (by decide +kernel)

/-- A detour to the cell (2,0). -/
def detour : Node := freshChild (freshChild origin (5,0) (4,(1,1))) (5,0) (5,(1,-1))

/-- The straight move to (2,0) replaces the detour. -/
theorem best_open_detour :
    Tidy (isOverlap [origin,eastward] eastward (freshChild eastward (5,0) (0,(1,0))) [detour])
      [origin,eastward] ∧
    Best [detour] [origin,eastward] (freshChild eastward (5,0) (0,(1,0)))
      (isOverlap [origin,eastward] eastward (freshChild eastward (5,0) (0,(1,0))) [detour]) := by
  refine (best_open_iff (by decide) (by decide +kernel)).mpr (Or.inr fun ol hol _ => ?_)
  obtain rfl := List.mem_singleton.mp hol
  exact ⟨by decide +kernel,by decide⟩

end CPathFinder

end LastHero
