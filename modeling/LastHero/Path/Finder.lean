import LastHero.Game.Physics

/-! CPathFinder: a search over the cells of the map with an open and a closed list. Costs are
integers below 2^24, which `float` holds exactly. -/
namespace LastHero

/-- POS_2D; both coordinates are `short`. -/
abbrev Pos2D := ℤ × ℤ

namespace Pos2D

/-- `operator+` -/
def add (p q : Pos2D) : Pos2D := (CInt.toShort (p.1+q.1),CInt.toShort (p.2+q.2))

end Pos2D

/-- MAX_LIST_LEN -/
def maxListLen : ℕ := 100

/-- The directions as GetPath sets them: X_UP, X_DOWN, Y_UP, Y_DOWN and the diagonals. -/
def directions : List (ℕ × Pos2D) :=
  [(0,(1,0)),(1,(-1,0)),(2,(0,1)),(3,(0,-1)),(4,(1,1)),(5,(1,-1)),(6,(-1,1)),(7,(-1,-1))]

/-- Node; the first one has no parent. -/
inductive Node
  | root (currentPos : Pos2D) (costG costH : ℤ)
  | child (currentPos : Pos2D) (costG costH : ℤ) (parent : Node)
  deriving DecidableEq, Repr

namespace Node

def getPosition : Node → Pos2D
  | root pos _ _ => pos
  | child pos _ _ _ => pos

def getCostG : Node → ℤ
  | root _ g _ => g
  | child _ g _ _ => g

def getCostH : Node → ℤ
  | root _ _ h => h
  | child _ _ h _ => h

def getCostF (n : Node) : ℤ := n.getCostG + n.getCostH

def getParent : Node → Option Node
  | root .. => none
  | child _ _ _ parent => some parent

def setCostG (g : ℤ) : Node → Node
  | root pos _ h => root pos g h
  | child pos _ h parent => child pos g h parent

/-- The estimate of SetCostH, from two `unsigned short`. -/
def setCostH (pos p : Pos2D) : ℤ := ((p.1-pos.1).natAbs % 65536 + (p.2-pos.2).natAbs % 65536)*10

/-- The constructor of a node without a parent. -/
def start (pos h : Pos2D) : Node := .root pos 0 (setCostH pos h)

/-- The constructor of a node with a parent. -/
def new (pos : Pos2D) (parent : Node) (dir : ℕ) (h : Pos2D) : Node :=
  .child pos (parent.getCostG + if dir < 4 then 10 else 14) (setCostH pos h) parent

end Node

/-- CPathFinder. -/
structure CPathFinder where
  openList : List Node
  closedList : List Node
  pathList : List Pos2D

namespace CPathFinder

/-- IsOutMap, which is true inside the map. -/
def isOutMap (pos : Pos2D) : Bool :=
  !(pos.1 < sideMin || pos.1 > sideMax) && !(pos.2 < sideMin || pos.2 > sideMax)

/-- The openList after IsOverlap. A cheaper node for the same cell replaces the first one that
costs more, with the cost of a straight move. -/
def isOverlap (closedList : List Node) (parent node : Node) (openList : List Node) : List Node :=
  if closedList.any fun cl => cl.getPosition = node.getPosition then openList
  else
    match openList.find? fun ol => ol.getPosition = node.getPosition ∧
        node.getCostG < ol.getCostG with
    | some ol => openList.erase ol ++ [node.setCostG (parent.getCostG+10)]
    | none => openList ++ [node]

/-- One iteration of the loop over the directions. -/
def explore (closedList : List Node) (parent : Node) (target : Pos2D) (openList : List Node)
    (dir : ℕ × Pos2D) : List Node :=
  let childPos := parent.getPosition.add dir.2
  if isOutMap childPos then
    if parent.getParent.any fun n => childPos = n.getPosition then openList
    else isOverlap closedList parent (.new childPos parent dir.1 target) openList
  else openList

/-- One iteration of the loop that looks for the cheapest node. -/
def cheaper (solution ol : Node) : Node :=
  if ol.getCostF < solution.getCostF then ol else solution

/-- PathFind, which calls itself at most once; `none` when the fuel runs out. -/
def pathFind (target : Pos2D) :
    ℕ → Node → List Node → List Node → Option (Except Fault (Node × List Node × List Node))
  | 0, _, _, _ => none
  | fuel+1, parent, openList, closedList =>
    if parent.getPosition = target then some (.ok (parent,openList,closedList))
    else
      let openList := directions.foldl (explore closedList parent target) openList
      match openList with
      | [] => some (.error .emptyPath)
      | front::_ =>
        let solution := openList.foldl cheaper front
        let openList := openList.erase solution
        let closedList := closedList ++ [solution]
        if maxListLen < closedList.length then some (.ok (parent,openList,closedList))
        else pathFind target fuel solution openList closedList

/-- The loop at the end of GetPath, from a node back to the first one. -/
def follow : Node → List Pos2D → List Pos2D
  | .root .., pathList => pathList
  | .child pos _ _ parent, pathList => follow parent (pos::pathList)

/-- The loops at the beginning of GetPath, which erase node by node. -/
def free : List Node → List Node
  | [] => []
  | _::l => free l

@[simp] theorem free_eq_nil (l : List Node) : free l = [] := by
  induction l with
  | nil => rfl
  | cons n l ih => exact ih

/-- GetPath, with what it leaves in the lists. -/
def getPath (fuel : ℕ) (f : CPathFinder) (start target : Pos2D) :
    Option (Except Fault (List Pos2D × CPathFinder)) :=
  let f := { f with openList := free f.openList, closedList := free f.closedList, pathList := [] }
  if start = target then some (.ok (f.pathList,f))
  else if !isOutMap target then some (.ok (f.pathList,f))
  else
    let parent := Node.start start target
    (pathFind target fuel parent f.openList (f.closedList ++ [parent])).map fun r =>
      r.map fun (node,openList,closedList) =>
        let pathList := follow node f.pathList
        (pathList,⟨openList,closedList,pathList⟩)

variable {target : Pos2D} {parent : Node} {openList closedList : List Node} {fuel : ℕ}

/-- Each call closes one more node, so that the limit of the closed list ends the recursion. -/
theorem pathFind_isSome (hclosed : closedList.length ≤ maxListLen)
    (hfuel : maxListLen < fuel+closedList.length) :
    (pathFind target fuel parent openList closedList).isSome := by
  induction fuel generalizing parent openList closedList with
  | zero => omega
  | succ fuel ih =>
    unfold pathFind
    split_ifs with hend
    · rfl
    · dsimp only
      split
      · rfl
      · split_ifs with hlimit
        · rfl
        · apply ih
          · exact not_lt.mp hlimit
          · rw [List.length_append, List.length_singleton]
            omega

theorem getPath_isSome (f : CPathFinder) (start target : Pos2D) :
    (getPath maxListLen f start target).isSome := by
  unfold getPath
  dsimp only
  split_ifs
  · rfl
  · rfl
  · rw [Option.isSome_map, free_eq_nil, free_eq_nil]
    apply pathFind_isSome
    · exact Nat.le_add_left 1 99
    · exact Nat.lt_succ_self maxListLen

/-- GetPath, as it always returns. -/
def search (f : CPathFinder) (start target : Pos2D) : Except Fault (List Pos2D × CPathFinder) :=
  (getPath maxListLen f start target).get (getPath_isSome f start target)

theorem search_eq {f : CPathFinder} {start target : Pos2D}
    {r : Except Fault (List Pos2D × CPathFinder)} (h : getPath maxListLen f start target = some r) :
    f.search start target = r := Option.get_of_eq_some _ h

/-- Earlier searches have no influence. -/
theorem search_congr (f g : CPathFinder) (start target : Pos2D) :
    f.search start target = g.search start target := by
  have hsame : getPath maxListLen f start target = getPath maxListLen g start target := by
    simp only [getPath, free_eq_nil]
  rw [search_eq (Option.some_get (getPath_isSome g start target) ▸ hsame)]
  rfl

/-- The path that every CPathFinder finds. -/
def answer (start target : Pos2D) : List Pos2D :=
  match search ⟨[],[],[]⟩ start target with
  | .error _ => []
  | .ok (path,_) => path

theorem answer_eq {f f' : CPathFinder} {start target : Pos2D} {path : List Pos2D}
    (h : f.search start target = .ok (path,f')) : answer start target = path := by
  rw [answer, search_congr _ f, h]

/-- From a cell to itself there is no path. -/
theorem search_self (f : CPathFinder) (p : Pos2D) : ∃ f', f.search p p = .ok ([],f') :=
  ⟨_,search_eq (if_pos rfl)⟩

end CPathFinder

end LastHero
