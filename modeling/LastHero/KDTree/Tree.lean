import LastHero.Game.Physics
import LastHero.Support.WhileLoop
import LastHero.Support.PointerTree

/-! KDTree.cpp. Memory is the list of the nodes that `new` has handed out, and a pointer is NULL or a
place in it. Coordinates are only compared. -/
namespace LastHero

/-- KDTree::Node -/
structure KDTree.Node (F : Type) where
  pos : Position F
  oid : ℤ
  left : Option ℕ
  right : Option ℕ
  parent : Option ℕ

structure KDTree (F : Type) where
  heap : List (KDTree.Node F)
  root : Option ℕ
  head : Option ℕ

namespace KDTree
variable {F : Type}

/-- A read through a pointer that is NULL or dangling. -/
inductive Fault
  | badPointer

def deref (heap : List (Node F)) (p : Option ℕ) : Except Fault (ℕ × Node F) :=
  match p with
  | none => .error .badPointer
  | some a =>
    match heap[a]? with
    | none => .error .badPointer
    | some node => .ok (a,node)

theorem deref_some {heap : List (Node F)} {a : ℕ} {node : Node F} (h : heap[a]? = some node) :
    deref heap (some a) = .ok (a,node) := by
  simp [deref, h]

theorem read_of_deref {heap : List (Node F)} {p : Option ℕ} {a : ℕ} {node : Node F}
    (h : deref heap p = .ok (a,node)) : heap[a]? = some node := by
  simp only [deref] at h
  split at h
  · cases h
  · split at h
    · cases h
    · next hread =>
      cases h
      exact hread

def xlevel : Fin 2 := 0

/-- The coordinate that a level compares, x or y. -/
def axis (level : Fin 2) (p : Position F) : F := if level = xlevel then p.x else p.y

/-- KDTree::KDTree. The rest of `node` is what its memory held before. -/
def new [Zero F] (node : Node F) : KDTree F where
  heap := [{ node with pos := ⟨0,0,0⟩, parent := none, right := none, left := none }]
  root := some 0
  head := none

section search
variable [LinearOrder F]

/-- The right child is next. -/
def Less (level : Fin 2) (p q : Position F) : Prop := axis level p < axis level q

instance (level : Fin 2) : DecidableRel (Less (F := F) level) :=
  fun _ _ => inferInstanceAs (Decidable (_ < _))

def Node.child (node : Node F) (level : Fin 2) (pos : Position F) : Option ℕ :=
  if Less level node.pos pos then node.right else node.left

/-- RIGHT_NODE is `true`. -/
def Node.setChild (node : Node F) (direction : Bool) (p : Option ℕ) : Node F :=
  if direction then { node with right := p } else { node with left := p }

/-- The variables of the loop of Insert, with `m_head`. -/
structure Descent where
  parent : Option ℕ
  head : Option ℕ
  level : Fin 2

/-- Its body. The break at the end leaves the level as it is. -/
def descend (heap : List (Node F)) (pos : Position F) (s : Descent) : Except Fault Descent := do
  let (_,node) ← deref heap s.head
  let head := node.child s.level pos
  return ⟨s.head,head,if head = none then s.level else s.level+1⟩

/-- What Insert does after its loop. -/
def attach (heap : List (Node F)) (root : Option ℕ) (newNode : ℕ) (pos : Position F) (s : Descent) :
    Except Fault (Bool × KDTree F) := do
  let (p,parent) ← deref heap s.parent
  let parent := parent.setChild (Less s.level parent.pos pos) (some newNode)
  let heap := (heap.set p parent).modify newNode fun node => { node with parent := some p }
  return (true,⟨heap,root,none⟩)

/-- An object to insert, and what the memory of the two nodes that Insert allocates held before. -/
structure Arrival (F : Type) where
  objPos : Position F
  newNode : Node F
  parent : Node F

/-- Both of them, the first with its position and without children. -/
def Arrival.allocate (o : Arrival F) (heap : List (Node F)) : List (Node F) :=
  heap ++ [{ o.newNode with pos := o.objPos, right := none, left := none },o.parent]

/-- KDTree::Insert. Nothing points to the second node. -/
def insert (fuel : ℕ) (o : Arrival F) (k : KDTree F) : Option (Except Fault (Bool × KDTree F)) :=
  match k.root with
  | none => some (.ok (false,k))
  | some root =>
    let heap := o.allocate k.heap
    (WhileLoop.loop (fun s => s.head.isSome) (descend heap o.objPos) fuel
      ⟨some root,some root,xlevel⟩).map
        (· >>= attach heap k.root k.heap.length o.objPos)

/-- The variables of the loop of Delete, with `m_head`. -/
structure Search where
  head : Option ℕ
  level : Fin 2
  direction : Bool

/-- Neither of its breaks is taken. -/
def searching (heap : List (Node F)) (idx : ℤ) (s : Search) : Bool :=
  match s.head with
  | none => false
  | some a =>
    match heap[a]? with
    | none => true
    | some node => node.oid ≠ idx

def search (heap : List (Node F)) (pos : Position F) (s : Search) : Except Fault Search := do
  let (_,node) ← deref heap s.head
  return ⟨node.child s.level pos,s.level+1,Less s.level node.pos pos⟩

/-- What Delete does after its loop. -/
def remove (heap : List (Node F)) (root : Option ℕ) (s : Search) :
    Except Fault (Bool × KDTree F) := do
  if s.head = none then return (false,⟨heap,root,none⟩)
  let (a,node) ← deref heap s.head
  if node.left = none ∧ node.right = none then
    let (p,parent) ← deref heap node.parent
    let heap := (heap.set p (parent.setChild s.direction none)).modify a
      fun node => { node with parent := none }
    return (true,⟨heap,root,none⟩)
  else if node.left = none ∧ node.right ≠ none ∨ node.left ≠ none ∧ node.right = none then
    let (p,parent) ← deref heap node.parent
    -- the last assignment of both branches gives `m_head->parent` its own value
    if parent.right = some a then
      return (true,⟨heap.set p (parent.setChild true node.left),root,none⟩)
    else if parent.left = some a then
      return (true,⟨heap.set p (parent.setChild false node.right),root,none⟩)
    else return (true,⟨heap,root,none⟩)
  else return (true,⟨heap,root,none⟩)

/-- KDTree::Delete -/
def delete (fuel : ℕ) (idx : ℤ) (pos : Position F) (k : KDTree F) :
    Option (Except Fault (Bool × KDTree F)) :=
  match k.root with
  | none => some (.ok (false,k))
  | some root =>
    (WhileLoop.loop (searching k.heap idx) (search k.heap pos) fuel
      ⟨some root,xlevel,false⟩).map (· >>= remove k.heap k.root)

end search

section spec
open PointerTree SplitTree

def Node.cell (node : Node F) : Cell ℕ (Position F × ℤ) :=
  ⟨(node.pos,node.oid),node.left,node.right,node.parent⟩

def cells (heap : List (Node F)) (a : ℕ) : Option (Cell ℕ (Position F × ℤ)) :=
  heap[a]?.map Node.cell

/-- The position of a node of the tree. -/
def key (a : ℕ × Position F × ℤ) : Position F := a.2.1

theorem cells_read {heap : List (Node F)} {a : ℕ × Position F × ℤ} {left right up : Option ℕ}
    (h : cells heap a.1 = some ⟨a.2,left,right,up⟩) :
    heap[a.1]? = some ⟨key a,a.2.2,left,right,up⟩ := by
  simp only [cells, Option.map_eq_some_iff] at h
  obtain ⟨⟨_,_,_,_,_⟩,hread,hcell⟩ := h
  simp only [Node.cell, Cell.mk.injEq] at hcell
  obtain ⟨hval,rfl,rfl,rfl⟩ := hcell
  rw [hread, key, ← hval]

section cells
variable {heap : List (Node F)} {a p : ℕ}

theorem cells_eq {node : Node F} (h : heap[a]? = some node) : cells heap a = some node.cell := by
  rw [cells, h, Option.map_some]

theorem cells_append {c : Cell ℕ (Position F × ℤ)} (h : cells heap a = some c)
    (new : List (Node F)) : cells (heap ++ new) a = some c := by
  simp only [cells, Option.map_eq_some_iff] at h ⊢
  obtain ⟨node,hread,hcell⟩ := h
  exact ⟨node,List.getElem?_append_left (List.getElem?_eq_some_iff.mp hread).1 ▸ hread,hcell⟩

theorem cells_modify (f : Node F → Node F) :
    cells (heap.modify p f) a = if p = a then heap[a]?.map (fun node => (f node).cell)
      else cells heap a := by
  simp only [cells, List.getElem?_modify]
  split <;> cases heap[a]? <;> rfl

theorem cells_set {node : Node F} (hp : p < heap.length) :
    cells (heap.set p node) a = if p = a then some node.cell else cells heap a := by
  simp only [cells, List.getElem?_set, hp, if_true]
  split <;> rfl

/-- Taking the link to a leaf away. -/
theorem setChild_cell {direction : Bool}
    {node : Node F} (hlink : (if direction then node.right else node.left) = some a)
    (hne : ¬(node.left = some a ∧ node.right = some a)) :
    (node.setChild direction none).cell = node.cell.unlink a := by
  cases direction with
  | false =>
    have hleft : node.left = some a := hlink
    have hright : node.right ≠ some a := fun h => hne ⟨hleft,h⟩
    simp [Node.setChild, Node.cell, Cell.unlink, hleft, hright]
  | true =>
    have hright : node.right = some a := hlink
    have hleft : node.left ≠ some a := fun h => hne ⟨h,hright⟩
    simp [Node.setChild, Node.cell, Cell.unlink, hleft, hright]

end cells

/-- What is reachable from the root is the tree `t`, and every node below the root is a child of its
parent pointer. -/
structure Represents (k : KDTree F) (t : BinaryTree (ℕ × Position F × ℤ)) : Prop where
  rep : Rep (cells k.heap) none k.root t
  distinct : Distinct t

/-- Left subtrees have coordinates that are not greater and right subtrees greater ones, on the x
axis at even and on the y axis at odd depth. -/
abbrev Ordered [LinearOrder F] (t : BinaryTree (ℕ × Position F × ℤ)) : Prop :=
  Sorted (· + 1) Less key xlevel t

section elem
variable {k : KDTree F} {t : BinaryTree (ℕ × Position F × ℤ)} {heap : List (Node F)}
  {up p : Option ℕ}

theorem read_elem (h : Rep (cells heap) up p t) {a : ℕ × Position F × ℤ} (ha : a ∈ elems t) :
    ∃ node, heap[a.1]? = some node ∧ node.pos = key a ∧ node.oid = a.2.2 := by
  obtain ⟨c,hc,hval,-⟩ := h.cell ha
  simp only [cells, Option.map_eq_some_iff] at hc
  obtain ⟨node,hread,rfl⟩ := hc
  exact ⟨node,hread,congrArg Prod.fst hval,congrArg Prod.snd hval⟩

/-- What one iteration of a search sees. -/
theorem read_side [LinearOrder F] {a : ℕ × Position F × ℤ} {l r : BinaryTree (ℕ × Position F × ℤ)}
    (h : Rep (cells heap) up p (.node a l r)) (level : Fin 2) (pos : Position F) :
    ∃ node, p = some a.1 ∧ heap[a.1]? = some node ∧ node.pos = key a ∧ node.oid = a.2.2 ∧
      Rep (cells heap) (some a.1) (node.child level pos) (side Less key pos level a l r) := by
  obtain ⟨hp,left,right,hcell,hl,hr⟩ := h
  refine ⟨_,hp,cells_read hcell,rfl,rfl,?_⟩
  simp only [Node.child, side]
  split
  · exact hr
  · exact hl

theorem elem_lt (h : Rep (cells heap) up p t) {a : ℕ × Position F × ℤ} (ha : a ∈ elems t) :
    a.1 < heap.length := by
  obtain ⟨node,hread,-⟩ := read_elem h ha
  exact (List.getElem?_eq_some_iff.mp hread).1

/-- A node that the tree still contains. -/
def Reachable (k : KDTree F) (a : ℕ) : Prop := Reaches (cells k.heap) k.root a

/-- Every node but the root is a child of its parent pointer, which is in the tree. -/
def ParentsConsistent (k : KDTree F) : Prop :=
  ∀ a, k.Reachable a → k.root = some a ∨ ∃ node p parent, k.heap[a]? = some node ∧
    node.parent = some p ∧ k.Reachable p ∧ k.heap[p]? = some parent ∧
      (parent.left = some a ∨ parent.right = some a)

theorem Represents.parents (h : Represents k t) : k.ParentsConsistent := by
  intro a hreach
  obtain ⟨x,hx⟩ := h.rep.reaches_iff.mp hreach
  obtain ⟨c,hc,-,⟨-,hroot⟩ | ⟨b,hb,hparent,d,hd,hlink⟩⟩ := h.rep.cell hx
  · exact .inl hroot
  · simp only [cells, Option.map_eq_some_iff] at hc hd
    obtain ⟨node,hnode,rfl⟩ := hc
    obtain ⟨parent,hp,rfl⟩ := hd
    exact .inr ⟨node,b.1,parent,hnode,hparent,h.rep.reaches_iff.mpr ⟨b.2,hb⟩,hp,hlink⟩

theorem represents_new [Zero F] (node : Node F) :
    Represents (new node) (.node (0,⟨0,0,0⟩,node.oid) .nil .nil) :=
  ⟨⟨rfl,none,none,rfl,rfl,rfl⟩,by simp [Distinct, elems]⟩

end elem
end spec
end KDTree
end LastHero
