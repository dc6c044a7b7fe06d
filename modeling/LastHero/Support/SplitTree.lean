import Mathlib.Data.Tree.Basic
import Mathlib.Data.List.Perm.Basic

/-! Binary search trees whose comparison depends on the level, as the axes of a k-d tree do. Keys
that are equal to the key of a node are below it on the left. -/
namespace SplitTree
open scoped List
variable {ι κ α : Type*}

def elems : BinaryTree α → List α
  | .nil => []
  | .node a l r => a :: (elems l ++ elems r)

@[simp] theorem elems_nil : elems (.nil : BinaryTree α) = [] := rfl

@[simp] theorem mem_elems_node {a b : α} {l r : BinaryTree α} :
    b ∈ elems (.node a l r) ↔ b = a ∨ b ∈ elems l ∨ b ∈ elems r := by
  simp [elems]

/-- The tree without the subtrees whose roots satisfy `p`. -/
def cut (p : α → Bool) : BinaryTree α → BinaryTree α
  | .nil => .nil
  | .node a l r => if p a then .nil else .node a (cut p l) (cut p r)

theorem elems_cut (p : α → Bool) (t : BinaryTree α) : (elems (cut p t)).Sublist (elems t) := by
  induction t with
  | nil => simp [cut]
  | node a l r ihl ihr =>
    simp only [cut]
    split
    · simp
    · exact (ihl.append ihr).cons_cons a

section order
variable (next : ι → ι) (less : ι → κ → κ → Prop) (key : α → κ)

/-- Everywhere in the tree the keys on the left are not greater and those on the right are. -/
def Sorted : ι → BinaryTree α → Prop
  | _, .nil => True
  | i, .node a l r => (∀ b ∈ elems l, ¬less i (key a) (key b)) ∧
      (∀ b ∈ elems r, less i (key a) (key b)) ∧ Sorted (next i) l ∧ Sorted (next i) r

variable {next less key} {i : ι} {t : BinaryTree α} {x y : α} {k : κ}

theorem Sorted.cut (h : Sorted next less key i t) (p : α → Bool) :
    Sorted next less key i (cut p t) := by
  induction t generalizing i with
  | nil => exact h
  | node a l r ihl ihr =>
    obtain ⟨hleft,hright,hl,hr⟩ := h
    simp only [SplitTree.cut]
    split
    · trivial
    · exact ⟨fun b hb => hleft b ((elems_cut p l).subset hb),
        fun b hb => hright b ((elems_cut p r).subset hb),ihl hl,ihr hr⟩

variable (next less key) [∀ i, DecidableRel (less i)]

def insert (x : α) : ι → BinaryTree α → BinaryTree α
  | _, .nil => .node x .nil .nil
  | i, .node a l r =>
    if less i (key a) (key x) then .node a l (insert x (next i) r)
    else .node a (insert x (next i) l) r

/-- The nodes that a search for `k` visits. -/
def path (k : κ) : ι → BinaryTree α → List α
  | _, .nil => []
  | i, .node a l r => a :: if less i (key a) k then path k (next i) r else path k (next i) l

/-- The last of them, with its level. -/
def slot (k : κ) : ι → BinaryTree α → Option (α × ι)
  | _, .nil => none
  | i, .node a l r =>
    (if less i (key a) k then slot k (next i) r else slot k (next i) l).or (some (a,i))

variable {next less key}

theorem elems_insert : (elems (insert next less key x i t)).Perm (x :: elems t) := by
  induction t generalizing i with
  | nil => simp [insert, elems]
  | node a l r ihl ihr =>
    simp only [insert]
    split
    · calc a :: (elems l ++ elems (insert next less key x (next i) r))
        _ ~ a :: (elems l ++ x :: elems r) := ((ihr (i := next i)).append_left _).cons a
        _ ~ a :: x :: (elems l ++ elems r) := List.perm_middle.cons a
        _ ~ x :: a :: (elems l ++ elems r) := .swap x a _
    · calc a :: (elems (insert next less key x (next i) l) ++ elems r)
        _ ~ a :: x :: (elems l ++ elems r) := ((ihl (i := next i)).append_right _).cons a
        _ ~ x :: a :: (elems l ++ elems r) := .swap x a _

theorem mem_insert : y ∈ elems (insert next less key x i t) ↔ y = x ∨ y ∈ elems t := by
  rw [elems_insert.mem_iff, List.mem_cons]

theorem Sorted.insert (h : Sorted next less key i t) :
    Sorted next less key i (insert next less key x i t) := by
  induction t generalizing i with
  | nil => simp [SplitTree.insert, Sorted]
  | node a l r ihl ihr =>
    obtain ⟨hleft,hright,hl,hr⟩ := h
    simp only [SplitTree.insert]
    split
    · next hless =>
      refine ⟨hleft,fun b hb => ?_,hl,ihr hr⟩
      obtain rfl | hb := mem_insert.mp hb
      · exact hless
      · exact hright b hb
    · next hless =>
      refine ⟨fun b hb => ?_,hright,ihl hl,hr⟩
      obtain rfl | hb := mem_insert.mp hb
      · exact hless
      · exact hleft b hb

/-- A search in a sorted tree passes every node with the key. -/
theorem Sorted.mem_path (h : Sorted next less key i t) (hy : y ∈ elems t) :
    y ∈ path next less key (key y) i t := by
  induction t generalizing i with
  | nil => contradiction
  | node a l r ihl ihr =>
    obtain ⟨hleft,hright,hl,hr⟩ := h
    obtain rfl | hy | hy := mem_elems_node.mp hy
    · exact List.mem_cons_self
    · rw [path, if_neg (hleft y hy)]
      exact List.mem_cons_of_mem a (ihl hl hy)
    · rw [path, if_pos (hright y hy)]
      exact List.mem_cons_of_mem a (ihr hr hy)

section search
variable {a : α} {l r : BinaryTree α}

variable (less key) in
/-- The subtree that the search enters. -/
def side (k : κ) (i : ι) (a : α) (l r : BinaryTree α) : BinaryTree α :=
  if less i (key a) k then r else l

variable (next less key k) in
/-- Induction along the search for `k`. -/
theorem search_induction {motive : ι → BinaryTree α → Prop} (nil : ∀ i, motive i .nil)
    (node : ∀ i a l r, motive (next i) (side less key k i a l r) → motive i (.node a l r))
    (i : ι) (t : BinaryTree α) : motive i t := by
  induction t generalizing i with
  | nil => exact nil i
  | node a l r ihl ihr =>
    apply node
    rw [side]
    split
    · exact ihr (next i)
    · exact ihl (next i)

theorem elems_side : elems (side less key k i a l r) ⊆ elems (.node a l r) := by
  intro b hb
  rw [side] at hb
  split at hb
  · simp [hb]
  · simp [hb]

theorem path_node : path next less key k i (.node a l r) =
    a :: path next less key k (next i) (side less key k i a l r) := by
  simp only [path, side]
  split <;> rfl

theorem slot_node : slot next less key k i (.node a l r) =
    (slot next less key k (next i) (side less key k i a l r)).or (some (a,i)) := by
  simp only [slot, side]
  split <;> rfl

theorem path_subset : path next less key k i t ⊆ elems t := by
  induction i, t using search_induction next less key k with
  | nil => simp [path]
  | node i a l r ih =>
    rw [path_node]
    intro b hb
    obtain rfl | hb := List.mem_cons.mp hb
    · simp
    · exact elems_side (ih hb)

theorem slot_eq_none (h : slot next less key k i t = none) : t = .nil := by
  cases t with
  | nil => rfl
  | node a l r => simp [slot] at h

theorem slot_mem {j : ι} (h : slot next less key k i t = some (y,j)) : y ∈ elems t := by
  induction i, t using search_induction next less key k with
  | nil => cases h
  | node i a l r ih =>
    rw [slot_node, Option.or_eq_some_iff] at h
    obtain h | ⟨-,h⟩ := h
    · exact elems_side (ih h)
    · cases h
      simp

end search
end order
end SplitTree
