import LastHero.KDTree.Tree

/-! Insert puts a new leaf where the search for its position ends, whatever was inserted before. -/
namespace LastHero
namespace KDTree
open PointerTree SplitTree
open scoped List
variable {F : Type} [LinearOrder F] {k : KDTree F} {t : BinaryTree (ℕ × Position F × ℤ)}
  {heap : List (Node F)} {o : Arrival F} {up p : Option ℕ} {level : Fin 2} {pos : Position F}

theorem descend_eq {a : ℕ} {node : Node F} (hread : heap[a]? = some node) (q : Option ℕ) :
    descend heap pos ⟨q,some a,level⟩ = .ok ⟨some a,node.child level pos,
      if node.child level pos = none then level else level+1⟩ := by
  simp [descend, deref_some hread, bind, Except.bind, pure, Except.pure]

/-- The loop of Insert ends at the last node of the path, with the level of that node. -/
theorem descend_loop (h : Rep (cells heap) up p t) {b : ℕ × Position F × ℤ} {j : Fin 2}
    (hslot : slot (· + 1) Less key pos level t = some (b,j)) (q : Option ℕ) {n : ℕ}
    (hn : (path (· + 1) Less key pos level t).length ≤ n) :
    WhileLoop.loop (fun s => s.head.isSome) (descend heap pos) n ⟨q,p,level⟩ =
      some (.ok ⟨some b.1,none,j⟩) := by
  induction level, t using search_induction (· + 1) Less key pos generalizing up p q n with
  | nil => cases hslot
  | node level a l r ih =>
    obtain ⟨node,rfl,hread,-,-,hside⟩ := read_side h level pos
    rw [path_node, List.length_cons] at hn
    obtain ⟨n,rfl⟩ : ∃ m, n = m+1 := Nat.exists_eq_succ_of_ne_zero (by omega)
    rw [WhileLoop.loop_next rfl (descend_eq hread q)]
    rw [slot_node, Option.or_eq_some_iff] at hslot
    obtain hslot | ⟨hnone,hlast⟩ := hslot
    · have hchild : node.child level pos ≠ none := by
        intro hchild
        rw [hchild] at hside
        rw [rep_none hside] at hslot
        cases hslot
      rw [if_neg hchild]
      exact ih hside hslot (some a.1) (by omega)
    · rw [slot_eq_none hnone] at hside
      obtain ⟨rfl,rfl⟩ := Prod.mk.inj (Option.some.inj hlast)
      have hchild : node.child level pos = none := hside
      rw [if_pos hchild, hchild]
      exact WhileLoop.loop_done rfl

/-- What stands for the object in the tree after its insertion. -/
def Arrival.elem (o : Arrival F) (k : KDTree F) : ℕ × Position F × ℤ :=
  (k.heap.length,o.objPos,o.newNode.oid)

/-- What Insert writes links the new leaf below the last node of the path. -/
theorem attach_spec (hrep : Rep (cells k.heap) up p t) (hd : Distinct t)
    {b : ℕ × Position F × ℤ} {j : Fin 2}
    (hslot : slot (· + 1) Less key (key (o.elem k)) level t = some (b,j)) :
    ∃ heap, attach (o.allocate k.heap) k.root k.heap.length o.objPos ⟨some b.1,none,j⟩ =
        .ok (true,⟨heap,k.root,none⟩) ∧
      Rep (cells heap) up p (SplitTree.insert (· + 1) Less key (o.elem k) level t) := by
  have hold : ∀ a ∈ elems t, a.1 < k.heap.length := fun a ha => elem_lt hrep ha
  have hb := slot_mem hslot
  obtain ⟨node,hread,hpos,-⟩ := read_elem hrep hb
  have hread' : (o.allocate k.heap)[b.1]? = some node := by
    rw [Arrival.allocate, List.getElem?_append_left (hold b hb), hread]
  have hlt : b.1 < (o.allocate k.heap).length := (List.getElem?_eq_some_iff.mp hread').1
  refine ⟨((o.allocate k.heap).set b.1 (node.setChild (Less j node.pos o.objPos)
    (some k.heap.length))).modify k.heap.length fun node => { node with parent := some b.1 },?_,?_⟩
  · simp only [attach, deref_some hread', bind, Except.bind, pure, Except.pure]
  · refine hrep.insert hd hslot ?_ ?_ ?_
    · have hnew : (o.allocate k.heap)[k.heap.length]? =
          some { o.newNode with pos := o.objPos, right := none, left := none } := by
        simp [Arrival.allocate]
      simp [cells_modify, Arrival.elem, (hold b hb).ne, hnew, Node.cell]
    · have hread := cells_eq hread
      have hkey : key (o.elem k) = o.objPos := rfl
      rw [cells_modify, if_neg (hold b hb).ne', cells_set hlt, if_pos rfl, hread, hpos, hkey]
      by_cases hless : Less j (key b) o.objPos
      · simp [Node.setChild, hless, Node.cell, Arrival.elem]
      · simp [Node.setChild, hless, Node.cell, Arrival.elem]
    · intro a ha hne
      obtain ⟨node,hread,-⟩ := read_elem hrep ha
      rw [cells_modify, if_neg (hold a ha).ne', cells_set hlt, if_neg hne.symm, cells_eq hread]
      exact cells_append (cells_eq hread) _

/-- Insert ends, and it inserts. -/
theorem insert_spec (hk : Represents k t) (ht : t ≠ .nil) (o : Arrival F) :
    ∃ k', (∀ n, (path (· + 1) Less key o.objPos xlevel t).length ≤ n →
        k.insert n o = some (.ok (true,k'))) ∧
      Represents k' (SplitTree.insert (· + 1) Less key (o.elem k) xlevel t) := by
  obtain ⟨root,hroot⟩ : ∃ root, k.root = some root := by
    cases t with
    | nil => contradiction
    | node a l r => exact ⟨a.1,hk.rep.1⟩
  cases hslot : slot (· + 1) Less key (key (o.elem k)) xlevel t with
  | none => exact absurd (slot_eq_none hslot) ht
  | some y =>
    obtain ⟨b,j⟩ := y
    obtain ⟨heap,hattach,hrep⟩ := attach_spec hk.rep hk.distinct hslot
    refine ⟨⟨heap,k.root,none⟩,fun n hn => ?_,hrep,
      hk.distinct.insert fun a ha => (elem_lt hk.rep ha).ne⟩
    have hrep : Rep (cells (o.allocate k.heap)) none k.root t :=
      hk.rep.congr fun a ha => by
        obtain ⟨node,hread,-⟩ := read_elem hk.rep ha
        rw [cells_eq hread]
        exact cells_append (cells_eq hread) _
    have hloop := descend_loop hrep hslot (some root) hn
    rw [hroot] at hloop
    simp only [insert, hroot]
    rw [show o.objPos = key (o.elem k) from rfl, hloop, Option.map_some]
    rw [hroot] at hattach
    exact congrArg some hattach

/-- A sequence of calls, with the values they return. -/
def insertAll (fuel : ℕ) :
    List (Arrival F) → KDTree F → Option (Except Fault (List Bool × KDTree F))
  | [], k => some (.ok ([],k))
  | o::os, k =>
    match k.insert fuel o with
    | none => none
    | some (.error e) => some (.error e)
    | some (.ok (done,k')) => (insertAll fuel os k').map (·.map fun (rest,k'') => (done::rest,k''))

/-- A run keeps what one call keeps. -/
theorem insertAll_spec (os : List (Arrival F)) (hk : Represents k t) (ht : t ≠ .nil)
    (hordered : Ordered t) :
    ∃ n k' t', (∀ m, n ≤ m → insertAll m os k =
        some (.ok (List.replicate os.length true,k'))) ∧ Represents k' t' ∧ Ordered t' ∧
      ((elems t').map key).Perm ((elems t).map key ++ os.map Arrival.objPos) := by
  induction os generalizing k t with
  | nil => exact ⟨0,k,t,fun m _ => rfl,hk,hordered,by simp⟩
  | cons o os ih =>
    obtain ⟨k₁,hinsert,hk₁⟩ := insert_spec hk ht o
    obtain ⟨n,k',t',hrun,hk',hordered',hperm⟩ := ih hk₁ (by
      cases t with
      | nil => contradiction
      | node a l r =>
        simp only [SplitTree.insert]
        split <;> simp) hordered.insert
    refine ⟨max n (path (· + 1) Less key o.objPos xlevel t).length,k',t',fun m hm => ?_,hk',hordered',hperm.trans ?_⟩
    · rw [insertAll, hinsert m (by omega)]
      simp [hrun m (by omega), Except.map, List.replicate_succ]
    · calc (elems (SplitTree.insert (· + 1) Less key (o.elem k) xlevel t)).map key ++
            os.map Arrival.objPos
        _ ~ (o.elem k :: elems t).map key ++ os.map Arrival.objPos :=
          (elems_insert.map key).append_right _
        _ ~ (elems t).map key ++ o.objPos :: os.map Arrival.objPos := List.perm_middle.symm

/-- Inserting keeps the ordering and loses nothing, from a new tree on. -/
theorem inserts_ordered [Zero F] (node : Node F) (os : List (Arrival F)) :
    ∃ n k t, (∀ m, n ≤ m → insertAll m os (new node) =
        some (.ok (List.replicate os.length true,k))) ∧ Represents k t ∧ k.ParentsConsistent ∧
      Ordered t ∧ ((elems t).map key).Perm (⟨0,0,0⟩ :: os.map Arrival.objPos) := by
  obtain ⟨n,k,t,hrun,hk,hordered,hperm⟩ :=
    insertAll_spec os (represents_new node) (by simp) (by simp [Ordered, Sorted])
  exact ⟨n,k,t,hrun,hk,hk.parents,hordered,hperm⟩

end KDTree
end LastHero
