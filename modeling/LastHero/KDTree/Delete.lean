import LastHero.KDTree.Tree

/-! Delete takes a leaf out of the tree. Of a node with one child it relinks the wrong side or leaves
the child with its old parent, and a node with two children stays where it is. -/
namespace LastHero
namespace KDTree
open PointerTree SplitTree
variable {F : Type} {k k' : KDTree F} {t : BinaryTree (ℕ × Position F × ℤ)}
  {heap : List (Node F)} {up p : Option ℕ} {level : Fin 2} {pos : Position F} {idx : ℤ} {a b : ℕ}
  {node : Node F}

/-- What Delete does with a leaf below the root. -/
theorem remove_leaf (hrep : Rep (cells heap) none k.root t) (hd : Distinct t)
    {e : ℕ × Position F × ℤ} (hread : heap[e.1]? = some node)
    (hleft : node.left = none) (hright : node.right = none) {s : Search} (hhead : s.head = some e.1)
    (hside : ∃ q ∈ elems t, ∃ parent, heap[q.1]? = some parent ∧
      (if s.direction then parent.right else parent.left) = some e.1) :
    ∃ heap', remove heap k.root s = .ok (true,⟨heap',k.root,none⟩) ∧
      ∀ a ∈ elems t, a.1 ≠ e.1 → cells heap' a.1 = (cells heap a.1).map (Cell.unlink e.1) := by
  obtain ⟨q,hq,parent,hp,hlink⟩ := hside
  have hchild : parent.cell.left = some e.1 ∨ parent.cell.right = some e.1 := by
    cases hdir : s.direction with
    | false =>
      rw [hdir] at hlink
      exact .inl hlink
    | true =>
      rw [hdir] at hlink
      exact .inr hlink
  obtain ⟨-,-,c,hc,hup⟩ := hrep.child hq (cells_eq hp) hchild
  have hup : node.parent = some q.1 := by
    rw [cells_eq hread] at hc
    cases hc
    exact hup
  refine ⟨(heap.set q.1 (parent.setChild s.direction none)).modify e.1 fun node =>
    { node with parent := none },?_,?_⟩
  · simp [remove, hhead, deref_some hread, hleft, hright, hup, deref_some hp, bind, Except.bind,
      pure, Except.pure]
  · intro a ha hne
    rw [cells_modify, if_neg hne.symm, cells_set (List.getElem?_eq_some_iff.mp hp).1]
    split
    · next heq =>
      rw [← heq, cells_eq hp, Option.map_some, setChild_cell hlink]
      rintro ⟨hl,hr⟩
      exact hd.child_ne hrep hq (cells_eq hp) hl hr
    · next hne' =>
      obtain ⟨node',hread',-⟩ := read_elem hrep ha
      have hno : ¬(node'.cell.left = some e.1 ∨ node'.cell.right = some e.1) := by
        intro hchild
        obtain ⟨-,-,c,hc,hup'⟩ := hrep.child ha (cells_eq hread') hchild
        rw [cells_eq hread] at hc
        cases hc
        exact hne' (Option.some.inj (hup.symm.trans hup'))
      rw [not_or] at hno
      rw [cells_eq hread', Option.map_some, Cell.unlink_of_ne hno.1 hno.2]

/-- Without a leaf at its node, Delete leaves all parent pointers as they are. -/
theorem remove_parent {s : Search} {done : Bool} (hread : heap[a]? = some node)
    (hinner : ¬(node.left = none ∧ node.right = none)) (hhead : s.head = some a)
    (h : remove heap k.root s = .ok (done,k')) :
    k'.root = k.root ∧ ∀ b : ℕ, k'.heap[b]?.map Node.parent = heap[b]?.map Node.parent := by
  have hset : ∀ (p : ℕ) (parent : Node F), heap[p]? = some parent →
      ∀ direction child, ∀ b : ℕ, (heap.set p (parent.setChild direction child))[b]?.map
        Node.parent = heap[b]?.map Node.parent := by
    intro p parent hp direction child b
    rw [List.getElem?_set]
    split
    · next heq =>
      subst heq
      rw [if_pos (List.getElem?_eq_some_iff.mp hp).1, hp]
      cases direction <;> rfl
    · rfl
  simp only [remove, hhead, deref_some hread, bind, Except.bind, pure, Except.pure, hinner,
    reduceCtorEq, if_false] at h
  split at h
  · cases hderef : deref heap node.parent with
    | error e =>
      rw [hderef] at h
      cases h
    | ok v =>
      have hset := hset v.1 v.2 (read_of_deref hderef)
      rw [hderef] at h
      dsimp only at h
      split at h
      · cases h
        exact ⟨rfl,hset _ _⟩
      · split at h
        · cases h
          exact ⟨rfl,hset _ _⟩
        · cases h
          exact ⟨rfl,fun b => rfl⟩
  · cases h
    exact ⟨rfl,fun b => rfl⟩

variable [LinearOrder F]

/-- A tree as the searches need it: ordered, with consistent parent pointers and distinct ids. -/
def WellFormed (k : KDTree F) : Prop :=
  ∃ t, Represents k t ∧ Ordered t ∧ ((elems t).map fun a => a.2.2).Nodup

/-- The nodes that a search for a position visits. -/
inductive OnPath (heap : List (Node F)) (pos : Position F) : Fin 2 → Option ℕ → ℕ → Prop
  | here (level : Fin 2) (a : ℕ) : OnPath heap pos level (some a) a
  | next {level : Fin 2} {a b : ℕ} {node : Node F} (read : heap[a]? = some node)
      (below : OnPath heap pos (level+1) (node.child level pos) b) :
      OnPath heap pos level (some a) b

/-- Exactly the node `a` is gone. -/
structure Removed (k k' : KDTree F) (a : ℕ) : Prop where
  others : ∀ b, k'.Reachable b ↔ k.Reachable b ∧ b ≠ a
  values : ∀ b, k'.Reachable b → ∃ node node', k.heap[b]? = some node ∧ k'.heap[b]? = some node' ∧
    node'.pos = node.pos ∧ node'.oid = node.oid
  wellFormed : k'.WellFormed

/-- A node that is not in the tree any more leaves no child behind. -/
theorem not_removed (hk : Represents k t) {e : ℕ × Position F × ℤ} (he : e ∈ elems t)
    (hread : k.heap[e.1]? = some node) (hinner : ¬(node.left = none ∧ node.right = none))
    (hroot : k'.root = k.root)
    (hparent : ∀ b : ℕ, k'.heap[b]?.map Node.parent = k.heap[b]?.map Node.parent) :
    ¬Removed k k' e.1 := by
  intro h
  obtain ⟨b,hb⟩ : ∃ b, node.cell.left = some b ∨ node.cell.right = some b := by
    by_contra hnone
    push Not at hnone
    exact hinner ⟨Option.eq_none_iff_forall_ne_some.mpr fun b => (hnone b).1,
      Option.eq_none_iff_forall_ne_some.mpr fun b => (hnone b).2⟩
  obtain ⟨x,hx,c,hc,hup⟩ := hk.rep.child he (cells_eq hread) hb
  have hne := hk.distinct.ne_child hk.rep he (cells_eq hread) hb
  have hreach := (h.others b).mpr ⟨hk.rep.reaches_iff.mpr ⟨x,hx⟩,hne⟩
  obtain ⟨t',hk',-⟩ := h.wellFormed
  obtain hroot' | ⟨child,q,-,hchild,hq,hgone,-⟩ := hk'.parents b hreach
  · have htop := hk.rep
    rw [← hroot, hroot'] at htop
    obtain ⟨-,-,d,hd,hnone⟩ := htop.top
    rw [hc] at hd
    cases hd
    rw [hup] at hnone
    cases hnone
  · have := hparent b
    simp only [cells, Option.map_eq_some_iff] at hc
    obtain ⟨child',hchild',rfl⟩ := hc
    rw [hchild, hchild'] at this
    simp only [Option.map_some, Option.some.injEq] at this
    have hqe : some q = some e.1 := hq.symm.trans (this.trans hup)
    cases hqe
    exact ((h.others e.1).mp hgone).2 rfl

theorem search_eq (hread : heap[a]? = some node) (direction : Bool) :
    search heap pos ⟨some a,level,direction⟩ =
      .ok ⟨node.child level pos,level+1,Less level node.pos pos⟩ := by
  simp [search, deref_some hread, bind, Except.bind, pure, Except.pure]

/-- The loop of Delete ends at the first node of the path with the id, and knows on which side of
its parent it found it. -/
theorem search_loop (h : Rep (cells heap) up p t) (idx : ℤ) (pos : Position F) (level : Fin 2)
    (direction : Bool) :
    ∃ s, (∀ n, (path (· + 1) Less key pos level t).length ≤ n →
        WhileLoop.loop (searching heap idx) (search heap pos) n ⟨p,level,direction⟩ =
          some (.ok s)) ∧
      s.head = ((path (· + 1) Less key pos level t).find? fun a => a.2.2 = idx).map Prod.fst ∧
      ∀ a, s.head = some a → p = some a ∧ s.direction = direction ∨
        ∃ q ∈ elems t, ∃ parent, heap[q.1]? = some parent ∧
          (if s.direction then parent.right else parent.left) = some a := by
  induction level, t using search_induction (· + 1) Less key pos generalizing up p direction with
  | nil =>
    obtain rfl : p = none := h
    exact ⟨_,fun n hn => WhileLoop.loop_done rfl,rfl,by simp⟩
  | node level a l r ih =>
    obtain ⟨node,rfl,hread,-,hoid,hside⟩ := read_side h level pos
    have hcond : searching heap idx ⟨some a.1,level,direction⟩ = decide (a.2.2 ≠ idx) := by
      simp [searching, hread, hoid]
    rw [path_node]
    by_cases hidx : a.2.2 = idx
    · exact ⟨_,fun n hn => WhileLoop.loop_done (by simp [hcond, hidx]),by simp [hidx],
        fun b hb => .inl ⟨hb,rfl⟩⟩
    · obtain ⟨s,hloop,hhead,hlink⟩ := ih hside (Less level node.pos pos)
      refine ⟨s,fun n hn => ?_,by simp [hidx, hhead],fun b hb => ?_⟩
      · rw [List.length_cons] at hn
        obtain ⟨n,rfl⟩ : ∃ m, n = m+1 := Nat.exists_eq_succ_of_ne_zero (by omega)
        rw [WhileLoop.loop_next (by simp [hcond, hidx]) (search_eq hread direction)]
        exact hloop n (by omega)
      · obtain ⟨hchild,hdir⟩ | ⟨q,hq,hparent⟩ := hlink b hb
        · refine .inr ⟨a,by simp,node,hread,?_⟩
          rw [hdir]
          simpa [Node.child] using hchild
        · exact .inr ⟨q,elems_side hq,hparent⟩

/-- Delete after its loop, whatever the fuel. -/
theorem delete_eq (hk : Represents k t) {root : ℕ} (hroot : k.root = some root) (idx : ℤ)
    (pos : Position F) :
    ∃ s : Search, (∀ n, (path (· + 1) Less key pos xlevel t).length ≤ n →
        k.delete n idx pos = some (remove k.heap k.root s)) ∧
      s.head = ((path (· + 1) Less key pos xlevel t).find? fun a => a.2.2 = idx).map Prod.fst ∧
      ∀ a, s.head = some a → k.root = some a ∨
        ∃ q ∈ elems t, ∃ parent, k.heap[q.1]? = some parent ∧
          (if s.direction then parent.right else parent.left) = some a := by
  obtain ⟨s,hloop,hhead,hside⟩ := search_loop hk.rep idx pos xlevel false
  refine ⟨s,fun n hn => ?_,hhead,fun a ha => (hside a ha).imp_left And.left⟩
  rw [hroot] at hloop
  simp only [delete, hroot, hloop n hn, Option.map_some]
  rfl

theorem onPath_of_mem (h : Rep (cells heap) up p t) {e : ℕ × Position F × ℤ}
    (he : e ∈ path (· + 1) Less key pos level t) : OnPath heap pos level p e.1 := by
  induction level, t using search_induction (· + 1) Less key pos generalizing up p with
  | nil => contradiction
  | node level a l r ih =>
    obtain ⟨node,rfl,hread,-,-,hside⟩ := read_side h level pos
    rw [path_node] at he
    obtain rfl | he := List.mem_cons.mp he
    · exact .here level e.1
    · exact .next hread (ih hside he)

/-- A node is found where it is stored. -/
theorem find_path (hordered : Ordered t) (hoids : ((elems t).map fun a => a.2.2).Nodup)
    {e : ℕ × Position F × ℤ} (he : e ∈ elems t) :
    (path (· + 1) Less key (key e) xlevel t).find? (fun a => a.2.2 = e.2.2) = some e := by
  cases hfind : (path (· + 1) Less key (key e) xlevel t).find? fun a => a.2.2 = e.2.2 with
  | none =>
    have := List.find?_eq_none.mp hfind e (hordered.mem_path he)
    simp at this
  | some b =>
    have hb := path_subset (List.mem_of_find?_eq_some hfind)
    have hoid := List.find?_some hfind
    rw [List.inj_on_of_nodup_map hoids hb he (by simpa using hoid)]

/-- Of the nodes below the root, Delete takes exactly the leaves out of the tree. -/
theorem removed_iff (hk : Represents k t) (hordered : Ordered t)
    (hoids : ((elems t).map fun a => a.2.2).Nodup) {e : ℕ × Position F × ℤ} (he : e ∈ elems t)
    (hroot : k.root ≠ some e.1) (hread : k.heap[e.1]? = some node) :
    (∃ n k', (∀ m, n ≤ m → k.delete m e.2.2 (key e) = some (.ok (true,k'))) ∧
        Removed k k' e.1) ↔ node.left = none ∧ node.right = none := by
  obtain ⟨root,hsome⟩ : ∃ root, k.root = some root := by
    cases t with
    | nil => contradiction
    | node a l r => exact ⟨a.1,hk.rep.1⟩
  obtain ⟨s,hdelete,hhead,hside⟩ := delete_eq hk hsome e.2.2 (key e)
  rw [find_path hordered hoids he, Option.map_some] at hhead
  have hside := (hside e.1 hhead).resolve_left hroot
  constructor
  · rintro ⟨n,k',hdone,hremoved⟩
    by_contra hinner
    have hresult := (hdelete _ (le_max_right n _)).symm.trans (hdone _ (le_max_left n _))
    obtain ⟨hroot',hparent⟩ :=
      remove_parent hread hinner hhead (Option.some.inj hresult)
    exact not_removed hk he hread hinner hroot' hparent hremoved
  · rintro ⟨hleft,hright⟩
    obtain ⟨heap,hremove,hcells⟩ :=
      remove_leaf hk.rep hk.distinct hread hleft hright hhead hside
    refine ⟨(path (· + 1) Less key (key e) xlevel t).length,⟨heap,k.root,none⟩,
      fun m hm => by rw [hdelete m hm, hremove],?_⟩
    have hrep := hk.rep.cut hcells
    rw [if_neg hroot] at hrep
    have hmem : ∀ b, b ∈ elems (cut (fun a => a.1 = e.1) t) ↔ b ∈ elems t ∧ b.1 ≠ e.1 :=
      fun b => hk.rep.mem_cut (cells_eq hread) hleft hright
    refine ⟨fun b => ?_,fun b hb => ?_,_,⟨hrep,hk.distinct.cut _⟩,hordered.cut _,?_⟩
    · rw [Reachable, Reachable, hrep.reaches_iff, hk.rep.reaches_iff]
      simp only [hmem]
      exact exists_and_right
    · obtain ⟨x,hx⟩ := hrep.reaches_iff.mp hb
      obtain ⟨node',hread',hpos',hoid'⟩ := read_elem hrep hx
      obtain ⟨node,hread,hpos,hoid⟩ := read_elem hk.rep ((hmem _).mp hx).1
      exact ⟨node,node',hread,hread',hpos'.trans hpos.symm,hoid'.trans hoid.symm⟩
    · exact ((elems_cut _ t).map _).nodup hoids

/-- Off the path nothing is deleted. -/
theorem delete_missing (hk : Represents k t)
    (hmiss : ∀ a node, OnPath k.heap pos xlevel k.root a → k.heap[a]? = some node →
      node.oid ≠ idx) :
    ∃ n k', (∀ m, n ≤ m → k.delete m idx pos = some (.ok (false,k'))) ∧
      k'.heap = k.heap ∧ k'.root = k.root := by
  cases hroot : k.root with
  | none => exact ⟨0,k,fun m hm => by simp [delete, hroot],rfl,hroot⟩
  | some root =>
    obtain ⟨s,hdelete,hhead,-⟩ := delete_eq hk hroot idx pos
    have hfind : (path (· + 1) Less key pos xlevel t).find? (fun a => a.2.2 = idx) = none := by
      rw [List.find?_eq_none]
      intro e he
      obtain ⟨node,hread,-,hoid⟩ := read_elem hk.rep (path_subset he)
      simpa [hoid] using hmiss e.1 node (onPath_of_mem hk.rep he) hread
    rw [hfind, Option.map_none] at hhead
    refine ⟨(path (· + 1) Less key pos xlevel t).length,⟨k.heap,k.root,none⟩,fun m hm => ?_,rfl,
      hroot⟩
    rw [hdelete m hm]
    simp [remove, hhead, pure, Except.pure]

/-- Delete removes exactly one node when that node is a leaf, and none for an id that is not on the
path of the position. -/
theorem deletes_iff_leaf (hk : k.WellFormed) (idx : ℤ) (pos : Position F) :
    (∀ a node, k.Reachable a → k.root ≠ some a → k.heap[a]? = some node → node.oid = idx →
      node.pos = pos →
      ((∃ n k', (∀ m, n ≤ m → k.delete m idx pos = some (.ok (true,k'))) ∧ Removed k k' a) ↔
        node.left = none ∧ node.right = none)) ∧
    ((∀ a node, OnPath k.heap pos xlevel k.root a → k.heap[a]? = some node → node.oid ≠ idx) →
      ∃ n k', (∀ m, n ≤ m → k.delete m idx pos = some (.ok (false,k'))) ∧
        k'.heap = k.heap ∧ k'.root = k.root) := by
  obtain ⟨t,hk,hordered,hoids⟩ := hk
  refine ⟨fun a node hreach hroot hread hoid hpos => ?_,delete_missing hk⟩
  obtain ⟨x,hx⟩ := hk.rep.reaches_iff.mp hreach
  obtain ⟨node',hread',hpos',hoid'⟩ := read_elem hk.rep hx
  rw [hread] at hread'
  cases hread'
  have := removed_iff hk hordered hoids hx hroot hread
  rwa [← hpos', ← hoid', hpos, hoid] at this

section chain

/-- The root with two nodes on the right below it. -/
def chain : KDTree ℚ where
  heap := [⟨⟨0,0,0⟩,0,none,some 1,none⟩,⟨⟨5,0,0⟩,1,none,some 2,some 0⟩,⟨⟨6,3,0⟩,2,none,none,some 1⟩]
  root := some 0
  head := none

def chainTree : BinaryTree (ℕ × Position ℚ × ℤ) :=
  .node (0,⟨0,0,0⟩,0) .nil (.node (1,⟨5,0,0⟩,1) .nil (.node (2,⟨6,3,0⟩,2) .nil .nil))

theorem chain_represents : Represents chain chainTree :=
  ⟨⟨rfl,none,some 1,rfl,rfl,rfl,none,some 2,rfl,rfl,rfl,none,none,rfl,rfl,rfl⟩,by
    simp [Distinct, chainTree, elems]⟩

theorem chain_ordered : Ordered chainTree := by
  simp [chainTree, Sorted, elems, Less, axis, key, xlevel]

theorem chain_reachable {a : ℕ} (ha : ∃ x, (a,x) ∈ elems chainTree) : chain.Reachable a :=
  chain_represents.rep.reaches_iff.mpr ha

theorem chain_wellFormed : chain.WellFormed :=
  ⟨chainTree,chain_represents,chain_ordered,by simp [chainTree, elems]⟩

/-- The last node of the chain can be deleted. -/
theorem chain_end_deleted : ∃ n k', (∀ m, n ≤ m →
    chain.delete m 2 ⟨6,3,0⟩ = some (.ok (true,k'))) ∧ Removed chain k' 2 :=
  ((deletes_iff_leaf chain_wellFormed 2 ⟨6,3,0⟩).1 2 _
    (chain_reachable ⟨(⟨6,3,0⟩,2),by simp [chainTree, elems]⟩) (by simp [chain]) rfl rfl
    rfl).mpr ⟨rfl,rfl⟩

/-- The node before it cannot: the last one would be lost with it. -/
theorem chain_inner_not_deleted : chain.WellFormed ∧ chain.Reachable 1 ∧ chain.root ≠ some 1 ∧
    chain.heap[1]? = some ⟨⟨5,0,0⟩,1,none,some 2,some 0⟩ ∧
    ¬∃ n k', (∀ m, n ≤ m → chain.delete m 1 ⟨5,0,0⟩ = some (.ok (true,k'))) ∧
      Removed chain k' 1 := by
  have hmem : (1,⟨5,0,0⟩,1) ∈ elems chainTree := by simp [chainTree, elems]
  refine ⟨chain_wellFormed,chain_reachable ⟨_,hmem⟩,by simp [chain],rfl,fun h => ?_⟩
  have hleaf := (removed_iff chain_represents chain_ordered (by simp [chainTree, elems]) hmem
    (by simp [chain]) rfl).mp h
  cases hleaf.2

end chain
end KDTree
end LastHero
