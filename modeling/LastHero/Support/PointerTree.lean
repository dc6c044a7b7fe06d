import LastHero.Support.SplitTree

/-! Trees in memory: nodes that hold pointers to their children and to their parent. A tree of the
places and their values stands for what is reachable. -/
namespace PointerTree
open SplitTree
variable {P α : Type*}

structure Cell (P α : Type*) where
  val : α
  left : Option P
  right : Option P
  parent : Option P

/-- What can be reached from a pointer through the children. -/
inductive Reaches (cells : P → Option (Cell P α)) : Option P → P → Prop
  | here (a : P) : Reaches cells (some a) a
  | left {a b : P} {c : Cell P α} (read : cells a = some c) (below : Reaches cells c.left b) :
      Reaches cells (some a) b
  | right {a b : P} {c : Cell P α} (read : cells a = some c) (below : Reaches cells c.right b) :
      Reaches cells (some a) b

/-- The tree below the pointer `p`; every node is a child of its parent pointer, `up` at the top. -/
def Rep (cells : P → Option (Cell P α)) : Option P → Option P → BinaryTree (P × α) → Prop
  | _, p, .nil => p = none
  | up, p, .node a l r => p = some a.1 ∧ ∃ left right, cells a.1 = some ⟨a.2,left,right,up⟩ ∧
      Rep cells (some a.1) left l ∧ Rep cells (some a.1) right r

/-- No place is in the tree twice. -/
def Distinct (t : BinaryTree (P × α)) : Prop := ((elems t).map Prod.fst).Nodup

variable {cells cells' : P → Option (Cell P α)} {up p : Option P} {t l r : BinaryTree (P × α)}
  {a b : P × α} {c d : Cell P α} {q : P}

theorem Rep.congr (h : Rep cells up p t) (heq : ∀ a ∈ elems t, cells' a.1 = cells a.1) :
    Rep cells' up p t := by
  induction t generalizing up p with
  | nil => exact h
  | node a l r ihl ihr =>
    obtain ⟨hp,left,right,hcell,hl,hr⟩ := h
    refine ⟨hp,left,right,?_,ihl hl fun b hb => heq b ?_,ihr hr fun b hb => heq b ?_⟩
    · rw [heq a (by simp), hcell]
    · simp [hb]
    · simp [hb]

theorem rep_none (h : Rep cells up none t) : t = .nil := by
  cases t with
  | nil => rfl
  | node a l r => cases h.1

theorem Rep.top (h : Rep cells up (some q) t) :
    ∃ x, (q,x) ∈ elems t ∧ ∃ c, cells q = some c ∧ c.parent = up := by
  cases t with
  | nil => cases h
  | node a l r =>
    obtain ⟨hp,left,right,hcell,-⟩ := h
    obtain rfl : q = a.1 := Option.some.inj hp
    exact ⟨a.2,by simp,_,hcell,rfl⟩

/-- The nodes of the tree are in memory, each but the top one a child of its parent pointer. -/
theorem Rep.cell (h : Rep cells up p t) (ha : a ∈ elems t) :
    ∃ c, cells a.1 = some c ∧ c.val = a.2 ∧
      (c.parent = up ∧ p = some a.1 ∨ ∃ b ∈ elems t, c.parent = some b.1 ∧
        ∃ d, cells b.1 = some d ∧ (d.left = some a.1 ∨ d.right = some a.1)) := by
  induction t generalizing up p with
  | nil => contradiction
  | node e l r ihl ihr =>
    obtain ⟨hp,left,right,hcell,hl,hr⟩ := h
    obtain rfl | ha | ha := mem_elems_node.mp ha
    · exact ⟨_,hcell,rfl,.inl ⟨rfl,hp⟩⟩
    · obtain ⟨c,hc,hval,⟨hparent,hlink⟩ | ⟨b,hb,hlink⟩⟩ := ihl hl ha
      · exact ⟨c,hc,hval,.inr ⟨e,by simp,hparent,_,hcell,.inl hlink⟩⟩
      · exact ⟨c,hc,hval,.inr ⟨b,by simp [hb],hlink⟩⟩
    · obtain ⟨c,hc,hval,⟨hparent,hlink⟩ | ⟨b,hb,hlink⟩⟩ := ihr hr ha
      · exact ⟨c,hc,hval,.inr ⟨e,by simp,hparent,_,hcell,.inr hlink⟩⟩
      · exact ⟨c,hc,hval,.inr ⟨b,by simp [hb],hlink⟩⟩

/-- Every node of the tree has its own tree below it. -/
theorem Rep.below (h : Rep cells up p t) (ha : a ∈ elems t) (hc : cells a.1 = some c) :
    ∃ l r, Rep cells (some a.1) c.left l ∧ Rep cells (some a.1) c.right r ∧
      (elems (.node a l r)).Sublist (elems t) := by
  induction t generalizing up p with
  | nil => contradiction
  | node e l r ihl ihr =>
    obtain ⟨hp,left,right,hcell,hl,hr⟩ := h
    obtain rfl | ha | ha := mem_elems_node.mp ha
    · obtain rfl := Option.some.inj (hc.symm.trans hcell)
      exact ⟨l,r,hl,hr,List.Sublist.refl _⟩
    · obtain ⟨l',r',hl',hr',hsub⟩ := ihl hl ha
      refine ⟨l',r',hl',hr',hsub.trans ?_⟩
      exact (List.sublist_append_left _ _).cons e
    · obtain ⟨l',r',hl',hr',hsub⟩ := ihr hr ha
      refine ⟨l',r',hl',hr',hsub.trans ?_⟩
      exact (List.sublist_append_right _ _).cons e

/-- The children of a node have it as their parent. -/
theorem Rep.child (h : Rep cells up p t) (ha : a ∈ elems t) (hc : cells a.1 = some c)
    (hq : c.left = some q ∨ c.right = some q) :
    ∃ x, (q,x) ∈ elems t ∧ ∃ d, cells q = some d ∧ d.parent = some a.1 := by
  obtain ⟨l,r,hl,hr,hsub⟩ := h.below ha hc
  obtain hq | hq := hq
  · rw [hq] at hl
    obtain ⟨x,hx,hread⟩ := hl.top
    exact ⟨x,hsub.subset (by simp [hx]),hread⟩
  · rw [hq] at hr
    obtain ⟨x,hx,hread⟩ := hr.top
    exact ⟨x,hsub.subset (by simp [hx]),hread⟩

theorem Rep.reaches_iff (h : Rep cells up p t) : Reaches cells p q ↔ ∃ x, (q,x) ∈ elems t := by
  constructor
  · intro hreach
    induction hreach generalizing up t with
    | here a =>
      obtain ⟨x,hx,-⟩ := h.top
      exact ⟨x,hx⟩
    | left hread _ ih =>
      cases t with
      | nil => cases h
      | node a l r =>
        obtain ⟨hp,left,right,hcell,hl,hr⟩ := h
        cases hp
        obtain rfl := Option.some.inj (hread.symm.trans hcell)
        obtain ⟨x,hx⟩ := ih hl
        exact ⟨x,by simp [hx]⟩
    | right hread _ ih =>
      cases t with
      | nil => cases h
      | node a l r =>
        obtain ⟨hp,left,right,hcell,hl,hr⟩ := h
        cases hp
        obtain rfl := Option.some.inj (hread.symm.trans hcell)
        obtain ⟨x,hx⟩ := ih hr
        exact ⟨x,by simp [hx]⟩
  · rintro ⟨x,hx⟩
    induction t generalizing up p with
    | nil => contradiction
    | node a l r ihl ihr =>
      obtain ⟨rfl,left,right,hcell,hl,hr⟩ := h
      obtain rfl | hx | hx := mem_elems_node.mp hx
      · exact .here q
      · exact .left hcell (ihl hl hx)
      · exact .right hcell (ihr hr hx)

theorem distinct_node : Distinct (.node a l r) ↔
    (∀ b ∈ elems l, b.1 ≠ a.1) ∧ (∀ b ∈ elems r, b.1 ≠ a.1) ∧
      (∀ b ∈ elems l, ∀ e ∈ elems r, b.1 ≠ e.1) ∧ Distinct l ∧ Distinct r := by
  simp only [Distinct, elems, List.map_cons, List.map_append, List.nodup_cons, List.nodup_append]
  constructor
  · rintro ⟨ha,hl,hr,hlr⟩
    refine ⟨fun b hb heq => ha ?_,fun b hb heq => ha ?_,fun b hb e he => ?_,hl,hr⟩
    · exact List.mem_append_left _ (List.mem_map.mpr ⟨b,hb,heq⟩)
    · exact List.mem_append_right _ (List.mem_map.mpr ⟨b,hb,heq⟩)
    · exact hlr _ (List.mem_map_of_mem hb) _ (List.mem_map_of_mem he)
  · rintro ⟨hla,hra,hlr,hl,hr⟩
    refine ⟨fun ha => ?_,hl,hr,fun x hx y hy => ?_⟩
    · obtain ha | ha := List.mem_append.mp ha
      · obtain ⟨b,hb,heq⟩ := List.mem_map.mp ha
        exact hla b hb heq
      · obtain ⟨b,hb,heq⟩ := List.mem_map.mp ha
        exact hra b hb heq
    · obtain ⟨b,hb,rfl⟩ := List.mem_map.mp hx
      obtain ⟨e,he,rfl⟩ := List.mem_map.mp hy
      exact hlr b hb e he

theorem Distinct.sublist (hd : Distinct t) (h : (elems l).Sublist (elems t)) : Distinct l :=
  List.Nodup.sublist (h.map Prod.fst) hd

theorem Distinct.child_ne (hd : Distinct t) (h : Rep cells up p t) (ha : a ∈ elems t)
    (hc : cells a.1 = some c) (hleft : c.left = some q) : c.right ≠ some q := by
  obtain ⟨l,r,hl,hr,hsub⟩ := h.below ha hc
  obtain ⟨-,-,hlr,-⟩ := distinct_node.mp (hd.sublist hsub)
  intro hright
  rw [hleft] at hl
  rw [hright] at hr
  obtain ⟨x,hx,-⟩ := hl.top
  obtain ⟨y,hy,-⟩ := hr.top
  exact hlr (q,x) hx (q,y) hy rfl

theorem Distinct.ne_child (hd : Distinct t) (h : Rep cells up p t) (ha : a ∈ elems t)
    (hc : cells a.1 = some c) (hq : c.left = some q ∨ c.right = some q) : q ≠ a.1 := by
  obtain ⟨l,r,hl,hr,hsub⟩ := h.below ha hc
  obtain ⟨hla,hra,-⟩ := distinct_node.mp (hd.sublist hsub)
  obtain hq | hq := hq
  · rw [hq] at hl
    obtain ⟨x,hx,-⟩ := hl.top
    exact hla (q,x) hx
  · rw [hq] at hr
    obtain ⟨x,hx,-⟩ := hr.top
    exact hra (q,x) hx

theorem Distinct.cut (hd : Distinct t) (f : P × α → Bool) : Distinct (SplitTree.cut f t) :=
  ((elems_cut f t).map Prod.fst).nodup hd

section insert
variable {ι κ : Type*} {next : ι → ι} {less : ι → κ → κ → Prop} [∀ i, DecidableRel (less i)]
  {key : P × α → κ} {i j : ι} {x : P × α}

/-- A new leaf, linked from the node where the search for it ended. -/
theorem Rep.insert (h : Rep cells up p t) (hd : Distinct t)
    (hslot : slot next less key (key x) i t = some (b,j))
    (hnew : cells' x.1 = some ⟨x.2,none,none,some b.1⟩)
    (hlink : cells' b.1 = (cells b.1).map fun c =>
      if less j (key b) (key x) then { c with right := some x.1 } else { c with left := some x.1 })
    (hframe : ∀ a ∈ elems t, a.1 ≠ b.1 → cells' a.1 = cells a.1) :
    Rep cells' up p (insert next less key x i t) := by
  induction t generalizing up p i with
  | nil => cases hslot
  | node a l r ihl ihr =>
    obtain ⟨rfl,left,right,hcell,hl,hr⟩ := h
    obtain ⟨hla,hra,hlr,hdl,hdr⟩ := distinct_node.mp hd
    simp only [slot, Option.or_eq_some_iff] at hslot
    simp only [SplitTree.insert]
    split
    · next hless =>
      rw [if_pos hless] at hslot
      obtain hslot | ⟨hnone,hslot⟩ := hslot
      · have hb := slot_mem hslot
        refine ⟨rfl,left,right,?_,?_,?_⟩
        · rw [hframe a (by simp) (hra b hb).symm, hcell]
        · exact hl.congr fun e he => hframe e (by simp [he]) (hlr e he b hb)
        · exact ihr hr hdr hslot fun e he => hframe e (by simp [he])
      · cases hslot
        obtain rfl := slot_eq_none hnone
        refine ⟨rfl,left,some x.1,?_,?_,rfl,none,none,hnew,rfl,rfl⟩
        · rw [hlink, hcell, Option.map_some, if_pos hless]
        · exact hl.congr fun e he => hframe e (by simp [he]) (hla e he)
    · next hless =>
      rw [if_neg hless] at hslot
      obtain hslot | ⟨hnone,hslot⟩ := hslot
      · have hb := slot_mem hslot
        refine ⟨rfl,left,right,?_,?_,?_⟩
        · rw [hframe a (by simp) (hla b hb).symm, hcell]
        · exact ihl hl hdl hslot fun e he => hframe e (by simp [he])
        · exact hr.congr fun e he => hframe e (by simp [he]) (hlr b hb e he).symm
      · cases hslot
        obtain rfl := slot_eq_none hnone
        refine ⟨rfl,some x.1,right,?_,⟨rfl,none,none,hnew,rfl,rfl⟩,?_⟩
        · rw [hlink, hcell, Option.map_some, if_neg hless]
        · exact hr.congr fun e he => hframe e (by simp [he]) (hra e he)

theorem Distinct.insert (hd : Distinct t) (hx : ∀ a ∈ elems t, a.1 ≠ x.1) :
    Distinct (insert next less key x i t) := by
  rw [Distinct, (elems_insert.map Prod.fst).nodup_iff, List.map_cons, List.nodup_cons]
  refine ⟨fun hmem => ?_,hd⟩
  obtain ⟨a,ha,heq⟩ := List.mem_map.mp hmem
  exact hx a ha heq

end insert

section cut
variable [DecidableEq P]

/-- The cell without its pointer to `q`. -/
def Cell.unlink (q : P) (c : Cell P α) : Cell P α :=
  { c with
    left := if c.left = some q then none else c.left
    right := if c.right = some q then none else c.right }

theorem Cell.unlink_of_ne (hleft : c.left ≠ some q) (hright : c.right ≠ some q) :
    c.unlink q = c := by
  simp [Cell.unlink, hleft, hright]

theorem Rep.cut (h : Rep cells up p t)
    (hcells : ∀ a ∈ elems t, a.1 ≠ q → cells' a.1 = (cells a.1).map (Cell.unlink q)) :
    Rep cells' up (if p = some q then none else p) (cut (fun a => a.1 = q) t) := by
  induction t generalizing up p with
  | nil =>
    obtain rfl : p = none := h
    simp [SplitTree.cut, Rep]
  | node a l r ihl ihr =>
    obtain ⟨rfl,left,right,hcell,hl,hr⟩ := h
    by_cases ha : a.1 = q
    · simp [SplitTree.cut, ha, Rep]
    · have hl := ihl hl fun b hb => hcells b (by simp [hb])
      have hr := ihr hr fun b hb => hcells b (by simp [hb])
      have hcell' := hcells a (by simp) ha
      rw [hcell] at hcell'
      simp only [SplitTree.cut, ha, decide_false, Bool.false_eq_true, if_false, Option.some.injEq]
      exact ⟨rfl,_,_,hcell',hl,hr⟩

/-- Cutting a leaf takes one node away. -/
theorem Rep.mem_cut (h : Rep cells up p t) (hq : cells q = some c) (hleft : c.left = none)
    (hright : c.right = none) :
    b ∈ elems (SplitTree.cut (fun a => a.1 = q) t) ↔ b ∈ elems t ∧ b.1 ≠ q := by
  induction t generalizing up p with
  | nil => simp [SplitTree.cut]
  | node a l r ihl ihr =>
    obtain ⟨hp,left,right,hcell,hl,hr⟩ := h
    by_cases ha : a.1 = q
    · rw [ha, hq] at hcell
      cases hcell
      obtain rfl : left = none := hleft
      obtain rfl : right = none := hright
      obtain rfl := rep_none hl
      obtain rfl := rep_none hr
      simp only [SplitTree.cut, ha, decide_true, if_true, elems_nil, mem_elems_node]
      constructor
      · simp
      · rintro ⟨rfl | hb | hb,hne⟩
        · exact absurd ha hne
        · exact hb
        · exact hb
    · simp only [SplitTree.cut, ha, decide_false, Bool.false_eq_true, if_false, mem_elems_node,
        ihl hl, ihr hr]
      constructor
      · rintro (rfl | hb | hb)
        · exact ⟨.inl rfl,ha⟩
        · exact ⟨.inr (.inl hb.1),hb.2⟩
        · exact ⟨.inr (.inr hb.1),hb.2⟩
      · rintro ⟨rfl | hb | hb,hne⟩
        · exact .inl rfl
        · exact .inr (.inl ⟨hb,hne⟩)
        · exact .inr (.inr ⟨hb,hne⟩)

end cut
end PointerTree
