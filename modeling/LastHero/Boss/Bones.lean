import LastHero.Boss.Limbs

/-! The bookkeeping of the limbs: the hit counts of BoneMap, the flags of isDestroy and the news of
broken bones stay in step in every run. -/
namespace LastHero
variable {F : Type}

/-- The index in BoneMap. -/
def Part.index : Part → ℕ
  | .rHand => 0
  | .rForearm => 1
  | .rUpperarm => 2
  | .rFoot => 3
  | .rCalf => 4
  | .rThigh => 5
  | .lHand => 6
  | .lForearm => 7
  | .lUpperarm => 8
  | .lFoot => 9
  | .lCalf => 10
  | .lThigh => 11

theorem Part.index_lt (p : Part) : p.index < 12 := by cases p <;> decide

theorem Part.exists_index (i : Fin 12) : ∃ p : Part, ⟨p.index,p.index_lt⟩ = i := by
  fin_cases i
  exacts [⟨.rHand,rfl⟩,⟨.rForearm,rfl⟩,⟨.rUpperarm,rfl⟩,⟨.rFoot,rfl⟩,⟨.rCalf,rfl⟩,⟨.rThigh,rfl⟩,
    ⟨.lHand,rfl⟩,⟨.lForearm,rfl⟩,⟨.lUpperarm,rfl⟩,⟨.lFoot,rfl⟩,⟨.lCalf,rfl⟩,⟨.lThigh,rfl⟩]

/-- The order of the loop over BoneMap. -/
def Part.all : List Part := boneParts.map Prod.fst

theorem Part.mem_all (p : Part) : p ∈ Part.all := by cases p <;> decide

theorem Part.nodup_all : Part.all.Nodup := by decide

theorem boneParts_eq : boneParts = Part.all.map fun p => (p,p.index) := by decide

/-- The books of a part: its hits left, its hit points, its flag, and who was told of its end. -/
structure Books where
  left : ℤ
  healthPoint : ℤ
  isDestroyed : Bool
  news : List Slot

/-- The books agree, and the hits are at most those of the beginning. -/
structure Books.Sound (most : ℤ) (k : Books) : Prop where
  nonneg : 0 ≤ k.left
  le : k.left ≤ most
  destroyed : k.isDestroyed = true ↔ k.left = 0
  healthPoint : k.healthPoint ≤ 0 → k.isDestroyed = true

/-- What a step does to a part in front of an audience. -/
inductive Wears (audience : List Slot) : Books → Books → Prop
  | keep (k : Books) : Wears audience k k
  | hurt (k : Books) (h : 1 < k.left) : Wears audience k { k with left := k.left-1 }
  | broken (k : Books) (h : k.left = 1) : Wears audience k ⟨0,0,true,k.news ++ audience⟩

theorem Wears.sound {audience : List Slot} {most : ℤ} {k k' : Books} (h : Wears audience k k')
    (hk : k.Sound most) : k'.Sound most := by
  cases h with
  | keep => exact hk
  | hurt hleft =>
    have hle := hk.le
    have hflag : k.isDestroyed ≠ true := by
      rw [Ne, hk.destroyed]
      omega
    exact ⟨by dsimp only; omega,by dsimp only; omega,iff_of_false hflag (by dsimp only; omega),
      hk.healthPoint⟩
  | broken hleft => exact ⟨le_rfl,hk.nonneg.trans hk.le,by simp,fun _ => rfl⟩

/-- A part loses at most one hit. -/
theorem Wears.left {audience : List Slot} {k k' : Books} (h : Wears audience k k') :
    k'.left = k.left ∨ k'.left = k.left-1 := by
  cases h with
  | keep => exact Or.inl rfl
  | hurt => exact Or.inr rfl
  | broken hleft => exact Or.inr (by rw [hleft]; rfl)

namespace World
variable {w w' : World F} {b b' : Boss F} {p : Part}

def books (b : Boss F) (p : Part) (w : World F) : Books :=
  ⟨b.boneMap p,b.healthPoint.part p,b.isDestroy.part p,w.breakNews p⟩

/-- The boss of a world and its books, in front of the same players. -/
def partView (w : World F) (p : Part) : List Slot × Option Books :=
  (w.connected,w.boss.map fun b => w.books b p)

/-- The iteration of BoneMapUpdate for a part. -/
def boneStep (newBoneMap : ℕ → ℤ) (w : World F) (p : Part) : World F :=
  bonePart newBoneMap w (p,p.index)

theorem boneMapUpdate_eq (newBoneMap : ℕ → ℤ) (w : World F) :
    w.boneMapUpdate newBoneMap = Part.all.foldl (boneStep newBoneMap) w := by
  rw [boneMapUpdate, boneParts_eq, List.foldl_map]
  rfl

/-- What an iteration does to the boss, and whom it tells. -/
theorem boneStep_spec (newBoneMap : ℕ → ℤ) (hb : w.boss = some b) (p : Part) :
    boneStep newBoneMap w p = w ∨
      (1 < b.boneMap p ∧ boneStep newBoneMap w p =
        w.setBoss { b with boneMap := Function.update b.boneMap p (b.boneMap p-1) }) ∨
      (b.boneMap p = 1 ∧ boneStep newBoneMap w p =
        (w.setBoss (({ b with boneMap := Function.update b.boneMap p 0 } : Boss F).boneBreak
          p)).broadcast (.scBoneBreak bossIdx p)) := by
  simp only [boneStep, bonePart]
  rw [hb]
  dsimp only
  split_ifs with hhit hleft
  · have hone : b.boneMap p = 1 := by omega
    right
    right
    rw [hone]
    exact ⟨rfl,rfl⟩
  · exact Or.inr (Or.inl ⟨by omega,rfl⟩)
  · exact Or.inl rfl

@[simp] theorem setBoss_breakNews (b : Boss F) (p : Part) (w : World F) :
    (w.setBoss b).breakNews p = w.breakNews p := rfl

@[simp] theorem setBoss_connected (b : Boss F) (w : World F) :
    (w.setBoss b).connected = w.connected := rfl

theorem boneStep_none (newBoneMap : ℕ → ℤ) (hb : w.boss = none) (p : Part) :
    boneStep newBoneMap w p = w := by
  simp only [boneStep, bonePart]
  rw [hb]

theorem broadcast_breakNews (p q : Part) (w : World F) :
    (w.broadcast (.scBoneBreak bossIdx p)).breakNews q =
      w.breakNews q ++ if p = q then w.connected else [] := by
  simp only [World.breakNews, broadcast, sendTo]
  rw [List.filterMap_append, List.filterMap_map]
  congr 1
  split_ifs with hpq
  · simp [Act.breaks, hpq]
  · simp [Act.breaks, hpq]

/-- An iteration touches the books of its own part only. -/
theorem boneStep_local (newBoneMap : ℕ → ℤ) :
    KeyedFold.Local (boneStep newBoneMap) (partView (F := F)) := by
  intro w p q hpq
  cases hb : w.boss with
  | none => rw [boneStep_none newBoneMap hb]
  | some b =>
    obtain h | ⟨-,h⟩ | ⟨-,h⟩ := boneStep_spec newBoneMap hb p
    · rw [h]
    · rw [h]
      simp only [partView]
      rw [hb]
      refine Prod.ext rfl (congrArg some ?_)
      simp only [books, Function.update_of_ne (Ne.symm hpq)]
      rfl
    · rw [h]
      simp only [partView]
      rw [hb]
      refine Prod.ext rfl (congrArg some ?_)
      simp only [books, Boss.boneBreak, Function.update_of_ne (Ne.symm hpq), broadcast_breakNews,
        if_neg hpq, List.append_nil]
      rfl

/-- The books before and after, for the players of a world. -/
def Worn (x y : List Slot × Option Books) : Prop :=
  y.1 = x.1 ∧ ∀ k, x.2 = some k → ∃ k', y.2 = some k' ∧ Wears x.1 k k'

theorem boneStep_own (newBoneMap : ℕ → ℤ) (w : World F) (p : Part) :
    Worn (w.partView p) ((boneStep newBoneMap w p).partView p) := by
  cases hb : w.boss with
  | none =>
    rw [boneStep_none newBoneMap hb]
    exact ⟨rfl,fun k hk => ⟨k,hk,.keep k⟩⟩
  | some b =>
    have hview : (w.partView p).2 = some (w.books b p) := by rw [partView, hb]; rfl
    refine ⟨?_,fun k hk => ?_⟩
    · obtain h | ⟨-,h⟩ | ⟨-,h⟩ := boneStep_spec newBoneMap hb p
      · rw [h]
      · rw [h]
        rfl
      · rw [h]
        rfl
    · cases hview.symm.trans hk
      obtain h | ⟨hleft,h⟩ | ⟨hleft,h⟩ := boneStep_spec newBoneMap hb p
      · rw [h]
        exact ⟨_,hview,.keep _⟩
      · rw [h]
        refine ⟨_,rfl,?_⟩
        have hhurt : Wears w.connected (w.books b p) _ := .hurt (w.books b p) hleft
        simpa [books, partView] using hhurt
      · rw [h]
        refine ⟨_,rfl,?_⟩
        have hbroken : Wears w.connected (w.books b p) _ := .broken (w.books b p) hleft
        simpa [books, partView, Boss.boneBreak, broadcast_breakNews] using hbroken

/-- What a BoneMapUpdate does to every part. -/
theorem boneMapUpdate_worn (newBoneMap : ℕ → ℤ) (w : World F) (p : Part) :
    Worn (w.partView p) ((w.boneMapUpdate newBoneMap).partView p) := by
  rw [boneMapUpdate_eq]
  exact (boneStep_local newBoneMap).foldl_of_mem (fun w => boneStep_own newBoneMap w p)
    Part.nodup_all p.mem_all w

/-- The head has no part in BoneMap. -/
theorem boneMapUpdate_head (newBoneMap : ℕ → ℤ) (w : World F) :
    (w.boneMapUpdate newBoneMap).boss.map (fun b => (b.isDestroy.head,b.healthPoint.head)) =
      w.boss.map fun b => (b.isDestroy.head,b.healthPoint.head) := by
  rw [boneMapUpdate_eq]
  refine KeyedFold.foldl_related
    (R := fun w w' : World F => w'.boss.map (fun b => (b.isDestroy.head,b.healthPoint.head)) =
      w.boss.map fun b => (b.isDestroy.head,b.healthPoint.head))
    (fun _ => rfl) (fun h h' => h'.trans h) (fun w p => ?_) Part.all w
  cases hb : w.boss with
  | none => rw [boneStep_none newBoneMap hb, hb]
  | some b =>
    obtain h | ⟨-,h⟩ | ⟨-,h⟩ := boneStep_spec newBoneMap hb p
    · rw [h, hb]
    · rw [h]
      rfl
    · rw [h]
      rfl

/-- A hit count after a BoneMapUpdate with the count of a client. -/
def oneHit (m c : ℤ) : ℤ := if m < c ∧ 0 < c then c-1 else c

theorem oneHit_inj {m m' : ℤ} (hm : 0 ≤ m) (hm' : 0 ≤ m') (h : ∀ c, oneHit m c = oneHit m' c) :
    m = m' := by
  have hle := h (m+1)
  have hle' := h (m'+1)
  unfold oneHit at hle hle'
  split_ifs at hle hle' <;> omega

theorem boneMapUpdate_count (newBoneMap : ℕ → ℤ) (w : World F) (p : Part) :
    (w.boneMapUpdate newBoneMap).boss.map (·.boneMap p) =
      (w.boss.map (·.boneMap p)).map (oneHit (newBoneMap p.index)) := by
  have hlocal : KeyedFold.Local (boneStep newBoneMap)
      (fun (w : World F) p => w.boss.map (·.boneMap p)) := by
    intro w p q hpq
    have hview := congrArg (fun v : List Slot × Option Books => v.2.map Books.left)
      (boneStep_local newBoneMap w p q hpq)
    simpa [partView, books, Function.comp_def] using hview
  have hown : ∀ w : World F, (boneStep newBoneMap w p).boss.map (·.boneMap p) =
      (w.boss.map (·.boneMap p)).map (oneHit (newBoneMap p.index)) := by
    intro w
    simp only [boneStep, bonePart]
    cases hb : w.boss with
    | none => simp [hb]
    | some b =>
      dsimp only
      split_ifs with hhit hleft
      · simp [broadcast, sendTo, setBoss, Boss.boneBreak, oneHit, hhit]
      · simp [setBoss, oneHit, hhit]
      · simp [hb, oneHit, hhit]
  rw [boneMapUpdate_eq]
  exact hlocal.foldl_of_mem (R := fun o o' => o' = o.map (oneHit (newBoneMap p.index))) hown
    Part.nodup_all p.mem_all w

/-- Only the counts above zero matter. -/
theorem boneMapUpdate_congr {m m' : ℕ → ℤ} (h : ∀ i < 12, max (m i) 0 = max (m' i) 0)
    (w : World F) : w.boneMapUpdate m = w.boneMapUpdate m' := by
  have hindex : ∀ part ∈ boneParts, part.2 < 12 := by decide
  have hpart : ∀ part : Part × ℕ, part.2 < 12 → ∀ w : World F,
      bonePart m w part = bonePart m' w part := by
    intro part hlt w
    have hmax := h part.2 hlt
    have hhit : ∀ c : ℤ, m part.2 < c ∧ 0 < c ↔ m' part.2 < c ∧ 0 < c := by
      intro c
      omega
    simp only [bonePart]
    simp only [hhit]
  simp only [boneMapUpdate]
  exact List.foldl_ext _ _ w fun w part hmem => hpart part (hindex part hmem) w

section Steps
variable [FloatArith F] {getPath : ℤ × ℤ → ℤ × ℤ → List (ℤ × ℤ)}

/-- The books of all parts, from those of Initialize on; the head is whole. -/
structure Kept (b : Boss F) (w : World F) : Prop where
  boss : w.boss = some b
  part : ∀ p, (w.books b p).Sound ((Boss.initializeBoss : Boss F).boneMap p)
  head : b.isDestroy.head = false
  headHP : 0 < b.healthPoint.head

theorem kept_initializeBoss (w : World F) :
    Kept Boss.initializeBoss (w.setBoss Boss.initializeBoss) := by
  refine ⟨rfl,fun p => ?_,rfl,by simp [Boss.initializeBoss]⟩
  have hrange : 0 < (Boss.initializeBoss : Boss F).boneMap p := by
    cases p <;> simp [Boss.initializeBoss]
  exact ⟨hrange.le,le_rfl,iff_of_false (by simp [books, Boss.initializeBoss]) hrange.ne',
    fun hle => absurd hle (by simp [books, Boss.initializeBoss])⟩

/-- The flags agree with the hit points already. -/
theorem Kept.isPartDestroyed (hk : Kept b w) : b.isPartDestroyed.isDestroy = b.isDestroy := by
  have hpart : ∀ p, (b.isDestroy.part p || decide (b.healthPoint.part p ≤ 0)) =
      b.isDestroy.part p := by
    intro p
    rw [Bool.or_eq_left_iff_imp, decide_eq_true_eq]
    exact (hk.part p).healthPoint
  have hparts : b.isPartDestroyed.isDestroy.part = b.isDestroy.part := by
    funext p
    cases p <;> simp only [Boss.isPartDestroyed, hpart]
  have hhead : (b.isDestroy.head || decide (b.healthPoint.head ≤ 0)) = b.isDestroy.head := by
    rw [Bool.or_eq_left_iff_imp, decide_eq_true_eq]
    exact fun hle => absurd hk.headHP (not_lt.mpr hle)
  exact congrArg₂ IsDestroy.mk hhead hparts

/-- A step that leaves the limbs and tells nobody. -/
theorem Kept.same (hk : Kept b w) (hb' : w'.boss = some b') (hhp : b'.healthPoint = b.healthPoint)
    (hdestroy : b'.isDestroy = b.isDestroy) (hmap : b'.boneMap = b.boneMap)
    (hnews : ∀ p, w'.breakNews p = w.breakNews p) :
    Kept b' w' ∧ ∀ p, Wears w.connected (w.books b p) (w'.books b' p) := by
  have hbooks : ∀ p, w'.books b' p = w.books b p := by
    intro p
    simp only [books]
    rw [hhp, hdestroy, hmap, hnews]
  refine ⟨⟨hb',fun p => hbooks p ▸ hk.part p,hdestroy ▸ hk.head,hhp ▸ hk.headHP⟩,fun p => ?_⟩
  rw [hbooks]
  exact .keep _

theorem kept_bossUpdate {draw now : ℕ} (hk : Kept b w)
    (h : w.bossUpdate getPath draw now = .ok w') :
    ∃ b', Kept b' w' ∧ ∀ p, Wears w.connected (w.books b p) (w'.books b' p) := by
  cases bossUpdate_cases hk.boss h with
  | inl hdead =>
    obtain ⟨-,rfl⟩ := hdead
    exact ⟨b.changeState .bossDead,hk.same rfl rfl rfl rfl fun _ => rfl⟩
  | inr halive =>
    obtain ⟨-,hposes⟩ := halive
    obtain ⟨b',hb',hlimbs⟩ := hposes.boss
    simp only [Boss.limbs, Prod.mk.injEq] at hlimbs
    obtain ⟨hhp,hdestroy,hmap,-⟩ := hlimbs
    exact ⟨b',hk.same hb' hhp (hdestroy.trans hk.isPartDestroyed) hmap hposes.sends.breakNews⟩

theorem kept_boneMapUpdate (newBoneMap : ℕ → ℤ) (hk : Kept b w) :
    ∃ b', Kept b' (w.boneMapUpdate newBoneMap) ∧
      ∀ p, Wears w.connected (w.books b p) ((w.boneMapUpdate newBoneMap).books b' p) := by
  have hhead := boneMapUpdate_head newBoneMap w
  rw [hk.boss, Option.map_some, Option.map_eq_some_iff] at hhead
  obtain ⟨b',hb',hhead⟩ := hhead
  rw [Prod.mk.injEq] at hhead
  have hwears : ∀ p, Wears w.connected (w.books b p) ((w.boneMapUpdate newBoneMap).books b' p) := by
    intro p
    have hview : (w.partView p).2 = some (w.books b p) := by rw [partView, hk.boss]; rfl
    obtain ⟨k,hk',hwears⟩ := (boneMapUpdate_worn newBoneMap w p).2 _ hview
    rw [partView, hb'] at hk'
    cases hk'
    exact hwears
  exact ⟨b',⟨hb',fun p => (hwears p).sound (hk.part p),hhead.1 ▸ hk.head,hhead.2 ▸ hk.headHP⟩,hwears⟩

/-- What a step does to the limbs. -/
theorem kept_limbNext {a : LimbInput F} (hk : Kept b w) (h : w.limbNext getPath a = some w') :
    ∃ b', Kept b' w' ∧ ∀ p, Wears w.connected (w.books b p) (w'.books b' p) := by
  cases a with
  | update draw now => exact kept_bossUpdate hk (toOption_eq_some h)
  | bones newBoneMap =>
    cases h
    exact kept_boneMapUpdate newBoneMap hk
  | hit | bossMove | players =>
    have hintact := intact_limbNext (by simp) (by simp) h
    obtain ⟨b',hb',hhp,hdestroy,hmap⟩ := hintact.boss b hk.boss
    exact ⟨b',hk.same hb' hhp hdestroy hmap hintact.breakNews⟩

variable (getPath)

/-- No hit count grows, and none falls by more than one. -/
def Drops (w : World F) (a : LimbInput F) : Prop :=
  ∀ w' b b', w.limbNext getPath a = some w' → w.boss = some b → w'.boss = some b' →
    ∀ p, b'.boneMap p = b.boneMap p ∨ b'.boneMap p = b.boneMap p-1

/-- The last hit on a part. -/
def Breaks (p : Part) (w : World F) (a : LimbInput F) : Prop :=
  ∃ w' b b', w.limbNext getPath a = some w' ∧ w.boss = some b ∧ w'.boss = some b' ∧
    b.boneMap p = 1 ∧ b'.boneMap p = 0

/-- The news of a part in a run: one broadcast, at its last hit, or none. -/
def Told (s : World F) (as : List (LimbInput F)) (p : Part) (b : Boss F) (u : World F) : Prop :=
  if b.boneMap p = 0 then
    ∃ l₁ a l₂ v, as = l₁ ++ a::l₂ ∧ Runs.run (limbNext getPath) s l₁ = some v ∧
      Breaks getPath p v a ∧ u.breakNews p = s.breakNews p ++ v.connected
  else u.breakNews p = s.breakNews p

variable {getPath}

theorem drops_of_kept {a : LimbInput F} (hk : Kept b w) : Drops getPath w a := by
  intro w' c c' h hc hc' p
  cases hk.boss.symm.trans hc
  obtain ⟨b',hk',hwears⟩ := kept_limbNext hk h
  cases hk'.boss.symm.trans hc'
  exact (hwears p).left

/-- The news after one more step. -/
theorem Told.snoc {s u u' : World F} {as : List (LimbInput F)} {a : LimbInput F}
    (ht : Told getPath s as p b u) (hk : Kept b u) (hk' : Kept b' u')
    (hrun : Runs.run (limbNext getPath) s as = some u) (h : u.limbNext getPath a = some u')
    (hwears : Wears u.connected (u.books b p) (u'.books b' p)) :
    Told getPath s (as ++ [a]) p b' u' := by
  simp only [Told] at ht ⊢
  generalize hbooks : u.books b p = k at hwears
  generalize hbooks' : u'.books b' p = k' at hwears
  simp only [books] at hbooks hbooks'
  cases hwears with
  | keep =>
    obtain ⟨hmap,-,-,hnews⟩ := Books.mk.inj (hbooks'.trans hbooks.symm)
    rw [hmap, hnews]
    split_ifs at ht ⊢ with hzero
    · obtain ⟨l₁,c,l₂,v,rfl,hv,hbreaks,hall⟩ := ht
      exact ⟨l₁,c,l₂ ++ [a],v,by simp,hv,hbreaks,hall⟩
    · exact ht
  | hurt hleft =>
    cases hbooks
    obtain ⟨hmap,-,-,hnews⟩ := Books.mk.inj hbooks'
    dsimp only at hleft hmap hnews
    rw [if_neg (by omega)] at ht
    rw [if_neg (by omega), hnews]
    exact ht
  | broken hleft =>
    cases hbooks
    obtain ⟨hmap,-,-,hnews⟩ := Books.mk.inj hbooks'
    dsimp only at hleft hnews
    rw [if_neg (by omega)] at ht
    rw [if_pos hmap, hnews, ht]
    exact ⟨as,a,[],u,rfl,hrun,⟨u',b,b',h,hk.boss,hk'.boss,hleft,hmap⟩,rfl⟩

/-- In every run from Initialize the books of all parts agree, each part loses its hits one by one,
and its end is broadcast once. -/
theorem bone_books (w : World F) {as : List (LimbInput F)} {u : World F}
    (h : Runs.run (limbNext getPath) (w.setBoss Boss.initializeBoss) as = some u) :
    Runs.Along (limbNext getPath) (Drops getPath) (w.setBoss Boss.initializeBoss) as ∧
      ∃ b, Kept b u ∧ ∀ p, Told getPath (w.setBoss Boss.initializeBoss) as p b u := by
  have hstart := kept_initializeBoss w
  constructor
  · refine Runs.along_of_invariant (I := fun v => ∃ b, Kept b v) ?_ ?_ ⟨_,hstart⟩
    · rintro v a v' ⟨b,hk⟩ hstep
      obtain ⟨b',hk',-⟩ := kept_limbNext hk hstep
      exact ⟨b',hk'⟩
    · rintro v a v' ⟨b,hk⟩ -
      exact drops_of_kept hk
  · induction as using List.reverseRecOn generalizing u with
    | nil =>
      cases h
      refine ⟨_,hstart,fun p => ?_⟩
      have hrange : (Boss.initializeBoss : Boss F).boneMap p ≠ 0 := by
        cases p <;> simp [Boss.initializeBoss]
      rw [Told, if_neg hrange]
    | append_singleton as a ih =>
      obtain ⟨v,hrun,hstep⟩ := Runs.run_concat_eq_some.mp h
      obtain ⟨b,hk,htold⟩ := ih hrun
      obtain ⟨b',hk',hwears⟩ := kept_limbNext hk hstep
      exact ⟨b',hk',fun p => (htold p).snoc hk hk' hrun hstep (hwears p)⟩

end Steps

/-- Five hits on every part. -/
def fiveHits : List (LimbInput ℚ) := List.replicate 5 (.bones fun _ => 0)

/-- They break the left hand. -/
theorem bone_books_hand : ∃ u : World ℚ,
    Runs.run (limbNext fun _ _ => []) (empty.setBoss Boss.initializeBoss) fiveHits = some u ∧
    Runs.Along (limbNext fun _ _ => []) (Drops fun _ _ => []) (empty.setBoss Boss.initializeBoss)
      fiveHits ∧
    ∃ b, Kept b u ∧ ∀ p, Told (fun _ _ => []) (empty.setBoss Boss.initializeBoss) fiveHits p b u :=
  ⟨_,rfl,bone_books empty rfl⟩

end World

end LastHero
