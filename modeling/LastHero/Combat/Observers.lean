import LastHero.Game.Monster
import LastHero.Combat.Strike
import LastHero.Support.Runs

/-! What the clients know of the level and the hit points of the players. They fold the packets
they receive, and agree with the server until somebody gets a level while others look on. -/
namespace LastHero
variable {F : Type}

/-- What a client knows of a player. -/
structure Sheet where
  level : ℤ
  healthPoint : ℤ
  /-- the times that it has been told of a new level -/
  levelUps : ℕ

/-- What a packet tells about player `i`. The fields are of type `short`. -/
def Packet.tell (i : Slot) : Packet F → Sheet → Sheet
  | .scLevelUp j level _ hp _, v =>
    if j = i then ⟨CInt.toShort level,CInt.toShort hp,v.levelUps+1⟩ else v
  | .scDamaged oid hp, v => if oid = Slot.oid i then { v with healthPoint := CInt.toShort hp } else v
  | .scDead oid, v => if oid = Slot.oid i then { v with healthPoint := 0 } else v
  | _, v => v

/-- The packet that an act sends to client `c`. -/
def Act.mail (c : Slot) : Act F → Option (Packet F)
  | .send d p => if d = c then some p else none
  | _ => none

theorem Slot.oid_inj {i j : Slot} : Slot.oid i = Slot.oid j ↔ i = j := by
  simp only [Slot.oid]
  rw [Int.natCast_inj, Fin.val_inj]

namespace World

/-- The packets that client `c` has received. -/
def mail (w : World F) (c : Slot) : List (Packet F) := w.trace.filterMap (Act.mail c)

/-- Between two states client `c` turns what it knows of player `i` from `v` into `f c i v`. -/
def Tells (w w' : World F) (f : Slot → Slot → Sheet → Sheet) : Prop :=
  ∀ c, ∃ new, w'.mail c = w.mail c ++ new ∧ ∀ i v, new.foldl (fun v p => p.tell i v) v = f c i v

variable {w w' w'' : World F} {f g : Slot → Slot → Sheet → Sheet} {id : Slot} {p : CPlayer F}

theorem mail_sendTo (l : List Slot) (p : Packet F) (w : World F) (c : Slot) :
    (w.sendTo l p).mail c = w.mail c ++ List.replicate (l.count c) p := by
  have hsent : ∀ l : List Slot, (l.map fun i => Act.send i p).filterMap (Act.mail c) =
      List.replicate (l.count c) p := by
    intro l
    induction l with
    | nil => rfl
    | cons i l ih =>
      rw [List.map_cons, List.filterMap_cons, ih, List.count_cons]
      by_cases hi : i = c
      · simp [Act.mail, hi, List.replicate_succ]
      · simp [Act.mail, hi]
  simp only [mail, sendTo]
  rw [List.filterMap_append, hsent]

theorem count_connected (w : World F) (c : Slot) :
    w.connected.count c = if (w.player c).isSome then 1 else 0 := by
  have hnodup : w.connected.Nodup := (List.nodup_finRange maxPlayer).filter _
  rw [hnodup.count]
  simp [connected, mem_slots]

theorem Tells.refl (w : World F) : Tells w w fun _ _ v => v := fun c => ⟨[],by simp,fun _ _ => rfl⟩

theorem Tells.of_eq (h : w'.trace = w.trace) : Tells w w' fun _ _ v => v :=
  fun c => ⟨[],by simp [mail, h],fun _ _ => rfl⟩

theorem Tells.trans (h : Tells w w' f) (h' : Tells w' w'' g) :
    Tells w w'' fun c i v => g c i (f c i v) := by
  intro c
  obtain ⟨new,hnew,hf⟩ := h c
  obtain ⟨new',hnew',hg⟩ := h' c
  refine ⟨new ++ new',by rw [hnew', hnew, List.append_assoc],fun i v => ?_⟩
  rw [List.foldl_append, hf, hg]

theorem tells_sendTo (l : List Slot) (p : Packet F) (w : World F) :
    Tells w (w.sendTo l p) fun c i v => (p.tell i)^[l.count c] v := by
  refine fun c => ⟨_,mail_sendTo l p w c,fun i v => ?_⟩
  dsimp only
  generalize l.count c = n
  induction n generalizing v with
  | zero => rfl
  | succ n ih => rw [List.replicate_succ, List.foldl_cons, ih, Function.iterate_succ_apply]

/-- Packets that tell nothing of players. -/
theorem Tells.sendTo {l : List Slot} {p : Packet F} (hp : ∀ i v, p.tell i v = v)
    (h : Tells w w' f) : Tells w (w'.sendTo l p) f := by
  have hsame : ∀ i, p.tell i = id := fun i => funext (hp i)
  have hsend := h.trans (tells_sendTo l p w')
  simpa only [hsame, Function.iterate_id, id_eq] using hsend

theorem Tells.of_trace (h : Tells w w' f) (ht : w''.trace = w'.trace) : Tells w w'' f := by
  simpa using h.trans (.of_eq ht)

/-- A broadcast tells every client once. -/
theorem Tells.broadcast {q : Packet F} (h : Tells w w' f) : Tells w (w'.broadcast q)
    fun c i v => if (w'.player c).isSome then q.tell i (f c i v) else f c i v := by
  have hsend := h.trans (tells_sendTo w'.connected q w')
  change Tells w (w'.broadcast q) _ at hsend
  have hcount : ∀ c i v, (q.tell i)^[w'.connected.count c] v =
      if (w'.player c).isSome then q.tell i v else v := by
    intro c i v
    rw [count_connected]
    split_ifs
    · rfl
    · rfl
  simpa only [hcount] using hsend

/-- What an operation does to one player. -/
inductive Change
  | keep
  | hurt (damage : ℤ)
  | level

namespace Change

/-- The level and the hit points on the server after it. -/
def vitals (p : CPlayer F) : Change → ℤ × ℤ
  | .keep => (p.level,p.healthPoint)
  | .hurt damage => (p.level,max 0 (p.healthPoint-damage))
  | .level => (p.level+1,p.maxHP+levelUpBonus)

/-- What client `c` makes of it: all players hear of damage, only the player itself of its level,
once for each player. -/
def told (w : World F) (id : Slot) (p : CPlayer F) (k : Change) (c i : Slot) (v : Sheet) : Sheet :=
  match k with
  | .keep => v
  | .hurt damage =>
    if (w.player c).isSome ∧ i = id then
      { v with healthPoint :=
          if p.healthPoint-damage ≤ 0 then 0 else CInt.toShort (p.healthPoint-damage) }
    else v
  | .level =>
    if c = id ∧ i = id then
      ⟨CInt.toShort (p.level+1),CInt.toShort (p.maxHP+levelUpBonus),
        v.levelUps+w.connected.length⟩
    else v

end Change

/-- An operation that makes a change to player `id`. -/
structure Makes (id : Slot) (p : CPlayer F) (k : Change) (w w' : World F) : Prop where
  player : w.player id = some p
  other : ∀ i, i ≠ id → w'.player i = w.player i
  vitals : (w'.player id).map (fun q => (q.level,q.healthPoint)) = some (k.vitals p)
  tells : Tells w w' (k.told w id p)

theorem Tells.congr (h : Tells w w' f) (hfg : ∀ c i v, f c i v = g c i v) : Tells w w' g := by
  have hfg : f = g := by
    funext c i v
    exact hfg c i v
  exact hfg ▸ h

theorem Tells.modifyPlayer {i : Slot} {r : CPlayer F → CPlayer F} (h : Tells w w' f) :
    Tells w (w'.modifyPlayer i r) f := h.of_trace rfl

/-- Quiet steps before a change. -/
theorem Makes.after {v : World F} {q : CPlayer F} {k : Change} (h : Makes id q k v w')
    (hp : w.player id = some p) (hv : v.player = Function.update w.player id (some q))
    (hsame : (q.level,q.healthPoint,q.maxHP) = (p.level,p.healthPoint,p.maxHP))
    (htell : Tells w v fun _ _ v => v) : Makes id p k w w' := by
  simp only [Prod.mk.injEq] at hsame
  obtain ⟨hl,hh,hm⟩ := hsame
  have hsome : ∀ c, (v.player c).isSome = (w.player c).isSome := by
    intro c
    rw [hv, Function.update_apply]
    split_ifs with hc
    · rw [hc, hp]
      rfl
    · rfl
  refine ⟨hp,fun i hi => ?_,?_,(htell.trans h.tells).congr fun c i u => ?_⟩
  · rw [h.other i hi, hv, Function.update_of_ne hi]
  · rw [h.vitals]
    cases k <;> simp [Change.vitals, hl, hh, hm]
  · cases k <;> simp [Change.told, hl, hh, hm, hsome, connected_congr hsome]

/-- An attack against a player gets through. -/
def Hits [FloatArith F] (m : CMonster F) (p : CPlayer F) : Prop :=
  getDistance m.pos p.pos ≤ attackRange ∧ 0 < getDistance m.pos p.pos ∧
    ¬ (getDistance m.pos p.pos < guardRange ∧ (p.isGuard ∨ p.isEvade))

instance [FloatArith F] (m : CMonster F) (p : CPlayer F) : Decidable (Hits m p) :=
  inferInstanceAs (Decidable (_ ∧ _ ∧ ¬ (_ ∧ _)))

/-- Hits on players, kills and levels. -/
inductive VitalsInput
  | takeDamage (id : Slot) (damage : ℤ)
  /-- CMonster::Attack -/
  | attack (i : MonsterId) (id : Slot) (draw : ℕ)
  /-- a blow of a player, perhaps with KillMonster -/
  | blow (id : Slot) (i : MonsterId) (damage : ℤ)
  | levelUp (id : Slot)

section Steps
variable [FloatArith F]

/-- The player that an input concerns, and what it does to it. -/
def change (w : World F) : VitalsInput → Option (Slot × CPlayer F × Change)
  | .takeDamage id damage => (w.player id).map fun p => (id,p,.hurt damage)
  | .attack i id _ => (w.player id).bind fun p => (w.monster i).map fun m =>
      (id,p,if Hits m p then .hurt monsterAtkPoint else .keep)
  | .blow id i damage => (w.player id).bind fun p => (w.monster i).map fun m =>
      (id,p,if m.healthPoint ≤ damage ∧ 100 ≤ p.exp + m.exp then .level else .keep)
  | .levelUp id => (w.player id).map fun p => (id,p,.level)

end Steps

/-- What client `c` knows of player `i` after the packets since `w₀`. -/
def sheet (w₀ w : World F) (c i : Slot) (v : Sheet) : Sheet :=
  ((w.mail c).drop (w₀.mail c).length).foldl (fun v p => p.tell i v) v

/-- The clients know the level and the hit points of every player, and each has been told of every
new level once. -/
def Agree (w₀ w : World F) : Prop :=
  ∀ c i q₀ q, (w.player c).isSome → w₀.player i = some q₀ → w.player i = some q →
    (w₀.sheet w c i ⟨q₀.level,q₀.healthPoint,0⟩).level = q.level ∧
    (w₀.sheet w c i ⟨q₀.level,q₀.healthPoint,0⟩).healthPoint = q.healthPoint ∧
    ((w₀.sheet w c i ⟨q₀.level,q₀.healthPoint,0⟩).levelUps : ℤ) = q.level - q₀.level

/-- The players are those of `w₀`, and packets have only been added. -/
structure Since (w₀ w : World F) : Prop where
  isSome : ∀ i, (w.player i).isSome = (w₀.player i).isSome
  mail : ∀ c, ∃ new, w.mail c = w₀.mail c ++ new

variable {w₀ : World F} {k : Change}

theorem Since.sheet (h : Since w₀ w) (ht : Tells w w' f) (c i : Slot) (v : Sheet) :
    w₀.sheet w' c i v = f c i (w₀.sheet w c i v) := by
  obtain ⟨old,hold⟩ := h.mail c
  obtain ⟨new,hnew,hf⟩ := ht c
  simp only [World.sheet]
  rw [hnew, hold, List.append_assoc, List.drop_left, List.drop_left, List.foldl_append, hf]

theorem Since.makes (h : Since w₀ w) (hk : Makes id p k w w') : Since w₀ w' := by
  refine ⟨fun i => ?_,fun c => ?_⟩
  · rw [← h.isSome i]
    by_cases hi : i = id
    · obtain ⟨q,hq,-⟩ := Option.map_eq_some_iff.mp hk.vitals
      rw [hi, hq, hk.player]
      rfl
    · rw [hk.other i hi]
  · obtain ⟨old,hold⟩ := h.mail c
    obtain ⟨new,hnew,-⟩ := hk.tells c
    exact ⟨old ++ new,by rw [hnew, hold, List.append_assoc]⟩

theorem Change.told_other {i c : Slot} (hi : i ≠ id) (v : Sheet) : k.told w id p c i v = v := by
  cases k <;> simp [Change.told, hi]

/-- What the other clients make of a change is right for all but perhaps one player. -/
theorem Agree.makes (h : Since w₀ w) (ha : Agree w₀ w) (hk : Makes id p k w w') {q₀ : CPlayer F}
    (hq₀ : w₀.player id = some q₀) (hid : ∀ c, (w.player c).isSome → ∀ v : Sheet,
      v.level = p.level → v.healthPoint = p.healthPoint → (v.levelUps : ℤ) = p.level - q₀.level →
      (k.told w id p c id v).level = (k.vitals p).1 ∧
      (k.told w id p c id v).healthPoint = (k.vitals p).2 ∧
      ((k.told w id p c id v).levelUps : ℤ) = (k.vitals p).1 - q₀.level) : Agree w₀ w' := by
  intro c i r₀ r hc hr₀ hr
  rw [((h.makes hk).isSome c).trans (h.isSome c).symm] at hc
  rw [h.sheet hk.tells]
  by_cases hi : i = id
  · subst hi
    obtain ⟨hl,hh,hu⟩ := ha c i r₀ p hc hr₀ hk.player
    cases hq₀.symm.trans hr₀
    have hvitals := hk.vitals
    rw [hr, Option.map_some, Option.some_inj] at hvitals
    rw [show r.level = (k.vitals p).1 from congrArg Prod.fst hvitals,
      show r.healthPoint = (k.vitals p).2 from congrArg Prod.snd hvitals]
    exact hid c hc _ hl hh hu
  · rw [Change.told_other hi]
    exact ha c i r₀ r hc hr₀ ((hk.other i hi).symm.trans hr)

/-- What client `c` makes of a change to player `id`. -/
theorem Agree.told (h : Since w₀ w) (ha : Agree w₀ w) (hk : Makes id p k w w')
    (ha' : Agree w₀ w') {c : Slot} (hc : (w.player c).isSome) : ∃ v : Sheet, v.level = p.level ∧
      (k.told w id p c id v).level = (k.vitals p).1 ∧
      (k.told w id p c id v).healthPoint = (k.vitals p).2 := by
  obtain ⟨q₀,hq₀⟩ := Option.isSome_iff_exists.mp
    ((h.isSome id).symm.trans (Option.isSome_of_mem hk.player))
  obtain ⟨q,hq,hvitals⟩ := Option.map_eq_some_iff.mp hk.vitals
  obtain ⟨hl,hh,-⟩ := ha' c id q₀ q
    ((((h.makes hk).isSome c).trans (h.isSome c).symm).trans hc) hq₀ hq
  rw [h.sheet hk.tells] at hl hh
  exact ⟨_,(ha c id q₀ p hc hq₀ hk.player).1,hl.trans (congrArg Prod.fst hvitals),
    hh.trans (congrArg Prod.snd hvitals)⟩

theorem Since.refl (w : World F) : Since w w := ⟨fun _ => rfl,fun _ => ⟨[],by simp⟩⟩

end World

end LastHero
