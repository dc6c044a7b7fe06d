import LastHero.Server.Steps
import LastHero.Combat.Ledger
import LastHero.Combat.Observers

/-! The monsters on the screens of the clients. EnterGame shows a client the living monsters, and
SC_DEAD takes one away; over all that can happen on the server a client that has entered shows
exactly the monsters that live. -/
namespace LastHero
variable {F : Type}

/-- What a client makes of a packet: the object ids of the monsters that it shows. -/
def Packet.showMonsters : Packet F → Finset ℤ → Finset ℤ
  | .scEnterMonster _ oid _, v => insert oid v
  | .scDead oid, v => v.erase oid
  | _, v => v

/-- A packet that comes twice says nothing new. -/
theorem Packet.showMonsters_idem (p : Packet F) (v : Finset ℤ) :
    p.showMonsters (p.showMonsters v) = p.showMonsters v := by
  cases p with
  | scEnterMonster => exact Finset.insert_idem _ _
  | scDead => exact Finset.erase_idem
  | _ => rfl

/-- The server and the screens of its clients. -/
structure Screens (F : Type) where
  world : World F
  /-- the monsters that a client shows -/
  view : Slot → Finset ℤ
  /-- the clients that went through EnterGame -/
  joined : Finset Slot

namespace Screens
variable [FloatArith F]

/-- The clients receive what a step sends. -/
def receive (s : Screens F) (w' : World F) : Screens F :=
  { s with
    world := w'
    view := fun c => ((w'.mail c).drop (s.world.mail c).length).foldl
      (fun v p => p.showMonsters v) (s.view c) }

/-- The connection of a slot ends, or a new one begins: its client shows nothing. -/
def clear (i : Slot) (s : Screens F) : Screens F :=
  { s with view := Function.update s.view i ∅, joined := s.joined.erase i }

def join (uid : Slot) (s : Screens F) : Screens F := { s with joined := insert uid s.joined }

/-- What a step means for the client that causes it. -/
def follow (w : World F) (a : ServerInput F) (s : Screens F) : Screens F :=
  match a with
  | .thread (.accept _) => w.freeSlot.elim s fun i => s.clear i
  | .thread (.disconnect uid) => s.clear uid
  | .thread (.packet uid buf _) =>
    if CsType.ofByte (buf.byteAt 1) = some .csLogin then s.join uid else s
  | _ => s

def next (getPath : ℤ × ℤ → ℤ × ℤ → List (ℤ × ℤ)) (s : Screens F) (a : ServerInput F) :
    Option (Screens F) :=
  (s.world.serverNext getPath a).map fun w' => (s.receive w').follow s.world a

def start : Screens F := ⟨World.start,fun _ => ∅,∅⟩

end Screens

namespace World

/-- The object id of a living monster. -/
def Lives (w : World F) (oid : ℤ) : Prop :=
  ∃ i m, oid = MonsterId.oid i ∧ w.monster i = some m ∧ 0 < m.healthPoint

/-- Who shows a monster shows a living one, and who has entered shows all of them. -/
structure Shown (w : World F) (joined : Finset Slot) (v : Slot → Finset ℤ) : Prop where
  sound : ∀ c, ∀ oid ∈ v c, w.Lives oid
  complete : ∀ c ∈ joined, ∀ oid, w.Lives oid → oid ∈ v c
  present : ∀ c ∈ joined, (w.player c).isSome
  empty : ∀ c, w.player c = none → v c = ∅

/-- Between two states the screens change from `v` to `v'`. -/
def Redraws (w w' : World F) (v v' : Slot → Finset ℤ) : Prop :=
  ∀ c, ∃ new, w'.mail c = w.mail c ++ new ∧ new.foldl (fun v p => p.showMonsters v) (v c) = v' c

variable {w w' w'' : World F} {v v' v'' : Slot → Finset ℤ} {joined : Finset Slot} {id : Slot}

theorem Redraws.of_trace (h : w'.trace = w.trace) : Redraws w w' v v :=
  fun c => ⟨[],by simp [mail, h],rfl⟩

theorem Redraws.trans (h : Redraws w w' v v') (h' : Redraws w' w'' v' v'') :
    Redraws w w'' v v'' := by
  intro c
  obtain ⟨new,hnew,hv⟩ := h c
  obtain ⟨new',hnew',hv'⟩ := h' c
  refine ⟨new ++ new',by rw [hnew', hnew, List.append_assoc],?_⟩
  rw [List.foldl_append, hv, hv']

/-- A packet to some of the slots, once or more often. -/
theorem redraws_sendTo (l : List Slot) (p : Packet F) (v : Slot → Finset ℤ) (w : World F) :
    Redraws w (w.sendTo l p) v fun c => if c ∈ l then p.showMonsters (v c) else v c := by
  intro c
  refine ⟨_,mail_sendTo l p w c,?_⟩
  have hrepeat : ∀ n u, (List.replicate (n+1) p).foldl (fun v p => p.showMonsters v) u =
      p.showMonsters u := by
    intro n
    induction n with
    | zero => exact fun _ => rfl
    | succ n ih =>
      intro u
      rw [List.replicate_succ, List.foldl_cons, ih, p.showMonsters_idem]
  dsimp only
  split_ifs with hc
  · obtain ⟨n,hn⟩ := Nat.exists_eq_succ_of_ne_zero (List.count_pos_iff.mpr hc).ne'
    rw [hn]
    exact hrepeat n _
  · rw [List.count_eq_zero.mpr hc]
    rfl

theorem Redraws.receive [FloatArith F] {s : Screens F} (h : Redraws s.world w' s.view v') :
    (s.receive w').view = v' := by
  funext c
  obtain ⟨new,hnew,hv⟩ := h c
  simp only [Screens.receive]
  rw [hnew, List.drop_left, hv]

/-- What the screens depend on has not changed. -/
theorem Shown.congr (h : Shown w joined v) (hm : ∀ oid, w'.Lives oid ↔ w.Lives oid)
    (hp : ∀ i, (w.player i).isSome → (w'.player i).isSome) : Shown w' joined v where
  sound c oid hoid := (hm oid).mpr (h.sound c oid hoid)
  complete c hc oid hlive := h.complete c hc oid ((hm oid).mp hlive)
  present c hc := hp c (h.present c hc)
  empty c hc := by
    refine h.empty c (Option.not_isSome_iff_eq_none.mp fun hsome => ?_)
    have hgone := hp c hsome
    rw [hc] at hgone
    cases hgone

/-- Other packets leave the screens as they are. -/
theorem Shown.sendTo {l : List Slot} {p : Packet F} (h : Shown w joined v)
    (hp : ∀ c, p.showMonsters (v c) = v c) :
    Redraws w (w.sendTo l p) v v ∧ Shown (w.sendTo l p) joined v := by
  have hsame := redraws_sendTo l p v w
  simp only [hp, ite_self] at hsame
  exact ⟨hsame,h.congr (fun _ => Iff.rfl) fun _ hi => hi⟩

theorem Shown.idle {p : Packet F} (h : Shown w joined v) (hp : p.Idle) (c : Slot) :
    p.showMonsters (v c) = v c := by
  cases p with
  | scEnterMonster => exact hp.elim
  | scDead oid =>
    refine Finset.erase_eq_of_notMem fun hoid => ?_
    obtain ⟨i,-,rfl,-⟩ := h.sound c oid hoid
    have hlt : MonsterId.oid i < npcIdStart := hp
    simp only [MonsterId.oid] at hlt
    omega
  | _ => rfl

theorem Shown.bossDead (h : Shown w joined v) (c : Slot) :
    (Packet.scDead bossIdx : Packet F).showMonsters (v c) = v c := by
  refine Finset.erase_eq_of_notMem fun hoid => ?_
  obtain ⟨i,-,hi,-⟩ := h.sound c bossIdx hoid
  exact MonsterId.oid_ne_bossIdx i hi.symm

/-- Whatever the screens show, a step leaves them right. -/
def KeepsShown (joined : Finset Slot) (w w' : World F) : Prop :=
  ∀ v, Shown w joined v → ∃ v', Redraws w w' v v' ∧ Shown w' joined v'

theorem KeepsShown.refl (w : World F) : KeepsShown joined w w :=
  fun v h => ⟨v,.of_trace rfl,h⟩

theorem KeepsShown.trans (h : KeepsShown joined w w') (h' : KeepsShown joined w' w'') :
    KeepsShown joined w w'' := by
  intro v hv
  obtain ⟨v',hr,hv'⟩ := h v hv
  obtain ⟨v'',hr',hv''⟩ := h' v' hv'
  exact ⟨v'',hr.trans hr',hv''⟩

/-- Nothing is said, and the same monsters live. -/
theorem KeepsShown.of_mail (ht : ∀ c, w'.mail c = w.mail c)
    (hm : ∀ oid, w'.Lives oid ↔ w.Lives oid)
    (hp : ∀ i, (w.player i).isSome → (w'.player i).isSome) : KeepsShown joined w w' :=
  fun v hv => ⟨v,fun c => ⟨[],by simp [ht],rfl⟩,hv.congr hm hp⟩

theorem lives_congr (h : w'.monster = w.monster) (oid : ℤ) : w'.Lives oid ↔ w.Lives oid := by
  simp only [Lives]
  rw [h]

/-- A monster is replaced by another one. -/
theorem lives_setMonster {i : MonsterId} {m : CMonster F} (oid : ℤ) :
    (w.setMonster i m).Lives oid ↔
      oid = i.oid ∧ 0 < m.healthPoint ∨ oid ≠ i.oid ∧ w.Lives oid := by
  constructor
  · rintro ⟨j,m',rfl,hj,hlive⟩
    by_cases hji : j = i
    · subst hji
      have hm : (w.setMonster j m).monster j = some m := Function.update_self ..
      obtain rfl : m = m' := Option.some.inj (hm.symm.trans hj)
      exact Or.inl ⟨rfl,hlive⟩
    · have hm : (w.setMonster i m).monster j = w.monster j := Function.update_of_ne hji ..
      exact Or.inr ⟨fun h => hji (MonsterId.oid_inj.mp h),j,m',rfl,hm ▸ hj,hlive⟩
  · rintro (⟨rfl,hlive⟩ | ⟨hne,j,m',rfl,hj,hlive⟩)
    · exact ⟨i,m,rfl,Function.update_self ..,hlive⟩
    · refine ⟨j,m',rfl,?_,hlive⟩
      rw [← hj]
      exact Function.update_of_ne (by rintro rfl; exact hne rfl) ..

/-- A monster lives on. -/
theorem lives_setMonster_same {i : MonsterId} {m m' : CMonster F} (hm : w.monster i = some m)
    (hhp : 0 < m'.healthPoint ↔ 0 < m.healthPoint) (oid : ℤ) :
    (w.setMonster i m').Lives oid ↔ w.Lives oid := by
  rw [lives_setMonster, hhp]
  by_cases hoid : oid = i.oid
  · subst hoid
    have hself : w.Lives i.oid ↔ 0 < m.healthPoint := by
      constructor
      · rintro ⟨j,m₀,hj,hm₀,hlive⟩
        obtain rfl : i = j := MonsterId.oid_inj.mp hj
        rwa [Option.some.inj (hm.symm.trans hm₀)]
      · exact fun hlive => ⟨i,m,rfl,hm,hlive⟩
    simp [hself]
  · simp [hoid]

/-- SC_DEAD reaches everybody who shows the monster. -/
theorem Shown.slain {u : World F} {i : MonsterId} (h : Shown w joined v)
    (hm : ∀ oid, u.Lives oid ↔ oid ≠ i.oid ∧ w.Lives oid)
    (hp : ∀ c, (u.player c).isSome = (w.player c).isSome) :
    ∃ v', Redraws u (u.broadcast (.scDead i.oid)) v v' ∧
      Shown (u.broadcast (.scDead i.oid)) joined v' := by
  refine ⟨_,redraws_sendTo u.connected (.scDead i.oid) v u,?_,?_,?_,?_⟩
  · intro c oid hoid
    refine (hm oid).mpr ?_
    split_ifs at hoid with hc
    · obtain ⟨hne,hmem⟩ := Finset.mem_erase.mp hoid
      exact ⟨hne,h.sound c oid hmem⟩
    · rw [mem_connected, hp, Option.not_isSome_iff_eq_none] at hc
      rw [h.empty c hc] at hoid
      cases hoid
  · intro c hc oid hlive
    obtain ⟨hne,hlive⟩ := (hm oid).mp hlive
    have hmem := h.complete c hc oid hlive
    split_ifs
    · exact Finset.mem_erase.mpr ⟨hne,hmem⟩
    · exact hmem
  · intro c hc
    exact (hp c).trans (h.present c hc)
  · intro c hc
    have hnone : w.player c = none := by
      have hsome := hp c
      rw [show u.player c = none from hc] at hsome
      simpa using hsome.symm
    rw [h.empty c hnone]
    split_ifs
    · rfl
    · rfl

theorem keepsShown_sendTo {l : List Slot} {p : Packet F}
    (hp : ∀ v, Shown w joined v → ∀ c, p.showMonsters (v c) = v c) :
    KeepsShown joined w (w.sendTo l p) := fun v hv => ⟨v,hv.sendTo (hp v hv)⟩

theorem keepsShown_deed [FloatArith F] {turn : Turn} (hd : Deed turn w w') :
    KeepsShown joined w w' := by
  cases hd with
  | send l p hp => exact keepsShown_sendTo fun v hv => hv.idle hp
  | player i f =>
    exact .of_mail (fun _ => rfl) (fun _ => Iff.rfl)
      fun c h => (isSome_modifyPlayer f w i c).trans h
  | update id name pass => exact .of_mail (fun _ => rfl) (fun _ => Iff.rfl) fun _ h => h
  | timers _ _ hs =>
    exact .of_mail (fun c => by simp only [mail]; rw [hs.trace]) (lives_congr hs.monster)
      fun i => by rw [hs.player]; exact fun h => h
  | monster i m m' _ _ hm hworth =>
    have hhp : m'.healthPoint = m.healthPoint := congrArg Prod.fst hworth
    exact .of_mail (fun _ => rfl) (lives_setMonster_same hm (by rw [hhp])) fun _ h => h
  | appear id i m _ hid hm halive =>
    intro v hv
    have hlive : w.Lives i.oid := ⟨i,m,rfl,hm,halive⟩
    refine ⟨_,redraws_sendTo [id] _ v w,?_,?_,hv.present,?_⟩
    · intro c oid hoid
      split_ifs at hoid with hc
      · rcases Finset.mem_insert.mp hoid with rfl | hmem
        · exact hlive
        · exact hv.sound c oid hmem
      · exact hv.sound c oid hoid
    · intro c hc oid hl
      have hmem := hv.complete c hc oid hl
      split_ifs
      · exact Finset.mem_insert_of_mem hmem
      · exact hmem
    · intro c hc
      rw [if_neg]
      · exact hv.empty c hc
      · rintro hmem
        obtain rfl := List.mem_singleton.mp hmem
        rw [show w.player c = none from hc] at hid
        cases hid
  | hurt id i m damage _ _ hm halive hleft =>
    have hlive : 0 < m.healthPoint := lt_of_le_of_ne m.healthPoint_nonneg (Ne.symm halive)
    have hbeaten : KeepsShown joined w (w.beaten id i m damage) :=
      .of_mail (fun c => by simp [mail, beaten, World.record, World.setMonster, Act.mail])
        (lives_setMonster_same hm (iff_of_true hleft hlive)) fun _ h => h
    exact hbeaten.trans (keepsShown_sendTo fun v hv => hv.idle (p := .scDamaged ..) trivial)
  | slay id i m damage exp _ _ _ hm halive hleft =>
    intro v hv
    have hdead : ∀ oid, (w.beaten id i m damage).Lives oid ↔ oid ≠ i.oid ∧ w.Lives oid := by
      intro oid
      have hset := lives_setMonster (w := w) (i := i) (m := m.damaged damage) oid
      simp only [hleft, lt_irrefl, and_false, false_or] at hset
      exact hset
    have htold := redraws_sendTo [id] (.scGetExp exp) v
      (((w.beaten id i m damage).record (.kill id i)).modifyPlayer id (CPlayer.gainExp m.exp))
    have hsame : Redraws w (((w.beaten id i m damage).record (.kill id i)).modifyPlayer id
        (CPlayer.gainExp m.exp)) v v := fun c =>
      ⟨[],by simp [mail, beaten, World.record, World.setMonster, World.modifyPlayer,
        World.setPlayer, Act.mail],rfl⟩
    simp only [Packet.showMonsters, ite_self] at htold
    obtain ⟨v',hr,hshown⟩ := hv.slain (u := (((w.beaten id i m damage).record
      (.kill id i)).modifyPlayer id (CPlayer.gainExp m.exp)).sendPacket id (.scGetExp exp)) hdead
      (isSome_modifyPlayer _ ((w.beaten id i m damage).record (.kill id i)) id)
    exact ⟨v',(hsame.trans htold).trans hr,hshown⟩
  | boss b b' _ hb hhp => exact .of_mail (fun _ => rfl) (fun _ => Iff.rfl) fun _ h => h
  | wound id b _ hb halive =>
    have hrecord : KeepsShown joined w (w.record (.hitBoss id 20)) :=
      .of_mail (fun c => by simp [mail, World.record, Act.mail]) (fun _ => Iff.rfl) fun _ h => h
    have hset : ∀ b', KeepsShown joined (w.record (.hitBoss id 20))
        ((w.record (.hitBoss id 20)).setBoss b') := fun b' =>
      .of_mail (fun _ => rfl) (fun _ => Iff.rfl) fun _ h => h
    simp only [bossTakeDamage]
    rw [show (w.record (.hitBoss id 20)).boss = some b from hb]
    dsimp only
    split_ifs
    · exact (hrecord.trans (hset _)).trans (keepsShown_sendTo fun v hv => hv.bossDead)
    · exact hrecord.trans (hset _)
  | announce b atk p _ hb halive => exact keepsShown_sendTo fun v _ _ => rfl

/-- The packets decide what the screens show. -/
theorem Redraws.unique (h : Redraws w w' v v') (h' : Redraws w w' v v'') : v' = v'' := by
  funext c
  obtain ⟨new,hnew,hv⟩ := h c
  obtain ⟨new',hnew',hv'⟩ := h' c
  obtain rfl : new = new' := List.append_cancel_left (hnew.symm.trans hnew')
  exact hv.symm.trans hv'

theorem showMonster_redraws (id : Slot) (w : World F) (v : Slot → Finset ℤ) (i : MonsterId) :
    ∃ v', Redraws w (showMonster id w i) v v' ∧ v id ⊆ v' id ∧
      (w.Lives i.oid → i.oid ∈ v' id) ∧ (showMonster id w i).monster = w.monster := by
  simp only [showMonster]
  split
  · rename_i m hm
    split_ifs with hdead
    · refine ⟨v,.of_trace rfl,fun _ h => h,?_,rfl⟩
      rintro ⟨j,m',hj,hm',hlive⟩
      obtain rfl : i = j := MonsterId.oid_inj.mp hj
      rw [Option.some.inj (hm.symm.trans hm')] at hdead
      omega
    · refine ⟨_,redraws_sendTo [id] _ v w,?_,fun _ => ?_,rfl⟩
      · rw [if_pos (List.mem_singleton_self id)]
        exact Finset.subset_insert _ _
      · rw [if_pos (List.mem_singleton_self id)]
        exact Finset.mem_insert_self _ _
  · rename_i hnone
    refine ⟨v,.of_trace rfl,fun _ h => h,?_,rfl⟩
    rintro ⟨j,m',hj,hm',-⟩
    obtain rfl : i = j := MonsterId.oid_inj.mp hj
    cases hnone.symm.trans hm'

theorem foldl_showMonster_redraws (id : Slot) (l : List MonsterId) (w : World F)
    (v : Slot → Finset ℤ) : ∃ v', Redraws w (l.foldl (showMonster id) w) v v' ∧ v id ⊆ v' id ∧
      (∀ i ∈ l, w.Lives i.oid → i.oid ∈ v' id) ∧
        (l.foldl (showMonster id) w).monster = w.monster := by
  induction l generalizing w v with
  | nil => exact ⟨v,.of_trace rfl,fun _ h => h,by simp,rfl⟩
  | cons i l ih =>
    obtain ⟨v₁,hr₁,hgrow₁,hself,hm₁⟩ := showMonster_redraws id w v i
    obtain ⟨v₂,hr₂,hgrow₂,hrest,hm₂⟩ := ih (showMonster id w i) v₁
    refine ⟨v₂,hr₁.trans hr₂,hgrow₁.trans hgrow₂,fun j hj hlive => ?_,hm₂.trans hm₁⟩
    rcases List.mem_cons.mp hj with rfl | hj
    · exact hgrow₂ (hself hlive)
    · exact hrest j hj ((lives_congr hm₁ j.oid).mpr hlive)

theorem meet_monster (id : Slot) (w : World F) (i : Slot) : (meet id w i).monster = w.monster := by
  simp only [meet]
  split
  · split_ifs
    · rfl
    · simp only [replay]
      split
      · rfl
      · rfl
      · rfl
  · rfl

/-- The end of EnterGame. -/
theorem redraws_host (h : Redraws w w' v v') (hm : w'.monster = w.monster) :
    Redraws w (if id = 0 then w'.sendPacket id .scSetHost else w') v v' ∧
      (if id = 0 then w'.sendPacket id .scSetHost else w').monster = w.monster := by
  split_ifs
  · have hhost := redraws_sendTo [id] .scSetHost v' w'
    simp only [Packet.showMonsters, ite_self] at hhost
    exact ⟨h.trans hhost,hm⟩
  · exact ⟨h,hm⟩

/-- EnterGame shows the living monsters. -/
theorem Shown.enterGame [FloatArith F] (h : Shown w joined v) (hid : (w.player id).isSome) :
    ∃ v', Redraws w (w.enterGame id) v v' ∧ Shown (w.enterGame id) (insert id joined) v' := by
  have hdeeds : Deeds .clients w (w.enterGame id) := deeds_enterGame hid
  have hkeeps : KeepsShown joined w (w.enterGame id) :=
    hdeeds.lift (R := KeepsShown joined) .refl .trans fun _ _ => keepsShown_deed
  have hmet : Deeds .clients w (slots.foldl (meet id) w) := .foldl deeds_meet slots w
  have hmeet : KeepsShown joined w (slots.foldl (meet id) w) :=
    hmet.lift (R := KeepsShown joined) .refl .trans fun _ _ => keepsShown_deed
  obtain ⟨v₁,hr₁,-⟩ := hmeet v h
  obtain ⟨v₂,hr₂,-,hall,hm₂⟩ := foldl_showMonster_redraws id monsterIds
    (slots.foldl (meet id) w) v₁
  have hm₁ : (slots.foldl (meet id) w).monster = w.monster :=
    KeyedFold.foldl_related (R := fun w w' : World F => w'.monster = w.monster) (fun _ => rfl)
      (fun h h' => h'.trans h) (meet_monster id) slots w
  have hlast : Redraws w (w.enterGame id) v v₂ ∧ (w.enterGame id).monster = w.monster :=
    redraws_host (hr₁.trans hr₂) (hm₂.trans hm₁)
  obtain ⟨v',hr',hshown⟩ := hkeeps v h
  obtain rfl : v' = v₂ := hr'.unique hlast.1
  refine ⟨v',hr',hshown.sound,fun c hc oid hlive => ?_,fun c hc => ?_,hshown.empty⟩
  · rcases Finset.mem_insert.mp hc with rfl | hc
    · obtain ⟨i,m,rfl,hm,hhp⟩ := hlive
      refine hall i (mem_monsterIds i) ⟨i,m,rfl,?_,hhp⟩
      rw [hm₁, ← hlast.2]
      exact hm
    · exact hshown.complete c hc oid hlive
  · rcases Finset.mem_insert.mp hc with rfl | hc
    · rw [(keeps_enterGame c w).isSome c]
      exact hid
    · exact hshown.present c hc

/-- The client of a slot is gone, or new. -/
theorem Shown.clear {i : Slot} (h : Shown w joined v) (hm : w'.monster = w.monster)
    (hp : ∀ j, j ≠ i → w'.player j = w.player j) :
    Shown w' (joined.erase i) (Function.update v i ∅) := by
  refine ⟨fun c oid hoid => ?_,fun c hc oid hlive => ?_,fun c hc => ?_,fun c hc => ?_⟩
  · rw [Function.update_apply] at hoid
    split_ifs at hoid
    · cases hoid
    · exact (lives_congr hm oid).mpr (h.sound c oid hoid)
  · obtain ⟨hne,hc⟩ := Finset.mem_erase.mp hc
    rw [Function.update_of_ne hne]
    exact h.complete c hc oid ((lives_congr hm oid).mp hlive)
  · obtain ⟨hne,hc⟩ := Finset.mem_erase.mp hc
    rw [hp c hne]
    exact h.present c hc
  · rw [Function.update_apply]
    split_ifs with hci
    · rfl
    · exact h.empty c (by rw [← hp c hci]; exact hc)

/-- SC_LEAVE is about players. -/
theorem redraws_disconnect (h : w.disconnect id = .ok w') (v : Slot → Finset ℤ) :
    Redraws w w' v v := by
  unfold World.disconnect at h
  split at h
  · cases h
  · cases h
    have hgone : Redraws w (((w.setPlayer id none).renew id).setClient id
        { w.client id with isconnected := false, sock := none }) v v := .of_trace rfl
    refine hgone.trans ?_
    have htold := redraws_sendTo (((w.setPlayer id none).renew id).setClient id
      { w.client id with isconnected := false, sock := none }).connected (.scLeave id) v
      (((w.setPlayer id none).renew id).setClient id
        { w.client id with isconnected := false, sock := none })
    simp only [Packet.showMonsters, ite_self] at htold
    exact htold

/-- DB_Thread creates players at most, and answers a login. -/
theorem keepsShown_ensurePlayer (id : Slot) (heap : CPlayer F) (w : World F) :
    KeepsShown joined w (w.ensurePlayer id heap) := by
  simp only [World.ensurePlayer]
  split
  · exact .refl w
  · refine .of_mail (fun _ => rfl) (fun _ => Iff.rfl) fun c hc => ?_
    have hplayer : (((w.setPlayer id (some (CPlayer.new heap))).renew id).player c).isSome =
        (Function.update w.player id (some (CPlayer.new heap)) c).isSome := rfl
    rw [hplayer, Function.update_apply]
    split_ifs
    · rfl
    · exact hc

theorem keepsShown_modifyPlayer (i : Slot) (f : CPlayer F → CPlayer F) (w : World F) :
    KeepsShown joined w (w.modifyPlayer i f) :=
  .of_mail (fun _ => rfl) (fun _ => Iff.rfl) fun c h => (isSome_modifyPlayer f w i c).trans h

theorem keepsShown_dbTake {outcome : Outcome} {heap : CPlayer F}
    (h : w.dbTake outcome heap = .ok w') : KeepsShown joined w w' := by
  rcases dbTake_cases h with rfl | ⟨ev,queue,-,-,rfl | ⟨queue',rfl⟩ | ⟨exp,rfl⟩⟩
  · exact .refl w'
  · have htake : KeepsShown joined w (w.setQuaryQueue queue) :=
      .of_mail (fun _ => rfl) (fun _ => Iff.rfl) fun _ h => h
    have hensure := htake.trans (keepsShown_ensurePlayer ev.userId heap (w.setQuaryQueue queue))
    have hset := hensure.trans (keepsShown_modifyPlayer ev.userId
      (CPlayer.setCredentials ev.name ev.pass) _)
    exact hset.trans (.of_mail (fun _ => rfl) (fun _ => Iff.rfl) fun _ h => h)
  · exact .of_mail (fun _ => rfl) (fun _ => Iff.rfl) fun _ h => h
  · exact .of_mail (fun c => by simp [mail, World.record, World.setQuaryQueue, Act.mail])
      (fun _ => Iff.rfl) fun _ h => h

theorem keepsShown_login {name pass : List Byte} {character : ℤ}
    (h : w.login id name pass character = .ok w') : KeepsShown joined w w' := by
  obtain ⟨-,n,q,rfl⟩ := login_spec h
  have hask : KeepsShown joined w (w.addQuary id .evLogin n q) :=
    .of_mail (fun _ => rfl) (fun _ => Iff.rfl) fun _ h => h
  exact hask.trans (keepsShown_modifyPlayer _ _ _)

theorem keepsShown_dbFinish [FloatArith F] (outcome : Outcome) (heap : CPlayer F) (now : ℕ)
    (w : World F) : KeepsShown joined w (w.dbFinish outcome heap now) := by
  simp only [World.dbFinish]
  split
  · exact .refl w
  · rename_i ev _
    have hidle : KeepsShown joined w (w.setHandling none) :=
      .of_mail (fun _ => rfl) (fun _ => Iff.rfl) fun _ h => h
    split
    · have hensure := hidle.trans (keepsShown_ensurePlayer ev.userId heap (w.setHandling none))
      have hrenew : KeepsShown joined w (((w.setHandling none).ensurePlayer ev.userId heap).renew
          ev.userId) := hensure.trans (.of_mail (fun _ => rfl) (fun _ => Iff.rfl) fun _ h => h)
      exact (hrenew.trans (keepsShown_modifyPlayer _ _ _)).trans (keepsShown_sendTo fun _ _ _ => rfl)
    · exact hidle.trans (keepsShown_sendTo fun _ _ _ => rfl)

end World

namespace Screens
variable [FloatArith F] {s s' : Screens F}

/-- Every client shows living monsters only, and all of them once it has entered. -/
def Faithful (s : Screens F) : Prop := s.world.Shown s.joined s.view

theorem Faithful.receive {w' : World F} (h : Faithful s)
    (hk : World.KeepsShown s.joined s.world w') : Faithful (s.receive w') := by
  obtain ⟨v',hr,hshown⟩ := hk s.view h
  have hview := hr.receive
  simp only [Faithful]
  rw [hview]
  exact hshown

theorem Faithful.next {getPath : ℤ × ℤ → ℤ × ℤ → List (ℤ × ℤ)} {a : ServerInput F}
    (h : Faithful s) (hstep : s.next getPath a = some s') : Faithful s' := by
  obtain ⟨w',hw,rfl⟩ := Option.map_eq_some_iff.mp hstep
  by_cases ha : ServerInput.Plain a
  · have hreceive := h.receive ((World.deeds_serverNext ha hw).lift
      (R := World.KeepsShown s.joined) .refl .trans fun _ _ => World.keepsShown_deed)
    cases a with
    | boss | monster | io => exact hreceive
    | thread a =>
      cases a with
      | packet uid buf now =>
        simp only [follow]
        rw [if_neg ha]
        exact hreceive
      | levelUp | timer => exact hreceive
      | accept | disconnect | login | dbTake | dbFinish => exact ha.elim
  · cases a with
    | boss | monster | io => exact absurd trivial ha
    | thread a =>
      dsimp only [World.serverNext] at hw
      cases a with
      | accept heap =>
        cases hw
        simp only [follow]
        cases hfree : s.world.freeSlot with
        | none =>
          rw [World.accept_full heap hfree]
          exact h.receive (.refl s.world)
        | some i =>
          have hquiet : World.Redraws s.world (s.world.accept heap) s.view s.view := .of_trace <| by
            simp only [World.accept]
            rw [hfree]
            rfl
          have hview := hquiet.receive
          simp only [Option.elim, clear, Faithful]
          rw [hview]
          refine World.Shown.clear h ?_ fun j hj => ?_
          · simp only [World.accept]
            rw [hfree]
            rfl
          · have hplayer := World.accept_player heap hfree
            exact (congrFun hplayer j).trans (Function.update_of_ne hj ..)
      | disconnect uid =>
        have hok := toOption_eq_some hw
        have hview := (World.redraws_disconnect hok s.view).receive
        obtain ⟨-,hplayer,-⟩ := World.disconnect_spec hok
        simp only [follow, clear, Faithful]
        rw [hview]
        refine World.Shown.clear h (World.aside_disconnect hok).monster fun j hj => ?_
        exact (congrFun hplayer j).trans (Function.update_of_ne hj ..)
      | packet uid buf now =>
        have htype := not_not.mp ha
        obtain ⟨v,hlogin,huid,rfl⟩ := World.login_packet htype (toOption_eq_some hw)
        simp only [follow]
        rw [if_pos htype]
        obtain ⟨v₁,hr₁,hshown₁⟩ := World.keepsShown_login hlogin s.view h
        obtain ⟨v₂,hr₂,hshown₂⟩ := hshown₁.enterGame huid
        have hview := (hr₁.trans hr₂).receive
        simp only [Faithful, join]
        rw [hview]
        exact hshown₂
      | login uid name pass character =>
        exact h.receive (World.keepsShown_login (toOption_eq_some hw))
      | dbTake outcome heap => exact h.receive (World.keepsShown_dbTake (toOption_eq_some hw))
      | dbFinish outcome heap now =>
        cases hw
        exact h.receive (World.keepsShown_dbFinish outcome heap now s.world)
      | levelUp | timer => exact absurd trivial ha

theorem faithful_start : Faithful (start : Screens F) where
  sound _ _ hoid := by cases hoid
  complete _ hc := by cases hc
  present _ hc := by cases hc
  empty _ _ := rfl

/-- In every run of the server a client shows living monsters only, and all of them once it has
entered. -/
theorem screens_faithful (getPath : ℤ × ℤ → ℤ × ℤ → List (ℤ × ℤ)) (as : List (ServerInput F)) :
    Runs.Always (next getPath) (fun s => (∀ c, ∀ oid ∈ s.view c, s.world.Lives oid) ∧
      ∀ c ∈ s.joined, ∀ oid, s.world.Lives oid → oid ∈ s.view c) start as := by
  have hfaithful : Runs.Always (next getPath) Faithful (start : Screens F) as :=
    Runs.always (fun _ _ _ h hstep => h.next hstep) faithful_start
  exact hfaithful.imp fun s h => ⟨h.sound,h.complete⟩

end Screens

end LastHero
