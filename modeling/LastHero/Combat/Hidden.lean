import LastHero.Combat.Strike
import LastHero.Combat.Viewers

/-! What the clients know of hidden players. Hide and HideOff tell everybody that is connected;
a blow of Assassinate and Initialize end a Hide without a word, and EnterGame does not speak of it
either. -/
namespace LastHero
variable {F : Type}

/-- What a client makes of a packet. -/
def Packet.showHidden : Packet F → (Slot → Bool) → Slot → Bool
  | .scHide i, v => Function.update v i true
  | .scHideOff i, v => Function.update v i false
  | _, v => v

/-- A packet that comes twice says nothing new. -/
theorem Packet.showHidden_idem (p : Packet F) (v : Slot → Bool) :
    p.showHidden (p.showHidden v) = p.showHidden v := by
  cases p with
  | scHide i => simp [Packet.showHidden]
  | scHideOff i => simp [Packet.showHidden]
  | _ => rfl

theorem Packet.AboutLogin.showHidden {p : Packet F} (h : p.AboutLogin) (v : Slot → Bool) :
    p.showHidden v = v := by
  cases p with
  | scLoginOk | scLoginFail => rfl
  | _ => exact h.elim

variable [FloatArith F]

/-- Being hidden. EnterGame does not tell of it. -/
def cover (F : Type) [FloatArith F] : Shown F Bool where
  get := CPlayer.isHide
  init := false
  tell := Packet.showHidden
  replayed := false
  tell_tell := Packet.showHidden_idem
  tell_login _ v h := h.showHidden v
  get_new _ := rfl
  get_setObjType _ _ := rfl
  get_setCredentials _ _ _ := rfl
  get_skillOff kind _ _ := by cases kind <;> rfl
  get_addView _ _ := rfl
  get_initialized _ _ _ := rfl

/-- The server and whom its clients show as hidden. -/
abbrev Onlookers (F : Type) [FloatArith F] := Viewers (cover F)

inductive HideInput (F : Type)
  | session (a : SessionInput F)
  /-- EnterGame -/
  | join (uid : Slot)
  | hide (uid : Slot)
  | hideOff (uid : Slot)
  | assassin (uid : Slot) (now : ℕ)
  | monsters (f : MonsterId → Option (CMonster F))

/-- Assassinate reaches a monster. -/
def World.Finds (w : World F) (p : CPlayer F) (i : MonsterId) : Prop :=
  ∃ m, w.monster i = some m ∧ Reaches assassinateSweep p.pos m

namespace Onlookers

def next (s : Onlookers F) : HideInput F → Option (Onlookers F)
  | .session a => s.session a
  | .join uid => s.enter uid
  | .hide uid => s.handle uid fun p w => w.hide uid p
  | .hideOff uid => s.handle uid fun p w => w.hideOff uid p
  | .assassin uid now => s.handle uid fun p w => w.assassinate uid p now
  | .monsters f => some { s with world := { s.world with monster := f } }

/-- Nobody who is hidden hits a monster with Assassinate, nobody joins while somebody is hidden who
hid before, and players are created and initialised unhidden where nobody was hidden. -/
def KeepsCover (s : Onlookers F) : HideInput F → Prop
  | .session a => (cover F).Unseen s.world a
  | .join uid => ∀ i, s.missed uid i = false
  | .assassin uid _ => ∀ p, s.world.player uid = some p → p.isHide = true → p.isAssasinate = false →
      ∀ i, ¬ s.world.Finds p i
  | _ => True

end Onlookers

namespace World
variable {w w' w'' : World F} {id uid : Slot} {p q : CPlayer F}

/-- Nothing is said about hiding. -/
def Silent (w w' : World F) : Prop := ∀ v, (cover F).Shows v w w' v

theorem Silent.of_trace (h : w'.trace = w.trace) : Silent w w' := fun _ => .refl h

theorem Silent.trans (h : Silent w w') (h' : Silent w' w'') : Silent w w'' :=
  fun v => (h v).trans (h' v)

theorem Silent.sendTo {l : List Slot} {pkt : Packet F} (hp : ∀ v, pkt.showHidden v = v)
    (h : Silent w w') : Silent w (w'.sendTo l pkt) := fun v => (h v).sendTo hp

theorem Silent.record {a : Act F} (ha : ∀ v, (cover F).act v a = v) (h : Silent w w') :
    Silent w (w'.record a) := fun v => (h v).record ha

/-- A step that has nothing to do with hiding. -/
structure Plain (w w' : World F) : Prop where
  value : (cover F).value w' = (cover F).value w
  silent : Silent w w'

theorem Plain.refl (w : World F) : Plain w w := ⟨rfl,.of_trace rfl⟩

theorem Plain.trans (h : Plain w w') (h' : Plain w' w'') : Plain w w'' :=
  ⟨h'.value.trans h.value,h.silent.trans h'.silent⟩

theorem Plain.sendTo {l : List Slot} {pkt : Packet F} (hp : ∀ v, pkt.showHidden v = v)
    (h : Plain w w') : Plain w (w'.sendTo l pkt) := ⟨h.value,h.silent.sendTo hp⟩

theorem Plain.record {a : Act F} (ha : ∀ v, (cover F).act v a = v) (h : Plain w w') :
    Plain w (w'.record a) := ⟨h.value,h.silent.record ha⟩

theorem Plain.modifyPlayer {f : CPlayer F → CPlayer F} (hf : ∀ p, (f p).isHide = p.isHide)
    (h : Plain w w') : Plain w (w'.modifyPlayer uid f) :=
  h.trans ⟨Shown.value_modifyPlayer hf,.of_trace rfl⟩

theorem Plain.addView {i j : Slot} (h : Plain w w') :
    Plain w (w'.modifyPlayer i (CPlayer.addView j)) :=
  h.modifyPlayer (f := CPlayer.addView j) fun _ => rfl

theorem plain_meet (w : World F) (i : Slot) : Plain w (meet id w i) := by
  simp only [meet]
  split
  · split_ifs
    · exact .refl w
    · rename_i me other _ _ _
      have hview : Plain w ((w.modifyPlayer id (CPlayer.addView i)).modifyPlayer i
          (CPlayer.addView id)) := (Plain.refl w).addView.addView
      have hmet : Plain w ((((w.modifyPlayer id (CPlayer.addView i)).modifyPlayer i
          (CPlayer.addView id)).sendTo [i] (me.makeEnterPacket id)).sendTo [id]
            (other.makeEnterPacket i)) := (hview.sendTo fun _ => rfl).sendTo fun _ => rfl
      simp only [replay]
      apply Plain.sendTo fun _ => rfl
      split
      · exact hmet.sendTo fun _ => rfl
      · exact hmet.sendTo fun _ => rfl
      · exact hmet
  · exact .refl w

theorem plain_enterGame (id : Slot) (w : World F) : Plain w (w.enterGame id) := by
  have hmonster : ∀ (w : World F) i, Plain w (showMonster id w i) := by
    intro w i
    simp only [showMonster]
    split
    · split_ifs
      · exact .refl w
      · exact (Plain.refl w).sendTo fun _ => rfl
    · exact .refl w
  have hshow : Plain w (monsterIds.foldl (showMonster id) (slots.foldl (meet id) w)) :=
    (KeyedFold.foldl_related .refl .trans plain_meet slots w).trans
      (KeyedFold.foldl_related .refl .trans hmonster monsterIds _)
  simp only [enterGame]
  split_ifs
  · exact hshow.sendTo fun _ => rfl
  · exact hshow

theorem Plain.levelUp (h : Plain w w') : Plain w (w'.levelUp id) := by
  have hgain : Plain w (w'.modifyPlayer id CPlayer.gainLevel) := h.modifyPlayer fun _ => rfl
  simp only [World.levelUp]
  split
  · exact hgain
  · exact ⟨hgain.value,hgain.silent.sendTo fun _ => rfl⟩

theorem Plain.strike {i : MonsterId} {m : CMonster F} {damage : ℤ}
    (h : Plain w w') : Plain w (w'.strike id i m damage) := by
  have hhit : Plain w ((w'.setMonster i (m.damaged damage)).record
      (.hit id i damage (m.damaged damage).healthPoint)) :=
    ⟨h.value,h.silent.record fun _ => rfl⟩
  simp only [World.strike]
  split_ifs
  · have hkill : Plain w ((((w'.setMonster i (m.damaged damage)).record
        (.hit id i damage (m.damaged damage).healthPoint)).record (.kill id i)).modifyPlayer id
          (CPlayer.gainExp (m.damaged damage).exp)) :=
      (hhit.record fun _ => rfl).modifyPlayer fun _ => rfl
    simp only [killMonster]
    split
    · exact hkill
    · split_ifs
      · exact ((hkill.sendTo fun _ => rfl).sendTo fun _ => rfl).levelUp
      · exact (hkill.sendTo fun _ => rfl).sendTo fun _ => rfl
  · exact hhit.sendTo fun _ => rfl

/-- The loop of Assassinate over the first monsters. -/
structure Stalks (id : Slot) (p : CPlayer F) (w : World F) (l : List MonsterId)
    (v : World F) : Prop where
  player : (v.player id).map CPlayer.pos = some p.pos
  monster : ∀ i ∉ l, v.monster i = w.monster i
  silent : Silent w v
  misses : (∀ i ∈ l, ¬ w.Finds p i) → (cover F).value v = (cover F).value w
  hits : (∃ i ∈ l, w.Finds p i) → (cover F).value v = Function.update ((cover F).value w) id false

section Assassin
variable {i : MonsterId}

/-- One monster either is out of reach, or gives the player away. -/
theorem sweepOne_assassin (s : World F × Bool) (i : MonsterId) (hp : s.1.player id = some p) :
    (¬ s.1.Finds p i ∧ sweepOne assassinateSweep id s i = s) ∨
      (s.1.Finds p i ∧ ∃ m, s.1.monster i = some m ∧ (sweepOne assassinateSweep id s i).1 =
        (s.1.strike id i m (p.atkPoint*2)).modifyPlayer id fun q => { q with isHide := false }) := by
  simp only [sweepOne]
  rw [hp]
  cases hm : s.1.monster i with
  | none =>
    refine Or.inl ⟨?_,rfl⟩
    rintro ⟨m,hm',-⟩
    cases hm.symm.trans hm'
  | some m =>
    have hfinds : s.1.Finds p i ↔ Reaches assassinateSweep p.pos m := by
      constructor
      · rintro ⟨m',hm',h⟩
        cases hm.symm.trans hm'
        exact h
      · exact fun h => ⟨m,hm,h⟩
    rw [hfinds]
    dsimp only
    split_ifs with hdead hrange hneg
    · exact Or.inl ⟨fun h => h.healthPoint hdead,rfl⟩
    · exact Or.inl ⟨fun h => absurd hneg (not_lt.mpr h.nonneg),rfl⟩
    · exact Or.inr ⟨⟨hdead,hrange,not_lt.mp hneg⟩,m,rfl,rfl⟩
    · exact Or.inl ⟨fun h => hrange h.lt_range,rfl⟩

theorem Stalks.step {l : List MonsterId} {s : World F × Bool} (h : Stalks id p w l s.1)
    (hi : i ∉ l) : Stalks id p w (l ++ [i]) (sweepOne assassinateSweep id s i).1 := by
  obtain ⟨q,hq,hpos⟩ := Option.map_eq_some_iff.mp h.player
  have hsight : s.1.Finds q i ↔ w.Finds p i := by
    simp only [Finds]
    rw [h.monster i hi, hpos]
  have hone : ∀ {P : MonsterId → Prop}, (∀ j ∈ l ++ [i], P j) ↔ (∀ j ∈ l, P j) ∧ P i := by
    simp [or_imp, forall_and]
  have hsome : ∀ {P : MonsterId → Prop}, (∃ j ∈ l ++ [i], P j) ↔ (∃ j ∈ l, P j) ∨ P i := by
    simp [or_and_right, exists_or]
  have houtside : ∀ j, j ∉ l ++ [i] → j ∉ l ∧ j ≠ i := by
    intro j hj
    simpa [not_or] using hj
  rcases sweepOne_assassin s i hq with ⟨hmiss,hsame⟩ | ⟨hhit,m,hm,hstruck⟩
  · rw [hsight] at hmiss
    rw [hsame]
    refine ⟨h.player,fun j hj => h.monster j (houtside j hj).1,h.silent,?_,?_⟩
    · exact fun hall => h.misses (hone.mp hall).1
    · exact fun hany => h.hits ((hsome.mp hany).resolve_right hmiss)
  · rw [hsight] at hhit
    obtain ⟨hplayer,hmonster,-,-⟩ := struck_strike i m (q.atkPoint*2) hq
    have hplain : Plain s.1 (s.1.strike id i m (q.atkPoint*2)) := (Plain.refl _).strike
    have hself := congrFun hplayer id
    rw [Function.update_self] at hself
    rw [hstruck]
    refine ⟨?_,fun j hj => ?_,?_,fun hall => absurd hhit (hone.mp hall).2,fun _ => ?_⟩
    · rw [modifyPlayer_player, if_pos rfl, hself, Option.map_some, Option.map_some, ← hpos]
      split_ifs
      · exact congrArg some (q.rewarded_pos m.exp)
      · rfl
    · obtain ⟨hl,hne⟩ := houtside j hj
      change (s.1.strike id i m (q.atkPoint*2)).monster j = _
      rw [hmonster, Function.update_of_ne hne, h.monster j hl]
    · exact (h.silent.trans hplain.silent).trans (.of_trace rfl)
    · have hset := Shown.value_set (φ := cover F) (f := fun q => { q with isHide := false })
        (b := false) (fun _ => rfl) (Option.isSome_of_mem hself)
      refine hset.trans ?_
      rw [hplain.value]
      by_cases hbefore : ∃ j ∈ l, w.Finds p j
      · rw [h.hits hbefore, Function.update_idem]
      · rw [h.misses fun j hj hf => hbefore ⟨j,hj,hf⟩]

theorem stalks_sweep (hp : w.player id = some p) :
    Stalks id p w monsterIds (w.sweep assassinateSweep id) := by
  rw [sweep, sweepOver_eq_foldl]
  apply KeyedFold.foldl_prefixes (P := fun l (s : World F × Bool) => Stalks id p w l s.1)
    nodup_monsterIds
  · refine ⟨?_,fun _ _ => rfl,.of_trace rfl,fun _ => rfl,by simp⟩
    rw [hp, Option.map_some]
  · intro l i s hi hs
    exact hs.step hi

/-- What becomes of Hide in an Assassinate. -/
structure Exposes (id : Slot) (p : CPlayer F) (w w' : World F) : Prop where
  silent : Silent w w'
  misses : (∀ i, ¬ w.Finds p i) → (cover F).value w' = (cover F).value w
  hits : (∃ i, w.Finds p i) → (cover F).value w' = Function.update ((cover F).value w) id false

theorem Stalks.exposes (h : Stalks id p (w.broadcast (.scAssassin id)) monsterIds w') (t : ℕ) :
    Exposes id p w (w'.addTimer (.off .evAssOff id) t 0) := by
  have hsent : Silent w (w.broadcast (.scAssassin id)) := (Silent.of_trace rfl).sendTo fun _ => rfl
  refine ⟨hsent.trans (h.silent.trans (.of_trace rfl)),fun hnone => ?_,?_⟩
  · exact h.misses fun i _ => hnone i
  · rintro ⟨i,hi⟩
    exact h.hits ⟨i,mem_monsterIds i,hi⟩

/-- Assassinate says nothing of hiding, but a hit ends it. -/
theorem exposes_assassinate (hready : p.isAssasinate = false) (hp : w.player id = some p)
    (now : ℕ) : Exposes id p w (w.assassinate id p now) := by
  have hsweep : Stalks id p (w.broadcast (.scAssassin id)) monsterIds
      ((w.broadcast (.scAssassin id)).sweep assassinateSweep id) := stalks_sweep hp
  simp only [assassinate]
  rw [hready, if_neg Bool.false_ne_true]
  exact hsweep.exposes (now+2000)

end Assassin

end World

namespace Onlookers
open Viewers
variable {s t : Onlookers F} {w' : World F} {uid : Slot} {p : CPlayer F}

/-- Whoever hides or shows up tells everybody. -/
theorem tell {b : Bool} {f : CPlayer F → CPlayer F} {pkt : Packet F} (h : Inv s) (ha : s.Agree)
    (hp : s.world.player uid = some p) (hfresh : p.isHide ≠ b) (hf : ∀ q, (f q).isHide = b)
    (hpkt : ∀ v, pkt.showHidden v = Function.update v uid b)
    (hk : s.world.Keeps ((s.world.modifyPlayer uid f).broadcast pkt)) :
    Inv (s.receive ((s.world.modifyPlayer uid f).broadcast pkt)) ∧
      (s.receive ((s.world.modifyPlayer uid f).broadcast pkt)).Agree := by
  have hvalue := Shown.value_set (φ := cover F) hf (Option.isSome_of_mem hp)
  have hshows := Shown.shows_broadcast (φ := cover F) pkt s.view (s.world.modifyPlayer uid f)
  refine h.turn ha hk hvalue ?_ fun c hc => ?_
  · rw [Shown.value_some hp]
    exact hfresh
  · rw [receive_view (Shown.Shows.trans (.refl rfl) hshows)]
    dsimp only
    rw [World.isSome_modifyPlayer, if_pos hc]
    exact hpkt _

/-- A step that tells nothing and changes nobody. -/
theorem same (h : Inv s) (ha : s.Agree) : Inv (s.receive s.world) ∧ (s.receive s.world).Agree := by
  rw [receive_self]
  exact ⟨h,ha⟩

theorem hide (h : Inv s) (ha : s.Agree) (hp : s.world.player uid = some p) :
    Inv (s.receive (s.world.hide uid p)) ∧ (s.receive (s.world.hide uid p)).Agree := by
  have hk : s.world.Keeps (s.world.hide uid p) := (World.quiet_hide p s.world).toKeeps
  simp only [World.hide] at hk ⊢
  split_ifs at hk ⊢ with hhide
  · exact same h ha
  · exact tell h ha hp hhide (fun _ => rfl) (fun _ => rfl) hk

theorem hideOff (h : Inv s) (ha : s.Agree) (hp : s.world.player uid = some p) :
    Inv (s.receive (s.world.hideOff uid p)) ∧ (s.receive (s.world.hideOff uid p)).Agree := by
  have hk : s.world.Keeps (s.world.hideOff uid p) := (World.quiet_hideOff p s.world).toKeeps
  simp only [World.hideOff] at hk ⊢
  split_ifs at hk ⊢ with hhide
  · exact same h ha
  · exact tell h ha hp (by simpa using hhide) (fun _ => rfl) (fun _ => rfl) hk

/-- An Assassinate changes nothing exactly if its player was not hidden, or hits nobody. -/
theorem assassin_value (hp : s.world.player uid = some p) (now : ℕ) :
    KeepsCover s (.assassin uid now) ↔
      (cover F).value (s.world.assassinate uid p now) = (cover F).value s.world := by
  have hvalue : (cover F).value s.world uid = p.isHide := Shown.value_some hp
  have hcover : KeepsCover s (.assassin uid now) ↔
      (p.isHide = true → p.isAssasinate = false → ∀ i, ¬ s.world.Finds p i) := by
    simp only [KeepsCover]
    rw [hp]
    simp
  rw [hcover]
  by_cases hready : p.isAssasinate = false
  · have hexposes := World.exposes_assassinate hready hp now
    by_cases hfinds : ∃ i, s.world.Finds p i
    · rw [hexposes.hits hfinds, Function.update_eq_self_iff, hvalue]
      obtain ⟨i,hi⟩ := hfinds
      constructor
      · intro hown
        cases hhide : p.isHide with
        | false => rfl
        | true => exact absurd hi (hown hhide hready i)
      · intro hbare hhide
        rw [← hbare] at hhide
        cases hhide
    · exact iff_of_true (fun _ _ i hi => hfinds ⟨i,hi⟩)
        (hexposes.misses fun i hi => hfinds ⟨i,hi⟩)
  · have hrefused : s.world.assassinate uid p now = s.world := by
      simp only [World.assassinate]
      rw [if_pos (by simpa using hready)]
    rw [hrefused]
    exact iff_of_true (fun _ hr => absurd hr hready) rfl

theorem silent_assassinate (hp : s.world.player uid = some p) (now : ℕ) :
    s.world.Silent (s.world.assassinate uid p now) := by
  by_cases hready : p.isAssasinate = false
  · exact (World.exposes_assassinate hready hp now).silent
  · simp only [World.assassinate]
    rw [if_pos (by simpa using hready)]
    exact .of_trace rfl

/-- EnterGame tells nobody who is hidden. -/
theorem enter_spec (h : Inv s) (ha : s.Agree) (ht : s.enter uid = some t) :
    Inv t ∧ (t.Agree ↔ ∀ i, s.missed uid i = false) := by
  obtain ⟨-,hsilent⟩ := World.plain_enterGame uid s.world
  have hnone : ∀ c i, (cover F).informs s.world uid c i = false := by simp [Shown.informs, cover]
  obtain ⟨hinv,hagree⟩ := h.enter ha ht ((hsilent s.view).congr fun c i => if_neg (by simp [hnone]))
  refine ⟨hinv,hagree.trans ?_⟩
  simp [cover]

theorem next_spec {a : HideInput F} (h : Inv s) (ha : s.Agree) (ht : s.next a = some t) :
    (KeepsCover s a → Inv t) ∧ (t.Agree ↔ KeepsCover s a) := by
  cases a with
  | session a => exact h.session ha ht
  | join uid =>
    obtain ⟨hinv,hagree⟩ := enter_spec h ha ht
    exact ⟨fun _ => hinv,hagree⟩
  | hide uid =>
    obtain ⟨p,hp,rfl⟩ := handle_spec ht
    obtain ⟨hinv,hagree⟩ := hide h ha hp
    exact ⟨fun _ => hinv,iff_of_true hagree trivial⟩
  | hideOff uid =>
    obtain ⟨p,hp,rfl⟩ := handle_spec ht
    obtain ⟨hinv,hagree⟩ := hideOff h ha hp
    exact ⟨fun _ => hinv,iff_of_true hagree trivial⟩
  | assassin uid now =>
    obtain ⟨p,hp,rfl⟩ := handle_spec ht
    have hk : s.world.Keeps (s.world.assassinate uid p now) :=
      (World.quiet_assassinate p now s.world).toKeeps
    rw [assassin_value hp]
    exact h.silent ha (hk.dbInv h.db) hk.isSome (silent_assassinate hp now s.view)
  | monsters f =>
    cases ht
    have hdb : World.DbInv { s.world with monster := f } :=
      h.db.mono ⟨rfl,fun _ => rfl⟩ fun ev hev => Or.inl hev
    exact ⟨fun _ => ⟨hdb,h.joined,h.view,h.missed⟩,iff_of_true ha trivial⟩

/-- The clients show who is hidden throughout a run if and only if in it nobody who is hidden hits
a monster with Assassinate, nobody joins who has missed a Hide that still lasts, and players are
created and initialised unhidden where nobody was hidden. -/
theorem hidden_agree_iff (as : List (HideInput F)) :
    Runs.Always next Agree (start (cover F)) as ↔
      Runs.Along next KeepsCover (start (cover F)) as :=
  Runs.always_iff_along (fun _ _ _ hi hp hq ht => (next_spec hi hp ht).1 hq)
    (fun _ _ _ hi hp ht => (next_spec hi hp ht).2) start_inv start_agree

/-- Hiding and then hitting a monster with Assassinate leaves a wrong view. -/
theorem hide_assassin {i : MonsterId} (h : Inv s) (ha : s.Agree)
    (hp : s.world.player uid = some p) (hbare : p.isHide = false) (hready : p.isAssasinate = false)
    (hi : s.world.Finds p i) : ¬ Runs.Always next Agree s [.hide uid,.assassin uid 0] := by
  intro hall
  have hfirst : s.next (.hide uid) = some (s.receive (s.world.hide uid p)) := handle_some hp
  have hhide : s.world.hide uid p = (s.world.modifyPlayer uid fun q =>
      { q with isHide := true }).broadcast (.scHide uid) := if_neg (by rw [hbare]; decide)
  have hinv := (next_spec h ha hfirst).1 trivial
  have hrest := hall.2 _ hfirst
  have hplayer : (s.world.hide uid p).player uid = some { p with isHide := true } := by
    rw [hhide]
    exact World.modifyPlayer_self _ hp
  have hfinds : (s.world.hide uid p).Finds { p with isHide := true } i := by
    rw [hhide]
    exact hi
  have hlast : next (s.receive (s.world.hide uid p)) (.assassin uid 0) = _ :=
    handle_some (s := s.receive (s.world.hide uid p)) hplayer
  exact (next_spec hinv hrest.head hlast).2.mp (hrest.2 _ hlast).head _ hplayer rfl hready i hfinds

/-- A goblin where players appear. -/
def bystander : CMonster ℚ :=
  CMonster.initializeMonster (Position.lits 10227.3125 76509.90625 0) CMonster.objGoblin

theorem goblin_hide_assassin {s : Onlookers ℚ} {p : CPlayer ℚ} (h : Inv s)
    (hp : s.world.player 0 = some p)
    (hpos : p.pos = Position.lits 10227.3125 76509.90625 (-437.344971)) (hbare : p.isHide = false)
    (hready : p.isAssasinate = false) : ¬ Runs.Always next Agree s
      [.monsters fun _ => some bystander,.hide 0,.assassin 0 0] := by
  intro hall
  obtain ⟨t,ht⟩ : ∃ t, next s (.monsters fun _ => some bystander) = some t := ⟨_,rfl⟩
  have hinv := (next_spec h hall.head ht).1 trivial
  have hend := hall.2 t ht
  have hreach : World.Reaches World.assassinateSweep p.pos bystander := by
    rw [hpos]
    exact ⟨by decide +kernel,by decide +kernel,by decide +kernel⟩
  cases ht
  exact hide_assassin (i := 0) hinv hend.head hp hbare hready ⟨bystander,rfl,hreach⟩ hend

/-- EnterGame leaves a player where it is, and as it is. -/
theorem join_hide_assassin {s : Onlookers ℚ} {p : CPlayer ℚ} (h : Inv s) (ha : s.Agree)
    (hp : s.world.player 0 = some p)
    (hpos : p.pos = Position.lits 10227.3125 76509.90625 (-437.344971)) (hbare : p.isHide = false)
    (hready : p.isAssasinate = false) : ¬ Runs.Always next Agree s
      [.join 0,.monsters fun _ => some bystander,.hide 0,.assassin 0 0] := by
  intro hall
  have hjoin : s.next (.join 0) = some (join 0 (s.receive (s.world.enterGame 0))) := enter_some hp
  obtain ⟨hinv,-⟩ := enter_spec h ha hjoin
  have hkept := World.map_enterGame (g := fun q : CPlayer ℚ => (q.pos,q.isHide,q.isAssasinate))
    (fun _ _ => rfl) 0 s.world 0
  rw [hp, Option.map_some, Option.map_eq_some_iff] at hkept
  obtain ⟨q,hq,hsame⟩ := hkept
  simp only [hpos, hbare, hready, Prod.mk.injEq] at hsame
  exact goblin_hide_assassin hinv hq hsame.1 hsame.2.1 hsame.2.2 (hall.2 _ hjoin)

/-- A player logs in, hides and assassinates a goblin: it is still shown as hidden. -/
theorem assassin_stays_hidden : ∃ as : List (HideInput ℚ),
    ¬ Runs.Always next Agree (start (cover ℚ)) as := by
  let logins : List (HideInput ℚ) := [.session (.accept zeroPlayer),
    .session (.login 0 [97] [98] 0),.session (.dbTake .noRow zeroPlayer),
    .session (.dbFinish (.row ⟨100,0,0,1,100⟩) zeroPlayer 0)]
  refine ⟨logins ++ [.join 0,.monsters fun _ => some bystander,.hide 0,.assassin 0 0],
    fun hall => ?_⟩
  obtain ⟨s,hs⟩ : ∃ s, Runs.run next (start (cover ℚ)) logins = some s := ⟨_,rfl⟩
  have hok : Runs.Along next KeepsCover (start (cover ℚ)) logins := by
    rw [Runs.along_cons rfl, Runs.along_cons rfl, Runs.along_cons rfl, Runs.along_cons rfl]
    refine ⟨fun _ => rfl,trivial,trivial,fun ev hev => ?_,trivial⟩
    cases hev
    rfl
  obtain ⟨p,hp,hpos,hbare,hready⟩ : ∃ p, s.world.player 0 = some p ∧
      p.pos = Position.lits 10227.3125 76509.90625 (-437.344971) ∧ p.isHide = false ∧
      p.isAssasinate = false := by
    cases hs
    exact ⟨_,rfl,rfl,rfl,rfl⟩
  obtain ⟨hinv,hagree⟩ := Runs.reached (fun _ _ _ hi hp hq ht => (next_spec hi hp ht).1 hq)
    (fun _ _ _ hi hp ht => (next_spec hi hp ht).2) start_inv start_agree hok hs
  exact join_hide_assassin hinv hagree hp hpos hbare hready (hall.right hs)

end Onlookers

end LastHero
