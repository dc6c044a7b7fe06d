import LastHero.Server.Steps
import LastHero.Combat.Strike

/-! The fight with the boss, over all that can happen on the server: thirty hits, one death, which
everybody is told of, and no attack after it. -/
namespace LastHero
variable {F : Type}

def Act.woundsBoss : Act F → Bool
  | .hitBoss .. => true
  | _ => false

/-- SC_DEAD of the boss. -/
def Act.bossDead : Act F → Bool
  | .send _ (.scDead oid) => oid = bossIdx
  | _ => false

/-- Client `c` is told of the death of the boss. -/
def Act.tellsBossDead (c : Slot) : Act F → Bool
  | .send c' (.scDead oid) => c' = c && oid = bossIdx
  | _ => false

/-- The boss attacks or is hit. -/
def Act.fightsBoss : Act F → Bool
  | .send _ (.scBossAttack ..) => true
  | .hitBoss .. => true
  | _ => false

namespace World

def bossWounds (w : World F) : ℕ := w.trace.countP Act.woundsBoss

def bossNews (w : World F) (c : Slot) : ℕ := w.trace.countP (Act.tellsBossDead c)

/-- The hits that kill the boss. -/
def bossLife : ℕ := 30

/-- The state of the fight is what the hits make of it, and its end is the end. -/
structure Fought (w : World F) : Prop where
  boss : ∃ b, w.boss = some b ∧ b.mainHP = 600-20*w.bossWounds
  hits : w.bossWounds ≤ bossLife
  news : ∀ c, w.bossNews c ≤ if w.bossWounds = bossLife then 1 else 0
  lasts : w.trace.Pairwise fun a a' => a.bossDead = true → a'.fightsBoss = false

/-- The step that kills the boss tells everybody. -/
def Mourned (w w' : World F) : Prop := w.bossWounds < bossLife → w'.bossWounds = bossLife →
  ∀ c, (w'.player c).isSome → w'.bossNews c = 1

variable {w w' : World F} {b : Boss F} {new : List (Act F)}

theorem countP_append_eq {α : Type} {f : α → Bool} {l new : List α} (h : ∀ a ∈ new, f a = false) :
    (l ++ new).countP f = l.countP f := by
  have hnone : new.countP f = 0 := List.countP_eq_zero.mpr fun a ha => by simp [h a ha]
  rw [List.countP_append, hnone, add_zero]

theorem tellsBossDead_send (c d : Slot) (p : Packet F) :
    (Act.send d p).tellsBossDead c = (decide (d = c) && (Act.send d p).bossDead) := by
  cases p with
  | scDead oid => rfl
  | _ => exact (Bool.and_false _).symm

/-- Before the last hit nobody is told. -/
theorem Fought.untold (h : Fought w) (hlt : w.bossWounds < bossLife) : ∀ a ∈ w.trace,
    a.bossDead = false := by
  intro a ha
  cases a with
  | send c p =>
    have hnone := h.news c
    rw [if_neg hlt.ne, Nat.le_zero, bossNews, List.countP_eq_zero] at hnone
    have hac := hnone _ ha
    rwa [tellsBossDead_send, decide_eq_true rfl, Bool.true_and, Bool.not_eq_true] at hac
  | _ => rfl

/-- Acts that have nothing to do with the life of the boss. -/
theorem Fought.append (h : Fought w) (hb : ∃ b b', w.boss = some b ∧ w'.boss = some b' ∧
    b'.mainHP = b.mainHP) (ht : w'.trace = w.trace ++ new)
    (hnew : ∀ a ∈ new, a.woundsBoss = false ∧ a.bossDead = false)
    (hlast : (∃ a ∈ w.trace, a.bossDead = true) → ∀ a ∈ new, a.fightsBoss = false) :
    Fought w' ∧ w'.bossWounds = w.bossWounds := by
  have hhits : w'.bossWounds = w.bossWounds := by
    rw [bossWounds, ht, countP_append_eq fun a ha => (hnew a ha).1]
    rfl
  have hnews : ∀ c, w'.bossNews c = w.bossNews c := by
    intro c
    rw [bossNews, ht, countP_append_eq]
    · rfl
    · intro a ha
      have hquiet := (hnew a ha).2
      cases a with
      | send d p => rw [tellsBossDead_send, hquiet, Bool.and_false]
      | _ => rfl
  refine ⟨⟨?_,hhits ▸ h.hits,fun c => ?_,?_⟩,hhits⟩
  · obtain ⟨b,b',hb,hb',hhp⟩ := hb
    obtain ⟨b₀,hb₀,hhp₀⟩ := h.boss
    obtain rfl : b = b₀ := Option.some.inj (hb.symm.trans hb₀)
    exact ⟨b',hb',by rw [hhp, hhp₀, hhits]⟩
  · rw [hnews, hhits]
    exact h.news c
  · rw [ht, List.pairwise_append]
    refine ⟨h.lasts,?_,fun a ha a' ha' hdead => hlast ⟨a,ha,hdead⟩ a' ha'⟩
    refine List.pairwise_of_forall_mem_list fun a ha a' _ hdead => ?_
    rw [(hnew a ha).2] at hdead
    cases hdead

theorem idle_aside {p : Packet F} (hp : p.Idle) (c : Slot) :
    (Act.send c p).bossDead = false ∧ (Act.send c p).fightsBoss = false := by
  cases p with
  | scDead oid =>
    have hlt : oid < npcIdStart := hp
    refine ⟨decide_eq_false ?_,rfl⟩
    rintro rfl
    exact absurd hlt (by decide)
  | scBossAttack => exact hp.elim
  | _ => exact ⟨rfl,rfl⟩

/-- What a deed makes of the fight. -/
structure Fights (w w' : World F) : Prop where
  fought : Fought w'
  roster : ∀ i, (w'.player i).isSome = (w.player i).isSome
  acts : w.trace <+: w'.trace
  mourned : Mourned w w'

theorem Fights.refl (h : Fought w) : Fights w w :=
  ⟨h,fun _ => rfl,List.prefix_refl _,fun hlt he => absurd he hlt.ne⟩

theorem Fights.trans {w'' : World F} (h : Fights w w') (h' : Fights w' w'') : Fights w w'' := by
  refine ⟨h'.fought,fun i => (h'.roster i).trans (h.roster i),h.acts.trans h'.acts,?_⟩
  intro hlt he c hc
  rcases h.fought.hits.lt_or_eq with hlt' | he'
  · exact h'.mourned hlt' he c hc
  · have hone := h.mourned hlt he' c (by rw [← h'.roster c]; exact hc)
    have hgrow : w'.bossNews c ≤ w''.bossNews c := h'.acts.sublist.countP_le
    have hlast := h'.fought.news c
    rw [if_pos he] at hlast
    omega

/-- The boss lives, and something else happens. -/
theorem Fought.fights (h : Fought w) (hb : w'.boss = w.boss)
    (hp : ∀ i, (w'.player i).isSome = (w.player i).isSome) (ht : w'.trace = w.trace ++ new)
    (hnew : ∀ a ∈ new, a.woundsBoss = false ∧ a.bossDead = false ∧ a.fightsBoss = false) :
    Fights w w' := by
  obtain ⟨b,hb₀,-⟩ := h.boss
  obtain ⟨hfought,hhits⟩ := h.append ⟨b,b,hb₀,hb ▸ hb₀,rfl⟩ ht
    (fun a ha => ⟨(hnew a ha).1,(hnew a ha).2.1⟩) fun _ a ha => (hnew a ha).2.2
  exact ⟨hfought,hp,ht ▸ List.prefix_append ..,fun hlt he => absurd (hhits ▸ he) hlt.ne⟩

theorem Fought.sendTo {l : List Slot} {p : Packet F} (h : Fought w)
    (hp : ∀ c, (Act.send c p).bossDead = false ∧ (Act.send c p).fightsBoss = false) :
    Fights w (w.sendTo l p) := by
  refine h.fights rfl (fun _ => rfl) rfl fun a ha => ?_
  obtain ⟨c,-,rfl⟩ := List.mem_map.mp ha
  exact ⟨rfl,hp c⟩

theorem Fought.fights_same (h : Fought w) (hb : w'.boss = w.boss)
    (hp : ∀ i, (w'.player i).isSome = (w.player i).isSome) (ht : w'.trace = w.trace) :
    Fights w w' := by
  have hnone : w'.trace = w.trace ++ [] := ht.trans (List.append_nil _).symm
  exact h.fights hb hp hnone (by simp)

/-- The record of a hit, with no news so far. -/
theorem Fought.record (id : Slot) (h : Fought w) (hlt : w.bossWounds < bossLife) :
    (w.record (.hitBoss id 20)).bossWounds = w.bossWounds+1 ∧
      (∀ a ∈ (w.record (.hitBoss id 20)).trace, a.bossDead = false) ∧
      (∀ c, (w.record (.hitBoss id 20)).bossNews c = 0) := by
  refine ⟨List.countP_append,fun a ha => ?_,fun c => ?_⟩
  · rcases List.mem_append.mp ha with ha | ha
    · exact h.untold hlt a ha
    · obtain rfl := List.mem_singleton.mp ha
      rfl
  · have hnews := h.news c
    rw [if_neg hlt.ne, Nat.le_zero] at hnews
    exact (countP_append_eq (by simp [Act.tellsBossDead])).trans hnews

/-- The last hit is told to everybody. -/
theorem bossNews_broadcast (c : Slot) (w : World F) : (w.broadcast (.scDead bossIdx)).bossNews c =
    w.bossNews c + if (w.player c).isSome then 1 else 0 := by
  have htold : (w.connected.map fun i => (Act.send i (.scDead bossIdx) : Act F)).countP
      (Act.tellsBossDead c) = w.connected.count c := by
    rw [List.countP_map, List.count]
    refine List.countP_congr fun i _ => ?_
    simp [Act.tellsBossDead]
  have hnodup : w.connected.Nodup := (List.nodup_finRange maxPlayer).filter _
  rw [bossNews, World.broadcast, World.sendTo, List.countP_append, htold, hnodup.count]
  simp [connected, mem_slots, bossNews]

/-- A hit on the living boss. -/
theorem Fought.wound {id : Slot} (h : Fought w) (hb : w.boss = some b) (halive : 0 < b.mainHP) :
    Fights w ((w.record (.hitBoss id 20)).bossTakeDamage 20) := by
  obtain ⟨b₀,hb₀,hhp⟩ := h.boss
  obtain rfl : b = b₀ := Option.some.inj (hb.symm.trans hb₀)
  have hlt : w.bossWounds < bossLife := by
    unfold bossLife
    omega
  obtain ⟨hhits,huntold,hnone⟩ := h.record id hlt
  have hb' : (w.record (.hitBoss id 20)).boss = some b := hb
  have hacts : w.trace <+: (w.record (.hitBoss id 20)).trace := List.prefix_append ..
  have hroster : ∀ i, ((w.record (.hitBoss id 20)).player i).isSome = (w.player i).isSome :=
    fun _ => rfl
  generalize w.record (.hitBoss id 20) = v at *
  have hlasts : v.trace.Pairwise fun a a' => a.bossDead = true → a'.fightsBoss = false := by
    refine List.pairwise_of_forall_mem_list fun a ha a' _ hdead => ?_
    rw [huntold a ha] at hdead
    cases hdead
  unfold bossLife at hlt
  simp only [bossTakeDamage]
  rw [hb']
  dsimp only
  split_ifs with hdead
  · let u := v.setBoss { b with mainHP := 0 }
    have hsends : ∀ a ∈ u.connected.map fun i => (Act.send i (.scDead bossIdx) : Act F),
        a.woundsBoss = false ∧ a.fightsBoss = false := by
      intro a ha
      obtain ⟨i,-,rfl⟩ := List.mem_map.mp ha
      exact ⟨rfl,rfl⟩
    have hlast : (u.broadcast (.scDead bossIdx)).bossWounds = bossLife := by
      rw [bossWounds, World.broadcast, World.sendTo, countP_append_eq fun a ha => (hsends a ha).1]
      change v.bossWounds = 30
      omega
    have hnews : ∀ c, (u.broadcast (.scDead bossIdx)).bossNews c =
        if (u.player c).isSome then 1 else 0 := by
      intro c
      rw [bossNews_broadcast, show u.bossNews c = 0 from hnone c, zero_add]
    refine ⟨⟨⟨_,rfl,?_⟩,hlast.le,fun c => ?_,?_⟩,hroster,hacts.trans (List.prefix_append ..),?_⟩
    · rw [hlast]
      rfl
    · rw [hnews, hlast, if_pos rfl]
      split_ifs
      · exact le_rfl
      · exact Nat.zero_le _
    · refine List.pairwise_append.mpr ⟨hlasts,?_,fun a _ a' ha' _ => (hsends a' ha').2⟩
      exact List.pairwise_of_forall_mem_list fun a _ a' ha' _ => (hsends a' ha').2
    · intro _ _ c hc
      rw [hnews]
      exact if_pos hc
  · have hhits' : (v.setBoss { b with mainHP := b.mainHP-20 }).bossWounds = w.bossWounds+1 := hhits
    refine ⟨⟨⟨_,rfl,?_⟩,?_,fun c => ?_,hlasts⟩,hroster,hacts,fun _ he => ?_⟩
    · rw [hhits', hhp]
      push_cast
      ring
    · rw [hhits']
      exact hlt
    · exact (hnone c).le.trans (Nat.zero_le _)
    · rw [hhits'] at he
      unfold bossLife at he
      omega

/-- An attack of the living boss. -/
theorem Fought.announce [FloatArith F] {atk : BState} {p : CPlayer F} (h : Fought w)
    (hb : w.boss = some b) (halive : 0 < b.mainHP) : Fights w (w.announce atk p) := by
  obtain ⟨b₀,hb₀,hhp⟩ := h.boss
  obtain rfl : b = b₀ := Option.some.inj (hb.symm.trans hb₀)
  have hlt : w.bossWounds < bossLife := by
    unfold bossLife
    omega
  have hsends : ∀ a ∈ w.connected.map fun i => Act.send i (.scBossAttack bossIdx atk p.pos),
      a.woundsBoss = false ∧ a.bossDead = false := by
    intro a ha
    obtain ⟨i,-,rfl⟩ := List.mem_map.mp ha
    exact ⟨rfl,rfl⟩
  have hsame : ∃ b b', w.boss = some b ∧ (w.announce atk p).boss = some b' ∧
      b'.mainHP = b.mainHP := ⟨b,b,hb,hb,rfl⟩
  have hlast : (∃ a ∈ w.trace, a.bossDead = true) → ∀ a ∈ w.connected.map fun i =>
      Act.send i (.scBossAttack bossIdx atk p.pos), a.fightsBoss = false := by
    rintro ⟨a,ha,hdead⟩
    rw [h.untold hlt a ha] at hdead
    cases hdead
  obtain ⟨hfought,hhits⟩ := h.append hsame rfl hsends hlast
  exact ⟨hfought,fun _ => rfl,List.prefix_append ..,fun hlt he => absurd (hhits ▸ he) hlt.ne⟩

theorem Fought.deed [FloatArith F] {turn : Turn} (hd : Deed turn w w') (h : Fought w) :
    Fights w w' := by
  cases hd with
  | send l p hp => exact h.sendTo (idle_aside hp)
  | player i f =>
    exact h.fights_same rfl (isSome_modifyPlayer f w i) rfl
  | update id name pass =>
    exact h.fights_same rfl (fun _ => rfl) rfl
  | timers _ _ hs =>
    exact h.fights_same hs.boss (fun i => by rw [hs.player]) hs.trace
  | monster i m m' =>
    exact h.fights_same rfl (fun _ => rfl) rfl
  | appear id i m _ hm halive => exact h.sendTo fun _ => ⟨rfl,rfl⟩
  | hurt id i m damage _ _ hm halive hleft =>
    have hrecord : Fights w (w.beaten id i m damage) :=
      h.fights rfl (fun _ => rfl) rfl (by simp [Act.woundsBoss, Act.bossDead, Act.fightsBoss])
    exact hrecord.trans (hrecord.fought.sendTo fun _ => ⟨rfl,rfl⟩)
  | slay id i m damage exp _ _ _ hm halive hleft =>
    have hacts : (((w.beaten id i m damage).record (.kill id i)).modifyPlayer id
        (CPlayer.gainExp m.exp)).trace =
          w.trace ++ [.hit id i damage (m.damaged damage).healthPoint,.kill id i] :=
      List.append_assoc ..
    have hkill : Fights w (((w.beaten id i m damage).record (.kill id i)).modifyPlayer id
        (CPlayer.gainExp m.exp)) :=
      h.fights rfl (isSome_modifyPlayer _ ((w.beaten id i m damage).record (.kill id i)) id) hacts
        (by simp [Act.woundsBoss, Act.bossDead, Act.fightsBoss])
    have htell := hkill.trans (hkill.fought.sendTo (l := [id]) (p := .scGetExp exp)
      fun _ => ⟨rfl,rfl⟩)
    have hother := MonsterId.oid_ne_bossIdx i
    exact htell.trans (htell.fought.sendTo fun c => ⟨decide_eq_false hother,rfl⟩)
  | boss b b' _ hb hhp =>
    have hsame : ∃ b₁ b₂, w.boss = some b₁ ∧ (w.setBoss b').boss = some b₂ ∧
        b₂.mainHP = b₁.mainHP := ⟨b,b',hb,rfl,hhp⟩
    obtain ⟨hfought,hhits⟩ := h.append hsame (List.append_nil _).symm (by simp) (by simp)
    exact ⟨hfought,fun _ => rfl,List.prefix_refl _,fun hlt he => absurd (hhits ▸ he) hlt.ne⟩
  | wound id b _ hb halive => exact h.wound hb halive
  | announce b atk p _ _ hb halive => exact h.announce hb halive

/-- What happens aside does not touch the fight. -/
theorem Fought.aside [FloatArith F] (ha : Aside w w') (h : Fought w) :
    Fought w' ∧ w'.bossWounds = w.bossWounds := by
  obtain ⟨b,hb,-⟩ := h.boss
  obtain ⟨new,ht,hnew⟩ := ha.acts
  have hquiet : ∀ a ∈ new, a.woundsBoss = false ∧ a.bossDead = false ∧ a.fightsBoss = false := by
    intro a han
    have haside := hnew a han
    cases a with
    | send c p =>
      rcases haside with hp | ⟨uid,rfl⟩ | rfl
      · exact ⟨rfl,idle_aside hp c⟩
      · exact ⟨rfl,rfl,rfl⟩
      · exact ⟨rfl,rfl,rfl⟩
    | updateUser => exact ⟨rfl,rfl,rfl⟩
    | hit | kill | hitBoss => exact haside.elim
  exact h.append ⟨b,b,hb,ha.boss ▸ hb,rfl⟩ ht (fun a ha => ⟨(hquiet a ha).1,(hquiet a ha).2.1⟩)
    fun _ a ha => (hquiet a ha).2.2

theorem Fought.step [FloatArith F] {getPath : ℤ × ℤ → ℤ × ℤ → List (ℤ × ℤ)} {a : ServerInput F}
    (hstep : w.serverNext getPath a = some w') (h : Fought w) : Fought w' ∧ Mourned w w' := by
  obtain ⟨v,hv,hd⟩ := step_spec hstep
  obtain ⟨hfought,hhits⟩ := h.aside hv
  have hfights : Fights v w' := hd.lift (R := fun w w' => Fought w → Fights w w') (fun _ => .refl)
    (fun h h' hw => (h hw).trans (h' (h hw).fought)) (fun _ _ => Fought.deed) hfought
  refine ⟨hfights.fought,fun hlt he => hfights.mourned ?_ he⟩
  rw [hhits]
  exact hlt

theorem fought_start [FloatArith F] : Fought (start : World F) := by
  have hhits : (start : World F).bossWounds = 0 := by
    rw [bossWounds, start_trace]
    rfl
  refine ⟨⟨_,start_spec.1,?_⟩,?_,fun c => ?_,?_⟩
  · rw [hhits]
    rfl
  · rw [hhits]
    exact Nat.zero_le _
  · rw [bossNews, start_trace]
    exact Nat.zero_le _
  · rw [start_trace]
    exact List.Pairwise.nil

/-- In every run of the server the hit points of the boss are what the hits have left of them; there
are thirty hits at most, the last one is told to everybody and to nobody twice, and after it the
boss neither attacks nor is hit. -/
theorem boss_fight [FloatArith F] (getPath : ℤ × ℤ → ℤ × ℤ → List (ℤ × ℤ))
    (as : List (ServerInput F)) : Runs.Always (serverNext getPath) Fought start as ∧
      Runs.Along (serverNext getPath) (fun w a => ∀ w', w.serverNext getPath a = some w' →
        Mourned w w') start as :=
  ⟨Runs.always (fun _ _ _ h hstep => (h.step hstep).1) fought_start,
    Runs.along_of_invariant (fun _ _ _ h hstep => (h.step hstep).1)
      (fun _ _ _ h _ _ hstep => (h.step hstep).2) fought_start⟩

end World

end LastHero
