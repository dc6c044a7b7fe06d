import LastHero.Threads.Database
import LastHero.Threads.Timers

/-! The steps around the packets of the game: connections, logins, DB_Thread and TimerThread.
A login runs EnterGame before DB_Thread has seen it; Initialize follows at some later time. -/
namespace LastHero
variable {F : Type}

inductive SessionInput (F : Type)
  | accept (heap : CPlayer F)
  /-- Login, up to the EnterGame that follows it in a packet -/
  | login (uid : Slot) (id password : List Byte) (character : ℤ)
  | dbTake (outcome : World.Outcome) (heap : CPlayer F)
  | dbFinish (outcome : World.Outcome) (heap : CPlayer F) (now : ℕ)
  | timer (k now : ℕ)

def SessionInput.toInput : SessionInput F → Input F
  | .accept heap => .accept heap
  | .login uid id password character => .login uid id password character
  | .dbTake outcome heap => .dbTake outcome heap
  | .dbFinish outcome heap now => .dbFinish outcome heap now
  | .timer k now => .timer k now

/-- What is sent besides the game. -/
def Packet.AboutLogin : Packet F → Prop
  | .scLoginOk _ | .scLoginFail => True
  | _ => False

namespace World

/-- The slot of a client that a step accepts. -/
def accepts (w : World F) : SessionInput F → Option Slot
  | .accept _ => w.freeSlot
  | _ => none

/-- Between the states only answers to logins are sent. -/
def Answers (w w' : World F) : Prop :=
  ∃ new, w'.trace = w.trace ++ new ∧ ∀ c p, .send c p ∈ new → p.AboutLogin

variable {w w' w'' : World F} {i uid : Slot} {a : SessionInput F}

theorem Answers.of_trace (h : w'.trace = w.trace) : Answers w w' :=
  ⟨[],by rw [h, List.append_nil],fun _ _ hmem => by cases hmem⟩

theorem Answers.sendPacket {p : Packet F} (hp : p.AboutLogin) (h : w'.trace = w.trace) :
    Answers w (w'.sendPacket i p) := by
  refine ⟨[.send i p],?_,fun c q hmem => ?_⟩
  · rw [← h]
    rfl
  · rw [List.mem_singleton] at hmem
    cases hmem
    exact hp

theorem accept_trace (heap : CPlayer F) (w : World F) : (w.accept heap).trace = w.trace := by
  simp only [accept]
  split
  · rfl
  · rfl

theorem timerEvent_trace (ev : Event) (now : ℕ) (w : World F) :
    (timerEvent ev now w).trace = w.trace := by
  simp only [timerEvent]
  split
  · rfl
  · rfl
  · rfl

/-- DB_Thread takes an event of a player that is there. -/
theorem dbTake_present {outcome : Outcome} {heap : CPlayer F} (hw : DbInv w)
    (h : w.dbTake outcome heap = .ok w') : Answers w w' ∧
      (w'.player = w.player ∨ ∃ ev : DBEvent,
        w'.player = (w.modifyPlayer ev.userId (CPlayer.setCredentials ev.name ev.pass)).player) := by
  obtain rfl | ⟨ev,queue,hh,hq,htake⟩ := dbTake_cases h
  · exact ⟨.of_trace rfl,Or.inl rfl⟩
  obtain ⟨hun,-⟩ := unfinished_eq hh hq
  have hpresent := (hw.events ev (by rw [hun]; exact List.mem_cons_self)).present
  obtain rfl | ⟨queue',rfl⟩ | ⟨exp,rfl⟩ := htake
  · have hensure : (w.setQuaryQueue queue).ensurePlayer ev.userId heap = w.setQuaryQueue queue :=
      ensurePlayer_eq heap hpresent
    simp only [takeLogin]
    rw [hensure]
    exact ⟨.of_trace rfl,Or.inr ⟨ev,rfl⟩⟩
  · exact ⟨.of_trace rfl,Or.inl rfl⟩
  · refine ⟨⟨_,rfl,fun c p hmem => ?_⟩,Or.inl rfl⟩
    rw [List.mem_singleton] at hmem
    cases hmem

section Steps
variable [FloatArith F]

/-- Initialize with the row that the statement of a login has fetched. -/
def initialized (r : Row) (now : ℕ) (p : CPlayer F) : CPlayer F :=
  { p.initializePlayer r.hp r.oType r.exp r.level r.mp now with state := .inGame }

theorem dbFinish_row {ev : DBEvent} (hw : DbInv w) (hh : w.handling = some ev) (r : Row)
    (heap : CPlayer F) (now : ℕ) :
    Answers w (w.dbFinish (.row r) heap now) ∧
      (w.dbFinish (.row r) heap now).player =
        (w.modifyPlayer ev.userId (initialized r now)).player := by
  have hpresent := (hw.events ev (by rw [unfinished, hh]; exact List.mem_cons_self)).present
  have hensure : (w.setHandling none).ensurePlayer ev.userId heap = w.setHandling none :=
    ensurePlayer_eq heap hpresent
  simp only [dbFinish]
  rw [hh]
  simp only [loadPlayer]
  rw [hensure]
  exact ⟨.sendPacket trivial rfl,rfl⟩

theorem session_dbInv (hw : DbInv w) (h : w.next a.toInput = some w') : DbInv w' := by
  refine hw.next ?_ h
  cases a <;> trivial

/-- What a step that accepts nobody does to a player who is there: Login, SetName and SetPass, the
end of a skill, or Initialize. -/
inductive Touches (w : World F) : SessionInput F → (CPlayer F → CPlayer F) → Slot → Prop
  | login (uid : Slot) (name password : List Byte) (character : ℤ) :
    Touches w (.login uid name password character) (CPlayer.setObjType character) uid
  | take (outcome : Outcome) (heap : CPlayer F) (name pass : Credential) (i : Slot) :
    Touches w (.dbTake outcome heap) (CPlayer.setCredentials name pass) i
  | off (k now : ℕ) (kind : OffEvent) (i : Slot) :
    Touches w (.timer k now) (CPlayer.skillOff kind now) i
  | row {r : Row} {heap : CPlayer F} {now : ℕ} {ev : DBEvent} (hh : w.handling = some ev) :
    Touches w (.dbFinish (.row r) heap now) (initialized r now) ev.userId

/-- A step accepts a client, or leaves the players apart from one. -/
theorem session_cases (hw : DbInv w) (h : w.next a.toInput = some w') : Answers w w' ∧
    ((∃ heap i, a = .accept heap ∧ w.freeSlot = some i ∧ w' = w.accept heap) ∨
      w.accepts a = none ∧ ((w'.player = w.player ∧ ∀ r heap now, a = .dbFinish (.row r) heap now →
          w.handling = none) ∨
        ∃ f i, Touches w a f i ∧ w'.player = (w.modifyPlayer i f).player)) := by
  cases a with
  | accept heap =>
    obtain rfl : w.accept heap = w' := Option.some.inj h
    refine ⟨.of_trace (accept_trace heap w),?_⟩
    cases hfree : w.freeSlot with
    | some i => exact Or.inl ⟨heap,i,rfl,rfl,rfl⟩
    | none =>
      rw [accept_full heap hfree]
      exact Or.inr ⟨hfree,Or.inl ⟨rfl,by simp⟩⟩
  | login uid id password character =>
    obtain ⟨-,n,q,rfl⟩ := login_spec (toOption_eq_some h)
    exact ⟨.of_trace rfl,Or.inr ⟨rfl,Or.inr ⟨_,_,.login uid id password character,rfl⟩⟩⟩
  | dbTake outcome heap =>
    obtain ⟨hsent,hsame | ⟨ev,hset⟩⟩ := dbTake_present hw (toOption_eq_some h)
    · exact ⟨hsent,Or.inr ⟨rfl,Or.inl ⟨hsame,by simp⟩⟩⟩
    · exact ⟨hsent,Or.inr ⟨rfl,Or.inr ⟨_,_,.take outcome heap ev.name ev.pass ev.userId,hset⟩⟩⟩
  | dbFinish outcome heap now =>
    obtain rfl : w.dbFinish outcome heap now = w' := Option.some.inj h
    cases hh : w.handling with
    | none =>
      rw [dbFinish_idle outcome heap now hh]
      exact ⟨.of_trace rfl,Or.inr ⟨rfl,Or.inl ⟨rfl,fun _ _ _ _ => rfl⟩⟩⟩
    | some ev =>
      cases outcome with
      | row r =>
        obtain ⟨hsent,hplayer⟩ := dbFinish_row hw hh r heap now
        exact ⟨hsent,Or.inr ⟨rfl,Or.inr ⟨_,_,.row hh,hplayer⟩⟩⟩
      | fail | noRow =>
        simp only [dbFinish]
        rw [hh]
        exact ⟨.sendPacket trivial rfl,Or.inr ⟨rfl,Or.inl ⟨rfl,by simp⟩⟩⟩
  | timer k now =>
    obtain ⟨ev,-,rfl⟩ := timerThread_spec h
    refine ⟨.of_trace (timerEvent_trace ev now _),Or.inr ⟨rfl,?_⟩⟩
    simp only [timerEvent]
    split
    · exact Or.inl ⟨rfl,by simp⟩
    · exact Or.inl ⟨rfl,by simp⟩
    · exact Or.inr ⟨_,_,.off k now _ _,rfl⟩

end Steps

end World

end LastHero
