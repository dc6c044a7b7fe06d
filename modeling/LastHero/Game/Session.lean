import LastHero.Game.Boss

/-! What the threads do besides client packets: accepting and closing connections, the queue of
DB_Thread, TimerThread, and the state that main creates. -/
namespace LastHero
variable {F : Type} [FloatArith F]

/-- `new CPlayer`: only the members with an initialiser or a constructor are set, the others
keep what the heap held. -/
def CPlayer.new (heap : CPlayer F) : CPlayer F :=
  { heap with name := default, pass := default, state := .notLogin, isReady := false, viewList := ∅ }

namespace World

/-- The first slot that is not connected. -/
def freeSlot (w : World F) : Option Slot := slots.find? fun i => !(w.client i).isconnected

/-- A new incarnation of the player of a slot. -/
def renew (i : Slot) (w : World F) : World F :=
  { w with era := Function.update w.era i (w.era i+1) }

/-- WSARecv: the operation that a receive on slot `i` posts. On a closed socket it fails. -/
def postRecv (i : Slot) (w : World F) : World F :=
  { w with ops := w.ops ++ ((w.client i).sock.map fun s => (⟨i,.opRecv,s,none⟩ : IoOp)).toList }

/-- OP_ACCEPT -/
def accept (heap : CPlayer F) (w : World F) : World F :=
  match w.freeSlot with
  | none => w
  | some i =>
    let c := w.client i
    let w := w.setPlayer i (some (CPlayer.new heap))
    let w := w.setClient i ⟨true,some w.accepted,c.recv.accept⟩
    postRecv i { w.renew i with accepted := w.accepted+1 }

/-- Disconnect -/
def disconnect (uid : Slot) (w : World F) : Except Fault (World F) :=
  match w.player uid with
  | none => .error .nullPlayer
  | some _ =>
    let w := (w.setPlayer uid none).renew uid
    let w := w.setClient uid { w.client uid with isconnected := false, sock := none }
    .ok (w.broadcast (.scLeave uid))

/-- A call through `g_player[uid]->`. -/
def onPlayer (uid : Slot) (f : CPlayer F → World F → World F) (w : World F) :
    Except Fault (World F) :=
  match w.player uid with
  | none => .error .nullPlayer
  | some p => .ok (f p w)

/-- Login -/
def login (uid : Slot) (id password : List Byte) (character : ℤ) (w : World F) :
    Except Fault (World F) := do
  let name ← strcpyS id
  let pass ← strcpyS password
  (w.addQuary uid .evLogin name pass).onPlayer uid fun _ w =>
    w.modifyPlayer uid (CPlayer.setObjType character)

/-- SignUp, with the result of the statement. -/
def signUp (uid : Slot) (ok : Bool) (w : World F) : World F :=
  w.sendPacket uid (if ok then .scSignupOk else .scSignupFail)

/-- The columns that RetrieveResultLogin uses. -/
structure Row where
  hp : ℤ
  oType : ℤ
  exp : ℤ
  level : ℤ
  mp : ℤ

/-- The outcome of the statement of an event: it fails, fetches nothing, or fetches a row. -/
inductive Outcome
  | fail
  | noRow
  | row (r : Row)

/-- `if (g_player[uid] == NULL) g_player[uid] = new CPlayer;` -/
def ensurePlayer (uid : Slot) (heap : CPlayer F) (w : World F) : World F :=
  match w.player uid with
  | some _ => w
  | none => (w.setPlayer uid (some (CPlayer.new heap))).renew uid

/-- RetrieveResultLogin with a fetched row. -/
def loadPlayer (uid : Slot) (r : Row) (heap : CPlayer F) (now : ℕ) (w : World F) : World F :=
  let w := (w.ensurePlayer uid heap).renew uid
  w.modifyPlayer uid fun p =>
    { p.initializePlayer r.hp r.oType r.exp r.level r.mp now with state := .inGame }

/-- EV_LOGIN up to its statement. -/
def takeLogin (ev : DBEvent) (heap : CPlayer F) (w : World F) : World F :=
  let w := (w.ensurePlayer ev.userId heap).modifyPlayer ev.userId
    (CPlayer.setCredentials ev.name ev.pass)
  w.setHandling (some ev)

/-- EV_SIGN. The result is compared with SQL_SUCCESS, which is 0 like SQL_EXUTE_FAIL; the new
event has no password. -/
def handleSign (ev : DBEvent) (outcome : Outcome) (w : World F) : World F :=
  match outcome with
  | .fail => w.setQuaryQueue (w.quaryQueue ++ [{ ev with evId := .evLogin, pass := default }])
  | _ => w

/-- EV_UPDATE -/
def handleUpdate (ev : DBEvent) (w : World F) : Except Fault (World F) :=
  w.onPlayer ev.userId fun p w => w.record (.updateUser ev.userId ev.name p.exp)

/-- DB_Thread takes the next event. A login is taken up to its statement; the other events are
handled at once. -/
def dbTake (outcome : Outcome) (heap : CPlayer F) (w : World F) : Except Fault (World F) :=
  match w.handling, w.quaryQueue with
  | none, ev::queue =>
    let w := w.setQuaryQueue queue
    match ev.evId with
    | .evLogin => .ok (w.takeLogin ev heap)
    | .evSign => .ok (w.handleSign ev outcome)
    | .evUpdate => w.handleUpdate ev
  | _, _ => .ok w

/-- The statement of the login returns. -/
def dbFinish (outcome : Outcome) (heap : CPlayer F) (now : ℕ) (w : World F) : World F :=
  match w.handling with
  | none => w
  | some ev =>
    let w := w.setHandling none
    match outcome with
    | .row r => (w.loadPlayer ev.userId r heap now).sendPacket ev.userId (.scLoginOk ev.userId)
    | _ => w.sendPacket ev.userId .scLoginFail

/-- The effect of an event that TimerThread took. -/
def timerEvent (ev : Event) (now : ℕ) (w : World F) : World F :=
  match ev.key with
  | .evBoss => w.post .evBoss
  | .evMonster i => w.post (.evMonster i)
  | .off kind id => w.modifyPlayer id (CPlayer.skillOff kind now)

/-- An event that TimerThread may take now: it is due and no other one is earlier. -/
def Due (k now : ℕ) (ev : Event) (w : World F) : Prop :=
  w.timerQueue[k]? = some ev ∧ ev.wakeupTime ≤ now ∧
    ∀ e ∈ w.timerQueue, ev.wakeupTime ≤ e.wakeupTime

instance (k now : ℕ) (ev : Event) (w : World F) : Decidable (w.Due k now ev) :=
  inferInstanceAs (Decidable (_ ∧ _ ∧ _))

/-- TimerThread takes the event at position `k` of the queue. -/
def timerThread (k now : ℕ) (w : World F) : Option (World F) :=
  match w.timerQueue[k]? with
  | none => none
  | some ev =>
    if w.Due k now ev then
      some (timerEvent ev now (w.setTimerQueue (w.timerQueue.eraseIdx k)))
    else none

/-- SpawnMonster -/
def spawnMonster (w : World F) (s : MonsterId × ℚ × ℚ × ℚ × ℤ) : World F :=
  let (i,x,y,z,type) := s
  (w.setMonster i (CMonster.initializeMonster (Position.lits x y z) type)).addTimer (.evMonster i)
    1000 0

/-- The monsters of CreateMonsters: goblins 4, cyclopes 5, beetles 6, mini golems 7, lizards 8
and trolls 10. -/
def spawns : List (MonsterId × ℚ × ℚ × ℚ × ℤ) := [
  (0,15640,79760,-428.114075,4),(1,16180,79150,-428.114075,4),(2,14950,80431.7,-426.609375,4),
  (100,18448.2,90659,-550,5),(101,16920,91460,-550,5),(102,18714.1,91243.3,-550,5),
  (200,53864.5,63020,-1161.325195,6),(201,56264.5,64160,-981.325195,6),
  (400,23560,81780,-612,8),(401,22800,83120,-612,8),(402,24350,82480,-612,8),
  (301,34532.1,58345.7,-898.869446,7),(302,33689.3,59456.5,-859.889099,7),
  (303,8813.9,86079.6,-203.521851,7),(304,8949.7,88621.6,196.9,7),(305,10237.7,86787.7,238.321106,7),
  (500,64227.8,56500,-414.321045,10),(501,65807.8,56600,-294.321045,10)]

/-- Global storage before main. -/
def empty : World F where
  player _ := none
  monster _ := none
  boss := none
  client _ := ⟨false,none,Client.zero⟩
  timerQueue := []
  posted := []
  quaryQueue := []
  handling := none
  ops := []
  accepted := 0
  era _ := 0
  trace := []

/-- CreateMonsters -/
def createMonsters (w : World F) : World F :=
  spawns.foldl spawnMonster
    ((w.setBoss Boss.initializeBoss).addTimer .evBoss 1000 0)

end World

end LastHero
