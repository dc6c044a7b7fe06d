import LastHero.Threads.System

/-! worker_thread and the operations in flight. A completion names only its slot, and both kinds
of operation end the session when they transfer nothing. -/
namespace LastHero
open WhileLoop
variable {F : Type}

inductive CallKind
  | disconnect
  | processPacket
  deriving DecidableEq

/-- A call of Disconnect or ProcessPacket for a completion. -/
structure Call where
  kind : CallKind
  /-- packet_buf, for ProcessPacket -/
  packet : Option Buffer
  uid : Slot
  /-- the session whose operation is complete -/
  session : ℕ
  /-- the session that occupies the slot -/
  occupant : Option ℕ
  /-- the last session that was accepted into the slot -/
  latest : Option ℕ
  /-- g_player[uid] is not NULL -/
  present : Bool

/-- A worker_thread in the loop of recv_packet_construct, with its locals. -/
structure Receiving where
  op : IoOp
  loop : RecvLoop

/-- The server with the history of its calls. -/
structure Net (F : Type) where
  world : World F
  latest : Slot → Option ℕ
  receiving : List Receiving
  log : List Call
  /-- the process has ended -/
  halted : Bool

inductive NetInput (F : Type)
  | accept (heap : CPlayer F)
  /-- a send of another thread -/
  | send (dest : Slot) (p : Packet F)
  /-- the operation at position `k` of those in flight transfers these bytes -/
  | complete (k : ℕ) (bytes : List Byte)
  /-- worker_thread takes that completion; with bytes of a receive it enters the loop -/
  | handle (k : ℕ)
  /-- an iteration of the loop at position `j` of those under way -/
  | iterate (j : ℕ) (now : Now)

namespace World

def setOps (ops : List IoOp) (w : World F) : World F := { w with ops := ops }

def setRecv (i : Slot) (c : Client) (w : World F) : World F :=
  w.setClient i { w.client i with recv := c }

/-- Bytes are only transferred on the open socket of the operation. -/
def complete (k : ℕ) (bytes : List Byte) (w : World F) : Option (World F) :=
  match w.ops[k]? with
  | none => none
  | some o =>
    if o.result = none ∧ bytes.length ≤ bufSize ∧
        (bytes ≠ [] → (w.client o.uid).sock = some o.session) then
      let w := w.setOps (w.ops.set k { o with result := some bytes })
      match o.kind with
      | .opSend => some w
      | .opRecv => some (w.setRecv o.uid ((w.client o.uid).recv.receive bytes))
    else none

end World

namespace Net

def setWorld (w : World F) (s : Net F) : Net F := { s with world := w }

def halt (s : Net F) : Net F := { s with halted := true }

def call (kind : CallKind) (packet : Option Buffer) (o : IoOp) (s : Net F) : Net F :=
  { s with log := s.log ++ [{
      kind := kind
      packet := packet
      uid := o.uid
      session := o.session
      occupant := (s.world.client o.uid).sock
      latest := s.latest o.uid
      present := (s.world.player o.uid).isSome }] }

/-- Disconnect for a completion. -/
def disconnect (o : IoOp) (s : Net F) : Net F :=
  let s := s.call .disconnect none o
  match s.world.disconnect o.uid with
  | .ok w => s.setWorld w
  | .error _ => s.halt

section Handle
variable [FloatArith F]

/-- The call of ProcessPacket in the loop of a receive. -/
def processPacket (o : IoOp) (buf : Buffer) (now : Now) (s : Net F) : Net F :=
  let s := s.call .processPacket (some buf) o
  match s.world.processPacket o.uid buf now with
  | .ok w => s.setWorld w
  | .error _ =>
    -- an unknown type disconnects before it exits
    if CsType.ofByte (buf.byteAt 1) = none then (s.call .disconnect none o).halt else s.halt

/-- OP_RECV with `n` bytes: recv_packet_construct up to its loop. -/
def receive (o : IoOp) (n : ℕ) (s : Net F) : Net F :=
  { s with receiving := s.receiving ++ [⟨o,recvStart (s.world.client o.uid).recv n⟩] }

/-- One iteration of the loop, on prev_size and the buffers as it finds them. The last one is
followed by the next receive. -/
def iterate (j : ℕ) (r : Receiving) (now : Now) (s : Net F) : Net F :=
  let c := (s.world.client r.op.uid).recv
  match recvBody c.ioBuf
      { r.loop with prevSize := c.prevSize, packetBuf := c.packetBuf, calls := [] } with
  | .error _ => s.halt
  | .ok l =>
    let s := s.setWorld (s.world.setRecv r.op.uid ⟨l.prevSize,l.packetBuf,c.ioBuf⟩)
    let s := l.calls.head?.elim s fun buf => s.processPacket r.op buf now
    if recvMore l then { s with receiving := s.receiving.set j ⟨r.op,l⟩ }
    else
      let s := { s with receiving := s.receiving.eraseIdx j }
      s.setWorld (s.world.postRecv r.op.uid)

/-- OP_ACCEPT -/
def accept (heap : CPlayer F) (s : Net F) : Net F :=
  match s.world.freeSlot with
  | none => s
  | some i => { s with
      world := s.world.accept heap
      latest := Function.update s.latest i (some s.world.accepted) }

/-- An iteration of worker_thread up to the loop of a receive. -/
def handle (o : IoOp) (bytes : List Byte) (s : Net F) : Net F :=
  if bytes = [] then s.disconnect o
  else
    match o.kind with
    | .opSend => s
    | .opRecv => s.receive o bytes.length

def next (s : Net F) (a : NetInput F) : Option (Net F) :=
  if s.halted then none
  else
    match a with
    | .accept heap => some (s.accept heap)
    | .send dest p => some (s.setWorld (s.world.sendPacket dest p))
    | .complete k bytes => (s.world.complete k bytes).map fun w => s.setWorld w
    | .handle k => s.world.ops[k]?.bind fun o => o.result.map fun bytes =>
        (s.setWorld (s.world.setOps (s.world.ops.eraseIdx k))).handle o bytes
    | .iterate j now => s.receiving[j]?.map fun r => s.iterate j r now

def start : Net F := ⟨World.start,fun _ => none,[],[],false⟩

end Handle

end Net

/-- A send whose completion changes nothing. -/
def IoOp.Spent (o : IoOp) : Prop := o.kind = .opSend ∧ o.result.any (· ≠ [])

/-- The operation belongs to the session that is connected, or its completion changes nothing. -/
def World.InSession (w : World F) (o : IoOp) : Prop :=
  (w.client o.uid).sock = some o.session ∨ o.Spent

/-- Every call acts on a player, and every Disconnect ends the session of its completion, once. -/
structure Isolated (log : List Call) : Prop where
  present : ∀ c ∈ log, c.present = true
  own : ∀ c ∈ log, c.kind = .disconnect → c.occupant = some c.session
  once : ((log.filter fun c => c.kind = .disconnect).map fun c => (c.uid,c.latest)).Nodup

namespace Net

/-- When a completion ends a session, nothing else of its slot is in flight but spent sends, and no
worker_thread is in the loop of a receive of it. -/
def Alone (s : Net F) : NetInput F → Prop
  | .handle k => ∀ o, s.world.ops[k]? = some o → o.result = some [] →
      (∀ o' ∈ s.world.ops.eraseIdx k, o'.uid = o.uid → o'.Spent) ∧
        ∀ r ∈ s.receiving, r.op.uid ≠ o.uid
  | _ => True

/-- Connections have players, operations have connections, and what was disconnected is over. -/
structure Inv (s : Net F) : Prop where
  connected : ∀ i, (s.world.client i).isconnected = (s.world.player i).isSome
  sock : ∀ i, (s.world.client i).sock.isSome = (s.world.player i).isSome
  latest : ∀ i n, (s.world.client i).sock = some n → s.latest i = some n
  old : ∀ i n, s.latest i = some n → n < s.world.accepted
  ops : ∀ o ∈ s.world.ops, s.world.InSession o
  receiving : ∀ r ∈ s.receiving, (s.world.client r.op.uid).sock = some r.op.session
  log : ∀ c ∈ s.log, c.kind = .disconnect → ∃ n, c.latest = some n ∧ n < s.world.accepted ∧
    (s.world.client c.uid).sock ≠ some n

/-- The invariant of runs: the process ends without a call that it should not make. -/
def Sound (s : Net F) : Prop := Isolated s.log ∧ (s.halted = false → Inv s)

variable {s t : Net F} {w : World F} {o : IoOp}

/-- A change of the world that keeps the connections. -/
theorem Inv.setWorld (h : Inv s)
    (hclient : ∀ i, (w.client i).isconnected = (s.world.client i).isconnected ∧
      (w.client i).sock = (s.world.client i).sock)
    (hplayer : ∀ i, (w.player i).isSome = (s.world.player i).isSome)
    (haccepted : w.accepted = s.world.accepted) (hops : ∀ o ∈ w.ops, s.world.InSession o) :
    Inv (s.setWorld w) where
  connected i := (hclient i).1.trans ((h.connected i).trans (hplayer i).symm)
  sock i := by
    change (w.client i).sock.isSome = (w.player i).isSome
    rw [(hclient i).2, h.sock, hplayer]
  latest i n hn := h.latest i n ((hclient i).2.symm.trans hn)
  old i n hn := haccepted ▸ h.old i n hn
  ops o ho := (hops o ho).imp (fun hs => (hclient o.uid).2.trans hs) id
  receiving r hr := (hclient r.op.uid).2.trans (h.receiving r hr)
  log c hc hkind := by
    obtain ⟨n,hn,hlt,hne⟩ := h.log c hc hkind
    exact ⟨n,hn,haccepted ▸ hlt,fun hsock => hne ((hclient c.uid).2.symm.trans hsock)⟩

/-- A connection is opened or closed in slot `i`. -/
theorem Inv.update (h : Inv s) {i : Slot} {p : Option (CPlayer F)} {c : ClientSlot}
    {last : Option ℕ} (hplayer : t.world.player = Function.update s.world.player i p)
    (hclient : t.world.client = Function.update s.world.client i c)
    (hlatest : t.latest = Function.update s.latest i last)
    (haccepted : s.world.accepted ≤ t.world.accepted)
    (hp : c.isconnected = p.isSome ∧ c.sock.isSome = p.isSome)
    (hlast : ∀ n, c.sock = some n → last = some n)
    (hold : ∀ n, last = some n → n < t.world.accepted)
    (hops : ∀ o ∈ t.world.ops, t.world.InSession o)
    (hreceiving : ∀ r ∈ t.receiving, (t.world.client r.op.uid).sock = some r.op.session)
    (hlog : ∀ c ∈ t.log, c.kind = .disconnect → ∃ n, c.latest = some n ∧ n < t.world.accepted ∧
      (t.world.client c.uid).sock ≠ some n) : Inv t := by
  refine ⟨fun j => ?_,fun j => ?_,fun j n hn => ?_,fun j n hn => ?_,hops,
    hreceiving,hlog⟩
  · rw [hplayer, hclient, Function.update_apply, Function.update_apply]
    split_ifs
    · exact hp.1
    · exact h.connected j
  · rw [hplayer, hclient, Function.update_apply, Function.update_apply]
    split_ifs
    · exact hp.2
    · exact h.sock j
  · rw [hclient, Function.update_apply] at hn
    rw [hlatest, Function.update_apply]
    split_ifs at hn ⊢
    · exact hlast n hn
    · exact h.latest j n hn
  · rw [hlatest, Function.update_apply] at hn
    split_ifs at hn
    · exact hold n hn
    · exact (h.old j n hn).trans_le haccepted

/-- What a packet or a send does to the connections. -/
theorem Inv.keeps (h : Inv s) (hk : s.world.Keeps w) : Inv (s.setWorld w) := by
  refine h.setWorld (fun i => by rw [hk.client]; exact ⟨rfl,rfl⟩) hk.isSome hk.accepted fun o ho => ?_
  obtain ⟨new,hops,hnew⟩ := hk.ops
  rw [hops] at ho
  cases List.mem_append.mp ho with
  | inl ho => exact h.ops o ho
  | inr ho => exact Or.inl (hnew o ho).2.2

theorem Inv.setOps (h : Inv s) (ops : List IoOp) (hops : ∀ o ∈ ops, s.world.InSession o) :
    Inv (s.setWorld (s.world.setOps ops)) :=
  h.setWorld (fun _ => ⟨rfl,rfl⟩) (fun _ => rfl) rfl hops

/-- The receive buffers are no part of the connections. -/
theorem setRecv_client (i j : Slot) (c : Client) (w : World F) :
    ((w.setRecv i c).client j).isconnected = (w.client j).isconnected ∧
      ((w.setRecv i c).client j).sock = (w.client j).sock := by
  change (Function.update w.client i _ j).isconnected = _ ∧ (Function.update w.client i _ j).sock = _
  rw [Function.update_apply]
  split_ifs with hj
  · rw [hj]
    exact ⟨rfl,rfl⟩
  · exact ⟨rfl,rfl⟩

theorem Inv.present (h : Inv s) (ho : (s.world.client o.uid).sock = some o.session) :
    (s.world.player o.uid).isSome := by
  rw [← h.sock, ho]
  rfl

/-- A call for a completion of the connected session is fine. -/
theorem Inv.isolated_call (h : Inv s) (hi : Isolated s.log)
    (ho : (s.world.client o.uid).sock = some o.session) (kind : CallKind)
    (packet : Option Buffer) : Isolated (s.call kind packet o).log := by
  constructor
  · intro c hc
    cases List.mem_append.mp hc with
    | inl hc => exact hi.present c hc
    | inr hc =>
      rw [List.mem_singleton] at hc
      subst hc
      exact h.present ho
  · intro c hc hkind
    cases List.mem_append.mp hc with
    | inl hc => exact hi.own c hc hkind
    | inr hc =>
      rw [List.mem_singleton] at hc
      subst hc
      exact ho
  · simp only [call]
    rw [List.filter_append, List.map_append]
    cases kind with
    | processPacket => simpa using hi.once
    | disconnect =>
      refine List.nodup_append.mpr ⟨hi.once,List.nodup_singleton _,fun x hx y hy hxy => ?_⟩
      obtain ⟨c,hc,rfl⟩ := List.mem_map.mp hx
      obtain ⟨hc,hkind⟩ := List.mem_filter.mp hc
      obtain ⟨n,hn,-,hne⟩ := h.log c hc (of_decide_eq_true hkind)
      rw [List.mem_singleton.mp hy, Prod.mk.injEq, hn, h.latest _ _ ho, Option.some.injEq] at hxy
      exact hne (by rw [hxy.1, ho, hxy.2])

theorem Inv.call (h : Inv s) (packet : Option Buffer) :
    Inv (s.call .processPacket packet o) where
  connected := h.connected
  sock := h.sock
  latest := h.latest
  old := h.old
  ops := h.ops
  receiving := h.receiving
  log c hc hkind := by
    cases List.mem_append.mp hc with
    | inl hc => exact h.log c hc hkind
    | inr hc =>
      rw [List.mem_singleton] at hc
      subst hc
      cases hkind

/-- Disconnect closes the connection and sends to the others. -/
theorem disconnect_ops (hw : s.world.disconnect o.uid = .ok w) : w.accepted = s.world.accepted ∧
    ∀ o' ∈ w.ops, o' ∈ s.world.ops ∨ (w.client o'.uid).sock = some o'.session := by
  unfold World.disconnect at hw
  split at hw
  · cases hw
  · cases hw
    refine ⟨rfl,fun o' ho' => ?_⟩
    cases List.mem_append.mp ho' with
    | inl ho' => exact Or.inl ho'
    | inr ho' =>
      obtain ⟨i,-,hpost⟩ := List.mem_filterMap.mp ho'
      obtain ⟨n,hn,rfl⟩ := Option.map_eq_some_iff.mp hpost
      exact Or.inr hn

/-- The only completion in flight ends the session. -/
theorem sound_disconnect (h : Inv s) (hi : Isolated s.log)
    (ho : (s.world.client o.uid).sock = some o.session)
    (halone : ∀ o' ∈ s.world.ops, o'.uid = o.uid → o'.Spent)
    (hidle : ∀ r ∈ s.receiving, r.op.uid ≠ o.uid) : Sound (s.disconnect o) := by
  have hcall := h.isolated_call hi ho .disconnect none
  have hlatest := h.latest o.uid o.session ho
  simp only [disconnect]
  split
  · rename_i w hw
    change s.world.disconnect o.uid = .ok w at hw
    obtain ⟨-,hplayer,hclient,-⟩ := World.disconnect_spec hw
    obtain ⟨haccepted,hops⟩ := disconnect_ops hw
    have hsock : ∀ i, (w.client i).sock = if i = o.uid then none else (s.world.client i).sock := by
      intro i
      rw [hclient, Function.update_apply]
      split_ifs
      · rfl
      · rfl
    refine ⟨hcall,fun _ => h.update hplayer hclient (Function.update_eq_self _ _).symm
      haccepted.ge ⟨rfl,rfl⟩ nofun (fun n hn => haccepted ▸ h.old _ n hn) ?_ (fun r hr => ?_) ?_⟩
    · intro o' ho'
      cases hops o' ho' with
      | inr hopen => exact Or.inl hopen
      | inl ho' =>
        by_cases hu : o'.uid = o.uid
        · exact Or.inr (halone o' ho' hu)
        · refine (h.ops o' ho').imp_left fun hopen => ?_
          change (w.client o'.uid).sock = _
          rw [hsock, if_neg hu]
          exact hopen
    · change (w.client r.op.uid).sock = _
      rw [hsock, if_neg (hidle r hr)]
      exact h.receiving r hr
    · intro c hc hkind
      change ∃ n, c.latest = some n ∧ n < w.accepted ∧ (w.client c.uid).sock ≠ some n
      rw [haccepted, hsock]
      cases List.mem_append.mp hc with
      | inl hc =>
        obtain ⟨n,hn,hlt,hne⟩ := h.log c hc hkind
        refine ⟨n,hn,hlt,?_⟩
        split_ifs
        · exact nofun
        · exact hne
      | inr hc =>
        rw [List.mem_singleton] at hc
        subst hc
        exact ⟨o.session,hlatest,h.old _ _ hlatest,by rw [if_pos rfl]; exact nofun⟩
  · exact ⟨hcall,fun hh => by cases hh⟩

theorem accept_counts (heap : CPlayer F) {i : Slot} (hfree : w.freeSlot = some i) :
    (w.accept heap).accepted = w.accepted+1 ∧
      (w.accept heap).ops = w.ops ++ [⟨i,.opRecv,w.accepted,none⟩] := by
  simp only [World.accept, World.postRecv]
  rw [hfree]
  refine ⟨rfl,?_⟩
  dsimp only
  have hsock : (((w.setPlayer i (some (CPlayer.new heap))).setClient i
      ⟨true,some w.accepted,(w.client i).recv.accept⟩).client i).sock = some w.accepted := by
    change (Function.update w.client i _ i).sock = _
    rw [Function.update_self]
  change w.ops ++ (Option.map _ (((w.setPlayer i (some (CPlayer.new heap))).setClient i
      ⟨true,some w.accepted,(w.client i).recv.accept⟩).client i).sock).toList = _
  rw [hsock]
  rfl

/-- A slot that is accepted into has no session, and what is left of earlier ones is spent. -/
theorem Inv.accept (h : Inv s) (heap : CPlayer F) : Inv (s.accept heap) := by
  simp only [Net.accept]
  split
  · exact h
  · rename_i i hfree
    have hplayer := World.accept_player heap hfree
    have hclient := World.accept_client heap hfree
    obtain ⟨haccepted,hops⟩ := accept_counts heap hfree
    have hnone : (s.world.client i).sock = none := by
      rw [← Option.not_isSome_iff_eq_none, h.sock, ← h.connected, World.freeSlot_spec hfree]
      exact Bool.false_ne_true
    have hnew : ∀ j, ((s.world.accept heap).client j).sock =
        if j = i then some s.world.accepted else (s.world.client j).sock := by
      intro j
      rw [hclient, Function.update_apply]
      split_ifs
      · rfl
      · rfl
    refine h.update hplayer hclient rfl (haccepted ▸ Nat.le_succ _) ⟨rfl,rfl⟩ (fun n hn => hn) ?_
      ?_ (fun r hr => ?_) ?_
    · intro n hn
      cases hn
      exact haccepted ▸ Nat.lt_succ_self _
    · intro o ho
      change o ∈ (s.world.accept heap).ops at ho
      change ((s.world.accept heap).client o.uid).sock = some o.session ∨ o.Spent
      rw [hnew]
      rw [hops] at ho
      cases List.mem_append.mp ho with
      | inl ho =>
        by_cases hi : o.uid = i
        · refine Or.inr ((h.ops o ho).resolve_left fun hs => ?_)
          rw [hi, hnone] at hs
          cases hs
        · rw [if_neg hi]
          exact h.ops o ho
      | inr ho =>
        rw [List.mem_singleton] at ho
        subst ho
        exact Or.inl (if_pos rfl)
    · have hsock := h.receiving r hr
      change ((s.world.accept heap).client r.op.uid).sock = _
      rw [hnew, if_neg]
      · exact hsock
      · intro hi
        rw [hi, hnone] at hsock
        cases hsock
    · intro c hc hkind
      obtain ⟨n,hn,hlt,hne⟩ := h.log c hc hkind
      change ∃ n, c.latest = some n ∧ n < (s.world.accept heap).accepted ∧
        ((s.world.accept heap).client c.uid).sock ≠ some n
      rw [haccepted, hnew]
      refine ⟨n,hn,hlt.trans (Nat.lt_succ_self _),?_⟩
      split_ifs
      · rw [Ne, Option.some.injEq]
        exact hlt.ne'
      · exact hne

/-- An operation in flight that completes is one of the connected session. -/
theorem Inv.complete {k : ℕ} {bytes : List Byte} (h : Inv s)
    (hw : s.world.complete k bytes = some w) : Inv (s.setWorld w) := by
  unfold World.complete at hw
  split at hw
  · cases hw
  · rename_i o hk
    split_ifs at hw with hpending
    have hmem : o ∈ s.world.ops := List.mem_of_getElem? hk
    have hops : ∀ o' ∈ s.world.ops.set k { o with result := some bytes }, s.world.InSession o' := by
      intro o' ho'
      cases List.mem_or_eq_of_mem_set ho' with
      | inl ho' => exact h.ops o' ho'
      | inr ho' =>
        subst ho'
        refine Or.inl ((h.ops o hmem).resolve_right fun hspent => ?_)
        have hresult := hspent.2
        rw [hpending.1] at hresult
        cases hresult
    dsimp only at hw
    split at hw
    · cases hw
      exact h.setOps _ hops
    · cases hw
      exact h.setWorld (fun j => setRecv_client o.uid j _ _) (fun _ => rfl) rfl hops

/-- The loops under way are those of before, or of the connected session. -/
theorem Inv.setReceiving {l : List Receiving} (h : Inv s)
    (hl : ∀ r ∈ l, r ∈ s.receiving ∨ (s.world.client r.op.uid).sock = some r.op.session) :
    Inv { s with receiving := l } :=
  ⟨h.connected,h.sock,h.latest,h.old,h.ops,fun r hr => (hl r hr).elim (h.receiving r) id,h.log⟩

theorem Inv.receive (h : Inv s) (ho : (s.world.client o.uid).sock = some o.session) (n : ℕ) :
    Inv (s.receive o n) := by
  refine h.setReceiving fun r hr => (List.mem_append.mp hr).imp id fun hr => ?_
  rw [List.mem_singleton] at hr
  subst hr
  exact ho

theorem Inv.postRecv (h : Inv s) (ho : (s.world.client o.uid).sock = some o.session) :
    Inv (s.setWorld (s.world.postRecv o.uid)) := by
  refine h.setWorld (fun _ => ⟨rfl,rfl⟩) (fun _ => rfl) rfl fun o' ho' => ?_
  have hpost : (s.world.postRecv o.uid).ops = s.world.ops ++ [⟨o.uid,.opRecv,o.session,none⟩] := by
    simp only [World.postRecv]
    rw [ho]
    rfl
  rw [hpost] at ho'
  cases List.mem_append.mp ho' with
  | inl ho' => exact h.ops o' ho'
  | inr ho' =>
    rw [List.mem_singleton] at ho'
    subst ho'
    exact Or.inl ho

section Steps
variable [FloatArith F]

/-- A worker_thread tests the condition of its loop, after the others. -/
structure InLoop (rs : List Receiving) (o : IoOp) (io : Buffer) (l : RecvLoop) (s : Net F) :
    Prop where
  live : s.halted = false
  receiving : ∃ calls, s.receiving = rs ++ [⟨o,{ l with calls := calls }⟩]
  recv : (s.world.client o.uid).recv = ⟨l.prevSize,l.packetBuf,io⟩

/-- It is out of the loop. -/
structure Returned (rs : List Receiving) (uid : Slot) (c : Client) (s : Net F) : Prop where
  receiving : s.receiving = rs
  recv : (s.world.client uid).recv = c

/-- The packets on which ProcessPacket was called. -/
def packets (s : Net F) : List Buffer := s.log.filterMap Call.packet

variable {rs : List Receiving} {io : Buffer} {l l' : RecvLoop}

theorem processPacket_live {buf : Buffer} {now : Now}
    (h : (s.processPacket o buf now).halted = false) :
    (s.processPacket o buf now).receiving = s.receiving ∧
      (s.processPacket o buf now).world.client = s.world.client ∧
        (s.processPacket o buf now).packets = s.packets ++ [buf] := by
  simp only [processPacket] at h ⊢
  split
  · rename_i w hw
    refine ⟨rfl,(World.keeps_processPacket hw).client,?_⟩
    exact List.filterMap_append
  · rename_i e he
    rw [he] at h
    dsimp only at h
    split_ifs at h
    · cases h
    · cases h

/-- The call of ProcessPacket, if the iteration makes one. -/
theorem called_live (new : Option Buffer) (now : Now) (o : IoOp) (s : Net F)
    (h : (new.toList.head?.elim s fun buf => s.processPacket o buf now).halted = false) :
    (new.toList.head?.elim s fun buf => s.processPacket o buf now).receiving = s.receiving ∧
      (new.toList.head?.elim s fun buf => s.processPacket o buf now).world.client =
        s.world.client ∧
        (new.toList.head?.elim s fun buf => s.processPacket o buf now).packets =
          s.packets ++ new.toList := by
  cases new with
  | none => exact ⟨rfl,rfl,(List.append_nil _).symm⟩
  | some buf => exact processPacket_live h

/-- Undisturbed, an iteration of the worker_thread is one of recv_packet_construct. -/
theorem InLoop.iterate (h : s.InLoop rs o io l) (hbody : recvBody io l = .ok l') (now : Now) :
    ∃ t, s.next (.iterate rs.length now) = some t ∧ (t.halted = false →
      (∃ new, l'.calls = l.calls ++ new ∧ t.packets = s.packets ++ new) ∧
        if recvMore l' then t.InLoop rs o io l'
        else t.Returned rs o.uid ⟨l'.prevSize,l'.packetBuf,io⟩) := by
  obtain ⟨calls,hreceiving⟩ := h.receiving
  obtain ⟨new,hcalls,hsame⟩ := recvBody_calls hbody
  have hat : s.receiving[rs.length]? = some ⟨o,{ l with calls := calls }⟩ := by
    rw [hreceiving, List.getElem?_concat_length]
  have hloop : recvBody (s.world.client o.uid).recv.ioBuf
      { l with
        prevSize := (s.world.client o.uid).recv.prevSize
        packetBuf := (s.world.client o.uid).recv.packetBuf
        calls := [] } = .ok { l' with calls := new.toList } := by
    rw [h.recv]
    exact hsame []
  refine ⟨s.iterate rs.length ⟨o,{ l with calls := calls }⟩ now,?_,?_⟩
  · simp only [next]
    rw [h.live, if_neg Bool.false_ne_true, hat]
    rfl
  have hmore : recvMore { l' with calls := new.toList } = recvMore l' := rfl
  simp only [Net.iterate, hloop, hmore]
  generalize hu : (s.setWorld (s.world.setRecv o.uid
    ⟨l'.prevSize,l'.packetBuf,(s.world.client o.uid).recv.ioBuf⟩)) = u
  have hrecv : (u.world.client o.uid).recv = ⟨l'.prevSize,l'.packetBuf,io⟩ := by
    subst hu
    rw [h.recv]
    change (Function.update s.world.client o.uid _ o.uid).recv = _
    rw [Function.update_self]
  have hsame : u.receiving = s.receiving ∧ u.packets = s.packets := by
    subst hu
    exact ⟨rfl,rfl⟩
  have hcalled := called_live new now o u
  generalize (new.toList.head?.elim u fun buf => u.processPacket o buf now) = v at hcalled ⊢
  rw [hsame.1, hsame.2, hreceiving] at hcalled
  split_ifs
  · intro hlive
    obtain ⟨hreceiving',hclient,hpackets⟩ := hcalled hlive
    refine ⟨⟨new.toList,hcalls,hpackets⟩,hlive,⟨new.toList,?_⟩,?_⟩
    · rw [hreceiving', List.set_append_right _ _ le_rfl, Nat.sub_self]
      rfl
    · exact (congrArg (fun f => (f o.uid).recv) hclient).trans hrecv
  · intro hlive
    obtain ⟨hreceiving',hclient,hpackets⟩ := hcalled hlive
    refine ⟨⟨new.toList,hcalls,hpackets⟩,?_,?_⟩
    · change v.receiving.eraseIdx rs.length = rs
      rw [hreceiving', List.eraseIdx_append_of_length_le le_rfl, Nat.sub_self]
      exact List.append_nil rs
    · exact (congrArg (fun f => (f o.uid).recv) hclient).trans hrecv

theorem InLoop.returns {fuel : ℕ} (h : s.InLoop rs o io l) (hmore : recvMore l = true)
    (hloop : loop recvMore (recvBody io) fuel l = some (.ok l')) (now : ℕ → Now) :
    ∃ n t, Runs.run next s ((List.range n).map fun i => .iterate rs.length (now i)) = some t ∧
      (t.halted = false → t.Returned rs o.uid ⟨l'.prevSize,l'.packetBuf,io⟩ ∧
        ∃ new, l'.calls = l.calls ++ new ∧ t.packets = s.packets ++ new) := by
  induction fuel generalizing s l now with
  | zero =>
    rw [loop, if_pos hmore] at hloop
    cases hloop
  | succ fuel ih =>
    cases hbody : recvBody io l with
    | error e => simp [loop, hmore, hbody] at hloop
    | ok l₁ =>
      rw [loop_next hmore hbody] at hloop
      obtain ⟨t,ht,hstep⟩ := h.iterate hbody (now 0)
      have hone : Runs.run next s ((List.range 1).map fun i => .iterate rs.length (now i)) = some t :=
        Runs.run_cons_eq_some.mpr ⟨t,ht,rfl⟩
      cases hhalt : t.halted with
      | true => exact ⟨1,t,hone,fun hlive => by rw [hhalt] at hlive; cases hlive⟩
      | false =>
        obtain ⟨⟨new,hcalls,hpackets⟩,hnext⟩ := hstep hhalt
        by_cases hmore₁ : recvMore l₁ = true
        · rw [if_pos hmore₁] at hnext
          obtain ⟨n,u,hrun,hu⟩ := ih hnext hmore₁ hloop fun i => now (i+1)
          refine ⟨n+1,u,?_,fun hlive => ?_⟩
          · rw [List.range_succ_eq_map, List.map_cons, List.map_map]
            exact Runs.run_cons_eq_some.mpr ⟨t,ht,hrun⟩
          · obtain ⟨hreturned,new',hcalls',hpackets'⟩ := hu hlive
            refine ⟨hreturned,new ++ new',?_,?_⟩
            · rw [hcalls', hcalls, List.append_assoc]
            · rw [hpackets', hpackets, List.append_assoc]
        · rw [loop_done (Bool.eq_false_iff.mpr hmore₁)] at hloop
          cases hloop
          rw [if_neg hmore₁] at hnext
          exact ⟨1,t,hone,fun _ => ⟨hnext,new,hcalls,hpackets⟩⟩

/-- Where recv_packet_construct returns, so does the worker_thread that is left alone in its loop,
with the same buffers and after the same calls of ProcessPacket, unless one of these ends the
process. -/
theorem receive_alone {fuel n : ℕ} {c : Client} {calls : List Buffer} (hlive : s.halted = false)
    (hn : 0 < n)
    (h : recvPacketConstruct fuel (s.world.client o.uid).recv n = some (.ok (c,calls)))
    (now : ℕ → Now) : ∃ m t, Runs.run next (s.receive o n)
      ((List.range m).map fun i => .iterate s.receiving.length (now i)) = some t ∧
        (t.halted = false → t.Returned s.receiving o.uid c ∧ t.packets = s.packets ++ calls) := by
  unfold recvPacketConstruct at h
  obtain ⟨r,hloop,hr⟩ := Option.map_eq_some_iff.mp h
  cases r with
  | error e => cases hr
  | ok l' =>
    cases hr
    have hstart : (s.receive o n).InLoop s.receiving o (s.world.client o.uid).recv.ioBuf
        (recvStart (s.world.client o.uid).recv n) := ⟨hlive,⟨[],rfl⟩,rfl⟩
    have hmore : recvMore (recvStart (s.world.client o.uid).recv n) = true := by
      simpa [recvMore, recvStart] using hn
    obtain ⟨m,t,hrun,ht⟩ := hstart.returns hmore hloop now
    refine ⟨m,t,hrun,fun hlive' => ?_⟩
    obtain ⟨hreturned,new,hcalls,hpackets⟩ := ht hlive'
    obtain rfl : l'.calls = new := hcalls
    exact ⟨hreturned,hpackets⟩

/-- A packet of the connected session is processed for its player. -/
theorem sound_processPacket (buf : Buffer) (now : Now) (h : Inv s) (hi : Isolated s.log)
    (ho : (s.world.client o.uid).sock = some o.session) :
    Sound (s.processPacket o buf now) ∧ ((s.processPacket o buf now).halted = false →
      (s.processPacket o buf now).receiving = s.receiving ∧
        ((s.processPacket o buf now).world.client o.uid).sock = some o.session) := by
  have hcall := h.isolated_call hi ho .processPacket (some buf)
  simp only [processPacket]
  split
  · rename_i w hw
    have hk := World.keeps_processPacket hw
    refine ⟨⟨hcall,fun _ => (h.call (some buf)).keeps hk⟩,fun _ => ⟨rfl,?_⟩⟩
    change (w.client o.uid).sock = _
    rw [hk.client]
    exact ho
  · split_ifs
    · have htwice := (h.call (some buf)).isolated_call (o := o) hcall ho .disconnect none
      exact ⟨⟨htwice,fun hh => by cases hh⟩,fun hh => by cases hh⟩
    · exact ⟨⟨hcall,fun hh => by cases hh⟩,fun hh => by cases hh⟩

/-- The loop goes on, or is over and the next receive is posted. -/
theorem sound_iterate {j : ℕ} {r : Receiving} (now : Now) (h : Inv s) (hi : Isolated s.log)
    (hr : (s.world.client r.op.uid).sock = some r.op.session) : Sound (s.iterate j r now) := by
  simp only [iterate]
  split
  · exact ⟨hi,fun hh => by cases hh⟩
  · rename_i l _
    generalize (⟨l.prevSize,l.packetBuf,(s.world.client r.op.uid).recv.ioBuf⟩ : Client) = c
    have hset := h.setWorld (w := s.world.setRecv r.op.uid c)
      (fun i => setRecv_client r.op.uid i c s.world) (fun _ => rfl) rfl h.ops
    have hsock := (setRecv_client r.op.uid r.op.uid c s.world).2.trans hr
    generalize hcalled : (l.calls.head?.elim (s.setWorld (s.world.setRecv r.op.uid c)) fun buf =>
      (s.setWorld (s.world.setRecv r.op.uid c)).processPacket r.op buf now) = t
    obtain ⟨hsound,hopen⟩ : Sound t ∧
        (t.halted = false → (t.world.client r.op.uid).sock = some r.op.session) := by
      cases hhead : l.calls.head? with
      | none =>
        rw [hhead] at hcalled
        subst hcalled
        exact ⟨⟨hi,fun _ => hset⟩,fun _ => hsock⟩
      | some buf =>
        rw [hhead] at hcalled
        subst hcalled
        obtain ⟨hsound,hopen⟩ := sound_processPacket buf now hset hi hsock
        exact ⟨hsound,fun hlive => (hopen hlive).2⟩
    split_ifs
    · refine ⟨hsound.1,fun hlive => (hsound.2 hlive).setReceiving fun r' hr' => ?_⟩
      refine (List.mem_or_eq_of_mem_set hr').imp id fun he => ?_
      subst he
      exact hopen hlive
    · refine ⟨hsound.1,fun hlive => ?_⟩
      have hleft : Inv { t with receiving := t.receiving.eraseIdx j } :=
        (hsound.2 hlive).setReceiving fun r' hr' => Or.inl (List.mem_of_mem_eraseIdx hr')
      exact hleft.postRecv (hopen hlive)

theorem Sound.next {a : NetInput F} (h : Sound s) (ha : s.Alone a) (ht : s.next a = some t) :
    Sound t := by
  unfold Net.next at ht
  cases hhalt : s.halted with
  | true =>
    rw [hhalt] at ht
    cases ht
  | false =>
    have hinv := h.2 hhalt
    rw [hhalt, if_neg Bool.false_ne_true] at ht
    cases a with
    | accept heap =>
      cases ht
      refine ⟨?_,fun _ => hinv.accept heap⟩
      simp only [Net.accept]
      split
      · exact h.1
      · exact h.1
    | send dest p =>
      cases ht
      exact ⟨h.1,fun _ => hinv.keeps (World.keeps_sendTo [dest] p s.world)⟩
    | complete k bytes =>
      obtain ⟨w,hw,rfl⟩ := Option.map_eq_some_iff.mp ht
      exact ⟨h.1,fun _ => hinv.complete hw⟩
    | handle k =>
      obtain ⟨o,hk,ht⟩ := Option.bind_eq_some_iff.mp ht
      obtain ⟨bytes,hresult,rfl⟩ := Option.map_eq_some_iff.mp ht
      have hmem : o ∈ s.world.ops := List.mem_of_getElem? hk
      have herase := hinv.setOps (s.world.ops.eraseIdx k) fun o' ho' =>
        hinv.ops o' (List.mem_of_mem_eraseIdx ho')
      simp only [handle]
      split_ifs with hbytes
      · subst hbytes
        have hsock := (hinv.ops o hmem).resolve_right fun hspent => by
          have hany := hspent.2
          rw [hresult] at hany
          cases hany
        obtain ⟨halone,hidle⟩ := ha o hk hresult
        exact sound_disconnect herase h.1 hsock halone hidle
      · split
        · exact ⟨h.1,fun _ => herase⟩
        · rename_i hkind
          have hsock := (hinv.ops o hmem).resolve_right fun hspent => by
            rw [hspent.1] at hkind
            cases hkind
          exact ⟨h.1,fun _ => herase.receive hsock bytes.length⟩
    | iterate j now =>
      obtain ⟨r,hr,rfl⟩ := Option.map_eq_some_iff.mp ht
      exact sound_iterate now hinv h.1 (hinv.receiving r (List.mem_of_getElem? hr))

theorem start_sound : Sound (start : Net F) := by
  have hk := (World.quiet_start (F := F)).toKeeps
  have hclient : (World.start : World F).client = World.empty.client := hk.client
  have hplayer : ∀ i, ((World.start : World F).player i).isSome = false := by
    intro i
    rw [World.start_player]
    rfl
  refine ⟨⟨nofun,nofun,List.nodup_nil⟩,fun _ => ⟨fun i => ?_,fun i => ?_,fun i n hn => ?_,
    nofun,fun o ho => ?_,nofun,nofun⟩⟩
  · change ((World.start : World F).client i).isconnected = ((World.start : World F).player i).isSome
    rw [hclient, hplayer]
    rfl
  · change ((World.start : World F).client i).sock.isSome = ((World.start : World F).player i).isSome
    rw [hclient, hplayer]
    rfl
  · change ((World.start : World F).client i).sock = some n at hn
    rw [hclient] at hn
    cases hn
  · obtain ⟨new,hops,hnew⟩ := hk.ops
    change o ∈ (World.start : World F).ops at ho
    rw [hops] at ho
    cases (hnew o ho).2.2

/-- In a run in which nothing else of a slot is in flight or under way when its session ends,
completions act on the session that they belong to. -/
theorem completions_isolated (as : List (NetInput F)) (h : Runs.run next start as = some s)
    (hok : Runs.Along next Alone start as) : Isolated s.log :=
  (Runs.invariant (fun _ _ _ hs hq ht => hs.next hq ht) start_sound hok h).1

end Steps

/-- A client jumps, is told of it, and leaves. -/
theorem completions_isolated_leave : ∃ s : Net ℚ,
    Runs.run next start [.accept zeroPlayer,.complete 0 [2,30],.handle 0,.iterate 0 ⟨0,true⟩,
      .complete 0 [2],.complete 1 [],.handle 1] = some s ∧
      s.log.map (fun c => c.kind) = [.processPacket,.disconnect] ∧ Isolated s.log := by
  refine ⟨_,rfl,?_,?_⟩
  · rfl
  apply completions_isolated [.accept zeroPlayer,.complete 0 [2,30],.handle 0,.iterate 0 ⟨0,true⟩,
    .complete 0 [2],.complete 1 [],.handle 1] rfl
  rw [Runs.along_cons rfl, Runs.along_cons rfl, Runs.along_cons rfl, Runs.along_cons rfl,
    Runs.along_cons rfl, Runs.along_cons rfl, Runs.along_cons rfl]
  refine ⟨trivial,trivial,fun o ho hnone => ?_,trivial,trivial,trivial,fun o ho _ => ⟨?_,?_⟩,trivial⟩
  · cases ho
    cases hnone
  · cases ho
    intro o' ho' _
    rw [List.mem_singleton.mp ho']
    exact ⟨rfl,rfl⟩
  · intro r hr
    cases hr

/-- A client leaves while a packet to it is in flight; its slot is taken again, and the
completion of that send disconnects the new client. -/
theorem stale_send_disconnects : ∃ (as : List (NetInput ℚ)) (s : Net ℚ),
    Runs.run next start as = some s ∧ ¬ Isolated s.log := by
  refine ⟨[.accept zeroPlayer,.send 0 (.scJump 0),.complete 0 [],.handle 0,.complete 0 [],
    .accept zeroPlayer,.handle 0],_,rfl,fun h => ?_⟩
  have hown := h.own _ (List.mem_cons_of_mem _ List.mem_cons_self) rfl
  exact absurd hown (by decide)

end Net

end LastHero
