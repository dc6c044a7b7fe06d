import LastHero.Game.OwnBytes
import LastHero.Receive.Reassembly

/-! The receive side of a connection with the game behind it. ProcessPacket runs inside the loop of
recv_packet_construct, on a packet_buf that still holds bytes of earlier packets; what it does to
the game is nevertheless a matter of the packets alone, however the stream was cut. -/
namespace LastHero
open WhileLoop LengthPrefix

/-- What a connection depends on besides its bytes: the answers of the database to SignUp, and the
clock at each of its packets. -/
structure Outside where
  answer : List Byte → Bool
  time : ℕ → ℕ

/-- The game and the number of packets that the connection has sent. -/
structure Service (F : Type) where
  world : World F
  served : ℕ

section
variable {F : Type} [FloatArith F]

/-- One call of ProcessPacket. -/
def processCall (o : Outside) (uid : Slot) (buf : Buffer) (g : Service F) :
    Except Fault (Service F) :=
  (World.serve buf o.answer uid (o.time g.served) g.world).map fun w => ⟨w,g.served+1⟩

def processCalls (o : Outside) (uid : Slot) : List Buffer → Service F → Except Fault (Service F)
  | [], g => .ok g
  | buf::bufs, g => do
    let g ← processCall o uid buf g
    processCalls o uid bufs g

/-- One iteration of the loop, with the call of ProcessPacket that it makes. -/
def serveBody (o : Outside) (uid : Slot) (io : Buffer) (s : RecvLoop × Service F) :
    Except Fault (RecvLoop × Service F) := do
  let t ← recvBody io s.1
  let g ← processCalls o uid (t.calls.drop s.1.calls.length) s.2
  return (t,g)

/-- `rest_byte > 0` -/
def serveMore (s : RecvLoop × Service F) : Bool := recvMore s.1

/-- recv_packet_construct -/
def recvServe (o : Outside) (uid : Slot) (fuel : ℕ) (c : Client) (ioByte : ℤ) (g : Service F) :
    Option (Except Fault (Client × Service F)) :=
  (loop serveMore (serveBody o uid c.ioBuf) fuel (recvStart c ioByte,g)).map fun r =>
    r.map fun s => (⟨s.1.prevSize,s.1.packetBuf,c.ioBuf⟩,s.2)

/-- OP_RECV for the chunks of one connection in turn, without the WSARecv that comes after each. -/
def serveStream (o : Outside) (uid : Slot) (fuel : ℕ) :
    Client → Service F → List (List Byte) → Option (Except Fault (Client × Service F))
  | c, g, [] => some (.ok (c,g))
  | c, g, chunk::chunks =>
    match recvServe o uid fuel (c.receive chunk) chunk.length g with
    | none => none
    | some (.error e) => some (.error e)
    | some (.ok (c',g')) => serveStream o uid fuel c' g' chunks

variable {o : Outside} {uid : Slot} {io : Buffer} {n : ℕ} {s t : RecvLoop} {g : Service F}

theorem processCalls_append (bufs bufs' : List Buffer) (g : Service F) :
    processCalls o uid (bufs ++ bufs') g =
      processCalls o uid bufs g >>= processCalls o uid bufs' := by
  induction bufs generalizing g with
  | nil => rfl
  | cons buf bufs ih =>
    rw [List.cons_append, processCalls, processCalls]
    cases processCall o uid buf g with
    | error e => rfl
    | ok g' => exact ih g'

/-- Processing the packets inside the loop or after it is the same: the loop does not look at the
game. -/
theorem loop_serve (o : Outside) (uid : Slot)
    (h : loop recvMore (recvBody io) n s = some (.ok t)) (g : Service F) :
    ∃ new, t.calls = s.calls ++ new ∧
      loop serveMore (serveBody o uid io) n (s,g) =
        some ((processCalls o uid new g).map fun g' => (t,g')) := by
  induction n generalizing s g with
  | zero =>
    simp only [loop] at h ⊢
    split_ifs at h with hmore
    cases h
    exact ⟨[],(List.append_nil _).symm,if_neg (show ¬ serveMore (t,g) = true from hmore)⟩
  | succ n ih =>
    by_cases hmore : recvMore s = true
    · cases hbody : recvBody io s with
      | error e => simp [loop, hmore, hbody] at h
      | ok u =>
        rw [loop_next hmore hbody] at h
        obtain ⟨new,hnew,-⟩ := recvBody_calls hbody
        generalize new.toList = new at hnew
        have hstep : serveBody o uid io (s,g) =
            (processCalls o uid new g).map fun g' => (u,g') := by
          simp only [serveBody, hbody, bind, Except.bind]
          rw [hnew, List.drop_left]
          cases processCalls o uid new g with
          | error e => rfl
          | ok g' => rfl
        cases hcalls : processCalls o uid new g with
        | error e =>
          rw [hcalls] at hstep
          obtain ⟨new',ht,-⟩ := ih h g
          refine ⟨new ++ new',by rw [ht, hnew, List.append_assoc],?_⟩
          rw [processCalls_append, hcalls]
          simp [loop, serveMore, hmore, hstep, Except.map, bind, Except.bind]
        | ok g' =>
          rw [hcalls] at hstep
          obtain ⟨new',ht,hloop⟩ := ih h g'
          refine ⟨new ++ new',by rw [ht, hnew, List.append_assoc],?_⟩
          rw [processCalls_append, hcalls, loop_next (show serveMore (s,g) = true from hmore) hstep]
          exact hloop
    · rw [loop_done (by simpa using hmore)] at h
      cases h
      refine ⟨[],(List.append_nil _).symm,?_⟩
      rw [loop_done (show serveMore (t,g) = false from Bool.eq_false_iff.mpr hmore)]
      rfl

/-- A receive whose loop returns serves the packets that the loop collects. -/
theorem recvServe_eq (o : Outside) (uid : Slot) {c c' : Client} {k : ℤ} {bufs : List Buffer}
    (h : recvPacketConstruct n c k = some (.ok (c',bufs))) (g : Service F) :
    recvServe o uid n c k g = some ((processCalls o uid bufs g).map fun g' => (c',g')) := by
  unfold recvPacketConstruct at h
  obtain ⟨r,hloop,h⟩ := Option.map_eq_some_iff.mp h
  cases r with
  | error e => cases h
  | ok t =>
    cases h
    obtain ⟨new,hcalls,hserve⟩ := loop_serve o uid hloop g
    have hnew : t.calls = new := hcalls
    rw [recvServe, hserve, hnew]
    cases processCalls o uid new g with
    | error e => rfl
    | ok g' => rfl

/-- The same for all receives of a connection. -/
theorem serveStream_eq {c c' : Client} {chunks : List (List Byte)} {bufs : List Buffer}
    (h : feed n c chunks = some (.ok (c',bufs))) (g : Service F) :
    serveStream o uid n c g chunks =
      some ((processCalls o uid bufs g).map fun g' => (c',g')) := by
  induction chunks generalizing c bufs g with
  | nil =>
    cases h
    rfl
  | cons chunk chunks ih =>
    unfold feed at h
    split at h
    · cases h
    · cases h
    · rename_i c₁ bufs₁ hrecv
      obtain ⟨r,hfeed,h⟩ := Option.map_eq_some_iff.mp h
      cases r with
      | error e => cases h
      | ok q =>
        cases h
        have hserve := recvServe_eq o uid hrecv g
        rw [processCalls_append, serveStream, hserve]
        cases processCalls o uid bufs₁ g with
        | error e => rfl
        | ok g' => exact ih hfeed g'

omit [FloatArith F] in
/-- A stream of packets with the beginning of another one decodes to them. -/
theorem decode_packets {packets : List (List Byte)} {tail : List Byte}
    (hpackets : ∀ pkt ∈ packets, LengthPrefix.Packet sizeOf pkt)
    (htail : tail = [] ∨ ∃ more, more ≠ [] ∧ LengthPrefix.Packet sizeOf (tail ++ more)) :
    decode sizeOf (packets.flatten ++ tail) = (packets,tail) ∧
      Framed sizeOf (packets.flatten ++ tail) := by
  have hend : decode sizeOf tail = ([],tail) := by
    rcases htail with rfl | ⟨more,hmore,hp⟩
    · exact decode_nil
    · exact decode_prefix hp hmore
  have hdec := decode_flatten hpackets hend
  refine ⟨hdec,fun x hx => ?_⟩
  rw [hdec] at hx
  rcases htail with rfl | ⟨more,-,y,ys,he,hsize⟩
  · cases hx
  · cases tail with
    | nil => cases hx
    | cons z zs =>
      obtain rfl : z = x := Option.some.inj hx
      obtain ⟨rfl,-⟩ := List.cons.inj he
      rw [hsize]
      simp only [List.cons_append, List.length_cons]
      omega

/-- A stream of packets with the beginning of another one is served packet by packet, each of them
at the front of a buffer. -/
theorem serveStream_packets (o : Outside) (uid : Slot) {packets : List (List Byte)} {tail : List Byte}
    {chunks : List (List Byte)} {c : Client} (g : Service F)
    (hpackets : ∀ pkt ∈ packets, LengthPrefix.Packet sizeOf pkt)
    (htail : tail = [] ∨ ∃ more, more ≠ [] ∧ LengthPrefix.Packet sizeOf (tail ++ more))
    (hchunks : ∀ chunk ∈ chunks, chunk ≠ [] ∧ chunk.length ≤ bufSize)
    (hsplit : chunks.flatten = packets.flatten ++ tail) (hprev : c.prevSize = 0)
    (hfuel : bufSize ≤ n) : ∃ bufs r, serveStream o uid n c g chunks = some r ∧
      r.map Prod.snd = processCalls o uid bufs g ∧
      List.Forall₂ (fun buf pkt => buf.bytes.take pkt.length = pkt) bufs packets := by
  obtain ⟨hdec,hframed⟩ := decode_packets hpackets htail
  have hpend : c.pending = [] := by
    simp only [Client.pending]
    rw [hprev]
    rfl
  have hstream : c.pending ++ chunks.flatten = packets.flatten ++ tail := by
    rw [hpend, hsplit, List.nil_append]
  obtain ⟨c',bufs,hfeed,hall,-⟩ := feed_spec hfuel (fun chunk hc => (hchunks chunk hc).2)
    ⟨hprev.ge,fun h => absurd h (by omega)⟩ (by rw [hpend, hprev]; rfl) (hstream ▸ hframed)
  rw [hstream, hdec] at hall
  refine ⟨bufs,_,serveStream_eq hfeed g,?_,hall⟩
  cases processCalls o uid bufs g with
  | error e => rfl
  | ok g' => rfl

end

/-- The bytes that a whole packet needs decide what it does. -/
theorem World.own_of_covers {F : Type} [FloatArith F] [ExactBytes F] {n : ℕ} {b : Buffer}
    (hn : 2 ≤ n) (hlt : n < bufSize) (h : World.Covers F n b) :
    Buffer.Own n b (World.serve (F := F)) := by
  intro b' hb'
  have htype : CsType.ofByte (b'.byteAt 1) = CsType.ofByte (b.byteAt 1) := by rw [hb' 1 hn]
  funext answer uid time w
  simp only [serve, processPacket]
  rw [htype]
  simp only [Covers] at h
  cases ht : CsType.ofByte (b.byteAt 1) with
  | none => rfl
  | some t =>
    rw [ht] at h
    dsimp only
    cases t with
    | csLogin =>
      rw [onType_login, onType_login, (Buffer.own_login hlt).mpr h b' hb']
    | csSignup =>
      have hsame := (Buffer.own_signUpStatement hlt).mpr h b' hb'
      simp only [onType]
      rw [hsame]
    | movePacket => exact congrArg Except.ok (congrFun (congrFun (own_onMove.mpr h b' hb') uid) w)
    | csBossMove =>
      exact congrArg Except.ok (congrFun (congrFun (own_onBossMove.mpr h b' hb') uid) w)
    | csNpcMove => exact congrArg Except.ok (congrFun (own_onNpcMove.mpr h b' hb') w)
    | csBossAttack =>
      exact congrArg Except.ok (congrFun (congrFun (own_onBossAttack.mpr h b' hb') uid) w)
    | csBossBone => exact congrArg Except.ok (congrFun (own_onBossBone.mpr h b' hb') w)
    | csUpdateMoveState =>
      exact congrArg Except.ok (congrFun (congrFun (own_moveState.mpr h b' hb') uid) w)
    | csChat | csAttack | csGuard | csFireball | csJump | csEvade | csWeaponOn | csWeaponOff
    | csBerserk | csReady | csHide | csHideOff | csAssassin | csMoveStop | csSwordOn | csSwordOff
    | csHammerOn | csHammerOff | csSyncFail => rfl

/-- A packet in a buffer that holds nothing else. -/
def alone (pkt : List Byte) : Buffer := Buffer.zero.fill pkt

/-- The packet says its size and type, and holds what its handler reads. -/
structure WholePacket (F : Type) [FloatArith F] (pkt : List Byte) : Prop where
  packet : LengthPrefix.Packet sizeOf pkt
  typed : 2 ≤ pkt.length
  covers : World.Covers F pkt.length (alone pkt)

section
variable {F : Type} [FloatArith F] [ExactBytes F] {o : Outside} {uid : Slot} {pkt : List Byte}
  {buf : Buffer}

omit [ExactBytes F] in
theorem WholePacket.length_lt (h : WholePacket F pkt) : pkt.length < bufSize := by
  obtain ⟨x,xs,-,hsize⟩ := h.packet
  have hlt := sizeOf_lt x
  simp only [bufSize]
  omega

/-- What lies behind the packet in packet_buf does not matter. -/
theorem WholePacket.serve_eq (h : WholePacket F pkt) (hbuf : buf.bytes.take pkt.length = pkt) :
    (World.serve buf : _ → _ → _ → World F → _) = World.serve (alone pkt) := by
  have hfill := Buffer.zero.fill_take h.length_lt.le
  have hagree : Buffer.Agree pkt.length (alone pkt) buf := by
    intro i hi
    have hsame := congrArg (fun l => l.getD i 0) (hfill.trans hbuf.symm)
    simpa [Buffer.byteAt, alone, List.getD, List.getElem?_take, hi] using hsame
  exact (World.own_of_covers h.typed h.length_lt h.covers buf hagree).symm

theorem processCalls_whole {bufs : List Buffer} {packets : List (List Byte)}
    (hwhole : ∀ pkt ∈ packets, WholePacket F pkt)
    (h : List.Forall₂ (fun buf pkt => buf.bytes.take pkt.length = pkt) bufs packets)
    (g : Service F) : processCalls o uid bufs g = processCalls o uid (packets.map alone) g := by
  induction h generalizing g with
  | nil => rfl
  | cons hbuf _ ih =>
    obtain ⟨hfirst,hrest⟩ := List.forall_mem_cons.mp hwhole
    rw [List.map_cons, processCalls, processCalls, processCall, processCall, hfirst.serve_eq hbuf]
    congr 1
    funext g'
    exact ih hrest g'

/-- The server that reads a stream in pieces does what one does that gets the packets one by one,
each in a clean buffer. -/
theorem stream_refines (packets : List (List Byte)) (tail : List Byte) (chunks : List (List Byte))
    (c : Client) (g : Service F) (fuel : ℕ) (hwhole : ∀ pkt ∈ packets, WholePacket F pkt)
    (htail : tail = [] ∨ ∃ more, more ≠ [] ∧ LengthPrefix.Packet sizeOf (tail ++ more))
    (hchunks : ∀ chunk ∈ chunks, chunk ≠ [] ∧ chunk.length ≤ bufSize)
    (hsplit : chunks.flatten = packets.flatten ++ tail) (hprev : c.prevSize = 0)
    (hfuel : bufSize ≤ fuel) :
    ∃ r, serveStream o uid fuel c g chunks = some r ∧
      r.map Prod.snd = processCalls o uid (packets.map alone) g := by
  obtain ⟨bufs,r,hserve,hcalls,hall⟩ := serveStream_packets o uid g
    (fun pkt hp => (hwhole pkt hp).packet) htail hchunks hsplit hprev hfuel
  exact ⟨r,hserve,hcalls.trans (processCalls_whole hwhole hall g)⟩

end

/-- A jump and a move state, in three pieces. -/
theorem stream_refines_jump : ∃ r,
    serveStream ⟨fun _ => true,fun n => n⟩ 0 bufSize Client.zero
      ⟨World.crowd (World.mover (.lits 0 0 0) : CPlayer RawFloat),0⟩ [[2],[30,4,81],[2,0]] = some r ∧
    r.map Prod.snd = processCalls ⟨fun _ => true,fun n => n⟩ 0 ([[2,30],[4,81,2,0]].map alone)
      ⟨World.crowd (World.mover (.lits 0 0 0)),0⟩ := by
  apply stream_refines [[2,30],[4,81,2,0]] []
  · intro pkt hp
    rcases List.mem_cons.mp hp with rfl | hp
    · exact ⟨⟨2,[30],rfl,rfl⟩,le_rfl,trivial⟩
    · obtain rfl : pkt = [4,81,2,0] := by simpa using hp
      exact ⟨⟨4,[81,2,0],rfl,rfl⟩,by decide,by change 4 ≤ 4; exact le_rfl⟩
  · exact Or.inl rfl
  · decide
  · rfl
  · rfl
  · exact le_rfl

end LastHero
