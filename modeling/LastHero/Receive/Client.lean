import LastHero.Memory
import LastHero.Support.WhileLoop

/-! The receive side of a connection: the buffers of CLIENT and the loop of
recv_packet_construct. ProcessPacket writes none of them, so its calls are collected as the
contents of packet_buf that each of them sees. -/
namespace LastHero

/-- The fields of CLIENT that survive between two receives. -/
structure Client where
  prevSize : ℤ
  packetBuf : Buffer
  /-- recv_over.io_buf -/
  ioBuf : Buffer

namespace Client

/-- A slot before its first connection. -/
def zero : Client := ⟨0,Buffer.zero,Buffer.zero⟩

/-- Storage of a slot as OP_ACCEPT leaves it: prev_size is reset, the buffers are not. -/
def accept (c : Client) : Client := { c with prevSize := 0 }

/-- WSARecv completes with the bytes of `chunk`. -/
def receive (c : Client) (chunk : List Byte) : Client := { c with ioBuf := c.ioBuf.fill chunk }

/-- The bytes of an unfinished packet. -/
def pending (c : Client) : List Byte := c.packetBuf.bytes.take c.prevSize.toNat

end Client

/-- Locals of recv_packet_construct with the two fields of CLIENT that the loop updates. -/
structure RecvLoop where
  /-- index of `p` in io_buf -/
  p : ℤ
  restByte : ℤ
  packetSize : ℤ
  prevSize : ℤ
  packetBuf : Buffer
  /-- packet_buf at each call of ProcessPacket -/
  calls : List Buffer

def recvStart (c : Client) (ioByte : ℤ) : RecvLoop where
  p := 0
  restByte := ioByte
  packetSize := if c.prevSize ≠ 0 then (c.packetBuf.byteAt 0).toInt else 0
  prevSize := c.prevSize
  packetBuf := c.packetBuf
  calls := []

/-- `if (packet_size == 0) packet_size = p[0];` -/
def nextSize (io : Buffer) (s : RecvLoop) : Except Fault ℤ :=
  if s.packetSize = 0 then (io.read s.p).map Int8.toInt else .ok s.packetSize

/-- One iteration of the loop. -/
def recvBody (io : Buffer) (s : RecvLoop) : Except Fault RecvLoop := do
  let packetSize ← nextSize io s
  if packetSize ≤ s.restByte + s.prevSize then
    let buf ← memcpy s.packetBuf s.prevSize io s.p (packetSize - s.prevSize)
    return {
      p := s.p + (packetSize - s.prevSize)
      restByte := s.restByte - (packetSize - s.prevSize)
      packetSize := 0
      prevSize := 0
      packetBuf := buf
      calls := s.calls ++ [buf] }
  else
    let buf ← memcpy s.packetBuf s.prevSize io s.p s.restByte
    -- `p += rest_byte` comes after `rest_byte = 0`
    return {
      p := s.p
      restByte := 0
      packetSize := packetSize
      prevSize := s.prevSize + s.restByte
      packetBuf := buf
      calls := s.calls }

/-- An iteration hands on one packet or none, whatever was handed on before. -/
theorem recvBody_calls {io : Buffer} {s t : RecvLoop} (h : recvBody io s = .ok t) :
    ∃ new : Option Buffer, t.calls = s.calls ++ new.toList ∧
      ∀ calls, recvBody io { s with calls := calls } =
        .ok { t with calls := calls ++ new.toList } := by
  obtain ⟨k,hk,h⟩ := bind_eq_ok.mp h
  have hsame : ∀ calls, nextSize io { s with calls := calls } = .ok k := fun _ => hk
  split_ifs at h with hfull
  · obtain ⟨buf,hbuf,h⟩ := bind_eq_ok.mp h
    cases h
    refine ⟨some buf,rfl,fun calls => ?_⟩
    simp only [recvBody, hsame, bind, Except.bind]
    rw [if_pos hfull, hbuf]
    rfl
  · obtain ⟨buf,hbuf,h⟩ := bind_eq_ok.mp h
    cases h
    refine ⟨none,(List.append_nil _).symm,fun calls => ?_⟩
    simp only [recvBody, hsame, bind, Except.bind]
    rw [if_neg hfull, hbuf, Option.toList_none, List.append_nil]
    rfl

/-- `rest_byte > 0` -/
def recvMore (s : RecvLoop) : Bool := decide (0 < s.restByte)

def recvPacketConstruct (fuel : ℕ) (c : Client) (ioByte : ℤ) :
    Option (Except Fault (Client × List Buffer)) :=
  (WhileLoop.loop recvMore (recvBody c.ioBuf) fuel (recvStart c ioByte)).map fun r =>
    r.map fun s => (⟨s.prevSize,s.packetBuf,c.ioBuf⟩,s.calls)

/-- OP_RECV for the chunks of one connection in turn. -/
def feed (fuel : ℕ) : Client → List (List Byte) → Option (Except Fault (Client × List Buffer))
  | c, [] => some (.ok (c,[]))
  | c, chunk::chunks =>
    match recvPacketConstruct fuel (c.receive chunk) chunk.length with
    | none => none
    | some (.error e) => some (.error e)
    | some (.ok (c',calls)) => (feed fuel c' chunks).map fun r =>
        r.map fun q => (q.1,calls ++ q.2)

end LastHero
