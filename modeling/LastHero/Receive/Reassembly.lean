import LastHero.Receive.Client
import LastHero.Support.LengthPrefix

/-! The receive loop decodes the length-prefixed stream that the pending bytes and the chunk
form together, so the packets it hands on do not depend on how the stream was cut. -/
namespace LastHero
open WhileLoop LengthPrefix

/-- The size byte, read as a signed char. -/
abbrev sizeOf (x : Byte) : ℤ := x.toInt

/-- Where the loop condition is tested: either between two packets, or inside one whose size
byte is the first of packet_buf and not yet reached. `n` is the number of bytes received. -/
structure AtHead (n : ℕ) (s : RecvLoop) : Prop where
  rest_nonneg : 0 ≤ s.restByte
  rest_le : s.restByte ≤ n
  p_eq : 0 < s.restByte → s.p = n - s.restByte
  prev_nonneg : 0 ≤ s.prevSize
  prev_lt : 0 < s.prevSize → s.prevSize < sizeOf (s.packetBuf.byteAt 0)
  size_eq : 0 < s.restByte →
    s.packetSize = if s.prevSize = 0 then 0 else sizeOf (s.packetBuf.byteAt 0)

/-- The bytes of the chunk that the loop has not consumed. -/
def remaining (io : Buffer) (n : ℕ) (s : RecvLoop) : List Byte :=
  (io.bytes.drop (n - s.restByte.toNat)).take s.restByte.toNat

/-- The undecoded stream: the unfinished packet and the rest of the chunk. -/
def stream (io : Buffer) (n : ℕ) (s : RecvLoop) : List Byte :=
  s.packetBuf.bytes.take s.prevSize.toNat ++ remaining io n s

section
variable {io : Buffer} {n : ℕ} {s : RecvLoop} {x : Byte} {xs : List Byte}

theorem sizeOf_lt (x : Byte) : sizeOf x < 128 := by
  have h := x.toInt_lt
  simp only [sizeOf]
  omega

theorem AtHead.prev_le (h : AtHead n s) : s.prevSize < 128 := by
  have hb := sizeOf_lt (s.packetBuf.byteAt 0)
  by_cases hp : 0 < s.prevSize
  · have hl := h.prev_lt hp
    omega
  · omega

theorem remaining_split (io : Buffer) {r j : ℕ} (hr : r ≤ n) (hj : j ≤ r) :
    (io.bytes.drop (n-r)).take r =
      (io.bytes.drop (n-r)).take j ++ (io.bytes.drop (n-(r-j))).take (r-j) := by
  conv_lhs => rw [show r = j+(r-j) by omega, List.take_add, List.drop_drop]
  rw [show j+(r-j) = r by omega, show n-r+j = n-(r-j) by omega]

theorem remaining_length (io : Buffer) (h : AtHead n s) (hn : n ≤ bufSize) :
    ((remaining io n s).length : ℤ) = s.restByte := by
  have h0 := h.rest_nonneg
  have h1 := h.rest_le
  simp only [remaining, List.length_take, List.length_drop, io.size_eq]
  omega

theorem stream_length (io : Buffer) (h : AtHead n s) (hn : n ≤ bufSize) :
    ((stream io n s).length : ℤ) = s.prevSize + s.restByte := by
  have hp := h.prev_nonneg
  have hl := h.prev_le
  have hr := remaining_length io h hn
  have hb : bufSize = 512 := rfl
  simp only [stream, List.length_append, List.length_take, s.packetBuf.size_eq]
  omega

theorem byteAt_zero_of_take {b : Buffer} {k : ℕ} {ys : List Byte} (h : b.bytes.take k = x::ys) :
    b.byteAt 0 = x := by
  have hk : k ≠ 0 := by rintro rfl; simp at h
  have hx := congrArg (fun l => l[0]?) h
  simp only [List.getElem?_take, List.getElem?_cons_zero] at hx
  rw [if_pos (by omega)] at hx
  simp [Buffer.byteAt, List.getD, hx]

/-- Inside a packet its size byte is the first byte of packet_buf. -/
theorem byteAt_zero_of_stream (h : AtHead n s) (hprev : s.prevSize ≠ 0)
    (hx : stream io n s = x::xs) : s.packetBuf.byteAt 0 = x := by
  have hpos := h.prev_nonneg
  have hlong := h.prev_le
  cases ht : s.packetBuf.bytes.take s.prevSize.toNat with
  | nil =>
    have hl := congrArg List.length ht
    have hb : bufSize = 512 := rfl
    simp only [List.length_take, s.packetBuf.size_eq, List.length_nil] at hl
    omega
  | cons y ys =>
    rw [stream, ht, List.cons_append] at hx
    rw [byteAt_zero_of_take ht, (List.cons.inj hx).1]

theorem AtHead.prev_lt_size (h : AtHead n s) (hprev : s.prevSize ≠ 0)
    (hx : stream io n s = x::xs) : s.prevSize < sizeOf x := by
  have hpos := h.prev_nonneg
  have hlt := h.prev_lt (by omega)
  rwa [byteAt_zero_of_stream h hprev hx] at hlt

/-- With bytes to read, the loop knows the size byte of the packet it is in. -/
theorem nextSize_ok (h : AtHead n s) (hr : 0 < s.restByte) (hx : stream io n s = x::xs) :
    nextSize io s = .ok (sizeOf x) := by
  have hsize := h.size_eq hr
  have hp := h.p_eq hr
  have hle := h.rest_le
  by_cases hprev : s.prevSize = 0
  · rw [if_pos hprev] at hsize
    have hrem : remaining io n s = x::xs := by simpa [stream, hprev] using hx
    have hget : io.bytes[s.p.toNat]? = some x := by
      have he := congrArg (fun l => l[0]?) hrem
      simp only [remaining, List.getElem?_take, List.getElem?_drop, List.getElem?_cons_zero] at he
      rw [if_pos (by omega)] at he
      rw [← he]
      congr 1
      omega
    have hread : io.read s.p = .ok x := by
      simp only [Buffer.read, hget]
      rw [if_neg (by omega)]
    simp [nextSize, hsize, hread, Except.map, sizeOf]
  · have hlt := h.prev_lt_size hprev hx
    have hpos := h.prev_nonneg
    rw [if_neg hprev, byteAt_zero_of_stream h hprev hx] at hsize
    rw [nextSize, if_neg (by omega), hsize]

/-- The iteration that completes a packet of `k` bytes. -/
theorem recvBody_whole {k : ℤ} {buf : Buffer} (hk : nextSize io s = .ok k)
    (hle : k ≤ s.restByte + s.prevSize)
    (hc : memcpy s.packetBuf s.prevSize io s.p (k - s.prevSize) = .ok buf) :
    recvBody io s = .ok ⟨s.p + (k - s.prevSize),s.restByte - (k - s.prevSize),0,0,buf,
      s.calls ++ [buf]⟩ := by
  simp only [recvBody, hk, bind, Except.bind, if_pos hle, hc]
  rfl

/-- The iteration that stores the start of a packet of `k` bytes. -/
theorem recvBody_part {k : ℤ} {buf : Buffer} (hk : nextSize io s = .ok k)
    (hle : ¬ k ≤ s.restByte + s.prevSize)
    (hc : memcpy s.packetBuf s.prevSize io s.p s.restByte = .ok buf) :
    recvBody io s = .ok ⟨s.p,0,k,s.prevSize + s.restByte,buf,s.calls⟩ := by
  simp only [recvBody, hk, bind, Except.bind, if_neg hle, hc]
  rfl

/-- A complete packet is handed to ProcessPacket at the front of packet_buf. -/
theorem recvBody_packet (h : AtHead n s) (hn : n ≤ bufSize) (hr : 0 < s.restByte)
    (hx : stream io n s = x::xs) (hpos : 0 < sizeOf x) (hle : sizeOf x ≤ xs.length+1) :
    ∃ t buf pkt, recvBody io s = .ok t ∧ AtHead n t ∧ t.restByte < s.restByte ∧
      t.calls = s.calls ++ [buf] ∧ buf.bytes.take pkt.length = pkt ∧ LengthPrefix.Packet sizeOf pkt ∧
      stream io n s = pkt ++ stream io n t := by
  have hlen := stream_length io h hn
  rw [hx, List.length_cons] at hlen
  have hlt : s.prevSize < sizeOf x := by
    by_cases hprev : s.prevSize = 0
    · omega
    · exact h.prev_lt_size hprev hx
  have hp := h.p_eq hr
  have h0 := h.prev_nonneg
  have h1 := h.rest_le
  obtain ⟨buf,hcopy,htake⟩ := memcpy_ok s.packetBuf s.prevSize io s.p (sizeOf x - s.prevSize) (by
      have hs := sizeOf_lt x
      have hb : bufSize = 512 := rfl
      omega)
  have hbody := recvBody_whole (nextSize_ok h hr hx) (by omega) hcopy
  have hfront : (buf.bytes.take (sizeOf x).toNat).length = (sizeOf x).toNat := by
    have hs := sizeOf_lt x
    have hb : bufSize = 512 := rfl
    rw [List.length_take, buf.size_eq]
    omega
  have hstream : stream io n s = buf.bytes.take (sizeOf x).toNat ++ stream io n
      ⟨s.p + (sizeOf x - s.prevSize),s.restByte - (sizeOf x - s.prevSize),0,0,buf,
        s.calls ++ [buf]⟩ := by
    rw [add_sub_cancel] at htake
    have hsplit := remaining_split io (n := n) (r := s.restByte.toNat)
      (j := (sizeOf x - s.prevSize).toNat) (by omega) (by omega)
    have hidx : s.p.toNat = n - s.restByte.toNat := by omega
    have hrest : s.restByte.toNat - (sizeOf x - s.prevSize).toNat =
        (s.restByte - (sizeOf x - s.prevSize)).toNat := by omega
    rw [htake, stream, remaining, hsplit, hrest, hidx]
    simp [stream, remaining]
  refine ⟨_,buf,buf.bytes.take (sizeOf x).toNat,hbody,?_,by dsimp only; omega,rfl,
    by rw [hfront],?_,hstream⟩
  · exact ⟨by dsimp only; omega,by dsimp only; omega,by dsimp only; omega,le_rfl,
      by dsimp only; omega,fun _ => rfl⟩
  · rw [hx] at hstream
    cases hcut : buf.bytes.take (sizeOf x).toNat with
    | nil =>
      rw [hcut, List.length_nil] at hfront
      omega
    | cons y ys =>
      rw [hcut, List.cons_append] at hstream
      obtain ⟨rfl,-⟩ := List.cons.inj hstream
      exact ⟨x,ys,rfl,by rw [← hcut, hfront]; omega⟩

/-- A packet that goes on beyond the chunk is stored at the front of packet_buf. -/
theorem recvBody_short (h : AtHead n s) (hn : n ≤ bufSize) (hr : 0 < s.restByte)
    (hx : stream io n s = x::xs) (hle : xs.length+1 < sizeOf x) :
    ∃ t, recvBody io s = .ok t ∧ AtHead n t ∧ t.restByte = 0 ∧ t.calls = s.calls ∧
      stream io n t = x::xs := by
  have hlen := stream_length io h hn
  have hp := h.p_eq hr
  have h0 := h.prev_nonneg
  have h1 := h.rest_le
  have hs := sizeOf_lt x
  have hb : bufSize = 512 := rfl
  rw [hx, List.length_cons] at hlen
  obtain ⟨buf,hcopy,htake⟩ := memcpy_ok s.packetBuf s.prevSize io s.p (s.restByte) (by omega)
  have hbody := recvBody_part (nextSize_ok h hr hx) (by omega) hcopy
  have hfront : buf.bytes.take (s.prevSize + s.restByte).toNat = x::xs := by
    have hidx : s.p.toNat = n - s.restByte.toNat := by omega
    rw [htake, hidx, ← hx, stream, remaining]
  refine ⟨_,hbody,?_,rfl,rfl,?_⟩
  · refine ⟨le_rfl,by dsimp only; omega,by simp,by dsimp only; omega,?_,by simp⟩
    intro _
    dsimp only
    rw [byteAt_zero_of_take hfront]
    omega
  · simpa [stream, remaining] using hfront

/-- A size byte that announces nothing either faults or consumes nothing. -/
theorem recvBody_stuck (h : AtHead n s) (hn : n ≤ bufSize) (hr : 0 < s.restByte)
    (hx : stream io n s = x::xs) (hpos : sizeOf x ≤ 0) {t : RecvLoop}
    (ht : recvBody io s = .ok t) : AtHead n t ∧ t.restByte = s.restByte := by
  have hprev : s.prevSize = 0 := by
    by_contra hprev
    have hlt := h.prev_lt_size hprev hx
    have h0 := h.prev_nonneg
    omega
  have hk := nextSize_ok h hr hx
  have hp := h.p_eq hr
  have h1 := h.rest_le
  by_cases hz : sizeOf x = 0
  · obtain ⟨buf,hcopy,-⟩ := memcpy_ok s.packetBuf s.prevSize io s.p (sizeOf x - s.prevSize) (by omega)
    rw [recvBody_whole hk (by omega) hcopy] at ht
    cases ht
    exact ⟨⟨by dsimp only; omega,by dsimp only; omega,by dsimp only; omega,le_rfl,
      by dsimp only; omega,fun _ => rfl⟩,by dsimp only; omega⟩
  · have hcopy : memcpy s.packetBuf s.prevSize io s.p (sizeOf x - s.prevSize) = .error .badCopy :=
      dif_neg (by omega)
    have hle : sizeOf x ≤ s.restByte + s.prevSize := by omega
    simp only [recvBody, hk, bind, Except.bind, if_pos hle, hcopy] at ht
    cases ht

/-- Unread bytes are part of the stream. -/
theorem exists_stream_cons (io : Buffer) (h : AtHead n s) (hn : n ≤ bufSize) (hr : 0 < s.restByte) :
    ∃ x xs, stream io n s = x::xs := by
  have hlen := stream_length io h hn
  have h0 := h.prev_nonneg
  cases hx : stream io n s with
  | nil =>
    rw [hx, List.length_nil] at hlen
    omega
  | cons x xs => exact ⟨x,xs,rfl⟩

/-- Whatever bytes arrive, an iteration that returns leaves the loop at its head. -/
theorem recvBody_atHead (h : AtHead n s) (hn : n ≤ bufSize) (hr : 0 < s.restByte) {t : RecvLoop}
    (ht : recvBody io s = .ok t) : AtHead n t := by
  obtain ⟨x,xs,hx⟩ := exists_stream_cons io h hn hr
  by_cases hpos : 0 < sizeOf x
  · by_cases hle : sizeOf x ≤ xs.length+1
    · obtain ⟨u,_,_,hu,hhead,-⟩ := recvBody_packet h hn hr hx hpos hle
      exact Except.ok.inj (hu.symm.trans ht) ▸ hhead
    · obtain ⟨u,hu,hhead,-⟩ := recvBody_short h hn hr hx (by omega)
      exact Except.ok.inj (hu.symm.trans ht) ▸ hhead
  · exact (recvBody_stuck h hn hr hx (by omega) ht).1

/-- A finished loop leaves no stream but the unfinished packet. -/
theorem stream_finished (hr : s.restByte = 0) :
    stream io n s = s.packetBuf.bytes.take s.prevSize.toNat := by
  simp [stream, remaining, hr]

/-- An unfinished packet in packet_buf decodes to nothing yet. -/
theorem decode_finished (io : Buffer) (h : AtHead n s) (hn : n ≤ bufSize) (hr : s.restByte = 0) :
    decode sizeOf (stream io n s) = ([],stream io n s) := by
  have hlen := stream_length io h hn
  cases hx : stream io n s with
  | nil => simp
  | cons x xs =>
    rw [hx, List.length_cons, hr] at hlen
    have hlt := h.prev_lt_size (by omega) hx
    exact decode_stop (by omega)

/-- A stream that begins with a packet is not finished. -/
theorem rest_pos (h : AtHead n s) (hn : n ≤ bufSize) {p l : List Byte}
    (hp : LengthPrefix.Packet sizeOf p) (hx : stream io n s = p ++ l) : 0 < s.restByte := by
  by_contra hr
  have hr0 := h.rest_nonneg
  have hd := decode_finished io h hn (by omega)
  rw [hx, decode_packet hp] at hd
  simp at hd

/-- The loop runs to its end on a framed stream: it hands on the decoded packets in order and
keeps the undecoded rest. -/
theorem loop_spec (hn : n ≤ bufSize) (l : List Byte) : ∀ s : RecvLoop, AtHead n s →
    stream io n s = l → Framed sizeOf l → ∃ t bufs,
      (∀ fuel, s.restByte.toNat ≤ fuel → loop recvMore (recvBody io) fuel s = some (.ok t)) ∧
      AtHead n t ∧ t.restByte = 0 ∧ t.calls = s.calls ++ bufs ∧
      List.Forall₂ (fun buf pkt => buf.bytes.take pkt.length = pkt) bufs (decode sizeOf l).1 ∧
      stream io n t = (decode sizeOf l).2 := by
  induction l using decode_cases sizeOf with
  | nil =>
    intro s h hx _
    have hlen := stream_length io h hn
    have h0 := h.prev_nonneg
    have hr0 := h.rest_nonneg
    rw [hx, List.length_nil] at hlen
    have hr : s.restByte = 0 := by omega
    refine ⟨s,[],fun fuel _ => loop_done (by simp [recvMore, hr]),h,hr,by simp,by simp,?_⟩
    rw [hx, decode_nil]
  | stop x xs hstop =>
    intro s h hx hf
    rw [framed_stop hstop] at hf
    rw [decode_stop hstop]
    by_cases hr : 0 < s.restByte
    · obtain ⟨t,hbody,ht,hrest,hcalls,hstream⟩ := recvBody_short h hn hr hx (by omega)
      refine ⟨t,[],fun fuel hfuel => ?_,ht,hrest,by simpa using hcalls,by simp,hstream⟩
      obtain ⟨k,rfl⟩ : ∃ k, fuel = k+1 := ⟨fuel-1,by omega⟩
      rw [loop_next (by simp [recvMore, hr]) hbody]
      exact loop_done (by simp [recvMore, hrest])
    · have hr0 := h.rest_nonneg
      have hrest : s.restByte = 0 := by omega
      exact ⟨s,[],fun fuel _ => loop_done (by simp [recvMore, hrest]),h,hrest,by simp,by simp,hx⟩
  | packet p l hp ih =>
    intro s h hx hf
    rw [framed_packet hp] at hf
    rw [decode_packet hp]
    have hr := rest_pos h hn hp hx
    obtain ⟨x,xs,hcons,hpos,hle⟩ := hp.append_cons l
    obtain ⟨t,buf,pkt,hbody,ht,hlt,hcalls,hbuf,hpkt,hstream⟩ :=
      recvBody_packet h hn hr (hx.trans hcons) hpos hle
    obtain ⟨rfl,rfl⟩ := packet_unique hp hpkt (hx.symm.trans hstream)
    obtain ⟨u,bufs,hloop,hu,hrest,hcalls',hall,hstream'⟩ := ih t ht rfl hf
    refine ⟨u,buf::bufs,fun fuel hfuel => ?_,hu,hrest,?_,.cons hbuf hall,hstream'⟩
    · obtain ⟨k,rfl⟩ : ∃ k, fuel = k+1 := ⟨fuel-1,by omega⟩
      rw [loop_next (by simp [recvMore, hr]) hbody]
      have hr0 := ht.rest_nonneg
      exact hloop k (by omega)
    · rw [hcalls', hcalls]
      simp

end

/-- What every receive starts from: nothing pending, or an unfinished packet. -/
structure Client.Ready (c : Client) : Prop where
  prev_nonneg : 0 ≤ c.prevSize
  prev_lt : 0 < c.prevSize → c.prevSize < sizeOf (c.packetBuf.byteAt 0)

section
variable {c : Client} {chunk : List Byte} {chunks : List (List Byte)}

theorem Client.accept_ready (c : Client) : c.accept.Ready :=
  ⟨le_rfl,fun h => absurd h (lt_irrefl 0)⟩

theorem Client.Ready.receive (h : c.Ready) (chunk : List Byte) : (c.receive chunk).Ready :=
  ⟨h.prev_nonneg,h.prev_lt⟩

theorem recvStart_atHead (h : c.Ready) (n : ℕ) : AtHead n (recvStart c n) := by
  refine ⟨by simp [recvStart],le_rfl,by simp [recvStart],h.prev_nonneg,h.prev_lt,fun _ => ?_⟩
  by_cases hp : c.prevSize = 0 <;> simp [recvStart, hp, sizeOf]

theorem recvStart_stream (c : Client) (hchunk : chunk.length ≤ bufSize) :
    stream (c.receive chunk).ioBuf chunk.length (recvStart (c.receive chunk) chunk.length) =
      c.pending ++ chunk := by
  have hfill := c.ioBuf.fill_take hchunk
  simp only [stream, remaining, recvStart, Client.receive, Client.pending, Int.toNat_natCast,
    Nat.sub_self, List.drop_zero, hfill]

theorem Client.Ready.decode_pending (h : c.Ready) :
    decode sizeOf c.pending = ([],c.pending) := by
  have hd := decode_finished c.ioBuf (recvStart_atHead h 0) (Nat.zero_le _) rfl
  rwa [stream_finished rfl] at hd

/-- One receive refines the decoder: it hands on the packets that the pending bytes and the
chunk complete, and its pending bytes are the undecoded rest. -/
theorem recvPacketConstruct_spec {fuel : ℕ} (hc : c.Ready) (hchunk : chunk.length ≤ bufSize)
    (hf : Framed sizeOf (c.pending ++ chunk)) (hfuel : chunk.length ≤ fuel) : ∃ c' bufs,
    recvPacketConstruct fuel (c.receive chunk) chunk.length = some (.ok (c',bufs)) ∧ c'.Ready ∧
    List.Forall₂ (fun buf pkt => buf.bytes.take pkt.length = pkt) bufs
      (decode sizeOf (c.pending ++ chunk)).1 ∧
    c'.pending = (decode sizeOf (c.pending ++ chunk)).2 ∧ c'.prevSize = c'.pending.length := by
  obtain ⟨t,bufs,hloop,ht,hrest,hcalls,hall,hstream⟩ :=
    loop_spec hchunk _ _ (recvStart_atHead (hc.receive chunk) chunk.length)
      (recvStart_stream c hchunk) hf
  have hlen := stream_length (c.receive chunk).ioBuf ht hchunk
  have hpend : t.packetBuf.bytes.take t.prevSize.toNat =
      (decode sizeOf (c.pending ++ chunk)).2 := by rw [← stream_finished hrest, hstream]
  refine ⟨⟨t.prevSize,t.packetBuf,(c.receive chunk).ioBuf⟩,bufs,?_,⟨ht.prev_nonneg,ht.prev_lt⟩,
    hall,hpend,?_⟩
  · rw [recvPacketConstruct, hloop fuel (by simpa [recvStart] using hfuel)]
    simp [Except.map, hcalls, recvStart]
  · change t.prevSize = ((t.packetBuf.bytes.take t.prevSize.toNat).length : ℤ)
    rw [hpend, ← hstream]
    omega

/-- Feeding chunks decodes their concatenation behind the pending bytes. -/
theorem feed_spec {fuel : ℕ} (hfuel : bufSize ≤ fuel)
    (hchunks : ∀ chunk ∈ chunks, chunk.length ≤ bufSize) (hc : c.Ready)
    (hprev : c.prevSize = c.pending.length)
    (hf : Framed sizeOf (c.pending ++ chunks.flatten)) : ∃ c' bufs,
    feed fuel c chunks = some (.ok (c',bufs)) ∧
    List.Forall₂ (fun buf pkt => buf.bytes.take pkt.length = pkt) bufs
      (decode sizeOf (c.pending ++ chunks.flatten)).1 ∧
    c'.pending = (decode sizeOf (c.pending ++ chunks.flatten)).2 ∧
    c'.prevSize = c'.pending.length := by
  induction chunks generalizing c with
  | nil =>
    have hd := hc.decode_pending
    exact ⟨c,[],rfl,by simp [hd],by simp [hd],hprev⟩
  | cons chunk chunks ih =>
    have hchunk := hchunks chunk (by simp)
    rw [List.flatten_cons, ← List.append_assoc] at hf ⊢
    obtain ⟨c₁,bufs₁,hrecv,hready,hall₁,hpend₁,hprev₁⟩ :=
      recvPacketConstruct_spec hc hchunk hf.left (hchunk.trans hfuel)
    rw [decode_append, ← hpend₁]
    obtain ⟨c₂,bufs₂,hfeed,hall₂,hpend₂,hprev₂⟩ := ih
      (fun q hq => hchunks q (List.mem_cons_of_mem _ hq)) hready hprev₁
      (by rw [hpend₁]; exact (framed_append _ _).mp hf)
    refine ⟨c₂,bufs₁++bufs₂,?_,List.rel_append hall₁ hall₂,hpend₂,hprev₂⟩
    simp [feed, hrecv, hfeed, Except.map]

/-- Reassembly does not depend on chunking: every split of a stream of packets and the start
of one more gives the same calls of ProcessPacket and leaves the same start in packet_buf. -/
theorem feed_packets (packets : List (List Byte)) (tail : List Byte)
    (hpackets : ∀ pkt ∈ packets, LengthPrefix.Packet sizeOf pkt)
    (htail : tail = [] ∨ ∃ more, more ≠ [] ∧ LengthPrefix.Packet sizeOf (tail ++ more))
    (hchunks : ∀ chunk ∈ chunks, chunk ≠ [] ∧ chunk.length ≤ bufSize)
    (hsplit : chunks.flatten = packets.flatten ++ tail) (hprev : c.prevSize = 0) {fuel : ℕ}
    (hfuel : bufSize ≤ fuel) : ∃ c' calls,
    feed fuel c chunks = some (.ok (c',calls)) ∧
    List.Forall₂ (fun buf pkt => buf.bytes.take pkt.length = pkt) calls packets ∧
    c'.prevSize = tail.length ∧ c'.packetBuf.bytes.take tail.length = tail := by
  have hpend : c.pending = [] := by simp [Client.pending, hprev]
  have hdecode : decode sizeOf tail = ([],tail) := by
    rcases htail with rfl | ⟨more,hmore,hp⟩
    · simp
    · exact decode_prefix hp hmore
  have hdec : decode sizeOf (c.pending ++ chunks.flatten) = (packets,tail) := by
    rw [hpend, List.nil_append, hsplit, decode_flatten hpackets hdecode]
  have hf : Framed sizeOf (c.pending ++ chunks.flatten) := by
    intro x hx
    rw [hdec] at hx
    rcases htail with rfl | ⟨more,-,y,ys,he,hsize⟩
    · simp at hx
    · cases tail with
      | nil => simp at hx
      | cons z zs =>
        obtain ⟨rfl,-⟩ := List.cons.inj he
        obtain rfl : z = x := by simpa using hx
        simp only [List.cons_append, List.length_cons] at hsize
        omega
  obtain ⟨c',calls,hfeed,hall,hpend',hprev'⟩ := feed_spec hfuel (fun q hq => (hchunks q hq).2)
    ⟨hprev.ge,fun h => absurd h (by omega)⟩ (by simp [hpend, hprev]) hf
  rw [hdec] at hall hpend'
  refine ⟨c',calls,hfeed,hall,by rw [hprev', hpend'],?_⟩
  have hn : c'.prevSize.toNat = tail.length := by rw [hprev', hpend']; exact Int.toNat_natCast _
  rw [← hn]
  exact hpend'

/-- Two packets and the start of a third, cut behind a size byte and inside the third. -/
theorem feed_packets_cut : ∃ c' calls,
    feed bufSize Client.zero [[2],[61,1,3],[5]] = some (.ok (c',calls)) ∧
    List.Forall₂ (fun buf pkt => buf.bytes.take pkt.length = pkt) calls [[2,61],[1]] ∧
    c'.prevSize = 2 ∧ c'.packetBuf.bytes.take 2 = [3,5] :=
  feed_packets [[2,61],[1]] [3,5]
    (by
      intro pkt hp
      rcases List.mem_cons.mp hp with rfl | hp
      · exact ⟨2,[61],rfl,rfl⟩
      · obtain rfl : pkt = [1] := by simpa using hp
        exact ⟨1,[],rfl,rfl⟩)
    (.inr ⟨[0],by decide,3,[5,0],rfl,rfl⟩) (by decide) rfl rfl le_rfl

end
end LastHero
