import LastHero.Receive.Reassembly

/-! What recv_packet_construct does with arbitrary bytes. The size byte is not checked, so the
loop is safe exactly on streams in which no packet announces zero or a negative length. -/
namespace LastHero
open WhileLoop LengthPrefix

/-- The buffers of a slot at the end of the receives that returned since an accept. -/
inductive Reachable : Client → Prop
  | accept (c : Client) : Reachable c.accept
  | receive {c c' : Client} {chunk : List Byte} {fuel : ℕ} {calls : List Buffer}
      (before : Reachable c) (bytes : chunk ≠ [] ∧ chunk.length ≤ bufSize)
      (returns : recvPacketConstruct fuel (c.receive chunk) chunk.length = some (.ok (c',calls))) :
      Reachable c'

/-- The receive of `n` bytes is safe: the loop ends, and at every test of its condition
prev_size is an index of packet_buf and the iteration that follows makes its copy inside the
buffers and consumes a byte. -/
def Robust (c : Client) (n : ℕ) : Prop :=
  (∃ fuel t, loop recvMore (recvBody c.ioBuf) fuel (recvStart c n) = some (.ok t)) ∧
  ∀ s, Visits recvMore (recvBody c.ioBuf) (recvStart c n) s →
    0 ≤ s.prevSize ∧ s.prevSize < bufSize ∧
    (0 < s.restByte → ∃ t, recvBody c.ioBuf s = .ok t ∧ t.restByte < s.restByte)

variable {io : Buffer} {n : ℕ} {s : RecvLoop} {c : Client} {chunk : List Byte}

theorem visits_atHead (hn : n ≤ bufSize) (h : AtHead n s) {t : RecvLoop}
    (hv : Visits recvMore (recvBody io) s t) : AtHead n t :=
  hv.invariant h fun _ _ ht hmore hu => recvBody_atHead ht hn (by simpa [recvMore] using hmore) hu

/-- Every accept and every receive that returns leave the buffers ready for the next one. -/
theorem Reachable.ready (h : Reachable c) : c.Ready := by
  induction h with
  | accept c => exact c.accept_ready
  | @receive c c' chunk fuel calls _ bytes returns ih =>
    cases hloop : loop recvMore (recvBody (c.receive chunk).ioBuf) fuel
        (recvStart (c.receive chunk) chunk.length) with
    | none => simp [recvPacketConstruct, hloop] at returns
    | some r =>
      cases r with
      | error e => simp [recvPacketConstruct, hloop, Except.map] at returns
      | ok t =>
        have ht := visits_atHead bytes.2 (recvStart_atHead (ih.receive chunk) _)
          (visits_of_loop hloop).1
        simp only [recvPacketConstruct, hloop, Option.map_some, Except.map, Option.some.injEq,
          Except.ok.injEq, Prod.mk.injEq] at returns
        rw [← returns.1]
        exact ⟨ht.prev_nonneg,ht.prev_lt⟩

/-- On a framed stream every iteration consumes a byte and leaves a framed stream. -/
theorem recvBody_framed (h : AtHead n s) (hn : n ≤ bufSize) (hr : 0 < s.restByte)
    (hf : Framed sizeOf (stream io n s)) : ∃ t, recvBody io s = .ok t ∧
      t.restByte < s.restByte ∧ Framed sizeOf (stream io n t) := by
  obtain ⟨x,xs,hx⟩ := exists_stream_cons io h hn hr
  rw [hx] at hf
  by_cases hstop : 0 < sizeOf x ∧ sizeOf x ≤ xs.length+1
  · obtain ⟨t,buf,pkt,hbody,-,hlt,-,-,hpkt,hstream⟩ := recvBody_packet h hn hr hx hstop.1 hstop.2
    rw [← hx, hstream, framed_packet hpkt] at hf
    exact ⟨t,hbody,hlt,hf⟩
  · rw [framed_stop hstop] at hf
    obtain ⟨t,hbody,-,hrest,-,hstream⟩ := recvBody_short h hn hr hx (by omega)
    exact ⟨t,hbody,by omega,hstream ▸ (framed_stop hstop).mpr hf⟩

/-- Otherwise some iteration before the end does not consume a byte. -/
theorem exists_stuck (hn : n ≤ bufSize) (l : List Byte) : ∀ s : RecvLoop, AtHead n s →
    stream io n s = l → ¬ Framed sizeOf l → ∃ t, Visits recvMore (recvBody io) s t ∧
      0 < t.restByte ∧ ∀ u, recvBody io t = .ok u → ¬ u.restByte < t.restByte := by
  induction l using decode_cases sizeOf with
  | nil => exact fun _ _ _ hf => absurd framed_nil hf
  | stop x xs hstop =>
    intro s h hx hf
    rw [framed_stop hstop] at hf
    have hlen := stream_length io h hn
    have hr : 0 < s.restByte := by
      have h0 := h.prev_nonneg
      have hr0 := h.rest_nonneg
      rw [hx, List.length_cons] at hlen
      by_contra hr
      have hlt := h.prev_lt_size (by omega) hx
      omega
    refine ⟨s,.start,hr,fun u hu => ?_⟩
    have hrest := (recvBody_stuck h hn hr hx (by omega) hu).2
    omega
  | packet p l hp ih =>
    intro s h hx hf
    rw [framed_packet hp] at hf
    have hr := rest_pos h hn hp hx
    obtain ⟨x,xs,hcons,hpos,hle⟩ := hp.append_cons l
    obtain ⟨t,_,pkt,hbody,ht,-,-,-,hpkt,hstream⟩ :=
      recvBody_packet h hn hr (hx.trans hcons) hpos hle
    obtain ⟨rfl,rfl⟩ := packet_unique hp hpkt (hx.symm.trans hstream)
    obtain ⟨u,hv,hstuck⟩ := ih t ht rfl hf
    exact ⟨u,(Visits.start.next (by simpa [recvMore] using hr) hbody).trans hv,hstuck⟩

theorem robust_of_framed (hc : c.Ready) (hchunk : chunk.length ≤ bufSize)
    (hf : Framed sizeOf (c.pending ++ chunk)) : Robust (c.receive chunk) chunk.length := by
  have hstart := recvStart_atHead (hc.receive chunk) chunk.length
  constructor
  · obtain ⟨t,_,hloop,-⟩ := loop_spec hchunk _ _ hstart (recvStart_stream c hchunk) hf
    exact ⟨_,t,hloop _ le_rfl⟩
  · intro s hv
    have hs : AtHead chunk.length s ∧
        Framed sizeOf (stream (c.receive chunk).ioBuf chunk.length s) := by
      refine hv.invariant (I := fun s => AtHead chunk.length s ∧
        Framed sizeOf (stream (c.receive chunk).ioBuf chunk.length s))
        ⟨hstart,(recvStart_stream c hchunk).symm ▸ hf⟩ fun t u ht hmore hu => ?_
      have hr : 0 < t.restByte := by simpa [recvMore] using hmore
      obtain ⟨u',hu',-,hf'⟩ := recvBody_framed ht.1 hchunk hr ht.2
      obtain rfl := Except.ok.inj (hu'.symm.trans hu)
      exact ⟨recvBody_atHead ht.1 hchunk hr hu,hf'⟩
    refine ⟨hs.1.prev_nonneg,?_,fun hr => ?_⟩
    · have hlt := hs.1.prev_le
      have hb : bufSize = 512 := rfl
      omega
    · obtain ⟨t,ht,hlt,-⟩ := recvBody_framed hs.1 hchunk hr hs.2
      exact ⟨t,ht,hlt⟩

theorem framed_of_robust (hc : c.Ready) (hchunk : chunk.length ≤ bufSize)
    (hrobust : Robust (c.receive chunk) chunk.length) : Framed sizeOf (c.pending ++ chunk) := by
  by_contra hf
  obtain ⟨s,hv,hr,hstuck⟩ := exists_stuck hchunk _ _
    (recvStart_atHead (hc.receive chunk) chunk.length) (recvStart_stream c hchunk) hf
  obtain ⟨t,ht,hlt⟩ := (hrobust.2 s hv).2.2 hr
  exact hstuck t ht hlt

/-- A receive is safe exactly when no packet of the stream announces zero or a negative
number of bytes. -/
theorem receive_robust_iff (hreach : Reachable c) (hbytes : chunk ≠ [] ∧ chunk.length ≤ bufSize) :
    Robust (c.receive chunk) chunk.length ↔ Framed sizeOf (c.pending ++ chunk) :=
  ⟨framed_of_robust hreach.ready hbytes.2,robust_of_framed hreach.ready hbytes.2⟩

/-- The condition holds of a packet of two bytes followed by the first byte of another. -/
theorem receive_robust_packet :
    Robust (Client.zero.accept.receive [2,61,2]) [(2 : Byte),61,2].length :=
  (receive_robust_iff (.accept .zero) ⟨by decide,by decide⟩).mpr (by
    intro x hx
    rw [show Client.zero.accept.pending ++ [(2 : Byte),61,2] = [2,61] ++ [2] from rfl,
      decode_packet ⟨2,[61],rfl,rfl⟩, decode_stop (by decide)] at hx
    obtain rfl : 2 = x := by simpa using hx
    decide)

/-- One zero byte after an accept: the loop neither ends nor consumes it. -/
theorem zero_byte_not_robust : Reachable Client.zero.accept ∧
    ¬ Robust (Client.zero.accept.receive [0]) [(0 : Byte)].length := by
  refine ⟨.accept .zero,fun h => ?_⟩
  have hf := framed_of_robust (c := Client.zero.accept) (Client.accept_ready .zero) (by decide) h
  rw [show Client.zero.accept.pending ++ [(0 : Byte)] = [0] from rfl,
    framed_stop (by decide)] at hf
  exact absurd hf (by decide)

end LastHero
