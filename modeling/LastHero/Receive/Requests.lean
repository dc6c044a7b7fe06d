import LastHero.Game.Wire
import LastHero.Receive.Serving

/-! The structs of protocol.h that a client sends, from their members to what the handlers do. The
members that a handler reads reach it as they were assigned, through the stream, the reassembly of
the packets and the offsets into packet_buf. -/
namespace LastHero
open PackedStruct

/-- The four bytes of a `float`. -/
abbrev Word := {l : List Byte // l.length = 4}

/-- A number is sent as its bytes. -/
def Word.format : FloatBytes Word := ⟨Subtype.val,Subtype.property⟩

/-- The members of the struct behind size and type. -/
def CsType.kinds : CsType → List Kind
  | .csLogin => [.text maxLen,.text maxLen,.char]
  | .csSignup => [.text maxLen,.text maxLen]
  | .movePacket => ScType.position ++ ScType.position ++ ScType.position
  | .csChat => [.short,.text 80]
  | .csWeaponOn => [.char]
  | .csBossMove => ScType.position ++ ScType.position
  | .csNpcMove => .short::ScType.position
  | .csBossAttack => [.short,.short]
  | .csBossBone => .short::List.replicate 12 .char
  | .csSyncFail | .csUpdateMoveState => [.short]
  | _ => []

def CsType.struct (t : CsType) : List Kind := .char::.char::t.kinds

theorem CsType.structSize_mem (t : CsType) :
    0 < structSize t.struct ∧ structSize t.struct < 128 := by
  cases t <;> decide

/-- What a client asks for, with the members of the struct. -/
inductive Request
  | csLogin (id password : Text maxLen) (character : ℤ)
  | csSignup (id password : Text maxLen)
  | movePacket (destination rotation velocity : Position Word)
  | csChat (uid : ℤ) (chat : Text 80)
  | csWeaponOn (wType : ℤ)
  | csBossMove (destination rotation : Position Word)
  | csNpcMove (oid : ℤ) (pos : Position Word)
  | csBossAttack (oid atkNum : ℤ)
  | csBossBone (oid : ℤ) (boneMap : Fin 12 → ℤ)
  | csSyncFail (oid : ℤ)
  | csUpdateMoveState (state : ℤ)
  /-- a struct of nothing but size and type -/
  | header (t : CsType) (ht : t.kinds = [])

namespace Request

def csType : Request → CsType
  | .csLogin .. => .csLogin
  | .csSignup .. => .csSignup
  | .movePacket .. => .movePacket
  | .csChat .. => .csChat
  | .csWeaponOn .. => .csWeaponOn
  | .csBossMove .. => .csBossMove
  | .csNpcMove .. => .csNpcMove
  | .csBossAttack .. => .csBossAttack
  | .csBossBone .. => .csBossBone
  | .csSyncFail .. => .csSyncFail
  | .csUpdateMoveState .. => .csUpdateMoveState
  | .header t _ => t

def members : Request → List (Member Word)
  | .csLogin id password character =>
    [.text maxLen (some id),.text maxLen (some password),.char (some character)]
  | .csSignup id password => [.text maxLen (some id),.text maxLen (some password)]
  | .movePacket destination rotation velocity =>
    Packet.position (some destination) ++ Packet.position (some rotation) ++
      Packet.position (some velocity)
  | .csChat uid chat => [.short (some uid),.text 80 (some chat)]
  | .csWeaponOn wType => [.char (some wType)]
  | .csBossMove destination rotation =>
    Packet.position (some destination) ++ Packet.position (some rotation)
  | .csNpcMove oid pos => .short (some oid)::Packet.position (some pos)
  | .csBossAttack oid atkNum => [.short (some oid),.short (some atkNum)]
  | .csBossBone oid boneMap =>
    .short (some oid)::(List.ofFn boneMap).map fun n => .char (some n)
  | .csSyncFail oid => [.short (some oid)]
  | .csUpdateMoveState state => [.short (some state)]
  | .header _ _ => []

theorem kind_members (r : Request) : r.members.map Member.kind = r.csType.kinds := by
  cases r with
  | header t ht => exact ht.symm
  | _ => rfl

/-- The whole struct. -/
def struct (r : Request) : List (Member Word) :=
  .char (some (structSize r.csType.struct))::.char (some r.csType.code)::r.members

/-- The struct in memory. -/
def bytes (mem : ℕ → Byte) (r : Request) : List Byte := layout Word.format mem r.struct

variable {mem : ℕ → Byte} {r : Request}

theorem length_bytes_request : (r.bytes mem).length = structSize r.csType.struct := by
  rw [bytes, length_layout, struct, List.map_cons, List.map_cons, kind_members]
  rfl

theorem packet_bytes_request : LengthPrefix.Packet sizeOf (r.bytes mem) := by
  refine ⟨_,_,rfl,?_⟩
  have h := r.csType.structSize_mem
  have hsize : sizeOf (Int8.ofInt (structSize r.csType.struct)) = structSize r.csType.struct := by
    rw [sizeOf, toInt_ofInt_bmod, Int.bmod_def]
    split_ifs <;> omega
  have hlength : structSize r.csType.struct = (r.bytes mem).length := length_bytes_request.symm
  exact hsize.trans (congrArg Nat.cast hlength)

end Request

/-- The characters before the terminator. -/
def textString {n : ℕ} (s : Text n) : List Byte := s.chars.takeWhile (· ≠ 0)

section
variable {F : Type} [FloatArith F]

/-- The number that the server makes of the bytes. -/
def Position.ofWords (p : Position Word) : Position F :=
  ⟨FloatArith.ofBytes p.x.val,FloatArith.ofBytes p.y.val,FloatArith.ofBytes p.z.val⟩

namespace World

/-- What the handlers do, in terms of the members. -/
def serveRequest (r : Request) (answer : List Byte → Bool) (uid : Slot) (time : ℕ) (w : World F) :
    Except Fault (World F) :=
  match r with
  | .csLogin id password character => do
    let w ← w.login uid (textString id) (textString password) (character.bmod 256)
    w.onPlayer uid fun _ w => w.enterGame uid
  | .csSignup id password => .ok (w.signUp uid (answer (bytesOf "INSERT INTO Account VALUES ('" ++
      textString id ++ bytesOf "', '" ++ textString password ++ bytesOf "')")))
  | .movePacket destination rotation velocity => .ok (w.ifPlayer uid fun _ w =>
      (w.modifyPlayer uid fun p =>
        { p.setVelocity (.ofWords velocity) with rotation := .ofWords rotation }).moveTo uid
          (.ofWords destination))
  | .csChat .. | .csSyncFail _ => .ok w
  | .csWeaponOn _ => w.onPlayer uid fun p w => w.onWeaponOn uid p
  | .csBossMove destination rotation => .ok (match w.boss with
    | none => w
    | some b => (w.setBoss { b with pos := .ofWords destination }).broadcastOthers uid
        (.scUpdateObj bossIdx (.ofWords destination) (.ofWords rotation) none))
  | .csNpcMove oid pos => .ok (match MonsterId.ofOid (oid.bmod 65536) with
    | none => w
    | some i =>
      match w.monster i with
      | none => w
      | some m => w.setMonster i (w.updateWithClient (m.setPosition (.ofWords pos))))
  | .csBossAttack oid atkNum => .ok (if oid.bmod 65536 = bossIdx ∧ w.boss.isSome then
      w.broadcastOthers uid (.scBossAttackRelay bossIdx (atkNum.bmod 256)) else w)
  | .csBossBone oid boneMap => .ok (if oid.bmod 65536 = bossIdx then
      w.boneMapUpdate fun i => if h : i < 12 then (boneMap ⟨i,h⟩).bmod 256 else 0 else w)
  | .csUpdateMoveState state =>
    .ok (w.ifPlayer uid fun p w => w.setMoveState uid p (state.bmod 65536))
  | .header t _ => w.onType t uid Buffer.zero ⟨time,true⟩

end World

/-- The struct stands at an offset of packet_buf. -/
def Buffer.Holds (b : Buffer) (i : ℕ) (ms : List (Member Word)) : Prop :=
  Begins Word.format ms (b.bytes.drop i)

namespace Buffer
variable {b : Buffer} {i : ℕ} {m : Member Word} {ms : List (Member Word)} {v : ℤ}

omit [FloatArith F] in
theorem Holds.tail (h : b.Holds i (m::ms)) : b.Holds (i+m.kind.size) ms := by
  have htail := Begins.tail h
  rwa [List.drop_drop] at htail

theorem Holds.char (h : b.Holds i (.char (some v)::ms)) : (b.byteAt i).toInt = v.bmod 256 := by
  have hchar := Begins.char h
  rwa [byteAt_drop, Nat.add_zero] at hchar

theorem Holds.short (h : b.Holds i (.short (some v)::ms)) : b.short i = v.bmod 65536 := by
  have hshort := Begins.short h
  rwa [byteAt_drop, byteAt_drop, Nat.add_zero] at hshort

/-- The low byte of a `short`. -/
theorem Holds.low (h : b.Holds i (.short (some v)::ms)) : (b.byteAt i).toInt = v.bmod 256 := by
  obtain ⟨mem,rest,hbytes⟩ := h
  have hbyte : b.byteAt i = Int8.ofInt v := by
    rw [← Nat.add_zero i, ← byteAt_drop, hbytes]
    rfl
  rw [hbyte, toInt_ofInt_bmod]

theorem Holds.cString {n : ℕ} {s : Text n} (h : b.Holds i (.text n (some s)::ms)) :
    b.cString i = textString s := Begins.text h

theorem Holds.position {p : Position Word} (h : b.Holds i (Packet.position (some p) ++ ms)) :
    (Position.ofBuffer b i : Position F) = .ofWords p ∧ b.Holds (i+12) ms := by
  have hx : b.Holds i (.float (some p.x)::.float (some p.y)::.float (some p.z)::ms) := h
  have hy : b.Holds (i+4) (.float (some p.y)::.float (some p.z)::ms) := hx.tail
  have hz : b.Holds (i+8) (.float (some p.z)::ms) := hy.tail
  refine ⟨?_,hz.tail⟩
  have hbytes : ∀ {j : ℕ} {x : Word} {ms : List (Member Word)}, b.Holds j (.float (some x)::ms) →
      (b.float j : F) = FloatArith.ofBytes x.val := fun hj => congrArg FloatArith.ofBytes
    (Begins.float hj)
  rw [ofBuffer_eq, hbytes hx, hbytes hy, hbytes hz]
  rfl

end Buffer

variable {buf : Buffer} {r : Request} {answer : List Byte → Bool} {uid : Slot} {time : ℕ}

omit [FloatArith F] in
theorem Buffer.Holds.csType (h : buf.Holds 0 r.struct) :
    CsType.ofByte (buf.byteAt 1) = some r.csType := by
  have hcode : (buf.byteAt 1).toInt = (Int8.ofInt r.csType.code).toInt := by
    rw [toInt_ofInt_bmod]
    exact h.tail.char
  rw [Int8.toInt_inj.mp hcode, CsType.ofByte_code]

/-- The bones of a packet. -/
theorem Buffer.Holds.bones {boneMap : Fin 12 → ℤ}
    (h : buf.Holds 4 ((List.ofFn boneMap).map fun n => .char (some n))) (i : ℕ) (hi : i < 12) :
    (buf.byteAt (4+i)).toInt = (boneMap ⟨i,hi⟩).bmod 256 := by
  have hskip : ∀ (l : List ℤ) (k j : ℕ) (hj : j < l.length),
      buf.Holds k (l.map fun n => .char (some n)) →
        (buf.byteAt (k+j)).toInt = (l.get ⟨j,hj⟩).bmod 256 := by
    intro l
    induction l with
    | nil => exact fun _ _ hj => absurd hj (Nat.not_lt_zero _)
    | cons n l ih =>
      intro k j hj hl
      cases j with
      | zero => exact Buffer.Holds.char hl
      | succ j =>
        have hrest := ih (k+1) j (Nat.lt_of_succ_lt_succ hj) hl.tail
        rwa [Nat.add_assoc, Nat.add_comm 1 j] at hrest
  rw [hskip (List.ofFn boneMap) 4 i (by simpa using hi) h, List.get_ofFn]
  rfl

/-- A packet_buf that begins with a struct is served as its members say. -/
theorem serve_request (h : buf.Holds 0 r.struct) (w : World F) :
    World.serve buf answer uid time w = w.serveRequest r answer uid time := by
  have hmembers : buf.Holds 2 r.members := h.tail.tail
  simp only [World.serve, World.processPacket]
  rw [h.csType]
  dsimp only
  cases r with
  | csLogin id password character =>
    have hpass : buf.Holds 12 [.text maxLen (some password),.char (some character)] :=
      hmembers.tail
    have hcharacter : buf.Holds 22 [.char (some character)] := hpass.tail
    simp only [Request.csType, World.onType, World.serveRequest]
    rw [hmembers.cString, hpass.cString, hcharacter.char]
  | csSignup id password =>
    have hpass : buf.Holds 12 [.text maxLen (some password)] := hmembers.tail
    simp only [Request.csType, World.onType, World.serveRequest, Buffer.signUpStatement]
    rw [hmembers.cString, hpass.cString]
  | movePacket destination rotation velocity =>
    obtain ⟨hdestination,hmembers⟩ := hmembers.position (F := F)
    obtain ⟨hrotation,hmembers⟩ := hmembers.position (F := F)
    obtain ⟨hvelocity,-⟩ := hmembers.position (F := F)
    simp only [Request.csType, World.onType, World.serveRequest, World.onMove]
    rw [hdestination, hrotation, hvelocity]
  | csChat uid chat => rfl
  | csWeaponOn wType => rfl
  | csBossMove destination rotation =>
    obtain ⟨hdestination,hmembers⟩ := hmembers.position (F := F)
    obtain ⟨hrotation,-⟩ := hmembers.position (F := F)
    simp only [Request.csType, World.onType, World.serveRequest, World.onBossMove]
    cases w.boss with
    | none => rfl
    | some b => simp only [hdestination, hrotation]
  | csNpcMove oid pos =>
    have hplace : buf.Holds 4 (Packet.position (some pos) ++ []) := hmembers.tail
    obtain ⟨hpos,-⟩ := hplace.position (F := F)
    simp only [Request.csType, World.onType, World.serveRequest]
    rw [World.onNpcMove_eq, Buffer.npcMove, hmembers.short, hpos]
    cases MonsterId.ofOid (oid.bmod 65536) <;> rfl
  | csBossAttack oid atkNum =>
    have hatk : buf.Holds 4 [.short (some atkNum)] := hmembers.tail
    simp only [Request.csType, World.onType, World.serveRequest, World.onBossAttack]
    rw [hmembers.short, hatk.low]
  | csBossBone oid boneMap =>
    simp only [Request.csType, World.onType, World.serveRequest, World.onBossBone]
    rw [hmembers.short]
    split_ifs
    · refine congrArg Except.ok (World.boneMapUpdate_congr (fun i hi => ?_) w)
      rw [dif_pos hi]
      rw [Buffer.Holds.bones hmembers.tail i hi]
    · rfl
  | csSyncFail oid => rfl
  | csUpdateMoveState state =>
    simp only [Request.csType, World.onType, World.serveRequest]
    rw [hmembers.short]
  | header t ht =>
    cases t <;> first | rfl | cases ht

/-- The requests of a client, each in the memory that its struct was in. -/
def serveRequests (o : Outside) (uid : Slot) : List Request → Service F → Except Fault (Service F)
  | [], g => .ok g
  | r::rs, g => do
    let w ← g.world.serveRequest r o.answer uid (o.time g.served)
    serveRequests o uid rs ⟨w,g.served+1⟩

omit [FloatArith F] in
/-- A packet_buf that begins with the bytes of a request. -/
theorem holds_of_take {mem : ℕ → Byte} (h : buf.bytes.take (r.bytes mem).length = r.bytes mem) :
    buf.Holds 0 r.struct := by
  refine ⟨mem,buf.bytes.drop (r.bytes mem).length,?_⟩
  rw [List.drop_zero]
  conv_lhs => rw [← List.take_append_drop (r.bytes mem).length buf.bytes, h]
  rfl

theorem processCalls_requests {o : Outside} {bufs : List Buffer} {rs : List (Request × (ℕ → Byte))}
    (h : List.Forall₂ (fun buf pkt => buf.bytes.take pkt.length = pkt) bufs
      (rs.map fun r => r.1.bytes r.2)) (g : Service F) :
    processCalls o uid bufs g = serveRequests o uid (rs.map Prod.fst) g := by
  induction rs generalizing bufs g with
  | nil =>
    cases h
    rfl
  | cons r rs ih =>
    rw [List.map_cons] at h
    cases h with
    | cons hbuf hrest =>
      rw [List.map_cons, processCalls, serveRequests, processCall,
        serve_request (holds_of_take hbuf)]
      cases g.world.serveRequest r.1 o.answer uid (o.time g.served) with
      | error e => rfl
      | ok w => exact ih hrest ⟨w,g.served+1⟩

/-- A client whose structs are cut into any pieces is served request by request, with the members
that it assigned, and its last struct once it is complete. -/
theorem requests_served (o : Outside) (uid : Slot) (rs : List (Request × (ℕ → Byte)))
    (last : Option (Request × (ℕ → Byte))) (k : ℕ) (chunks : List (List Byte)) (c : Client)
    (g : Service F) (fuel : ℕ)
    (hk : ∀ r ∈ last, k < (r.1.bytes r.2).length)
    (hchunks : ∀ chunk ∈ chunks, chunk ≠ [] ∧ chunk.length ≤ bufSize)
    (hsplit : chunks.flatten = (rs.map fun r => r.1.bytes r.2).flatten ++
      last.elim [] fun r => (r.1.bytes r.2).take k)
    (hprev : c.prevSize = 0) (hfuel : bufSize ≤ fuel) :
    ∃ r, serveStream o uid fuel c g chunks = some r ∧
      r.map Prod.snd = serveRequests o uid (rs.map Prod.fst) g := by
  have hpackets : ∀ pkt ∈ rs.map fun r => r.1.bytes r.2, LengthPrefix.Packet sizeOf pkt := by
    intro pkt hpkt
    obtain ⟨r,-,rfl⟩ := List.mem_map.mp hpkt
    exact Request.packet_bytes_request
  have htail : (last.elim [] fun r => (r.1.bytes r.2).take k) = [] ∨ ∃ more, more ≠ [] ∧
      LengthPrefix.Packet sizeOf ((last.elim [] fun r => (r.1.bytes r.2).take k) ++ more) := by
    cases last with
    | none => exact Or.inl rfl
    | some r =>
      refine Or.inr ⟨(r.1.bytes r.2).drop k,?_,?_⟩
      · rw [Ne, List.drop_eq_nil_iff, not_le]
        exact hk r rfl
      · rw [Option.elim_some, List.take_append_drop]
        exact Request.packet_bytes_request
  obtain ⟨bufs,r,hserve,hcalls,hall⟩ := serveStream_packets o uid g hpackets htail
    hchunks hsplit hprev hfuel
  exact ⟨r,hserve,hcalls.trans (processCalls_requests hall g)⟩

end

/-- A walk and a greeting that is not complete yet, in two pieces. -/
theorem requests_served_walk : ∃ r,
    serveStream ⟨fun _ => true,fun n => n⟩ 0 bufSize Client.zero
      ⟨World.crowd (World.mover (.lits 0 0 0) : CPlayer RawFloat),0⟩ [[4],[81,3,0,84,21]] = some r ∧
    r.map Prod.snd = serveRequests ⟨fun _ => true,fun n => n⟩ 0 [.csUpdateMoveState 3]
      ⟨World.crowd (World.mover (.lits 0 0 0)),0⟩ :=
  requests_served _ 0 [(.csUpdateMoveState 3,fun _ => 0)]
    (some (.csChat 0 ⟨[104,105],by decide⟩,fun _ => 0)) 2 _ _ _ _
    (fun r hr => by cases hr; decide) (by decide) (by decide) rfl le_rfl

end LastHero
