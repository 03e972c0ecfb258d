import Nachos.Network.Packet

/-!
# What goes into a datagram comes out of it

The lengths decide how much each copy moves, and they fit: a mail of at most `MaxMailSize` bytes
and its header make a packet of at most `MaxPacketSize` bytes, and that with its own header fits
the datagram. So each buffer on the way holds the mail header and the data, whatever it held
before.

The sender checks the length of a message, and that its box is not negative. It does not know how
many boxes there are at the other end.
-/

namespace Nachos.Network

open Base (wordAt packWords blit wordAt_congr wordAt_packWords blit_inside blit_zero blit_outside)

/-- The header at the front of a buffer is the one whose bytes are there. -/
theorem Header.ofBytes_eq {b : Buffer} {h : Header} (hb : ∀ k, k < headerSize → b k = h.bytes k) :
    Header.ofBytes b = h := by
  have hword : ∀ i, i < 3 → wordAt b (4 * i) = h.word i := by
    intro i hi
    rw [← wordAt_packWords h.word i]
    refine wordAt_congr fun k hk => hb (4 * i + k) ?_
    unfold headerSize
    omega
  have h0 := hword 0 (by omega)
  have h1 := hword 1 (by omega)
  have h2 := hword 2 (by omega)
  unfold Header.ofBytes
  rw [h0, h1, h2]
  rfl

/-- A buffer that holds a mail header and the data that goes with it. -/
structure Holds (b : Buffer) (mailHdr : MailHeader) (data : Buffer) : Prop where
  hdr : ∀ k, k < headerSize → b k = mailHdr.bytes k
  data : ∀ k, k < mailHdr.length.toNat → b (headerSize + k) = data k

variable {b : Buffer} {mailHdr : MailHeader} {data : Buffer}

/-- What `Send` concatenates. -/
theorem holds_concat (buffer : Buffer) (mailHdr : MailHeader) (data : Buffer) :
    Holds (blit (blit buffer 0 headerSize mailHdr.bytes) headerSize mailHdr.length.toNat data)
      mailHdr data where
  hdr := by
    intro k hk
    rw [blit_outside _ _ (Or.inl hk), blit_zero _ _ hk]
  data := by
    intro k hk
    rw [blit_inside _ _ hk]

/-- A copy of all of it. -/
theorem Holds.blit (h : Holds b mailHdr data) (dst : Buffer) {n : Nat}
    (hn : n = headerSize + mailHdr.length.toNat) : Holds (Base.blit dst 0 n b) mailHdr data where
  hdr := by
    intro k hk
    rw [blit_zero _ _ (by omega)]
    exact h.hdr k hk
  data := by
    intro k hk
    rw [blit_zero _ _ (by omega)]
    exact h.data k hk

theorem Holds.congr {b' : Buffer} (h : Holds b mailHdr data)
    (hb : ∀ k, k < headerSize + mailHdr.length.toNat → b' k = b k) : Holds b' mailHdr data where
  hdr := fun k hk => (hb k (by omega)).trans (h.hdr k hk)
  data := fun k hk => (hb _ (by omega)).trans (h.data k hk)

/-- The packet header of a message to machine `to_` from machine `hostName`. -/
def packetHeader (hostName to_ : BitVec 32) (mailHdr : MailHeader) : PacketHeader :=
  ⟨to_, hostName, mailHdr.length + BitVec.ofNat 32 headerSize⟩

/-- The length of a packet is that of both its parts. -/
theorem packetHeader_length (hostName to_ : BitVec 32)
    (h : mailHdr.length.toNat ≤ maxMailSize) :
    (packetHeader hostName to_ mailHdr).length.toNat = headerSize + mailHdr.length.toNat := by
  unfold packetHeader
  rw [BitVec.toNat_add, BitVec.toNat_ofNat]
  unfold maxMailSize maxPacketSize maxWireSize headerSize at *
  omega

/-- A datagram that carries a message. -/
structure Carries (w : Buffer) (pktHdr : PacketHeader) (mailHdr : MailHeader) (data : Buffer) :
    Prop where
  hdr : ∀ k, k < headerSize → w k = pktHdr.bytes k
  mail : Holds (fun k => w (headerSize + k)) mailHdr data

/-- **What `Send` accepts, and what it makes of it.** -/
theorem prepare_iff (hostName : BitVec 32) (pktHdr : PacketHeader) (mailHdr : MailHeader)
    (data buffer : Buffer) (p : Packet) :
    PostOfficeOutput.prepare hostName pktHdr mailHdr data buffer = some p ↔
      (mailHdr.length.toNat ≤ maxMailSize ∧ 0 ≤ mailHdr.to_.toInt) ∧
      p = ⟨packetHeader hostName pktHdr.to_ mailHdr,
        blit (blit buffer 0 headerSize mailHdr.bytes) headerSize mailHdr.length.toNat data⟩ := by
  unfold PostOfficeOutput.prepare
  split
  · rename_i h
    rw [Option.some.injEq]
    exact ⟨fun he => ⟨h, he.symm⟩, fun he => he.2.symm⟩
  · rename_i h
    exact iff_of_false (by simp) fun he => h he.1

/-- What it makes of it, the network takes. -/
theorem sendable_packetHeader {hostName to_ : BitVec 32} (h : mailHdr.length.toNat ≤ maxMailSize) :
    NetworkOutput.sendable hostName false ⟨packetHeader hostName to_ mailHdr, data⟩ = true := by
  have hlen := packetHeader_length hostName to_ h
  have hpos : 0 < (packetHeader hostName to_ mailHdr).length.toNat := by
    rw [hlen]
    unfold headerSize
    omega
  have hle : (packetHeader hostName to_ mailHdr).length.toNat ≤ maxPacketSize := by
    rw [hlen]
    unfold maxMailSize maxPacketSize maxWireSize headerSize at *
    omega
  have hfrom : (packetHeader hostName to_ mailHdr).from_ = hostName := rfl
  unfold NetworkOutput.sendable
  dsimp only
  rw [decide_eq_true hpos, decide_eq_true hle, decide_eq_true hfrom]
  rfl

/-- What the network puts into the socket carries the message. -/
theorem carries_wire {pktHdr : PacketHeader} (h : Holds b mailHdr data)
    (hlen : pktHdr.length.toNat = headerSize + mailHdr.length.toNat) (buffer : Buffer) :
    Carries (NetworkOutput.wire ⟨pktHdr, b⟩ buffer) pktHdr mailHdr data where
  hdr := by
    intro k hk
    unfold NetworkOutput.wire
    rw [blit_outside _ _ (Or.inl hk), blit_zero _ _ hk]
  mail := by
    refine h.congr fun k hk => ?_
    show NetworkOutput.wire ⟨pktHdr, b⟩ buffer (headerSize + k) = b k
    unfold NetworkOutput.wire
    rw [blit_inside _ _ (by rw [hlen]; exact hk)]

/-! ## At the other end -/

/-- **The device gets the message.** -/
theorem read_eq {w : Buffer} {hostName from_ : BitVec 32} (hle : mailHdr.length.toNat ≤ maxMailSize)
    (h : Carries w (packetHeader from_ hostName mailHdr) mailHdr data) (buffer inbox : Buffer) :
    ∃ inbox', NetworkInput.read hostName w buffer inbox =
        some (packetHeader from_ hostName mailHdr, inbox') ∧ Holds inbox' mailHdr data := by
  have hlen := packetHeader_length from_ hostName hle
  have hfit : headerSize + (headerSize + mailHdr.length.toNat) ≤ maxWireSize := by
    unfold maxMailSize maxPacketSize maxWireSize headerSize at *
    omega
  have hhdr : Header.ofBytes (blit buffer 0 maxWireSize w) =
    packetHeader from_ hostName mailHdr := by
    refine Header.ofBytes_eq fun k hk => ?_
    rw [blit_zero _ _ (by omega)]
    exact h.hdr k hk
  have hmail : Holds (fun k => blit buffer 0 maxWireSize w (headerSize + k)) mailHdr data := by
    refine h.mail.congr fun k hk => ?_
    show blit buffer 0 maxWireSize w (headerSize + k) = w (headerSize + k)
    rw [blit_zero _ _ (by omega)]
  have hcheck : (packetHeader from_ hostName mailHdr).to_ = hostName ∧
      (packetHeader from_ hostName mailHdr).length.toNat ≤ maxPacketSize := by
    refine ⟨rfl, ?_⟩
    rw [hlen]
    unfold maxPacketSize
    omega
  refine ⟨_, ?_, hmail.blit inbox hlen⟩
  unfold NetworkInput.read
  dsimp only
  rw [hhdr, if_pos hcheck]

/-- The postal worker gets it from the device. -/
theorem holds_receive (from_ hostName : BitVec 32) {inbox : Buffer}
    (hle : mailHdr.length.toNat ≤ maxMailSize) (h : Holds inbox mailHdr data) (buffer : Buffer) :
    Holds (NetworkInput.receive (packetHeader from_ hostName mailHdr) inbox buffer)
    mailHdr data := by
  have hlen := packetHeader_length from_ hostName hle
  have hne : (packetHeader from_ hostName mailHdr).length ≠ 0#32 := by
    intro hz
    rw [hz] at hlen
    unfold headerSize at hlen
    exact absurd hlen (by simp; omega)
  unfold NetworkInput.receive
  rw [if_pos hne]
  exact h.blit buffer hlen

/-- It takes the message if there is such a box. -/
theorem check_eq (hle : mailHdr.length.toNat ≤ maxMailSize) (hto : 0 ≤ mailHdr.to_.toInt)
    (h : Holds b mailHdr data) (numBoxes : Int) :
    PostOfficeInput.check numBoxes b =
      if mailHdr.to_.toInt < numBoxes then some mailHdr else none := by
  unfold PostOfficeInput.check
  dsimp only
  rw [Header.ofBytes_eq h.hdr, if_pos hle]
  by_cases hlt : mailHdr.to_.toInt < numBoxes
  · rw [if_pos ⟨hto, hlt⟩, if_pos hlt]
  · rw [if_neg fun hc => hlt hc.2, if_neg hlt]

/-- A mail that is a message in full. -/
structure Mail.Is (mail : Mail) (pktH : PacketHeader) (mailH : MailHeader) (msgData : Buffer) :
    Prop where
  pktHdr : mail.pktHdr = pktH
  mailHdr : mail.mailHdr = mailH
  data : ∀ k, k < mailH.length.toNat → mail.data k = msgData k

theorem new_eq (pktHdr : PacketHeader) (hle : mailHdr.length.toNat ≤ maxMailSize)
    (h : Holds b mailHdr data) (mem : Buffer) :
    ∃ mail, Mail.new pktHdr mailHdr (fun k => b (headerSize + k)) mem = some mail ∧
      mail.Is pktHdr mailHdr data := by
  refine ⟨⟨pktHdr, mailHdr, blit mem 0 mailHdr.length.toNat fun k => b (headerSize + k)⟩,
    ?_, rfl, rfl, ?_⟩
  · unfold Mail.new
    rw [if_pos hle]
  · intro k hk
    show blit mem 0 mailHdr.length.toNat (fun k => b (headerSize + k)) k = data k
    rw [blit_zero _ _ hk]
    exact h.data k hk

theorem Mail.Is.get {mail : Mail} {pktHdr : PacketHeader} (h : mail.Is pktHdr mailHdr data)
    (caller : Buffer) : (mail.get caller).Is pktHdr mailHdr data where
  pktHdr := h.pktHdr
  mailHdr := h.mailHdr
  data := by
    intro k hk
    show blit caller 0 mail.mailHdr.length.toNat mail.data k = data k
    rw [h.mailHdr, blit_zero _ _ hk]
    exact h.data k hk

/-! ## Which messages a machine survives -/

/-- A message that is not too long and not for a negative box, on its way to the caller of
`Receive`. -/
theorem arrive_isSome_iff (hostName to_ : BitVec 32) (hle : mailHdr.length.toNat ≤ maxMailSize)
    (hto : 0 ≤ mailHdr.to_.toInt) (h : Holds b mailHdr data) (numBoxes : Int)
    (wireMem readMem inbox worker mailMem caller : Buffer) :
    (PostOfficeInput.arrive to_ numBoxes (NetworkOutput.wire ⟨packetHeader hostName to_ mailHdr, b⟩
      wireMem) readMem inbox worker mailMem caller).isSome ↔ mailHdr.to_.toInt < numBoxes := by
  have hlen := packetHeader_length hostName to_ hle
  obtain ⟨inbox', hread, hinbox⟩ := read_eq hle (carries_wire h hlen wireMem) readMem inbox
  have hworker := holds_receive hostName to_ hle hinbox worker
  obtain ⟨mail, hnew, hmail⟩ := new_eq (packetHeader hostName to_ mailHdr) hle hworker mailMem
  unfold PostOfficeInput.arrive
  rw [hread, Option.bind_some]
  dsimp only
  rw [check_eq hle hto hworker]
  by_cases hlt : mailHdr.to_.toInt < numBoxes
  · have hpass : (PostOfficeInput.receivable numBoxes mailHdr.to_.toInt
        && PostOfficeInput.deliverable (mail.get caller)) = true := by
      unfold PostOfficeInput.receivable PostOfficeInput.deliverable
      rw [(hmail.get caller).mailHdr, decide_eq_true hle, decide_eq_true hto, decide_eq_true hlt]
      rfl
    rw [if_pos hlt, Option.bind_some, hnew, Option.bind_some, if_pos hpass]
    exact iff_of_true rfl hlt
  · rw [if_neg hlt, Option.bind_none]
    exact iff_of_false (by simp) hlt

/--
**What the sender accepts and the receiver does not.**

Whatever message `Send` accepts, the network of the sender takes it, and at the machine it is for
every check on its way to the caller of `Receive` holds if and only if there is a box of the
number it is addressed to.
-/
theorem accepted_passes_iff (hostName : BitVec 32) (pktHdr : PacketHeader) (mailHdr : MailHeader)
    (data buffer : Buffer) (p : Packet)
    (hp : PostOfficeOutput.prepare hostName pktHdr mailHdr data buffer = some p) (numBoxes : Int)
    (wireMem readMem inbox worker mailMem caller : Buffer) :
    NetworkOutput.sendable hostName false p = true ∧
    ((PostOfficeInput.arrive pktHdr.to_ numBoxes (NetworkOutput.wire p wireMem) readMem inbox worker
      mailMem caller).isSome ↔ mailHdr.to_.toInt < numBoxes) := by
  obtain ⟨⟨hle, hto⟩, rfl⟩ := (prepare_iff hostName pktHdr mailHdr data buffer p).mp hp
  exact ⟨sendable_packetHeader hle, arrive_isSome_iff hostName pktHdr.to_ hle hto
    (holds_concat buffer mailHdr data) numBoxes wireMem readMem inbox worker mailMem caller⟩

/-- From machine 1 to box 3 of machine 2, which has ten. -/
theorem hello_passes : ∃ p,
    PostOfficeOutput.prepare 1#32 ⟨2#32, 0#32, 0#32⟩ ⟨3#32, 0#32, 2#32⟩ (fun _ => 65) (fun _ => 0)
      = some p ∧
    (PostOfficeInput.arrive 2#32 10 (NetworkOutput.wire p fun _ => 0) (fun _ => 0) (fun _ => 0)
      (fun _ => 0) (fun _ => 0) fun _ => 0).isSome :=
  ⟨_, rfl, (accepted_passes_iff 1#32 ⟨2#32, 0#32, 0#32⟩ ⟨3#32, 0#32, 2#32⟩ (fun _ => 65)
    (fun _ => 0) _ rfl 10 (fun _ => 0) (fun _ => 0) (fun _ => 0) (fun _ => 0) (fun _ => 0)
    fun _ => 0).2.mpr (by decide)⟩

/-- If it has only two, it stops. -/
theorem hello_stops_receiver : ¬ ∀ (hostName : BitVec 32) (pktHdr : PacketHeader)
    (mailHdr : MailHeader) (data buffer : Buffer) (p : Packet),
    PostOfficeOutput.prepare hostName pktHdr mailHdr data buffer = some p →
    ∀ (numBoxes : Int) (wireMem readMem inbox worker mailMem caller : Buffer),
      (PostOfficeInput.arrive pktHdr.to_ numBoxes (NetworkOutput.wire p wireMem) readMem
        inbox worker mailMem caller).isSome := by
  intro h
  have hpass := h 1#32 ⟨2#32, 0#32, 0#32⟩ ⟨3#32, 0#32, 2#32⟩ (fun _ => 65) (fun _ => 0) _ rfl 2
    (fun _ => 0) (fun _ => 0) (fun _ => 0) (fun _ => 0) (fun _ => 0) fun _ => 0
  have hlt := (arrive_isSome_iff 1#32 2#32 (by decide) (by decide)
    (holds_concat (fun _ => 0) ⟨3#32, 0#32, 2#32⟩ fun _ => 65) 2 _ _ _ _ _ _).mp hpass
  exact absurd hlt (by decide)

end Nachos.Network
