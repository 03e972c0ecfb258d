import Nachos.Base.Bytes

/-!
# Messages: `machine/network.cc` and `network/post.cc`

A message goes out as a packet header, a mail header and its data, in this order, in a
datagram of fixed size. Each layer puts its header in front of what it is given, as it lies in
memory, and the layers at the other end take the headers off again.

Every buffer on the way is allocated with whatever is there, so that what it holds at first is an
argument. `none` is an `ASSERT` that fails.
-/

namespace Nachos.Network

open Base (wordAt packWords blit)

/-- `MaxWireSize`: the largest packet, with its header. -/
def maxWireSize : Nat := 64

/-- `sizeof(PacketHeader)`, and `sizeof(MailHeader)` too. -/
def headerSize : Nat := 12

/-- `MaxPacketSize`: what is left for a packet. -/
def maxPacketSize : Nat := maxWireSize - headerSize

/-- `MaxMailSize`: what is left for a letter. -/
def maxMailSize : Nat := maxPacketSize - headerSize

/-- The bytes of a buffer. -/
abbrev Buffer := Nat → UInt8

/-- Both headers are an `int` that says where to, an `int` that says where from, and an
`unsigned`. -/
structure Header where
  to_ : BitVec 32
  from_ : BitVec 32
  length : BitVec 32
  deriving DecidableEq, Repr

/-- Machines, and the bytes that follow the header. -/
abbrev PacketHeader := Header

/-- Mailboxes, and the bytes that follow the header. -/
abbrev MailHeader := Header

namespace Header

/-- The fields, in their order. -/
def word (h : Header) : Nat → BitVec 32
  | 0 => h.to_
  | 1 => h.from_
  | _ => h.length

/-- The header as it lies in memory. -/
def bytes (h : Header) : Buffer := packWords h.word

/-- The header that lies at the front of a buffer. -/
def ofBytes (b : Buffer) : Header := ⟨wordAt b 0, wordAt b 4, wordAt b 8⟩

end Header

/-! ## Sending -/

/-- What `NetworkOutput::Send` is called with. -/
structure Packet where
  hdr : PacketHeader
  data : Buffer

/-- `PostOfficeOutput::Send`, up to the lock. -/
def PostOfficeOutput.prepare (hostName : BitVec 32) (pktHdr : PacketHeader) (mailHdr : MailHeader)
    (data buffer : Buffer) : Option Packet :=
  if mailHdr.length.toNat ≤ maxMailSize ∧ 0 ≤ mailHdr.to_.toInt then
    some
      { hdr := { pktHdr with
          from_ := hostName
          length := mailHdr.length + BitVec.ofNat 32 headerSize }
        data := blit (blit buffer 0 headerSize mailHdr.bytes) headerSize mailHdr.length.toNat data }
  else none

/-- The `ASSERT` of `NetworkOutput::Send`. -/
def NetworkOutput.sendable (hostName : BitVec 32) (sendBusy : Bool) (p : Packet) : Bool :=
  !sendBusy && decide (0 < p.hdr.length.toNat) && decide (p.hdr.length.toNat ≤ maxPacketSize)
    && decide (p.hdr.from_ = hostName)

/-- The datagram that `NetworkOutput::Send` puts into the socket. -/
def NetworkOutput.wire (p : Packet) (buffer : Buffer) : Buffer :=
  blit (blit buffer 0 headerSize p.hdr.bytes) headerSize p.hdr.length.toNat p.data

/-! ## Receiving -/

/-- `NetworkInput::CallBack`, when there is a datagram and room for it. -/
def NetworkInput.read (hostName : BitVec 32) (datagram buffer inbox : Buffer) :
    Option (PacketHeader × Buffer) :=
  let buffer := blit buffer 0 maxWireSize datagram
  let inHdr := Header.ofBytes buffer
  if inHdr.to_ = hostName ∧ inHdr.length.toNat ≤ maxPacketSize then
    some (inHdr, blit inbox 0 inHdr.length.toNat fun k => buffer (headerSize + k))
  else none

/-- What `NetworkInput::Receive` leaves in the buffer. -/
def NetworkInput.receive (inHdr : PacketHeader) (inbox data : Buffer) : Buffer :=
  if inHdr.length ≠ 0#32 then blit data 0 inHdr.length.toNat inbox else data

/-- The checks of `PostalDelivery`. -/
def PostOfficeInput.check (numBoxes : Int) (buffer : Buffer) : Option MailHeader :=
  let mailHdr := Header.ofBytes buffer
  if 0 ≤ mailHdr.to_.toInt ∧ mailHdr.to_.toInt < numBoxes then
    if mailHdr.length.toNat ≤ maxMailSize then some mailHdr else none
  else none

/-- `Mail`: a letter in a mailbox. -/
structure Mail where
  pktHdr : PacketHeader
  mailHdr : MailHeader
  data : Buffer

/-- `Mail::Mail`, in memory that holds `data` at first. -/
def Mail.new (pktH : PacketHeader) (mailH : MailHeader) (msgData data : Buffer) : Option Mail :=
  if mailH.length.toNat ≤ maxMailSize then
    some ⟨pktH, mailH, blit data 0 mailH.length.toNat msgData⟩
  else none

/-- `MailBox::Get`, for a caller whose buffer holds `data` at first. -/
def Mail.get (mail : Mail) (data : Buffer) : Mail :=
  ⟨mail.pktHdr, mail.mailHdr, blit data 0 mail.mailHdr.length.toNat mail.data⟩

/-- The `ASSERT`s of `PostOfficeInput::Receive`, before and after it has got `mail`. -/
def PostOfficeInput.receivable (numBoxes box : Int) : Bool :=
  decide (0 ≤ box) && decide (box < numBoxes)

/-- The one after: the letter fits the buffer of the caller. -/
def PostOfficeInput.deliverable (mail : Mail) : Bool :=
  decide (mail.mailHdr.length.toNat ≤ maxMailSize)

/-- One message on the receiving path, from the socket to the call of `Receive` for its box. The
other arguments are what the buffers on the way hold at first: the one that the datagram is
read to, the inbox of the device, the one of the postal worker, the new mail and the caller's. -/
def PostOfficeInput.arrive (hostName : BitVec 32) (numBoxes : Int)
    (datagram buffer inbox worker data caller : Buffer) : Option Mail :=
  (NetworkInput.read hostName datagram buffer inbox).bind fun r =>
    let worker := NetworkInput.receive r.1 r.2 worker
    (PostOfficeInput.check numBoxes worker).bind fun mailHdr =>
      (Mail.new r.1 mailHdr (fun k => worker (headerSize + k)) data).bind fun mail =>
        if PostOfficeInput.receivable numBoxes mailHdr.to_.toInt
            && PostOfficeInput.deliverable (mail.get caller) then
          some (mail.get caller)
        else none

end Nachos.Network
