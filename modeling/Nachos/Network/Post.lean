import Nachos.Network.Packet
import Nachos.Threads.SynchList

/-!
# Post offices: who does what when

Any number of machines, each with a post office. On a machine, threads call `Send` and `Receive`,
and one more thread, the postal worker, takes what the device has and puts it into mailboxes. The
device looks at its socket whenever it is polled, and it has room for one packet: that the length in
its header is not zero says that there is one.

A mailbox is a synchronized list of pointers. What the worker and the callers of `Receive` do to
it is what threads do to a `SynchList`, step by step; there the worker is thread 0, and thread
`t` is thread `t + 1`.

Between machines there are the sockets of the host, one per machine. What is put into a socket is
read from it at most once, as it was and in order, but it may get lost. `NetworkOutput::Send` also
loses packets by itself.

For the record every call of `Send` has a number, and every datagram, packet and mail is marked
with the letter it carries. No step looks at the marks.
-/

namespace Nachos.Network

open Base (upd)

/-- What a call of `Send` is to deliver. -/
structure Letter where
  /-- The number of the call. -/
  number : Nat
  /-- The machine it is made on. -/
  source : BitVec 32
  /-- `pktHdr.to`. -/
  dest : BitVec 32
  mailHdr : MailHeader
  data : Buffer

/-- A packet in the socket, with the letter it is for. -/
structure Datagram where
  bytes : Buffer
  letter : Letter

/-- Where a thread is. -/
inductive ThreadPC where
  /-- In neither call. -/
  | out
  /-- `Send`: `sendLock->Acquire()`. -/
  | acquire (p : Packet) (l : Letter)
  /-- Before `network->Send`. -/
  | transmit (p : Packet) (l : Letter)
  /-- `messageSent->P()`. -/
  | wait
  /-- `sendLock->Release()`. -/
  | release
  /-- `Receive`: in `messages->RemoveFront()` of a box. -/
  | getting (box : Nat)

/-- Where the postal worker is. -/
inductive WorkerPC where
  /-- `messageAvailable->P()`. -/
  | wait
  /-- Before `network->Receive(buffer)`. -/
  | receive
  /-- It has the packet in its buffer. -/
  | deliver (pktHdr : PacketHeader)
  /-- In `messages->Append(mail)` of a box. -/
  | putting (box : Nat)
  deriving DecidableEq, Repr

/-- A machine, as far as its post office goes. -/
structure Host where
  sendLock : Semaphore
  messageSent : Semaphore
  sendBusy : Bool
  /-- Interrupts of sent packets that are scheduled. -/
  sending : Nat
  inHdr : PacketHeader
  inbox : Buffer
  messageAvailable : Semaphore
  boxes : Nat → SynchList Nat
  /-- The mail behind each pointer. -/
  mail : Nat → Mail
  /-- How many have been allocated. -/
  allocated : Nat
  worker : WorkerPC
  /-- The buffer of the worker. -/
  buffer : Buffer
  pc : Nat → ThreadPC
  /-- An `ASSERT` has failed. -/
  aborted : Bool
  /-- The letters read from the socket. -/
  read : List Letter
  /-- The letter in the device. -/
  arrived : Option Letter
  /-- The letter in the buffer of the worker. -/
  inHand : Option Letter
  /-- The letter of each mail. -/
  letter : Nat → Letter
  /-- For each box, what calls of `Receive` have returned, with the pointers they have got it by. -/
  received : Nat → List (Nat × Mail)

/-- All machines and what is under way between them. -/
structure Net where
  host : BitVec 32 → Host
  /-- What is in the socket of each machine. -/
  socket : BitVec 32 → List Datagram
  /-- What has been put into it, in this order. -/
  posted : BitVec 32 → List Letter
  /-- The calls of `Send`, in the order in which they were made. -/
  sends : List Letter

/-- What happens next. Buffers among the arguments are what newly allocated ones, or those of the
callers, hold at first. -/
inductive NetEvent where
  /-- Thread `t` of machine `h` calls `Send`. -/
  | send (h : BitVec 32) (t : Nat) (pktHdr : PacketHeader) (mailHdr : MailHeader)
      (data buffer : Buffer)
  /-- Thread `t` of machine `h` calls `Receive`. -/
  | receive (h : BitVec 32) (t : Nat) (box : Int)
  /-- Thread `t` of machine `h` goes on. A packet that it sends may get lost. -/
  | go (h : BitVec 32) (t : Nat) (lost : Bool) (buffer : Buffer)
  /-- The postal worker of machine `h` goes on. -/
  | work (h : BitVec 32) (data : Buffer)
  /-- The device of machine `h` is polled. There always is a poll scheduled. -/
  | poll (h : BitVec 32) (buffer : Buffer)
  /-- A packet that machine `h` has sent is out. -/
  | sent (h : BitVec 32)
  /-- The host loses datagram `i` of those in the socket of machine `h`. -/
  | lose (h : BitVec 32) (i : Nat)

namespace Host

/-- The constructors. The header of the device is unset but for its length, and the buffers are
unset. -/
def new (to_ from_ : BitVec 32) (inbox buffer : Buffer) (mail : Nat → Mail)
    (letter : Nat → Letter) : Host where
  sendLock := Semaphore.new 1
  messageSent := Semaphore.new 0
  sendBusy := false
  sending := 0
  inHdr := ⟨to_, from_, 0#32⟩
  inbox := inbox
  messageAvailable := Semaphore.new 0
  boxes := fun _ => SynchList.new
  mail := mail
  allocated := 0
  worker := .wait
  buffer := buffer
  pc := fun _ => .out
  aborted := false
  read := []
  arrived := none
  inHand := none
  letter := letter
  received := fun _ => []

/-- The same machine, with thread `t` at `k`. -/
def goto (s : Host) (t : Nat) (k : ThreadPC) : Host := { s with pc := upd s.pc t k }

/-- A thread that has been asleep, or has not, passes a `P` or goes to sleep in it. -/
def passP (sem : Semaphore) (t : Nat) : Option (Semaphore × Bool) :=
  if t ∈ sem.queue then none else some (sem.P t)

/-- `sendLock->Acquire()`. -/
def acquire (s : Host) (t : Nat) (p : Packet) (l : Letter) : Option Host :=
  (passP s.sendLock t).map fun q =>
    if q.2 then { s.goto t (.transmit p l) with sendLock := q.1 } else { s with sendLock := q.1 }

/-- `messageSent->P()`. -/
def waitSent (s : Host) (t : Nat) : Option Host :=
  (passP s.messageSent t).map fun q =>
    if q.2 then { s.goto t .release with messageSent := q.1 } else { s with messageSent := q.1 }

/-- `sendLock->Release()`, and `Send` returns. -/
def release (s : Host) (t : Nat) : Host := { s.goto t .out with sendLock := s.sendLock.V.1 }

/-- `NetworkOutput::CallBack` and `PostOfficeOutput::CallBack`. -/
def callBackSent (s : Host) : Host :=
  { s with
    sendBusy := false
    sending := s.sending - 1
    messageSent := s.messageSent.V.1 }

/-- A step in `RemoveFront`. When it returns, the thread has a mail that nobody else has; it copies
it out, deletes it and returns. -/
def getting (s : Host) (t box : Nat) (caller : Buffer) : Option Host :=
  ((s.boxes box).step (t + 1, .go)).map fun b =>
    let s := { s with boxes := upd s.boxes box b }
    match b.pc (t + 1) with
    | .out (some p) =>
        let r := (s.mail p).get caller
        if PostOfficeInput.deliverable r then
          { s.goto t .out with received := upd s.received box (s.received box ++ [(p, r)]) }
        else { s with aborted := true }
    -- there is no such mail
    | .out none => { s with aborted := true }
    | _ => s

/-- `Receive`, up to `RemoveFront`. -/
def callReceive (s : Host) (numBoxes : Int) (t : Nat) (box : Int) : Option Host :=
  if PostOfficeInput.receivable numBoxes box then
    ((s.boxes box.toNat).step (t + 1, .removeFront)).map fun b =>
      { s.goto t (.getting box.toNat) with boxes := upd s.boxes box.toNat b }
  else some { s with aborted := true }

/-- `messageAvailable->P()`. -/
def waitArrived (s : Host) : Option Host :=
  (passP s.messageAvailable 0).map fun q =>
    if q.2 then { s with messageAvailable := q.1, worker := .receive }
    else { s with messageAvailable := q.1 }

/-- `network->Receive(buffer)`. Simulated time passes, and devices are polled, only when interrupts
are enabled again, which does not happen between `inHdr.length = 0` and the copy. -/
def receive (s : Host) : Host :=
  { s with
    inHdr := { s.inHdr with length := 0#32 }
    buffer := NetworkInput.receive s.inHdr s.inbox s.buffer
    worker := .deliver s.inHdr
    arrived := none
    inHand := s.arrived }

/-- The checks, `new Mail` and the call of `Append`. -/
def deliver (s : Host) (numBoxes : Int) (pktHdr : PacketHeader) (data : Buffer) : Option Host :=
  match PostOfficeInput.check numBoxes s.buffer with
  | none => some { s with aborted := true }
  | some mailHdr =>
      match Mail.new pktHdr mailHdr (fun k => s.buffer (headerSize + k)) data with
      | none => some { s with aborted := true }
      | some mail =>
          let box := mailHdr.to_.toInt.toNat
          ((s.boxes box).step (0, .append s.allocated)).map fun b =>
            { s with
              boxes := upd s.boxes box b
              mail := upd s.mail s.allocated mail
              allocated := s.allocated + 1
              worker := .putting box
              inHand := none
              letter := match s.inHand with
                | some l => upd s.letter s.allocated l
                | none => s.letter }

/-- A step in `Append`. When it returns, the worker goes round its loop. -/
def putting (s : Host) (box : Nat) : Option Host :=
  ((s.boxes box).step (0, .go)).map fun b =>
    let s := { s with boxes := upd s.boxes box b }
    match b.pc 0 with
    | .out _ => { s with worker := .wait }
    | _ => s

/-- The postal worker goes on. -/
def work (s : Host) (numBoxes : Int) (data : Buffer) : Option Host :=
  match s.worker with
  | .wait => s.waitArrived
  | .receive => some s.receive
  | .deliver pktHdr => s.deliver numBoxes pktHdr data
  | .putting box => s.putting box

/-- `NetworkInput::CallBack` and `PostOfficeInput::CallBack`, for a datagram in the socket. -/
def callBack (s : Host) (hostName : BitVec 32) (d : Datagram) (buffer : Buffer) : Host :=
  match NetworkInput.read hostName d.bytes buffer s.inbox with
  | none => { s with aborted := true }
  | some (inHdr, inbox) =>
      { s with
        inHdr := inHdr
        inbox := inbox
        messageAvailable := s.messageAvailable.V.1
        read := s.read ++ [d.letter]
        arrived := some d.letter }

end Host

namespace Net

/-- Machine `h` is now `s`. -/
def put (n : Net) (h : BitVec 32) (s : Host) : Net := { n with host := upd n.host h s }

/-- `PostOfficeOutput::Send`, up to the lock. -/
def callSend (n : Net) (h : BitVec 32) (t : Nat) (pktHdr : PacketHeader) (mailHdr : MailHeader)
    (data buffer : Buffer) : Option Net :=
  match (n.host h).pc t with
  | .out =>
      match PostOfficeOutput.prepare h pktHdr mailHdr data buffer with
      | some p =>
          let l : Letter := ⟨n.sends.length, h, pktHdr.to_, mailHdr, data⟩
          some { n.put h ((n.host h).goto t (.acquire p l)) with sends := n.sends ++ [l] }
      | none => some (n.put h { n.host h with aborted := true })
  | _ => none

/-- `NetworkOutput::Send`. -/
def transmit (n : Net) (h : BitVec 32) (t : Nat) (p : Packet) (l : Letter) (lost : Bool)
    (buffer : Buffer) : Net :=
  let s := n.host h
  if NetworkOutput.sendable h s.sendBusy p then
    -- the interrupt comes whether or not the packet gets lost
    let n' := n.put h { s.goto t .wait with sending := s.sending + 1 }
    if lost then n'
    else
      { n' with
        socket := upd n.socket p.hdr.to_
          (n.socket p.hdr.to_ ++ [⟨NetworkOutput.wire p buffer, l⟩])
        posted := upd n.posted p.hdr.to_ (n.posted p.hdr.to_ ++ [l]) }
  else n.put h { s with aborted := true }

/-- Thread `t` of machine `h` goes on. -/
def go (n : Net) (h : BitVec 32) (t : Nat) (lost : Bool) (buffer : Buffer) : Option Net :=
  match (n.host h).pc t with
  | .out => none
  | .acquire p l => ((n.host h).acquire t p l).map (n.put h)
  | .transmit p l => some (n.transmit h t p l lost buffer)
  | .wait => ((n.host h).waitSent t).map (n.put h)
  | .release => some (n.put h ((n.host h).release t))
  | .getting box => ((n.host h).getting t box buffer).map (n.put h)

/-- `Receive` is called. -/
def callReceive (n : Net) (numBoxes : Int) (h : BitVec 32) (t : Nat) (box : Int) :
    Option Net :=
  match (n.host h).pc t with
  | .out => ((n.host h).callReceive numBoxes t box).map (n.put h)
  | _ => none

/-- A poll: nothing happens if a packet is buffered, or if there is none in the socket. -/
def poll (n : Net) (h : BitVec 32) (buffer : Buffer) : Net :=
  -- the device has room for one packet
  if (n.host h).inHdr.length ≠ 0#32 then n
  else
    match n.socket h with
    | [] => n
    | d :: ds => { n.put h ((n.host h).callBack h d buffer) with socket := upd n.socket h ds }

/-- The machine where an event takes place. -/
def place : NetEvent → BitVec 32
  | .send h _ _ _ _ _ => h
  | .receive h _ _ => h
  | .go h _ _ _ => h
  | .work h _ => h
  | .poll h _ => h
  | .sent h => h
  | .lose h _ => h

/-- One event. `numBoxes` says how many boxes each machine has. -/
def step (numBoxes : BitVec 32 → Int) (n : Net) (e : NetEvent) : Option Net :=
  if (n.host (place e)).aborted then none
  else
    match e with
    | .send h t pktHdr mailHdr data buffer => n.callSend h t pktHdr mailHdr data buffer
    | .receive h t box => n.callReceive (numBoxes h) h t box
    | .go h t lost buffer => n.go h t lost buffer
    | .work h data => ((n.host h).work (numBoxes h) data).map (n.put h)
    | .poll h buffer => some (n.poll h buffer)
    | .sent h => if 0 < (n.host h).sending then some (n.put h (n.host h).callBackSent) else none
    | .lose h i => some { n with socket := upd n.socket h ((n.socket h).eraseIdx i) }

/-- The runs of the machines. -/
def sys (numBoxes : BitVec 32 → Int) : Base.System Net NetEvent where
  init := fun n => n.socket = (fun _ => []) ∧ n.posted = (fun _ => []) ∧ n.sends = [] ∧
    ∀ h, ∃ to_ from_ inbox buffer mail letter,
    n.host h = Host.new to_ from_ inbox buffer mail letter
  step := step numBoxes

end Net

end Nachos.Network
