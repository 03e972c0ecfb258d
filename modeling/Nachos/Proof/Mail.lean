import Nachos.Network.Post
import Nachos.Proof.Packets
import Nachos.Proof.Mailboxes

/-!
# Mail on one machine

Every letter that the device has read from the socket is in one place: in the device, in the
buffer of the postal worker, or in a mail. It gets from one to the next when the next one is
free. The device is free when the length in its header is zero, and it stays full until the worker
has the packet; the worker comes back for another one only when it has put the last into its box.

A mail is in its box, or the worker is about to append it, or a caller of `Receive` has it.
-/

namespace Nachos.Network

open Base (upd upd_self upd_ne upd_eq_self)

/-! ## Letters -/

namespace Letter

/-- The packet header it travels with. -/
def pktHdr (l : Letter) : PacketHeader := packetHeader l.source l.dest l.mailHdr

/-- The box it is for. -/
def box (l : Letter) : Nat := l.mailHdr.to_.toInt.toNat

/-- What is in a mail, in full. -/
def In (l : Letter) (mail : Mail) : Prop := mail.Is l.pktHdr l.mailHdr l.data

/-- It is not too long, and there is a box that it is for. -/
structure Proper (numBoxes : BitVec 32 → Int) (l : Letter) : Prop where
  length : l.mailHdr.length.toNat ≤ maxMailSize
  nonneg : 0 ≤ l.mailHdr.to_.toInt
  inRange : l.mailHdr.to_.toInt < numBoxes l.dest

end Letter

/-- A packet that holds a letter. -/
structure Packed (hdr : PacketHeader) (b : Buffer) (l : Letter) : Prop where
  hdr : hdr = l.pktHdr
  mail : Holds b l.mailHdr l.data

/-- The packet and the letter that a thread is to send. -/
def ThreadPC.parcel : ThreadPC → Option (Packet × Letter)
  | .acquire p l => some (p, l)
  | .transmit p l => some (p, l)
  | _ => none

/-! ## The invariant of one machine -/

section

variable (numBoxes : BitVec 32 → Int)

/-- What is in the device, and who knows. -/
inductive Device (h : BitVec 32) (inHdr : PacketHeader) (inbox : Buffer) (arrived : Option Letter)
    (available : Int) (worker : WorkerPC) : Prop where
  | free : inHdr.length = 0#32 → arrived = none → available = 0 → worker ≠ .receive →
      Device h inHdr inbox arrived available worker
  | full (l : Letter) : arrived = some l → Packed inHdr inbox l → l.Proper numBoxes → l.dest = h →
      (available = 1 ∧ worker ≠ .receive ∨ available = 0 ∧ worker = .receive) →
      Device h inHdr inbox arrived available worker

/-- What is in the buffer of the worker. -/
inductive Hand (h : BitVec 32) (buffer : Buffer) (inHand : Option Letter) (worker : WorkerPC) :
    Prop where
  | free : inHand = none → (∀ hdr, worker ≠ .deliver hdr) → Hand h buffer inHand worker
  | full (l : Letter) (hdr : PacketHeader) : worker = .deliver hdr → inHand = some l →
      Packed hdr buffer l → l.Proper numBoxes → l.dest = h → Hand h buffer inHand worker

/-- What holds of a machine at every moment. -/
structure HostInv (h : BitVec 32) (s : Host) : Prop where
  device : Device numBoxes h s.inHdr s.inbox s.arrived s.messageAvailable.value s.worker
  hand : Hand numBoxes h s.buffer s.inHand s.worker
  boxes : ∀ b, Mailbox (fun p => (s.letter p).box = b) s.allocated ((s.received b).map Prod.fst)
    (s.boxes b)
  /-- The mails are the letters they stand for. -/
  mails : ∀ p, p < s.allocated →
    (s.letter p).In (s.mail p) ∧ (s.letter p).Proper numBoxes ∧ (s.letter p).dest = h
  /-- So is what callers of `Receive` have got. -/
  received : ∀ b, ∀ r ∈ s.received b, (s.letter r.1).In r.2
  /-- Every letter from the socket is in a mail, in the buffer of the worker or in the device. -/
  read : s.read = (List.range s.allocated).map s.letter ++ s.inHand.toList ++ s.arrived.toList
  /-- What threads are to send is what they were given. -/
  parcels : ∀ t x, (s.pc t).parcel = some x → Packed x.1.hdr x.1.data x.2 ∧ x.2.Proper numBoxes ∧
    x.2.source = h
  idle : s.sendBusy = false

end

variable {numBoxes : BitVec 32 → Int} {h : BitVec 32} {s s' : Host} {t : Nat}

theorem hostInv_new (to_ from_ : BitVec 32) (inbox buffer : Buffer) (mail : Nat → Mail)
    (letter : Nat → Letter) : HostInv numBoxes h (Host.new to_ from_ inbox buffer mail letter) where
  device := .free rfl rfl rfl (by simp [Host.new])
  hand := .free rfl (by simp [Host.new])
  boxes := fun _ => Mailbox.new fun p hp => absurd hp (Nat.not_lt_zero p)
  mails := fun p hp => absurd hp (Nat.not_lt_zero p)
  received := by intro b r hr; simp [Host.new] at hr
  read := rfl
  parcels := by intro t x hx; simp [Host.new, ThreadPC.parcel] at hx
  idle := rfl

/-! ## Threads -/

section

variable (numBoxes : BitVec 32 → Int)

/-- A step of a machine by which nothing is read from the socket, no thread gets anything to
send, and no `ASSERT` fails. -/
structure Keeps (h : BitVec 32) (s s' : Host) : Prop where
  inv : HostInv numBoxes h s'
  read : s'.read = s.read
  parcels : ∀ u x, (s'.pc u).parcel = some x → (s.pc u).parcel = some x
  sound : s'.aborted = s.aborted

end

/-- A thread moves on with what it has to send, or with less. -/
theorem parcel_upd {pc : Nat → ThreadPC} {k : ThreadPC}
    (hk : ∀ x, k.parcel = some x → (pc t).parcel = some x) :
    ∀ u x, (upd pc t k u).parcel = some x → (pc u).parcel = some x := by
  intro u x hx
  by_cases hu : u = t
  · rw [hu, upd_self] at hx
    rw [hu]
    exact hk x hx
  · rwa [upd_ne _ _ hu] at hx

theorem parcel_upd_none {pc : Nat → ThreadPC} {k : ThreadPC} (hk : k.parcel = none) :
    ∀ u x, (upd pc t k u).parcel = some x → (pc u).parcel = some x :=
  parcel_upd fun x hx => absurd (hk.symm.trans hx) (by simp)

/-- What senders do to one another is of no concern to the rest. -/
theorem HostInv.moves (hi : HostInv numBoxes h s) {pc : Nat → ThreadPC}
    (hpc : ∀ u x, (pc u).parcel = some x → (s.pc u).parcel = some x)
    (sendLock messageSent : Semaphore) (sending : Nat) :
    Keeps numBoxes h s
      { s with pc := pc, sendLock := sendLock, messageSent := messageSent, sending := sending }
      where
  inv := { hi with parcels := fun u x hx => hi.parcels u x (hpc u x hx) }
  read := rfl
  parcels := hpc
  sound := rfl

theorem keeps_acquire (hi : HostInv numBoxes h s) {p : Packet} {l : Letter}
    (hpc : s.pc t = .acquire p l) (hs : s.acquire t p l = some s') : Keeps numBoxes h s s' := by
  unfold Host.acquire at hs
  obtain ⟨q, -, rfl⟩ := Option.map_eq_some_iff.mp hs
  by_cases hq : q.2 = true
  · rw [if_pos hq]
    refine hi.moves (parcel_upd fun x hx => ?_) _ _ _
    rw [hpc]
    exact hx
  · rw [if_neg hq]
    exact hi.moves (fun _ _ hx => hx) _ _ _

theorem keeps_waitSent (hi : HostInv numBoxes h s) (hs : s.waitSent t = some s') :
    Keeps numBoxes h s s' := by
  unfold Host.waitSent at hs
  obtain ⟨q, -, rfl⟩ := Option.map_eq_some_iff.mp hs
  by_cases hq : q.2 = true
  · rw [if_pos hq]
    exact hi.moves (parcel_upd_none rfl) _ _ _
  · rw [if_neg hq]
    exact hi.moves (fun _ _ hx => hx) _ _ _

theorem keeps_release (hi : HostInv numBoxes h s) : Keeps numBoxes h s (s.release t) :=
  hi.moves (parcel_upd_none rfl) _ _ _

theorem keeps_callBackSent (hi : HostInv numBoxes h s) : Keeps numBoxes h s s.callBackSent where
  inv := { hi with idle := rfl }
  read := rfl
  parcels := fun _ _ hx => hx
  sound := rfl

/-! ## Mailboxes -/

/-- A box changes, and callers may get something from it. -/
theorem HostInv.box (hi : HostInv numBoxes h s) {box : Nat} {b : SynchList Nat}
    (got : List (Nat × Mail))
    (hb : Mailbox (fun p => (s.letter p).box = box) s.allocated (got.map Prod.fst) b)
    (hgot : ∀ r ∈ got, (s.letter r.1).In r.2) :
    HostInv numBoxes h { s with boxes := upd s.boxes box b, received := upd s.received box got } :=
  { hi with
    boxes := by
      intro c
      show Mailbox _ _ ((upd s.received box got c).map Prod.fst) (upd s.boxes box b c)
      by_cases hc : c = box
      · rw [hc, upd_self, upd_self]
        exact hb
      · rw [upd_ne _ _ hc, upd_ne _ _ hc]
        exact hi.boxes c
    received := by
      intro c r hr
      by_cases hc : c = box
      · rw [hc] at hr
        exact hgot r (by simpa using hr)
      · exact hi.received c r (by simpa [upd_ne _ _ hc] using hr) }

/-- A box changes. -/
theorem HostInv.box_only (hi : HostInv numBoxes h s) {box : Nat} {b : SynchList Nat}
    (hb : Mailbox (fun p => (s.letter p).box = box) s.allocated ((s.received box).map Prod.fst) b) :
    HostInv numBoxes h { s with boxes := upd s.boxes box b } := by
  have hi' := hi.box _ hb (hi.received box)
  rwa [upd_eq_self] at hi'

theorem keeps_callReceive (hi : HostInv numBoxes h s) {box : Int} (hnonneg : 0 ≤ box)
    (hlt : box < numBoxes h) (hs : s.callReceive (numBoxes h) t box = some s') :
    Keeps numBoxes h s s' := by
  unfold Host.callReceive at hs
  have hrecv : PostOfficeInput.receivable (numBoxes h) box = true := by
    unfold PostOfficeInput.receivable
    rw [decide_eq_true hnonneg, decide_eq_true hlt]
    rfl
  rw [if_pos hrecv] at hs
  obtain ⟨b, hb, rfl⟩ := Option.map_eq_some_iff.mp hs
  have hi' := hi.box_only ((hi.boxes box.toNat).removeFront (Nat.succ_ne_zero t) hb)
  have hk :=
    hi'.moves (parcel_upd_none (t := t) (k := .getting box.toNat) rfl) s.sendLock s.messageSent
    s.sending
  exact ⟨hk.inv, hk.read, hk.parcels, hk.sound⟩

theorem keeps_getting (hi : HostInv numBoxes h s) {box : Nat} {caller : Buffer}
    (hs : s.getting t box caller = some s') : Keeps numBoxes h s s' := by
  unfold Host.getting at hs
  obtain ⟨b, hb, rfl⟩ := Option.map_eq_some_iff.mp hs
  dsimp only
  rcases (hi.boxes box).go hb with ⟨-, p, hret, hbox⟩ | ⟨hnot, hbox⟩
  · -- the thread has the pointer, and the mail behind it is the letter
    obtain ⟨hmail, hproper, -⟩ := hi.mails p (hbox.got_sorted.2 p (by simp)).1
    have hget := hmail.get caller
    have hok : PostOfficeInput.deliverable ((s.mail p).get caller) = true := by
      unfold PostOfficeInput.deliverable
      rw [hget.mailHdr]
      exact decide_eq_true hproper.length
    have hi' := hi.box (s.received box ++ [(p, (s.mail p).get caller)])
      (by rw [List.map_append]; exact hbox)
      (by
        intro r hr
        rcases List.mem_append.mp hr with hr | hr
        · exact hi.received box r hr
        · rw [List.mem_singleton.mp hr]
          exact hget)
    have hk :=
      hi'.moves (parcel_upd_none (t := t) (k := .out) rfl) s.sendLock s.messageSent s.sending
    rw [hret]
    dsimp only
    rw [if_pos hok]
    exact ⟨hk.inv, hk.read, hk.parcels, hk.sound⟩
  · have hnot' := hnot (Nat.succ_ne_zero t)
    split
    · rename_i hout
      exact absurd hout (hnot' _)
    · rename_i hout
      exact absurd hout (hnot' _)
    · exact ⟨hi.box_only hbox, rfl, fun _ _ hx => hx, rfl⟩

/-! ## The postal worker -/

/-- As long as the worker is not about to take the packet, the device does not care where it is. -/
theorem Device.goes {inHdr : PacketHeader} {inbox : Buffer} {arrived : Option Letter}
    {available : Int} {w w' : WorkerPC} (hd : Device numBoxes h inHdr inbox arrived available w)
    (hold : w ≠ .receive) (hnew : w' ≠ .receive) :
    Device numBoxes h inHdr inbox arrived available w' := by
  rcases hd with ⟨hlen, harr, hval, -⟩ | ⟨l, harr, hpack, hproper, hdest, hval⟩
  · exact .free hlen harr hval hnew
  · rcases hval with ⟨hval, -⟩ | ⟨-, hw⟩
    · exact .full l harr hpack hproper hdest (Or.inl ⟨hval, hnew⟩)
    · exact absurd hw hold

/-- It goes from one place to another, neither before the device nor with a packet in its
buffer. -/
theorem HostInv.worker_goes (hi : HostInv numBoxes h s) {w : WorkerPC} (hold : s.worker ≠ .receive)
    (hold' : ∀ hdr, s.worker ≠ .deliver hdr) (hnew : w ≠ .receive)
    (hnew' : ∀ hdr, w ≠ .deliver hdr) : HostInv numBoxes h { s with worker := w } :=
  { hi with
    device := hi.device.goes hold hnew
    hand := by
      rcases hi.hand with ⟨hnone, -⟩ | ⟨l, hdr, hw, -⟩
      · exact .free hnone hnew'
      · exact absurd hw (hold' hdr) }

theorem keeps_putting (hi : HostInv numBoxes h s) {box : Nat} (hw : s.worker = .putting box)
    (hs : s.putting box = some s') : Keeps numBoxes h s s' := by
  unfold Host.putting at hs
  obtain ⟨b, hb, rfl⟩ := Option.map_eq_some_iff.mp hs
  rcases (hi.boxes box).go hb with ⟨hne, -⟩ | ⟨-, hbox⟩
  · exact absurd rfl hne
  have hi' := hi.box_only hbox
  dsimp only
  split
  · exact ⟨hi'.worker_goes (by rw [hw]; simp) (by rw [hw]; simp) (by simp) (by simp), rfl,
      fun _ _ hx => hx, rfl⟩
  · exact ⟨hi', rfl, fun _ _ hx => hx, rfl⟩

theorem keeps_waitArrived (hi : HostInv numBoxes h s) (hw : s.worker = .wait)
    (hs : s.waitArrived = some s') : Keeps numBoxes h s s' := by
  unfold Host.waitArrived Host.passP at hs
  obtain ⟨q, hq, rfl⟩ := Option.map_eq_some_iff.mp hs
  split at hq
  · exact absurd hq (by simp)
  obtain rfl := Option.some.inj hq
  rcases hi.device with ⟨hlen, harr, hval, -⟩ | ⟨l, harr, hpack, hproper, hdest, hval⟩
  · -- nothing has arrived, and the worker goes to sleep
    rw [Semaphore.P_zero 0 hval, if_neg (by simp)]
    exact ⟨{ hi with device := .free hlen harr hval (by rw [hw]; simp) }, rfl,
      fun _ _ hx => hx, rfl⟩
  · rcases hval with ⟨hval, -⟩ | ⟨-, hw'⟩
    · have hzero : toInt32 (s.messageAvailable.value - 1) = 0 := by rw [hval]; rfl
      rw [Semaphore.P_pos 0 (by rw [hval]; decide), if_pos rfl]
      refine ⟨{ hi with
        device := .full l harr hpack hproper hdest (Or.inr ⟨hzero, rfl⟩), hand := ?_ }, rfl,
        fun _ _ hx => hx, rfl⟩
      rcases hi.hand with ⟨hnone, -⟩ | ⟨m, hdr, hwd, -⟩
      · exact .free hnone (by simp)
      · exact absurd (hw.symm.trans hwd) (by simp)
    · exact absurd (hw.symm.trans hw') (by simp)

/-- The packet gets from the device to the worker, which is when the device is free again. -/
theorem keeps_receive (hi : HostInv numBoxes h s) (hw : s.worker = .receive) :
    Keeps numBoxes h s s.receive := by
  rcases hi.device with ⟨-, -, -, hne⟩ | ⟨l, harr, hpack, hproper, hdest, hval⟩
  · exact absurd hw hne
  rcases hval with ⟨-, hne⟩ | ⟨hval, -⟩
  · exact absurd hw hne
  have hempty : s.inHand = none := by
    rcases hi.hand with ⟨hnone, -⟩ | ⟨m, hdr, hwd, -⟩
    · exact hnone
    · exact absurd (hw.symm.trans hwd) (by simp)
  have hholds : Holds (NetworkInput.receive s.inHdr s.inbox s.buffer) l.mailHdr l.data := by
    rw [hpack.hdr]
    exact holds_receive l.source l.dest hproper.length hpack.mail s.buffer
  refine ⟨{ hi with device := ?_, hand := ?_, read := ?_ }, rfl, fun _ _ hx => hx, rfl⟩
  · exact .free rfl rfl hval (by simp [Host.receive])
  · exact .full l s.inHdr rfl harr ⟨hpack.hdr, hholds⟩ hproper hdest
  · rw [Host.receive]
    dsimp only
    rw [hi.read, hempty]
    simp

/-- The letters there were keep their pointers. -/
theorem letter_upd (s : Host) (l : Letter) {p : Nat} (hp : p < s.allocated) :
    upd s.letter s.allocated l p = s.letter p :=
  upd_ne _ _ (Nat.ne_of_lt hp)

/-- A new mail goes into its own box, and is of no concern to the others. -/
theorem HostInv.boxes_grow (hi : HostInv numBoxes h s) {l : Letter} {b : SynchList Nat}
    (hb : (s.boxes l.box).step (0, .append s.allocated) = some b) (c : Nat) :
    Mailbox (fun p => (upd s.letter s.allocated l p).box = c) (s.allocated + 1)
      ((s.received c).map Prod.fst) (upd s.boxes l.box b c) := by
  have hold : ∀ p, p < s.allocated →
      ((upd s.letter s.allocated l p).box = c ↔ (s.letter p).box = c) := by
    intro p hp
    rw [letter_upd s l hp]
  by_cases hc : c = l.box
  · rw [hc, upd_self]
    rw [hc] at hold
    exact (hi.boxes l.box).append hold (by rw [upd_self]) hb
  · rw [upd_ne _ _ hc]
    refine (hi.boxes c).grow (Nat.le_succ _) hold fun p hle hp => ?_
    rw [show p = s.allocated by omega, upd_self]
    exact fun hbox => hc hbox.symm

/-- **The worker makes a mail of the packet** and calls `Append`. -/
theorem keeps_deliver (hi : HostInv numBoxes h s) {pktHdr : PacketHeader} {mem : Buffer}
    (hw : s.worker = .deliver pktHdr) (hs : s.deliver (numBoxes h) pktHdr mem = some s') :
    Keeps numBoxes h s s' := by
  rcases hi.hand with ⟨-, hne⟩ | ⟨l, hdr, hwd, hhand, hpack, hproper, hdest⟩
  · exact absurd hw (hne pktHdr)
  obtain rfl : pktHdr = hdr := WorkerPC.deliver.inj (hw.symm.trans hwd)
  obtain ⟨mail, hnew, hmail⟩ := new_eq pktHdr hproper.length hpack.mail mem
  have hin : l.In mail := by
    rw [hpack.hdr] at hmail
    exact hmail
  have hlt : l.mailHdr.to_.toInt < numBoxes h := hdest ▸ hproper.inRange
  unfold Host.deliver at hs
  rw [check_eq hproper.length hproper.nonneg hpack.mail, if_pos hlt] at hs
  dsimp only at hs
  rw [hnew, hhand] at hs
  obtain ⟨b, hb, rfl⟩ := Option.map_eq_some_iff.mp hs
  refine ⟨{ device := hi.device.goes (by rw [hw]; simp) (by simp), hand := .free rfl (by simp),
            boxes := hi.boxes_grow hb, mails := ?_, received := ?_, read := ?_,
            parcels := hi.parcels, idle := hi.idle }, rfl, fun _ _ hx => hx, rfl⟩
  · intro p hp
    show (upd s.letter s.allocated l p).In (upd s.mail s.allocated mail p) ∧
      (upd s.letter s.allocated l p).Proper numBoxes ∧ (upd s.letter s.allocated l p).dest = h
    by_cases hpl : p = s.allocated
    · rw [hpl, upd_self, upd_self]
      exact ⟨hin, hproper, hdest⟩
    · have hp' : p < s.allocated := by
        have hp'' : p < s.allocated + 1 := hp
        omega
      rw [letter_upd s l hp', upd_ne _ _ hpl]
      exact hi.mails p hp'
  · intro c r hr
    have hr' : r.1 < s.allocated := ((hi.boxes c).got_sorted.2 r.1 (List.mem_map_of_mem hr)).1
    show (upd s.letter s.allocated l r.1).In r.2
    rw [letter_upd s l hr']
    exact hi.received c r hr
  · show s.read = (List.range (s.allocated + 1)).map (upd s.letter s.allocated l) ++ [] ++
      s.arrived.toList
    have hmap : (List.range s.allocated).map (upd s.letter s.allocated l) =
        (List.range s.allocated).map s.letter :=
      List.map_congr_left fun p hp => letter_upd s l (List.mem_range.mp hp)
    rw [hi.read, hhand, List.range_succ, List.map_append, hmap]
    simp

theorem keeps_work (hi : HostInv numBoxes h s) {mem : Buffer}
    (hs : s.work (numBoxes h) mem = some s') : Keeps numBoxes h s s' := by
  unfold Host.work at hs
  split at hs
  · rename_i hw
    exact keeps_waitArrived hi hw hs
  · rename_i hw
    obtain rfl := Option.some.inj hs
    exact keeps_receive hi hw
  · rename_i hw
    exact keeps_deliver hi hw hs
  · rename_i hw
    exact keeps_putting hi hw hs

/-! ## The device -/

theorem Letter.Proper.length_ne {l : Letter} (hl : l.Proper numBoxes) : l.pktHdr.length ≠ 0#32 := by
  intro hz
  have hlen := packetHeader_length l.source l.dest hl.length
  rw [← Letter.pktHdr, hz] at hlen
  unfold headerSize at hlen
  exact absurd hlen (by simp; omega)

/-- A datagram in the socket of machine `h`. -/
structure Datagram.Good (numBoxes : BitVec 32 → Int) (h : BitVec 32) (d : Datagram) : Prop where
  carries : Carries d.bytes d.letter.pktHdr d.letter.mailHdr d.letter.data
  proper : d.letter.Proper numBoxes
  dest : d.letter.dest = h

/-- **The device takes a datagram** when it is free, and then nothing is overwritten. -/
theorem hostInv_callBack (hi : HostInv numBoxes h s) (hfree : s.inHdr.length = 0#32) {d : Datagram}
    (hd : d.Good numBoxes h) (buffer : Buffer) :
    HostInv numBoxes h (s.callBack h d buffer) ∧
      (s.callBack h d buffer).read = s.read ++ [d.letter] ∧ (s.callBack h d buffer).pc = s.pc ∧
      (s.callBack h d buffer).aborted = s.aborted := by
  rcases hi.device with ⟨-, harr, hval, hne⟩ | ⟨m, -, hpack, hproper, -⟩
  · obtain ⟨hcarries, hproper, rfl⟩ := hd
    obtain ⟨inbox, hread, hholds⟩ := read_eq hproper.length hcarries buffer s.inbox
    have hone : toInt32 (s.messageAvailable.value + 1) = 1 := by rw [hval]; rfl
    unfold Host.callBack
    rw [hread]
    refine ⟨{ hi with device := ?_, read := ?_ }, rfl, rfl, rfl⟩
    · exact .full d.letter rfl ⟨rfl, hholds⟩ hproper rfl (Or.inl ⟨hone, hne⟩)
    · dsimp only
      rw [hi.read, harr]
      simp
  · exact absurd (hpack.hdr ▸ hfree) hproper.length_ne

end Nachos.Network
