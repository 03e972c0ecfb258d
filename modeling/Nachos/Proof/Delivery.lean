import Nachos.Proof.Mail

/-!
# What is sent is received, at most once and in order

A letter that is not on the machine it is for is with the thread that sends it, or in the
socket. It leaves the thread when it is put into the socket, so it goes there once, and what the
devices take from their sockets was put there before, in the same order.

Together with the mailboxes, which return what was put into them, in order: the letters that callers
have got from a box are those sent to it, in the order in which they came out of the socket,
less the ones that were lost or have not been asked for.
-/

namespace Nachos.Network

open Base (upd upd_self upd_ne)

section

variable (numBoxes : BitVec 32 → Int)

/-- `Send` is called for messages that are not too long, and for boxes that there are. -/
def Addressed (_ : Net) : NetEvent → Prop
  | .send _ _ pktHdr mailHdr _ _ => mailHdr.length.toNat ≤ maxMailSize ∧ 0 ≤ mailHdr.to_.toInt ∧
      mailHdr.to_.toInt < numBoxes pktHdr.to_
  | _ => True

instance (n : Net) (e : NetEvent) : Decidable (Addressed numBoxes n e) :=
  match e with
  | .send _ _ _ _ _ _ => inferInstanceAs (Decidable (_ ∧ _ ∧ _))
  | .receive _ _ _ => .isTrue trivial
  | .go _ _ _ _ => .isTrue trivial
  | .work _ _ => .isTrue trivial
  | .poll _ _ => .isTrue trivial
  | .sent _ => .isTrue trivial
  | .lose _ _ => .isTrue trivial

/-- `Receive` is called for boxes that there are. -/
def BoxInRange : NetEvent → Prop
  | .receive h _ box => 0 ≤ box ∧ box < numBoxes h
  | _ => True

/-! ## The invariant -/

/-- What holds at every moment. -/
structure NetInv (n : Net) : Prop where
  host : ∀ h, HostInv numBoxes h (n.host h)
  socket : ∀ h, ∀ d ∈ n.socket h, d.Good numBoxes h
  /-- What was read from a socket, and what still is in it, was put into it. -/
  order : ∀ h, ((n.host h).read ++ (n.socket h).map Datagram.letter).Sublist (n.posted h)
  posted : ∀ h, ∀ l ∈ n.posted h, n.sends[l.number]? = some l ∧ l.dest = h
  once : ∀ h, ((n.posted h).map Letter.number).Nodup
  /-- What a thread is to send has not been put into a socket. -/
  parcels : ∀ h t x, ((n.host h).pc t).parcel = some x →
    n.sends[x.2.number]? = some x.2 ∧ ∀ g, ∀ l ∈ n.posted g, l.number ≠ x.2.number
  /-- No two threads are to send the same. -/
  unique : ∀ h t x h' t' x', ((n.host h).pc t).parcel = some x →
    ((n.host h').pc t').parcel = some x' → x.2.number = x'.2.number → h = h' ∧ t = t'

end

variable {numBoxes : BitVec 32 → Int} {h : BitVec 32} {n n' : Net} {s' : Host} {t : Nat}

theorem netInv_init (hn : (Net.sys numBoxes).init n) : NetInv numBoxes n := by
  obtain ⟨hsocket, hposted, hsends, hhost⟩ := hn
  have hnew : ∀ h, HostInv numBoxes h (n.host h) ∧ (n.host h).read = [] ∧
      ∀ t, ((n.host h).pc t).parcel = none := by
    intro h
    obtain ⟨to_, from_, inbox, buffer, mail, letter, hh⟩ := hhost h
    rw [hh]
    exact ⟨hostInv_new to_ from_ inbox buffer mail letter, rfl, fun _ => rfl⟩
  refine ⟨fun h => (hnew h).1, ?_, ?_, ?_, ?_, ?_, ?_⟩
  · intro h d hd
    rw [hsocket] at hd
    exact absurd hd (by simp)
  · intro h
    rw [(hnew h).2.1, hsocket]
    exact List.nil_sublist _
  · intro h l hl
    rw [hposted] at hl
    exact absurd hl (by simp)
  · intro h
    rw [hposted]
    exact List.nodup_nil
  · intro h t x hx
    rw [(hnew h).2.2 t] at hx
    exact absurd hx (by simp)
  · intro h t x h' t' x' hx
    rw [(hnew h).2.2 t] at hx
    exact absurd hx (by simp)

/-! ## One step -/

theorem Net.put_host (n : Net) (h : BitVec 32) (s' : Host) : (n.put h s').host h = s' :=
  upd_self _ _ _

/-- A property of every machine, when one of them changes. -/
theorem forall_put {P : BitVec 32 → Host → Prop} (hs : P h s') (ho : ∀ g, g ≠ h → P g (n.host g)) :
    ∀ g, P g ((n.put h s').host g) := Base.forall_upd hs ho

/-- **A step of one machine** that has nothing to do with the sockets. -/
theorem NetInv.local (hi : NetInv numBoxes n) (hinv : HostInv numBoxes h s')
    (hsame : s'.read = (n.host h).read)
    (hless : ∀ u x, (s'.pc u).parcel = some x → ((n.host h).pc u).parcel = some x) :
    NetInv numBoxes (n.put h s') := by
  have hread : ∀ g, ((n.put h s').host g).read = (n.host g).read :=
    forall_put (P := fun g s => s.read = (n.host g).read) hsame fun _ _ => rfl
  have hparcel : ∀ g t x, (((n.put h s').host g).pc t).parcel = some x →
      ((n.host g).pc t).parcel = some x :=
    forall_put (P := fun g s => ∀ t x, (s.pc t).parcel = some x → ((n.host g).pc t).parcel = some x)
      hless fun _ _ _ _ hx => hx
  refine ⟨forall_put hinv fun g _ => hi.host g, hi.socket, ?_, hi.posted, hi.once, ?_, ?_⟩
  · intro g
    rw [hread g]
    exact hi.order g
  · intro g t x hx
    exact hi.parcels g t x (hparcel g t x hx)
  · intro g t x g' t' x' hx hx'
    exact hi.unique g t x g' t' x' (hparcel g t x hx) (hparcel g' t' x' hx')

/-- **A thread is given something to send**, under a number that nothing has had so far. -/
theorem NetInv.call (hi : NetInv numBoxes n) {p : Packet} {l : Letter}
    (hpack : Packed p.hdr p.data l) (hproper : l.Proper numBoxes) (hsource : l.source = h)
    (hnumber : l.number = n.sends.length) (t : Nat) :
    NetInv numBoxes
      { n.put h ((n.host h).goto t (.acquire p l)) with sends := n.sends ++ [l] } := by
  have hold : ∀ {k m}, n.sends[k]? = some m → (n.sends ++ [l])[k]? = some m ∧ k ≠ l.number := by
    intro k m hm
    have hk := (List.getElem?_eq_some_iff.mp hm).1
    rw [List.getElem?_append_left hk]
    exact ⟨hm, by omega⟩
  have hnew : (n.sends ++ [l])[l.number]? = some l := by
    rw [hnumber]
    exact List.getElem?_concat_length
  -- a parcel is the new one or one of those there were
  have hparcel :
    ∀ g u x, (((n.put h ((n.host h).goto t (.acquire p l))).host g).pc u).parcel = some x →
      (g = h ∧ u = t ∧ x = (p, l)) ∨ ((n.host g).pc u).parcel = some x := by
    refine forall_put
      (P := fun g s => ∀ u x, (s.pc u).parcel = some x → (g = h ∧ u = t ∧ x = (p, l)) ∨
      ((n.host g).pc u).parcel = some x) (fun u x hx => ?_) fun _ _ _ _ hx => Or.inr hx
    have hx' : (upd (n.host h).pc t (.acquire p l) u).parcel = some x := hx
    by_cases hu : u = t
    · rw [hu, upd_self] at hx'
      exact Or.inl ⟨rfl, hu, (Option.some.inj hx').symm⟩
    · rw [upd_ne _ _ hu] at hx'
      exact Or.inr hx'
  have hhost : HostInv numBoxes h ((n.host h).goto t (.acquire p l)) :=
    { hi.host h with
      parcels := by
        intro u x hx
        rcases hparcel h u x (by rw [Net.put_host]; exact hx) with ⟨-, -, rfl⟩ | hx'
        · exact ⟨hpack, hproper, hsource⟩
        · exact (hi.host h).parcels u x hx' }
  refine ⟨forall_put hhost fun g _ => hi.host g, hi.socket, ?_, ?_, hi.once, ?_, ?_⟩
  · refine forall_put
      (P := fun g s => (s.read ++ (n.socket g).map Datagram.letter).Sublist (n.posted g))
      (hi.order h) fun g _ => hi.order g
  · intro g m hm
    exact ⟨(hold (hi.posted g m hm).1).1, (hi.posted g m hm).2⟩
  · intro g u x hx
    rcases hparcel g u x hx with ⟨-, -, rfl⟩ | hx
    · exact ⟨hnew, fun g' m hm => (hold (hi.posted g' m hm).1).2⟩
    · obtain ⟨hsent, hfresh⟩ := hi.parcels g u x hx
      exact ⟨(hold hsent).1, hfresh⟩
  · intro g u x g' u' x' hx hx' hxx
    have hnot : ∀ g u x, ((n.host g).pc u).parcel = some x → x.2.number ≠ l.number :=
      fun g u x hx => (hold (hi.parcels g u x hx).1).2
    rcases hparcel g u x hx with ⟨hgh, hut, hxl⟩ | hx₁
    · rcases hparcel g' u' x' hx' with ⟨hgh', hut', -⟩ | hx₂
      · exact ⟨hgh.trans hgh'.symm, hut.trans hut'.symm⟩
      · rw [hxl] at hxx
        exact absurd hxx.symm (hnot g' u' x' hx₂)
    · rcases hparcel g' u' x' hx' with ⟨-, -, hxl⟩ | hx₂
      · rw [hxl] at hxx
        exact absurd hxx (hnot g u x hx₁)
      · exact hi.unique g u x g' u' x' hx₁ hx₂ hxx

/-- **A datagram is put into its socket.** -/
theorem NetInv.post (hi : NetInv numBoxes n) {d : Datagram} (hgood : d.Good numBoxes h)
    (hsent : n.sends[d.letter.number]? = some d.letter)
    (hfresh : ∀ g, ∀ l ∈ n.posted g, l.number ≠ d.letter.number)
    (hnobody : ∀ g t x, ((n.host g).pc t).parcel = some x → d.letter.number ≠ x.2.number) :
    NetInv numBoxes
      { n with
        socket := upd n.socket h (n.socket h ++ [d])
        posted := upd n.posted h (n.posted h ++ [d.letter]) } := by
  have hposted : ∀ g, ∀ l ∈ upd n.posted h (n.posted h ++ [d.letter]) g,
      l ∈ n.posted g ∨ g = h ∧ l = d.letter := by
    intro g l hl
    by_cases hg : g = h
    · rw [hg, upd_self] at hl
      rcases List.mem_append.mp hl with hl | hl
      · exact Or.inl (hg ▸ hl)
      · exact Or.inr ⟨hg, List.mem_singleton.mp hl⟩
    · rw [upd_ne _ _ hg] at hl
      exact Or.inl hl
  refine ⟨hi.host, ?_, ?_, ?_, ?_, ?_, hi.unique⟩
  · intro g e he
    by_cases hg : g = h
    · have he' : e ∈ n.socket h ++ [d] := by simpa [hg] using he
      rw [hg]
      rcases List.mem_append.mp he' with he' | he'
      · exact hi.socket h e he'
      · rw [List.mem_singleton.mp he']
        exact hgood
    · exact hi.socket g e (by simpa [upd_ne _ _ hg] using he)
  · intro g
    show ((n.host g).read ++ (upd n.socket h _ g).map Datagram.letter).Sublist (upd n.posted h _ g)
    by_cases hg : g = h
    · rw [hg, upd_self, upd_self, List.map_append, ← List.append_assoc]
      exact (hi.order h).append (List.Sublist.refl _)
    · rw [upd_ne _ _ hg, upd_ne _ _ hg]
      exact hi.order g
  · intro g l hl
    rcases hposted g l hl with hl | ⟨rfl, rfl⟩
    · exact hi.posted g l hl
    · exact ⟨hsent, hgood.dest⟩
  · intro g
    show ((upd n.posted h _ g).map Letter.number).Nodup
    by_cases hg : g = h
    · rw [hg, upd_self, List.map_append]
      refine List.nodup_append.mpr ⟨hi.once h, List.nodup_singleton _, ?_⟩
      intro k hk k' hk'
      obtain ⟨l, hl, rfl⟩ := List.mem_map.mp hk
      rw [List.mem_singleton.mp hk']
      exact hfresh h l hl
    · rw [upd_ne _ _ hg]
      exact hi.once g
  · intro g t x hx
    refine ⟨(hi.parcels g t x hx).1, fun g' l hl => ?_⟩
    rcases hposted g' l hl with hl | ⟨-, rfl⟩
    · exact (hi.parcels g t x hx).2 g' l hl
    · exact hnobody g t x hx

/-- **A device takes a datagram from its socket.** -/
theorem NetInv.taken (hi : NetInv numBoxes n) {d : Datagram} {ds : List Datagram}
    (hd : n.socket h = d :: ds) (hinv : HostInv numBoxes h s')
    (hread : s'.read = (n.host h).read ++ [d.letter]) (hpc : s'.pc = (n.host h).pc) :
    NetInv numBoxes { n.put h s' with socket := upd n.socket h ds } := by
  have hpc' : ∀ g, ((n.put h s').host g).pc = (n.host g).pc :=
    forall_put (P := fun g s => s.pc = (n.host g).pc) hpc fun _ _ => rfl
  refine ⟨forall_put hinv fun g _ => hi.host g, ?_, ?_, hi.posted, hi.once, ?_, ?_⟩
  · intro g e he
    by_cases hg : g = h
    · have he' : e ∈ ds := by simpa [hg] using he
      rw [hg]
      exact hi.socket h e (by rw [hd]; exact List.mem_cons_of_mem d he')
    · exact hi.socket g e (by simpa [upd_ne _ _ hg] using he)
  · intro g
    show ((upd n.host h s' g).read ++ (upd n.socket h ds g).map Datagram.letter).Sublist
      (n.posted g)
    by_cases hg : g = h
    · have hold := hi.order h
      rw [hd, List.map_cons, ← List.singleton_append, ← List.append_assoc, ← hread] at hold
      rw [hg, upd_self, upd_self]
      exact hold
    · rw [upd_ne _ _ hg, upd_ne _ _ hg]
      exact hi.order g
  · intro g t x hx
    refine hi.parcels g t x ?_
    rw [← hpc' g]
    exact hx
  · intro g t x g' t' x' hx hx'
    refine hi.unique g t x g' t' x' ?_ ?_
    · rw [← hpc' g]
      exact hx
    · rw [← hpc' g']
      exact hx'

/-- A datagram gets lost. -/
theorem NetInv.lose (hi : NetInv numBoxes n) (h : BitVec 32) (i : Nat) :
    NetInv numBoxes { n with socket := upd n.socket h ((n.socket h).eraseIdx i) } := by
  have hsub : ∀ g, (upd n.socket h ((n.socket h).eraseIdx i) g).Sublist (n.socket g) := by
    intro g
    by_cases hg : g = h
    · rw [hg, upd_self]
      exact List.eraseIdx_sublist _ i
    · rw [upd_ne _ _ hg]
  refine ⟨hi.host, ?_, ?_, hi.posted, hi.once, hi.parcels, hi.unique⟩
  · intro g d hd
    exact hi.socket g d ((hsub g).subset hd)
  · intro g
    exact (((hsub g).map Datagram.letter).append_left _).trans (hi.order g)

/-! ## Every step -/

section

variable (numBoxes : BitVec 32 → Int)

/-- A step that keeps the invariant, and by which no `ASSERT` fails. -/
structure NetKeeps (n n' : Net) : Prop where
  inv : NetInv numBoxes n'
  sound : ∀ g, (n'.host g).aborted = (n.host g).aborted

end

theorem NetInv.keeps (hi : NetInv numBoxes n) (hk : Keeps numBoxes h (n.host h) s') :
    NetKeeps numBoxes n (n.put h s') :=
  ⟨hi.local hk.inv hk.read hk.parcels,
    forall_put (P := fun g s => s.aborted = (n.host g).aborted) hk.sound fun _ _ => rfl⟩

theorem keeps_callSend (hi : NetInv numBoxes n) {pktHdr : PacketHeader} {mailHdr : MailHeader}
    {data buffer : Buffer} (hg : Addressed numBoxes n (.send h t pktHdr mailHdr data buffer))
    (hs : n.callSend h t pktHdr mailHdr data buffer = some n') : NetKeeps numBoxes n n' := by
  obtain ⟨hlen, hnonneg, hrange⟩ := hg
  obtain ⟨p, hp⟩ : ∃ p, PostOfficeOutput.prepare h pktHdr mailHdr data buffer = some p :=
    ⟨_, (prepare_iff h pktHdr mailHdr data buffer _).mpr ⟨⟨hlen, hnonneg⟩, rfl⟩⟩
  unfold Net.callSend at hs
  split at hs
  · rw [hp] at hs
    obtain rfl := Option.some.inj hs
    obtain ⟨-, rfl⟩ := (prepare_iff h pktHdr mailHdr data buffer p).mp hp
    refine ⟨hi.call (h := h) (l := ⟨n.sends.length, h, pktHdr.to_, mailHdr, data⟩)
      ⟨rfl, holds_concat buffer mailHdr data⟩ ⟨hlen, hnonneg, hrange⟩ rfl rfl t, ?_⟩
    exact forall_put (P := fun g s => s.aborted = (n.host g).aborted) rfl fun _ _ => rfl
  · exact absurd hs (by simp)

theorem keeps_transmit (hi : NetInv numBoxes n) {p : Packet} {l : Letter} (lost : Bool)
    (buffer : Buffer) (hpc : (n.host h).pc t = .transmit p l) :
    NetKeeps numBoxes n (n.transmit h t p l lost buffer) := by
  have hparcel : ((n.host h).pc t).parcel = some (p, l) := by rw [hpc]; rfl
  obtain ⟨hpack, hproper, hsource⟩ := (hi.host h).parcels t (p, l) hparcel
  obtain ⟨hsent, hfresh⟩ := hi.parcels h t (p, l) hparcel
  have hok : NetworkOutput.sendable h (n.host h).sendBusy p = true := by
    rw [(hi.host h).idle, ← hsource, show p = ⟨l.pktHdr, p.data⟩ from by rw [← hpack.hdr]]
    exact sendable_packetHeader hproper.length
  have hk := hi.keeps ((hi.host h).moves (parcel_upd_none (t := t) (k := .wait) rfl)
    (n.host h).sendLock (n.host h).messageSent ((n.host h).sending + 1))
  unfold Net.transmit
  dsimp only
  rw [if_pos hok]
  cases lost with
  | true => exact hk
  | false =>
      -- the thread has it no longer, and no other thread has ever had it
      have hdest : p.hdr.to_ = l.dest := by rw [hpack.hdr]; rfl
      rw [hdest]
      refine ⟨hk.inv.post (d := ⟨NetworkOutput.wire p buffer, l⟩) ⟨?_, hproper, rfl⟩
        hsent hfresh ?_, hk.sound⟩
      · have hlen := packetHeader_length l.source l.dest hproper.length
        rw [show p = ⟨l.pktHdr, p.data⟩ from by rw [← hpack.hdr]]
        exact carries_wire hpack.mail hlen buffer
      · refine forall_put (P := fun _ s => ∀ u x, (s.pc u).parcel = some x → l.number ≠ x.2.number)
          (fun u x hx hnum => ?_) fun g hg u x hx hnum => ?_
        · have hx' : (upd (n.host h).pc t .wait u).parcel = some x := hx
          have hold := parcel_upd_none rfl u x hx'
          rw [(hi.unique h t (p, l) h u x hparcel hold hnum).2, upd_self] at hx'
          exact absurd hx' (by simp [ThreadPC.parcel])
        · exact hg (hi.unique h t (p, l) g u x hparcel hx hnum).1.symm

theorem keeps_go (hi : NetInv numBoxes n) {lost : Bool} {buffer : Buffer}
    (hs : n.go h t lost buffer = some n') : NetKeeps numBoxes n n' := by
  unfold Net.go at hs
  split at hs
  · exact absurd hs (by simp)
  · rename_i hpc
    obtain ⟨s', hs', rfl⟩ := Option.map_eq_some_iff.mp hs
    exact hi.keeps (keeps_acquire (hi.host h) hpc hs')
  · rename_i hpc
    obtain rfl := Option.some.inj hs
    exact keeps_transmit hi lost buffer hpc
  · obtain ⟨s', hs', rfl⟩ := Option.map_eq_some_iff.mp hs
    exact hi.keeps (keeps_waitSent (hi.host h) hs')
  · obtain rfl := Option.some.inj hs
    exact hi.keeps (keeps_release (hi.host h))
  · obtain ⟨s', hs', rfl⟩ := Option.map_eq_some_iff.mp hs
    exact hi.keeps (keeps_getting (hi.host h) hs')

/-- `Receive` is called. If there is no such box the machine stops, and does no more harm. -/
theorem inv_callReceive (hi : NetInv numBoxes n) {box : Int}
    (hs : n.callReceive (numBoxes h) h t box = some n') :
    NetInv numBoxes n' ∧ (0 ≤ box ∧ box < numBoxes h → NetKeeps numBoxes n n') := by
  unfold Net.callReceive at hs
  split at hs
  · obtain ⟨s', hs', rfl⟩ := Option.map_eq_some_iff.mp hs
    by_cases hbox : 0 ≤ box ∧ box < numBoxes h
    · have hk := hi.keeps (keeps_callReceive (hi.host h) hbox.1 hbox.2 hs')
      exact ⟨hk.inv, fun _ => hk⟩
    · have hnot : PostOfficeInput.receivable (numBoxes h) box ≠ true := by
        simpa [PostOfficeInput.receivable] using hbox
      rw [Host.callReceive, if_neg hnot] at hs'
      obtain rfl := Option.some.inj hs'
      exact ⟨hi.local { hi.host h with } rfl fun _ _ hx => hx, fun hin => absurd hin hbox⟩
  · exact absurd hs (by simp)

theorem keeps_poll (hi : NetInv numBoxes n) (buffer : Buffer) :
    NetKeeps numBoxes n (n.poll h buffer) := by
  unfold Net.poll
  split
  · exact ⟨hi, fun _ => rfl⟩
  · rename_i hfree
    split
    · exact ⟨hi, fun _ => rfl⟩
    · rename_i d ds hd
      have hgood := hi.socket h d (by rw [hd]; exact List.mem_cons_self)
      obtain ⟨hinv, hread, hpc, hsound⟩ :=
        hostInv_callBack (hi.host h) (not_not.mp hfree) hgood buffer
      exact ⟨hi.taken hd hinv hread hpc,
        forall_put (P := fun g s => s.aborted = (n.host g).aborted) hsound fun _ _ => rfl⟩

/-- **Every step keeps the invariant**, and only `Receive` for a box that is not there fails an
`ASSERT`. -/
theorem inv_step {e : NetEvent} (hi : NetInv numBoxes n) (hg : Addressed numBoxes n e)
    (hs : n.step numBoxes e = some n') :
    NetInv numBoxes n' ∧
      (BoxInRange numBoxes e → ∀ g, (n'.host g).aborted = (n.host g).aborted) := by
  have hkeeps : NetKeeps numBoxes n n' →
      NetInv numBoxes n' ∧
        (BoxInRange numBoxes e → ∀ g, (n'.host g).aborted = (n.host g).aborted) :=
    fun hk => ⟨hk.inv, fun _ => hk.sound⟩
  unfold Net.step at hs
  split at hs
  · exact absurd hs (by simp)
  cases e with
  | send h t pktHdr mailHdr data buffer => exact hkeeps (keeps_callSend hi hg hs)
  | receive h t box =>
      obtain ⟨hinv, hk⟩ := inv_callReceive hi hs
      exact ⟨hinv, fun hin => (hk hin).sound⟩
  | go h t lost buffer => exact hkeeps (keeps_go hi hs)
  | work h mem =>
      obtain ⟨s', hs', rfl⟩ := Option.map_eq_some_iff.mp hs
      exact hkeeps (hi.keeps (keeps_work (hi.host h) hs'))
  | poll h buffer =>
      obtain rfl := Option.some.inj hs
      exact hkeeps (keeps_poll hi buffer)
  | sent h =>
      dsimp only at hs
      split at hs
      · obtain rfl := Option.some.inj hs
        exact hkeeps (hi.keeps (keeps_callBackSent (hi.host h)))
      · exact absurd hs (by simp)
  | lose h i =>
      obtain rfl := Option.some.inj hs
      exact hkeeps ⟨hi.lose h i, fun _ => rfl⟩

theorem netInv_reachBy (hr : (Net.sys numBoxes).ReachBy (Addressed numBoxes) n) :
    NetInv numBoxes n :=
  hr.invariant (fun _ => netInv_init) fun _ _ _ _ hi hg hs => (inv_step hi hg hs).1

/-! ## What callers get -/

/-- The letters that callers of `Receive` have got from box `b` of machine `h`. -/
def Net.got (n : Net) (h : BitVec 32) (b : Nat) : List Letter :=
  ((n.host h).received b).map fun r => (n.host h).letter r.1

/-- Everything that the device has read from the socket is in a mail, in the buffer of the postal
worker or in the device, and unchanged; and the mails are in their boxes, or have been, but for the
one that is being appended. -/
structure Host.Whole (s : Host) : Prop where
  read : s.read = (List.range s.allocated).map s.letter ++ s.inHand.toList ++ s.arrived.toList
  mails : ∀ p, p < s.allocated → (s.letter p).In (s.mail p) ∧
    (p ∈ (s.boxes (s.letter p).box).appended ∨ ((s.boxes (s.letter p).box).pc 0).bringing = some p)
  inHand : ∀ l, s.inHand = some l → ∃ hdr, s.worker = .deliver hdr ∧ Packed hdr s.buffer l
  arrived : ∀ l, s.arrived = some l → Packed s.inHdr s.inbox l

theorem HostInv.whole {s : Host} (hi : HostInv numBoxes h s) : s.Whole where
  read := hi.read
  mails := fun p hp => ⟨(hi.mails p hp).1, (hi.boxes _).all p hp rfl⟩
  inHand := by
    intro l hl
    rcases hi.hand with ⟨hnone, -⟩ | ⟨m, hdr, hw, hm, hpack, -⟩
    · exact absurd (hnone.symm.trans hl) (by simp)
    · rw [← Option.some.inj (hm.symm.trans hl)]
      exact ⟨hdr, hw, hpack⟩
  arrived := by
    intro l hl
    rcases hi.device with ⟨-, hnone, -⟩ | ⟨m, hm, hpack, -⟩
    · exact absurd (hnone.symm.trans hl) (by simp)
    · rw [← Option.some.inj (hm.symm.trans hl)]
      exact hpack

/-- **In the order in which they came**, and from the box they are for. -/
theorem NetInv.got_sublist (hi : NetInv numBoxes n) (h : BitVec 32) (b : Nat) :
    (n.got h b).Sublist ((n.host h).read.filter fun l => l.box = b) := by
  have hsub := (((hi.host h).boxes b).got_sublist).map (n.host h).letter
  have hgot : n.got h b = (((n.host h).received b).map Prod.fst).map (n.host h).letter := by
    rw [List.map_map]
    rfl
  have hfilter : ((List.range (n.host h).allocated).filter fun p =>
        decide (((n.host h).letter p).box = b)).map (n.host h).letter =
      ((List.range (n.host h).allocated).map (n.host h).letter).filter fun l => l.box = b := by
    rw [List.filter_map]
    rfl
  rw [hgot, (hi.host h).read, List.append_assoc]
  rw [hfilter] at hsub
  exact hsub.trans ((List.sublist_append_left _ _).filter _)

theorem NetInv.read_sublist (hi : NetInv numBoxes n) (h : BitVec 32) :
    (n.host h).read.Sublist (n.posted h) :=
  (List.sublist_append_left _ _).trans (hi.order h)

theorem NetInv.mem_got (hi : NetInv numBoxes n) {b : Nat} {l : Letter} (hl : l ∈ n.got h b) :
    n.sends[l.number]? = some l ∧ l.dest = h ∧ l.box = b := by
  obtain ⟨hread, hbox⟩ := List.mem_filter.mp ((hi.got_sublist h b).subset hl)
  obtain ⟨hsent, hdest⟩ := hi.posted h l ((hi.read_sublist h).subset hread)
  exact ⟨hsent, hdest, of_decide_eq_true hbox⟩

/--
**Mail is delivered at most once, in order and unchanged.**

Let any number of machines run, and their threads call `Send` for messages that are not too long
and boxes that there are. Whatever the order in which threads, postal workers and devices take their
steps, and whichever datagrams get lost, at any time

* what was read from the socket of a machine, and then got from one of its boxes, are messages sent
  to this machine and this box, in the order in which they came;
* no message is got twice, from whichever boxes;
* who gets a message gets the name of the machine that sent it, the mail header and all of the data
  that were passed to `Send`;
* what a device has read is not overwritten before it is in its mailbox.
-/
theorem mail_delivered (numBoxes : BitVec 32 → Int) (n : Net)
    (hr : (Net.sys numBoxes).ReachBy (Addressed numBoxes) n) :
    (∀ h, (n.host h).read.Sublist (n.posted h) ∧
      ∀ l ∈ n.posted h, n.sends[l.number]? = some l ∧ l.dest = h) ∧
    (∀ h b, (n.got h b).Sublist ((n.host h).read.filter fun l => l.box = b) ∧
      ((n.got h b).map Letter.number).Nodup ∧
      ∀ l ∈ n.got h b, ∀ h' b', ∀ l' ∈ n.got h' b', l.number = l'.number → h = h' ∧ b = b') ∧
    (∀ h b, ∀ r ∈ (n.host h).received b, ∀ l, (n.host h).letter r.1 = l →
      n.sends[l.number]? = some l ∧ r.2.pktHdr.from_ = l.source ∧ r.2.mailHdr = l.mailHdr ∧
      ∀ k, k < l.mailHdr.length.toNat → r.2.data k = l.data k) ∧
    ∀ h, (n.host h).Whole := by
  have hi := netInv_reachBy hr
  refine ⟨fun h => ⟨hi.read_sublist h, hi.posted h⟩, fun h b => ⟨hi.got_sublist h b, ?_, ?_⟩,
    ?_, fun h =>
    (hi.host h).whole⟩
  · have hsub : (n.got h b).Sublist (n.posted h) :=
      ((hi.got_sublist h b).trans List.filter_sublist).trans (hi.read_sublist h)
    exact (hi.once h).sublist (hsub.map Letter.number)
  · intro l hl h' b' l' hl' hnum
    obtain ⟨hsent, hdest, hbox⟩ := hi.mem_got hl
    obtain ⟨hsent', hdest', hbox'⟩ := hi.mem_got hl'
    have heq : l = l' := by
      rw [hnum, hsent'] at hsent
      exact (Option.some.inj hsent).symm
    rw [heq] at hdest hbox
    exact ⟨hdest.symm.trans hdest', hbox.symm.trans hbox'⟩
  · rintro h b r hr l rfl
    have hmem : (n.host h).letter r.1 ∈ n.got h b := List.mem_map_of_mem hr
    have hin := (hi.host h).received b r hr
    exact ⟨(hi.mem_got hmem).1, by rw [hin.pktHdr]; rfl, hin.mailHdr, hin.data⟩

/-- Thread 0 of machine 1 sends two bytes to box 3 of machine 2, and thread 0 of machine 2 gets
them. -/
def hello : List NetEvent :=
  [.send 1#32 0 ⟨2#32, 0#32, 0#32⟩ ⟨3#32, 0#32, 2#32⟩ (fun _ => 65) (fun _ => 0),
    .go 1#32 0 false (fun _ => 0), .go 1#32 0 false (fun _ => 0), .poll 2#32 (fun _ => 0)] ++
  List.replicate 9 (.work 2#32 fun _ => 0) ++ [.receive 2#32 0 3] ++
  List.replicate 6 (.go 2#32 0 false fun _ => 0)

/-- Nothing has happened yet. -/
def silence : Net where
  host := fun _ => Host.new 0#32 0#32 (fun _ => 0) (fun _ => 0)
    (fun _ => ⟨⟨0#32, 0#32, 0#32⟩, ⟨0#32, 0#32, 0#32⟩, fun _ => 0⟩)
    (fun _ => ⟨0, 0#32, 0#32, ⟨0#32, 0#32, 0#32⟩, fun _ => 0⟩)
  socket := fun _ => []
  posted := fun _ => []
  sends := []

/-- What it gets comes from machine 1. -/
theorem hello_delivered : ∃ n, (Net.sys fun _ => 10).ReachBy (Addressed fun _ => 10) n ∧
    ∃ r ∈ (n.host 2#32).received 3, r.2.pktHdr.from_ = 1#32 ∧ r.2.data 1 = 65 := by
  obtain ⟨n, hrun, r, hr, hsource, hlen, hdata⟩ : ∃ n,
      (Net.sys fun _ => 10).runBy (Addressed fun _ => 10) silence hello = some n ∧
      ∃ r ∈ (n.host 2#32).received 3, ((n.host 2#32).letter r.1).source = 1#32 ∧
        ((n.host 2#32).letter r.1).mailHdr.length.toNat = 2 ∧
        ((n.host 2#32).letter r.1).data 1 = 65 :=
    ⟨_, rfl, _, List.mem_cons_self, rfl, rfl, rfl⟩
  have hstart : (Net.sys fun _ => 10).init silence :=
    ⟨rfl, rfl, rfl, fun _ => ⟨_, _, _, _, _, _, rfl⟩⟩
  have hreach := Base.System.ReachBy.runBy hello (.init hstart) hrun
  obtain ⟨-, -, hgot, -⟩ := mail_delivered (fun _ => 10) n hreach
  obtain ⟨-, hfrom, -, hsame⟩ := hgot 2#32 3 r hr _ rfl
  exact ⟨n, hreach, r, hr, hfrom.trans hsource, (hsame 1 (by omega)).trans hdata⟩

/-- **Nobody stops**, as long as `Receive` is called for boxes that there are: no check of a post
office or of a mailbox fails, on any machine. -/
theorem nobody_stops (hr : (Net.sys numBoxes).ReachBy
    (fun n e => Addressed numBoxes n e ∧ BoxInRange numBoxes e) n) (h : BitVec 32) :
    (n.host h).aborted = false ∧ ∀ b, ((n.host h).boxes b).asserts = true := by
  refine ⟨?_, fun b => (((netInv_reachBy (hr.mono fun _ _ hg => hg.1)).host h).boxes b).inv.asserts⟩
  revert h
  refine hr.invariant (I := fun n => ∀ h, (n.host h).aborted = false) ?_ ?_
  · rintro n ⟨-, -, -, hhost⟩ h
    obtain ⟨to_, from_, inbox, buffer, mail, letter, hh⟩ := hhost h
    rw [hh]
    rfl
  · intro n e n' hr hsound hg hs h
    have hi := netInv_reachBy (hr.mono fun _ _ hg => hg.1)
    rw [(inv_step hi hg.1 hs).2 hg.2 h]
    exact hsound h

end Nachos.Network
