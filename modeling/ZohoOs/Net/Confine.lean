/-
  ZohoOs.Net.Confine — what the handlers of a received frame read.

  Every handler trusts the length it is given, and `net_handle_ipv4` takes that
  length from the IP header alone: nothing compares it with the length of the
  frame.  `received_frame_confined_iff` says which frames are read, and passed
  on, inside their bytes only; in an echo request whose total length claims
  more bytes than arrived, the reply carries memory behind the frame.
-/
import ZohoOs.Net.Handle

namespace ZohoOs

open ZohoOs.Lib

/-! ## §1. Inside the frame. -/

/-- What the event reads, or passes to a handler as payload, lies inside the
    `len` bytes at `base`. -/
def NetEvent.Inside (base : Word) (len : Nat) : NetEvent → Prop
  | .read p n => (p - base).toNat + n ≤ len
  | .udpHandler _ _ _ _ data n => (data - base).toNat + n.toNat ≤ len
  | .tcpHandler _ _ _ _ _ data n => (data - base).toNat + n.toNat ≤ len
  | .buffer _ _ => True
  | .send _ => True
  | .poll => True

section

variable {base p : Word} {o len : Nat}

theorem Lib.At.read_inside (h : At base p o) (n : Nat) :
    (NetEvent.read p n).Inside base len ↔ o + n ≤ len := by
  show (p - base).toNat + n ≤ len ↔ _
  rw [h]

variable (mem : Mem)

theorem Lib.At.readMem8_inside (h : At base p o) :
    (readMem8 mem p).All (NetEvent.Inside base len) ↔ o + 1 ≤ len :=
  (Logged.all_singleton _ _).trans (h.read_inside 1)

theorem Lib.At.readMem16_inside (h : At base p o) :
    (readMem16 mem p).All (NetEvent.Inside base len) ↔ o + 2 ≤ len :=
  (Logged.all_singleton _ _).trans (h.read_inside 2)

theorem Lib.At.readMem32_inside (h : At base p o) :
    (readMem32 mem p).All (NetEvent.Inside base len) ↔ o + 4 ≤ len :=
  (Logged.all_singleton _ _).trans (h.read_inside 4)

theorem Lib.At.readMem48_inside (h : At base p o) :
    (readMem48 mem p).All (NetEvent.Inside base len) ↔ o + 6 ≤ len :=
  (Logged.all_singleton _ _).trans (h.read_inside 6)

theorem Lib.At.readMemBytes_inside (h : At base p o) (n : Nat) :
    (readMemBytes mem p n).All (NetEvent.Inside base len) ↔ o + n ≤ len :=
  (Logged.all_singleton _ _).trans (h.read_inside n)

end

@[simp] theorem val_readMem8 (mem : Mem) (p : Word) : (readMem8 mem p).val = mem.load8 p := rfl

@[simp] theorem val_readMem16 (mem : Mem) (p : Word) : (readMem16 mem p).val = mem.load16 p := rfl

@[simp] theorem val_readMem32 (mem : Mem) (p : Word) : (readMem32 mem p).val = mem.load32 p := rfl

@[simp] theorem log_readMem8 (mem : Mem) (p : Word) : (readMem8 mem p).log = [.read p 1] := rfl

@[simp] theorem log_readMem32 (mem : Mem) (p : Word) : (readMem32 mem p).log = [.read p 4] := rfl

theorem all_traced {α : Type} {P : NetEvent → Prop} (x : NetM α) : (traced x).All P ↔ x.All P := by
  show (x >>= fun _ => (pure () : NetM Unit)).All P ↔ _
  rw [Logged.all_bind]
  exact and_iff_left (Logged.all_pure _)

/-! ## §2. The send path reads nothing of the frame. -/

/-- The event touches the received frame not at all. -/
def NetEvent.Outgoing : NetEvent → Prop
  | .buffer _ _ => True
  | .send _ => True
  | .poll => True
  | _ => False

theorem NetEvent.Outgoing.inside (base : Word) (len : Nat) (e : NetEvent) (h : e.Outgoing) :
    e.Inside base len := by
  cases e with
  | read => exact h.elim
  | buffer => exact h
  | send => exact h
  | poll => exact h
  | udpHandler => exact h.elim
  | tcpHandler => exact h.elim

theorem netSendEth_outgoing (net : Net) (destMac : BitVec 48) (type : BitVec 16)
    (data : List (BitVec 8)) : (netSendEth net destMac type data).All NetEvent.Outgoing := by
  unfold netSendEth
  rw [Logged.all_tell_bind, Logged.all_tell_bind]
  exact ⟨trivial, trivial, Logged.all_pure _⟩

theorem netSendIpv4_outgoing (net : Net) (destIp : BitVec 32) (destMac : BitVec 48)
    (proto : BitVec 8) (data : List (BitVec 8)) :
    (netSendIpv4 net destIp destMac proto data).All NetEvent.Outgoing := by
  unfold netSendIpv4
  rw [Logged.all_tell_bind]
  exact ⟨trivial, netSendEth_outgoing _ _ _ _⟩

theorem arpWait_outgoing (wait : PollWait) (net : Net) (ip : BitVec 32) :
    (arpWait wait net ip).All NetEvent.Outgoing := by
  induction wait generalizing net with
  | nil => exact Logged.all_pure _
  | cons poll rest ih =>
    unfold arpWait
    rw [Logged.all_tell_bind]
    refine ⟨trivial, ?_⟩
    cases arpLookup (poll net) ip with
    | some mac => exact Logged.all_pure _
    | none => exact ih (poll net)

theorem tcpTargetMac_outgoing (wait : PollWait) (net : Net) (ip : BitVec 32) :
    (tcpTargetMac wait net ip).All NetEvent.Outgoing := by
  unfold tcpTargetMac
  cases arpLookup net ip with
  | some mac => exact Logged.all_pure _
  | none => exact Logged.All.bind (netSendEth_outgoing _ _ _ _) (arpWait_outgoing _ _ _)

theorem netSendTcp_outgoing (wait : PollWait) (net : Net) (targetIp : BitVec 32)
    (srcPort dstPort : BitVec 16) (seq ack : BitVec 32) (flags : BitVec 8)
    (data : List (BitVec 8)) :
    (netSendTcp wait net targetIp srcPort dstPort seq ack flags data).All NetEvent.Outgoing := by
  unfold netSendTcp
  apply Logged.All.bind (tcpTargetMac_outgoing _ _ _)
  cases (tcpTargetMac wait net targetIp).val.1 with
  | none => exact Logged.all_pure _
  | some mac =>
    unfold netSendTcpTo
    rw [Logged.all_tell_bind]
    exact ⟨trivial, netSendIpv4_outgoing _ _ _ _ _⟩

theorem netSendUdp_outgoing (net : Net) (targetIp : BitVec 32) (srcPort dstPort : BitVec 16)
    (data : List (BitVec 8)) :
    (netSendUdp net targetIp srcPort dstPort data).All NetEvent.Outgoing := by
  unfold netSendUdp
  cases if targetIp = 0xFFFFFFFF then some broadcastMac else arpLookup net targetIp with
  | none => exact Logged.all_pure _
  | some mac =>
    rw [Logged.all_tell_bind]
    exact ⟨trivial, netSendIpv4_outgoing _ _ _ _ _⟩

theorem outgoing_inside {α : Type} {x : NetM α} (base : Word) (len : Nat)
    (h : x.All NetEvent.Outgoing) : x.All (NetEvent.Inside base len) :=
  h.mono (NetEvent.Outgoing.inside base len)

/-! ## §3. ARP and ICMP. -/

section

variable {base data : Word} {o L : Nat} (mem : Mem) (net : Net)

/-- An ARP packet is read inside the length that was checked. -/
theorem netHandleArp_inside (h : At base data o) (hL : L < 2 ^ 32) {len : BitVec 16}
    (hlen : o + len.toNat ≤ L) :
    (netHandleArp net mem data len).All (NetEvent.Inside base L) := by
  unfold netHandleArp
  by_cases hshort : len.toNat < sizeofArp
  · rw [if_pos hshort]
    exact Logged.all_pure _
  have hsize : 28 ≤ len.toNat := Nat.le_of_not_lt hshort
  have hat : ∀ k, k < 28 → At base (data + BitVec.ofNat 64 k) (o + k) := fun k hk =>
    h.add k (by omega)
  rw [if_neg hshort]
  apply Logged.All.bind ((h.readMem16_inside mem).mpr (by omega))
  apply Logged.All.bind (((hat 2 (by omega)).readMem16_inside mem).mpr (by omega))
  rw [Logged.all_ite]
  refine ⟨fun _ => Logged.all_pure _, fun _ => ?_⟩
  apply Logged.All.bind (((hat 8 (by omega)).readMem48_inside mem).mpr (by omega))
  apply Logged.All.bind (((hat 14 (by omega)).readMem32_inside mem).mpr (by omega))
  apply Logged.All.bind (((hat 6 (by omega)).readMem16_inside mem).mpr (by omega))
  apply Logged.All.bind (((hat 24 (by omega)).readMem32_inside mem).mpr (by omega))
  rw [Logged.all_ite]
  exact ⟨fun _ => outgoing_inside base L (netSendEth_outgoing _ _ _ _), fun _ => Logged.all_pure _⟩

/-- **What fits of an ICMP message** of `len` bytes at offset `o`: its type, and
    an echo request as a whole. -/
def IcmpFits (data : Word) (len o L : Nat) : Prop :=
  len < sizeofIcmp ∨
    o + 1 ≤ L ∧ (mem.load8 data = icmpTypeEchoRequest → o + len ≤ L)

instance (data : Word) (len o L : Nat) : Decidable (IcmpFits mem data len o L) :=
  inferInstanceAs (Decidable (_ ∨ _))

theorem netHandleIcmp_inside (h : At base data o) {srcMac ip : Word} {oMac oIp : Nat}
    (hmac : At base srcMac oMac) (hmacL : oMac + 6 ≤ L) (hip : At base ip oIp)
    (hipL : oIp + 20 ≤ L) (hL : L < 2 ^ 32) (len : BitVec 16) :
    (netHandleIcmp net mem srcMac ip data len).All (NetEvent.Inside base L) ↔
      IcmpFits mem data len.toNat o L := by
  have hsrc : At base (ip + BitVec.ofNat 64 12) (oIp + 12) := hip.add 12 (by omega)
  unfold netHandleIcmp IcmpFits
  by_cases hshort : len.toNat < sizeofIcmp
  · rw [if_pos hshort]
    exact iff_of_true (Logged.all_pure _) (.inl hshort)
  rw [if_neg hshort, Logged.all_bind, h.readMem8_inside, or_iff_right hshort]
  refine and_congr_right fun _ => ?_
  rw [val_readMem8, Logged.all_ite]
  constructor
  · intro hall htype
    have hcopy := ((Logged.all_bind _ _).mp (hall.1 htype)).1
    exact (h.readMemBytes_inside mem len.toNat).mp hcopy
  · intro hfit
    refine ⟨fun htype => ?_, fun _ => ?_⟩
    · apply Logged.All.bind ((h.readMemBytes_inside mem len.toNat).mpr (hfit htype))
      rw [Logged.all_tell_bind]
      refine ⟨trivial, ?_⟩
      apply Logged.All.bind ((hsrc.readMem32_inside mem).mpr (by omega))
      apply Logged.All.bind ((hmac.readMem48_inside mem).mpr hmacL)
      exact outgoing_inside base L (netSendIpv4_outgoing _ _ _ _ _)
    · rw [Logged.all_ite]
      refine ⟨fun _ => ?_, fun _ => Logged.all_pure _⟩
      apply Logged.All.bind ((hsrc.readMem32_inside mem).mpr (by omega))
      exact Logged.all_pure _

end

/-! ## §4. DHCP and UDP. -/

/-- Where the option loop of `dhcp_handle` finds an option, from offset `opt`
    on. -/
def dhcpOptionStarts (mem : Mem) (data : Word) (len opt : Nat) : List Nat :=
  if opt < len then
    if mem.load8 (data + BitVec.ofNat 64 opt) = dhcpOptEnd then []
    else opt :: dhcpOptionStarts mem data len
      (opt + 2 + (mem.load8 (data + BitVec.ofNat 64 (opt + 1))).toNat)
  else []
termination_by len - opt

/-- How many bytes of an option the loop reads: type and length, the message
    type, the server address. -/
def dhcpOptionSpan (type : BitVec 8) : Nat :=
  if type = dhcpOptMsgType then 3 else if type = dhcpOptServer then 6 else 2

/-- The option loop does nothing but read. -/
theorem dhcpOptions_all {P : NetEvent → Prop} (hread : ∀ p n, P (.read p n)) (mem : Mem)
    (data : Word) (len opt : Nat) (msgType : BitVec 8) (serverIp : BitVec 32) :
    (dhcpOptions mem data len opt msgType serverIp).All P := by
  induction hleft : len - opt using Nat.strong_induction_on generalizing opt msgType serverIp with
  | _ left ih =>
    unfold dhcpOptions
    by_cases hlt : opt < len
    · have hrest := fun m s n => ih (len - (opt + 2 + n)) (by omega) (opt + 2 + n) m s rfl
      rw [if_pos hlt]
      apply Logged.All.bind ((Logged.all_singleton _ _).mpr (hread _ _))
      rw [Logged.all_ite]
      refine ⟨fun _ => Logged.all_pure _, fun _ => ?_⟩
      apply Logged.All.bind ((Logged.all_singleton _ _).mpr (hread _ _))
      rw [Logged.all_ite]
      refine ⟨fun _ => ?_, fun _ => ?_⟩
      · exact Logged.All.bind ((Logged.all_singleton _ _).mpr (hread _ _)) (hrest _ _ _)
      · rw [Logged.all_ite]
        refine ⟨fun _ => ?_, fun _ => hrest _ _ _⟩
        exact Logged.All.bind ((Logged.all_singleton _ _).mpr (hread _ _)) (hrest _ _ _)
    · rw [if_neg hlt]
      exact Logged.all_pure _

/-- `dhcp_handle` reads, and answers an OFFER in its transaction. -/
theorem dhcpHandle_all {P : NetEvent → Prop} (hread : ∀ p n, P (.read p n)) {net : Net} {mem : Mem}
    {data : Word} {len : BitVec 16}
    (hrequest : ∀ net', sizeofDhcp ≤ len.toNat → mem.load8 data = dhcpBootreply →
      ntohl (mem.load32 (data + 236)) = dhcpMagicCookie →
      mem.load32 (data + 4) = htonl net.dhcpXid →
      (dhcpOptions mem data len.toNat sizeofDhcp 0 net.dhcpServerIp).val.1 = dhcpMsgOffer →
        (dhcpRequest net').All P) : (dhcpHandle net mem data len).All P := by
  have hone : ∀ {α : Type} (a : α) p n, (⟨a, [.read p n]⟩ : NetM α).All P :=
    fun a p n => (Logged.all_singleton a _).mpr (hread p n)
  unfold dhcpHandle
  rw [Logged.all_ite]
  refine ⟨fun _ => Logged.all_pure _, fun hlong => ?_⟩
  apply Logged.All.bind (hone _ _ _)
  apply Logged.All.bind (hone _ _ _)
  rw [Logged.all_ite]
  refine ⟨fun _ => Logged.all_pure _, fun hreply => ?_⟩
  obtain ⟨hop, hmagic⟩ := not_or.mp hreply
  apply Logged.All.bind (hone _ _ _)
  rw [Logged.all_ite]
  refine ⟨fun _ => Logged.all_pure _, fun hxid => ?_⟩
  apply Logged.All.bind (dhcpOptions_all hread _ _ _ _ _ _)
  rw [Logged.all_ite]
  refine ⟨fun hoffer => ?_, fun _ => ?_⟩
  · apply Logged.All.bind (hone _ _ _)
    exact hrequest _ (Nat.le_of_not_lt hlong) (not_not.mp hop) (not_not.mp hmagic)
      (not_not.mp hxid) hoffer
  · rw [Logged.all_ite]
    exact ⟨fun _ => Logged.All.bind (hone _ _ _) (Logged.all_pure _), fun _ => Logged.all_pure _⟩

section

variable {base data : Word} {o L : Nat} (mem : Mem) (net : Net)

theorem dhcpOptions_inside (h : At base data o) (hL : L < 2 ^ 32) {len : Nat} (hlen : o + len ≤ L)
    (opt : Nat) (msgType : BitVec 8) (serverIp : BitVec 32) :
    (dhcpOptions mem data len opt msgType serverIp).All (NetEvent.Inside base L) ↔
      ∀ a ∈ dhcpOptionStarts mem data len opt,
        o + a + dhcpOptionSpan (mem.load8 (data + BitVec.ofNat 64 a)) ≤ L := by
  -- the offset grows with every option: induction on the bytes that are left
  induction hleft : len - opt using Nat.strong_induction_on generalizing opt msgType serverIp with
  | _ left ih =>
    unfold dhcpOptions dhcpOptionStarts
    by_cases hlt : opt < len
    · have hat : ∀ k, k < 8 → At base (data + BitVec.ofNat 64 (opt + k)) (o + (opt + k)) :=
        fun k hk => h.add (opt + k) (by omega)
      have hhere : At base (data + BitVec.ofNat 64 opt) (o + opt) := hat 0 (by omega)
      rw [if_pos hlt, if_pos hlt, Logged.all_bind, hhere.readMem8_inside, val_readMem8,
        and_iff_right (by omega)]
      set type := mem.load8 (data + BitVec.ofNat 64 opt) with htype
      by_cases hend : type = dhcpOptEnd
      · rw [if_pos hend, if_pos hend]
        exact iff_of_true (Logged.all_pure _) fun a ha => absurd ha List.not_mem_nil
      rw [if_neg hend, if_neg hend, Logged.all_bind, (hat 1 (by omega)).readMem8_inside,
        val_readMem8, List.forall_mem_cons, ← htype]
      set next := opt + 2 + (mem.load8 (data + BitVec.ofNat 64 (opt + 1))).toNat with hnext
      have hrest := fun m s => ih (len - next) (by omega) next m s rfl
      by_cases hmsg : type = dhcpOptMsgType
      · have hspan : dhcpOptionSpan type = 3 := if_pos hmsg
        rw [if_pos hmsg, Logged.all_bind, (hat 2 (by omega)).readMem8_inside, hrest, hspan,
          ← and_assoc]
        exact and_congr_left' (by omega)
      by_cases hserver : type = dhcpOptServer
      · have hspan : dhcpOptionSpan type = 6 := (if_neg hmsg).trans (if_pos hserver)
        rw [if_neg hmsg, if_pos hserver, Logged.all_bind, (hat 2 (by omega)).readMem32_inside,
          hrest, hspan, ← and_assoc]
        exact and_congr_left' (by omega)
      · have hspan : dhcpOptionSpan type = 2 := (if_neg hmsg).trans (if_neg hserver)
        rw [if_neg hmsg, if_neg hserver, hrest, hspan]
        exact and_congr_left' (by omega)
    · rw [if_neg hlt, if_neg hlt]
      exact iff_of_true (Logged.all_pure _) fun a ha => absurd ha List.not_mem_nil

/-- **What fits of a DHCP message** of `len` bytes at offset `o`: what the option
    loop reads of each option, where the message is a reply to this client. -/
def DhcpFits (data : Word) (len o L : Nat) : Prop :=
  len < sizeofDhcp ∨ mem.load8 data ≠ dhcpBootreply ∨
    ntohl (mem.load32 (data + 236)) ≠ dhcpMagicCookie ∨
    mem.load32 (data + 4) ≠ htonl net.dhcpXid ∨
    ∀ a ∈ dhcpOptionStarts mem data len sizeofDhcp,
      o + a + dhcpOptionSpan (mem.load8 (data + BitVec.ofNat 64 a)) ≤ L

instance (data : Word) (len o L : Nat) : Decidable (DhcpFits mem net data len o L) :=
  inferInstanceAs (Decidable (_ ∨ _))

theorem dhcpRequest_outgoing (net : Net) : (dhcpRequest net).All NetEvent.Outgoing := by
  unfold dhcpRequest
  rw [Logged.all_tell_bind]
  exact ⟨trivial, netSendUdp_outgoing _ _ _ _ _⟩

theorem dhcpHandle_inside (h : At base data o) (hL : L < 2 ^ 32) {len : BitVec 16}
    (hlen : o + len.toNat ≤ L) :
    (dhcpHandle net mem data len).All (NetEvent.Inside base L) ↔
      DhcpFits mem net data len.toNat o L := by
  unfold dhcpHandle DhcpFits
  by_cases hshort : len.toNat < sizeofDhcp
  · rw [if_pos hshort]
    exact iff_of_true (Logged.all_pure _) (.inl hshort)
  have hsize : 240 ≤ len.toNat := Nat.le_of_not_lt hshort
  have hat : ∀ k, k < 240 → At base (data + BitVec.ofNat 64 k) (o + k) := fun k hk =>
    h.add k (by omega)
  have hmagicAt : At base (data + 236) (o + 236) := hat 236 (by omega)
  have hxidAt : At base (data + 4) (o + 4) := hat 4 (by omega)
  rw [if_neg hshort, or_iff_right hshort, Logged.all_bind, h.readMem8_inside,
    and_iff_right (by omega), Logged.all_bind, hmagicAt.readMem32_inside,
    and_iff_right (by omega), val_readMem8, val_readMem32]
  by_cases hop : mem.load8 data ≠ dhcpBootreply
  · rw [if_pos (.inl hop)]
    exact iff_of_true (Logged.all_pure _) (.inl hop)
  by_cases hmagic : ntohl (mem.load32 (data + 236)) ≠ dhcpMagicCookie
  · rw [if_pos (.inr hmagic)]
    exact iff_of_true (Logged.all_pure _) (.inr (.inl hmagic))
  rw [if_neg (not_or.mpr ⟨hop, hmagic⟩), or_iff_right hop, or_iff_right hmagic, Logged.all_bind,
    hxidAt.readMem32_inside, and_iff_right (by omega), val_readMem32]
  by_cases hxid : mem.load32 (data + 4) ≠ htonl net.dhcpXid
  · rw [if_pos hxid]
    exact iff_of_true (Logged.all_pure _) (.inl hxid)
  rw [if_neg hxid, or_iff_right hxid, Logged.all_bind, dhcpOptions_inside mem h hL hlen]
  refine and_iff_left ?_
  -- the rest reads `yiaddr`
  have hyiaddr : (readMem32 mem (data + 16)).All (NetEvent.Inside base L) :=
    ((hat 16 (by omega)).readMem32_inside mem).mpr (by omega)
  rw [Logged.all_ite]
  refine ⟨fun _ => ?_, fun _ => ?_⟩
  · apply Logged.All.bind hyiaddr
    exact outgoing_inside base L (dhcpRequest_outgoing _)
  · rw [Logged.all_ite]
    refine ⟨fun _ => ?_, fun _ => Logged.all_pure _⟩
    apply Logged.All.bind hyiaddr
    exact Logged.all_pure _

/-- **What fits of a UDP datagram** of `len` bytes at offset `o`: its ports and
    length, and, where a handler is bound, the bytes its length field counts. -/
def UdpFits (data : Word) (len : BitVec 16) (o L : Nat) : Prop :=
  len.toNat < sizeofUdp ∨
    o + 6 ≤ L ∧
      ((ntohs (mem.load16 (data + 4))).toNat < sizeofUdp ∨ len < ntohs (mem.load16 (data + 4)) ∨
        udpBound net (ntohs (mem.load16 (data + 2))) = none ∨
        o + (ntohs (mem.load16 (data + 4))).toNat ≤ L ∧
          DhcpFits mem net (data + 8) ((ntohs (mem.load16 (data + 4))).toNat - sizeofUdp)
            (o + sizeofUdp) L)

instance (data : Word) (len : BitVec 16) (o L : Nat) : Decidable (UdpFits mem net data len o L) :=
  inferInstanceAs (Decidable (_ ∨ _))

/-- The handler gets the payload, and reads it. -/
theorem callUdpHandler_inside (h : At base data o) (hL : L < 2 ^ 32) (handler : UdpHandler)
    (srcIp : BitVec 32) (srcPort dstPort : BitVec 16) (len : BitVec 16) :
    (callUdpHandler handler net mem srcIp srcPort dstPort data len).All (NetEvent.Inside base L) ↔
      o + len.toNat ≤ L ∧ DhcpFits mem net data len.toNat o L := by
  unfold callUdpHandler
  have hpair : (NetEvent.udpHandler handler srcIp srcPort dstPort data len).Inside base L ↔
      o + len.toNat ≤ L := by
    show (data - base).toNat + len.toNat ≤ L ↔ _
    rw [h]
  rw [Logged.all_tell_bind, hpair]
  refine and_congr_right fun hlen => ?_
  cases handler with
  | dhcpHandle => exact dhcpHandle_inside mem net h hL hlen

theorem netHandleUdp_inside (h : At base data o) {ip : Word} {oIp : Nat} (hip : At base ip oIp)
    (hipL : oIp + 20 ≤ L) (hL : L < 2 ^ 32) (ho : o < 2 ^ 32) (len : BitVec 16) :
    (netHandleUdp net mem ip data len).All (NetEvent.Inside base L) ↔
      UdpFits mem net data len o L := by
  have hsrc : At base (ip + 12) (oIp + 12) := hip.add 12 (by omega)
  have hat : ∀ k, k < 16 → At base (data + BitVec.ofNat 64 k) (o + k) := fun k hk =>
    h.add k (by omega)
  unfold netHandleUdp UdpFits
  by_cases hshort : len.toNat < sizeofUdp
  · rw [if_pos hshort]
    exact iff_of_true (Logged.all_pure _) (.inl hshort)
  have hdst : At base (data + 2) (o + 2) := hat 2 (by omega)
  have hcount : At base (data + 4) (o + 4) := hat 4 (by omega)
  rw [if_neg hshort, or_iff_right hshort, Logged.all_bind, h.readMem16_inside, Logged.all_bind,
    hdst.readMem16_inside, Logged.all_bind, hcount.readMem16_inside, ← and_assoc, ← and_assoc]
  refine and_congr (by omega) ?_
  rw [val_readMem16, val_readMem16, val_readMem16]
  generalize ntohs (mem.load16 (data + 4)) = udpLen
  by_cases hbad : udpLen.toNat < sizeofUdp ∨ len < udpLen
  · rw [if_pos hbad]
    refine iff_of_true (Logged.all_pure _) ?_
    rw [← or_assoc]
    exact .inl hbad
  rw [if_neg hbad, ← or_assoc, or_iff_right hbad, Logged.all_bind, hsrc.readMem32_inside,
    and_iff_right (by omega)]
  cases udpBound net (ntohs (mem.load16 (data + 2))) with
  | none => exact iff_of_true (Logged.all_pure _) (.inl rfl)
  | some handler =>
    have hsize : 8 ≤ udpLen.toNat := Nat.le_of_not_lt fun hlt => hbad (.inl hlt)
    have hle : BitVec.ofNat 16 sizeofUdp ≤ udpLen := BitVec.le_def.mpr hsize
    have hsub : (udpLen - BitVec.ofNat 16 sizeofUdp).toNat = udpLen.toNat - sizeofUdp :=
      BitVec.toNat_sub_of_le hle
    rw [or_iff_right (Option.some_ne_none handler)]
    have hpay : At base (data + BitVec.ofNat 64 sizeofUdp) (o + sizeofUdp) := hat 8 (by omega)
    have hcall := callUdpHandler_inside mem net hpay hL handler (mem.load32 (ip + 12))
      (ntohs (mem.load16 data)) (ntohs (mem.load16 (data + 2)))
      (udpLen - BitVec.ofNat 16 sizeofUdp)
    rw [hsub] at hcall
    refine hcall.trans (and_congr_left' ?_)
    have h8 : sizeofUdp = 8 := rfl
    omega

end

/-! ## §5. TCP. -/

section

variable {base data : Word} {o L : Nat} (mem : Mem) (net : Net)

/-- `tcp_handle_packet` reads three fields of the segment header, and sends. -/
theorem tcpHandlePacket_all {P : NetEvent → Prop}
    (hsend : ∀ wait net dst sp dp seq ack flags,
      (netSendTcp wait net dst sp dp seq ack flags []).All P)
    {tcp : Word} (hseq : (readMem32 mem (tcp + 4)).All P) (hack : (readMem32 mem (tcp + 8)).All P)
    (hflags : (readMem8 mem (tcp + 13)).All P) (waits : PollWaits) (srcIp : BitVec 32)
    (srcPort dstPort : BitVec 16) :
    (tcpHandlePacket waits net mem srcIp srcPort dstPort tcp).All P := by
  unfold tcpHandlePacket
  cases tcpFind net srcIp srcPort dstPort with
  | none =>
    show (tcpReject _ _ _ _ _ _ _).All _
    unfold tcpReject
    apply Logged.All.bind hflags
    rw [Logged.all_ite]
    refine ⟨fun _ => ?_, fun _ => Logged.all_pure _⟩
    apply Logged.All.bind hseq
    exact hsend _ _ _ _ _ _ _ _
  | some i =>
    apply Logged.All.bind hseq
    apply Logged.All.bind hack
    cases (net.connections i).state with
    | synSent =>
      apply Logged.All.bind hflags
      unfold tcpSynSent
      rw [Logged.all_ite]
      exact ⟨fun _ => hsend _ _ _ _ _ _ _ _, fun _ => Logged.all_pure _⟩
    | established =>
      apply Logged.All.bind hflags
      unfold tcpEstablished
      rw [Logged.all_ite]
      refine ⟨fun _ => ?_, fun _ => Logged.all_pure _⟩
      apply Logged.All.bind (hsend _ _ _ _ _ _ _ _)
      apply Logged.All.bind (hsend _ _ _ _ _ _ _ _)
      exact Logged.all_pure _
    | lastAck =>
      apply Logged.All.bind hflags
      exact Logged.all_pure _
    | _ => exact Logged.all_pure _

theorem tcpHandlePacket_inside (h : At base data o) (hfit : o + 20 ≤ L) (hL : L < 2 ^ 32)
    (waits : PollWaits) (srcIp : BitVec 32) (srcPort dstPort : BitVec 16) :
    (tcpHandlePacket waits net mem srcIp srcPort dstPort data).All (NetEvent.Inside base L) := by
  have hat : ∀ k, k < 20 → At base (data + BitVec.ofNat 64 k) (o + k) := fun k hk =>
    h.add k (by omega)
  apply tcpHandlePacket_all mem net fun _ _ _ _ _ _ _ _ =>
    outgoing_inside base L (netSendTcp_outgoing _ _ _ _ _ _ _ _ _)
  · exact ((hat 4 (by omega)).readMem32_inside mem).mpr (by omega)
  · exact ((hat 8 (by omega)).readMem32_inside mem).mpr (by omega)
  · exact ((hat 13 (by omega)).readMem8_inside mem).mpr (by omega)

/-- **What fits of a TCP segment** of `len` bytes at offset `o`: its ports and
    data offset, its flags, and, where a handler is bound, the whole. -/
def TcpFits (data : Word) (len : BitVec 16) (o L : Nat) : Prop :=
  len.toNat < sizeofTcp ∨
    o + 13 ≤ L ∧
      ((tcpHeaderLen (mem.load8 (data + 12))).toNat < sizeofTcp ∨
        len.toNat < (tcpHeaderLen (mem.load8 (data + 12))).toNat ∨
        o + 14 ≤ L ∧ (tcpBound net (ntohs (mem.load16 (data + 2))) = none ∨ o + len.toNat ≤ L))

instance (data : Word) (len : BitVec 16) (o L : Nat) : Decidable (TcpFits mem net data len o L) :=
  inferInstanceAs (Decidable (_ ∨ _))

/-- The handler gets segment and payload. -/
theorem callTcpHandler_inside (h : At base data o) (hL : L < 2 ^ 32) {payload : Word} {k : Nat}
    (hpay : At base payload (o + k)) (handler : TcpHandler) (waits : PollWaits)
    (srcIp : BitVec 32) (srcPort dstPort : BitVec 16) (len : BitVec 16)
    (hsize : sizeofTcp ≤ k + len.toNat) :
    (callTcpHandler handler waits net mem srcIp srcPort dstPort data payload len).All
        (NetEvent.Inside base L) ↔ o + (k + len.toNat) ≤ L := by
  unfold callTcpHandler
  have hpair : (NetEvent.tcpHandler handler srcIp srcPort dstPort data payload len).Inside base L ↔
      o + (k + len.toNat) ≤ L := by
    show (payload - base).toNat + len.toNat ≤ L ↔ _
    rw [hpay, Nat.add_assoc]
  rw [Logged.all_tell_bind, hpair]
  refine and_iff_left_of_imp fun hlen => ?_
  have h20 : sizeofTcp = 20 := rfl
  cases handler with
  | tcpHandlePacket => exact tcpHandlePacket_inside mem net h (by omega) hL waits srcIp _ _

theorem netHandleTcp_inside (h : At base data o) {ip : Word} {oIp : Nat} (hip : At base ip oIp)
    (hipL : oIp + 20 ≤ L) (hL : L < 2 ^ 32) (ho : o < 2 ^ 32) (waits : PollWaits)
    (len : BitVec 16) :
    (netHandleTcp waits net mem ip data len).All (NetEvent.Inside base L) ↔
      TcpFits mem net data len o L := by
  have hsrc : At base (ip + 12) (oIp + 12) := hip.add 12 (by omega)
  have hdst : At base (data + 2) (o + 2) := h.add 2 (by omega)
  have hoff : At base (data + 12) (o + 12) := h.add 12 (by omega)
  have hflags : At base (data + 13) (o + 13) := h.add 13 (by omega)
  unfold netHandleTcp TcpFits
  by_cases hshort : len.toNat < sizeofTcp
  · rw [if_pos hshort]
    exact iff_of_true (Logged.all_pure _) (.inl hshort)
  rw [if_neg hshort, or_iff_right hshort, Logged.all_bind, h.readMem16_inside, Logged.all_bind,
    hdst.readMem16_inside, Logged.all_bind, hoff.readMem8_inside, ← and_assoc, ← and_assoc]
  refine and_congr (by omega) ?_
  rw [val_readMem16, val_readMem16, val_readMem8]
  -- the header's length is one byte wide, so it is compared as a number
  generalize tcpHeaderLen (mem.load8 (data + 12)) = headerLen
  have hwide : (headerLen.setWidth 16).toNat = headerLen.toNat :=
    BitVec.toNat_setWidth_of_le (by decide)
  have hbad : ((headerLen.setWidth 16).toNat < sizeofTcp ∨ len < headerLen.setWidth 16) ↔
      headerLen.toNat < sizeofTcp ∨ len.toNat < headerLen.toNat := by
    rw [BitVec.lt_def, hwide]
  dsimp only
  by_cases hsize : headerLen.toNat < sizeofTcp ∨ len.toNat < headerLen.toNat
  · rw [if_pos (hbad.mpr hsize), ← or_assoc]
    exact iff_of_true (Logged.all_pure _) (.inl hsize)
  rw [if_neg (hbad.not.mpr hsize), ← or_assoc, or_iff_right hsize, Logged.all_bind,
    hsrc.readMem32_inside, and_iff_right (by omega), Logged.all_bind, all_traced,
    hflags.readMem8_inside]
  refine and_congr_right fun _ => ?_
  cases tcpBound net (ntohs (mem.load16 (data + 2))) with
  | none => exact iff_of_true (Logged.all_pure _) (.inl rfl)
  | some handler =>
    -- the payload starts behind the header, and is what the length leaves
    have h20 : sizeofTcp = 20 := rfl
    have hle : headerLen.setWidth 16 ≤ len := by
      rw [BitVec.le_def, hwide]
      omega
    have hsub : (len - headerLen.setWidth 16).toNat = len.toNat - headerLen.toNat := by
      rw [BitVec.toNat_sub_of_le hle, hwide]
    have hpay : At base (data + (headerLen.setWidth 16).setWidth 64) (o + headerLen.toNat) := by
      have hbyte := headerLen.isLt
      have hptr : (headerLen.setWidth 16).setWidth 64 = BitVec.ofNat 64 headerLen.toNat := by
        apply BitVec.eq_of_toNat_eq
        rw [BitVec.toNat_setWidth_of_le (by decide), hwide, BitVec.toNat_ofNat]
        omega
      rw [hptr]
      exact h.add headerLen.toNat (by omega)
    have hcall := callTcpHandler_inside mem net h hL hpay handler waits (mem.load32 (ip + 12))
      (ntohs (mem.load16 data)) (ntohs (mem.load16 (data + 2))) (len - headerLen.setWidth 16)
      (by omega)
    rw [or_iff_right (Option.some_ne_none handler)]
    refine hcall.trans ?_
    rw [hsub]
    omega

end

/-! ## §6. Frames. -/

/-- The payload length of an IPv4 packet, from its header alone. -/
def ipv4PayloadLen (mem : Mem) (ip : Word) : BitVec 16 :=
  ntohs (mem.load16 (ip + 2)) - ipv4HeaderLen (mem.load8 ip)

/-- **What fits of an IPv4 packet**: the message behind its header, at offset `o`
    of a frame of `L` bytes, where the protocol is one of the three. -/
def MessageFits (net : Net) (mem : Mem) (ip : Word) (o L : Nat) : Prop :=
  let message := ip + (ipv4HeaderLen (mem.load8 ip)).setWidth 64
  (mem.load8 (ip + 9) = ipv4ProtoIcmp →
      IcmpFits mem message (ipv4PayloadLen mem ip).toNat o L) ∧
    (mem.load8 (ip + 9) = ipv4ProtoUdp → UdpFits mem net message (ipv4PayloadLen mem ip) o L) ∧
    (mem.load8 (ip + 9) = ipv4ProtoTcp → TcpFits mem net message (ipv4PayloadLen mem ip) o L)

instance (net : Net) (mem : Mem) (ip : Word) (o L : Nat) : Decidable (MessageFits net mem ip o L) :=
  inferInstanceAs (Decidable (_ ∧ _))

theorem ihl_le (versionIhl : BitVec 8) : (versionIhl &&& 0x0F).toNat ≤ 15 := by
  rw [BitVec.toNat_and]
  exact Nat.and_le_right

theorem ipv4HeaderLen_toNat (versionIhl : BitVec 8) :
    (ipv4HeaderLen versionIhl).toNat = (versionIhl &&& 0x0F).toNat * 4 := by
  have hlow := ihl_le versionIhl
  unfold ipv4HeaderLen
  rw [BitVec.toNat_mul, BitVec.toNat_setWidth_of_le (by decide)]
  show (versionIhl &&& 0x0F).toNat * 4 % 65536 = _
  omega

/-- The offset of the message behind a header. -/
theorem ipv4HeaderLen_ptr (versionIhl : BitVec 8) :
    (ipv4HeaderLen versionIhl).setWidth 64 = BitVec.ofNat 64 ((versionIhl &&& 0x0F).toNat * 4) := by
  have hlow := ihl_le versionIhl
  apply BitVec.eq_of_toNat_eq
  rw [BitVec.toNat_setWidth_of_le (by decide), ipv4HeaderLen_toNat, BitVec.toNat_ofNat]
  omega

/-- The protocols are three different numbers. -/
theorem proto_cases {α : Type} {P : NetEvent → Prop} (proto : BitVec 8) (icmp udp tcp other : NetM α)
    (hother : other.All P) :
    (if proto = ipv4ProtoIcmp then icmp else if proto = ipv4ProtoUdp then udp
        else if proto = ipv4ProtoTcp then tcp else other).All P ↔
      (proto = ipv4ProtoIcmp → icmp.All P) ∧ (proto = ipv4ProtoUdp → udp.All P) ∧
        (proto = ipv4ProtoTcp → tcp.All P) := by
  by_cases hicmp : proto = ipv4ProtoIcmp
  · subst hicmp
    rw [if_pos rfl]
    exact ⟨fun h => ⟨fun _ => h, fun hne => absurd hne (by decide), fun hne => absurd hne (by decide)⟩,
      fun h => h.1 rfl⟩
  by_cases hudp : proto = ipv4ProtoUdp
  · subst hudp
    rw [if_neg hicmp, if_pos rfl]
    exact ⟨fun h => ⟨fun hne => absurd hne hicmp, fun _ => h, fun hne => absurd hne (by decide)⟩,
      fun h => h.2.1 rfl⟩
  by_cases htcp : proto = ipv4ProtoTcp
  · subst htcp
    rw [if_neg hicmp, if_neg hudp, if_pos rfl]
    exact ⟨fun h => ⟨fun hne => absurd hne hicmp, fun hne => absurd hne hudp, fun _ => h⟩,
      fun h => h.2.2 rfl⟩
  · rw [if_neg hicmp, if_neg hudp, if_neg htcp]
    exact iff_of_true hother ⟨fun h => absurd h hicmp, fun h => absurd h hudp, fun h => absurd h htcp⟩

theorem netHandleIpv4_inside {base ip srcMac : Word} {o L oMac : Nat} (mem : Mem) (net : Net)
    (h : At base ip o) (hmac : At base srcMac oMac) (hmacL : oMac + 6 ≤ L) (hL : L < 2 ^ 31)
    (waits : PollWaits) {len : BitVec 16} (hlen : o + len.toNat = L) :
    (netHandleIpv4 waits net mem srcMac ip len).All (NetEvent.Inside base L) ↔
      (sizeofIpv4 ≤ len.toNat → ForUs net (mem.load32 (ip + 16)) →
        MessageFits net mem ip (o + (mem.load8 ip &&& 0x0F).toNat * 4) L) := by
  have hat : ∀ k, k < 20 → At base (ip + BitVec.ofNat 64 k) (o + k) := fun k hk =>
    h.add k (by omega)
  have hdst : At base (ip + 16) (o + 16) := hat 16 (by omega)
  have htotal : At base (ip + 2) (o + 2) := hat 2 (by omega)
  have hproto : At base (ip + 9) (o + 9) := hat 9 (by omega)
  unfold netHandleIpv4
  by_cases hshort : len.toNat < sizeofIpv4
  · rw [if_pos hshort]
    exact iff_of_true (Logged.all_pure _) fun hsize => absurd hshort (Nat.not_lt_of_le hsize)
  have hsize : sizeofIpv4 ≤ len.toNat := Nat.le_of_not_lt hshort
  have h20 : sizeofIpv4 = 20 := rfl
  rw [if_neg hshort, Logged.all_bind, hdst.readMem32_inside, and_iff_right (by omega),
    val_readMem32, forall_prop_of_true hsize]
  by_cases hus : ForUs net (mem.load32 (ip + 16))
  · rw [if_neg (not_not.mpr hus), forall_prop_of_true hus, Logged.all_bind, h.readMem8_inside,
      and_iff_right (by omega), Logged.all_bind, htotal.readMem16_inside,
      and_iff_right (by omega), Logged.all_bind, hproto.readMem8_inside, and_iff_right (by omega),
      val_readMem8, val_readMem16, val_readMem8]
    have hihl := ihl_le (mem.load8 ip)
    have hmsg : At base (ip + (ipv4HeaderLen (mem.load8 ip)).setWidth 64)
        (o + (mem.load8 ip &&& 0x0F).toNat * 4) := by
      rw [ipv4HeaderLen_ptr]
      exact h.add _ (by omega)
    refine (proto_cases _ _ _ _ _ (Logged.all_pure _)).trans ?_
    refine and_congr ?_ (and_congr ?_ ?_)
    · exact imp_congr_right fun _ => netHandleIcmp_inside mem net hmsg hmac hmacL h (by omega) (by omega) _
    · exact imp_congr_right fun _ => netHandleUdp_inside mem net hmsg h (by omega) (by omega) (by omega) _
    · exact imp_congr_right fun _ =>
        netHandleTcp_inside mem net hmsg h (by omega) (by omega) (by omega) waits _
  · rw [if_pos hus]
    exact iff_of_true (Logged.all_pure _) fun hus' => absurd hus' hus

/-- **What fits of a frame** of `len` bytes: of an IPv4 packet for this host,
    the message it carries. -/
def FrameFits (net : Net) (mem : Mem) (data : Word) (len : BitVec 16) : Prop :=
  sizeofEth + sizeofIpv4 ≤ len.toNat → ntohs (mem.load16 (data + 12)) = ethertypeIpv4 →
    ForUs net (mem.load32 (data + 30)) →
      MessageFits net mem (data + 14) (14 + (mem.load8 (data + 14) &&& 0x0F).toNat * 4) len.toNat

instance (net : Net) (mem : Mem) (data : Word) (len : BitVec 16) :
    Decidable (FrameFits net mem data len) :=
  inferInstanceAs (Decidable (_ → _))

/-- **Confinement of a received frame**: whatever the state of the stack, the
    bytes of the frame and the memory behind it, and whatever happens while
    `tcp_handle_packet` waits for ARP, every byte that the handlers read, and
    every payload passed to a bound handler, lies inside the `len` bytes of the
    frame if and only if the message in it fits. -/
theorem received_frame_confined_iff (waits : PollWaits) (net : Net) (mem : Mem) (data : Word)
    (len : BitVec 16) :
    (netHandlePacket waits net mem data len).All (NetEvent.Inside data len.toNat) ↔
      FrameFits net mem data len := by
  have hbound := len.isLt
  have hself := At.self data
  have htype : At data (data + 12) 12 := hself.add 12 (by decide)
  have hmac : At data (data + 6) 6 := hself.add 6 (by decide)
  have hpay : At data (data + BitVec.ofNat 64 sizeofEth) 14 := hself.add 14 (by decide)
  unfold netHandlePacket FrameFits
  by_cases hshort : len.toNat < sizeofEth
  · rw [if_pos hshort]
    refine iff_of_true (Logged.all_pure _) fun hsize => absurd hshort ?_
    exact Nat.not_lt_of_le (Nat.le_of_add_right_le hsize)
  have hsize : 14 ≤ len.toNat := Nat.le_of_not_lt hshort
  have hle : BitVec.ofNat 16 sizeofEth ≤ len := BitVec.le_def.mpr hsize
  have hsub : (len - BitVec.ofNat 16 sizeofEth).toNat = len.toNat - 14 :=
    BitVec.toNat_sub_of_le hle
  rw [if_neg hshort]
  dsimp only
  rw [Logged.all_bind, htype.readMem16_inside, and_iff_right (by omega), val_readMem16,
    Logged.all_bind, all_traced, hmac.readMem48_inside, and_iff_right (by omega)]
  by_cases harp : ntohs (mem.load16 (data + 12)) = ethertypeArp
  · rw [if_pos harp]
    refine iff_of_true (netHandleArp_inside mem _ hpay (by omega) (by omega)) fun _ hip => ?_
    rw [harp] at hip
    exact absurd hip (by decide)
  rw [if_neg harp]
  by_cases hip : ntohs (mem.load16 (data + 12)) = ethertypeIpv4
  · rw [if_pos hip]
    have hdst : data + BitVec.ofNat 64 sizeofEth + 16 = data + 30 := BitVec.add_assoc data _ _
    have hlen : sizeofIpv4 ≤ (len - BitVec.ofNat 16 sizeofEth).toNat ↔
        sizeofEth + sizeofIpv4 ≤ len.toNat := by
      rw [hsub]
      show 20 ≤ len.toNat - 14 ↔ 34 ≤ len.toNat
      omega
    refine (netHandleIpv4_inside mem _ hpay hmac (by omega) (by omega) waits (by omega)).trans ?_
    rw [hdst, hlen, forall_prop_of_true hip]
    -- counting the frame changes nothing that the condition depends on
    exact Iff.rfl
  · rw [if_neg hip]
    exact iff_of_true (Logged.all_pure _) fun _ h => absurd h hip

/-- The stack after `net_init`. -/
def bootNet : Net :=
  { rxPacketCount := 0
    txPacketCount := 0
    myIp := 0x0F02000A
    myMac := 0x563412005452
    macAddr := 0x563412005452
    arpCache := fun _ => ⟨0, 0, false⟩
    udpBindings := fun _ => ⟨0, .dhcpHandle, false⟩
    tcpBindings := fun _ => ⟨0, .tcpHandlePacket, false⟩
    connections := fun _ => ⟨0, 0, 0, .closed, 0, 0, 0, 0⟩
    nextLocalPort := 49152
    dhcpXid := 0x12345678
    dhcpOfferedIp := 0
    dhcpServerIp := 0 }

/-- An echo request of 42 bytes, whose IP header claims 1000. -/
def longEcho : List (BitVec 8) :=
  [0x52, 0x54, 0x00, 0x12, 0x34, 0x56, 0x02, 0x00, 0x00, 0x00, 0x00, 0x01, 0x08, 0x00,
    0x45, 0x00, 0x03, 0xE8, 0x00, 0x00, 0x00, 0x00, 0x40, 0x01, 0x00, 0x00, 10, 0, 2, 2, 10, 0, 2, 15,
    0x08, 0x00, 0x00, 0x00, 0x12, 0x34, 0x00, 0x01]

/-- It lies in a receive buffer, and a secret behind it. -/
def longEchoMem : Mem := fun a => longEcho.getD (a - 0x9000).toNat 0x5A

/-- **An echo request that claims more than arrived**: `net_handle_icmp` copies
    980 bytes from offset 34 of a frame of 42 bytes into its reply. -/
theorem long_echo_reads_behind :
    longEcho.length = 42 ∧
      NetEvent.read 0x9022 980 ∈ (netHandlePacket ⟨[], []⟩ bootNet longEchoMem 0x9000 42).log ∧
      ¬ (netHandlePacket ⟨[], []⟩ bootNet longEchoMem 0x9000 42).All
        (NetEvent.Inside 0x9000 42) := by
  have hcopy : NetEvent.read 0x9022 980 ∈
      (netHandlePacket ⟨[], []⟩ bootNet longEchoMem 0x9000 42).log := by
    decide +kernel
  refine ⟨rfl, hcopy, fun hall => ?_⟩
  have hinside : ((0x9022 : Word) - 0x9000).toNat + 980 ≤ 42 := hall _ hcopy
  revert hinside
  decide

end ZohoOs
