/-
  ZohoOs.Net.Sizes — the buffers of the send path (net.c, e1000.c).

  Four layers put a header in front of what they are given.  Each counts the
  total in 16 bits, allocates that many bytes, and copies what it was given;
  the driver copies the frame to a transmit buffer of 2048 bytes.  No layer
  compares anything.

  Main results:
    * `netSendEth_sized`, `netSendIpv4_sized`, `netSendUdp_sized`,
      `netSendTcp_sized` — how many bytes each layer has room for;
    * `send_sizes_iff` — the calls and the received frames that stay inside
      their buffers.
-/
import ZohoOs.Net.Options

namespace ZohoOs

open ZohoOs.Lib

/-! ## §1. The property. -/

/-- The size of a transmit buffer of the card. -/
def txBufferSize : Nat := 2048

/-- What is written to a buffer fits it, as it does if the sum that it was
    allocated from did not wrap around, and a frame fits a transmit buffer. -/
def NetEvent.Sized : NetEvent → Prop
  | .buffer size written => written ≤ size
  | .send frame => frame.length ≤ txBufferSize
  | _ => True

section

variable (mem : Mem) (p : Word)

theorem sized_read {α : Type} (a : α) (n : Nat) : (⟨a, [.read p n]⟩ : NetM α).All NetEvent.Sized :=
  (Logged.all_singleton a _).mpr trivial

theorem sized_readMem8 : (readMem8 mem p).All NetEvent.Sized := sized_read p _ 1

theorem sized_readMem16 : (readMem16 mem p).All NetEvent.Sized := sized_read p _ 2

theorem sized_readMem32 : (readMem32 mem p).All NetEvent.Sized := sized_read p _ 4

theorem sized_readMem48 : (readMem48 mem p).All NetEvent.Sized := sized_read p _ 6

theorem sized_readMemBytes (n : Nat) : (readMemBytes mem p n).All NetEvent.Sized := sized_read p _ n

end

/-! ## §2. The layers. -/

section

variable (net : Net) {data : List (BitVec 8)}

theorem netSendEth_sized (destMac : BitVec 48) (type : BitVec 16) (h16 : data.length < 2 ^ 16) :
    (netSendEth net destMac type data).All NetEvent.Sized ↔ 14 + data.length ≤ txBufferSize := by
  have htotal := toNat_total sizeofEth data
  unfold netSendEth
  rw [Logged.all_tell_bind, Logged.all_tell_bind, and_iff_left (Logged.all_pure _)]
  show sizeofEth + data.length ≤ _ ∧ ((ethHeader destMac net.myMac type ++ data).take _).length ≤ _ ↔ _
  rw [List.length_take, List.length_append, length_ethHeader, htotal]
  show 14 + data.length ≤ (14 + data.length) % 2 ^ 16 ∧
    min ((14 + data.length) % 2 ^ 16) (14 + data.length) ≤ 2048 ↔ 14 + data.length ≤ 2048
  omega

theorem netSendIpv4_sized (destIp : BitVec 32) (destMac : BitVec 48) (proto : BitVec 8)
    (h16 : data.length < 2 ^ 16) :
    (netSendIpv4 net destIp destMac proto data).All NetEvent.Sized ↔
      34 + data.length ≤ txBufferSize := by
  have htotal := toNat_total sizeofIpv4 data
  have hlen : ∀ checksum, ((ipv4Header (BitVec.ofNat 16 sizeofIpv4 + len16 data) proto checksum
      net.myIp destIp ++ data).take (BitVec.ofNat 16 sizeofIpv4 + len16 data).toNat).length =
        min ((20 + data.length) % 2 ^ 16) (20 + data.length) := by
    intro checksum
    rw [List.length_take, List.length_append, length_ipv4Header, htotal]
    rfl
  unfold netSendIpv4
  rw [Logged.all_tell_bind, netSendEth_sized net _ _ (by rw [hlen]; omega), hlen]
  show 20 + data.length ≤ (BitVec.ofNat 16 sizeofIpv4 + len16 data).toNat ∧ _ ≤ 2048 ↔ _ ≤ 2048
  rw [htotal]
  show 20 + data.length ≤ (20 + data.length) % 2 ^ 16 ∧ _ ↔ _
  omega

/-- A UDP or TCP header in front of the data. -/
theorem sendMessage_sized (destIp : BitVec 32) (destMac : BitVec 48) (proto : BitVec 8) {n : Nat}
    {header : List (BitVec 8)} (hheader : header.length = n) (hn : n < 2 ^ 16)
    (h16 : data.length < 2 ^ 16) :
    (Logged.tell (.buffer (BitVec.ofNat 16 n + len16 data).toNat (n + data.length)) >>= fun _ =>
      netSendIpv4 net destIp destMac proto
        ((header ++ data).take (BitVec.ofNat 16 n + len16 data).toNat)).All NetEvent.Sized ↔
      34 + n + data.length ≤ txBufferSize := by
  have htotal := toNat_total n data
  have hlen : ((header ++ data).take (BitVec.ofNat 16 n + len16 data).toNat).length =
      min ((n + data.length) % 2 ^ 16) (n + data.length) := by
    rw [List.length_take, List.length_append, hheader, htotal]
  rw [Logged.all_tell_bind, netSendIpv4_sized net _ _ _ (by rw [hlen]; omega), hlen]
  show n + data.length ≤ (BitVec.ofNat 16 n + len16 data).toNat ∧ _ ≤ 2048 ↔ _ ≤ 2048
  rw [htotal]
  omega

theorem netSendUdp_sized (targetIp : BitVec 32) (srcPort dstPort : BitVec 16)
    (h16 : data.length < 2 ^ 16) :
    (netSendUdp net targetIp srcPort dstPort data).All NetEvent.Sized ↔
      udpTargetMac net targetIp = none ∨ 42 + data.length ≤ txBufferSize := by
  unfold netSendUdp udpTargetMac
  cases (if targetIp = 0xFFFFFFFF then some broadcastMac else arpLookup net targetIp) with
  | none => exact iff_of_true (Logged.all_pure _) (.inl rfl)
  | some mac =>
    rw [or_iff_right (Option.some_ne_none mac)]
    exact sendMessage_sized net targetIp mac ipv4ProtoUdp (length_udpHeader _ _ _) (by decide) h16

theorem netSendTcpTo_sized (mac : BitVec 48) (targetIp : BitVec 32) (srcPort dstPort : BitVec 16)
    (seq ack : BitVec 32) (flags : BitVec 8) (h16 : data.length < 2 ^ 16) :
    (netSendTcpTo net mac targetIp srcPort dstPort seq ack flags data).All NetEvent.Sized ↔
      54 + data.length ≤ txBufferSize :=
  sendMessage_sized net targetIp mac ipv4ProtoTcp (length_tcpHeader _ _ _ _ _ _) (by decide) h16

/-- An ARP packet is short. -/
theorem sendArp_sized (destMac : BitVec 48) (oper : BitVec 16) (srcMac : BitVec 48)
    (srcIp : BitVec 32) (dstMac : BitVec 48) (dstIp : BitVec 32) :
    (netSendEth net destMac ethertypeArp (arpPacket oper srcMac srcIp dstMac dstIp)).All
      NetEvent.Sized := by
  have hlen : (arpPacket oper srcMac srcIp dstMac dstIp).length = 28 := rfl
  rw [netSendEth_sized net _ _ (by rw [hlen]; decide), hlen]
  decide

/-- The wait polls, and the request that it waits for is a short frame. -/
theorem tcpTargetMac_sized (wait : PollWait) (ip : BitVec 32) :
    (tcpTargetMac wait net ip).All NetEvent.Sized := by
  have hwait : ∀ net, (arpWait wait net ip).All NetEvent.Sized := by
    induction wait with
    | nil => exact fun _ => Logged.all_pure _
    | cons poll rest ih =>
      intro net
      unfold arpWait
      rw [Logged.all_tell_bind]
      refine ⟨trivial, ?_⟩
      cases arpLookup (poll net) ip with
      | some mac => exact Logged.all_pure _
      | none => exact ih (poll net)
  unfold tcpTargetMac
  cases arpLookup net ip with
  | some mac => exact Logged.all_pure _
  | none =>
    exact Logged.All.bind (sendArp_sized _ _ _ _ _ _ _) (hwait _)

theorem netSendTcp_sized (wait : PollWait) (targetIp : BitVec 32) (srcPort dstPort : BitVec 16)
    (seq ack : BitVec 32) (flags : BitVec 8) (h16 : data.length < 2 ^ 16) :
    (netSendTcp wait net targetIp srcPort dstPort seq ack flags data).All NetEvent.Sized ↔
      (tcpTargetMac wait net targetIp).val.1 = none ∨ 54 + data.length ≤ txBufferSize := by
  unfold netSendTcp
  rw [(tcpTargetMac_sized net wait targetIp).bind_iff]
  cases (tcpTargetMac wait net targetIp).val.1 with
  | none => exact iff_of_true (Logged.all_pure _) (.inl rfl)
  | some mac =>
    rw [or_iff_right (Option.some_ne_none mac)]
    exact netSendTcpTo_sized _ mac targetIp srcPort dstPort seq ack flags h16

end

/-! ## §3. The replies. -/

section

variable (net : Net) (mem : Mem)

theorem netHandleArp_sized (data : Word) (len : BitVec 16) :
    (netHandleArp net mem data len).All NetEvent.Sized := by
  unfold netHandleArp
  rw [Logged.all_ite]
  refine ⟨fun _ => Logged.all_pure _, fun _ => ?_⟩
  apply Logged.All.bind (sized_readMem16 mem _)
  apply Logged.All.bind (sized_readMem16 mem _)
  rw [Logged.all_ite]
  refine ⟨fun _ => Logged.all_pure _, fun _ => ?_⟩
  apply Logged.All.bind (sized_readMem48 mem _)
  apply Logged.All.bind (sized_readMem32 mem _)
  apply Logged.All.bind (sized_readMem16 mem _)
  apply Logged.All.bind (sized_readMem32 mem _)
  rw [Logged.all_ite]
  exact ⟨fun _ => sendArp_sized _ _ _ _ _ _ _, fun _ => Logged.all_pure _⟩

/-- A reply is as long as its request. -/
theorem length_icmpReply {request : List (BitVec 8)} (h : sizeofIcmp ≤ request.length) :
    (icmpReply request).length = request.length := by
  have h8 : 8 ≤ request.length := h
  unfold icmpReply
  simp only [List.length_append, List.length_cons, List.length_drop, List.length_take,
    length_bytesOf]
  omega

/-- **The ICMP messages that fit**: those that are no echo requests, and the echo
    requests of up to 2014 bytes. -/
def EchoFits (data : Word) (len : Nat) : Prop :=
  len < sizeofIcmp ∨ mem.load8 data ≠ icmpTypeEchoRequest ∨ 34 + len ≤ txBufferSize

theorem netHandleIcmp_sized (srcMac ip data : Word) (len : BitVec 16) :
    (netHandleIcmp net mem srcMac ip data len).All NetEvent.Sized ↔ EchoFits mem data len.toNat := by
  unfold netHandleIcmp EchoFits
  by_cases hshort : len.toNat < sizeofIcmp
  · rw [if_pos hshort]
    exact iff_of_true (Logged.all_pure _) (.inl hshort)
  rw [if_neg hshort, or_iff_right hshort, (sized_readMem8 mem _).bind_iff, val_readMem8]
  by_cases htype : mem.load8 data = icmpTypeEchoRequest
  · have hlength : (readMemBytes mem data len.toNat).val.length = len.toNat :=
      length_loadBytes mem data len.toNat
    have hreply : (icmpReply (readMemBytes mem data len.toNat).val).length = len.toNat := by
      rw [length_icmpReply, hlength]
      rw [hlength]
      exact Nat.le_of_not_lt hshort
    rw [if_pos htype, or_iff_right (not_not_intro htype), (sized_readMemBytes mem _ _).bind_iff,
      Logged.all_tell_bind, (sized_readMem32 mem _).bind_iff, (sized_readMem48 mem _).bind_iff,
      netSendIpv4_sized _ _ _ _ (by rw [hreply]; exact len.isLt), hreply]
    refine and_iff_right ?_
    show (readMemBytes mem data len.toNat).val.length ≤ len.toNat
    exact Nat.le_of_eq hlength
  · rw [if_neg htype, Logged.all_ite]
    refine iff_of_true ⟨fun _ => ?_, fun _ => Logged.all_pure _⟩ (.inl htype)
    exact Logged.All.bind (sized_readMem32 mem _) (Logged.all_pure _)

/-- **The DHCP messages that fit**: all but an OFFER in this client's
    transaction, which is answered. -/
theorem dhcpHandle_sized (d : Datagram) :
    (dhcpHandle net d.mem d.data d.len).All NetEvent.Sized ↔
      ¬ (d.Accepted net.dhcpXid ∧ d.msgType = dhcpMsgOffer) := by
  constructor
  · intro hall ⟨haccepted, hoffer⟩
    obtain ⟨reads, net', hlog, _⟩ := dhcpHandle_offer haccepted hoffer
    have hinside : WritesInside (reads ++ (dhcpRequest net').log) := by
      intro size written hmem
      rw [← hlog] at hmem
      exact hall _ hmem
    exact request_not_inside hinside
  · intro hno
    refine dhcpHandle_all (fun _ _ => trivial) fun net' hlong hop hmagic hxid hoffer => ?_
    exact absurd ⟨⟨hlong, hop, hmagic, hxid⟩, (dhcpOptions_msgType _ _ _ _ _ _ _).trans hoffer⟩ hno

/-- **The UDP datagrams that fit**: an OFFER is not passed to the client. -/
def DatagramFits (data : Word) (len : BitVec 16) : Prop :=
  let udpLen := ntohs (mem.load16 (data + 4))
  let d : Datagram := ⟨mem, data + 8, udpLen - BitVec.ofNat 16 sizeofUdp⟩
  sizeofUdp ≤ udpLen.toNat → udpLen ≤ len → udpBound net (ntohs (mem.load16 (data + 2))) ≠ none →
    ¬ (d.Accepted net.dhcpXid ∧ d.msgType = dhcpMsgOffer)

theorem netHandleUdp_sized (ip data : Word) (len : BitVec 16) :
    (netHandleUdp net mem ip data len).All NetEvent.Sized ↔ DatagramFits net mem data len := by
  unfold netHandleUdp DatagramFits
  dsimp only
  by_cases hshort : len.toNat < sizeofUdp
  · rw [if_pos hshort]
    refine iff_of_true (Logged.all_pure _) fun hsize hle => ?_
    exact absurd (hsize.trans (BitVec.le_def.mp hle)) (Nat.not_le_of_lt hshort)
  rw [if_neg hshort, (sized_readMem16 mem _).bind_iff, (sized_readMem16 mem _).bind_iff,
    (sized_readMem16 mem _).bind_iff, val_readMem16, val_readMem16, val_readMem16]
  generalize ntohs (mem.load16 (data + 4)) = udpLen
  by_cases hbad : udpLen.toNat < sizeofUdp ∨ len < udpLen
  · rw [if_pos hbad]
    refine iff_of_true (Logged.all_pure _) fun hsize hle => ?_
    rcases hbad with hlt | hlt
    · exact absurd hsize (Nat.not_le_of_lt hlt)
    · exact absurd hle (BitVec.not_le.mpr hlt)
  obtain ⟨hsize, hle⟩ := not_or.mp hbad
  rw [if_neg hbad, (sized_readMem32 mem _).bind_iff, forall_prop_of_true (Nat.le_of_not_lt hsize),
    forall_prop_of_true (BitVec.not_lt.mp hle)]
  cases udpBound net (ntohs (mem.load16 (data + 2))) with
  | none => exact iff_of_true (Logged.all_pure _) fun hne => absurd rfl hne
  | some handler =>
    rw [forall_prop_of_true (Option.some_ne_none handler)]
    unfold callUdpHandler
    cases handler with
    | dhcpHandle =>
      rw [Logged.all_tell_bind, and_iff_right (show NetEvent.Sized (.udpHandler ..) from trivial)]
      exact dhcpHandle_sized net ⟨mem, data + 8, udpLen - BitVec.ofNat 16 sizeofUdp⟩

/-- A segment that is answered is answered without data. -/
theorem netHandleTcp_sized (waits : PollWaits) (ip data : Word) (len : BitVec 16) :
    (netHandleTcp waits net mem ip data len).All NetEvent.Sized := by
  have hsend : ∀ wait net dst sp dp seq ack flags,
      (netSendTcp wait net dst sp dp seq ack flags []).All NetEvent.Sized := by
    intro wait net dst sp dp seq ack flags
    rw [netSendTcp_sized net wait dst sp dp seq ack flags (by decide)]
    exact .inr (by decide)
  unfold netHandleTcp
  rw [Logged.all_ite]
  refine ⟨fun _ => Logged.all_pure _, fun _ => ?_⟩
  apply Logged.All.bind (sized_readMem16 mem _)
  apply Logged.All.bind (sized_readMem16 mem _)
  apply Logged.All.bind (sized_readMem8 mem _)
  dsimp only
  rw [Logged.all_ite]
  refine ⟨fun _ => Logged.all_pure _, fun _ => ?_⟩
  apply Logged.All.bind (sized_readMem32 mem _)
  apply Logged.All.bind ((all_traced _).mpr (sized_readMem8 mem _))
  cases tcpBound net (ntohs (readMem16 mem (data + 2)).val) with
  | none => exact Logged.all_pure _
  | some handler =>
    unfold callTcpHandler
    cases handler with
    | tcpHandlePacket =>
      rw [Logged.all_tell_bind]
      exact ⟨trivial, tcpHandlePacket_all mem net hsend (sized_readMem32 mem _)
        (sized_readMem32 mem _) (sized_readMem8 mem _) waits _ _ _⟩

/-- **The replies that fit**, to an IPv4 packet of `len` bytes. -/
def RepliesFit (ip : Word) (len : Nat) : Prop :=
  let message := ip + (ipv4HeaderLen (mem.load8 ip)).setWidth 64
  sizeofIpv4 ≤ len → ForUs net (mem.load32 (ip + 16)) →
    (mem.load8 (ip + 9) = ipv4ProtoIcmp → EchoFits mem message (ipv4PayloadLen mem ip).toNat) ∧
      (mem.load8 (ip + 9) = ipv4ProtoUdp → DatagramFits net mem message (ipv4PayloadLen mem ip))

theorem netHandleIpv4_sized (waits : PollWaits) (srcMac ip : Word) (len : BitVec 16) :
    (netHandleIpv4 waits net mem srcMac ip len).All NetEvent.Sized ↔
      RepliesFit net mem ip len.toNat := by
  unfold netHandleIpv4 RepliesFit
  by_cases hshort : len.toNat < sizeofIpv4
  · rw [if_pos hshort]
    exact iff_of_true (Logged.all_pure _) fun hsize => absurd hsize (Nat.not_le_of_lt hshort)
  rw [if_neg hshort, (sized_readMem32 mem _).bind_iff, val_readMem32,
    forall_prop_of_true (Nat.le_of_not_lt hshort)]
  by_cases hus : ForUs net (mem.load32 (ip + 16))
  · rw [if_neg (not_not_intro hus), forall_prop_of_true hus, (sized_readMem8 mem _).bind_iff,
      (sized_readMem16 mem _).bind_iff, (sized_readMem8 mem _).bind_iff]
    refine (proto_cases _ _ _ _ _ (Logged.all_pure _)).trans ?_
    refine and_congr (imp_congr_right fun _ => netHandleIcmp_sized net mem _ _ _ _) ?_
    refine Iff.trans (and_iff_left fun _ => netHandleTcp_sized net mem waits _ _ _) ?_
    exact imp_congr_right fun _ => netHandleUdp_sized net mem _ _ _
  · rw [if_pos hus]
    exact iff_of_true (Logged.all_pure _) fun hus' => absurd hus' hus

/-- **The frames whose replies fit**: those that carry no IPv4 packet, and those
    whose packet is such. -/
def FrameRepliesFit (data : Word) (len : Nat) : Prop :=
  sizeofEth + sizeofIpv4 ≤ len → ntohs (mem.load16 (data + 12)) = ethertypeIpv4 →
    RepliesFit net mem (data + 14) (len - 14)

theorem netHandlePacket_sized (waits : PollWaits) (data : Word) (len : BitVec 16) :
    (netHandlePacket waits net mem data len).All NetEvent.Sized ↔
      FrameRepliesFit net mem data len.toNat := by
  unfold netHandlePacket FrameRepliesFit
  by_cases hshort : len.toNat < sizeofEth
  · rw [if_pos hshort]
    refine iff_of_true (Logged.all_pure _) fun hsize => absurd hshort ?_
    exact Nat.not_lt_of_le (Nat.le_of_add_right_le hsize)
  have hsub : (len - BitVec.ofNat 16 sizeofEth).toNat = len.toNat - 14 :=
    BitVec.toNat_sub_of_le (BitVec.le_def.mpr (Nat.le_of_not_lt hshort))
  rw [if_neg hshort]
  dsimp only
  rw [(sized_readMem16 mem _).bind_iff, ((all_traced _).mpr (sized_readMem48 mem _)).bind_iff,
    val_readMem16]
  by_cases harp : ntohs (mem.load16 (data + 12)) = ethertypeArp
  · rw [if_pos harp]
    refine iff_of_true (netHandleArp_sized _ mem _ _) fun _ hip => ?_
    rw [harp] at hip
    exact absurd hip (by decide)
  rw [if_neg harp]
  by_cases hip : ntohs (mem.load16 (data + 12)) = ethertypeIpv4
  · rw [if_pos hip, netHandleIpv4_sized, hsub, forall_prop_of_true hip]
    constructor
    · intro hfit _
      exact hfit
    · intro hfit hsize
      have hsize' : 20 ≤ len.toNat - 14 := hsize
      exact hfit (show 34 ≤ len.toNat by omega) hsize
  · rw [if_neg hip]
    exact iff_of_true (Logged.all_pure _) fun _ h => absurd h hip

end

/-! ## §4. All calls. -/

/-- The data of a call, whose length is a `uint16_t`. -/
abbrev Payload := { data : List (BitVec 8) // data.length < 2 ^ 16 }

/-- A call of the send path, or a frame that is received. -/
inductive NetCall where
  | sendEth (destMac : BitVec 48) (type : BitVec 16) (data : Payload)
  | sendIpv4 (destIp : BitVec 32) (destMac : BitVec 48) (proto : BitVec 8) (data : Payload)
  | sendUdp (targetIp : BitVec 32) (srcPort dstPort : BitVec 16) (data : Payload)
  | sendTcp (wait : PollWait) (targetIp : BitVec 32) (srcPort dstPort : BitVec 16)
      (seq ack : BitVec 32) (flags : BitVec 8) (data : Payload)
  | handlePacket (waits : PollWaits) (mem : Mem) (data : Word) (len : BitVec 16)

namespace NetCall

def run (net : Net) : NetCall → NetM Net
  | .sendEth destMac type data => netSendEth net destMac type data.val
  | .sendIpv4 destIp destMac proto data => netSendIpv4 net destIp destMac proto data.val
  | .sendUdp targetIp srcPort dstPort data => netSendUdp net targetIp srcPort dstPort data.val
  | .sendTcp wait targetIp srcPort dstPort seq ack flags data =>
      netSendTcp wait net targetIp srcPort dstPort seq ack flags data.val
  | .handlePacket waits mem data len => netHandlePacket waits net mem data len

/-- The calls that have room: the frame they build fits a transmit buffer, or
    they send none. -/
def Fits (net : Net) : NetCall → Prop
  | .sendEth _ _ data => 14 + data.val.length ≤ txBufferSize
  | .sendIpv4 _ _ _ data => 34 + data.val.length ≤ txBufferSize
  | .sendUdp targetIp _ _ data =>
      udpTargetMac net targetIp = none ∨ 42 + data.val.length ≤ txBufferSize
  | .sendTcp wait targetIp _ _ _ _ _ data =>
      (tcpTargetMac wait net targetIp).val.1 = none ∨ 54 + data.val.length ≤ txBufferSize
  | .handlePacket _ mem data len => FrameRepliesFit net mem data len.toNat

end NetCall

/-- **The sizes on the send path.**  In whatever state the stack is, a call
    writes inside its buffers, and sends no frame that is too long for a
    transmit buffer, exactly if it has room. -/
theorem send_sizes_iff (net : Net) (c : NetCall) : (c.run net).All NetEvent.Sized ↔ c.Fits net := by
  cases c with
  | sendEth destMac type data => exact netSendEth_sized net destMac type data.property
  | sendIpv4 destIp destMac proto data => exact netSendIpv4_sized net destIp destMac proto data.property
  | sendUdp targetIp srcPort dstPort data =>
    exact netSendUdp_sized net targetIp srcPort dstPort data.property
  | sendTcp wait targetIp srcPort dstPort seq ack flags data =>
    exact netSendTcp_sized net wait targetIp srcPort dstPort seq ack flags data.property
  | handlePacket waits mem data len => exact netHandlePacket_sized net mem waits data len

/-- An echo request of 42 bytes, whose IP header claims 65535. -/
def hugeEcho : List (BitVec 8) :=
  [0x52, 0x54, 0x00, 0x12, 0x34, 0x56, 0x02, 0x00, 0x00, 0x00, 0x00, 0x01, 0x08, 0x00,
    0x45, 0x00, 0xFF, 0xFF, 0x00, 0x00, 0x00, 0x00, 0x40, 0x01, 0x00, 0x00, 10, 0, 2, 2, 10, 0, 2, 15,
    0x08, 0x00, 0x00, 0x00, 0x12, 0x34, 0x00, 0x01]

/-- **A forged length wraps the totals**: the reply to it, of 65549 bytes with its
    headers, is written to a buffer of 13. -/
theorem huge_echo_overruns : hugeEcho.length = 42 ∧
    ¬ (NetCall.run bootNet (.handlePacket ⟨[], []⟩ (Mem.image hugeEcho) 0 42)).All
      NetEvent.Sized := by
  refine ⟨rfl, fun hall => ?_⟩
  have hfit := (netHandlePacket_sized bootNet (Mem.image hugeEcho) ⟨[], []⟩ 0 42).mp hall
  have hreplies := hfit (by decide) (by decide) (by decide) (by decide)
  rcases hreplies.1 (by decide) with hshort | htype | hsize
  · exact absurd hshort (by decide)
  · exact absurd htype (by decide)
  · exact absurd hsize (by decide)

end ZohoOs
