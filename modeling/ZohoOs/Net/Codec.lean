/-
  ZohoOs.Net.Codec — what is sent is what is received.

  A segment passes three encoders on its way out and three decoders on its way
  in, each with a length field of its own.  The frames the send path builds are
  lists of bytes; `net_send_receive` puts such a frame into the memory of a
  second host and follows it up to the handler that is bound to its port.

  Main results:
    * `swap16_swap16`, `swap32_swap32` — the byte swaps undo themselves;
    * `netSendUdp_frame`, `netSendTcp_frames` — the one frame that is sent;
    * `net_send_receive` — it reaches the bound handler once, unchanged.
-/
import ZohoOs.Net.Confine

namespace ZohoOs

open ZohoOs.Lib
open ZohoOs.Lib.Mem (Holds)

/-! ## §1. Byte order. -/

theorem swap16_eq (x : BitVec 16) : swap16 x = x.extractLsb' 0 8 ++ x.extractLsb' 8 8 := by
  apply BitVec.eq_of_getLsbD_eq
  intro i hi
  simp only [swap16, BitVec.getLsbD_or, BitVec.getLsbD_shiftLeft, BitVec.getLsbD_and,
    BitVec.getLsbD_ushiftRight, BitVec.getLsbD_append, BitVec.getLsbD_extractLsb']
  interval_cases i <;> simp

theorem swap16_swap16 (x : BitVec 16) : swap16 (swap16 x) = x := by
  rw [swap16_eq, swap16_eq]
  apply BitVec.eq_of_getLsbD_eq
  intro i hi
  simp only [BitVec.getLsbD_append, BitVec.getLsbD_extractLsb']
  interval_cases i <;> simp

theorem ntohs_htons (x : BitVec 16) : ntohs (htons x) = x := swap16_swap16 x

theorem swap32_eq (x : BitVec 32) : swap32 x =
    x.extractLsb' 0 8 ++ x.extractLsb' 8 8 ++ x.extractLsb' 16 8 ++ x.extractLsb' 24 8 := by
  apply BitVec.eq_of_getLsbD_eq
  intro i hi
  simp only [swap32, BitVec.getLsbD_or, BitVec.getLsbD_shiftLeft, BitVec.getLsbD_and,
    BitVec.getLsbD_ushiftRight, BitVec.getLsbD_append, BitVec.getLsbD_extractLsb']
  interval_cases i <;> simp

theorem swap32_swap32 (x : BitVec 32) : swap32 (swap32 x) = x := by
  rw [swap32_eq, swap32_eq]
  apply BitVec.eq_of_getLsbD_eq
  intro i hi
  simp only [BitVec.getLsbD_append, BitVec.getLsbD_extractLsb']
  interval_cases i <;> simp

theorem ntohl_htonl (x : BitVec 32) : ntohl (htonl x) = x := swap32_swap32 x

/-! ## §2. The frames that are sent. -/

/-- The frames that a computation sends. -/
def NetEvent.frame? : NetEvent → Option (List (BitVec 8))
  | .send frame => some frame
  | _ => none

def framesOf (log : List NetEvent) : List (List (BitVec 8)) := log.filterMap NetEvent.frame?

theorem framesOf_bind {α β : Type} (x : NetM α) (f : α → NetM β) :
    framesOf (x >>= f).log = framesOf x.log ++ framesOf (f x.val).log := by
  unfold framesOf
  rw [Logged.log_bind, List.filterMap_append]

def ethHeader (destMac srcMac : BitVec 48) (type : BitVec 16) : List (BitVec 8) :=
  bytesOf destMac ++ bytesOf srcMac ++ bytesOf (htons type)

@[simp] theorem length_ethHeader (destMac srcMac : BitVec 48) (type : BitVec 16) :
    (ethHeader destMac srcMac type).length = 14 := rfl

@[simp] theorem length_ipv4Header (totalLen : BitVec 16) (proto : BitVec 8) (checksum : BitVec 16)
    (srcIp dstIp : BitVec 32) : (ipv4Header totalLen proto checksum srcIp dstIp).length = 20 := rfl

@[simp] theorem length_udpHeader (srcPort dstPort totalLen : BitVec 16) :
    (udpHeader srcPort dstPort totalLen).length = 8 := rfl

@[simp] theorem length_tcpHeader (srcPort dstPort : BitVec 16) (seq ack : BitVec 32)
    (flags : BitVec 8) (checksum : BitVec 16) :
    (tcpHeader srcPort dstPort seq ack flags checksum).length = 20 := rfl

/-- The `uint16_t` total of a header of `n` bytes and its data. -/
theorem toNat_total (n : Nat) (data : List (BitVec 8)) :
    (BitVec.ofNat 16 n + len16 data).toNat = (n + data.length) % 2 ^ 16 := by
  unfold len16
  rw [← BitVec.ofNat_add, BitVec.toNat_ofNat]

/-- It does not wrap around. -/
theorem toNat_totalLen {n : Nat} {data : List (BitVec 8)} (h : n + data.length < 2 ^ 16) :
    (BitVec.ofNat 16 n + len16 data).toNat = n + data.length := by
  rw [toNat_total, Nat.mod_eq_of_lt h]

/-- A header and its data, cut at their total length. -/
theorem take_totalLen {n : Nat} {header data : List (BitVec 8)} (hn : header.length = n)
    (h : n + data.length < 2 ^ 16) :
    (header ++ data).take (BitVec.ofNat 16 n + len16 data).toNat = header ++ data := by
  rw [toNat_totalLen h]
  apply List.take_of_length_le
  rw [List.length_append, hn]

theorem netSendEth_frame (net : Net) (destMac : BitVec 48) (type : BitVec 16)
    {data : List (BitVec 8)} (h : 14 + data.length < 2 ^ 16) :
    framesOf (netSendEth net destMac type data).log =
      [ethHeader destMac net.myMac type ++ data] := by
  have htake : (ethHeader destMac net.myMac type ++ data).take
      (BitVec.ofNat 16 sizeofEth + len16 data).toNat = ethHeader destMac net.myMac type ++ data :=
    take_totalLen (length_ethHeader _ _ _) h
  show [(ethHeader destMac net.myMac type ++ data).take _] = _
  rw [htake]

/-- The IPv4 packet that `net_send_ipv4` builds. -/
def ipv4Packet (proto : BitVec 8) (srcIp dstIp : BitVec 32) (data : List (BitVec 8)) :
    List (BitVec 8) :=
  let totalLen := BitVec.ofNat 16 sizeofIpv4 + len16 data
  ipv4Header totalLen proto (netChecksum (ipv4Header totalLen proto 0 srcIp dstIp)) srcIp dstIp ++ data

theorem netSendIpv4_frame (net : Net) (destIp : BitVec 32) (destMac : BitVec 48) (proto : BitVec 8)
    {data : List (BitVec 8)} (h : 34 + data.length < 2 ^ 16) :
    framesOf (netSendIpv4 net destIp destMac proto data).log =
      [ethHeader destMac net.myMac ethertypeIpv4 ++ ipv4Packet proto net.myIp destIp data] := by
  have htake : (ipv4Packet proto net.myIp destIp data).take
      (BitVec.ofNat 16 sizeofIpv4 + len16 data).toNat = ipv4Packet proto net.myIp destIp data :=
    take_totalLen (length_ipv4Header _ _ _ _ _) (show 20 + data.length < 2 ^ 16 by omega)
  have hlen : (ipv4Packet proto net.myIp destIp data).length = 20 + data.length := by
    unfold ipv4Packet
    rw [List.length_append, length_ipv4Header]
  have hsend : netSendIpv4 net destIp destMac proto data =
      (Logged.tell (.buffer (BitVec.ofNat 16 sizeofIpv4 + len16 data).toNat
        (sizeofIpv4 + data.length)) >>= fun _ =>
          netSendEth net destMac ethertypeIpv4 ((ipv4Packet proto net.myIp destIp data).take
            (BitVec.ofNat 16 sizeofIpv4 + len16 data).toNat)) := rfl
  rw [hsend, framesOf_bind, htake, netSendEth_frame net destMac ethertypeIpv4 (by omega)]
  rfl

/-- The UDP datagram that `net_send_udp` builds. -/
def udpDatagram (srcPort dstPort : BitVec 16) (payload : List (BitVec 8)) : List (BitVec 8) :=
  udpHeader srcPort dstPort (BitVec.ofNat 16 sizeofUdp + len16 payload) ++ payload

@[simp] theorem length_udpDatagram (srcPort dstPort : BitVec 16) (payload : List (BitVec 8)) :
    (udpDatagram srcPort dstPort payload).length = 8 + payload.length := by
  unfold udpDatagram
  rw [List.length_append, length_udpHeader]

/-- The MAC address that `net_send_udp` sends to. -/
def udpTargetMac (net : Net) (targetIp : BitVec 32) : Option (BitVec 48) :=
  if targetIp = 0xFFFFFFFF then some broadcastMac else arpLookup net targetIp

theorem netSendUdp_frame {net : Net} {targetIp : BitVec 32} {mac : BitVec 48}
    (hmac : udpTargetMac net targetIp = some mac) (srcPort dstPort : BitVec 16)
    {payload : List (BitVec 8)} (h : 42 + payload.length < 2 ^ 16) :
    framesOf (netSendUdp net targetIp srcPort dstPort payload).log =
      [ethHeader mac net.myMac ethertypeIpv4 ++
        ipv4Packet ipv4ProtoUdp net.myIp targetIp (udpDatagram srcPort dstPort payload)] := by
  have htake : (udpDatagram srcPort dstPort payload).take
      (BitVec.ofNat 16 sizeofUdp + len16 payload).toNat = udpDatagram srcPort dstPort payload :=
    take_totalLen (length_udpHeader _ _ _) (show 8 + payload.length < 2 ^ 16 by omega)
  have hlen := length_udpDatagram srcPort dstPort payload
  unfold netSendUdp
  rw [show (if targetIp = 0xFFFFFFFF then some broadcastMac else arpLookup net targetIp) = some mac
    from hmac]
  show framesOf (Logged.tell _ >>= fun _ => netSendIpv4 net targetIp mac ipv4ProtoUdp
    ((udpDatagram srcPort dstPort payload).take
      (BitVec.ofNat 16 sizeofUdp + len16 payload).toNat)).log = _
  rw [framesOf_bind, htake, netSendIpv4_frame net targetIp mac ipv4ProtoUdp (by omega)]
  rfl

/-- The TCP segment that `net_send_tcp` builds. -/
def tcpSegment (srcIp dstIp : BitVec 32) (srcPort dstPort : BitVec 16) (seq ack : BitVec 32)
    (flags : BitVec 8) (payload : List (BitVec 8)) : List (BitVec 8) :=
  let totalLen := BitVec.ofNat 16 sizeofTcp + len16 payload
  let blank := (tcpHeader srcPort dstPort seq ack flags 0 ++ payload).take totalLen.toNat
  let sum := sumWords (sumWords 0 (tcpPseudo srcIp dstIp totalLen)) blank
  tcpHeader srcPort dstPort seq ack flags (~~~(foldSum sum).setWidth 16) ++ payload

@[simp] theorem length_tcpSegment (srcIp dstIp : BitVec 32) (srcPort dstPort : BitVec 16)
    (seq ack : BitVec 32) (flags : BitVec 8) (payload : List (BitVec 8)) :
    (tcpSegment srcIp dstIp srcPort dstPort seq ack flags payload).length = 20 + payload.length := by
  unfold tcpSegment
  rw [List.length_append, length_tcpHeader]

theorem netSendTcpTo_frame (net : Net) (mac : BitVec 48) (targetIp : BitVec 32)
    (srcPort dstPort : BitVec 16) (seq ack : BitVec 32) (flags : BitVec 8)
    {payload : List (BitVec 8)} (h : 54 + payload.length < 2 ^ 16) :
    framesOf (netSendTcpTo net mac targetIp srcPort dstPort seq ack flags payload).log =
      [ethHeader mac net.myMac ethertypeIpv4 ++ ipv4Packet ipv4ProtoTcp net.myIp targetIp
        (tcpSegment net.myIp targetIp srcPort dstPort seq ack flags payload)] := by
  have htake : (tcpSegment net.myIp targetIp srcPort dstPort seq ack flags payload).take
      (BitVec.ofNat 16 sizeofTcp + len16 payload).toNat =
        tcpSegment net.myIp targetIp srcPort dstPort seq ack flags payload :=
    take_totalLen (length_tcpHeader _ _ _ _ _ _) (show 20 + payload.length < 2 ^ 16 by omega)
  have hlen := length_tcpSegment net.myIp targetIp srcPort dstPort seq ack flags payload
  have hsend : netSendTcpTo net mac targetIp srcPort dstPort seq ack flags payload =
      (Logged.tell (.buffer (BitVec.ofNat 16 sizeofTcp + len16 payload).toNat
        (sizeofTcp + payload.length)) >>= fun _ =>
          netSendIpv4 net targetIp mac ipv4ProtoTcp
            ((tcpSegment net.myIp targetIp srcPort dstPort seq ack flags payload).take
              (BitVec.ofNat 16 sizeofTcp + len16 payload).toNat)) := rfl
  rw [hsend, framesOf_bind, htake, netSendIpv4_frame net targetIp mac ipv4ProtoTcp (by omega)]
  rfl

/-- The search for the MAC address sends what it sends, then the segment goes
    out to the address that was found. -/
theorem netSendTcp_frames {net net' : Net} {targetIp : BitVec 32} {mac : BitVec 48} {wait : PollWait}
    (hmac : (tcpTargetMac wait net targetIp).val = (some mac, net')) (srcPort dstPort : BitVec 16)
    (seq ack : BitVec 32) (flags : BitVec 8) {payload : List (BitVec 8)}
    (h : 54 + payload.length < 2 ^ 16) :
    framesOf (netSendTcp wait net targetIp srcPort dstPort seq ack flags payload).log =
      framesOf (tcpTargetMac wait net targetIp).log ++
        [ethHeader mac net'.myMac ethertypeIpv4 ++ ipv4Packet ipv4ProtoTcp net'.myIp targetIp
          (tcpSegment net'.myIp targetIp srcPort dstPort seq ack flags payload)] := by
  have hframe := netSendTcpTo_frame net' mac targetIp srcPort dstPort seq ack flags h
  unfold netSendTcp
  rw [framesOf_bind, hmac]
  exact congrArg _ hframe

/-! ## §3. The handlers that are called. -/

/-- The event is the call of a bound handler. -/
def NetEvent.IsCall : NetEvent → Bool
  | .udpHandler .. => true
  | .tcpHandler .. => true
  | _ => false

/-- The handler calls of a computation. -/
def callsOf {α : Type} (x : NetM α) : List NetEvent := x.log.filter NetEvent.IsCall

theorem callsOf_bind {α β : Type} (x : NetM α) (f : α → NetM β) :
    callsOf (x >>= f) = callsOf x ++ callsOf (f x.val) := by
  unfold callsOf
  rw [Logged.log_bind, List.filter_append]

theorem callsOf_ite {α : Type} {c : Prop} [Decidable c] (x y : NetM α) :
    callsOf (if c then x else y) = if c then callsOf x else callsOf y := apply_ite callsOf c x y

/-- A computation that calls no handler. -/
def Quiet {α : Type} (x : NetM α) : Prop := x.All fun e => e.IsCall = false

theorem Quiet.callsOf {α : Type} {x : NetM α} (h : Quiet x) : callsOf x = [] := by
  apply List.filter_eq_nil_iff.mpr
  intro e he hcall
  rw [h e he] at hcall
  cases hcall

theorem callsOf_bind_quiet {α β : Type} {x : NetM α} (h : Quiet x) (f : α → NetM β) :
    callsOf (x >>= f) = callsOf (f x.val) := by
  rw [callsOf_bind, h.callsOf, List.nil_append]

theorem quiet_of_outgoing {α : Type} {x : NetM α} (h : x.All NetEvent.Outgoing) : Quiet x :=
  h.mono fun e he => by cases e <;> first | rfl | exact he.elim

section

variable (mem : Mem) (p : Word)

theorem quiet_read {α : Type} (a : α) (n : Nat) : Quiet (⟨a, [.read p n]⟩ : NetM α) :=
  (Logged.all_singleton a _).mpr rfl

theorem quiet_readMem8 : Quiet (readMem8 mem p) := quiet_read p _ 1

theorem quiet_readMem16 : Quiet (readMem16 mem p) := quiet_read p _ 2

theorem quiet_readMem32 : Quiet (readMem32 mem p) := quiet_read p _ 4

theorem quiet_readMem48 : Quiet (readMem48 mem p) := quiet_read p _ 6

end

theorem quiet_traced {α : Type} {x : NetM α} (h : Quiet x) : Quiet (traced x) :=
  (all_traced x).mpr h

/-- `tcp_handle_packet` calls no handler. -/
theorem tcpHandlePacket_quiet (waits : PollWaits) (net : Net) (mem : Mem) (srcIp : BitVec 32)
    (srcPort dstPort : BitVec 16) (tcp : Word) :
    Quiet (tcpHandlePacket waits net mem srcIp srcPort dstPort tcp) := by
  apply tcpHandlePacket_all
  · intro wait net dst sp dp seq ack flags
    exact quiet_of_outgoing (netSendTcp_outgoing _ _ _ _ _ _ _ _ _)
  · exact quiet_readMem32 mem _
  · exact quiet_readMem32 mem _
  · exact quiet_readMem8 mem _

/-- `dhcp_handle` calls no handler. -/
theorem dhcpHandle_quiet (net : Net) (mem : Mem) (data : Word) (len : BitVec 16) :
    Quiet (dhcpHandle net mem data len) :=
  dhcpHandle_all (fun _ _ => rfl) fun _ _ _ _ _ _ => quiet_of_outgoing (dhcpRequest_outgoing _)

theorem callUdpHandler_calls (h : UdpHandler) (net : Net) (mem : Mem) (srcIp : BitVec 32)
    (srcPort dstPort : BitVec 16) (data : Word) (len : BitVec 16) :
    callsOf (callUdpHandler h net mem srcIp srcPort dstPort data len) =
      [.udpHandler h srcIp srcPort dstPort data len] := by
  unfold callUdpHandler
  rw [callsOf_bind]
  cases h with
  | dhcpHandle =>
    rw [(dhcpHandle_quiet net mem data len).callsOf, List.append_nil]
    rfl

theorem callTcpHandler_calls (h : TcpHandler) (waits : PollWaits) (net : Net) (mem : Mem)
    (srcIp : BitVec 32) (srcPort dstPort : BitVec 16) (tcp data : Word) (len : BitVec 16) :
    callsOf (callTcpHandler h waits net mem srcIp srcPort dstPort tcp data len) =
      [.tcpHandler h srcIp srcPort dstPort tcp data len] := by
  unfold callTcpHandler
  rw [callsOf_bind]
  cases h with
  | tcpHandlePacket =>
    rw [(tcpHandlePacket_quiet waits net mem srcIp srcPort dstPort tcp).callsOf, List.append_nil]
    rfl

/-! ## §4. The decoders. -/

section

variable {net : Net} {mem : Mem} {data : Word} {len : BitVec 16}

/-- A UDP datagram reaches the handler of its port. -/
theorem netHandleUdp_calls (ip : Word) {srcPort dstPort udpLen : BitVec 16} {h : UdpHandler}
    (hsrc : mem.load16 data = htons srcPort) (hdst : mem.load16 (data + 2) = htons dstPort)
    (hcount : mem.load16 (data + 4) = htons udpLen) (hsize : sizeofUdp ≤ udpLen.toNat)
    (hle : udpLen ≤ len) (hbound : udpBound net dstPort = some h) :
    callsOf (netHandleUdp net mem ip data len) =
      [.udpHandler h (mem.load32 (ip + 12)) srcPort dstPort (data + BitVec.ofNat 64 sizeofUdp)
        (udpLen - BitVec.ofNat 16 sizeofUdp)] := by
  have hlong : ¬ len.toNat < sizeofUdp :=
    Nat.not_lt_of_le (hsize.trans (BitVec.le_def.mp hle))
  have hfits : ¬ (udpLen.toNat < sizeofUdp ∨ len < udpLen) :=
    not_or.mpr ⟨Nat.not_lt_of_le hsize, BitVec.not_lt.mpr hle⟩
  unfold netHandleUdp
  rw [if_neg hlong, callsOf_bind_quiet (quiet_readMem16 mem _),
    callsOf_bind_quiet (quiet_readMem16 mem _), callsOf_bind_quiet (quiet_readMem16 mem _),
    val_readMem16, val_readMem16, val_readMem16, hsrc, hdst, hcount]
  rw [ntohs_htons, ntohs_htons, ntohs_htons]
  rw [if_neg hfits, callsOf_bind_quiet (quiet_readMem32 mem _), hbound]
  exact callUdpHandler_calls _ _ _ _ _ _ _ _

/-- A TCP segment with a header of 20 bytes reaches the handler of its port. -/
theorem netHandleTcp_calls (waits : PollWaits) (ip : Word) {srcPort dstPort : BitVec 16}
    {h : TcpHandler} (hsrc : mem.load16 data = htons srcPort) (hdst : mem.load16 (data + 2) = htons dstPort)
    (hoff : mem.load8 (data + 12) = 0x50) (hsize : sizeofTcp ≤ len.toNat)
    (hbound : tcpBound net dstPort = some h) :
    callsOf (netHandleTcp waits net mem ip data len) =
      [.tcpHandler h (mem.load32 (ip + 12)) srcPort dstPort data
        (data + BitVec.ofNat 64 sizeofTcp) (len - BitVec.ofNat 16 sizeofTcp)] := by
  have hheader : (tcpHeaderLen 0x50).setWidth 16 = BitVec.ofNat 16 sizeofTcp := by decide
  have hptr : (BitVec.ofNat 16 sizeofTcp).setWidth 64 = BitVec.ofNat 64 sizeofTcp := by decide
  have hle : BitVec.ofNat 16 sizeofTcp ≤ len := BitVec.le_def.mpr hsize
  have hfits : ¬ ((BitVec.ofNat 16 sizeofTcp).toNat < sizeofTcp ∨ len < BitVec.ofNat 16 sizeofTcp) :=
    not_or.mpr ⟨by decide, BitVec.not_lt.mpr hle⟩
  unfold netHandleTcp
  rw [if_neg (Nat.not_lt_of_le hsize), callsOf_bind_quiet (quiet_readMem16 mem _),
    callsOf_bind_quiet (quiet_readMem16 mem _), callsOf_bind_quiet (quiet_readMem8 mem _),
    val_readMem16, val_readMem16, val_readMem8, hsrc, hdst, hoff]
  rw [ntohs_htons, ntohs_htons]
  rw [hheader, if_neg hfits, callsOf_bind_quiet (quiet_readMem32 mem _),
    callsOf_bind_quiet (quiet_traced (quiet_readMem8 mem _)), hbound, hptr]
  exact callTcpHandler_calls _ _ _ _ _ _ _ _ _ _

/-- The headers of a frame lead to the message behind an IPv4 header of 20
    bytes. -/
theorem netHandlePacket_calls (waits : PollWaits) {frameLen total : BitVec 16} {proto : BitVec 8}
    (hlen : 34 ≤ frameLen.toNat) (htype : mem.load16 (data + 12) = htons ethertypeIpv4)
    (hus : mem.load32 (data + 14 + 16) = net.myIp) (hihl : mem.load8 (data + 14) = 0x45)
    (htotal : mem.load16 (data + 14 + 2) = htons total)
    (hproto : mem.load8 (data + 14 + 9) = proto) :
    callsOf (netHandlePacket waits net mem data frameLen) =
      let net' := { net with rxPacketCount := net.rxPacketCount + 1 }
      let message := data + 14 + BitVec.ofNat 64 sizeofIpv4
      let messageLen := total - BitVec.ofNat 16 sizeofIpv4
      if proto = ipv4ProtoIcmp then
        callsOf (netHandleIcmp net' mem (data + 6) (data + 14) message messageLen)
      else if proto = ipv4ProtoUdp then
        callsOf (netHandleUdp net' mem (data + 14) message messageLen)
      else if proto = ipv4ProtoTcp then
        callsOf (netHandleTcp waits net' mem (data + 14) message messageLen)
      else [] := by
  have hshort : ¬ frameLen.toNat < sizeofEth := Nat.not_lt_of_le (le_trans (by decide) hlen)
  have hle : BitVec.ofNat 16 sizeofEth ≤ frameLen :=
    BitVec.le_def.mpr (le_trans (by decide) hlen)
  have hsub : (frameLen - BitVec.ofNat 16 sizeofEth).toNat = frameLen.toNat - 14 :=
    BitVec.toNat_sub_of_le hle
  have hpacket : ¬ (frameLen - BitVec.ofNat 16 sizeofEth).toNat < sizeofIpv4 := by
    rw [hsub]
    show ¬ frameLen.toNat - 14 < 20
    omega
  have harp : ¬ ntohs (htons ethertypeIpv4) = ethertypeArp := by decide
  have hipv4 : ntohs (htons ethertypeIpv4) = ethertypeIpv4 := by decide
  have hheader : ipv4HeaderLen 0x45 = BitVec.ofNat 16 sizeofIpv4 := by decide
  have hptr : (BitVec.ofNat 16 sizeofIpv4).setWidth 64 = BitVec.ofNat 64 sizeofIpv4 := by decide
  -- the Ethernet header, then the IPv4 header: none of the checks drops the frame
  unfold netHandlePacket
  rw [if_neg hshort]
  dsimp only
  rw [callsOf_bind_quiet (quiet_readMem16 mem _), callsOf_bind_quiet
    (quiet_traced (quiet_readMem48 mem _)), val_readMem16, htype, if_neg harp, if_pos hipv4]
  unfold netHandleIpv4
  rw [if_neg hpacket, callsOf_bind_quiet (quiet_readMem32 mem _), val_readMem32]
  have hfor : ForUs { net with rxPacketCount := net.rxPacketCount + 1 }
      (mem.load32 (data + BitVec.ofNat 64 sizeofEth + 16)) := Or.inl hus
  rw [if_neg (not_not_intro hfor), callsOf_bind_quiet (quiet_readMem8 mem _),
    callsOf_bind_quiet (quiet_readMem16 mem _), callsOf_bind_quiet (quiet_readMem8 mem _)]
  dsimp only
  rw [val_readMem8, val_readMem16, val_readMem8]
  have hihl' : mem.load8 (data + BitVec.ofNat 64 sizeofEth) = 0x45 := hihl
  have htotal' : mem.load16 (data + BitVec.ofNat 64 sizeofEth + 2) = htons total := htotal
  have hproto' : mem.load8 (data + BitVec.ofNat 64 sizeofEth + 9) = proto := hproto
  rw [hihl', htotal', hproto', hheader, hptr, ntohs_htons]
  simp only [callsOf_ite]
  rfl

end

/-! ## §5. Round trip. -/

/-- Copying out the bytes that memory holds. -/
theorem loadBytes_of_holds {mem : Mem} {p : Word} {l : List (BitVec 8)} (h : Holds mem p l) :
    loadBytes mem p l.length = l := by
  apply List.ext_getElem
  · exact length_loadBytes mem p l.length
  · intro k hk hk'
    simp only [loadBytes, List.getElem_map, List.getElem_range]
    exact h k hk'

/-- The frame that carries a message. -/
def ipv4Frame (mac srcMac : BitVec 48) (proto : BitVec 8) (srcIp dstIp : BitVec 32)
    (message : List (BitVec 8)) : List (BitVec 8) :=
  ethHeader mac srcMac ethertypeIpv4 ++ ipv4Packet proto srcIp dstIp message

theorem length_ipv4Frame (mac srcMac : BitVec 48) (proto : BitVec 8) (srcIp dstIp : BitVec 32)
    (message : List (BitVec 8)) :
    (ipv4Frame mac srcMac proto srcIp dstIp message).length = 34 + message.length := by
  unfold ipv4Frame ipv4Packet
  rw [List.length_append, List.length_append, length_ethHeader, length_ipv4Header, ← Nat.add_assoc]

/-- The length of a message, from that of its frame's packet. -/
theorem totalLen_sub (n : BitVec 16) (data : List (BitVec 8)) : n + len16 data - n = len16 data := by
  rw [BitVec.add_comm, BitVec.add_sub_cancel]

section

variable {net : Net} {mem : Mem} {data : Word} {mac srcMac : BitVec 48} {proto : BitVec 8}
variable {srcIp dstIp : BitVec 32} {message : List (BitVec 8)}

/-- The decoders of a host find the message that a frame carries to it. -/
theorem netHandlePacket_ipv4Frame (waits : PollWaits)
    (hheld : Holds mem data (ipv4Frame mac srcMac proto srcIp dstIp message))
    (hfit : 34 + message.length < 2 ^ 16) (hus : net.myIp = dstIp) :
    callsOf (netHandlePacket waits net mem data
      (len16 (ipv4Frame mac srcMac proto srcIp dstIp message))) =
      let net' := { net with rxPacketCount := net.rxPacketCount + 1 }
      let p := data + 14 + BitVec.ofNat 64 sizeofIpv4
      if proto = ipv4ProtoIcmp then
        callsOf (netHandleIcmp net' mem (data + 6) (data + 14) p (len16 message))
      else if proto = ipv4ProtoUdp then
        callsOf (netHandleUdp net' mem (data + 14) p (len16 message))
      else if proto = ipv4ProtoTcp then
        callsOf (netHandleTcp waits net' mem (data + 14) p (len16 message))
      else [] := by
  have hpacket : Holds mem (data + 14) (ipv4Packet proto srcIp dstIp message) := hheld.drop 14
  have hlen : 34 ≤ (len16 (ipv4Frame mac srcMac proto srcIp dstIp message)).toNat := by
    unfold len16
    rw [length_ipv4Frame, BitVec.toNat_ofNat, Nat.mod_eq_of_lt hfit]
    exact Nat.le_add_right _ _
  have htype : mem.load16 (data + 12) = htons ethertypeIpv4 := hheld.load16_at 12 rfl
  have hdst : mem.load32 (data + 14 + 16) = net.myIp := (hpacket.load32_at 16 rfl).trans hus.symm
  have hihl : mem.load8 (data + 14) = 0x45 := by
    have h0 := hpacket.load8_at 0 rfl
    rw [BitVec.add_zero] at h0
    exact h0
  have htotal : mem.load16 (data + 14 + 2) = htons (BitVec.ofNat 16 sizeofIpv4 + len16 message) :=
    hpacket.load16_at 2 rfl
  have hproto : mem.load8 (data + 14 + 9) = proto := hpacket.load8_at 9 rfl
  rw [netHandlePacket_calls waits hlen htype hdst hihl htotal hproto]
  dsimp only
  rw [totalLen_sub]

/-- A datagram that was sent to a bound port. -/
theorem netHandlePacket_udpFrame (waits : PollWaits) {srcPort dstPort : BitVec 16}
    {payload : List (BitVec 8)} {h : UdpHandler}
    (hheld : Holds mem data (ipv4Frame mac srcMac ipv4ProtoUdp srcIp dstIp
      (udpDatagram srcPort dstPort payload)))
    (hfit : 42 + payload.length < 2 ^ 16) (hus : net.myIp = dstIp)
    (hbound : udpBound net dstPort = some h) :
    ∃ p, callsOf (netHandlePacket waits net mem data (len16 (ipv4Frame mac srcMac ipv4ProtoUdp
        srcIp dstIp (udpDatagram srcPort dstPort payload)))) =
          [.udpHandler h srcIp srcPort dstPort p (len16 payload)] ∧
      loadBytes mem p (len16 payload).toNat = payload := by
  have hlen := length_udpDatagram srcPort dstPort payload
  have hlen16 : len16 (udpDatagram srcPort dstPort payload) =
      BitVec.ofNat 16 sizeofUdp + len16 payload := by
    unfold len16
    rw [hlen, BitVec.ofNat_add]
    rfl
  have hudp : Holds mem (data + 14 + 20) (udpDatagram srcPort dstPort payload) :=
    (hheld.drop 14).drop 20
  have hip : mem.load32 (data + 14 + 12) = srcIp := (hheld.drop 14).load32_at 12 rfl
  have hsrc : mem.load16 (data + 14 + 20) = htons srcPort := by
    have h0 := hudp.load16_at 0 (v := htons srcPort) rfl
    rw [BitVec.add_zero] at h0
    exact h0
  have hdst : mem.load16 (data + 14 + 20 + 2) = htons dstPort := hudp.load16_at 2 rfl
  have hcount : mem.load16 (data + 14 + 20 + 4) =
      htons (BitVec.ofNat 16 sizeofUdp + len16 payload) := hudp.load16_at 4 rfl
  have hsize : sizeofUdp ≤ (BitVec.ofNat 16 sizeofUdp + len16 payload).toNat := by
    rw [toNat_totalLen (show sizeofUdp + payload.length < 2 ^ 16 from
      lt_of_le_of_lt (Nat.add_le_add_right (by decide) _) hfit)]
    exact Nat.le_add_right _ _
  have hbound' : udpBound { net with rxPacketCount := net.rxPacketCount + 1 } dstPort = some h :=
    hbound
  refine ⟨data + 14 + 20 + 8, ?_, ?_⟩
  · rw [netHandlePacket_ipv4Frame waits hheld (by omega) hus]
    dsimp only
    rw [if_neg (by decide), if_pos rfl, hlen16]
    have hcalls := netHandleUdp_calls (data + 14) hsrc hdst hcount hsize
      (BitVec.le_refl _) hbound'
    rw [hip, totalLen_sub] at hcalls
    exact hcalls
  · have hpayload : Holds mem (data + 14 + 20 + 8) payload := hudp.drop 8
    rw [show (len16 payload).toNat = payload.length from Nat.mod_eq_of_lt (by omega)]
    exact loadBytes_of_holds hpayload

/-- A segment that was sent to a bound port. -/
theorem netHandlePacket_tcpFrame (waits : PollWaits) {srcPort dstPort : BitVec 16}
    {seq ack : BitVec 32} {flags : BitVec 8} {payload : List (BitVec 8)} {h : TcpHandler}
    (hheld : Holds mem data (ipv4Frame mac srcMac ipv4ProtoTcp srcIp dstIp
      (tcpSegment srcIp dstIp srcPort dstPort seq ack flags payload)))
    (hfit : 54 + payload.length < 2 ^ 16) (hus : net.myIp = dstIp)
    (hbound : tcpBound net dstPort = some h) :
    ∃ tcp p, callsOf (netHandlePacket waits net mem data (len16 (ipv4Frame mac srcMac ipv4ProtoTcp
        srcIp dstIp (tcpSegment srcIp dstIp srcPort dstPort seq ack flags payload)))) =
          [.tcpHandler h srcIp srcPort dstPort tcp p (len16 payload)] ∧
      ntohl (mem.load32 (tcp + 4)) = seq ∧ ntohl (mem.load32 (tcp + 8)) = ack ∧
      mem.load8 (tcp + 13) = flags ∧ loadBytes mem p (len16 payload).toNat = payload := by
  have hlen := length_tcpSegment srcIp dstIp srcPort dstPort seq ack flags payload
  have hlen16 : len16 (tcpSegment srcIp dstIp srcPort dstPort seq ack flags payload) =
      BitVec.ofNat 16 sizeofTcp + len16 payload := by
    unfold len16
    rw [hlen, BitVec.ofNat_add]
    rfl
  -- where the fields of the segment stand in the frame
  have htcp : Holds mem (data + 14 + 20)
      (tcpSegment srcIp dstIp srcPort dstPort seq ack flags payload) := (hheld.drop 14).drop 20
  have hip : mem.load32 (data + 14 + 12) = srcIp := (hheld.drop 14).load32_at 12 rfl
  have hsrc : mem.load16 (data + 14 + 20) = htons srcPort := by
    have h0 := htcp.load16_at 0 (v := htons srcPort) rfl
    rw [BitVec.add_zero] at h0
    exact h0
  have hdst : mem.load16 (data + 14 + 20 + 2) = htons dstPort := htcp.load16_at 2 rfl
  have hseq : mem.load32 (data + 14 + 20 + 4) = htonl seq := htcp.load32_at 4 rfl
  have hack : mem.load32 (data + 14 + 20 + 8) = htonl ack := htcp.load32_at 8 rfl
  have hoff : mem.load8 (data + 14 + 20 + 12) = 0x50 := htcp.load8_at 12 rfl
  have hflags : mem.load8 (data + 14 + 20 + 13) = flags := htcp.load8_at 13 rfl
  have hsize : sizeofTcp ≤ (BitVec.ofNat 16 sizeofTcp + len16 payload).toNat := by
    rw [toNat_totalLen (show sizeofTcp + payload.length < 2 ^ 16 from
      lt_of_le_of_lt (Nat.add_le_add_right (by decide) _) hfit)]
    exact Nat.le_add_right _ _
  have hbound' : tcpBound { net with rxPacketCount := net.rxPacketCount + 1 } dstPort = some h :=
    hbound
  refine ⟨data + 14 + 20, data + 14 + 20 + 20, ?_, ?_, ?_, hflags, ?_⟩
  · rw [netHandlePacket_ipv4Frame waits hheld (by omega) hus]
    dsimp only
    rw [if_neg (by decide), if_neg (by decide), if_pos rfl, hlen16]
    have hcalls := netHandleTcp_calls waits (data + 14) hsrc hdst hoff hsize hbound'
    rw [hip, totalLen_sub] at hcalls
    exact hcalls
  · rw [hseq, ntohl_htonl]
  · rw [hack, ntohl_htonl]
  · have hpayload : Holds mem (data + 14 + 20 + 20) payload := htcp.drop 20
    rw [show (len16 payload).toNat = payload.length from Nat.mod_eq_of_lt (by omega)]
    exact loadBytes_of_holds hpayload

end

/-- **Encode and decode agree.**  A datagram or segment whose frame fits a
    transmit buffer is sent as one frame.  A host with the target's address
    that is given this frame calls the handler of its port once, with the
    sender's address, the same ports, the same sequence numbers and flags, and
    the same payload. -/
theorem net_send_receive :
    (∀ (net : Net) (mac : BitVec 48) (targetIp : BitVec 32) (srcPort dstPort : BitVec 16)
      (payload : List (BitVec 8)),
      udpTargetMac net targetIp = some mac → 42 + payload.length ≤ 2048 →
      ∃ frame, framesOf (netSendUdp net targetIp srcPort dstPort payload).log = [frame] ∧
        frame.length = 42 + payload.length ∧
        ∀ (waits : PollWaits) (peer : Net) (mem : Mem) (data : Word) (h : UdpHandler),
          Holds mem data frame → peer.myIp = targetIp → udpBound peer dstPort = some h →
          ∃ p len, callsOf (netHandlePacket waits peer mem data (len16 frame)) =
              [.udpHandler h net.myIp srcPort dstPort p len] ∧
            loadBytes mem p len.toNat = payload) ∧
    (∀ (wait : PollWait) (net net' : Net) (mac : BitVec 48) (targetIp : BitVec 32)
      (srcPort dstPort : BitVec 16) (seq ack : BitVec 32) (flags : BitVec 8)
      (payload : List (BitVec 8)),
      (tcpTargetMac wait net targetIp).val = (some mac, net') → 54 + payload.length ≤ 2048 →
      ∃ frame, framesOf (netSendTcp wait net targetIp srcPort dstPort seq ack flags payload).log =
          framesOf (tcpTargetMac wait net targetIp).log ++ [frame] ∧
        frame.length = 54 + payload.length ∧
        ∀ (waits : PollWaits) (peer : Net) (mem : Mem) (data : Word) (h : TcpHandler),
          Holds mem data frame → peer.myIp = targetIp → tcpBound peer dstPort = some h →
          ∃ tcp p len, callsOf (netHandlePacket waits peer mem data (len16 frame)) =
              [.tcpHandler h net'.myIp srcPort dstPort tcp p len] ∧
            ntohl (mem.load32 (tcp + 4)) = seq ∧ ntohl (mem.load32 (tcp + 8)) = ack ∧
            mem.load8 (tcp + 13) = flags ∧ loadBytes mem p len.toNat = payload) := by
  constructor
  · intro net mac targetIp srcPort dstPort payload hmac hfit
    have hlen : (udpDatagram srcPort dstPort payload).length = 8 + payload.length :=
      length_udpDatagram srcPort dstPort payload
    refine ⟨_, netSendUdp_frame hmac srcPort dstPort (by omega),
      (length_ipv4Frame _ _ _ _ _ _).trans (by omega), ?_⟩
    intro waits peer mem data h hheld hus hbound
    obtain ⟨p, hcalls, hpayload⟩ := netHandlePacket_udpFrame waits hheld (by omega) hus hbound
    exact ⟨p, _, hcalls, hpayload⟩
  · intro wait net net' mac targetIp srcPort dstPort seq ack flags payload hmac hfit
    have hlen : (tcpSegment net'.myIp targetIp srcPort dstPort seq ack flags payload).length =
        20 + payload.length := length_tcpSegment _ _ srcPort dstPort seq ack flags payload
    refine ⟨_, netSendTcp_frames hmac srcPort dstPort seq ack flags (by omega),
      (length_ipv4Frame _ _ _ _ _ _).trans (by omega), ?_⟩
    intro waits peer mem data h hheld hus hbound
    obtain ⟨tcp, p, hcalls, hseq, hack, hflags, hpayload⟩ :=
      netHandlePacket_tcpFrame waits hheld (by omega) hus hbound
    exact ⟨tcp, p, _, hcalls, hseq, hack, hflags, hpayload⟩

/-- The second host of the example: it waits for DHCP replies and has one
    connection to port 49152. -/
def peerNet : Net :=
  { dhcpInit (netTcpBind bootNet 49152 .tcpHandlePacket) with myIp := 0x1002000A }

/-- The first host knows the MAC address of the second. -/
def senderNet : Net :=
  { bootNet with arpCache := Function.update bootNet.arpCache 0 ⟨0x1002000A, 0x665544332211, true⟩ }

theorem net_send_receive_peer :
    (∃ frame, framesOf (netSendUdp senderNet 0x1002000A 67 68 [1, 2, 3]).log = [frame] ∧
      ∃ p len, callsOf (netHandlePacket ⟨[], []⟩ peerNet (Mem.image frame) 0 (len16 frame)) =
          [.udpHandler .dhcpHandle 0x0F02000A 67 68 p len] ∧
        loadBytes (Mem.image frame) p len.toNat = [1, 2, 3]) ∧
    (∃ frame, framesOf (netSendTcp [] senderNet 0x1002000A 80 49152 5 6 tcpFlagAck [7]).log =
        [frame] ∧
      ∃ tcp p len, callsOf (netHandlePacket ⟨[], []⟩ peerNet (Mem.image frame) 0 (len16 frame)) =
          [.tcpHandler .tcpHandlePacket 0x0F02000A 80 49152 tcp p len] ∧
        ntohl ((Mem.image frame).load32 (tcp + 4)) = 5 ∧
        loadBytes (Mem.image frame) p len.toNat = [7]) := by
  constructor
  · obtain ⟨frame, hframe, hlen, hcalls⟩ :=
      net_send_receive.1 senderNet 0x665544332211 0x1002000A 67 68 [1, 2, 3] (by decide) (by decide)
    obtain ⟨p, len, hcall, hpayload⟩ := hcalls ⟨[], []⟩ peerNet (Mem.image frame) 0 .dhcpHandle
      (Mem.holds_image (hlen.trans_le (by decide))) rfl (by decide)
    exact ⟨frame, hframe, p, len, hcall, hpayload⟩
  · obtain ⟨frame, hframe, hlen, hcalls⟩ := net_send_receive.2 [] senderNet senderNet 0x665544332211
      0x1002000A 80 49152 5 6 tcpFlagAck [7] (by rfl) (by decide)
    obtain ⟨tcp, p, len, hcall, hseq, _, _, hpayload⟩ := hcalls ⟨[], []⟩ peerNet (Mem.image frame) 0
      .tcpHandlePacket (Mem.holds_image (hlen.trans_le (by decide))) rfl (by decide)
    exact ⟨frame, hframe, tcp, p, len, hcall, hseq, hpayload⟩

end ZohoOs
