/-
  ZohoOs.Net.Send — the send path (net.c).

  A packet that is being built is the list of its bytes.  Each layer takes the
  total length as a 16-bit number and passes that many bytes down.  While
  `net_send_tcp` waits for an ARP reply it calls `e1000_poll`, which may handle
  other frames: what each call does to the state is a parameter.
-/
import ZohoOs.Lib.Bytes
import ZohoOs.Net.Basic

namespace ZohoOs

open ZohoOs.Lib

/-! ## §1. Bytes. -/

/-- The `uint16_t` that counts these bytes. -/
def len16 (data : List (BitVec 8)) : BitVec 16 := BitVec.ofNat 16 data.length

/-- The sum of the 16-bit words of a buffer, and of the byte that is left. -/
def sumWords (sum : BitVec 32) : List (BitVec 8) → BitVec 32
  | lo :: hi :: rest => sumWords (sum + (hi ++ lo).setWidth 32) rest
  | [last] => sum + last.setWidth 32
  | [] => sum

/-- `while (sum >> 16) sum = (sum & 0xFFFF) + (sum >> 16)`. -/
def foldSum (sum : BitVec 32) : BitVec 32 :=
  if _h : sum >>> 16 = 0 then sum else foldSum ((sum &&& 0xFFFF#32) + (sum >>> 16))
termination_by sum.toNat
decreasing_by
  have hand : (sum &&& 0xFFFF#32).toNat = sum.toNat % 2 ^ 16 := by
    rw [BitVec.toNat_and]
    exact Nat.and_two_pow_sub_one_eq_mod sum.toNat 16
  have hshift : (sum >>> 16).toNat = sum.toNat / 2 ^ 16 := by
    rw [BitVec.toNat_ushiftRight, Nat.shiftRight_eq_div_pow]
  have hpos : sum.toNat / 2 ^ 16 ≠ 0 := fun h0 => _h (BitVec.eq_of_toNat_eq (hshift.trans h0))
  have _hlt := sum.isLt
  have hsmall : sum.toNat % 2 ^ 16 + sum.toNat / 2 ^ 16 < 2 ^ 32 := by omega
  rw [BitVec.toNat_add, hand, hshift, Nat.mod_eq_of_lt hsmall]
  omega

/-- `net_checksum`. -/
def netChecksum (data : List (BitVec 8)) : BitVec 16 := ~~~(foldSum (sumWords 0 data)).setWidth 16

/-! ## §2. Ethernet and ARP. -/

def netSendEth (net : Net) (destMac : BitVec 48) (type : BitVec 16) (data : List (BitVec 8)) :
    NetM Net := do
  let totalLen := BitVec.ofNat 16 sizeofEth + len16 data
  let eth := bytesOf destMac ++ bytesOf net.myMac ++ bytesOf (htons type)
  Logged.tell (.buffer totalLen.toNat (sizeofEth + data.length))
  Logged.tell (.send ((eth ++ data).take totalLen.toNat))
  return { net with txPacketCount := net.txPacketCount + 1 }

/-- An `arp_packet_t` for Ethernet and IPv4. -/
def arpPacket (oper : BitVec 16) (srcMac : BitVec 48) (srcIp : BitVec 32) (dstMac : BitVec 48)
    (dstIp : BitVec 32) : List (BitVec 8) :=
  bytesOf (htons arpHtypeEthernet) ++ bytesOf (htons arpPtypeIpv4) ++ [6, 4] ++
    bytesOf (htons oper) ++ bytesOf srcMac ++ bytesOf srcIp ++ bytesOf dstMac ++ bytesOf dstIp

def netSendArpRequest (net : Net) (targetIp : BitVec 32) : NetM Net :=
  netSendEth net broadcastMac ethertypeArp (arpPacket arpOpRequest net.myMac net.myIp 0 targetIp)

/-! ## §3. IPv4. -/

/-- The header that `net_send_ipv4` builds. -/
def ipv4Header (totalLen : BitVec 16) (proto : BitVec 8) (checksum : BitVec 16)
    (srcIp dstIp : BitVec 32) : List (BitVec 8) :=
  [0x45, 0] ++ bytesOf (htons totalLen) ++ bytesOf (htons 0) ++ bytesOf (htons 0) ++ [64, proto] ++
    bytesOf checksum ++ bytesOf srcIp ++ bytesOf dstIp

def netSendIpv4 (net : Net) (destIp : BitVec 32) (destMac : BitVec 48) (proto : BitVec 8)
    (data : List (BitVec 8)) : NetM Net := do
  let totalLen := BitVec.ofNat 16 sizeofIpv4 + len16 data
  let checksum := netChecksum (ipv4Header totalLen proto 0 net.myIp destIp)
  Logged.tell (.buffer totalLen.toNat (sizeofIpv4 + data.length))
  netSendEth net destMac ethertypeIpv4
    ((ipv4Header totalLen proto checksum net.myIp destIp ++ data).take totalLen.toNat)

/-! ## §4. TCP and UDP. -/

/-- What each call of `e1000_poll` during one wait for an ARP reply does to the
    state, until the time is up. -/
abbrev PollWait := List (Net → Net)

/-- The wait of `net_send_tcp`: poll, and look the address up again. -/
def arpWait : PollWait → Net → BitVec 32 → NetM (Option (BitVec 48) × Net)
  | [], net, _ => pure (none, net)
  | poll :: rest, net, ip => do
    Logged.tell .poll
    match arpLookup (poll net) ip with
    | some mac => pure (some mac, poll net)
    | none => arpWait rest (poll net) ip

/-- How `net_send_tcp` finds the MAC address of its target. -/
def tcpTargetMac (wait : PollWait) (net : Net) (targetIp : BitVec 32) :
    NetM (Option (BitVec 48) × Net) :=
  match arpLookup net targetIp with
  | some mac => pure (some mac, net)
  | none => do
    let net ← netSendArpRequest net targetIp
    arpWait wait net targetIp

/-- The header that `net_send_tcp` builds. -/
def tcpHeader (srcPort dstPort : BitVec 16) (seq ack : BitVec 32) (flags : BitVec 8)
    (checksum : BitVec 16) : List (BitVec 8) :=
  bytesOf (htons srcPort) ++ bytesOf (htons dstPort) ++ bytesOf (htonl seq) ++
    bytesOf (htonl ack) ++ [0x50, flags] ++ bytesOf (htons 8192) ++ bytesOf checksum ++
    bytesOf (htons 0)

/-- The pseudo-header that the TCP checksum covers as well. -/
def tcpPseudo (srcIp dstIp : BitVec 32) (totalLen : BitVec 16) : List (BitVec 8) :=
  bytesOf srcIp ++ bytesOf dstIp ++ [0, ipv4ProtoTcp] ++ bytesOf (htons totalLen)

/-- `net_send_tcp`, once the MAC address of the target is known. -/
def netSendTcpTo (net : Net) (targetMac : BitVec 48) (targetIp : BitVec 32)
    (srcPort dstPort : BitVec 16) (seq ack : BitVec 32) (flags : BitVec 8)
    (data : List (BitVec 8)) : NetM Net := do
  let totalLen := BitVec.ofNat 16 sizeofTcp + len16 data
  let pseudo := tcpPseudo net.myIp targetIp totalLen
  let blank := (tcpHeader srcPort dstPort seq ack flags 0 ++ data).take totalLen.toNat
  let checksum := ~~~(foldSum (sumWords (sumWords 0 pseudo) blank)).setWidth 16
  Logged.tell (.buffer totalLen.toNat (sizeofTcp + data.length))
  netSendIpv4 net targetIp targetMac ipv4ProtoTcp
    ((tcpHeader srcPort dstPort seq ack flags checksum ++ data).take totalLen.toNat)

def netSendTcp (wait : PollWait) (net : Net) (targetIp : BitVec 32) (srcPort dstPort : BitVec 16)
    (seq ack : BitVec 32) (flags : BitVec 8) (data : List (BitVec 8)) : NetM Net := do
  let found ← tcpTargetMac wait net targetIp
  match found.1 with
  | some mac => netSendTcpTo found.2 mac targetIp srcPort dstPort seq ack flags data
  | none => pure found.2

/-- The header that `net_send_udp` builds. -/
def udpHeader (srcPort dstPort totalLen : BitVec 16) : List (BitVec 8) :=
  bytesOf (htons srcPort) ++ bytesOf (htons dstPort) ++ bytesOf (htons totalLen) ++
    bytesOf (0 : BitVec 16)

def netSendUdp (net : Net) (targetIp : BitVec 32) (srcPort dstPort : BitVec 16)
    (data : List (BitVec 8)) : NetM Net :=
  match if targetIp = 0xFFFFFFFF then some broadcastMac else arpLookup net targetIp with
  | none => pure net
  | some mac => do
    let totalLen := BitVec.ofNat 16 sizeofUdp + len16 data
    Logged.tell (.buffer totalLen.toNat (sizeofUdp + data.length))
    netSendIpv4 net targetIp mac ipv4ProtoUdp
      ((udpHeader srcPort dstPort totalLen ++ data).take totalLen.toNat)

end ZohoOs
