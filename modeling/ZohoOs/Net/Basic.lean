/-
  ZohoOs.Net.Basic — the state of the network stack (net.c, tcp.c, dhcp.c).

  The stack reads a received frame through pointers into the buffer it lies
  in, so the functions that handle it read a byte memory, and log every access
  with its address and length.  Addresses of four bytes and of six are kept as
  the little-endian words that `memcmp` and `memcpy` move.
-/
import ZohoOs.Lib.Logged
import ZohoOs.Lib.Memory

namespace ZohoOs

open ZohoOs.Lib

/-! ## §1. Byte order. -/

/-- `swap16`, for `htons` and `ntohs` alike. -/
def swap16 (x : BitVec 16) : BitVec 16 := ((x &&& 0x00ff#16) <<< 8) ||| ((x &&& 0xff00#16) >>> 8)

/-- `swap32`, for `htonl` and `ntohl` alike. -/
def swap32 (x : BitVec 32) : BitVec 32 :=
  ((x &&& 0x000000ff#32) <<< 24) ||| ((x &&& 0x0000ff00#32) <<< 8) |||
    ((x &&& 0x00ff0000#32) >>> 8) ||| ((x &&& 0xff000000#32) >>> 24)

abbrev htons := swap16
abbrev ntohs := swap16
abbrev htonl := swap32
abbrev ntohl := swap32

/-! ## §2. Constants of net.h. -/

def ethertypeIpv4 : BitVec 16 := 0x0800
def ethertypeArp : BitVec 16 := 0x0806

def arpHtypeEthernet : BitVec 16 := 1
def arpPtypeIpv4 : BitVec 16 := 0x0800
def arpOpRequest : BitVec 16 := 1
def arpOpReply : BitVec 16 := 2

def ipv4ProtoIcmp : BitVec 8 := 1
def ipv4ProtoTcp : BitVec 8 := 6
def ipv4ProtoUdp : BitVec 8 := 17

def icmpTypeEchoReply : BitVec 8 := 0
def icmpTypeEchoRequest : BitVec 8 := 8

def tcpFlagFin : BitVec 8 := 1
def tcpFlagSyn : BitVec 8 := 2
def tcpFlagRst : BitVec 8 := 4
def tcpFlagAck : BitVec 8 := 16

/-- The sizes of the packed headers: `eth_header_t`, `ipv4_packet_t`,
    `icmp_packet_t`, `udp_packet_t`, `tcp_packet_t`, `arp_packet_t` and
    `dhcp_packet_t`. -/
def sizeofEth : Nat := 14
def sizeofIpv4 : Nat := 20
def sizeofIcmp : Nat := 8
def sizeofUdp : Nat := 8
def sizeofTcp : Nat := 20
def sizeofArp : Nat := 28
def sizeofDhcp : Nat := 240

/-! ## §3. State. -/

/-- The functions that are passed to `net_udp_bind`. -/
inductive UdpHandler where
  | dhcpHandle
  deriving DecidableEq

/-- The functions that are passed to `net_tcp_bind`. -/
inductive TcpHandler where
  | tcpHandlePacket
  deriving DecidableEq

structure ArpEntry where
  ip : BitVec 32
  mac : BitVec 48
  valid : Bool
  deriving DecidableEq

structure UdpBinding where
  port : BitVec 16
  handler : UdpHandler
  valid : Bool
  deriving DecidableEq

structure TcpBinding where
  port : BitVec 16
  handler : TcpHandler
  valid : Bool
  deriving DecidableEq

inductive TcpState where
  | closed | listen | synSent | synReceived | established | finWait1 | finWait2 | closeWait
  | closing | lastAck | timeWait
  deriving DecidableEq

structure TcpConn where
  remoteIp : BitVec 32
  localPort : BitVec 16
  remotePort : BitVec 16
  state : TcpState
  seq : BitVec 32
  ack : BitVec 32
  remoteSeq : BitVec 32
  remoteAck : BitVec 32
  deriving DecidableEq

abbrev arpCacheSize : Nat := 32
abbrev udpMaxBindings : Nat := 16
abbrev tcpMaxBindings : Nat := 16
abbrev maxConnections : Nat := 16

/-- `net_trace_enabled`, which nothing changes. -/
def netTraceEnabled : Bool := true

/-- `broadcast_mac`. -/
def broadcastMac : BitVec 48 := 0xFFFFFFFFFFFF

/-- The static variables of net.c, tcp.c and dhcp.c, and the MAC address that
    the driver read from the card. -/
structure Net where
  rxPacketCount : Word
  txPacketCount : Word
  myIp : BitVec 32
  myMac : BitVec 48
  macAddr : BitVec 48
  arpCache : Fin arpCacheSize → ArpEntry
  udpBindings : Fin udpMaxBindings → UdpBinding
  tcpBindings : Fin tcpMaxBindings → TcpBinding
  connections : Fin maxConnections → TcpConn
  nextLocalPort : BitVec 16
  dhcpXid : BitVec 32
  dhcpOfferedIp : BitVec 32
  dhcpServerIp : BitVec 32

/-- What calls of the stack do besides changing its state. -/
inductive NetEvent where
  /-- `n` bytes of the received frame are read at `p`. -/
  | read (p : Word) (n : Nat)
  /-- A buffer of `size` bytes is allocated, and `written` bytes are written
      to it. -/
  | buffer (size written : Nat)
  /-- `e1000_send_packet` gets this frame. -/
  | send (frame : List (BitVec 8))
  /-- `e1000_poll` is called. -/
  | poll
  /-- A UDP handler is called, with the payload at `data`. -/
  | udpHandler (h : UdpHandler) (srcIp : BitVec 32) (srcPort dstPort : BitVec 16) (data : Word)
      (len : BitVec 16)
  /-- A TCP handler is called, with the segment at `tcp` and its payload at
      `data`. -/
  | tcpHandler (h : TcpHandler) (srcIp : BitVec 32) (srcPort dstPort : BitVec 16) (tcp data : Word)
      (len : BitVec 16)
  deriving DecidableEq

/-! ## §4. Tables. -/

/-- The first match in the ARP cache. -/
def arpLookup (net : Net) (ip : BitVec 32) : Option (BitVec 48) :=
  ((List.finRange arpCacheSize).find? fun i =>
    (net.arpCache i).valid ∧ (net.arpCache i).ip = ip).map fun i => (net.arpCache i).mac

/-- `net_init`; a binding that is not valid is never called. -/
def netInit (net : Net) : Net :=
  { net with
    myMac := net.macAddr
    arpCache := fun _ => ⟨0, 0, false⟩
    udpBindings := fun i => { net.udpBindings i with port := 0, valid := false }
    tcpBindings := fun i => { net.tcpBindings i with port := 0, valid := false } }

def netUdpBind (net : Net) (port : BitVec 16) (handler : UdpHandler) : Net :=
  match (List.finRange udpMaxBindings).find? fun i => ¬ (net.udpBindings i).valid with
  | some i => { net with udpBindings := Function.update net.udpBindings i ⟨port, handler, true⟩ }
  | none => net

def netTcpBind (net : Net) (port : BitVec 16) (handler : TcpHandler) : Net :=
  match (List.finRange tcpMaxBindings).find? fun i => ¬ (net.tcpBindings i).valid with
  | some i => { net with tcpBindings := Function.update net.tcpBindings i ⟨port, handler, true⟩ }
  | none => net

/-- `net_set_ip`. -/
def netSetIp (net : Net) (ip : BitVec 32) : Net := { net with myIp := ip }

/-! ## §5. Reading the frame. -/

abbrev NetM := Logged NetEvent

def readMem8 (mem : Mem) (p : Word) : NetM (BitVec 8) := ⟨mem.load8 p, [.read p 1]⟩

def readMem16 (mem : Mem) (p : Word) : NetM (BitVec 16) := ⟨mem.load16 p, [.read p 2]⟩

def readMem32 (mem : Mem) (p : Word) : NetM (BitVec 32) := ⟨mem.load32 p, [.read p 4]⟩

def load48 (mem : Mem) (p : Word) : BitVec 48 := mem.load16 (p + 4) ++ mem.load32 p

/-- Six bytes, a MAC address. -/
def readMem48 (mem : Mem) (p : Word) : NetM (BitVec 48) := ⟨load48 mem p, [.read p 6]⟩

def loadBytes (mem : Mem) (p : Word) (n : Nat) : List (BitVec 8) :=
  (List.range n).map fun k => mem.load8 (p + BitVec.ofNat 64 k)

theorem length_loadBytes (mem : Mem) (p : Word) (n : Nat) : (loadBytes mem p n).length = n := by
  unfold loadBytes
  rw [List.length_map, List.length_range]

/-- The bytes that `memcpy` copies. -/
def readMemBytes (mem : Mem) (p : Word) (n : Nat) : NetM (List (BitVec 8)) :=
  ⟨loadBytes mem p n, [.read p n]⟩

end ZohoOs
