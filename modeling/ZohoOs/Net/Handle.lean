/-
  ZohoOs.Net.Handle — the receive path (net.c, tcp.c, dhcp.c).

  `net_handle_packet` dispatches a frame to ARP or IPv4, that to ICMP, UDP or
  TCP, and these to the handler that is bound to the port.  Every layer gets a
  pointer into the frame and a 16-bit length that the layer above computed
  from the header it read.

  The frame is not overwritten while it is handled.  Two pointers into the one
  frame compare as their offsets do.
-/
import ZohoOs.Net.Send

namespace ZohoOs

open ZohoOs.Lib

/-- What the waits for an ARP reply in one call of `tcp_handle_packet` do: it
    calls `net_send_tcp` twice at most. -/
structure PollWaits where
  first : PollWait
  second : PollWait

/-- What is read for the trace, if it is enabled. -/
def traced {α : Type} (x : NetM α) : NetM Unit :=
  if netTraceEnabled then x >>= fun _ => pure () else pure ()

/-! ## §1. ARP. -/

/-- The entry that an ARP packet updates: the first that is free or holds the
    address of its sender. -/
def arpSlot (net : Net) (srcIp : BitVec 32) : Option (Fin arpCacheSize) :=
  (List.finRange arpCacheSize).find? fun i =>
    ¬ (net.arpCache i).valid ∨ (net.arpCache i).ip = srcIp

def arpUpdate (net : Net) (srcIp : BitVec 32) (srcMac : BitVec 48) : Net :=
  match arpSlot net srcIp with
  | some i => { net with arpCache := Function.update net.arpCache i ⟨srcIp, srcMac, true⟩ }
  | none => net

def netHandleArp (net : Net) (mem : Mem) (data : Word) (len : BitVec 16) : NetM Net :=
  if len.toNat < sizeofArp then pure net
  else do
    let htype ← readMem16 mem data
    let ptype ← readMem16 mem (data + 2)
    if ntohs htype ≠ arpHtypeEthernet ∨ ntohs ptype ≠ arpPtypeIpv4 then pure net
    else do
      let srcMac ← readMem48 mem (data + 8)
      let srcIp ← readMem32 mem (data + 14)
      let oper ← readMem16 mem (data + 6)
      let dstIp ← readMem32 mem (data + 24)
      if ntohs oper = arpOpRequest ∧ dstIp = net.myIp then
        netSendEth (arpUpdate net srcIp srcMac) srcMac ethertypeArp
          (arpPacket arpOpReply net.myMac net.myIp srcMac srcIp)
      else pure (arpUpdate net srcIp srcMac)

/-! ## §2. ICMP. -/

/-- The reply to an echo request: type and checksum are set, the rest is
    copied. -/
def icmpReply (request : List (BitVec 8)) : List (BitVec 8) :=
  let blank := icmpTypeEchoReply :: (request.take 2).drop 1 ++ [0, 0] ++ request.drop 4
  icmpTypeEchoReply :: (request.take 2).drop 1 ++ bytesOf (netChecksum blank) ++ request.drop 4

def netHandleIcmp (net : Net) (mem : Mem) (srcMac : Word) (ip data : Word) (len : BitVec 16) :
    NetM Net :=
  if len.toNat < sizeofIcmp then pure net
  else do
    let type ← readMem8 mem data
    if type = icmpTypeEchoRequest then do
      let request ← readMemBytes mem data len.toNat
      Logged.tell (.buffer len.toNat request.length)
      let srcIp ← readMem32 mem (ip + 12)
      let srcMac ← readMem48 mem srcMac
      netSendIpv4 net srcIp srcMac ipv4ProtoIcmp (icmpReply request)
    else if type = icmpTypeEchoReply then do
      let _ ← readMem32 mem (ip + 12)
      pure net
    else pure net

/-! ## §3. DHCP. -/

def dhcpBootrequest : BitVec 8 := 1
def dhcpBootreply : BitVec 8 := 2
def dhcpMagicCookie : BitVec 32 := 0x63825363
def dhcpMsgDiscover : BitVec 8 := 1
def dhcpMsgOffer : BitVec 8 := 2
def dhcpMsgRequest : BitVec 8 := 3
def dhcpMsgAck : BitVec 8 := 5
def dhcpOptMsgType : BitVec 8 := 53
def dhcpOptReqIp : BitVec 8 := 50
def dhcpOptServer : BitVec 8 := 54
def dhcpOptEnd : BitVec 8 := 255

/-- A `dhcp_packet_t` that `memset` cleared, with the fields that the client
    sets. -/
def dhcpPacket (net : Net) (flags : BitVec 16) : List (BitVec 8) :=
  [dhcpBootrequest, 1, 6, 0] ++ bytesOf (htonl net.dhcpXid) ++ bytesOf (0 : BitVec 16) ++
    bytesOf (htons flags) ++ List.replicate 16 0 ++ bytesOf net.macAddr ++
    List.replicate (10 + 64 + 128) 0 ++ bytesOf (htonl dhcpMagicCookie)

/-- The options of a DHCPREQUEST. -/
def dhcpRequestOptions (offeredIp serverIp : BitVec 32) : List (BitVec 8) :=
  [dhcpOptMsgType, 1, dhcpMsgRequest, dhcpOptReqIp, 4] ++ bytesOf offeredIp ++
    [dhcpOptServer, 4] ++ bytesOf serverIp ++ [dhcpOptEnd]

/-- The option loop of `dhcp_handle`, at offset `opt` of the `len` bytes at
    `data`; it carries `msg_type` and `dhcp_server_ip`. -/
def dhcpOptions (mem : Mem) (data : Word) (len opt : Nat) (msgType : BitVec 8)
    (serverIp : BitVec 32) : NetM (BitVec 8 × BitVec 32) :=
  if opt < len then do
    let type ← readMem8 mem (data + BitVec.ofNat 64 opt)
    if type = dhcpOptEnd then pure (msgType, serverIp)
    else do
      let optLen ← readMem8 mem (data + BitVec.ofNat 64 (opt + 1))
      if type = dhcpOptMsgType then do
        let msgType ← readMem8 mem (data + BitVec.ofNat 64 (opt + 2))
        dhcpOptions mem data len (opt + 2 + optLen.toNat) msgType serverIp
      else if type = dhcpOptServer then do
        let serverIp ← readMem32 mem (data + BitVec.ofNat 64 (opt + 2))
        dhcpOptions mem data len (opt + 2 + optLen.toNat) msgType serverIp
      else dhcpOptions mem data len (opt + 2 + optLen.toNat) msgType serverIp
  else pure (msgType, serverIp)
termination_by len - opt

/-- The answer to an OFFER: a buffer of `sizeof(dhcp_packet_t) + 12` bytes is
    filled and sent. -/
def dhcpRequest (net : Net) : NetM Net := do
  let totalLen := sizeofDhcp + 12
  let req := dhcpPacket net 0 ++ dhcpRequestOptions net.dhcpOfferedIp net.dhcpServerIp
  Logged.tell (.buffer totalLen req.length)
  netSendUdp net 0xFFFFFFFF 68 67 (req.take totalLen)

def dhcpHandle (net : Net) (mem : Mem) (data : Word) (len : BitVec 16) : NetM Net :=
  if len.toNat < sizeofDhcp then pure net
  else do
    let op ← readMem8 mem data
    let magic ← readMem32 mem (data + 236)
    if op ≠ dhcpBootreply ∨ ntohl magic ≠ dhcpMagicCookie then pure net
    else do
      let xid ← readMem32 mem (data + 4)
      if xid ≠ htonl net.dhcpXid then pure net
      else do
        let found ← dhcpOptions mem data len.toNat sizeofDhcp 0 net.dhcpServerIp
        let net := { net with dhcpServerIp := found.2 }
        if found.1 = dhcpMsgOffer then do
          let yiaddr ← readMem32 mem (data + 16)
          dhcpRequest { net with dhcpOfferedIp := yiaddr }
        else if found.1 = dhcpMsgAck then do
          let yiaddr ← readMem32 mem (data + 16)
          pure (netSetIp net yiaddr)
        else pure net

/-! ## §4. UDP. -/

/-- The first binding of a port. -/
def udpBound (net : Net) (port : BitVec 16) : Option UdpHandler :=
  ((List.finRange udpMaxBindings).find? fun i =>
    (net.udpBindings i).valid ∧ (net.udpBindings i).port = port).map fun i =>
      (net.udpBindings i).handler

def callUdpHandler (h : UdpHandler) (net : Net) (mem : Mem) (srcIp : BitVec 32)
    (srcPort dstPort : BitVec 16) (data : Word) (len : BitVec 16) : NetM Net := do
  Logged.tell (.udpHandler h srcIp srcPort dstPort data len)
  match h with
  | .dhcpHandle => dhcpHandle net mem data len

def netHandleUdp (net : Net) (mem : Mem) (ip data : Word) (len : BitVec 16) : NetM Net :=
  if len.toNat < sizeofUdp then pure net
  else do
    let srcPort ← readMem16 mem data
    let dstPort ← readMem16 mem (data + 2)
    let udpLen ← readMem16 mem (data + 4)
    if (ntohs udpLen).toNat < sizeofUdp ∨ len < ntohs udpLen then pure net
    else do
      let srcIp ← readMem32 mem (ip + 12)
      match udpBound net (ntohs dstPort) with
      | some h =>
        callUdpHandler h net mem srcIp (ntohs srcPort) (ntohs dstPort)
          (data + BitVec.ofNat 64 sizeofUdp) (ntohs udpLen - BitVec.ofNat 16 sizeofUdp)
      | none => pure net

/-! ## §5. TCP. -/

/-- The connection that a segment belongs to. -/
def tcpFind (net : Net) (srcIp : BitVec 32) (srcPort dstPort : BitVec 16) :
    Option (Fin maxConnections) :=
  (List.finRange maxConnections).find? fun i =>
    (net.connections i).state ≠ .closed ∧ (net.connections i).localPort = dstPort ∧
      (net.connections i).remotePort = srcPort ∧ (net.connections i).remoteIp = srcIp

/-- Write to one connection. -/
def Net.setConn (net : Net) (i : Fin maxConnections) (c : TcpConn) : Net :=
  { net with connections := Function.update net.connections i c }

/-- No connection matches: a SYN is answered with a RST. -/
def tcpReject (waits : PollWaits) (net : Net) (mem : Mem) (srcIp : BitVec 32)
    (srcPort dstPort : BitVec 16) (tcp : Word) : NetM Net := do
  let flags ← readMem8 mem (tcp + 13)
  if flags &&& tcpFlagSyn ≠ 0 then do
    let seq ← readMem32 mem (tcp + 4)
    netSendTcp waits.first net srcIp dstPort srcPort 0 (ntohl seq + 1) (tcpFlagRst ||| tcpFlagAck) []
  else pure net

/-- The handshake: the connection waits for its SYN+ACK. -/
def tcpSynSent (waits : PollWaits) (net : Net) (i : Fin maxConnections) (srcIp : BitVec 32)
    (srcPort : BitVec 16) (seq ack : BitVec 32) (flags : BitVec 8) : NetM Net :=
  if flags &&& tcpFlagSyn ≠ 0 ∧ flags &&& tcpFlagAck ≠ 0 then
    let c := { net.connections i with
      state := .established, remoteSeq := seq + 1, ack := seq + 1, remoteAck := ack }
    netSendTcp waits.first (net.setConn i c) srcIp c.localPort srcPort c.seq c.ack tcpFlagAck []
  else pure net

/-- The remote side closes an established connection. -/
def tcpEstablished (waits : PollWaits) (net : Net) (i : Fin maxConnections) (srcIp : BitVec 32)
    (srcPort : BitVec 16) (seq : BitVec 32) (flags : BitVec 8) : NetM Net :=
  if flags &&& tcpFlagFin ≠ 0 then do
    let c := { net.connections i with state := .closeWait, ack := seq + 1 }
    let net ← netSendTcp waits.first (net.setConn i c) srcIp c.localPort srcPort c.seq c.ack
      tcpFlagAck []
    -- the wait may have changed the connection
    let c := net.connections i
    let net ← netSendTcp waits.second net srcIp c.localPort srcPort c.seq c.ack
      (tcpFlagFin ||| tcpFlagAck) []
    let c := net.connections i
    pure (net.setConn i { c with state := .lastAck, seq := c.seq + 1 })
  else pure net

/-- The last acknowledgement closes the connection. -/
def tcpLastAck (net : Net) (i : Fin maxConnections) (flags : BitVec 8) : Net :=
  if flags &&& tcpFlagAck ≠ 0 then net.setConn i { net.connections i with state := .closed }
  else net

def tcpHandlePacket (waits : PollWaits) (net : Net) (mem : Mem) (srcIp : BitVec 32)
    (srcPort dstPort : BitVec 16) (tcp : Word) : NetM Net :=
  match tcpFind net srcIp srcPort dstPort with
  | none => tcpReject waits net mem srcIp srcPort dstPort tcp
  | some i => do
    let seq ← readMem32 mem (tcp + 4)
    let ack ← readMem32 mem (tcp + 8)
    match (net.connections i).state with
    | .synSent => do
      let flags ← readMem8 mem (tcp + 13)
      tcpSynSent waits net i srcIp srcPort (ntohl seq) (ntohl ack) flags
    | .established => do
      let flags ← readMem8 mem (tcp + 13)
      tcpEstablished waits net i srcIp srcPort (ntohl seq) flags
    | .lastAck => do
      let flags ← readMem8 mem (tcp + 13)
      pure (tcpLastAck net i flags)
    | _ => pure net

/-- The first binding of a port. -/
def tcpBound (net : Net) (port : BitVec 16) : Option TcpHandler :=
  ((List.finRange tcpMaxBindings).find? fun i =>
    (net.tcpBindings i).valid ∧ (net.tcpBindings i).port = port).map fun i =>
      (net.tcpBindings i).handler

def callTcpHandler (h : TcpHandler) (waits : PollWaits) (net : Net) (mem : Mem)
    (srcIp : BitVec 32) (srcPort dstPort : BitVec 16) (tcp data : Word) (len : BitVec 16) :
    NetM Net := do
  Logged.tell (.tcpHandler h srcIp srcPort dstPort tcp data len)
  match h with
  | .tcpHandlePacket => tcpHandlePacket waits net mem srcIp srcPort dstPort tcp

/-- The length of the TCP header, from its data offset. -/
def tcpHeaderLen (offRes : BitVec 8) : BitVec 8 := (offRes >>> 4) * 4

def netHandleTcp (waits : PollWaits) (net : Net) (mem : Mem) (ip data : Word) (len : BitVec 16) :
    NetM Net :=
  if len.toNat < sizeofTcp then pure net
  else do
    let srcPort ← readMem16 mem data
    let dstPort ← readMem16 mem (data + 2)
    let offRes ← readMem8 mem (data + 12)
    let headerLen := (tcpHeaderLen offRes).setWidth 16
    if headerLen.toNat < sizeofTcp ∨ len < headerLen then pure net
    else do
      let srcIp ← readMem32 mem (ip + 12)
      traced (readMem8 mem (data + 13))
      match tcpBound net (ntohs dstPort) with
      | some h =>
        callTcpHandler h waits net mem srcIp (ntohs srcPort) (ntohs dstPort) data
          (data + headerLen.setWidth 64) (len - headerLen)
      | none => pure net

/-! ## §6. IPv4 and Ethernet. -/

/-- The length of the IPv4 header, from its IHL field. -/
def ipv4HeaderLen (versionIhl : BitVec 8) : BitVec 16 := (versionIhl &&& 0x0F).setWidth 16 * 4

/-- What a host listens to: its own address and the broadcast address. -/
def ForUs (net : Net) (dstIp : BitVec 32) : Prop := dstIp = net.myIp ∨ dstIp = 0xFFFFFFFF

instance (net : Net) (dstIp : BitVec 32) : Decidable (ForUs net dstIp) :=
  inferInstanceAs (Decidable (_ ∨ _))

def netHandleIpv4 (waits : PollWaits) (net : Net) (mem : Mem) (srcMac data : Word)
    (len : BitVec 16) : NetM Net :=
  if len.toNat < sizeofIpv4 then pure net
  else do
    let dstIp ← readMem32 mem (data + 16)
    if ¬ ForUs net dstIp then pure net
    else do
      let versionIhl ← readMem8 mem data
      let totalLen ← readMem16 mem (data + 2)
      let proto ← readMem8 mem (data + 9)
      let payload := data + (ipv4HeaderLen versionIhl).setWidth 64
      let payloadLen := ntohs totalLen - ipv4HeaderLen versionIhl
      if proto = ipv4ProtoIcmp then netHandleIcmp net mem srcMac data payload payloadLen
      else if proto = ipv4ProtoUdp then netHandleUdp net mem data payload payloadLen
      else if proto = ipv4ProtoTcp then netHandleTcp waits net mem data payload payloadLen
      else pure net

def netHandlePacket (waits : PollWaits) (net : Net) (mem : Mem) (data : Word) (len : BitVec 16) :
    NetM Net :=
  if len.toNat < sizeofEth then pure net
  else do
    let net := { net with rxPacketCount := net.rxPacketCount + 1 }
    let type ← readMem16 mem (data + 12)
    traced (readMem48 mem (data + 6))
    let payload := data + BitVec.ofNat 64 sizeofEth
    let payloadLen := len - BitVec.ofNat 16 sizeofEth
    if ntohs type = ethertypeArp then netHandleArp net mem payload payloadLen
    else if ntohs type = ethertypeIpv4 then netHandleIpv4 waits net mem (data + 6) payload payloadLen
    else pure net

/-! ## §7. Starting. -/

/-- `dhcp_init`. -/
def dhcpInit (net : Net) : Net := netUdpBind net 68 .dhcpHandle

/-- `dhcp_discover`. -/
def dhcpDiscover (net : Net) : NetM Net := do
  let totalLen := sizeofDhcp + 4
  let pkt := dhcpPacket net 0x8000 ++ [dhcpOptMsgType, 1, dhcpMsgDiscover, dhcpOptEnd]
  Logged.tell (.buffer totalLen pkt.length)
  netSendUdp net 0xFFFFFFFF 68 67 (pkt.take totalLen)

/-- `tcp_connect`. -/
def tcpConnect (wait : PollWait) (net : Net) (ip : BitVec 32) (port : BitVec 16) : NetM Net :=
  match (List.finRange maxConnections).find? fun i => (net.connections i).state = .closed with
  | none => pure net
  | some i => do
    let localPort := net.nextLocalPort
    let c := { net.connections i with
      remoteIp := ip, remotePort := port, localPort := localPort, state := .synSent
      seq := 0x12345678, ack := 0 }
    let net := netTcpBind { net.setConn i c with nextLocalPort := localPort + 1 } localPort
      .tcpHandlePacket
    let net ← netSendTcp wait net ip localPort port 0x12345678 0 tcpFlagSyn []
    pure (net.setConn i { net.connections i with seq := (net.connections i).seq + 1 })

end ZohoOs
