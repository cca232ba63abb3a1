/-
  ZohoOs.Net.Echo — the answer to an echo request (net.c).

  A request passes three parsers: Ethernet, IPv4, where options may stand
  between the header and the message, and ICMP.  Behind the packet there may be
  padding of the frame.  The reply passes three builders, and has neither.

  Main results:
    * `netHandleIcmp_frames`, `netHandlePacket_icmp` — the one frame that is
      sent;
    * `echo_reply` — it is a reply with the data of the request, and verifies.
-/
import ZohoOs.Net.Checksum
import ZohoOs.Net.Sizes

namespace ZohoOs

open ZohoOs.Lib

/-! ## §1. Bytes that are copied. -/

theorem byte_load48 (mem : Mem) (p : Word) {k : Nat} (hk : k < 6) :
    (load48 mem p).extractLsb' (8 * k) 8 = mem (p + BitVec.ofNat 64 k) := by
  unfold load48
  by_cases hlow : k < 4
  · rw [Mem.extractLsb'_append_low _ _ (by omega), Mem.byte_load32 mem p hlow]
  · have hoff : 8 * k - 32 = 8 * (k - 4) := by omega
    have hsum : 4 + (k - 4) = k := by omega
    rw [Mem.extractLsb'_append_high _ _ (by omega), hoff, Mem.byte_load16 mem _ (by omega),
      BitVec.add_assoc, show (4 : Word) = BitVec.ofNat 64 4 from rfl, ← BitVec.ofNat_add, hsum]

theorem bytesOf_load48 (mem : Mem) (p : Word) : bytesOf (load48 mem p) = loadBytes mem p 6 :=
  List.map_congr_left fun _ hk => byte_load48 mem p (List.mem_range.mp hk)

theorem bytesOf_load32 (mem : Mem) (p : Word) : bytesOf (mem.load32 p) = loadBytes mem p 4 :=
  List.map_congr_left fun _ hk => mem.byte_load32 p (List.mem_range.mp hk)

/-! ## §2. The frame that is sent. -/

/-- A computation that sends nothing before the rest. -/
theorem framesOf_bind_silent {α β : Type} {x : NetM α} (h : framesOf x.log = []) (f : α → NetM β) :
    framesOf (x >>= f).log = framesOf (f x.val).log := by
  rw [framesOf_bind, h, List.nil_append]

section

variable (net : Net) {mem : Mem} {data : Word} {len : BitVec 16}

/-- The reply of ICMP. -/
theorem netHandleIcmp_frames {srcMac ip : Word} (hsize : sizeofIcmp ≤ len.toNat)
    (hfit : 34 + len.toNat < 2 ^ 16) (htype : mem.load8 data = icmpTypeEchoRequest) :
    framesOf (netHandleIcmp net mem srcMac ip data len).log =
      [ipv4Frame (load48 mem srcMac) net.myMac ipv4ProtoIcmp net.myIp (mem.load32 (ip + 12))
        (icmpReply (loadBytes mem data len.toNat))] := by
  have hrequest := length_loadBytes mem data len.toNat
  have hreply : (icmpReply (loadBytes mem data len.toNat)).length = len.toNat := by
    rw [length_icmpReply (by rw [hrequest]; exact hsize), hrequest]
  unfold netHandleIcmp
  rw [if_neg (Nat.not_lt_of_le hsize), framesOf_bind_silent rfl, val_readMem8, if_pos htype,
    framesOf_bind_silent rfl, framesOf_bind_silent rfl, framesOf_bind_silent rfl,
    framesOf_bind_silent rfl]
  exact netSendIpv4_frame net _ _ _ (by rw [show (readMemBytes mem data len.toNat).val =
    loadBytes mem data len.toNat from rfl, hreply]; exact hfit)

/-- A packet with an ICMP message for this host. -/
theorem netHandleIpv4_icmp (waits : PollWaits) {srcMac ip : Word} (hsize : sizeofIpv4 ≤ len.toNat)
    (hus : ForUs net (mem.load32 (ip + 16))) (hproto : mem.load8 (ip + 9) = ipv4ProtoIcmp) :
    framesOf (netHandleIpv4 waits net mem srcMac ip len).log =
      framesOf (netHandleIcmp net mem srcMac ip
        (ip + BitVec.ofNat 64 ((mem.load8 ip &&& 0x0F).toNat * 4)) (ipv4PayloadLen mem ip)).log := by
  unfold netHandleIpv4
  rw [if_neg (Nat.not_lt_of_le hsize), framesOf_bind_silent rfl, val_readMem32,
    if_neg (not_not_intro hus), framesOf_bind_silent rfl, framesOf_bind_silent rfl,
    framesOf_bind_silent rfl]
  dsimp only
  rw [val_readMem8, val_readMem16, val_readMem8, hproto, if_pos rfl, ipv4HeaderLen_ptr]
  rfl

/-- A frame with a packet. -/
theorem netHandlePacket_ipv4 (waits : PollWaits) (hsize : sizeofEth ≤ len.toNat)
    (htype : ntohs (mem.load16 (data + 12)) = ethertypeIpv4) :
    framesOf (netHandlePacket waits net mem data len).log =
      framesOf (netHandleIpv4 waits { net with rxPacketCount := net.rxPacketCount + 1 } mem
        (data + 6) (data + 14) (len - 14)).log := by
  have harp : ¬ ntohs (mem.load16 (data + 12)) = ethertypeArp := by
    rw [htype]
    decide
  unfold netHandlePacket
  rw [if_neg (Nat.not_lt_of_le hsize)]
  dsimp only
  rw [framesOf_bind_silent rfl, framesOf_bind_silent rfl, val_readMem16, if_neg harp, if_pos htype]
  rfl

end

/-- **A well-formed echo request** for this host, in the `len` bytes at `data`:
    its packet lies in the frame, and has a header of 5 to 15 words. -/
structure EchoRequest (net : Net) (mem : Mem) (data : Word) (len : BitVec 16) : Prop where
  short : len.toNat ≤ 2048
  type : ntohs (mem.load16 (data + 12)) = ethertypeIpv4
  ihl : 5 ≤ (mem.load8 (data + 14) &&& 0x0F).toNat
  total : 14 + (ntohs (mem.load16 (data + 16))).toNat ≤ len.toNat
  proto : mem.load8 (data + 23) = ipv4ProtoIcmp
  dst : mem.load32 (data + 30) = net.myIp
  message : (mem.load8 (data + 14) &&& 0x0F).toNat * 4 + 8 ≤ (ntohs (mem.load16 (data + 16))).toNat
  echo : mem.load8 (data + BitVec.ofNat 64 (14 + (mem.load8 (data + 14) &&& 0x0F).toNat * 4)) =
    icmpTypeEchoRequest

/-- The ICMP message of a frame. -/
def icmpMessage (mem : Mem) (data : Word) : List (BitVec 8) :=
  let headerLen := (mem.load8 (data + 14) &&& 0x0F).toNat * 4
  loadBytes mem (data + BitVec.ofNat 64 (14 + headerLen))
    ((ntohs (mem.load16 (data + 16))).toNat - headerLen)

theorem netHandlePacket_icmp {net : Net} {mem : Mem} {data : Word} {len : BitVec 16}
    (h : EchoRequest net mem data len) (waits : PollWaits) :
    framesOf (netHandlePacket waits net mem data len).log =
      [ipv4Frame (load48 mem (data + 6)) net.myMac ipv4ProtoIcmp net.myIp (mem.load32 (data + 26))
        (icmpReply (icmpMessage mem data))] := by
  have hlen := len.isLt
  have hshort := h.short
  have htotal := h.total
  have hmessage := h.message
  have hihl := h.ihl
  have hsub : (len - 14).toNat = len.toNat - 14 :=
    BitVec.toNat_sub_of_le (BitVec.le_def.mpr (show 14 ≤ len.toNat by omega))
  -- the fields, at their offsets in the packet
  have hat : ∀ k : Word, data + 14 + k = data + (14 + k) := fun k => BitVec.add_assoc data 14 k
  have hdst : mem.load32 (data + 14 + 16) = net.myIp := (congrArg mem.load32 (hat 16)).trans h.dst
  have hproto : mem.load8 (data + 14 + 9) = ipv4ProtoIcmp :=
    (congrArg mem.load8 (hat 9)).trans h.proto
  have hpointer : data + 14 + BitVec.ofNat 64 ((mem.load8 (data + 14) &&& 0x0F).toNat * 4) =
      data + BitVec.ofNat 64 (14 + (mem.load8 (data + 14) &&& 0x0F).toNat * 4) := by
    rw [hat, BitVec.ofNat_add]
    rfl
  have hpayload : (ipv4PayloadLen mem (data + 14)).toNat =
      (ntohs (mem.load16 (data + 16))).toNat - (mem.load8 (data + 14) &&& 0x0F).toNat * 4 := by
    have hle : ipv4HeaderLen (mem.load8 (data + 14)) ≤ ntohs (mem.load16 (data + 16)) := by
      rw [BitVec.le_def, ipv4HeaderLen_toNat]
      omega
    unfold ipv4PayloadLen
    rw [show data + 14 + 2 = data + 16 from hat 2, BitVec.toNat_sub_of_le hle, ipv4HeaderLen_toNat]
  have hus : ForUs { net with rxPacketCount := net.rxPacketCount + 1 }
      (mem.load32 (data + 14 + 16)) := Or.inl hdst
  rw [netHandlePacket_ipv4 net waits (show 14 ≤ len.toNat by omega) h.type,
    netHandleIpv4_icmp _ waits (show 20 ≤ (len - 14).toNat by omega) hus hproto, hpointer,
    netHandleIcmp_frames _ (show 8 ≤ _ by omega) (by omega) h.echo, hpayload,
    show data + 14 + 12 = data + 26 from hat 12]
  rfl

/-! ## §3. The reply. -/

/-- The `n` bytes at offset `o`. -/
def bytesAt (l : List (BitVec 8)) (o n : Nat) : List (BitVec 8) := (l.drop o).take n

/-- **The frame is the echo reply** to the request in the frame at `data`: it goes
    to the source of the request, has a header of 20 bytes and no padding, carries
    its code, its id, its sequence number and its data, and verifies. -/
structure IsEchoReply (net : Net) (mem : Mem) (data : Word) (reply : List (BitVec 8)) : Prop where
  destMac : bytesAt reply 0 6 = loadBytes mem (data + 6) 6
  srcMac : bytesAt reply 6 6 = bytesOf net.myMac
  type : bytesAt reply 12 2 = networkBytes ethertypeIpv4
  ihl : bytesAt reply 14 1 = [0x45]
  total : bytesAt reply 16 2 = networkBytes (BitVec.ofNat 16 (reply.length - 14))
  proto : bytesAt reply 23 1 = [ipv4ProtoIcmp]
  srcIp : bytesAt reply 26 4 = bytesOf net.myIp
  dstIp : bytesAt reply 30 4 = loadBytes mem (data + 26) 4
  header : onesSum (beWords (bytesAt reply 14 20)) = 0xFFFF
  echo : bytesAt reply 34 1 = [icmpTypeEchoReply]
  code : bytesAt reply 35 1 = bytesAt (icmpMessage mem data) 1 1
  content : reply.drop 38 = (icmpMessage mem data).drop 4
  message : onesSum (beWords (reply.drop 34)) = 0xFFFF

/-- What verifies sums to 65535. -/
theorem onesSum_of_netChecksum {data : List (BitVec 8)} (h : data.length < 2 ^ 16)
    (hzero : netChecksum data = 0) : onesSum (beWords data) = 0xFFFF := by
  have hsum := netChecksum_toNat h
  have hlt := onesResidue_lt (leWords data).sum
  rw [hzero, show (0 : BitVec 16).toNat = 0 from rfl] at hsum
  rw [onesSum_swap, onesSum_eq (leWords_lt data),
    show onesResidue (leWords data).sum = 65535 by omega]
  rfl

/-- The header of a reply verifies. -/
theorem ipv4Header_sum (totalLen : BitVec 16) (proto : BitVec 8) (srcIp dstIp : BitVec 32) :
    onesSum (beWords (ipv4Header totalLen proto
      (netChecksum (ipv4Header totalLen proto 0 srcIp dstIp)) srcIp dstIp)) = 0xFFFF := by
  have hsplit : ∀ checksum, ipv4Header totalLen proto checksum srcIp dstIp =
      ([0x45, 0] ++ bytesOf (htons totalLen) ++ bytesOf (htons 0) ++ bytesOf (htons 0) ++
        [64, proto]) ++ bytesOf checksum ++ (bytesOf srcIp ++ bytesOf dstIp) := by
    intro checksum
    unfold ipv4Header
    simp only [List.append_assoc]
  apply onesSum_of_netChecksum
  · rw [length_ipv4Header]
    decide
  · have hfront : ([0x45, 0] ++ bytesOf (htons totalLen) ++ bytesOf (htons 0) ++ bytesOf (htons 0) ++
        [64, proto]).length = 10 := rfl
    rw [hsplit, hsplit 0]
    exact netChecksum_store (by rw [hfront]) (show 10 + 2 + 8 < 2 ^ 16 by decide)

/-- The reply of ICMP verifies. -/
theorem icmpReply_sum {request : List (BitVec 8)} (hsize : sizeofIcmp ≤ request.length)
    (hfit : request.length < 2 ^ 16) : onesSum (beWords (icmpReply request)) = 0xFFFF := by
  apply onesSum_of_netChecksum
  · rw [length_icmpReply hsize]
    exact hfit
  · have h8 : 8 ≤ request.length := hsize
    have hfront : (icmpTypeEchoReply :: (request.take 2).drop 1).length = 2 := by
      simp only [List.length_cons, List.length_drop, List.length_take]
      omega
    have hback : (request.drop 4).length = request.length - 4 := List.length_drop
    exact netChecksum_store (l := icmpTypeEchoReply :: (request.take 2).drop 1) (by rw [hfront])
      (by omega)

section

variable {request : List (BitVec 8)}

/-- Behind type and code stands the checksum, and behind that the request. -/
theorem icmpReply_split (h : sizeofIcmp ≤ request.length) :
    ∃ type code rest checksum, request = type :: code :: rest ∧
      icmpReply request = icmpTypeEchoReply :: code :: (bytesOf (checksum : BitVec 16) ++ rest.drop 2) := by
  have h8 : 8 ≤ request.length := h
  match request with
  | [] => exact absurd h8 (by decide)
  | [_] => exact absurd h8 (show ¬ 8 ≤ 1 by decide)
  | type :: code :: rest => exact ⟨type, code, rest, _, rfl, rfl⟩

theorem icmpReply_code (h : sizeofIcmp ≤ request.length) :
    bytesAt (icmpReply request) 1 1 = bytesAt request 1 1 := by
  obtain ⟨type, code, rest, checksum, rfl, hreply⟩ := icmpReply_split h
  rw [hreply]
  rfl

theorem icmpReply_content (h : sizeofIcmp ≤ request.length) :
    (icmpReply request).drop 4 = request.drop 4 := by
  obtain ⟨type, code, rest, checksum, rfl, hreply⟩ := icmpReply_split h
  rw [hreply]
  rfl

end

/-- **Echo.**  A well-formed echo request of at most 2048 bytes for this host is
    answered with one frame, its echo reply. -/
theorem echo_reply {net : Net} {mem : Mem} {data : Word} {len : BitVec 16}
    (h : EchoRequest net mem data len) (waits : PollWaits) :
    ∃ reply, framesOf (netHandlePacket waits net mem data len).log = [reply] ∧
      IsEchoReply net mem data reply := by
  have hlen := len.isLt
  have hshort := h.short
  have htotal := h.total
  have hmessage := h.message
  have hcount : (icmpMessage mem data).length = (ntohs (mem.load16 (data + 16))).toNat -
      (mem.load8 (data + 14) &&& 0x0F).toNat * 4 := length_loadBytes _ _ _
  have hsize : sizeofIcmp ≤ (icmpMessage mem data).length := show 8 ≤ _ by omega
  have hreply : (icmpReply (icmpMessage mem data)).length = (icmpMessage mem data).length :=
    length_icmpReply hsize
  refine ⟨_, netHandlePacket_icmp h waits, ?_⟩
  set request := icmpMessage mem data with hrequest
  constructor
  · rw [← bytesOf_load48]
    rfl
  · rfl
  · exact bytesOf_htons ethertypeIpv4
  · rfl
  · have hbytes : BitVec.ofNat 16 sizeofIpv4 + len16 (icmpReply request) =
        BitVec.ofNat 16 (34 + (icmpReply request).length - 14) := by
      unfold len16
      rw [← BitVec.ofNat_add]
      congr 1
      show 20 + _ = _
      omega
    rw [length_ipv4Frame, ← bytesOf_htons, ← hbytes]
    rfl
  · rfl
  · rfl
  · rw [← bytesOf_load32]
    rfl
  · exact ipv4Header_sum _ _ _ _
  · rfl
  · exact icmpReply_code hsize
  · exact icmpReply_content hsize
  · exact icmpReply_sum hsize (by omega)

/-- An echo request whose header has an option of four bytes, in a frame of 60
    bytes. -/
def paddedEcho : List (BitVec 8) :=
  [0x52, 0x54, 0x00, 0x12, 0x34, 0x56, 0x02, 0x00, 0x00, 0x00, 0x00, 0x01, 0x08, 0x00,
    0x46, 0x00, 0x00, 0x22, 0x00, 0x00, 0x00, 0x00, 0x40, 0x01, 0x00, 0x00, 10, 0, 2, 2, 10, 0, 2, 15,
    0x94, 0x04, 0x00, 0x00, 0x08, 0x00, 0x00, 0x00, 0x12, 0x34, 0x00, 0x01, 0x61, 0x62] ++
    List.replicate 12 0

theorem echo_reply_padded : ∃ reply,
    framesOf (netHandlePacket ⟨[], []⟩ bootNet (Mem.image paddedEcho) 0 60).log = [reply] ∧
      IsEchoReply bootNet (Mem.image paddedEcho) 0 reply :=
  echo_reply ⟨by decide, by decide, by decide, by decide, by decide, by decide, by decide,
    by decide⟩ ⟨[], []⟩

end ZohoOs
