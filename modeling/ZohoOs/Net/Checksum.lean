/-
  ZohoOs.Net.Checksum — the checksums of the stack (net.c).

  `net_checksum` and `net_send_tcp` add up the words of a buffer in the byte
  order of the machine, in 32 bits, and fold the carries back at the end.  The
  format adds big-endian words with an end-around carry.  The two agree, up to
  the order of the bytes in which the result is stored.

  Main results:
    * `netChecksum_toNat` — what `net_checksum` computes;
    * `checksums_verify` — what is stored verifies, and is the checksum of the
      format.
-/
import ZohoOs.Lib.OnesComplement
import ZohoOs.Net.Codec

namespace ZohoOs

open ZohoOs.Lib

/-! ## §1. Sum and fold. -/

theorem toNat_word (hi lo : BitVec 8) :
    ((hi ++ lo).setWidth 32).toNat = lo.toNat + 256 * hi.toNat := by
  have hhi := hi.isLt
  have hlo := lo.isLt
  rw [BitVec.toNat_setWidth_of_le (by decide), BitVec.toNat_append,
    ← Nat.shiftLeft_add_eq_or_of_lt hlo, Nat.shiftLeft_eq]
  omega

/-- **The sum does not overflow** where the exact one does not. -/
theorem toNat_sumWords (data : List (BitVec 8)) (sum : BitVec 32)
    (h : sum.toNat + (leWords data).sum < 2 ^ 32) :
    (sumWords sum data).toNat = sum.toNat + (leWords data).sum := by
  induction data using leWords.induct generalizing sum with
  | case1 lo hi rest ih =>
    simp only [leWords, List.sum_cons] at h
    have hword := toNat_word hi lo
    have hadd : (sum + (hi ++ lo).setWidth 32).toNat = sum.toNat + (lo.toNat + 256 * hi.toNat) := by
      rw [BitVec.toNat_add, hword, Nat.mod_eq_of_lt (by omega)]
    unfold sumWords
    rw [ih _ (by omega), hadd]
    simp only [leWords, List.sum_cons]
    omega
  | case2 last =>
    simp only [leWords, List.sum_cons, List.sum_nil] at h
    show (sum + last.setWidth 32).toNat = sum.toNat + (last.toNat + 0)
    rw [BitVec.toNat_add, BitVec.toNat_setWidth_of_le (by decide), Nat.mod_eq_of_lt (by omega)]
    rfl
  | case3 => rfl

/-- Adding the halves does not overflow. -/
theorem toNat_foldStep (sum : BitVec 32) :
    ((sum &&& 0xFFFF#32) + (sum >>> 16)).toNat = sum.toNat % 65536 + sum.toNat / 65536 := by
  have hand : (sum &&& 0xFFFF#32).toNat = sum.toNat % 65536 := by
    rw [BitVec.toNat_and]
    exact Nat.and_two_pow_sub_one_eq_mod sum.toNat 16
  have hshift : (sum >>> 16).toNat = sum.toNat / 65536 := by
    rw [BitVec.toNat_ushiftRight, Nat.shiftRight_eq_div_pow]
  have hlt := sum.isLt
  rw [BitVec.toNat_add, hand, hshift, Nat.mod_eq_of_lt (by omega)]

/-- Folding the carries leaves the residue. -/
theorem toNat_foldSum (sum : BitVec 32) : (foldSum sum).toNat = onesResidue sum.toNat := by
  induction sum using foldSum.induct with
  | case1 sum hzero =>
    have hsmall : sum.toNat < 65536 := by
      have hshift := congrArg BitVec.toNat hzero
      rw [BitVec.toNat_ushiftRight, Nat.shiftRight_eq_div_pow] at hshift
      have hdiv : sum.toNat / 65536 = 0 := hshift
      omega
    unfold foldSum
    rw [dif_pos hzero, onesResidue_of_lt hsmall]
  | case2 sum hcarry ih =>
    unfold foldSum
    rw [dif_neg hcarry, ih, toNat_foldStep, onesResidue_fold]

/-- The complement of a folded sum. -/
theorem toNat_complement (sum : BitVec 32) :
    (~~~(foldSum sum).setWidth 16).toNat = 65535 - onesResidue sum.toNat := by
  have hfold := toNat_foldSum sum
  have hlt := onesResidue_lt sum.toNat
  have hnarrow : ((foldSum sum).setWidth 16).toNat = onesResidue sum.toNat := by
    rw [BitVec.toNat_setWidth, hfold]
    exact Nat.mod_eq_of_lt hlt
  rw [BitVec.toNat_not, hnarrow]

theorem sum_leWords_lt {data : List (BitVec 8)} (h : data.length < 2 ^ 16) :
    (leWords data).sum < 2 ^ 31 := by
  have hle := sum_leWords_le data
  omega

/-- **What `net_checksum` computes.** -/
theorem netChecksum_toNat {data : List (BitVec 8)} (h : data.length < 2 ^ 16) :
    (netChecksum data).toNat = 65535 - onesResidue (leWords data).sum := by
  have hlt := sum_leWords_lt h
  have hzero : (0 : BitVec 32).toNat = 0 := rfl
  unfold netChecksum
  rw [toNat_complement, toNat_sumWords data 0 (by omega), hzero, Nat.zero_add]

theorem toNat_swap16 (x : BitVec 16) : (swap16 x).toNat = swapBytes x.toNat := by
  have hx := x.isLt
  have hlow : (x.extractLsb' 8 8).toNat < 2 ^ 8 := (x.extractLsb' 8 8).isLt
  rw [swap16_eq, BitVec.toNat_append, ← Nat.shiftLeft_add_eq_or_of_lt hlow, Nat.shiftLeft_eq,
    BitVec.extractLsb'_toNat, BitVec.extractLsb'_toNat, Nat.shiftRight_eq_div_pow,
    Nat.shiftRight_eq_div_pow]
  unfold swapBytes
  omega

/-- **The checksum that is stored** is that of the format, in network order. -/
theorem netChecksum_eq {data : List (BitVec 8)} (h : data.length < 2 ^ 16) :
    netChecksum data = htons (internetChecksum data) := by
  have hsum := onesSum_swap data
  have hle := onesResidue_lt (leWords data).sum
  apply BitVec.eq_of_toNat_eq
  rw [netChecksum_toNat h, toNat_swap16]
  unfold internetChecksum
  rw [BitVec.toNat_ofNat, hsum, onesSum_eq (leWords_lt data), Nat.mod_eq_of_lt (by omega),
    swapBytes_complement hle]

/-! ## §2. Checksum fields. -/

/-- Store a word at offset `o`. -/
def setField (data : List (BitVec 8)) (o : Nat) (v : BitVec 16) : List (BitVec 8) :=
  data.take o ++ bytesOf v ++ data.drop (o + 2)

theorem length_setField {data : List (BitVec 8)} {o : Nat} (ho : o + 2 ≤ data.length)
    (v : BitVec 16) : (setField data o v).length = data.length := by
  unfold setField
  simp only [List.length_append, List.length_take, List.length_drop, length_bytesOf]
  omega

/-- **A stored checksum verifies.** -/
theorem netChecksum_store {l l' : List (BitVec 8)} (heven : l.length % 2 = 0)
    (hsize : l.length + 2 + l'.length < 2 ^ 16) :
    netChecksum (l ++ bytesOf (netChecksum (l ++ bytesOf (0 : BitVec 16) ++ l')) ++ l') = 0 := by
  have hlen : ∀ v : BitVec 16, (l ++ bytesOf v ++ l').length < 2 ^ 16 := by
    intro v
    simp only [List.length_append, length_bytesOf]
    omega
  apply BitVec.eq_of_toNat_eq
  rw [netChecksum_toNat (hlen _), sum_leWords_store heven, netChecksum_toNat (hlen _),
    onesResidue_complement]
  rfl

/-! ## §3. The TCP checksum. -/

section

variable (srcIp dstIp : BitVec 32) (srcPort dstPort : BitVec 16) (seq ack : BitVec 32)
variable (flags : BitVec 8)

theorem length_tcpPseudo (totalLen : BitVec 16) : (tcpPseudo srcIp dstIp totalLen).length = 12 := rfl

/-- The accumulator of `net_send_tcp` does not overflow. -/
theorem toNat_tcpSum (totalLen : BitVec 16) {data : List (BitVec 8)} (h : data.length < 2 ^ 16) :
    (sumWords (sumWords 0 (tcpPseudo srcIp dstIp totalLen)) data).toNat =
      (leWords (tcpPseudo srcIp dstIp totalLen ++ data)).sum := by
  have hdata := sum_leWords_lt h
  have hpseudo := sum_leWords_le (tcpPseudo srcIp dstIp totalLen)
  rw [length_tcpPseudo] at hpseudo
  have hzero : (0 : BitVec 32).toNat = 0 := rfl
  have hfirst : (sumWords 0 (tcpPseudo srcIp dstIp totalLen)).toNat =
      (leWords (tcpPseudo srcIp dstIp totalLen)).sum := by
    rw [toNat_sumWords _ _ (by omega), hzero, Nat.zero_add]
  rw [toNat_sumWords _ _ (by omega), hfirst, leWords_append (by rw [length_tcpPseudo]),
    List.sum_append]

/-- The header up to its checksum. -/
def tcpHeaderFront : List (BitVec 8) :=
  bytesOf (htons srcPort) ++ bytesOf (htons dstPort) ++ bytesOf (htonl seq) ++
    bytesOf (htonl ack) ++ [0x50, flags] ++ bytesOf (htons 8192)

theorem length_tcpHeaderFront : (tcpHeaderFront srcPort dstPort seq ack flags).length = 16 := rfl

/-- **The segment verifies**: with the pseudo-header it sums to 65535. -/
theorem tcpSegment_sum {payload : List (BitVec 8)} (h : 20 + payload.length < 2 ^ 16) :
    onesResidue (leWords (tcpPseudo srcIp dstIp (BitVec.ofNat 16 sizeofTcp + len16 payload) ++
      tcpSegment srcIp dstIp srcPort dstPort seq ack flags payload)).sum = 65535 := by
  set pseudo := tcpPseudo srcIp dstIp (BitVec.ofNat 16 sizeofTcp + len16 payload) with hpseudo
  set front := tcpHeaderFront srcPort dstPort seq ack flags with hfront
  have hsegment : ∀ checksum : BitVec 16,
      pseudo ++ (tcpHeader srcPort dstPort seq ack flags checksum ++ payload) =
        (pseudo ++ front) ++ bytesOf checksum ++ (bytesOf (htons 0) ++ payload) := by
    intro checksum
    rw [hfront]
    unfold tcpHeader tcpHeaderFront
    simp only [List.append_assoc]
  have heven : (pseudo ++ front).length % 2 = 0 := by
    rw [List.length_append, hpseudo, hfront, length_tcpPseudo, length_tcpHeaderFront]
  have htake : (tcpHeader srcPort dstPort seq ack flags 0 ++ payload).take
      (BitVec.ofNat 16 sizeofTcp + len16 payload).toNat =
        tcpHeader srcPort dstPort seq ack flags 0 ++ payload :=
    take_totalLen (length_tcpHeader _ _ _ _ _ _) h
  have hlen : (tcpHeader srcPort dstPort seq ack flags 0 ++ payload).length < 2 ^ 16 := by
    rw [List.length_append, length_tcpHeader]
    exact h
  unfold tcpSegment
  dsimp only
  rw [htake, hsegment, sum_leWords_store heven, toNat_complement, toNat_tcpSum _ _ _ hlen,
    ← hpseudo, hsegment, onesResidue_complement]

end

/-! ## §4. All checksums. -/

/-- The bytes of a word in network order. -/
def networkBytes (v : BitVec 16) : List (BitVec 8) := [v.extractLsb' 8 8, v.extractLsb' 0 8]

theorem bytesOf_htons (v : BitVec 16) : bytesOf (htons v) = networkBytes v := by
  have hv := v.isLt
  have hswap := toNat_swap16 v
  unfold swapBytes at hswap
  have hbyte : ∀ (w : BitVec 16) k, (w.extractLsb' k 8).toNat = w.toNat / 2 ^ k % 256 := by
    intro w k
    rw [BitVec.extractLsb'_toNat, Nat.shiftRight_eq_div_pow]
  have hhigh : (htons v).extractLsb' 0 8 = v.extractLsb' 8 8 := by
    apply BitVec.eq_of_toNat_eq
    rw [hbyte, hbyte, hswap, Nat.pow_zero, Nat.div_one]
    omega
  have hlow : (htons v).extractLsb' 8 8 = v.extractLsb' 0 8 := by
    have hhigh256 : v.toNat / 256 < 256 := by omega
    have hdiv : (v.toNat % 256 * 256 + v.toNat / 256) / 2 ^ 8 = v.toNat % 256 := by
      show (v.toNat % 256 * 256 + v.toNat / 256) / 256 = _
      rw [Nat.mul_comm, Nat.mul_add_div (by decide), Nat.div_eq_of_lt hhigh256, Nat.add_zero]
    apply BitVec.eq_of_toNat_eq
    rw [hbyte, hbyte, hswap, Nat.pow_zero, Nat.div_one, hdiv, Nat.mod_mod]
  show [(htons v).extractLsb' 0 8, (htons v).extractLsb' 8 8] = _
  rw [hhigh, hlow]
  rfl

/-- **The checksums verify.**  Where the field of a string of bytes lies at an
    even offset and holds what `net_checksum` computed with the field cleared,
    the string verifies, and the bytes stored are the checksum of the format in
    network order; the segment that `net_send_tcp` builds sums to 65535 with its
    pseudo-header; and no accumulator overflows. -/
theorem checksums_verify :
    (∀ (data : List (BitVec 8)) (o : Nat), data.length < 2 ^ 16 → o % 2 = 0 →
      o + 2 ≤ data.length →
      let blank := setField data o 0
      let stored := setField data o (netChecksum blank)
      netChecksum stored = 0 ∧
        (stored.drop o).take 2 = networkBytes (internetChecksum blank)) ∧
    (∀ (net : Net) (mac : BitVec 48) (targetIp : BitVec 32) (srcPort dstPort : BitVec 16)
      (seq ack : BitVec 32) (flags : BitVec 8) (payload : List (BitVec 8)),
      20 + payload.length < 2 ^ 16 →
      let totalLen := BitVec.ofNat 16 sizeofTcp + len16 payload
      let pseudo := tcpPseudo net.myIp targetIp totalLen
      let segment := tcpSegment net.myIp targetIp srcPort dstPort seq ack flags payload
      netSendTcpTo net mac targetIp srcPort dstPort seq ack flags payload =
          (Logged.tell (.buffer totalLen.toNat segment.length) >>= fun _ =>
            netSendIpv4 net targetIp mac ipv4ProtoTcp segment) ∧
        foldSum (sumWords (sumWords 0 pseudo) segment) = 0xFFFF ∧
        onesSum (beWords (pseudo ++ segment)) = 0xFFFF) ∧
    (∀ data : List (BitVec 8), data.length < 2 ^ 16 →
      (sumWords 0 data).toNat = (leWords data).sum ∧
        ∀ srcIp dstIp totalLen, (sumWords (sumWords 0 (tcpPseudo srcIp dstIp totalLen)) data).toNat =
          (leWords (tcpPseudo srcIp dstIp totalLen ++ data)).sum) ∧
    ∀ sum : BitVec 32,
      ((sum &&& 0xFFFF#32) + (sum >>> 16)).toNat = sum.toNat % 65536 + sum.toNat / 65536 := by
  refine ⟨?_, ?_, ?_, toNat_foldStep⟩
  · -- the field of a header, checked by the receiver
    intro data o hsize heven ho
    have hfront : (data.take o).length = o := by
      rw [List.length_take]
      omega
    have hback : (data.take o).length + 2 + (data.drop (o + 2)).length < 2 ^ 16 := by
      rw [hfront, List.length_drop]
      omega
    refine ⟨netChecksum_store (by rw [hfront]; exact heven) hback, ?_⟩
    have hblank : (setField data o 0).length < 2 ^ 16 := by
      rw [length_setField ho]
      exact hsize
    rw [← bytesOf_htons, ← netChecksum_eq hblank]
    show ((data.take o ++ bytesOf _ ++ data.drop (o + 2)).drop o).take 2 = _
    rw [List.append_assoc, List.drop_left' hfront]
    exact List.take_left' rfl
  · intro net mac targetIp srcPort dstPort seq ack flags payload hsize
    -- TCP: the pseudo header is summed in front of the segment
    have hsum := tcpSegment_sum net.myIp targetIp srcPort dstPort seq ack flags hsize
    have hlen := length_tcpSegment net.myIp targetIp srcPort dstPort seq ack flags payload
    refine ⟨?_, ?_, ?_⟩
    · have htake : (tcpSegment net.myIp targetIp srcPort dstPort seq ack flags payload).take
          (BitVec.ofNat 16 sizeofTcp + len16 payload).toNat =
            tcpSegment net.myIp targetIp srcPort dstPort seq ack flags payload :=
        take_totalLen (length_tcpHeader _ _ _ _ _ _) hsize
      rw [hlen]
      conv_rhs => rw [← htake]
      rfl
    · apply BitVec.eq_of_toNat_eq
      rw [toNat_foldSum, toNat_tcpSum _ _ _ (by rw [hlen]; exact hsize), hsum]
      rfl
    · rw [onesSum_swap, onesSum_eq (leWords_lt _), hsum]
      rfl
  · intro data hsize
    -- the 32-bit sums do not overflow
    have hlt := sum_leWords_lt hsize
    have hzero : (0 : BitVec 32).toNat = 0 := rfl
    refine ⟨?_, fun srcIp dstIp totalLen => toNat_tcpSum srcIp dstIp totalLen hsize⟩
    rw [toNat_sumWords data 0 (by omega), hzero, Nat.zero_add]

end ZohoOs
