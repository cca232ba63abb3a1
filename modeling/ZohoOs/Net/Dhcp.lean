/-
  ZohoOs.Net.Dhcp — the DHCP client over a sequence of replies (dhcp.c).

  The client has no state of its own but the last offer: what it does with a
  datagram depends on the datagram and on the transaction id, which never
  changes.  The address of the host is that of the last ACK that was accepted.

  Main results:
    * `dhcpHandle_myIp` — what one datagram does to the address;
    * `dhcp_address` — the address after any sequence of datagrams.
-/
import Mathlib.Data.List.Induction
import ZohoOs.Net.Confine

namespace ZohoOs

open ZohoOs.Lib

/-! ## §1. Datagrams. -/

/-- A datagram that is passed to `dhcp_handle`: `len` bytes at `data`. -/
structure Datagram where
  mem : Mem
  data : Word
  len : BitVec 16

namespace Datagram

/-- The message type that the option loop ends with. -/
def msgType (d : Datagram) : BitVec 8 :=
  (dhcpOptions d.mem d.data d.len.toNat sizeofDhcp 0 0).val.1

/-- The address that the server hands out. -/
def yiaddr (d : Datagram) : BitVec 32 := d.mem.load32 (d.data + 16)

/-- A reply to this client's transaction. -/
def Accepted (xid : BitVec 32) (d : Datagram) : Prop :=
  sizeofDhcp ≤ d.len.toNat ∧ d.mem.load8 d.data = dhcpBootreply ∧
    ntohl (d.mem.load32 (d.data + 236)) = dhcpMagicCookie ∧
    d.mem.load32 (d.data + 4) = htonl xid

/-- An ACK in this client's transaction. -/
def Acks (xid : BitVec 32) (d : Datagram) : Prop := d.Accepted xid ∧ d.msgType = dhcpMsgAck

instance (xid : BitVec 32) (d : Datagram) : Decidable (d.Accepted xid) :=
  inferInstanceAs (Decidable (_ ∧ _ ∧ _ ∧ _))

instance (xid : BitVec 32) (d : Datagram) : Decidable (d.Acks xid) :=
  inferInstanceAs (Decidable (_ ∧ _))

end Datagram

/-! ## §2. One datagram. -/

/-- The server identifier does not matter for the message type. -/
theorem dhcpOptions_msgType (mem : Mem) (data : Word) (len opt : Nat) (msgType : BitVec 8)
    (serverIp serverIp' : BitVec 32) :
    (dhcpOptions mem data len opt msgType serverIp).val.1 =
      (dhcpOptions mem data len opt msgType serverIp').val.1 := by
  induction hleft : len - opt using Nat.strong_induction_on
    generalizing opt msgType serverIp serverIp' with
  | _ left ih =>
    unfold dhcpOptions
    by_cases hlt : opt < len
    · have hrest := fun m s s' n => ih (len - (opt + 2 + n)) (by omega) (opt + 2 + n) m s s' rfl
      rw [if_pos hlt, if_pos hlt, Logged.val_bind, Logged.val_bind]
      by_cases hend : (readMem8 mem (data + BitVec.ofNat 64 opt)).val = dhcpOptEnd
      · rw [if_pos hend, if_pos hend, Logged.val_pure, Logged.val_pure]
      · rw [if_neg hend, if_neg hend, Logged.val_bind, Logged.val_bind]
        by_cases htype : (readMem8 mem (data + BitVec.ofNat 64 opt)).val = dhcpOptMsgType
        · rw [if_pos htype, if_pos htype]
          exact hrest _ _ _ _
        · rw [if_neg htype, if_neg htype]
          by_cases hserver : (readMem8 mem (data + BitVec.ofNat 64 opt)).val = dhcpOptServer
          · -- both read the same identifier
            rw [if_pos hserver, if_pos hserver]
          · rw [if_neg hserver, if_neg hserver]
            exact hrest _ _ _ _
    · rw [if_neg hlt, if_neg hlt, Logged.val_pure, Logged.val_pure]

section

variable {mem : Mem} {data : Word} {len opt : Nat}

/-- The option loop stops at the end option. -/
theorem dhcpOptions_end (hlt : opt < len)
    (hend : mem.load8 (data + BitVec.ofNat 64 opt) = dhcpOptEnd) (msgType : BitVec 8)
    (serverIp : BitVec 32) :
    (dhcpOptions mem data len opt msgType serverIp).val = (msgType, serverIp) := by
  unfold dhcpOptions
  rw [if_pos hlt, Logged.val_bind, val_readMem8, if_pos hend]
  rfl

/-- The option loop reads the message type. -/
theorem dhcpOptions_type (hlt : opt < len)
    (htype : mem.load8 (data + BitVec.ofNat 64 opt) = dhcpOptMsgType) (msgType : BitVec 8)
    (serverIp : BitVec 32) :
    (dhcpOptions mem data len opt msgType serverIp).val =
      (dhcpOptions mem data len
        (opt + 2 + (mem.load8 (data + BitVec.ofNat 64 (opt + 1))).toNat)
        (mem.load8 (data + BitVec.ofNat 64 (opt + 2))) serverIp).val := by
  have hnotEnd : ¬ mem.load8 (data + BitVec.ofNat 64 opt) = dhcpOptEnd := by
    rw [htype]
    decide
  rw [dhcpOptions, if_pos hlt, Logged.val_bind, val_readMem8, if_neg hnotEnd, Logged.val_bind,
    if_pos htype]
  rfl

end

theorem netSendUdp_myIp (net : Net) (ip : BitVec 32) (srcPort dstPort : BitVec 16)
    (data : List (BitVec 8)) :
    (netSendUdp net ip srcPort dstPort data).val.myIp = net.myIp ∧
      (netSendUdp net ip srcPort dstPort data).val.dhcpXid = net.dhcpXid := by
  unfold netSendUdp
  cases (if ip = 0xFFFFFFFF then some broadcastMac else arpLookup net ip) with
  | none => exact ⟨rfl, rfl⟩
  | some mac => exact ⟨rfl, rfl⟩

/-- What one datagram does to the address of the host. -/
theorem dhcpHandle_myIp (net : Net) (d : Datagram) :
    (dhcpHandle net d.mem d.data d.len).val.myIp =
        (if d.Acks net.dhcpXid then d.yiaddr else net.myIp) ∧
      (dhcpHandle net d.mem d.data d.len).val.dhcpXid = net.dhcpXid := by
  have htype : (dhcpOptions d.mem d.data d.len.toNat sizeofDhcp 0 net.dhcpServerIp).val.1 =
      d.msgType := dhcpOptions_msgType _ _ _ _ _ _ _
  have hnot : ¬ d.Accepted net.dhcpXid → ¬ d.Acks net.dhcpXid := fun h h' => h h'.1
  unfold dhcpHandle
  by_cases hshort : d.len.toNat < sizeofDhcp
  · rw [if_pos hshort, if_neg (hnot fun h => absurd h.1 (Nat.not_le_of_lt hshort))]
    exact ⟨rfl, rfl⟩
  · rw [if_neg hshort, Logged.val_bind, Logged.val_bind, val_readMem8, val_readMem32]
    by_cases hreply : d.mem.load8 d.data ≠ dhcpBootreply ∨
        ntohl (d.mem.load32 (d.data + 236)) ≠ dhcpMagicCookie
    · have hreject : ¬ d.Accepted net.dhcpXid := by
        intro h
        rcases hreply with hop | hmagic
        · exact hop h.2.1
        · exact hmagic h.2.2.1
      rw [if_pos hreply, if_neg (hnot hreject)]
      exact ⟨rfl, rfl⟩
    · obtain ⟨hop, hmagic⟩ := not_or.mp hreply
      rw [if_neg hreply, Logged.val_bind, val_readMem32]
      by_cases hxid : d.mem.load32 (d.data + 4) ≠ htonl net.dhcpXid
      · rw [if_pos hxid, if_neg (hnot fun h => hxid h.2.2.2)]
        exact ⟨rfl, rfl⟩
      · have haccepted : d.Accepted net.dhcpXid :=
          ⟨Nat.le_of_not_lt hshort, not_not.mp hop, not_not.mp hmagic, not_not.mp hxid⟩
        rw [if_neg hxid, Logged.val_bind]
        dsimp only
        rw [htype]
        by_cases hoffer : d.msgType = dhcpMsgOffer
        · have hack : ¬ d.Acks net.dhcpXid := by
            intro h
            exact absurd (hoffer.symm.trans h.2) (by decide)
          rw [if_pos hoffer, if_neg hack, Logged.val_bind]
          unfold dhcpRequest
          rw [Logged.val_bind]
          exact netSendUdp_myIp _ _ _ _ _
        · rw [if_neg hoffer]
          by_cases hack : d.msgType = dhcpMsgAck
          · rw [if_pos hack, if_pos ⟨haccepted, hack⟩]
            exact ⟨rfl, rfl⟩
          · rw [if_neg hack, if_neg fun h => hack h.2]
            exact ⟨rfl, rfl⟩

/-! ## §3. Sequences of datagrams. -/

/-- `dhcp_handle` is called for each datagram in turn. -/
def dhcpRun (net : Net) (ds : List Datagram) : Net :=
  ds.foldl (fun net d => (dhcpHandle net d.mem d.data d.len).val) net

/-- The last ACK that is accepted. -/
def lastAck (xid : BitVec 32) (ds : List Datagram) : Option Datagram :=
  ds.reverse.find? fun d => d.Acks xid

/-- **The address of the host** is that of the last accepted ACK, in every
    sequence of datagrams, and the one it started with if there is none. -/
theorem dhcp_address (net : Net) (ds : List Datagram) :
    (dhcpRun net ds).myIp = ((lastAck net.dhcpXid ds).map Datagram.yiaddr).getD net.myIp := by
  suffices h : (dhcpRun net ds).myIp =
      ((lastAck net.dhcpXid ds).map Datagram.yiaddr).getD net.myIp ∧
        (dhcpRun net ds).dhcpXid = net.dhcpXid from h.1
  induction ds using List.reverseRecOn with
  | nil => exact ⟨rfl, rfl⟩
  | append_singleton ds d ih =>
    have hstep : dhcpRun net (ds ++ [d]) =
        (dhcpHandle (dhcpRun net ds) d.mem d.data d.len).val := List.foldl_concat ..
    obtain ⟨hip, hxid⟩ := dhcpHandle_myIp (dhcpRun net ds) d
    rw [ih.2] at hip hxid
    rw [hstep, hip, hxid]
    unfold lastAck
    rw [List.reverse_concat, List.find?_cons]
    by_cases hack : d.Acks net.dhcpXid
    · rw [if_pos hack, decide_eq_true hack]
      exact ⟨rfl, rfl⟩
    · rw [if_neg hack, decide_eq_false hack]
      exact ⟨ih.1, rfl⟩

/-- An ACK for the address 10.0.0.99. -/
def strayAck : Datagram where
  mem := Mem.image ([dhcpBootreply, 1, 6, 0, 0x12, 0x34, 0x56, 0x78] ++ List.replicate 8 0 ++
    [10, 0, 0, 99] ++ List.replicate 216 0 ++ [0x63, 0x82, 0x53, 0x63, dhcpOptMsgType, 1, dhcpMsgAck,
      dhcpOptEnd])
  data := 0
  len := 244

theorem strayAck_msgType : strayAck.msgType = dhcpMsgAck := by
  have htype : (dhcpOptions strayAck.mem 0 244 240 0 0).val =
      (dhcpOptions strayAck.mem 0 244 (240 + 2 + (strayAck.mem.load8 241).toNat)
        (strayAck.mem.load8 242) 0).val := dhcpOptions_type (by decide) (by decide) 0 0
  have hend : (dhcpOptions strayAck.mem 0 244 243 dhcpMsgAck 0).val = (dhcpMsgAck, 0) :=
    dhcpOptions_end (by decide) (by decide) _ _
  have hlen : 240 + 2 + (strayAck.mem.load8 241).toNat = 243 := by decide
  have hmsg : strayAck.mem.load8 242 = dhcpMsgAck := by decide
  rw [hlen, hmsg, hend] at htype
  exact congrArg Prod.fst htype

/-- **An ACK without an OFFER** sets the address: it is the first datagram that
    arrives. -/
theorem stray_ack_accepted :
    strayAck.msgType ≠ dhcpMsgOffer ∧ (dhcpInit bootNet).myIp ≠ 0x6300000A ∧
      (dhcpRun (dhcpInit bootNet) [strayAck]).myIp = 0x6300000A := by
  have hacks : strayAck.Acks (dhcpInit bootNet).dhcpXid := ⟨by decide, strayAck_msgType⟩
  refine ⟨?_, by decide, ?_⟩
  · rw [strayAck_msgType]
    decide
  · have haddress := (dhcpHandle_myIp (dhcpInit bootNet) strayAck).1
    rw [if_pos hacks] at haddress
    exact haddress.trans (by decide)

end ZohoOs
