/-
  ZohoOs.Net.ArpCache — the ARP cache over a sequence of packets (net.c).

  One loop both searches the cache and inserts into it.  It stops at the first
  entry that is not valid, so it relies on no valid entry standing behind that.
  The cache is a table that keeps the first keys it is given.

  Main results:
    * `arpUpdate_insert`, `arpLookup_find` — update and lookup are those of such
      a table;
    * `arp_cache_bindings` — what the cache holds after any sequence of packets.
-/
import ZohoOs.Lib.FirstKeys
import ZohoOs.Lib.Transition
import ZohoOs.Net.Codec

namespace ZohoOs

open ZohoOs.Lib

/-! ## §1. The cache as a table. -/

/-- The binding in a valid entry. -/
def ArpEntry.binding? (e : ArpEntry) : Option (BitVec 32 × BitVec 48) :=
  if e.valid then some (e.ip, e.mac) else none

/-- The valid entries. -/
def arpTable (net : Net) : Table arpCacheSize (BitVec 32) (BitVec 48) := fun i =>
  (net.arpCache i).binding?

section

variable (net : Net)

theorem arpTable_some {i : Fin arpCacheSize} {b : BitVec 32 × BitVec 48} :
    arpTable net i = some b ↔ (net.arpCache i).valid = true ∧ (net.arpCache i).ip = b.1 ∧
      (net.arpCache i).mac = b.2 := by
  unfold arpTable ArpEntry.binding?
  by_cases hvalid : (net.arpCache i).valid = true
  · rw [if_pos hvalid, and_iff_right hvalid, Option.some.injEq, Prod.ext_iff]
  · rw [if_neg hvalid]
    exact iff_of_false (fun h => nomatch h) fun h => hvalid h.1

theorem arpTable_valid (i : Fin arpCacheSize) :
    (net.arpCache i).valid = true ↔ (arpTable net i).isSome := by
  unfold arpTable ArpEntry.binding?
  by_cases hvalid : (net.arpCache i).valid = true
  · rw [if_pos hvalid]
    exact iff_of_true hvalid rfl
  · rw [if_neg hvalid]
    exact iff_of_false hvalid (by decide)

/-- The update goes to the slot of the table. -/
theorem arpSlot_slot (ip : BitVec 32) : arpSlot net ip = (arpTable net).slot ip := by
  unfold arpSlot Table.slot
  congr 1
  funext i
  rw [decide_eq_decide]
  constructor
  · intro hslot b hb
    obtain ⟨hvalid, hip, _⟩ := (arpTable_some net).mp hb
    exact hip.symm.trans (hslot.resolve_left (not_not_intro hvalid))
  · intro hall
    by_cases hvalid : (net.arpCache i).valid = true
    · exact .inr (hall (_, _) ((arpTable_some net).mpr ⟨hvalid, rfl, rfl⟩))
    · exact .inl hvalid

/-- **An update** inserts a binding. -/
theorem arpUpdate_insert (ip : BitVec 32) (mac : BitVec 48) :
    arpTable (arpUpdate net ip mac) = (arpTable net).insert ip mac := by
  unfold arpUpdate Table.insert
  rw [arpSlot_slot]
  cases (arpTable net).slot ip with
  | none => rfl
  | some i =>
    funext j
    show arpTable { net with arpCache := Function.update net.arpCache i ⟨ip, mac, true⟩ } j =
      Function.update (arpTable net) i (some (ip, mac)) j
    by_cases hj : j = i
    · subst hj
      rw [Function.update_self, arpTable_some]
      dsimp only
      rw [Function.update_self]
      exact ⟨rfl, rfl, rfl⟩
    · rw [Function.update_of_ne hj]
      unfold arpTable
      dsimp only
      rw [Function.update_of_ne hj]

/-- **A lookup** is a search of the table. -/
theorem arpLookup_find (ip : BitVec 32) : arpLookup net ip = (arpTable net).find ip := by
  unfold arpLookup Table.find
  have hpred : (fun i => decide ((net.arpCache i).valid = true ∧ (net.arpCache i).ip = ip)) =
      fun i => decide (∃ b ∈ arpTable net i, b.1 = ip) := by
    funext i
    rw [decide_eq_decide]
    constructor
    · intro ⟨hvalid, hip⟩
      exact ⟨((net.arpCache i).ip, (net.arpCache i).mac),
        (arpTable_some net).mpr ⟨hvalid, rfl, rfl⟩, hip⟩
    · intro ⟨b, hb, hip⟩
      obtain ⟨hvalid, hentry, _⟩ := (arpTable_some net).mp hb
      exact ⟨hvalid, hentry.trans hip⟩
  rw [hpred]
  cases hfind : (List.finRange arpCacheSize).find? fun i =>
      decide (∃ b ∈ arpTable net i, b.1 = ip) with
  | none => rfl
  | some i =>
    obtain ⟨b, hb, _⟩ := (find?_slot_eq_some_iff.mp hfind).1
    obtain ⟨_, _, hmac⟩ := (arpTable_some net).mp hb
    show some (net.arpCache i).mac = (arpTable net i).map Prod.snd
    rw [show arpTable net i = some b from hb, hmac]
    rfl

end

/-! ## §2. Sequences of packets. -/

/-- An ARP packet that is passed to `net_handle_arp`. -/
structure ArpFrame where
  mem : Mem
  data : Word
  len : BitVec 16

namespace ArpFrame

/-- A packet for Ethernet and IPv4. -/
def Accepted (p : ArpFrame) : Prop :=
  sizeofArp ≤ p.len.toNat ∧ ntohs (p.mem.load16 p.data) = arpHtypeEthernet ∧
    ntohs (p.mem.load16 (p.data + 2)) = arpPtypeIpv4

instance (p : ArpFrame) : Decidable p.Accepted := inferInstanceAs (Decidable (_ ∧ _ ∧ _))

/-- The addresses of the sender. -/
def sender (p : ArpFrame) : BitVec 32 × BitVec 48 :=
  (p.mem.load32 (p.data + 14), load48 p.mem (p.data + 8))

end ArpFrame

/-- What one packet does to the cache. -/
theorem netHandleArp_table (net : Net) (p : ArpFrame) :
    arpTable (netHandleArp net p.mem p.data p.len).val =
      if p.Accepted then (arpTable net).insert p.sender.1 p.sender.2 else arpTable net := by
  unfold netHandleArp
  by_cases hshort : p.len.toNat < sizeofArp
  · rw [if_pos hshort, if_neg fun h => absurd h.1 (Nat.not_le_of_lt hshort)]
    rfl
  rw [if_neg hshort, Logged.val_bind, Logged.val_bind, val_readMem16, val_readMem16]
  by_cases hother : ntohs (p.mem.load16 p.data) ≠ arpHtypeEthernet ∨
      ntohs (p.mem.load16 (p.data + 2)) ≠ arpPtypeIpv4
  · have hreject : ¬ p.Accepted := by
      intro ⟨_, hhtype, hptype⟩
      rcases hother with hne | hne
      · exact hne hhtype
      · exact hne hptype
    rw [if_pos hother, if_neg hreject]
    rfl
  · obtain ⟨hhtype, hptype⟩ := not_or.mp hother
    rw [if_neg hother, if_pos ⟨Nat.le_of_not_lt hshort, not_not.mp hhtype, not_not.mp hptype⟩,
      ← arpUpdate_insert, Logged.val_bind, Logged.val_bind, Logged.val_bind, Logged.val_bind]
    -- a reply leaves the cache alone
    split
    · rfl
    · rfl

/-- What happens to the stack: an ARP packet is handled, or something that
    leaves the cache alone. -/
inductive ArpEvent where
  | packet (p : ArpFrame)
  | other

def ArpStep (net : Net) : ArpEvent → Net → Prop
  | .packet p, net' => net' = (netHandleArp net p.mem p.data p.len).val
  | .other, net' => net'.arpCache = net.arpCache

/-- The sender of an accepted packet. -/
def ArpEvent.sender? : ArpEvent → Option (BitVec 32 × BitVec 48)
  | .packet p => if p.Accepted then some p.sender else none
  | .other => none

/-- The senders that a run accepted. -/
def senders (tr : List (Transition Net ArpEvent)) : List (BitVec 32 × BitVec 48) :=
  (Run.labels tr).filterMap ArpEvent.sender?

theorem senders_concat (tr : List (Transition Net ArpEvent)) (x : Transition Net ArpEvent) :
    senders (tr ++ [x]) = senders tr ++ x.2.1.sender?.toList := by
  unfold senders
  rw [Run.labels_append, Run.labels_singleton, List.filterMap_append]
  cases h : x.2.1.sender? with
  | none => rw [List.filterMap_cons_none h]; rfl
  | some b => rw [List.filterMap_cons_some h]; rfl

/-- One step. -/
theorem arpStep_table {net net' : Net} {e : ArpEvent} (h : ArpStep net e net') :
    arpTable net' = e.sender?.elim (arpTable net) fun b => (arpTable net).insert b.1 b.2 := by
  cases e with
  | packet p =>
    rw [show net' = (netHandleArp net p.mem p.data p.len).val from h, netHandleArp_table]
    show _ = (if p.Accepted then some p.sender else none).elim _ _
    by_cases haccepted : p.Accepted
    · rw [if_pos haccepted, if_pos haccepted]
      rfl
    · rw [if_neg haccepted, if_neg haccepted]
      rfl
  | other =>
    have hcache : net'.arpCache = net.arpCache := h
    unfold arpTable
    rw [hcache]
    rfl

/-- **The table keeps the first senders** in every state that is reached. -/
theorem arpTable_keeps {net₀ net : Net} {tr : List (Transition Net ArpEvent)}
    (hrun : Run ArpStep (netInit net₀) tr net) : (arpTable net).Keeps (senders tr) := by
  induction hrun with
  | nil => exact Table.keeps_nil
  | snoc hrun hstep ih =>
    rw [senders_concat, arpStep_table hstep]
    dsimp only
    cases ArpEvent.sender? _ with
    | none =>
      rw [show (none : Option (BitVec 32 × BitVec 48)).toList = [] from rfl, List.append_nil]
      exact ih
    | some b => exact ih.insert b.1 b.2

/-! ## §3. Lookups. -/

/-- The echo request of `net_ping`. -/
def pingRequest : List (BitVec 8) :=
  let message (checksum : BitVec 16) :=
    [icmpTypeEchoRequest, 0] ++ bytesOf checksum ++ bytesOf (htons 0x1234) ++ bytesOf (htons 1)
  message (netChecksum (message 0))

/-- `net_ping`; it looks its target up as `net_send_tcp` does. -/
def netPing (wait : PollWait) (net : Net) (targetIp : BitVec 32) : NetM Net := do
  let found ← tcpTargetMac wait net targetIp
  match found.1 with
  | some mac => netSendIpv4 found.2 targetIp mac ipv4ProtoIcmp pingRequest
  | none => pure found.2

/-- What the senders find is sent to. -/
theorem tcpTargetMac_cached {net : Net} {ip : BitVec 32} {mac : BitVec 48}
    (h : arpLookup net ip = some mac) (wait : PollWait) :
    tcpTargetMac wait net ip = pure (some mac, net) := by
  unfold tcpTargetMac
  rw [h]

/-- **The ARP cache.**  After any sequence of packets since `net_init`, with
    whatever else in between that leaves the cache alone: the valid entries are
    the first ones, one for each of the first 32 senders that were accepted, in
    their order, with the MAC address each sent last; no step makes one invalid
    or gives it another address; and that MAC address is what `net_send_tcp`,
    `net_ping` and `net_send_udp` send to. -/
theorem arp_cache_bindings {net₀ net : Net} {tr : List (Transition Net ArpEvent)}
    (hrun : Run ArpStep (netInit net₀) tr net) :
    (∀ i, (net.arpCache i).valid = true ↔ i.val < (firstKeys arpCacheSize (senders tr)).length) ∧
    (∀ i j, (net.arpCache i).valid = true → (net.arpCache j).valid = true →
      (net.arpCache i).ip = (net.arpCache j).ip → i = j) ∧
    (∀ ip, (∃ i, (net.arpCache i).valid = true ∧ (net.arpCache i).ip = ip) ↔
      ip ∈ firstKeys arpCacheSize (senders tr)) ∧
    (∀ i, (net.arpCache i).valid = true →
      lastValue (senders tr) (net.arpCache i).ip = some (net.arpCache i).mac) ∧
    (∀ x ∈ tr, ∀ i, (x.1.arpCache i).valid = true →
      (x.2.2.arpCache i).valid = true ∧ (x.2.2.arpCache i).ip = (x.1.arpCache i).ip) ∧
    ∀ ip mac, ip ∈ firstKeys arpCacheSize (senders tr) → lastValue (senders tr) ip = some mac →
      (∀ wait srcPort dstPort seq ack flags data,
        netSendTcp wait net ip srcPort dstPort seq ack flags data =
          netSendTcpTo net mac ip srcPort dstPort seq ack flags data) ∧
      (∀ wait, netPing wait net ip = netSendIpv4 net ip mac ipv4ProtoIcmp pingRequest) ∧
      (ip ≠ 0xFFFFFFFF → udpTargetMac net ip = some mac) := by
  have hkeeps := arpTable_keeps hrun
  have hentry : ∀ i, (net.arpCache i).valid = true →
      arpTable net i = some ((net.arpCache i).ip, (net.arpCache i).mac) :=
    fun i hvalid => (arpTable_some net).mpr ⟨hvalid, rfl, rfl⟩
  refine ⟨?_, ?_, ?_, ?_, ?_, ?_⟩
  · exact fun i => (arpTable_valid net i).trans (hkeeps.used_iff i)
  · -- an address has one slot at most
    intro i j hi hj heq
    refine hkeeps.injective (k := (net.arpCache i).ip) ?_ ?_
    · rw [hentry i hi]
      rfl
    · rw [hentry j hj, heq]
      rfl
  · intro ip
    constructor
    · rintro ⟨i, hvalid, rfl⟩
      exact hkeeps.mem_of_slot (hentry i hvalid)
    · intro hip
      obtain ⟨i, mac, hi⟩ := hkeeps.exists_slot hip
      obtain ⟨hvalid, hfst, _⟩ := (arpTable_some net).mp hi
      exact ⟨i, hvalid, hfst⟩
  · exact fun i hvalid => hkeeps.values i _ (hentry i hvalid)
  · -- a slot keeps its address from the step on
    intro x hx i hvalid
    obtain ⟨tr₁, tr₂, rfl⟩ := List.append_of_mem hx
    obtain ⟨hbefore, hstep, _⟩ := hrun.split
    have hold := (arpTable_keeps hbefore).keys i
    have hnew := (arpTable_keeps (hbefore.snoc hstep)).keys i
    rw [senders_concat] at hnew
    have hused : arpTable x.1 i = some ((x.1.arpCache i).ip, (x.1.arpCache i).mac) :=
      (arpTable_some x.1).mpr ⟨hvalid, rfl, rfl⟩
    rw [hused] at hold
    rw [firstKeys_getElem? _ hold.symm] at hnew
    obtain ⟨b, hb, hip⟩ := Option.map_eq_some_iff.mp hnew
    obtain ⟨hvalid', hip', _⟩ := (arpTable_some x.2.2).mp hb
    exact ⟨hvalid', hip'.trans hip⟩
  · -- what is sent goes to the address that was heard last
    intro ip mac hip hmac
    have hlookup : arpLookup net ip = some mac := by
      rw [arpLookup_find, hkeeps.find, if_pos hip, hmac]
    refine ⟨?_, ?_, ?_⟩
    · intro wait srcPort dstPort seq ack flags data
      unfold netSendTcp
      rw [tcpTargetMac_cached hlookup]
      rfl
    · intro wait
      unfold netPing
      rw [tcpTargetMac_cached hlookup]
      rfl
    · intro hunicast
      exact (if_neg hunicast).trans hlookup

/-- An ARP reply of 10.0.2.2. -/
def gatewayReply : ArpFrame where
  mem := Mem.image [0, 1, 8, 0, 6, 4, 0, 2, 0x52, 0x55, 10, 0, 2, 2, 10, 0, 2, 2,
    0x52, 0x54, 0, 0x12, 0x34, 0x56, 10, 0, 2, 15]
  data := 0
  len := 28

/-- The reply is the first packet. -/
theorem arp_cache_bindings_gateway :
    ((netHandleArp (netInit bootNet) gatewayReply.mem gatewayReply.data
      gatewayReply.len).val.arpCache 0).valid = true :=
  ((arp_cache_bindings ((Run.nil (netInit bootNet)).snoc
    (show ArpStep (netInit bootNet) (.packet gatewayReply) _ from rfl))).1 0).mpr (by decide)

end ZohoOs
