/-
  ZohoOs.Net.Receive — draining the receive ring (e1000.c).

  `e1000_poll` hands the packet of the current descriptor to
  `net_handle_packet` and only then clears the descriptor and moves on.  A
  packet handler may call `e1000_poll` again, so the model keeps the number of
  activations whose handler is still running; between any two steps the
  network card may complete further descriptors.

  A nested call finds the descriptor of the call above still done, and hands
  the same packet out once more: `receive_in_order_iff` says that the packets
  go out in ring order exactly when no handler calls `e1000_poll`.
-/
import ZohoOs.Lib.Transition
import ZohoOs.Net.Handle
import Mathlib.Data.Fintype.Card
import Mathlib.Data.List.Count

namespace ZohoOs

open ZohoOs.Lib

/-! ## §1. The ring. -/

/-- `NUM_RX_DESCS`. -/
abbrev numRxDescs : Nat := 128

/-- `e1000_rx_desc_t`, as far as the driver reads it. -/
structure RxDesc where
  addr : Word
  length : BitVec 16
  status : BitVec 8
  deriving DecidableEq

/-- The descriptor-done bit. -/
def RxDesc.Done (d : RxDesc) : Prop := d.status &&& 0x1 ≠ 0

instance (d : RxDesc) : Decidable d.Done := inferInstanceAs (Decidable (_ ≠ _))

/-- What `e1000_poll` passed to `net_handle_packet`, and for which
    descriptor. -/
structure Handed where
  desc : Fin numRxDescs
  data : Word
  len : BitVec 16
  deriving DecidableEq

structure E1000Rx where
  mmioBase : Word
  rxDescs : Fin numRxDescs → RxDesc
  rxCur : Fin numRxDescs
  /-- The activations of `e1000_poll` whose packet is being handled. -/
  depth : Nat
  /-- Ghost: the packets handed out so far, oldest first. -/
  handed : List Handed
  /-- Ghost: the values written to `REG_RDT`, oldest first. -/
  returned : List (Fin numRxDescs)
  /-- Ghost: how often the card has completed each descriptor. -/
  completed : Fin numRxDescs → Nat

namespace E1000Rx

/-- The condition of the `while`, and the call of `net_handle_packet`. -/
def pollTest (s : E1000Rx) : E1000Rx :=
  let d := s.rxDescs s.rxCur
  if d.Done then
    { s with depth := s.depth + 1, handed := s.handed ++ [⟨s.rxCur, d.addr, d.length⟩] }
  else s

/-- The rest of the loop body, once the handler has returned. -/
def retire (s : E1000Rx) : E1000Rx :=
  { s with
    rxDescs := Function.update s.rxDescs s.rxCur { s.rxDescs s.rxCur with status := 0 }
    rxCur := s.rxCur + 1
    depth := s.depth - 1
    returned := s.returned ++ [s.rxCur] }

/-- The entry of `e1000_poll`. -/
def enterPoll (s : E1000Rx) : E1000Rx := if s.mmioBase = 0 then s else s.pollTest

/-- The card writes a packet of length `len` for descriptor `i`. -/
def complete (s : E1000Rx) (i : Fin numRxDescs) (len : BitVec 16) : E1000Rx :=
  { s with
    rxDescs := Function.update s.rxDescs i { s.rxDescs i with length := len, status := 0x1 }
    completed := Function.update s.completed i (s.completed i + 1) }

end E1000Rx

inductive RxAct where
  /-- The card completes a descriptor it owns. -/
  | complete (i : Fin numRxDescs) (len : BitVec 16)
  /-- `e1000_poll` is called, and no packet is being handled. -/
  | poll
  /-- The innermost handler calls `e1000_poll`. -/
  | reenter
  /-- The innermost handler returns, and its `e1000_poll` goes on. -/
  | handled
  deriving DecidableEq

inductive RxStep : E1000Rx → RxAct → E1000Rx → Prop
  | complete (s : E1000Rx) {i : Fin numRxDescs} (len : BitVec 16) (hown : ¬ (s.rxDescs i).Done) :
      RxStep s (.complete i len) (s.complete i len)
  | poll (s : E1000Rx) (hidle : s.depth = 0) : RxStep s .poll s.enterPoll
  | reenter (s : E1000Rx) (hbusy : s.depth ≠ 0) : RxStep s .reenter s.enterPoll
  | handled (s : E1000Rx) (hbusy : s.depth ≠ 0) : RxStep s .handled s.retire.pollTest

/-! ## §2. The property. -/

/-- The first `k` slots of the ring from `c` on. -/
def ringSlots (c : Fin numRxDescs) (k : Nat) : List (Fin numRxDescs) :=
  (List.range k).map fun i => c + Fin.ofNat numRxDescs i

/-- From `c` on, the packets go out in ring order, each once, and so do the
    descriptors go back; whatever the card completed was handed out and
    returned, or still waits; and no more activations are under way than there
    are done descriptors. -/
structure E1000Rx.InOrder (c : Fin numRxDescs) (s : E1000Rx) : Prop where
  handed : s.handed.map Handed.desc = ringSlots c s.handed.length
  returned : s.returned = ringSlots c s.returned.length
  open_le : s.returned.length ≤ s.handed.length ∧ s.handed.length ≤ s.returned.length + s.depth
  accounted : ∀ i, s.completed i = s.returned.count i + if (s.rxDescs i).Done then 1 else 0
  bounded : s.depth ≤ (Finset.univ.filter fun i => (s.rxDescs i).Done).card

/-- No packet is being handled yet, and the driver and the card agree on what
    is done. -/
structure E1000Rx.Fresh (s : E1000Rx) : Prop where
  depth : s.depth = 0
  handed : s.handed = []
  returned : s.returned = []
  completed : ∀ i, s.completed i = if (s.rxDescs i).Done then 1 else 0

/-- When `e1000_poll` returns to a caller outside, the current descriptor is not
    done: it left nothing behind. -/
def Drained (x : Transition E1000Rx RxAct) : Prop :=
  (∀ i len, x.2.1 ≠ .complete i len) → x.2.2.depth = 0 → x.2.2.mmioBase ≠ 0 →
    ¬ (x.2.2.rxDescs x.2.2.rxCur).Done

/-- The step is not a nested call of `e1000_poll` from a packet handler. -/
def RxAct.NotNested : RxAct → Prop
  | .reenter => False
  | _ => True

/-! ## §3. Slots of the ring. -/

theorem ringSlots_succ (c : Fin numRxDescs) (k : Nat) :
    ringSlots c (k + 1) = ringSlots c k ++ [c + Fin.ofNat numRxDescs k] := by
  unfold ringSlots
  rw [List.range_succ, List.map_append, List.map_singleton]

theorem add_ofNat_succ (c : Fin numRxDescs) (k : Nat) :
    c + Fin.ofNat numRxDescs k + 1 = c + Fin.ofNat numRxDescs (k + 1) := by
  apply Fin.ext
  rw [Fin.val_add, Fin.val_add, Fin.val_add]
  show ((c.val + k % 128) % 128 + 1) % 128 = (c.val + (k + 1) % 128) % 128
  omega

theorem add_ofNat_ne_succ (c : Fin numRxDescs) (k : Nat) :
    c + Fin.ofNat numRxDescs k ≠ c + Fin.ofNat numRxDescs (k + 1) := by
  intro h
  have hval := congrArg Fin.val h
  rw [Fin.val_add, Fin.val_add] at hval
  have hval' : (c.val + k % 128) % 128 = (c.val + (k + 1) % 128) % 128 := hval
  omega

/-! ## §4. Without nested calls. -/

/-- The invariant of a run without nested calls: at most one packet is being
    handled, that of the current descriptor. -/
structure E1000Rx.Inv (c : Fin numRxDescs) (s : E1000Rx) : Prop extends s.InOrder c where
  depth_le : s.depth ≤ 1
  cur : s.rxCur = c + Fin.ofNat numRxDescs s.returned.length
  open_eq : s.handed.length = s.returned.length + s.depth
  done : s.depth = 1 → (s.rxDescs s.rxCur).Done
  mmio : s.depth ≠ 0 → s.mmioBase ≠ 0

namespace E1000Rx

variable {c : Fin numRxDescs} {s : E1000Rx}

/-- The descriptors that are done. -/
def doneSet (s : E1000Rx) : Finset (Fin numRxDescs) :=
  Finset.univ.filter fun i => (s.rxDescs i).Done

theorem one_le_doneSet {i : Fin numRxDescs} (hi : (s.rxDescs i).Done) : 1 ≤ s.doneSet.card :=
  Finset.card_pos.mpr ⟨i, Finset.mem_filter.mpr ⟨Finset.mem_univ i, hi⟩⟩

theorem Fresh.inv (h : s.Fresh) : s.Inv s.rxCur := by
  refine ⟨⟨?_, ?_, ?_, ?_, ?_⟩, ?_, ?_, ?_, ?_, fun h0 => absurd h.depth h0⟩
  · rw [h.handed]
    rfl
  · rw [h.returned]
    rfl
  · rw [h.handed, h.returned]
    exact ⟨le_rfl, Nat.zero_le _⟩
  · intro i
    rw [h.completed, h.returned, List.count_nil, Nat.zero_add]
  · rw [h.depth]
    exact Nat.zero_le _
  · rw [h.depth]
    exact Nat.zero_le _
  · rw [h.returned]
    exact (Fin.add_zero s.rxCur).symm
  · rw [h.handed, h.returned, h.depth]
    rfl
  · intro h1
    rw [h.depth] at h1
    cases h1

/-- The test of the loop hands out the current descriptor, if it is done. -/
theorem Inv.pollTest (h : s.Inv c) (h0 : s.depth = 0) (hmmio : s.mmioBase ≠ 0) :
    s.pollTest.Inv c := by
  unfold E1000Rx.pollTest
  by_cases hd : (s.rxDescs s.rxCur).Done
  · have hlen : s.handed.length = s.returned.length := by
      rw [h.open_eq, h0, Nat.add_zero]
    rw [if_pos hd]
    refine ⟨⟨?_, h.returned, ?_, h.accounted, ?_⟩, ?_, h.cur, ?_, fun _ => hd, fun _ => hmmio⟩
    · rw [List.map_append, h.handed, List.length_append, List.map_singleton, List.length_singleton,
        ringSlots_succ, hlen, ← h.cur]
    · show s.returned.length ≤ (s.handed ++ [_]).length ∧
        (s.handed ++ [_]).length ≤ s.returned.length + (s.depth + 1)
      rw [List.length_append, List.length_singleton, h0, hlen]
      omega
    · show s.depth + 1 ≤ _
      rw [h0]
      exact one_le_doneSet hd
    · show s.depth + 1 ≤ 1
      omega
    · show (s.handed ++ _).length = s.returned.length + (s.depth + 1)
      rw [List.length_append, List.length_singleton, hlen, h0]
  · rw [if_neg hd]
    exact h

/-- The rest of the body returns the descriptor that was handed out. -/
theorem Inv.retire (h : s.Inv c) (h1 : s.depth = 1) : s.retire.Inv c := by
  have hdone := h.done h1
  have hlen : s.handed.length = s.returned.length + 1 := by rw [h.open_eq, h1]
  have hclear : ¬ ({ s.rxDescs s.rxCur with status := 0 } : RxDesc).Done := by
    show ¬ ((0 : BitVec 8) &&& 0x1 ≠ 0)
    decide
  refine ⟨⟨h.handed, ?_, ?_, ?_, ?_⟩, ?_, ?_, ?_, ?_, fun _ => h.mmio (by omega)⟩
  · show s.returned ++ [s.rxCur] = ringSlots c (s.returned ++ [s.rxCur]).length
    rw [List.length_append, List.length_singleton, ringSlots_succ, ← h.returned, ← h.cur]
  · show (s.returned ++ [s.rxCur]).length ≤ s.handed.length ∧
      s.handed.length ≤ (s.returned ++ [s.rxCur]).length + (s.depth - 1)
    rw [List.length_append, List.length_singleton, hlen]
    omega
  · intro i
    show s.completed i = (s.returned ++ [s.rxCur]).count i +
      if (Function.update s.rxDescs s.rxCur _ i).Done then 1 else 0
    rw [h.accounted i, List.count_append]
    by_cases hi : i = s.rxCur
    · subst hi
      rw [Function.update_self, if_pos hdone, if_neg hclear, List.count_singleton_self]
    · have hzero : [s.rxCur].count i = 0 :=
        List.count_eq_zero.mpr fun hmem => hi (List.mem_singleton.mp hmem)
      rw [Function.update_of_ne hi, hzero, Nat.add_zero]
  · show s.depth - 1 ≤ _
    omega
  · show s.depth - 1 ≤ 1
    omega
  · show s.rxCur + 1 = c + Fin.ofNat numRxDescs (s.returned ++ [s.rxCur]).length
    rw [List.length_append, List.length_singleton, ← add_ofNat_succ, ← h.cur]
  · show s.handed.length = (s.returned ++ [s.rxCur]).length + (s.depth - 1)
    rw [List.length_append, List.length_singleton, hlen]
    omega
  · intro h2
    have : s.depth - 1 = 1 := h2
    omega

theorem Inv.complete (h : s.Inv c) {i : Fin numRxDescs} (len : BitVec 16)
    (hown : ¬ (s.rxDescs i).Done) : (s.complete i len).Inv c := by
  have hset : ({ s.rxDescs i with length := len, status := 0x1 } : RxDesc).Done := by
    show (0x1 : BitVec 8) &&& 0x1 ≠ 0
    decide
  have hgrow : ∀ j, (s.rxDescs j).Done → ((s.complete i len).rxDescs j).Done := by
    intro j hj
    show (Function.update s.rxDescs i _ j).Done
    by_cases hji : j = i
    · subst hji
      exact absurd hj hown
    · rw [Function.update_of_ne hji]
      exact hj
  refine ⟨⟨h.handed, h.returned, h.open_le, ?_, ?_⟩, h.depth_le, h.cur, h.open_eq,
    fun h1 => hgrow _ (h.done h1), h.mmio⟩
  · intro j
    show Function.update s.completed i _ j = s.returned.count j +
      if (Function.update s.rxDescs i _ j).Done then 1 else 0
    by_cases hji : j = i
    · subst hji
      rw [Function.update_self, Function.update_self, if_pos hset, h.accounted j, if_neg hown]
    · rw [Function.update_of_ne hji, Function.update_of_ne hji]
      exact h.accounted j
  · refine h.bounded.trans (Finset.card_le_card fun j hj => ?_)
    rw [Finset.mem_filter] at hj ⊢
    exact ⟨hj.1, hgrow j hj.2⟩

/-- Every step but a nested call keeps the invariant. -/
theorem Inv.step (h : s.Inv c) {a : RxAct} {s' : E1000Rx} (ha : a.NotNested)
    (hstep : RxStep s a s') : s'.Inv c := by
  cases hstep with
  | complete len hown => exact h.complete len hown
  | poll hidle =>
    unfold enterPoll
    by_cases hb : s.mmioBase = 0
    · rw [if_pos hb]
      exact h
    · rw [if_neg hb]
      exact h.pollTest hidle hb
  | reenter => exact ha.elim
  | handled hbusy =>
    have h1 : s.depth = 1 := by
      have := h.depth_le
      omega
    refine (h.retire h1).pollTest ?_ (h.mmio hbusy)
    show s.depth - 1 = 0
    omega

/-! ## §5. A nested call shows at once. -/

/-- A nested call hands the packet of the current descriptor out again. -/
theorem Inv.reenter (h : s.Inv c) (hbusy : s.depth ≠ 0) : ¬ s.enterPoll.InOrder c := by
  have h1 : s.depth = 1 := by
    have := h.depth_le
    omega
  have hlen : s.handed.length = s.returned.length + 1 := by rw [h.open_eq, h1]
  intro hbad
  have horder := hbad.handed
  unfold enterPoll E1000Rx.pollTest at horder
  rw [if_neg (h.mmio hbusy), if_pos (h.done h1)] at horder
  rw [List.map_append, h.handed, List.length_append, List.map_singleton, List.length_singleton,
    ringSlots_succ, List.append_cancel_left_eq] at horder
  have hslot : s.rxCur = c + Fin.ofNat numRxDescs s.handed.length := (List.cons.inj horder).1
  rw [h.cur, hlen] at hslot
  exact add_ofNat_ne_succ c _ hslot

/-- Whatever the handlers do, `e1000_poll` returns to its caller with the
    current descriptor not done. -/
theorem drained_of_step {a : RxAct} {s' : E1000Rx} (hstep : RxStep s a s') : Drained (s, a, s') := by
  have htest : ∀ t : E1000Rx, t.pollTest.depth = 0 → ¬ (t.pollTest.rxDescs t.pollTest.rxCur).Done := by
    intro t
    unfold E1000Rx.pollTest
    by_cases hd : (t.rxDescs t.rxCur).Done
    · rw [if_pos hd]
      intro h0
      exact absurd h0 (Nat.succ_ne_zero _)
    · rw [if_neg hd]
      exact fun _ => hd
  intro hnot h0 hmmio
  dsimp only at hnot h0 hmmio ⊢
  cases hstep with
  | complete len _ => exact absurd rfl (hnot _ len)
  | poll =>
    unfold enterPoll at h0 hmmio ⊢
    by_cases hb : s.mmioBase = 0
    · rw [if_pos hb] at hmmio
      exact absurd hb hmmio
    · rw [if_neg hb] at h0 ⊢
      exact htest s h0
  | reenter =>
    unfold enterPoll at h0 hmmio ⊢
    by_cases hb : s.mmioBase = 0
    · rw [if_pos hb] at hmmio
      exact absurd hb hmmio
    · rw [if_neg hb] at h0 ⊢
      exact htest s h0
  | handled => exact htest _ h0

end E1000Rx

/-! ## §6. The condition is exact. -/

/-- **Delivery from the receive ring.**  Take any ring, any behaviour of the
    card and of the packet handlers.  Every packet is handed out exactly once,
    in ring order, and its descriptor returned exactly once, with no more
    activations of `e1000_poll` than done descriptors, and every outermost
    call drains the ring, if and only if no packet handler calls
    `e1000_poll`. -/
theorem receive_in_order_iff {s₀ s : E1000Rx} {tr : List (Transition E1000Rx RxAct)}
    (hrun : Run RxStep s₀ tr s) (h0 : s₀.Fresh) :
    (∀ x ∈ tr, x.2.2.InOrder s₀.rxCur ∧ Drained x) ↔ ∀ x ∈ tr, x.2.1.NotNested := by
  have hsteps : ∀ x ∈ tr, RxStep x.1 x.2.1 x.2.2 := fun x hx =>
    (hrun.step_of_mem (I := fun _ => True) (C := fun _ _ => True) (fun _ _ _ _ _ _ => trivial)
      (fun _ _ => trivial) trivial x hx).2
  have hbreak : ∀ (t : E1000Rx) a t', t.Inv s₀.rxCur → RxStep t a t' → ¬ a.NotNested →
      ¬ t'.InOrder s₀.rxCur := by
    intro t a t' hinv hstep hnested
    cases hstep with
    | complete => exact absurd trivial hnested
    | poll => exact absurd trivial hnested
    | handled => exact absurd trivial hnested
    | reenter hbusy => exact hinv.reenter hbusy
  have horder : (∀ x ∈ tr, x.2.2.InOrder s₀.rxCur) ↔ ∀ x ∈ tr, x.2.1.NotNested :=
    hrun.always_iff (C := fun _ a => RxAct.NotNested a)
      (fun t a t' hinv hn hstep => hinv.step hn hstep) (fun t hinv => hinv.toInOrder) hbreak h0.inv
  constructor
  · intro h
    exact horder.mp fun x hx => (h x hx).1
  · intro h x hx
    exact ⟨horder.mpr h x hx, E1000Rx.drained_of_step (hsteps x hx)⟩

/-- `net_send_tcp` polls for a target that is not in the ARP cache. -/
theorem netSendTcp_polls {net : Net} {targetIp : BitVec 32} (hmiss : arpLookup net targetIp = none)
    (poll : Net → Net) (wait : PollWait) (srcPort dstPort : BitVec 16) (seq ack : BitVec 32)
    (flags : BitVec 8) (data : List (BitVec 8)) :
    .poll ∈ (netSendTcp (poll :: wait) net targetIp srcPort dstPort seq ack flags data).log := by
  unfold netSendTcp tcpTargetMac
  rw [hmiss, Logged.log_bind]
  apply List.mem_append_left
  rw [Logged.log_bind]
  apply List.mem_append_right
  exact List.mem_cons_self

/-- **A packet handler that polls**: a SYN for which there is no connection, from
    a host that is not in the ARP cache. -/
theorem tcpHandlePacket_polls {net : Net} {mem : Mem} {tcp : Word} {srcIp : BitVec 32}
    {srcPort dstPort : BitVec 16} {waits : PollWaits} (hwait : waits.first ≠ [])
    (hnew : tcpFind net srcIp srcPort dstPort = none)
    (hsyn : mem.load8 (tcp + 13) &&& tcpFlagSyn ≠ 0) (hmiss : arpLookup net srcIp = none) :
    .poll ∈ (tcpHandlePacket waits net mem srcIp srcPort dstPort tcp).log := by
  obtain ⟨poll, rest, hpoll⟩ := List.exists_cons_of_ne_nil hwait
  unfold tcpHandlePacket
  rw [hnew]
  show _ ∈ (tcpReject waits net mem srcIp srcPort dstPort tcp).log
  unfold tcpReject
  rw [Logged.log_bind]
  apply List.mem_append_right
  show _ ∈ Logged.log (if mem.load8 (tcp + 13) &&& tcpFlagSyn ≠ 0 then _ else _)
  rw [if_pos hsyn, Logged.log_bind, hpoll]
  apply List.mem_append_right
  exact netSendTcp_polls hmiss poll rest _ _ _ _ _ _

/-- A ring whose first descriptor is done. -/
def oneWaiting : E1000Rx :=
  { mmioBase := 0xFEBC0000
    rxDescs := fun i => if i = 0 then ⟨0x9000, 54, 1⟩ else ⟨0x9000, 0, 0⟩
    rxCur := 0
    depth := 0
    handed := []
    returned := []
    completed := fun i => if i = 0 then 1 else 0 }

theorem oneWaiting_fresh : oneWaiting.Fresh := by
  refine ⟨rfl, rfl, rfl, fun i => ?_⟩
  show (if i = 0 then 1 else 0) = if RxDesc.Done (if i = 0 then _ else _) then 1 else 0
  by_cases hi : i = 0
  · rw [if_pos hi, if_pos hi]
    decide
  · rw [if_neg hi, if_neg hi]
    decide

/-- `e1000_poll` is called for it, and hands it out. -/
theorem oneWaiting_poll : RxStep oneWaiting .poll oneWaiting.enterPoll := .poll oneWaiting rfl

/-- `receive_in_order_iff` for one packet, whose handler just returns. -/
theorem receive_in_order_one :
    oneWaiting.enterPoll.handed = [⟨0, 0x9000, 54⟩] ∧
      oneWaiting.enterPoll.retire.pollTest.InOrder 0 := by
  have hhandled : RxStep oneWaiting.enterPoll .handled oneWaiting.enterPoll.retire.pollTest :=
    .handled _ (by decide)
  have hiff := receive_in_order_iff (((Run.nil oneWaiting).snoc oneWaiting_poll).snoc hhandled)
    oneWaiting_fresh
  refine ⟨by decide, (hiff.mpr ?_ (_, _, _) (List.mem_append_right _ (List.mem_singleton_self _))).1⟩
  intro x hx
  rcases List.mem_append.mp hx with hx | hx
  · rw [List.mem_singleton.mp hx]
    trivial
  · rw [List.mem_singleton.mp hx]
    trivial

/-- **One packet, handed out twice**: it is a segment as in
    `tcpHandlePacket_polls`, and the nested `e1000_poll` passes it to
    `net_handle_packet` again, two activations for one done descriptor. -/
theorem nested_poll_hands_out_again : ∃ s : E1000Rx,
    Run RxStep oneWaiting
      [(oneWaiting, .poll, oneWaiting.enterPoll), (oneWaiting.enterPoll, .reenter, s)] s ∧
      oneWaiting.Fresh ∧ s.handed = [⟨0, 0x9000, 54⟩, ⟨0, 0x9000, 54⟩] ∧ s.depth = 2 ∧
      s.completed 0 = 1 ∧ ¬ s.InOrder 0 := by
  have hnest : RxStep oneWaiting.enterPoll .reenter oneWaiting.enterPoll.enterPoll :=
    .reenter _ (by decide)
  refine ⟨_, ((Run.nil oneWaiting).snoc oneWaiting_poll).snoc hnest, oneWaiting_fresh,
    by decide, by decide, by decide, fun hbad => ?_⟩
  have horder := hbad.handed
  revert horder
  decide

end ZohoOs
