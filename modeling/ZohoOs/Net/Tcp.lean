/-
  ZohoOs.Net.Tcp — the connections, step by step (tcp.c).

  While `net_send_tcp` waits for an ARP reply it polls the card, so other
  segments are handled in the middle of a handler, to any depth; and the
  keyboard interrupt may call `tcp_connect` there.  A step of `TcpStep` is what
  happens between two such points; what the waiting calls have left to do is
  kept on a stack.

  Main results:
    * `tcpHandlePacket_runs`, `netHandlePacket_runs`, `tcpConnect_runs` — the
      calls of the code, with all that happens while they wait, are runs;
    * `tcp_transitions` — which segments establish and close a connection.
-/
import ZohoOs.Lib.Transition
import ZohoOs.Net.Confine

namespace ZohoOs

open ZohoOs.Lib

/-! ## §1. Steps. -/

/-- What a call that waits in `net_send_tcp` has left to do. -/
inductive TcpRest where
  /-- Nothing. -/
  | done
  /-- `tcp_connect` counts its SYN. -/
  | countSyn (i : Fin maxConnections)
  /-- The remote side's FIN is acknowledged, ours comes next. -/
  | sendFin (i : Fin maxConnections)
  /-- Our FIN is sent. -/
  | awaitAck (i : Fin maxConnections)
  deriving DecidableEq

/-- The stack, and the calls that wait, the innermost first. -/
structure TcpSys where
  net : Net
  waiting : List TcpRest

inductive TcpAct where
  | connect (ip : BitVec 32) (port : BitVec 16)
  | segment (srcIp : BitVec 32) (srcPort dstPort : BitVec 16) (seq ack : BitVec 32)
      (flags : BitVec 8)
  /-- The innermost wait is over. -/
  | resume
  /-- Something that does not touch the connections. -/
  | other
  deriving DecidableEq

/-- A free connection slot. -/
def tcpFree (net : Net) : Option (Fin maxConnections) :=
  (List.finRange maxConnections).find? fun i => (net.connections i).state = .closed

/-- `tcp_connect`, until it sends the SYN. -/
def tcpConnectStart (net : Net) (ip : BitVec 32) (port : BitVec 16) : Net × List TcpRest :=
  match tcpFree net with
  | none => (net, [])
  | some i =>
    let localPort := net.nextLocalPort
    let c := { net.connections i with
      remoteIp := ip, remotePort := port, localPort := localPort, state := .synSent
      seq := 0x12345678, ack := 0 }
    (netTcpBind { net.setConn i c with nextLocalPort := localPort + 1 } localPort .tcpHandlePacket,
      [.countSyn i])

/-- `tcp_handle_packet`, until it sends its first segment. -/
def tcpSegmentStart (net : Net) (srcIp : BitVec 32) (srcPort dstPort : BitVec 16)
    (seq ack : BitVec 32) (flags : BitVec 8) : Net × List TcpRest :=
  match tcpFind net srcIp srcPort dstPort with
  | none => if flags &&& tcpFlagSyn ≠ 0 then (net, [.done]) else (net, [])
  | some i =>
    match (net.connections i).state with
    | .synSent =>
      if flags &&& tcpFlagSyn ≠ 0 ∧ flags &&& tcpFlagAck ≠ 0 then
        (net.setConn i { net.connections i with
          state := .established, remoteSeq := seq + 1, ack := seq + 1, remoteAck := ack }, [.done])
      else (net, [])
    | .established =>
      if flags &&& tcpFlagFin ≠ 0 then
        (net.setConn i { net.connections i with state := .closeWait, ack := seq + 1 }, [.sendFin i])
      else (net, [])
    | .lastAck => (tcpLastAck net i flags, [])
    | _ => (net, [])

/-- What a call does after its wait. -/
def TcpRest.run : TcpRest → Net → Net × List TcpRest
  | .done, net => (net, [])
  | .countSyn i, net =>
    (net.setConn i { net.connections i with seq := (net.connections i).seq + 1 }, [])
  | .sendFin i, net => (net, [.awaitAck i])
  | .awaitAck i, net =>
    (net.setConn i { net.connections i with
      state := .lastAck, seq := (net.connections i).seq + 1 }, [])

/-- The tables of the TCP connections are the same. -/
structure SameTcp (net net' : Net) : Prop where
  connections : net'.connections = net.connections
  tcpBindings : net'.tcpBindings = net.tcpBindings
  nextLocalPort : net'.nextLocalPort = net.nextLocalPort

inductive TcpStep : TcpSys → TcpAct → TcpSys → Prop
  | connect (s : TcpSys) (ip : BitVec 32) (port : BitVec 16) :
      TcpStep s (.connect ip port)
        ⟨(tcpConnectStart s.net ip port).1, (tcpConnectStart s.net ip port).2 ++ s.waiting⟩
  | segment (s : TcpSys) (srcIp : BitVec 32) (srcPort dstPort : BitVec 16) (seq ack : BitVec 32)
      (flags : BitVec 8) (hbound : tcpBound s.net dstPort = some .tcpHandlePacket) :
      TcpStep s (.segment srcIp srcPort dstPort seq ack flags)
        ⟨(tcpSegmentStart s.net srcIp srcPort dstPort seq ack flags).1,
          (tcpSegmentStart s.net srcIp srcPort dstPort seq ack flags).2 ++ s.waiting⟩
  | resume (net : Net) (w : TcpRest) (ws : List TcpRest) :
      TcpStep ⟨net, w :: ws⟩ .resume ⟨(w.run net).1, (w.run net).2 ++ ws⟩
  | other (s : TcpSys) (net : Net) (hsame : SameTcp s.net net) :
      TcpStep s .other ⟨net, s.waiting⟩

/-- The state after an action. -/
def TcpSys.next (s : TcpSys) : TcpAct → TcpSys
  | .connect ip port =>
    ⟨(tcpConnectStart s.net ip port).1, (tcpConnectStart s.net ip port).2 ++ s.waiting⟩
  | .segment srcIp srcPort dstPort seq ack flags =>
    ⟨(tcpSegmentStart s.net srcIp srcPort dstPort seq ack flags).1,
      (tcpSegmentStart s.net srcIp srcPort dstPort seq ack flags).2 ++ s.waiting⟩
  | .resume =>
    match s.waiting with
    | [] => s
    | w :: ws => ⟨(w.run s.net).1, (w.run s.net).2 ++ ws⟩
  | .other => s

/-- The action can happen. -/
def TcpSys.Enabled (s : TcpSys) : TcpAct → Prop
  | .segment _ _ dstPort _ _ _ => tcpBound s.net dstPort = some .tcpHandlePacket
  | .resume => s.waiting ≠ []
  | _ => True

instance decidableEnabled (s : TcpSys) : (a : TcpAct) → Decidable (s.Enabled a)
  | .segment _ _ _ _ _ _ => inferInstanceAs (Decidable (_ = _))
  | .resume => inferInstanceAs (Decidable (_ ≠ _))
  | .connect _ _ => instDecidableTrue
  | .other => instDecidableTrue

theorem TcpSys.Enabled.step {s : TcpSys} {a : TcpAct} (h : s.Enabled a) :
    TcpStep s a (s.next a) := by
  obtain ⟨net, waiting⟩ := s
  cases a with
  | connect ip port => exact .connect _ ip port
  | segment srcIp srcPort dstPort seq ack flags => exact .segment _ _ _ _ _ _ _ h
  | resume =>
    cases waiting with
    | nil => exact absurd rfl h
    | cons w ws => exact .resume net w ws
  | other => exact .other _ net ⟨rfl, rfl, rfl⟩

/-- The transitions of a list of actions. -/
def TcpSys.trace (s : TcpSys) : List TcpAct → List (Transition TcpSys TcpAct)
  | [] => []
  | a :: as => (s, a, s.next a) :: (s.next a).trace as

/-- Each action can happen when its turn comes. -/
def TcpSys.AllEnabled (s : TcpSys) : List TcpAct → Prop
  | [] => True
  | a :: as => s.Enabled a ∧ (s.next a).AllEnabled as

instance decidableAllEnabled : (s : TcpSys) → (acts : List TcpAct) → Decidable (s.AllEnabled acts)
  | _, [] => instDecidableTrue
  | s, a :: as => @instDecidableAnd _ _ (decidableEnabled s a) (decidableAllEnabled (s.next a) as)

theorem TcpSys.run_trace {s : TcpSys} {acts : List TcpAct} (h : s.AllEnabled acts) :
    Run TcpStep s (s.trace acts) (acts.foldl TcpSys.next s) := by
  induction acts generalizing s with
  | nil => exact .nil s
  | cons a as ih => exact ((Run.nil s).snoc h.1.step).append (ih h.2)

/-! ## §2. The calls of the code are runs. -/

/-- Steps lead from one state to another. -/
def TcpRuns (s t : TcpSys) : Prop := ∃ tr, Run TcpStep s tr t

namespace TcpRuns

theorem refl (s : TcpSys) : TcpRuns s s := ⟨[], .nil s⟩

theorem trans {s t u : TcpSys} : TcpRuns s t → TcpRuns t u → TcpRuns s u
  | ⟨tr, h⟩, ⟨tr', h'⟩ => ⟨tr ++ tr', h.append h'⟩

theorem step {s t : TcpSys} {a : TcpAct} (h : TcpStep s a t) : TcpRuns s t :=
  ⟨[(s, a, t)], (Run.nil s).snoc h⟩

theorem other {net net' : Net} (h : SameTcp net net') (ws : List TcpRest) :
    TcpRuns ⟨net, ws⟩ ⟨net', ws⟩ := step (.other ⟨net, ws⟩ net' h)

end TcpRuns

/-- A call of `e1000_poll` is a run. -/
def PollRuns (poll : Net → Net) : Prop := ∀ net ws, TcpRuns ⟨net, ws⟩ ⟨poll net, ws⟩

/-- So is what happens in the waits of a handler. -/
structure PollWaits.Runs (waits : PollWaits) : Prop where
  first : ∀ poll ∈ waits.first, PollRuns poll
  second : ∀ poll ∈ waits.second, PollRuns poll

theorem SameTcp.refl (net : Net) : SameTcp net net := ⟨rfl, rfl, rfl⟩

theorem SameTcp.trans {a b c : Net} (h : SameTcp a b) (h' : SameTcp b c) : SameTcp a c :=
  ⟨h'.connections.trans h.connections, h'.tcpBindings.trans h.tcpBindings,
    h'.nextLocalPort.trans h.nextLocalPort⟩

theorem netSendEth_sameTcp (net : Net) (mac : BitVec 48) (type : BitVec 16)
    (data : List (BitVec 8)) : SameTcp net (netSendEth net mac type data).val := ⟨rfl, rfl, rfl⟩

theorem netSendTcpTo_sameTcp (net : Net) (mac : BitVec 48) (ip : BitVec 32)
    (srcPort dstPort : BitVec 16) (seq ack : BitVec 32) (flags : BitVec 8)
    (data : List (BitVec 8)) :
    SameTcp net (netSendTcpTo net mac ip srcPort dstPort seq ack flags data).val := ⟨rfl, rfl, rfl⟩

theorem arpWait_runs {wait : PollWait} (hwait : ∀ poll ∈ wait, PollRuns poll) (net : Net)
    (ip : BitVec 32) (ws : List TcpRest) :
    TcpRuns ⟨net, ws⟩ ⟨(arpWait wait net ip).val.2, ws⟩ := by
  induction wait generalizing net with
  | nil => exact .refl _
  | cons poll rest ih =>
    have hpoll : TcpRuns ⟨net, ws⟩ ⟨poll net, ws⟩ := hwait poll List.mem_cons_self net ws
    unfold arpWait
    rw [Logged.val_bind]
    cases hfound : arpLookup (poll net) ip with
    | some mac => exact hpoll
    | none => exact hpoll.trans (ih (fun p hp => hwait p (List.mem_cons_of_mem _ hp)) (poll net))

/-- What `net_send_tcp` does to the state happens in its wait. -/
theorem netSendTcp_runs {wait : PollWait} (hwait : ∀ poll ∈ wait, PollRuns poll) (net : Net)
    (ip : BitVec 32) (srcPort dstPort : BitVec 16) (seq ack : BitVec 32) (flags : BitVec 8)
    (data : List (BitVec 8)) (ws : List TcpRest) :
    TcpRuns ⟨net, ws⟩ ⟨(netSendTcp wait net ip srcPort dstPort seq ack flags data).val, ws⟩ := by
  have hfound : TcpRuns ⟨net, ws⟩ ⟨(tcpTargetMac wait net ip).val.2, ws⟩ := by
    unfold tcpTargetMac
    cases arpLookup net ip with
    | some mac => exact .refl _
    | none =>
      have hrequest := netSendEth_sameTcp net broadcastMac ethertypeArp
        (arpPacket arpOpRequest net.myMac net.myIp 0 ip)
      exact (TcpRuns.other hrequest ws).trans (arpWait_runs hwait _ ip ws)
  unfold netSendTcp
  rw [Logged.val_bind]
  generalize (tcpTargetMac wait net ip).val = found at hfound
  obtain ⟨mac, net'⟩ := found
  cases mac with
  | none => exact hfound
  | some mac =>
    exact hfound.trans (.other (netSendTcpTo_sameTcp net' mac ip srcPort dstPort seq ack flags data) ws)

section

variable {waits : PollWaits} (hwaits : waits.Runs) (net : Net) (mem : Mem)
include hwaits

/-- A segment that is handled, together with what happens in the waits of its
    handler. -/
theorem tcpHandlePacket_runs (srcIp : BitVec 32) (srcPort dstPort : BitVec 16) (tcp : Word)
    (hbound : tcpBound net dstPort = some .tcpHandlePacket) (ws : List TcpRest) :
    TcpRuns ⟨net, ws⟩ ⟨(tcpHandlePacket waits net mem srcIp srcPort dstPort tcp).val, ws⟩ := by
  have hstart := TcpRuns.step (.segment ⟨net, ws⟩ srcIp srcPort dstPort
    (ntohl (mem.load32 (tcp + 4))) (ntohl (mem.load32 (tcp + 8))) (mem.load8 (tcp + 13)) hbound)
  have hresume : ∀ net w, TcpRuns ⟨net, w :: ws⟩ ⟨(w.run net).1, (w.run net).2 ++ ws⟩ :=
    fun net w => .step (.resume net w ws)
  unfold tcpHandlePacket
  unfold tcpSegmentStart at hstart
  dsimp only at hstart
  cases hfind : tcpFind net srcIp srcPort dstPort with
  | none =>
    rw [hfind] at hstart
    dsimp only at hstart ⊢
    unfold tcpReject
    by_cases hsyn : mem.load8 (tcp + 13) &&& tcpFlagSyn ≠ 0
    · rw [if_pos hsyn] at hstart
      rw [Logged.val_bind, val_readMem8, if_pos hsyn]
      exact hstart.trans ((netSendTcp_runs hwaits.first net _ _ _ _ _ _ _ _).trans
        (hresume _ .done))
    · rw [if_neg hsyn] at hstart
      rw [Logged.val_bind, val_readMem8, if_neg hsyn]
      exact hstart
  | some i =>
    rw [hfind] at hstart
    dsimp only at hstart ⊢
    rw [Logged.val_bind, Logged.val_bind, val_readMem32, val_readMem32]
    cases hstate : (net.connections i).state
    case synSent =>
      rw [hstate] at hstart
      dsimp only at hstart ⊢
      rw [Logged.val_bind, val_readMem8]
      unfold tcpSynSent
      by_cases hflags : mem.load8 (tcp + 13) &&& tcpFlagSyn ≠ 0 ∧
          mem.load8 (tcp + 13) &&& tcpFlagAck ≠ 0
      · rw [if_pos hflags] at hstart ⊢
        exact hstart.trans ((netSendTcp_runs hwaits.first _ _ _ _ _ _ _ _ _).trans
          (hresume _ .done))
      · rw [if_neg hflags] at hstart ⊢
        exact hstart
    case established =>
      rw [hstate] at hstart
      dsimp only at hstart ⊢
      rw [Logged.val_bind, val_readMem8]
      unfold tcpEstablished
      by_cases hfin : mem.load8 (tcp + 13) &&& tcpFlagFin ≠ 0
      · rw [if_pos hfin] at hstart ⊢
        -- the ACK is sent, then the FIN
        exact hstart.trans ((netSendTcp_runs hwaits.first _ _ _ _ _ _ _ _ _).trans
          ((hresume _ (.sendFin i)).trans ((netSendTcp_runs hwaits.second _ _ _ _ _ _ _ _ _).trans
            (hresume _ (.awaitAck i)))))
      · rw [if_neg hfin] at hstart ⊢
        exact hstart
    case lastAck =>
      rw [hstate] at hstart
      exact hstart
    all_goals
      rw [hstate] at hstart
      exact hstart

end

/-! ## §3. What does not touch the connections. -/

theorem sameTcp_ite {c : Prop} [Decidable c] {net : Net} {x y : NetM Net}
    (hx : SameTcp net x.val) (hy : SameTcp net y.val) : SameTcp net (if c then x else y).val := by
  by_cases h : c
  · rw [if_pos h]
    exact hx
  · rw [if_neg h]
    exact hy

theorem sameTcp_bind {α : Type} {net : Net} {x : NetM α} {f : α → NetM Net}
    (h : SameTcp net (f x.val).val) : SameTcp net (x >>= f).val := h

theorem netSendIpv4_sameTcp (net : Net) (ip : BitVec 32) (mac : BitVec 48) (proto : BitVec 8)
    (data : List (BitVec 8)) : SameTcp net (netSendIpv4 net ip mac proto data).val := ⟨rfl, rfl, rfl⟩

theorem netSendUdp_sameTcp (net : Net) (ip : BitVec 32) (srcPort dstPort : BitVec 16)
    (data : List (BitVec 8)) : SameTcp net (netSendUdp net ip srcPort dstPort data).val := by
  unfold netSendUdp
  cases (if ip = 0xFFFFFFFF then some broadcastMac else arpLookup net ip) with
  | none => exact .refl net
  | some mac => exact sameTcp_bind (netSendIpv4_sameTcp net ip mac ipv4ProtoUdp _)

theorem dhcpRequest_sameTcp {net net' : Net} (h : SameTcp net net') :
    SameTcp net (dhcpRequest net').val :=
  sameTcp_bind (h.trans (netSendUdp_sameTcp net' 0xFFFFFFFF 68 67 _))

theorem arpUpdate_sameTcp (net : Net) (ip : BitVec 32) (mac : BitVec 48) :
    SameTcp net (arpUpdate net ip mac) := by
  unfold arpUpdate
  cases arpSlot net ip <;> exact ⟨rfl, rfl, rfl⟩

section

variable (net : Net) (mem : Mem)

theorem netHandleArp_sameTcp (data : Word) (len : BitVec 16) :
    SameTcp net (netHandleArp net mem data len).val := by
  have hupdate := arpUpdate_sameTcp net (mem.load32 (data + 14)) (load48 mem (data + 8))
  unfold netHandleArp
  apply sameTcp_ite (.refl net)
  apply sameTcp_bind
  apply sameTcp_bind
  apply sameTcp_ite (.refl net)
  exact sameTcp_bind (sameTcp_bind (sameTcp_bind (sameTcp_bind
    (sameTcp_ite (hupdate.trans (netSendEth_sameTcp _ _ _ _)) hupdate))))

theorem netHandleIcmp_sameTcp (srcMac ip data : Word) (len : BitVec 16) :
    SameTcp net (netHandleIcmp net mem srcMac ip data len).val := by
  unfold netHandleIcmp
  apply sameTcp_ite (.refl net)
  apply sameTcp_bind
  apply sameTcp_ite
  · exact sameTcp_bind (sameTcp_bind (sameTcp_bind (sameTcp_bind
      (netSendIpv4_sameTcp net _ _ ipv4ProtoIcmp _))))
  · exact sameTcp_ite (.refl net) (.refl net)

theorem dhcpHandle_sameTcp (data : Word) (len : BitVec 16) :
    SameTcp net (dhcpHandle net mem data len).val := by
  unfold dhcpHandle
  apply sameTcp_ite (.refl net)
  apply sameTcp_bind
  apply sameTcp_bind
  apply sameTcp_ite (.refl net)
  apply sameTcp_bind
  apply sameTcp_ite (.refl net)
  apply sameTcp_bind
  apply sameTcp_ite
  · apply sameTcp_bind
    exact dhcpRequest_sameTcp ⟨rfl, rfl, rfl⟩
  · exact sameTcp_ite (sameTcp_bind ⟨rfl, rfl, rfl⟩) ⟨rfl, rfl, rfl⟩

theorem netHandleUdp_sameTcp (ip data : Word) (len : BitVec 16) :
    SameTcp net (netHandleUdp net mem ip data len).val := by
  unfold netHandleUdp
  apply sameTcp_ite (.refl net)
  apply sameTcp_bind
  apply sameTcp_bind
  apply sameTcp_bind
  apply sameTcp_ite (.refl net)
  apply sameTcp_bind
  rw [val_readMem16]
  cases udpBound net (ntohs (mem.load16 (data + 2))) with
  | none => exact .refl net
  | some h =>
    cases h
    exact sameTcp_bind (dhcpHandle_sameTcp net mem _ _)

end

/-! ## §4. Receiving and connecting. -/

section

variable {waits : PollWaits} (hwaits : waits.Runs) (net : Net) (mem : Mem)
include hwaits

theorem netHandleTcp_runs (ip data : Word) (len : BitVec 16) (ws : List TcpRest) :
    TcpRuns ⟨net, ws⟩ ⟨(netHandleTcp waits net mem ip data len).val, ws⟩ := by
  unfold netHandleTcp
  by_cases hshort : len.toNat < sizeofTcp
  · rw [if_pos hshort]
    exact .refl _
  · rw [if_neg hshort, Logged.val_bind, Logged.val_bind, Logged.val_bind, val_readMem16,
      val_readMem16, val_readMem8]
    dsimp only
    by_cases hheader : (((tcpHeaderLen (mem.load8 (data + 12))).setWidth 16).toNat < sizeofTcp ∨
        len < (tcpHeaderLen (mem.load8 (data + 12))).setWidth 16)
    · rw [if_pos hheader]
      exact .refl _
    · rw [if_neg hheader, Logged.val_bind, Logged.val_bind]
      cases hbound : tcpBound net (ntohs (mem.load16 (data + 2))) with
      | none => exact .refl _
      | some h =>
        cases h
        exact tcpHandlePacket_runs hwaits net mem _ _ _ data hbound ws

theorem netHandleIpv4_runs (srcMac data : Word) (len : BitVec 16) (ws : List TcpRest) :
    TcpRuns ⟨net, ws⟩ ⟨(netHandleIpv4 waits net mem srcMac data len).val, ws⟩ := by
  have hite : ∀ {c : Prop} [Decidable c] {x y : NetM Net}, TcpRuns ⟨net, ws⟩ ⟨x.val, ws⟩ →
      TcpRuns ⟨net, ws⟩ ⟨y.val, ws⟩ → TcpRuns ⟨net, ws⟩ ⟨(if c then x else y).val, ws⟩ := by
    intro c _ x y hx hy
    by_cases h : c
    · rw [if_pos h]
      exact hx
    · rw [if_neg h]
      exact hy
  unfold netHandleIpv4
  apply hite (.refl _)
  apply hite (.refl _)
  apply hite (.other (netHandleIcmp_sameTcp net mem _ _ _ _) ws)
  apply hite (.other (netHandleUdp_sameTcp net mem _ _ _) ws)
  exact hite (netHandleTcp_runs hwaits net mem _ _ _ ws) (.refl _)

/-- **A received frame**, together with what happens in the waits of its
    handler, is a run of the connections. -/
theorem netHandlePacket_runs (data : Word) (len : BitVec 16) (ws : List TcpRest) :
    TcpRuns ⟨net, ws⟩ ⟨(netHandlePacket waits net mem data len).val, ws⟩ := by
  unfold netHandlePacket
  by_cases hshort : len.toNat < sizeofEth
  · rw [if_pos hshort]
    exact .refl _
  · have hsame : SameTcp net { net with rxPacketCount := net.rxPacketCount + 1 } := ⟨rfl, rfl, rfl⟩
    have hcount := TcpRuns.other hsame ws
    rw [if_neg hshort]
    dsimp only
    rw [Logged.val_bind, Logged.val_bind, val_readMem16]
    by_cases harp : ntohs (mem.load16 (data + 12)) = ethertypeArp
    · rw [if_pos harp]
      exact hcount.trans (.other (netHandleArp_sameTcp _ mem _ _) ws)
    · rw [if_neg harp]
      by_cases hipv4 : ntohs (mem.load16 (data + 12)) = ethertypeIpv4
      · rw [if_pos hipv4]
        exact hcount.trans (netHandleIpv4_runs hwaits _ mem _ _ _ ws)
      · rw [if_neg hipv4]
        exact hcount

end

/-- `tcp_connect`. -/
theorem tcpConnect_runs {wait : PollWait} (hwait : ∀ poll ∈ wait, PollRuns poll) (net : Net)
    (ip : BitVec 32) (port : BitVec 16) (ws : List TcpRest) :
    TcpRuns ⟨net, ws⟩ ⟨(tcpConnect wait net ip port).val, ws⟩ := by
  have hstart := TcpRuns.step (.connect ⟨net, ws⟩ ip port)
  unfold tcpConnectStart tcpFree at hstart
  unfold tcpConnect
  dsimp only at hstart
  cases hfree : (List.finRange maxConnections).find? fun i => (net.connections i).state = .closed with
  | none =>
    rw [hfree] at hstart
    exact hstart
  | some i =>
    rw [hfree] at hstart
    exact hstart.trans ((netSendTcp_runs hwait _ _ _ _ _ _ _ _ _).trans
      (.step (.resume _ (.countSyn i) ws)))

/-! ## §5. Transitions. -/

@[simp] theorem setConn_self (net : Net) (i : Fin maxConnections) (c : TcpConn) :
    (net.setConn i c).connections i = c := by
  show Function.update net.connections i c i = c
  exact Function.update_self ..

theorem setConn_of_ne (net : Net) {i j : Fin maxConnections} (h : j ≠ i) (c : TcpConn) :
    (net.setConn i c).connections j = net.connections j := by
  show Function.update net.connections i c j = net.connections j
  exact Function.update_of_ne h ..

theorem netTcpBind_connections (net : Net) (port : BitVec 16) (h : TcpHandler) :
    (netTcpBind net port h).connections = net.connections := by
  unfold netTcpBind
  cases (List.finRange tcpMaxBindings).find? fun i => ¬ (net.tcpBindings i).valid <;> rfl

theorem tcpFree_closed {net : Net} {i : Fin maxConnections} (h : tcpFree net = some i) :
    (net.connections i).state = .closed := by
  have hfound := List.find?_some h
  exact of_decide_eq_true hfound

/-- The segment comes from the remote end of a connection, to its port. -/
def TcpConn.Matches (c : TcpConn) (srcIp : BitVec 32) (srcPort dstPort : BitVec 16) : Prop :=
  c.localPort = dstPort ∧ c.remotePort = srcPort ∧ c.remoteIp = srcIp

theorem tcpFind_matches {net : Net} {srcIp : BitVec 32} {srcPort dstPort : BitVec 16}
    {i : Fin maxConnections} (h : tcpFind net srcIp srcPort dstPort = some i) :
    (net.connections i).state ≠ .closed ∧ (net.connections i).Matches srcIp srcPort dstPort := by
  have hfound := List.find?_some h
  have hstate : (net.connections i).state ≠ .closed ∧ (net.connections i).localPort = dstPort ∧
      (net.connections i).remotePort = srcPort ∧ (net.connections i).remoteIp = srcIp :=
    of_decide_eq_true hfound
  exact hstate

/-- A connection that a step of `tcp_connect` changes was closed. -/
theorem tcpConnectStart_connections (net : Net) (ip : BitVec 32) (port : BitVec 16)
    (i : Fin maxConnections) :
    (tcpConnectStart net ip port).1.connections i = net.connections i ∨
      (net.connections i).state = .closed ∧
        ((tcpConnectStart net ip port).1.connections i).state = .synSent := by
  unfold tcpConnectStart
  cases hfree : tcpFree net with
  | none => exact Or.inl rfl
  | some j =>
    dsimp only
    rw [netTcpBind_connections]
    by_cases hij : i = j
    · subst hij
      right
      exact ⟨tcpFree_closed hfree, congrArg TcpConn.state (setConn_self net i _)⟩
    · left
      exact setConn_of_ne net hij _

/-- What a segment does to the state of a connection. -/
theorem tcpSegmentStart_state (net : Net) (srcIp : BitVec 32) (srcPort dstPort : BitVec 16)
    (seq ack : BitVec 32) (flags : BitVec 8) (i : Fin maxConnections) :
    let c := net.connections i
    let c' := (tcpSegmentStart net srcIp srcPort dstPort seq ack flags).1.connections i
    c' = c ∨ c.Matches srcIp srcPort dstPort ∧
      (c.state = .synSent ∧ c'.state = .established ∧ flags &&& tcpFlagSyn ≠ 0 ∧
          flags &&& tcpFlagAck ≠ 0 ∨
        c.state = .established ∧ c'.state = .closeWait ∧ flags &&& tcpFlagFin ≠ 0 ∨
        c.state = .lastAck ∧ c'.state = .closed ∧ flags &&& tcpFlagAck ≠ 0) := by
  dsimp only
  unfold tcpSegmentStart
  cases hfind : tcpFind net srcIp srcPort dstPort with
  | none =>
    left
    dsimp only
    split <;> rfl
  | some j =>
    dsimp only
    by_cases hij : i = j
    · subst hij
      have hmatch := (tcpFind_matches hfind).2
      -- the three states in which a segment does something
      cases hstate : (net.connections i).state
      case synSent =>
        dsimp only
        by_cases hflags : flags &&& tcpFlagSyn ≠ 0 ∧ flags &&& tcpFlagAck ≠ 0
        · rw [if_pos hflags]
          dsimp only
          rw [setConn_self]
          exact Or.inr ⟨hmatch, Or.inl ⟨rfl, rfl, hflags⟩⟩
        · rw [if_neg hflags]
          exact Or.inl rfl
      case established =>
        dsimp only
        by_cases hfin : flags &&& tcpFlagFin ≠ 0
        · rw [if_pos hfin]
          dsimp only
          rw [setConn_self]
          exact Or.inr ⟨hmatch, Or.inr (Or.inl ⟨rfl, rfl, hfin⟩)⟩
        · rw [if_neg hfin]
          exact Or.inl rfl
      case lastAck =>
        dsimp only
        unfold tcpLastAck
        by_cases hack : flags &&& tcpFlagAck ≠ 0
        · rw [if_pos hack, setConn_self]
          exact Or.inr ⟨hmatch, Or.inr (Or.inr ⟨rfl, rfl, hack⟩)⟩
        · rw [if_neg hack]
          exact Or.inl rfl
      all_goals exact Or.inl rfl
    · left
      -- the segment is for connection `j`, and `i` is another one
      have hother : ∀ c, (net.setConn j c).connections i = net.connections i :=
        fun c => setConn_of_ne net hij c
      cases (net.connections j).state
      case synSent =>
        dsimp only
        split
        · exact hother _
        · rfl
      case established =>
        dsimp only
        split
        · exact hother _
        · rfl
      case lastAck =>
        dsimp only
        unfold tcpLastAck
        split
        · exact hother _
        · rfl
      all_goals rfl

/-- What the end of a wait does to the state of a connection. -/
theorem TcpRest.run_state (w : TcpRest) (net : Net) (i : Fin maxConnections) :
    ((w.run net).1.connections i).state = (net.connections i).state ∨
      w = .awaitAck i ∧ ((w.run net).1.connections i).state = .lastAck := by
  cases w with
  | done => exact Or.inl rfl
  | sendFin j => exact Or.inl rfl
  | countSyn j =>
    left
    show ((net.setConn j _).connections i).state = _
    by_cases hij : i = j
    · subst hij
      rw [setConn_self]
    · rw [setConn_of_ne net hij]
  | awaitAck j =>
    show ((net.setConn j _).connections i).state = _ ∨ _ ∧ ((net.setConn j _).connections i).state = _
    by_cases hij : i = j
    · subst hij
      rw [setConn_self]
      exact Or.inr ⟨rfl, rfl⟩
    · rw [setConn_of_ne net hij]
      exact Or.inl rfl

/-- **Which segments move a connection**: one is established by a SYN+ACK
    segment of its remote end, and closed by a segment of its remote end with
    the ACK flag, in every run of calls, segments and waits. -/
theorem tcp_transitions {s t : TcpSys} {tr : List (Transition TcpSys TcpAct)}
    (hrun : Run TcpStep s tr t) (x : Transition TcpSys TcpAct) (hx : x ∈ tr)
    (i : Fin maxConnections) :
    let c := x.1.net.connections i
    let c' := x.2.2.net.connections i
    (c.state = .synSent → c'.state = .established →
      ∃ srcIp srcPort dstPort seq ack flags,
        x.2.1 = .segment srcIp srcPort dstPort seq ack flags ∧
          c.Matches srcIp srcPort dstPort ∧ flags &&& tcpFlagSyn ≠ 0 ∧ flags &&& tcpFlagAck ≠ 0) ∧
    (c.state = .lastAck → c'.state = .closed →
      ∃ srcIp srcPort dstPort seq ack flags,
        x.2.1 = .segment srcIp srcPort dstPort seq ack flags ∧
          c.Matches srcIp srcPort dstPort ∧ flags &&& tcpFlagAck ≠ 0) := by
  have hstep := (hrun.step_of_mem (I := fun _ => True) (C := fun _ _ => True)
    (fun _ _ _ _ _ _ => trivial) (fun _ _ => trivial) trivial x hx).2
  obtain ⟨s, a, s'⟩ := x
  dsimp only at hstep ⊢
  cases hstep with
  | connect _ ip port =>
    obtain hsame | ⟨hclosed, hsyn⟩ := tcpConnectStart_connections s.net ip port i
    · rw [hsame]
      exact ⟨fun h h' => (nomatch h.symm.trans h'), fun h h' => (nomatch h.symm.trans h')⟩
    · exact ⟨fun h => (nomatch h.symm.trans hclosed), fun h => (nomatch h.symm.trans hclosed)⟩
  | segment _ srcIp srcPort dstPort seq ack flags _ =>
    obtain hsame | ⟨hmatch, ⟨hs, he, hflags⟩ | ⟨hs, he, hfin⟩ | ⟨hs, he, hack⟩⟩ :=
      tcpSegmentStart_state s.net srcIp srcPort dstPort seq ack flags i
    · rw [hsame]
      exact ⟨fun h h' => (nomatch h.symm.trans h'), fun h h' => (nomatch h.symm.trans h')⟩
    · exact ⟨fun _ _ => ⟨_, _, _, _, _, _, rfl, hmatch, hflags⟩, fun h => (nomatch h.symm.trans hs)⟩
    · exact ⟨fun h => (nomatch h.symm.trans hs), fun h => (nomatch h.symm.trans hs)⟩
    · exact ⟨fun h => (nomatch h.symm.trans hs), fun _ _ => ⟨_, _, _, _, _, _, rfl, hmatch, hack⟩⟩
  | resume net w ws =>
    obtain hsame | ⟨_, hlast⟩ := w.run_state net i
    · rw [hsame]
      exact ⟨fun h h' => (nomatch h.symm.trans h'), fun h h' => (nomatch h.symm.trans h')⟩
    · rw [hlast]
      exact ⟨fun _ h' => (nomatch h'), fun _ h' => (nomatch h')⟩
  | other _ net hsame =>
    rw [show net.connections = s.net.connections from hsame.connections]
    exact ⟨fun h h' => (nomatch h.symm.trans h'), fun h h' => (nomatch h.symm.trans h')⟩

/-- A connection that is opened, established, closed by the remote side and
    acknowledged.  Our SYN and FIN have the numbers 0x12345678 and 0x12345679,
    and the segments acknowledge other numbers. -/
def wrongAcks : List TcpAct :=
  [.connect 0x0202000A 80, .resume,
    .segment 0x0202000A 80 49152 1 0 (tcpFlagSyn ||| tcpFlagAck), .resume,
    .segment 0x0202000A 80 49152 2 0 (tcpFlagFin ||| tcpFlagAck), .resume, .resume,
    .segment 0x0202000A 80 49152 3 7 tcpFlagAck]

theorem wrongAcks_enabled : TcpSys.AllEnabled ⟨bootNet, []⟩ wrongAcks := by decide

theorem wrongAcks_length : (TcpSys.trace ⟨bootNet, []⟩ wrongAcks).length = 8 := by decide

/-- The step that establishes the connection. -/
theorem wrongAcks_third : 2 < (TcpSys.trace ⟨bootNet, []⟩ wrongAcks).length :=
  lt_of_lt_of_eq (by decide) wrongAcks_length.symm

/-- The step that closes it. -/
theorem wrongAcks_last : 7 < (TcpSys.trace ⟨bootNet, []⟩ wrongAcks).length :=
  lt_of_lt_of_eq (by decide) wrongAcks_length.symm

/-- `tcp_transitions` on its third step, and on its last. -/
theorem tcp_transitions_wrongAcks :
    (∃ x ∈ TcpSys.trace ⟨bootNet, []⟩ wrongAcks, ∃ srcIp srcPort dstPort seq ack flags,
      x.2.1 = .segment srcIp srcPort dstPort seq ack flags ∧
        (x.1.net.connections 0).Matches srcIp srcPort dstPort ∧
        flags &&& tcpFlagSyn ≠ 0 ∧ flags &&& tcpFlagAck ≠ 0) ∧
    (∃ x ∈ TcpSys.trace ⟨bootNet, []⟩ wrongAcks, ∃ srcIp srcPort dstPort seq ack flags,
      x.2.1 = .segment srcIp srcPort dstPort seq ack flags ∧
        (x.1.net.connections 0).Matches srcIp srcPort dstPort ∧ flags &&& tcpFlagAck ≠ 0) := by
  constructor
  · exact ⟨_, List.getElem_mem wrongAcks_third, (tcp_transitions (TcpSys.run_trace wrongAcks_enabled) _
      (List.getElem_mem wrongAcks_third) 0).1 (by decide) (by decide)⟩
  · exact ⟨_, List.getElem_mem wrongAcks_last, (tcp_transitions (TcpSys.run_trace wrongAcks_enabled) _
      (List.getElem_mem wrongAcks_last) 0).2 (by decide) (by decide)⟩

/-- **No segment is checked for what it acknowledges**: both transitions of
    `tcp_transitions` are taken on segments that acknowledge another number. -/
theorem wrong_acks_accepted : ∃ tr t, Run TcpStep ⟨bootNet, []⟩ tr t ∧
    (∃ x ∈ tr, ∃ srcIp srcPort dstPort seq ack flags,
      x.2.1 = .segment srcIp srcPort dstPort seq ack flags ∧
        (x.1.net.connections 0).state = .synSent ∧ (x.2.2.net.connections 0).state = .established ∧
        ack ≠ (x.1.net.connections 0).seq) ∧
    (∃ x ∈ tr, ∃ srcIp srcPort dstPort seq ack flags,
      x.2.1 = .segment srcIp srcPort dstPort seq ack flags ∧
        (x.1.net.connections 0).state = .lastAck ∧ (x.2.2.net.connections 0).state = .closed ∧
        ack ≠ (x.1.net.connections 0).seq) := by
  refine ⟨_, _, TcpSys.run_trace wrongAcks_enabled, ⟨_, List.getElem_mem wrongAcks_third, ?_⟩,
    ⟨_, List.getElem_mem wrongAcks_last, ?_⟩⟩
  · exact ⟨_, _, _, _, _, _, rfl, by decide, by decide, by decide⟩
  · exact ⟨_, _, _, _, _, _, rfl, by decide, by decide, by decide⟩

end ZohoOs
