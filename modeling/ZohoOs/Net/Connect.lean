/-
  ZohoOs.Net.Connect — connections that cannot be opened (tcp.c, net.c).

  `tcp_connect` takes a slot and a local port, binds the port, and sends its
  SYN.  `net_tcp_bind` logs that the table is full, `net_send_tcp` that no ARP
  reply came, and both return nothing.

  Main results:
    * `tcpConnect_state` — the slot that was taken stays taken;
    * `connect_atomic_iff` — the calls that fail without a trace.
-/
import ZohoOs.Lib.Slots
import ZohoOs.Net.Tcp

namespace ZohoOs

open ZohoOs.Lib

/-! ## §1. Failure. -/

/-- The state in which `tcp_connect` sends its SYN. -/
def tcpConnecting (net : Net) (ip : BitVec 32) (port : BitVec 16) : Net :=
  (tcpConnectStart net ip port).1

/-- A binding slot is free. -/
def BindingFree (net : Net) : Prop := ∃ i, (net.tcpBindings i).valid = false

instance (net : Net) : Decidable (BindingFree net) := inferInstanceAs (Decidable (∃ _, _))

/-- The MAC address of the target is in the cache, or comes in while
    `net_send_tcp` waits. -/
def MacFound (wait : PollWait) (net : Net) (ip : BitVec 32) : Prop :=
  (tcpTargetMac wait net ip).val.1 ≠ none

/-- The SYN cannot be sent: there is no free slot, the binding table is full, or
    no ARP reply came. -/
def CannotConnect (wait : PollWait) (net : Net) (ip : BitVec 32) (port : BitVec 16) : Prop :=
  tcpFree net = none ∨ ¬ BindingFree net ∨ ¬ MacFound wait (tcpConnecting net ip port) ip

/-- **The property**: a call that cannot send its SYN leaves the tables as they
    were. -/
def ConnectAtomic (wait : PollWait) (net : Net) (ip : BitVec 32) (port : BitVec 16) : Prop :=
  CannotConnect wait net ip port →
    (tcpConnect wait net ip port).val.connections = net.connections ∧
      (tcpConnect wait net ip port).val.tcpBindings = net.tcpBindings

/-- Nothing else that is handled in the wait touches the connections. -/
def QuietWait (wait : PollWait) (net : Net) (ip : BitVec 32) : Prop :=
  SameTcp net (tcpTargetMac wait net ip).val.2

/-! ## §2. What a call leaves. -/

section

variable {wait : PollWait} {net : Net} {ip : BitVec 32} {port : BitVec 16}

/-- The send itself touches no connection. -/
theorem netSendTcp_sameTcp (hquiet : QuietWait wait net ip) (srcPort dstPort : BitVec 16)
    (seq ack : BitVec 32) (flags : BitVec 8) (data : List (BitVec 8)) :
    SameTcp net (netSendTcp wait net ip srcPort dstPort seq ack flags data).val := by
  unfold QuietWait at hquiet
  unfold netSendTcp
  rw [Logged.val_bind]
  cases (tcpTargetMac wait net ip).val.1 with
  | none => exact hquiet
  | some mac => exact hquiet.trans (netSendTcpTo_sameTcp _ mac ip srcPort dstPort seq ack flags data)

/-- With no free slot nothing happens. -/
theorem tcpConnect_full (hfull : tcpFree net = none) : (tcpConnect wait net ip port).val = net := by
  unfold tcpFree at hfull
  unfold tcpConnect
  rw [hfull]
  rfl

/-- **The slot stays taken**, whether or not the SYN went out. -/
theorem tcpConnect_state {i : Fin maxConnections} (hfree : tcpFree net = some i)
    (hquiet : QuietWait wait (tcpConnecting net ip port) ip) :
    ((tcpConnect wait net ip port).val.connections i).state = .synSent := by
  have hsame := netSendTcp_sameTcp hquiet net.nextLocalPort port 0x12345678 0 tcpFlagSyn []
  have hstart : ((tcpConnecting net ip port).connections i).state = .synSent := by
    unfold tcpConnecting tcpConnectStart
    rw [hfree]
    dsimp only
    rw [netTcpBind_connections]
    exact congrArg TcpConn.state (setConn_self net i _)
  have hcall : (tcpConnect wait net ip port).val =
      let net' := (netSendTcp wait (tcpConnecting net ip port) ip net.nextLocalPort port 0x12345678 0
        tcpFlagSyn []).val
      net'.setConn i { net'.connections i with seq := (net'.connections i).seq + 1 } := by
    unfold tcpConnecting tcpConnectStart
    rw [hfree]
    unfold tcpFree at hfree
    unfold tcpConnect
    rw [hfree]
    rfl
  rw [hcall]
  dsimp only
  rw [setConn_self, hsame.connections]
  exact hstart

/-- A slot that was taken was closed before. -/
theorem tcpConnect_changed {i : Fin maxConnections} (hfree : tcpFree net = some i)
    (hquiet : QuietWait wait (tcpConnecting net ip port) ip) :
    (tcpConnect wait net ip port).val.connections ≠ net.connections := by
  intro hsame
  have hstate := tcpConnect_state hfree hquiet
  rw [hsame, tcpFree_closed hfree] at hstate
  cases hstate

/-- **Connect failure.**  In whatever state the tables and the cache are, a
    `tcp_connect` that cannot send its SYN leaves the tables as they were exactly
    if there is no free slot to take, or the call does not fail: the local port
    can be bound, and the MAC address is found. -/
theorem connect_atomic_iff (hquiet : QuietWait wait (tcpConnecting net ip port) ip) :
    ConnectAtomic wait net ip port ↔
      tcpFree net = none ∨ BindingFree net ∧ MacFound wait (tcpConnecting net ip port) ip := by
  unfold ConnectAtomic CannotConnect
  cases hfree : tcpFree net with
  | none =>
    refine iff_of_true (fun _ => ?_) (.inl rfl)
    rw [tcpConnect_full hfree]
    exact ⟨rfl, rfl⟩
  | some i =>
    rw [or_iff_right (Option.some_ne_none i), or_iff_right (Option.some_ne_none i)]
    constructor
    · intro hatomic
      by_contra hfail
      exact tcpConnect_changed hfree hquiet (hatomic (not_and_or.mp hfail)).1
    · intro ⟨hbinding, hmac⟩ hfail
      rcases hfail with hfull | hlost
      · exact absurd hbinding hfull
      · exact absurd hmac hlost

end

/-- The gateway is in the cache. -/
def gatewayNet : Net :=
  { bootNet with
    arpCache := fun i => if i.val = 0 then ⟨0x0202000A, 0x020200005552, true⟩ else bootNet.arpCache i }

/-- A connect to the gateway does not fail. -/
theorem connect_atomic_iff_gateway : ConnectAtomic [] gatewayNet 0x0202000A 80 := by
  have hquiet : QuietWait [] (tcpConnecting gatewayNet 0x0202000A 80) 0x0202000A := ⟨rfl, rfl, rfl⟩
  refine (connect_atomic_iff hquiet).mpr (.inr ⟨by decide, ?_⟩)
  unfold MacFound
  decide

/-- **A connect that fails takes a slot**: nobody answers the ARP request, and
    slot 0 waits for a SYN+ACK. -/
theorem failed_connect_takes_slot : CannotConnect [] bootNet 0x0202000A 80 ∧
    ¬ ConnectAtomic [] bootNet 0x0202000A 80 := by
  have hquiet : QuietWait [] (tcpConnecting bootNet 0x0202000A 80) 0x0202000A := ⟨rfl, rfl, rfl⟩
  have hlost : CannotConnect [] bootNet 0x0202000A 80 := by
    refine .inr (.inr ?_)
    unfold MacFound
    decide
  have hfree : tcpFree bootNet = some 0 := by decide
  exact ⟨hlost, fun hatomic => tcpConnect_changed hfree hquiet (hatomic hlost).1⟩

end ZohoOs
