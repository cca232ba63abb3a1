/-
  ZohoOs.Net.Bindings — connections and port bindings (tcp.c, net.c).

  `tcp_connect` takes a connection slot and a binding; the last ACK frees the
  connection slot only.  As long as no connection has been closed, the used
  slots of both tables are the first ones, and they belong together in order.
  The first connection that is closed leaves its binding behind.

  Main results:
    * `Paired.step` — what every step keeps that closes no connection;
    * `bindings_coherent_iff` — along a run the two tables agree if and only
      if no connection is closed.
-/
import ZohoOs.Lib.Slots
import ZohoOs.Net.Tcp

namespace ZohoOs

open ZohoOs.Lib

/-! ## §1. Coherence. -/

/-- The two tables agree, and a free connection slot yields a connection that
    can receive its SYN+ACK. -/
structure Coherent (net : Net) : Prop where
  bound : ∀ i, (net.connections i).state ≠ .closed →
    tcpBound net (net.connections i).localPort = some .tcpHandlePacket
  belongs : ∀ j, (net.tcpBindings j).valid = true →
    ∃ i, (net.connections i).state ≠ .closed ∧
      (net.connections i).localPort = (net.tcpBindings j).port
  connects : ∀ ip port i, tcpFree net = some i →
    tcpBound (tcpConnectStart net ip port).1 net.nextLocalPort = some .tcpHandlePacket ∧
      tcpFind (tcpConnectStart net ip port).1 ip port net.nextLocalPort = some i

/-- The segment closes a connection. -/
def Closes (net : Net) : TcpAct → Prop
  | .segment srcIp srcPort dstPort _ _ flags =>
    ∃ i, tcpFind net srcIp srcPort dstPort = some i ∧ (net.connections i).state = .lastAck ∧
      flags &&& tcpFlagAck ≠ 0
  | _ => False

/-- After `tcp_init` and `net_init`. -/
structure TcpSys.Fresh (s : TcpSys) : Prop where
  closed : ∀ i, (s.net.connections i).state = .closed
  unbound : ∀ j, (s.net.tcpBindings j).valid = false
  waiting : s.waiting = []

/-! ## §2. Pairing. -/

/-- The local port of the connection in slot `k`. -/
def portOf (base : BitVec 16) (k : Nat) : BitVec 16 := base + BitVec.ofNat 16 k

theorem portOf_inj {base : BitVec 16} {j k : Nat} (hj : j < 2 ^ 16) (hk : k < 2 ^ 16)
    (h : portOf base j = portOf base k) : j = k := by
  have hofNat := (BitVec.add_right_inj base).mp h
  have hnat := congrArg BitVec.toNat hofNat
  rw [BitVec.toNat_ofNat, BitVec.toNat_ofNat, Nat.mod_eq_of_lt hj, Nat.mod_eq_of_lt hk] at hnat
  exact hnat

/-- The first `n` slots of both tables are used, and slot `k` of both has the
    `k`-th local port. -/
structure Paired (base : BitVec 16) (n : Nat) (net : Net) : Prop where
  le : n ≤ maxConnections
  opened : ∀ i, (net.connections i).state ≠ .closed ↔ i.val < n
  valid : ∀ j, (net.tcpBindings j).valid = true ↔ j.val < n
  localPort : ∀ i, i.val < n → (net.connections i).localPort = portOf base i.val
  port : ∀ j, j.val < n → (net.tcpBindings j).port = portOf base j.val
  next : net.nextLocalPort = portOf base n

/-- `net_tcp_bind` takes the next slot. -/
theorem netTcpBind_eq (net : Net) {n : Nat} (h : ∀ j, (net.tcpBindings j).valid = true ↔ j.val < n)
    (hn : n < tcpMaxBindings) (port : BitVec 16) (handler : TcpHandler) :
    netTcpBind net port handler =
      { net with tcpBindings := Function.update net.tcpBindings ⟨n, hn⟩ ⟨port, handler, true⟩ } := by
  have hfree : ∀ j, ¬ (net.tcpBindings j).valid = true ↔ n ≤ j.val := fun j => by
    rw [h j, Nat.not_lt]
  unfold netTcpBind
  rw [find?_slot_from hfree hn]

/-- The connection that is written to after the wait is one of the first `n`. -/
def TcpRest.Below (n : Nat) : TcpRest → Prop
  | .done => True
  | .countSyn i => i.val < n
  | .sendFin i => i.val < n
  | .awaitAck i => i.val < n

namespace Paired

variable {base : BitVec 16} {n : Nat} {net : Net}

theorem closed_iff (h : Paired base n net) (i : Fin maxConnections) :
    (net.connections i).state = .closed ↔ n ≤ i.val := by
  have hopen := h.opened i
  rw [← Nat.not_lt, ← hopen, not_not]

theorem tcpBound_port (h : Paired base n net) {k : Nat} (hk : k < n) :
    tcpBound net (portOf base k) = some .tcpHandlePacket := by
  have hlt : k < tcpMaxBindings := Nat.lt_of_lt_of_le hk h.le
  have hsome : ((List.finRange tcpMaxBindings).find? fun j =>
      decide ((net.tcpBindings j).valid ∧ (net.tcpBindings j).port = portOf base k)).isSome := by
    apply find?_slot_isSome_iff.mpr
    exact ⟨⟨k, hlt⟩, (h.valid _).mpr hk, h.port ⟨k, hlt⟩ hk⟩
  obtain ⟨j, hj⟩ := Option.isSome_iff_exists.mp hsome
  unfold tcpBound
  rw [hj]
  show some (net.tcpBindings j).handler = some .tcpHandlePacket
  cases (net.tcpBindings j).handler
  rfl

/-- Writing to a used slot that stays used and keeps its port. -/
theorem setConn (h : Paired base n net) {i : Fin maxConnections} (hi : i.val < n) {c : TcpConn}
    (hstate : c.state ≠ .closed) (hport : c.localPort = (net.connections i).localPort) :
    Paired base n (net.setConn i c) where
  le := h.le
  opened := by
    intro k
    by_cases hk : k = i
    · subst hk
      rw [setConn_self]
      exact iff_of_true hstate hi
    · rw [setConn_of_ne net hk]
      exact h.opened k
  valid := h.valid
  localPort := by
    intro k hkn
    by_cases hk : k = i
    · subst hk
      rw [setConn_self, hport]
      exact h.localPort k hkn
    · rw [setConn_of_ne net hk]
      exact h.localPort k hkn
  port := h.port
  next := h.next

theorem sameTcp {net' : Net} (h : Paired base n net) (hsame : SameTcp net net') :
    Paired base n net' where
  le := h.le
  opened := by rw [hsame.connections]; exact h.opened
  valid := by rw [hsame.tcpBindings]; exact h.valid
  localPort := by rw [hsame.connections]; exact h.localPort
  port := by rw [hsame.tcpBindings]; exact h.port
  next := by rw [hsame.nextLocalPort]; exact h.next

/-- `tcp_connect` takes the next slot of both tables. -/
theorem tcpFree_eq (h : Paired base n net) (hn : n < maxConnections) :
    tcpFree net = some ⟨n, hn⟩ := find?_slot_from h.closed_iff hn

theorem tcpFree_lt (h : Paired base n net) {i : Fin maxConnections} (hfree : tcpFree net = some i) :
    i.val = n ∧ n < maxConnections := by
  have hle : n ≤ i.val := (h.closed_iff i).mp (tcpFree_closed hfree)
  have hn : n < maxConnections := Nat.lt_of_le_of_lt hle i.isLt
  rw [h.tcpFree_eq hn] at hfree
  exact ⟨congrArg Fin.val (Option.some.inj hfree).symm, hn⟩

theorem connectStart_eq (h : Paired base n net) (hn : n < maxConnections) (ip : BitVec 32)
    (port : BitVec 16) :
    tcpConnectStart net ip port =
      ({ net.setConn ⟨n, hn⟩ { net.connections ⟨n, hn⟩ with
            remoteIp := ip, remotePort := port, localPort := net.nextLocalPort, state := .synSent
            seq := 0x12345678, ack := 0 } with
          nextLocalPort := net.nextLocalPort + 1
          tcpBindings := Function.update net.tcpBindings ⟨n, hn⟩
            ⟨net.nextLocalPort, .tcpHandlePacket, true⟩ }, [.countSyn ⟨n, hn⟩]) := by
  unfold tcpConnectStart
  rw [h.tcpFree_eq hn]
  dsimp only
  rw [netTcpBind_eq { net.setConn _ _ with nextLocalPort := _ } h.valid hn]
  rfl

/-- `tcp_connect` pairs one more connection with its binding. -/
theorem connect (h : Paired base n net) (hn : n < maxConnections) (ip : BitVec 32)
    (port : BitVec 16) : Paired base (n + 1) (tcpConnectStart net ip port).1 := by
  rw [h.connectStart_eq hn]
  constructor
  · exact hn
  · intro i
    by_cases hi : i = ⟨n, hn⟩
    · subst hi
      exact iff_of_true (by simp) (Nat.lt_succ_self n)
    · have hne : i.val ≠ n := fun h' => hi (Fin.ext h')
      dsimp only
      rw [setConn_of_ne net hi, h.opened i]
      omega
  · intro j
    by_cases hj : j = ⟨n, hn⟩
    · subst hj
      exact iff_of_true (by simp) (Nat.lt_succ_self n)
    · have hne : j.val ≠ n := fun h' => hj (Fin.ext h')
      dsimp only
      rw [Function.update_of_ne hj, h.valid j]
      omega
  · intro i hlt
    by_cases hi : i = ⟨n, hn⟩
    · subst hi
      dsimp only
      rw [setConn_self]
      exact h.next
    · have hne : i.val ≠ n := fun h' => hi (Fin.ext h')
      dsimp only
      rw [setConn_of_ne net hi]
      exact h.localPort i (by omega)
  · intro j hlt
    by_cases hj : j = ⟨n, hn⟩
    · subst hj
      dsimp only
      rw [Function.update_self]
      exact h.next
    · have hne : j.val ≠ n := fun h' => hj (Fin.ext h')
      dsimp only
      rw [Function.update_of_ne hj]
      exact h.port j (by omega)
  · show net.nextLocalPort + 1 = base + BitVec.ofNat 16 (n + 1)
    rw [h.next, BitVec.ofNat_add, ← BitVec.add_assoc]
    rfl

/-- The new connection is found by its SYN+ACK. -/
theorem tcpFind_connect (h : Paired base n net) (hn : n < maxConnections) (ip : BitVec 32)
    (port : BitVec 16) :
    tcpFind (tcpConnectStart net ip port).1 ip port net.nextLocalPort = some ⟨n, hn⟩ := by
  have hpaired := h.connect hn ip port
  apply find?_slot_eq_some_iff.mpr
  constructor
  · rw [h.connectStart_eq hn]
    dsimp only
    rw [setConn_self]
    exact ⟨by simp, rfl, rfl, rfl⟩
  · intro j hj hmatch
    have hlt : j.val < n := hj
    have hsmall : n < 16 := hn
    have hport := hpaired.localPort j (by omega)
    rw [hmatch.2.1, h.next] at hport
    have hnj : n = j.val := portOf_inj (by omega) (by omega) hport
    omega

/-- Paired tables agree. -/
theorem coherent (h : Paired base n net) : Coherent net where
  bound := by
    intro i hi
    have hlt := (h.opened i).mp hi
    rw [h.localPort i hlt]
    exact h.tcpBound_port hlt
  belongs := by
    intro j hj
    have hlt := (h.valid j).mp hj
    exact ⟨j, (h.opened j).mpr hlt, (h.localPort j hlt).trans (h.port j hlt).symm⟩
  connects := by
    intro ip port i hfree
    obtain ⟨hi, hn⟩ := h.tcpFree_lt hfree
    have hbound := (h.connect hn ip port).tcpBound_port (Nat.lt_succ_self n)
    rw [← h.next] at hbound
    have heq : i = ⟨n, hn⟩ := Fin.ext hi
    rw [heq]
    exact ⟨hbound, h.tcpFind_connect hn ip port⟩

/-- A segment that closes no connection. -/
theorem segment (h : Paired base n net) {srcIp : BitVec 32} {srcPort dstPort : BitVec 16}
    {seq ack : BitVec 32} {flags : BitVec 8}
    (hopen : ¬ Closes net (.segment srcIp srcPort dstPort seq ack flags)) :
    Paired base n (tcpSegmentStart net srcIp srcPort dstPort seq ack flags).1 ∧
      ∀ w ∈ (tcpSegmentStart net srcIp srcPort dstPort seq ack flags).2, w.Below n := by
  unfold tcpSegmentStart
  cases hfind : tcpFind net srcIp srcPort dstPort with
  | none =>
    dsimp only
    split
    · exact ⟨h, by simp [TcpRest.Below]⟩
    · exact ⟨h, by simp⟩
  | some i =>
    have hi : i.val < n := (h.opened i).mp (tcpFind_matches hfind).1
    dsimp only
    cases hstate : (net.connections i).state
    case synSent =>
      dsimp only
      split
      · exact ⟨h.setConn hi (by simp) rfl, by simp [TcpRest.Below]⟩
      · exact ⟨h, by simp⟩
    case established =>
      dsimp only
      split
      · exact ⟨h.setConn hi (by simp) rfl, by simp [TcpRest.Below, hi]⟩
      · exact ⟨h, by simp⟩
    case lastAck =>
      dsimp only
      unfold tcpLastAck
      by_cases hack : flags &&& tcpFlagAck ≠ 0
      · exact absurd ⟨i, hfind, hstate, hack⟩ hopen
      · rw [if_neg hack]
        exact ⟨h, by simp⟩
    all_goals exact ⟨h, by simp⟩

/-- The end of a wait. -/
theorem run (h : Paired base n net) {w : TcpRest} (hw : w.Below n) :
    Paired base n (w.run net).1 ∧ ∀ w' ∈ (w.run net).2, w'.Below n := by
  cases w with
  | done => exact ⟨h, by simp [TcpRest.run]⟩
  | countSyn i =>
    exact ⟨h.setConn hw ((h.opened i).mpr hw) rfl, by simp [TcpRest.run]⟩
  | sendFin i =>
    refine ⟨h, fun w' hw' => ?_⟩
    rw [List.mem_singleton.mp hw']
    exact hw
  | awaitAck i => exact ⟨h.setConn hw (by simp) rfl, by simp [TcpRest.run]⟩

end Paired

/-! ## §3. Runs. -/

/-- The tables are paired, and so is every call that waits. -/
def TcpSys.Inv (base : BitVec 16) (s : TcpSys) : Prop :=
  ∃ n, Paired base n s.net ∧ ∀ w ∈ s.waiting, w.Below n

theorem TcpRest.Below.mono {m n : Nat} {w : TcpRest} (h : w.Below m) (hle : m ≤ n) : w.Below n := by
  cases w with
  | done => trivial
  | countSyn i => exact Nat.lt_of_lt_of_le h hle
  | sendFin i => exact Nat.lt_of_lt_of_le h hle
  | awaitAck i => exact Nat.lt_of_lt_of_le h hle

theorem TcpSys.Fresh.inv {s : TcpSys} (h : s.Fresh) : s.Inv s.net.nextLocalPort := by
  refine ⟨0, ⟨Nat.zero_le _, fun i => ?_, fun j => ?_, fun i hi => ?_, fun j hj => ?_, ?_⟩, ?_⟩
  · exact iff_of_false (not_not_intro (h.closed i)) (Nat.not_lt_zero _)
  · exact iff_of_false (by rw [h.unbound j]; simp) (Nat.not_lt_zero _)
  · exact absurd hi (Nat.not_lt_zero _)
  · exact absurd hj (Nat.not_lt_zero _)
  · exact (BitVec.add_zero _).symm
  · rw [h.waiting]
    simp

/-- **Steps that close no connection** keep the pairing. -/
theorem TcpSys.Inv.step {base : BitVec 16} {s s' : TcpSys} {a : TcpAct} (h : s.Inv base)
    (hopen : ¬ Closes s.net a) (hstep : TcpStep s a s') : s'.Inv base := by
  obtain ⟨n, hpaired, hwaiting⟩ := h
  cases hstep with
  | connect _ ip port =>
    by_cases hn : n < maxConnections
    · have heq := hpaired.connectStart_eq hn ip port
      refine ⟨n + 1, hpaired.connect hn ip port, fun w hw => ?_⟩
      rw [heq] at hw
      rcases List.mem_append.mp hw with hw | hw
      · rw [List.mem_singleton.mp hw]
        exact Nat.lt_succ_self n
      · exact (hwaiting w hw).mono (Nat.le_succ n)
    · have hfree : tcpFree s.net = none := by
        apply find?_slot_eq_none_iff.mpr
        intro i hi
        exact hn (Nat.lt_of_le_of_lt ((hpaired.closed_iff i).mp hi) i.isLt)
      unfold tcpConnectStart
      rw [hfree]
      exact ⟨n, hpaired, hwaiting⟩
  | segment _ srcIp srcPort dstPort seq ack flags _ =>
    obtain ⟨hnext, hrest⟩ := hpaired.segment hopen
    refine ⟨n, hnext, fun w hw => ?_⟩
    rcases List.mem_append.mp hw with hw | hw
    · exact hrest w hw
    · exact hwaiting w hw
  | resume net w ws =>
    obtain ⟨hnext, hrest⟩ := hpaired.run (hwaiting w List.mem_cons_self)
    refine ⟨n, hnext, fun w' hw' => ?_⟩
    rcases List.mem_append.mp hw' with hw' | hw'
    · exact hrest w' hw'
    · exact hwaiting w' (List.mem_cons_of_mem _ hw')
  | other _ net hsame => exact ⟨n, hpaired.sameTcp hsame, hwaiting⟩

/-- A connection that is closed leaves a binding that belongs to none. -/
theorem Paired.not_coherent_of_closes {base : BitVec 16} {n : Nat} {s s' : TcpSys} {a : TcpAct}
    (h : Paired base n s.net) (hstep : TcpStep s a s') (hcloses : Closes s.net a) :
    ¬ Coherent s'.net := by
  intro hcoherent
  cases hstep with
  | connect => exact hcloses
  | resume => exact hcloses
  | other => exact hcloses
  | segment _ srcIp srcPort dstPort seq ack flags _ =>
    obtain ⟨i, hfind, hlast, hack⟩ := hcloses
    have hi : i.val < n := (h.opened i).mp (tcpFind_matches hfind).1
    have hsmall : n ≤ 16 := h.le
    have hclosed : (tcpSegmentStart s.net srcIp srcPort dstPort seq ack flags).1 =
        s.net.setConn i { s.net.connections i with state := .closed } := by
      unfold tcpSegmentStart
      rw [hfind]
      dsimp only
      rw [hlast]
      dsimp only
      unfold tcpLastAck
      rw [if_pos hack]
    dsimp only at hcoherent
    rw [hclosed] at hcoherent
    -- the binding of the closed connection
    obtain ⟨k, hk, hport⟩ := hcoherent.belongs i ((h.valid i).mpr hi)
    have hne : k ≠ i := by
      intro hki
      rw [hki, setConn_self] at hk
      exact hk rfl
    rw [setConn_of_ne s.net hne] at hk hport
    have hkn : k.val < n := (h.opened k).mp hk
    have hsame : portOf base k.val = portOf base i.val :=
      (h.localPort k hkn).symm.trans (hport.trans (h.port i hi))
    exact hne (Fin.ext (portOf_inj (by omega) (by omega) hsame))

/-- **Connections and bindings.**  From boot on, the two tables agree in every
    state of a run if and only if no segment of the run closes a connection. -/
theorem bindings_coherent_iff {s t : TcpSys} {tr : List (Transition TcpSys TcpAct)}
    (hrun : Run TcpStep s tr t) (hfresh : s.Fresh) :
    (Coherent s.net ∧ ∀ x ∈ tr, Coherent x.2.2.net) ↔ ∀ x ∈ tr, ¬ Closes x.1.net x.2.1 := by
  have hkeep : ∀ (u : TcpSys) a u', u.Inv s.net.nextLocalPort → ¬ Closes u.net a →
      TcpStep u a u' → u'.Inv s.net.nextLocalPort := fun u a u' hinv hopen hstep =>
    hinv.step hopen hstep
  have hgood : ∀ u : TcpSys, u.Inv s.net.nextLocalPort → Coherent u.net :=
    fun u ⟨_, hpaired, _⟩ => hpaired.coherent
  have hbreak : ∀ (u : TcpSys) a u', u.Inv s.net.nextLocalPort → TcpStep u a u' →
      ¬ ¬ Closes u.net a → ¬ Coherent u'.net := fun u a u' ⟨_, hpaired, _⟩ hstep hcloses =>
    hpaired.not_coherent_of_closes hstep (not_not.mp hcloses)
  have hiff := hrun.always_iff (P := fun u => Coherent u.net) (C := fun u a => ¬ Closes u.net a)
    hkeep hgood hbreak hfresh.inv
  exact ⟨fun h => hiff.mp h.2, fun h => ⟨hgood s hfresh.inv, hiff.mpr h⟩⟩

theorem bootNet_fresh : TcpSys.Fresh ⟨bootNet, []⟩ := ⟨fun _ => rfl, fun _ => rfl, rfl⟩

/-- `bindings_coherent_iff` for one connection that is opened and stays open. -/
theorem bindings_coherent_one :
    Coherent (TcpSys.next ⟨bootNet, []⟩ (.connect 0x0202000A 80)).net := by
  have henabled : TcpSys.AllEnabled ⟨bootNet, []⟩ [.connect 0x0202000A 80] := ⟨trivial, trivial⟩
  have hiff := bindings_coherent_iff (TcpSys.run_trace henabled) bootNet_fresh
  refine (hiff.mpr fun x hx => ?_).2 (_, _, _) List.mem_cons_self
  rw [List.mem_singleton.mp hx]
  exact id

/-- **A binding is never released**: after the connection of `wrongAcks` is
    closed, its binding is still there. -/
theorem closed_connection_stays_bound : ∃ tr t, Run TcpStep ⟨bootNet, []⟩ tr t ∧
    (∀ i, (t.net.connections i).state = .closed) ∧ (t.net.tcpBindings 0).valid = true ∧
    ¬ Coherent t.net := by
  have hclosed : ∀ i, ((wrongAcks.foldl TcpSys.next ⟨bootNet, []⟩).net.connections i).state =
      .closed := by decide
  have hvalid : ((wrongAcks.foldl TcpSys.next ⟨bootNet, []⟩).net.tcpBindings 0).valid = true := by
    decide
  refine ⟨_, _, TcpSys.run_trace wrongAcks_enabled, hclosed, hvalid, fun hcoherent => ?_⟩
  obtain ⟨i, hi, _⟩ := hcoherent.belongs 0 hvalid
  exact hi (hclosed i)

end ZohoOs
