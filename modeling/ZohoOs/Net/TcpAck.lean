/-
  ZohoOs.Net.TcpAck — what the stack acknowledges (tcp.c).

  A connection sends nothing for data: it answers the FIN of the remote side,
  with the sequence number of that segment plus one.  Neither the payload of the
  segment nor the bytes before it are looked at.

  `AckSys` puts next to each connection what its remote side has sent since the
  handshake; a segment is labelled with its place in that stream, of which its
  sequence number is the residue modulo 2^32.

  Main results:
    * `tcpSegmentStart_on` — what a segment does on its connection;
    * `AckInv.step` — what a step keeps;
    * `acks_accurate` — every acknowledgement counts what has arrived, where the
      FIN comes last and alone.
-/
import ZohoOs.Lib.Stream
import ZohoOs.Net.Tcp

namespace ZohoOs

open ZohoOs.Lib

/-! ## §1. Steps and what arrives. -/

/-- What the remote side of a connection has sent: its initial sequence number,
    and what has arrived of the stream that follows its SYN. -/
structure Peer where
  isn : BitVec 32
  received : Receiver

/-- The stack, and the remote side of each connection. -/
structure AckSys where
  sys : TcpSys
  peers : Fin maxConnections → Peer

/-- An action; a segment carries the `len` bytes from `pos` on in the stream of
    the remote side. -/
structure AckAct where
  act : TcpAct
  pos : Nat
  len : Nat

/-- The segment completes a handshake. -/
def SynAck (flags : BitVec 8) : Prop := flags &&& tcpFlagSyn ≠ 0 ∧ flags &&& tcpFlagAck ≠ 0

instance decidableSynAck (flags : BitVec 8) : Decidable (SynAck flags) :=
  inferInstanceAs (Decidable (_ ∧ _))

/-- The segment ends the stream of the remote side. -/
def HasFin (flags : BitVec 8) : Prop := flags &&& tcpFlagFin ≠ 0

instance decidableHasFin (flags : BitVec 8) : Decidable (HasFin flags) :=
  inferInstanceAs (Decidable (_ ≠ _))

/-- The remote side of connection `i` after a segment on it: a stream begins
    with the handshake, and goes on with what the segments after it carry. -/
def AckSys.arrive (s : AckSys) (a : AckAct) (i : Fin maxConnections) (seq : BitVec 32)
    (flags : BitVec 8) : Peer :=
  if (s.sys.net.connections i).state = .synSent then
    if SynAck flags then ⟨seq, .empty⟩ else s.peers i
  else { s.peers i with received := (s.peers i).received.receive ⟨a.pos, a.len, HasFin flags⟩ }

/-- The remote sides after an action. -/
def AckSys.track (s : AckSys) (a : AckAct) : Fin maxConnections → Peer :=
  match a.act with
  | .segment srcIp srcPort dstPort seq _ flags =>
    match tcpFind s.sys.net srcIp srcPort dstPort with
    | some i => Function.update s.peers i (s.arrive a i seq flags)
    | none => s.peers
  | _ => s.peers

/-- The sequence number of a segment is that of its place: behind the SYN, and
    behind the bytes before it. -/
def AckSys.Labels (s : AckSys) (a : AckAct) : Prop :=
  match a.act with
  | .segment srcIp srcPort dstPort seq _ _ =>
    ∀ i ∈ tcpFind s.sys.net srcIp srcPort dstPort,
      (s.sys.net.connections i).state ≠ .synSent →
        seq = (s.peers i).isn + 1 + BitVec.ofNat 32 a.pos
  | _ => True

def AckStep (s : AckSys) (a : AckAct) (s' : AckSys) : Prop :=
  TcpStep s.sys a.act s'.sys ∧ s'.peers = s.track a ∧ s.Labels a

/-- The connection that a step sends a segment on: the end of a handshake, the
    acknowledgement of a FIN, and our own FIN.  The segment acknowledges what the
    connection then has in `ack`. -/
def sendsOn (s : TcpSys) : TcpAct → Option (Fin maxConnections)
  | .segment srcIp srcPort dstPort _ _ flags =>
    (tcpFind s.net srcIp srcPort dstPort).filter fun i =>
      ((s.net.connections i).state = .synSent ∧ SynAck flags) ∨
        ((s.net.connections i).state = .established ∧ HasFin flags)
  | .resume =>
    match s.waiting with
    | .sendFin i :: _ => some i
    | _ => none
  | _ => none

/-- **The property**: a step acknowledges the SYN of the remote side, every byte
    that has arrived in order, and the end of the stream once it has; and so no
    byte that did not arrive. -/
def AckAccurate (s : AckSys) (a : AckAct) (s' : AckSys) : Prop :=
  ∀ i, sendsOn s.sys a.act = some i →
    (s'.sys.net.connections i).ack =
      (s'.peers i).isn + 1 + BitVec.ofNat 32 (s'.peers i).received.ackNo ∧
    ∀ p, p < inOrder (s'.peers i).received.segments → Arrived (s'.peers i).received.segments p

/-- **The condition**: a FIN that is answered carries no data, and everything
    before it has arrived. -/
def FinInOrder (s : AckSys) (a : AckAct) : Prop :=
  match a.act with
  | .segment srcIp srcPort dstPort _ _ flags =>
    ∀ i ∈ tcpFind s.sys.net srcIp srcPort dstPort,
      (s.sys.net.connections i).state = .established → HasFin flags →
        a.len = 0 ∧ a.pos = inOrder (s.peers i).received.segments
  | _ => True

/-! ## §2. Segments. -/

section

variable (net : Net) (srcIp : BitVec 32) (srcPort dstPort : BitVec 16) (seq ack : BitVec 32)
variable (flags : BitVec 8)

/-- What a segment does on a connection it belongs to: the new connection, and
    what waits then. -/
inductive SegmentOn (c : TcpConn) (i : Fin maxConnections) : TcpConn → List TcpRest → Prop
  | synAck (hstate : c.state = .synSent) (hflags : SynAck flags) :
      SegmentOn c i
        { c with state := .established, remoteSeq := seq + 1, ack := seq + 1, remoteAck := ack }
        [.done]
  | fin (hstate : c.state = .established) (hfin : HasFin flags) :
      SegmentOn c i { c with state := .closeWait, ack := seq + 1 } [.sendFin i]
  | lastAck (hstate : c.state = .lastAck) : SegmentOn c i { c with state := .closed } []
  | ignored (hsyn : ¬ (c.state = .synSent ∧ SynAck flags))
      (hfin : ¬ (c.state = .established ∧ HasFin flags)) : SegmentOn c i c []

/-- **What a segment does** on the connection it belongs to, until the first
    segment that answers it. -/
theorem tcpSegmentStart_on {i : Fin maxConnections}
    (hfind : tcpFind net srcIp srcPort dstPort = some i) :
    ∃ c, SegmentOn seq ack flags (net.connections i) i c
        (tcpSegmentStart net srcIp srcPort dstPort seq ack flags).2 ∧
      (tcpSegmentStart net srcIp srcPort dstPort seq ack flags).1.connections =
        Function.update net.connections i c := by
  -- an ignored segment leaves every connection
  have hignored : ∀ c : TcpConn, c = net.connections i →
      net.connections = Function.update net.connections i c := by
    intro c hc
    rw [hc, Function.update_eq_self]
  unfold tcpSegmentStart
  rw [hfind]
  dsimp only
  cases hstate : (net.connections i).state
  case synSent =>
    dsimp only
    by_cases hflags : flags &&& tcpFlagSyn ≠ 0 ∧ flags &&& tcpFlagAck ≠ 0
    · rw [if_pos hflags]
      exact ⟨_, .synAck hstate hflags, rfl⟩
    · rw [if_neg hflags]
      have hfin : ¬ ((net.connections i).state = .established ∧ HasFin flags) := by
        intro h
        cases hstate.symm.trans h.1
      exact ⟨_, .ignored (fun h => hflags h.2) hfin, hignored _ rfl⟩
  case established =>
    dsimp only
    by_cases hflags : flags &&& tcpFlagFin ≠ 0
    · rw [if_pos hflags]
      exact ⟨_, .fin hstate hflags, rfl⟩
    · rw [if_neg hflags]
      have hsyn : ¬ ((net.connections i).state = .synSent ∧ SynAck flags) := by
        intro h
        cases hstate.symm.trans h.1
      exact ⟨_, .ignored hsyn (fun h => hflags h.2), hignored _ rfl⟩
  -- the other states ignore a segment, but for the ACK that ends LAST_ACK
  all_goals
    have hsyn : ¬ ((net.connections i).state = .synSent ∧ SynAck flags) := by
      intro h
      cases hstate.symm.trans h.1
    have hfin : ¬ ((net.connections i).state = .established ∧ HasFin flags) := by
      intro h
      cases hstate.symm.trans h.1
  case lastAck =>
    dsimp only
    unfold tcpLastAck
    by_cases hack : flags &&& tcpFlagAck ≠ 0
    · rw [if_pos hack]
      exact ⟨_, .lastAck hstate, rfl⟩
    · rw [if_neg hack]
      exact ⟨_, .ignored hsyn hfin, hignored _ rfl⟩
  all_goals exact ⟨_, .ignored hsyn hfin, hignored _ rfl⟩

/-- A segment of no connection changes none. -/
theorem tcpSegmentStart_none (hfind : tcpFind net srcIp srcPort dstPort = none) :
    (tcpSegmentStart net srcIp srcPort dstPort seq ack flags).1.connections = net.connections ∧
      ((tcpSegmentStart net srcIp srcPort dstPort seq ack flags).2 = [] ∨
        (tcpSegmentStart net srcIp srcPort dstPort seq ack flags).2 = [.done]) := by
  unfold tcpSegmentStart
  rw [hfind]
  dsimp only
  by_cases hsyn : flags &&& tcpFlagSyn ≠ 0
  · rw [if_pos hsyn]
    exact ⟨rfl, .inr rfl⟩
  · rw [if_neg hsyn]
    exact ⟨rfl, .inl rfl⟩

end

/-! ## §3. The invariant. -/

/-- The call answers the FIN of the remote side on connection `i`. -/
def TcpRest.Closes (i : Fin maxConnections) : TcpRest → Bool
  | .sendFin j => i = j
  | .awaitAck j => i = j
  | _ => false

/-- How many waiting calls answer a FIN on connection `i`. -/
def closings (ws : List TcpRest) (i : Fin maxConnections) : Nat := ws.countP (TcpRest.Closes i)

/-- **The invariant of one connection**, with `n` calls that answer its FIN: no
    end of the stream has arrived while it is established, and a call that
    answers it finds the stream complete and `ack` right. -/
structure ConnInv (c : TcpConn) (n : Nat) (p : Peer) : Prop where
  running : c.state = .established → p.received.Running
  once : n ≤ 1
  closing : n ≠ 0 → c.state = .closeWait ∧ p.received.finished = true ∧
    c.ack = p.isn + 1 + BitVec.ofNat 32 p.received.ackNo

def AckInv (s : AckSys) : Prop :=
  ∀ i, ConnInv (s.sys.net.connections i) (closings s.sys.waiting i) (s.peers i)

/-- Only a connection that waits to be closed has calls that answer a FIN. -/
theorem ConnInv.none {c : TcpConn} {n : Nat} {p : Peer} (h : ConnInv c n p)
    (hstate : c.state ≠ .closeWait) : n = 0 := by
  by_contra hn
  exact hstate (h.closing hn).1

/-- A connection that is not established and has no such calls. -/
theorem connInv_idle {c : TcpConn} {p : Peer} (hstate : c.state ≠ .established) : ConnInv c 0 p :=
  ⟨fun h => absurd h hstate, Nat.zero_le _, fun h => absurd rfl h⟩

/-- The end of the stream with nothing before it missing. -/
theorem Peer.ack_end {p : Peer} {pos len : Nat} (h : p.received.Running) (hlen : len = 0)
    (hpos : pos = inOrder p.received.segments) :
    (p.received.receive ⟨pos, len, true⟩).finished = true ∧
      p.isn + 1 + BitVec.ofNat 32 pos + 1 =
        p.isn + 1 + BitVec.ofNat 32 (p.received.receive ⟨pos, len, true⟩).ackNo := by
  obtain ⟨hfinished, hack⟩ := Receiver.receive_end (d := ⟨pos, len, true⟩) h rfl hlen hpos
  rw [hack, BitVec.ofNat_add]
  exact ⟨hfinished, BitVec.add_assoc ..⟩

/-- What a segment carries, where it is neither a SYN+ACK of a handshake nor a
    FIN on an established connection. -/
theorem ConnInv.receive {c : TcpConn} {n : Nat} {p : Peer} (h : ConnInv c n p) (d : Segment)
    (hfin : c.state = .established → d.fin = false) :
    ConnInv c n { p with received := p.received.receive d } := by
  refine ⟨fun hstate => (h.running hstate).receive (hfin hstate), h.once, fun hn => ?_⟩
  obtain ⟨hstate, hfinished, hack⟩ := h.closing hn
  dsimp only
  rw [Receiver.receive_finished hfinished]
  exact ⟨hstate, hfinished, hack⟩

/-! ## §4. Steps. -/

section

variable {s : AckSys} {a : AckAct}

/-- **A segment on its connection** keeps the invariant. -/
theorem SegmentOn.inv {i : Fin maxConnections} {seq ack : BitVec 32} {flags : BitVec 8}
    {c : TcpConn} {ws : List TcpRest}
    (hinv : ConnInv (s.sys.net.connections i) (closings s.sys.waiting i) (s.peers i))
    (hlabel : (s.sys.net.connections i).state ≠ .synSent →
      seq = (s.peers i).isn + 1 + BitVec.ofNat 32 a.pos)
    (horder : (s.sys.net.connections i).state = .established → HasFin flags →
      a.len = 0 ∧ a.pos = inOrder (s.peers i).received.segments)
    (hon : SegmentOn seq ack flags (s.sys.net.connections i) i c ws) :
    ConnInv c (closings (ws ++ s.sys.waiting) i) (s.arrive a i seq flags) := by
  unfold AckSys.arrive
  cases hon with
  | synAck hstate hflags =>
    rw [if_pos hstate, if_pos hflags]
    have hnone : closings s.sys.waiting i = 0 := hinv.none (by rw [hstate]; decide)
    show ConnInv _ (closings s.sys.waiting i) _
    rw [hnone]
    exact ⟨fun _ => Receiver.running_empty, Nat.zero_le _, fun h => absurd rfl h⟩
  | fin hstate hfin =>
    have hnot : ¬ (s.sys.net.connections i).state = .synSent := by
      rw [hstate]
      decide
    have hnone : closings s.sys.waiting i = 0 := hinv.none (by rw [hstate]; decide)
    have hone : closings (.sendFin i :: s.sys.waiting) i = 1 := by
      unfold closings at hnone ⊢
      rw [List.countP_cons_of_pos (by exact decide_eq_true rfl), hnone]
    rw [if_neg hnot]
    show ConnInv _ (closings (.sendFin i :: s.sys.waiting) i) _
    obtain ⟨hlen, hpos⟩ := horder hstate hfin
    obtain ⟨hfinished, hack⟩ := (s.peers i).ack_end (hinv.running hstate) hlen hpos
    rw [hone, hlabel hnot, show decide (HasFin flags) = true from decide_eq_true hfin]
    exact ⟨nofun, Nat.le_refl _, fun _ => ⟨rfl, hfinished, hack⟩⟩
  | lastAck hstate =>
    have hnone : closings s.sys.waiting i = 0 := hinv.none (by rw [hstate]; decide)
    show ConnInv _ (closings s.sys.waiting i) _
    rw [hnone]
    exact connInv_idle nofun
  | ignored hsyn hfin =>
    show ConnInv _ (closings s.sys.waiting i) _
    by_cases hstate : (s.sys.net.connections i).state = .synSent
    · rw [if_pos hstate, if_neg fun h => hsyn ⟨hstate, h⟩]
      exact hinv
    · rw [if_neg hstate]
      exact hinv.receive _ fun h => decide_eq_false fun hflag => hfin ⟨h, hflag⟩

/-- The end of a handshake acknowledges the SYN. -/
theorem SegmentOn.ack_of_synSent {i : Fin maxConnections} {seq ack : BitVec 32} {flags : BitVec 8}
    {c c' : TcpConn} {ws : List TcpRest} (hon : SegmentOn seq ack flags c i c' ws)
    (h : c.state = .synSent ∧ SynAck flags) : c'.ack = seq + 1 := by
  cases hon with
  | synAck => rfl
  | fin hstate => cases h.1.symm.trans hstate
  | lastAck hstate => cases h.1.symm.trans hstate
  | ignored hsyn => exact absurd h hsyn

/-- A FIN on an established connection is answered. -/
theorem SegmentOn.waits_of_fin {i : Fin maxConnections} {seq ack : BitVec 32} {flags : BitVec 8}
    {c c' : TcpConn} {ws : List TcpRest} (hon : SegmentOn seq ack flags c i c' ws)
    (h : c.state = .established ∧ HasFin flags) : ws = [.sendFin i] := by
  cases hon with
  | fin => rfl
  | synAck hstate => cases h.1.symm.trans hstate
  | lastAck hstate => cases h.1.symm.trans hstate
  | ignored _ hfin => exact absurd h hfin

/-- A segment on another connection leaves this one alone. -/
theorem SegmentOn.closings_of_ne {i j : Fin maxConnections} (hij : j ≠ i) {seq ack : BitVec 32}
    {flags : BitVec 8} {c c' : TcpConn} {ws : List TcpRest}
    (hon : SegmentOn seq ack flags c i c' ws) (waiting : List TcpRest) :
    closings (ws ++ waiting) j = closings waiting j := by
  have hfin : ¬ TcpRest.Closes j (.sendFin i) = true := fun h => hij (of_decide_eq_true h)
  cases hon with
  | fin => exact List.countP_cons_of_neg hfin
  | synAck => rfl
  | lastAck => rfl
  | ignored => rfl

/-- The end of a wait keeps the invariant. -/
theorem ConnInv.resume {net : Net} {w : TcpRest} {ws : List TcpRest} {i : Fin maxConnections}
    {p : Peer} (h : ConnInv (net.connections i) (closings (w :: ws) i) p) :
    ConnInv ((w.run net).1.connections i) (closings ((w.run net).2 ++ ws) i) p := by
  cases w with
  | done => exact h
  | sendFin j => exact h
  | countSyn j =>
    show ConnInv ((net.setConn j _).connections i) (closings ws i) p
    by_cases hij : i = j
    · subst hij
      rw [setConn_self]
      exact ⟨h.running, h.once, h.closing⟩
    · rw [setConn_of_ne net hij]
      exact h
  | awaitAck j =>
    show ConnInv ((net.setConn j _).connections i) (closings ws i) p
    by_cases hij : i = j
    · subst hij
      have hcount : closings (.awaitAck i :: ws) i = closings ws i + 1 :=
        List.countP_cons_of_pos (decide_eq_true rfl)
      have hnone : closings ws i = 0 := by
        have honce := h.once
        omega
      rw [setConn_self, hnone]
      exact connInv_idle nofun
    · have hcount : closings (.awaitAck j :: ws) i = closings ws i :=
        List.countP_cons_of_neg fun h => hij (of_decide_eq_true h)
      rw [hcount] at h
      rw [setConn_of_ne net hij]
      exact h

/-- **A step keeps the invariant**, where the FIN comes last and alone. -/
theorem AckInv.step {s' : AckSys} (h : AckInv s) (hcond : FinInOrder s a) (hstep : AckStep s a s') :
    AckInv s' := by
  obtain ⟨sys, peers⟩ := s
  obtain ⟨sys', peers'⟩ := s'
  obtain ⟨act, pos, len⟩ := a
  obtain ⟨htcp, hpeers, hlabels⟩ := hstep
  dsimp only at htcp hpeers
  subst hpeers
  intro i
  have hi : ConnInv (sys.net.connections i) (closings sys.waiting i) (peers i) := h i
  cases htcp with
  | connect _ ip port =>
    show ConnInv ((tcpConnectStart sys.net ip port).1.connections i) _ (peers i)
    -- connecting sends no FIN, and takes a slot that was closed
    have hcount : closings ((tcpConnectStart sys.net ip port).2 ++ sys.waiting) i =
        closings sys.waiting i := by
      unfold tcpConnectStart
      cases tcpFree sys.net <;> rfl
    dsimp only
    rw [hcount]
    obtain hsame | ⟨hclosed, hsyn⟩ := tcpConnectStart_connections sys.net ip port i
    · rw [hsame]
      exact hi
    · rw [hi.none (by rw [hclosed]; decide)]
      exact connInv_idle (by rw [hsyn]; decide)
  | segment _ srcIp srcPort dstPort seq ack flags _ =>
    -- a segment: the connection it is for, if there is one, and no other
    cases hfind : tcpFind sys.net srcIp srcPort dstPort with
    | none =>
      obtain ⟨hconn, hws⟩ := tcpSegmentStart_none sys.net srcIp srcPort dstPort seq ack flags hfind
      have hcount : closings ((tcpSegmentStart sys.net srcIp srcPort dstPort seq ack flags).2 ++
          sys.waiting) i = closings sys.waiting i := by
        rcases hws with hws | hws <;> rw [hws] <;> rfl
      unfold AckSys.track
      dsimp only
      rw [hfind, hconn, hcount]
      exact hi
    | some j =>
      obtain ⟨c, hon, hconn⟩ := tcpSegmentStart_on sys.net srcIp srcPort dstPort seq ack flags hfind
      unfold AckSys.track
      dsimp only
      rw [hfind, hconn]
      dsimp only
      by_cases hij : i = j
      · subst hij
        rw [Function.update_self, Function.update_self]
        exact hon.inv (s := ⟨sys, peers⟩) hi (hlabels i hfind) (hcond i hfind)
      · rw [Function.update_of_ne hij, Function.update_of_ne hij, hon.closings_of_ne hij]
        exact hi
  | resume net w ws => exact hi.resume
  | other _ net hsame =>
    show ConnInv (net.connections i) _ (peers i)
    rw [hsame.connections]
    exact hi

/-- **A step acknowledges what has arrived.** -/
theorem AckInv.accurate {s' : AckSys} (h : AckInv s) (hcond : FinInOrder s a)
    (hstep : AckStep s a s') : AckAccurate s a s' := by
  have hinv := h.step hcond hstep
  obtain ⟨sys, peers⟩ := s
  obtain ⟨sys', peers'⟩ := s'
  obtain ⟨act, pos, len⟩ := a
  obtain ⟨htcp, hpeers, _⟩ := hstep
  dsimp only at htcp hpeers
  subst hpeers
  intro i hsends
  refine ⟨?_, fun p hp => arrived_of_lt_inOrder hp⟩
  -- a call that answers a FIN waits after the step
  have hclosing : closings sys'.waiting i ≠ 0 →
      (sys'.net.connections i).ack = (AckSys.track ⟨sys, peers⟩ ⟨act, pos, len⟩ i).isn + 1 +
        BitVec.ofNat 32 (AckSys.track ⟨sys, peers⟩ ⟨act, pos, len⟩ i).received.ackNo :=
    fun hn => ((hinv i).closing hn).2.2
  cases htcp with
  | connect _ ip port => cases hsends
  | other _ net hsame => cases hsends
  | resume net w ws =>
    cases w with
    | sendFin j =>
      cases hsends
      refine hclosing ?_
      show closings (.awaitAck i :: ws) i ≠ 0
      unfold closings
      rw [List.countP_cons_of_pos (by exact decide_eq_true rfl)]
      exact Nat.succ_ne_zero _
    | done => cases hsends
    | countSyn j => cases hsends
    | awaitAck j => cases hsends
  | segment _ srcIp srcPort dstPort seq ack flags _ =>
    obtain ⟨hfind, hsent⟩ := Option.filter_eq_some_iff.mp hsends
    obtain ⟨c, hon, hconn⟩ := tcpSegmentStart_on sys.net srcIp srcPort dstPort seq ack flags hfind
    have hpeer : AckSys.track ⟨sys, peers⟩
        ⟨.segment srcIp srcPort dstPort seq ack flags, pos, len⟩ i =
          AckSys.arrive ⟨sys, peers⟩ ⟨.segment srcIp srcPort dstPort seq ack flags, pos, len⟩ i
            seq flags := by
      unfold AckSys.track
      dsimp only
      rw [hfind]
      exact Function.update_self ..
    obtain hsyn | hfin := of_decide_eq_true hsent
    · -- the end of the handshake, before anything has arrived
      dsimp only
      rw [hconn, hpeer, Function.update_self, hon.ack_of_synSent hsyn]
      unfold AckSys.arrive
      rw [if_pos hsyn.1, if_pos hsyn.2]
      show seq + 1 = seq + 1 + BitVec.ofNat 32 Receiver.empty.ackNo
      rw [Receiver.ackNo_empty]
      exact (BitVec.add_zero _).symm
    · refine hclosing ?_
      dsimp only
      rw [hon.waits_of_fin hfin]
      show closings (.sendFin i :: sys.waiting) i ≠ 0
      unfold closings
      rw [List.countP_cons_of_pos (by exact decide_eq_true rfl)]
      exact Nat.succ_ne_zero _

end

/-! ## §5. Runs. -/

/-- The state after an action. -/
def AckSys.next (s : AckSys) (a : AckAct) : AckSys := ⟨s.sys.next a.act, s.track a⟩

/-- The transitions of a list of actions. -/
def AckSys.trace (s : AckSys) : List AckAct → List (Transition AckSys AckAct)
  | [] => []
  | a :: as => (s, a, s.next a) :: (s.next a).trace as

instance decidableLabels (s : AckSys) : (a : AckAct) → Decidable (s.Labels a)
  | ⟨.segment _ _ _ _ _ _, _, _⟩ => inferInstanceAs (Decidable (∀ i ∈ tcpFind _ _ _ _, _))
  | ⟨.connect _ _, _, _⟩ => instDecidableTrue
  | ⟨.resume, _, _⟩ => instDecidableTrue
  | ⟨.other, _, _⟩ => instDecidableTrue

/-- Each action can happen when its turn comes, and is labelled right. -/
def AckSys.AllEnabled (s : AckSys) : List AckAct → Prop
  | [] => True
  | a :: as => (s.sys.Enabled a.act ∧ s.Labels a) ∧ (s.next a).AllEnabled as

instance decidableAckEnabled : (s : AckSys) → (acts : List AckAct) → Decidable (s.AllEnabled acts)
  | _, [] => instDecidableTrue
  | s, a :: as => @instDecidableAnd _ _ instDecidableAnd (decidableAckEnabled (s.next a) as)

theorem AckSys.run_trace {s : AckSys} {acts : List AckAct} (h : s.AllEnabled acts) :
    Run AckStep s (s.trace acts) (acts.foldl AckSys.next s) := by
  induction acts generalizing s with
  | nil => exact .nil s
  | cons a as ih =>
    have hstep : AckStep s a (s.next a) := ⟨h.1.1.step, rfl, h.1.2⟩
    exact ((Run.nil s).snoc hstep).append (ih h.2)

/-- **The acknowledgements are accurate** in every run, of any number of
    connections and with any segments, whose FINs come last and alone. -/
theorem acks_accurate {s t : AckSys} {tr : List (Transition AckSys AckAct)}
    (hclosed : ∀ i, (s.sys.net.connections i).state = .closed) (hwaiting : s.sys.waiting = [])
    (hrun : Run AckStep s tr t) (hfin : ∀ x ∈ tr, FinInOrder x.1 x.2.1) :
    ∀ x ∈ tr, AckAccurate x.1 x.2.1 x.2.2 := by
  have hstart : AckInv s := by
    intro i
    rw [hwaiting]
    exact connInv_idle (by rw [hclosed i]; decide)
  intro x hx
  obtain ⟨hinv, hstep⟩ := hrun.step_of_mem (fun _ _ _ h hc hst => h.step hc hst) hfin hstart x hx
  exact hinv.accurate (hfin x hx) hstep

/-- A connection whose remote side, with the initial sequence number 1, sends a
    FIN at a place of its stream, before any data. -/
def finAt (seq : BitVec 32) (pos : Nat) : List AckAct :=
  [⟨.connect 0x0202000A 80, 0, 0⟩, ⟨.resume, 0, 0⟩,
    ⟨.segment 0x0202000A 80 49152 1 0 (tcpFlagSyn ||| tcpFlagAck), 0, 0⟩, ⟨.resume, 0, 0⟩,
    ⟨.segment 0x0202000A 80 49152 seq 0 (tcpFlagFin ||| tcpFlagAck), pos, 0⟩, ⟨.resume, 0, 0⟩]

def bootAckSys : AckSys := ⟨⟨bootNet, []⟩, fun _ => ⟨0, .empty⟩⟩

theorem finAt_enabled : bootAckSys.AllEnabled (finAt 2 0) := by decide

theorem skipped_enabled : bootAckSys.AllEnabled (finAt 7 5) := by decide

/-- The step that acknowledges the FIN. -/
theorem finAt_fifth : 4 < (bootAckSys.trace (finAt 2 0)).length := (by decide : 4 < 6)

theorem finAt_inOrder : ∀ x ∈ bootAckSys.trace (finAt 2 0), FinInOrder x.1 x.2.1 := by
  refine List.forall_mem_cons.mpr ⟨trivial, List.forall_mem_cons.mpr ⟨trivial, ?_⟩⟩
  refine List.forall_mem_cons.mpr ⟨?_, List.forall_mem_cons.mpr ⟨trivial, ?_⟩⟩
  · -- the SYN+ACK has no FIN
    intro i _ _ hfin
    exact absurd hfin (by decide)
  · refine List.forall_mem_cons.mpr ⟨?_, List.forall_mem_cons.mpr ⟨trivial, List.forall_mem_nil _⟩⟩
    intro i hfind _ _
    have hzero : some (0 : Fin maxConnections) = some i := hfind
    cases hzero
    exact ⟨rfl, inOrder_nil.symm⟩

/-- `acks_accurate` on a FIN that comes first. -/
theorem acks_accurate_finAt :
    ∃ x ∈ bootAckSys.trace (finAt 2 0), (x.1.sys.net.connections 0).state = .established ∧
      sendsOn x.1.sys x.2.1.act = some 0 ∧ AckAccurate x.1 x.2.1 x.2.2 := by
  refine ⟨_, List.getElem_mem finAt_fifth, by decide, by decide, ?_⟩
  exact acks_accurate (fun _ => rfl) rfl (AckSys.run_trace finAt_enabled) finAt_inOrder _
    (List.getElem_mem finAt_fifth)

/-- The end of a stream whose first bytes are missing acknowledges nothing. -/
theorem ackNo_skipped : (Receiver.empty.receive ⟨5, 0, true⟩).ackNo = 0 := by
  have hcount : inOrder [⟨5, 0, true⟩] = 0 := (inOrder_cons_empty rfl).trans inOrder_nil
  have hmissing : ¬ Receiver.Complete [⟨5, 0, true⟩] := by
    intro h
    obtain ⟨d, hd, _, hle⟩ := h
    cases List.mem_singleton.mp hd
    rw [hcount] at hle
    exact absurd hle (by decide)
  show inOrder [⟨5, 0, true⟩] + (if decide (Receiver.Complete [⟨5, 0, true⟩]) = true then 1 else 0) = 0
  rw [hcount, if_neg fun h => hmissing (of_decide_eq_true h)]

/-- The step that acknowledges the FIN. -/
theorem skipped_fifth : 4 < (bootAckSys.trace (finAt 7 5)).length := (by decide : 4 < 6)

/-- **A FIN that skips data is acknowledged as if nothing were missing**: five
    bytes did not arrive, and the stack acknowledges them, and the end. -/
theorem skipped_bytes_acknowledged : ∃ tr t, Run AckStep bootAckSys tr t ∧
    (∀ i, (bootAckSys.sys.net.connections i).state = .closed) ∧ bootAckSys.sys.waiting = [] ∧
    ¬ ∀ x ∈ tr, AckAccurate x.1 x.2.1 x.2.2 := by
  refine ⟨_, _, AckSys.run_trace skipped_enabled, fun _ => rfl, rfl, fun haccurate => ?_⟩
  have hwrong := (haccurate _ (List.getElem_mem skipped_fifth) 0 (by decide)).1
  have hack : (8 : BitVec 32) =
      1 + 1 + BitVec.ofNat 32 (Receiver.empty.receive ⟨5, 0, true⟩).ackNo := hwrong
  rw [ackNo_skipped] at hack
  exact absurd hack (by decide)

end ZohoOs
