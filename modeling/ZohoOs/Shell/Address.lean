/-
  ZohoOs.Shell.Address — the addresses of `tcp` and `ping` (shell.c).

  Two scanners read an address off the command line.  They add up digits in
  eight bits, count the dots, and skip what they do not know; nothing checks
  that there is a digit between two dots, or that a number fits.

  Main results:
    * `scanQuad_part`, `scanQuad_quad` — what the scanners make of a text;
    * `address_parsing_iff` — a text is answered as it should be exactly when
      it is an address, or the dots or the port give it away.
-/
import Mathlib.Data.List.TakeWhile
import ZohoOs.Lib.Bytes

namespace ZohoOs

open ZohoOs.Lib

/-! ## §1. The two commands. -/

def isDigit (c : BitVec 8) : Bool := 0x30 ≤ c && c ≤ 0x39
def dot : BitVec 8 := 0x2E
def blank : BitVec 8 := 0x20

/-- What the first loop of the two commands leaves. -/
structure QuadScan where
  ip : List (BitVec 8)
  part : Nat
  p : Text

/-- `while (*p && part < 4)`; only `tcp` stops behind a blank. -/
def scanQuad (stopAtBlank : Bool) : Text → List (BitVec 8) → Nat → QuadScan
  | [], ip, part => ⟨ip, part, []⟩
  | c :: p, ip, part =>
    if part < 4 then
      if isDigit c then
        scanQuad stopAtBlank p
          (ip.set part (BitVec.ofNat 8 ((ip.getD part 0).toNat * 10 + (c.toNat - 0x30)))) part
      else if c = dot then scanQuad stopAtBlank p ip (part + 1)
      else if stopAtBlank = true ∧ c = blank then ⟨ip, part, p⟩
      else scanQuad stopAtBlank p ip part
    else ⟨ip, part, c :: p⟩

/-- `while (*p && *p >= '0' && *p <= '9')`. -/
def scanPort : Text → BitVec 16 → BitVec 16
  | [], port => port
  | c :: p, port =>
    if isDigit c then scanPort p (BitVec.ofNat 16 (port.toNat * 10 + (c.toNat - 0x30))) else port

/-- What a command line comes to: a call, a message, or another command. -/
inductive ShellAction
  | tcpConnect (ip : List (BitVec 8)) (port : BitVec 16)
  | netPing (ip : List (BitVec 8))
  | print (message : String)
  | other

def tcpUsage : String := "Usage: tcp <ip> <port>\n"
def pingError : String := "Invalid IP address.\n"

/-- The branch of `tcp`. -/
def tcpCommand (rest : Text) : ShellAction :=
  let r := scanQuad true rest [0, 0, 0, 0] 0
  let port := scanPort r.p 0
  if r.part = 3 ∧ 0 < port then .tcpConnect r.ip port else .print tcpUsage

/-- The branch of `ping`. -/
def pingCommand (ipStr : Text) : ShellAction :=
  let r := scanQuad false ipStr [0, 0, 0, 0] 0
  if r.part = 3 then .netPing r.ip else .print pingError

/-- The commands that are looked for before `tcp`. -/
def earlierCommands : List Text :=
  [text ['h', 'e', 'l', 'p'], text ['d', 'a', 's', 'h', 'b', 'o', 'a', 'r', 'd'],
    text ['m', 'o', 'n', 'i', 't', 'o', 'r'], text ['t', 'o', 'p'], text ['f', 'o', 'r', 'k']]

def tcpName : Text := text ['t', 'c', 'p', ' ']
def udpName : Text := text ['u', 'd', 'p', ' ']
def pingName : Text := text ['p', 'i', 'n', 'g', ' ']

/-- `shell_execute`, as far as these two commands. -/
def shellExecute (cmd : Text) : ShellAction :=
  if cmd ∈ earlierCommands then .other
  else if tcpName.isPrefixOf cmd then tcpCommand (cmd.drop 4)
  else if udpName.isPrefixOf cmd then .other
  else if pingName.isPrefixOf cmd then pingCommand (cmd.drop 5)
  else .other

/-! ## §2. Addresses. -/

/-- The value of a row of digits. -/
def decimalFrom (n : Nat) (ds : Text) : Nat := ds.foldl (fun v c => v * 10 + (c.toNat - 0x30)) n

/-- `ds` is a decimal number with the value `v`. -/
structure IsNumber (ds : Text) (v : Nat) : Prop where
  nonempty : ds ≠ []
  digits : ∀ c ∈ ds, isDigit c = true
  value : decimalFrom 0 ds = v

/-- **A dotted quad**: four numbers, each of one byte. -/
def IsQuad (t : Text) (ip : List (BitVec 8)) : Prop :=
  ∃ (a b c d : Text) (va vb vc vd : BitVec 8), t = a ++ dot :: (b ++ dot :: (c ++ dot :: d)) ∧
    ip = [va, vb, vc, vd] ∧ IsNumber a va.toNat ∧ IsNumber b vb.toNat ∧ IsNumber c vc.toNat ∧
      IsNumber d vd.toNat

/-- **A quad, one blank, and a port.** -/
def IsQuadPort (t : Text) (ip : List (BitVec 8)) (port : BitVec 16) : Prop :=
  ∃ q ds : Text, t = q ++ blank :: ds ∧ IsQuad q ip ∧ IsNumber ds port.toNat ∧ 0 < port.toNat

/-- **The command line is answered**: the call is made exactly for an address,
    and with that address; for any other text the message is printed. -/
def Answered {α : Type} (action : ShellAction) (call : α → ShellAction) (address : α → Prop)
    (message : String) : Prop :=
  (∀ a, action = call a ↔ address a) ∧ ((∀ a, ¬ address a) → action = .print message)

/-- `tcp` and `ping` with the text `t` behind them. -/
def TcpAnswered (t : Text) : Prop :=
  Answered (shellExecute (tcpName ++ t)) (fun a : List (BitVec 8) × BitVec 16 => .tcpConnect a.1 a.2)
    (fun a => IsQuadPort t a.1 a.2) tcpUsage

def PingAnswered (t : Text) : Prop :=
  Answered (shellExecute (pingName ++ t)) .netPing (IsQuad t) pingError

/-- What stands before the first blank, and the digits behind it. -/
def beforeBlank (t : Text) : Text := t.takeWhile (· ≠ blank)
def portDigits (t : Text) : Text := (t.dropWhile (· ≠ blank)).tail.takeWhile isDigit

/-! ## §3. The scanners. -/

theorem not_isDigit_dot : ¬ isDigit dot = true := by decide
theorem not_isDigit_blank : ¬ isDigit blank = true := by decide

theorem blank_ne_dot : blank ≠ dot := by decide

/-- The characters that the loop goes over while there are not too many dots. -/
def scanned (stop : Bool) (t : Text) : Text := if stop then beforeBlank t else t

theorem scanned_cons (stop : Bool) (c : BitVec 8) (t : Text) :
    scanned stop (c :: t) = if stop = true ∧ c = blank then [] else c :: scanned stop t := by
  cases stop
  · have hnot : ¬ (false = true ∧ c = blank) := fun h => Bool.false_ne_true h.1
    rw [if_neg hnot]
    rfl
  · show beforeBlank (c :: t) = if true = true ∧ c = blank then [] else c :: beforeBlank t
    unfold beforeBlank
    by_cases hc : c = blank
    · have hyes : true = true ∧ c = blank := ⟨rfl, hc⟩
      rw [if_pos hyes, List.takeWhile_cons_of_neg (by simpa using hc)]
    · have hnot : ¬ (true = true ∧ c = blank) := fun h => hc h.2
      rw [if_neg hnot, List.takeWhile_cons_of_pos (by simpa using hc)]

/-- **The dots are counted**, up to four of them. -/
theorem scanQuad_part (stop : Bool) (t : Text) (ip : List (BitVec 8)) {part : Nat} (hpart : part ≤ 4) :
    (scanQuad stop t ip part).part = min 4 (part + (scanned stop t).count dot) := by
  induction t generalizing ip part with
  | nil =>
    have hempty : scanned stop [] = [] := by cases stop <;> rfl
    rw [hempty, List.count_nil]
    show part = _
    omega
  | cons c p ih =>
    unfold scanQuad
    rw [scanned_cons]
    by_cases hlt : part < 4
    · rw [if_pos hlt]
      by_cases hdigit : isDigit c = true
      · have hdot : c ≠ dot := fun h => not_isDigit_dot (h ▸ hdigit)
        have hblank : ¬ (stop = true ∧ c = blank) := fun h => not_isDigit_blank (h.2 ▸ hdigit)
        -- a digit moves neither count
        rw [if_pos hdigit, if_neg hblank, ih _ hpart, List.count_cons_of_ne hdot]
      · rw [if_neg hdigit]
        by_cases hdot : c = dot
        · have hblank : ¬ (stop = true ∧ c = blank) := fun h => blank_ne_dot (h.2.symm.trans hdot)
          rw [if_pos hdot, if_neg hblank, ih _ (show part + 1 ≤ 4 by omega), hdot, List.count_cons_self]
          omega
        · rw [if_neg hdot]
          by_cases hblank : stop = true ∧ c = blank
          · rw [if_pos hblank, if_pos hblank, List.count_nil]
            show part = _
            omega
          · rw [if_neg hblank, if_neg hblank, ih _ hpart, List.count_cons_of_ne hdot]
    · -- the loop has ended, with all four parts
      rw [if_neg hlt]
      show part = _
      omega

/-- Up to three dots, the loop ends at the first blank. -/
theorem scanQuad_rest (t : Text) (ip : List (BitVec 8)) {part : Nat} (hpart : part ≤ 3)
    (hend : (scanQuad true t ip part).part ≤ 3) :
    (scanQuad true t ip part).p = (t.dropWhile (· ≠ blank)).tail := by
  induction t generalizing ip part with
  | nil => rfl
  | cons c p ih =>
    unfold scanQuad at hend ⊢
    rw [if_pos (show part < 4 by omega)] at hend ⊢
    by_cases hdigit : isDigit c = true
    · have hblank : c ≠ blank := fun h => not_isDigit_blank (h ▸ hdigit)
      rw [if_pos hdigit] at hend ⊢
      rw [ih _ hpart hend, List.dropWhile_cons_of_pos (by simpa using hblank)]
    · rw [if_neg hdigit] at hend ⊢
      by_cases hdot : c = dot
      · have hblank : c ≠ blank := fun h => blank_ne_dot (h.symm.trans hdot)
        rw [if_pos hdot] at hend ⊢
        -- a fourth dot would have been counted
        have hnext : part + 1 ≤ 3 := by
          have hcount := scanQuad_part true p ip (show part + 1 ≤ 4 by omega)
          omega
        rw [ih _ hnext hend, List.dropWhile_cons_of_pos (by simpa using hblank)]
      · rw [if_neg hdot] at hend ⊢
        by_cases hblank : c = blank
        · rw [if_pos ⟨rfl, hblank⟩, List.dropWhile_cons_of_neg (by simpa using hblank)]
          rfl
        · rw [if_neg fun h => hblank h.2] at hend ⊢
          rw [ih _ hpart hend, List.dropWhile_cons_of_pos (by simpa using hblank)]

/-- Digits are added up in `w` bits. -/
theorem ofNat_digit (w n d : Nat) :
    BitVec.ofNat w ((BitVec.ofNat w n).toNat * 10 + d) = BitVec.ofNat w (n * 10 + d) := by
  apply BitVec.eq_of_toNat_eq
  rw [BitVec.toNat_ofNat, BitVec.toNat_ofNat, BitVec.toNat_ofNat, Nat.add_mod, Nat.mod_mul_mod,
    ← Nat.add_mod]

section OneCharacter

variable (stop : Bool) {c : BitVec 8} {p : Text} {ip : List (BitVec 8)} {part : Nat}

theorem scanQuad_cons_digit (hpart : part < 4) (hc : isDigit c = true) :
    scanQuad stop (c :: p) ip part =
      scanQuad stop p
        (ip.set part (BitVec.ofNat 8 ((ip.getD part 0).toNat * 10 + (c.toNat - 0x30)))) part :=
  (if_pos hpart).trans (if_pos hc)

theorem scanQuad_cons_dot (hpart : part < 4) :
    scanQuad stop (dot :: p) ip part = scanQuad stop p ip (part + 1) :=
  (if_pos hpart).trans ((if_neg not_isDigit_dot).trans (if_pos rfl))

end OneCharacter

/-- **A row of digits** in one part of the address. -/
theorem scanQuad_digits (stop : Bool) {ds : Text} (hds : ∀ c ∈ ds, isDigit c = true) (rest : Text)
    {ip : List (BitVec 8)} {part n : Nat} (hpart : part < 4) (hn : ip[part]? = some (BitVec.ofNat 8 n)) :
    scanQuad stop (ds ++ rest) ip part =
      scanQuad stop rest (ip.set part (BitVec.ofNat 8 (decimalFrom n ds))) part := by
  obtain ⟨hlt, hget⟩ := List.getElem?_eq_some_iff.mp hn
  induction ds generalizing ip n with
  | nil =>
    have hself : ip.set part (BitVec.ofNat 8 (decimalFrom n [])) = ip := by
      show ip.set part (BitVec.ofNat 8 n) = ip
      rw [← hget, List.set_getElem_self]
    rw [hself]
    rfl
  | cons c ds ih =>
    have hgetD : ip.getD part 0 = BitVec.ofNat 8 n := by
      rw [List.getD_eq_getElem?_getD, hn]
      rfl
    have hnext : (ip.set part (BitVec.ofNat 8 (n * 10 + (c.toNat - 0x30))))[part]? =
        some (BitVec.ofNat 8 (n * 10 + (c.toNat - 0x30))) := List.getElem?_set_self hlt
    obtain ⟨hlt', hget'⟩ := List.getElem?_eq_some_iff.mp hnext
    rw [List.cons_append, scanQuad_cons_digit stop hpart (hds c List.mem_cons_self), hgetD, ofNat_digit,
      ih (fun c hc => hds c (List.mem_cons_of_mem _ hc)) hnext hlt' hget', List.set_set]
    rfl

/-- **One part of the address**, and the dot behind it. -/
theorem scanQuad_octet (stop : Bool) {ds : Text} (hds : ∀ c ∈ ds, isDigit c = true) (rest : Text)
    {ip : List (BitVec 8)} {part : Nat} (hpart : part < 4) (hzero : ip[part]? = some 0) :
    scanQuad stop (ds ++ dot :: rest) ip part =
      scanQuad stop rest (ip.set part (BitVec.ofNat 8 (decimalFrom 0 ds))) (part + 1) := by
  rw [scanQuad_digits stop hds _ hpart hzero, scanQuad_cons_dot stop hpart]

theorem IsNumber.ofNat {ds : Text} {b : BitVec 8} (h : IsNumber ds b.toNat) :
    BitVec.ofNat 8 (decimalFrom 0 ds) = b := by
  rw [h.value, BitVec.ofNat_toNat, BitVec.setWidth_eq]

/-- **A quad is read as it stands.** -/
theorem scanQuad_quad (stop : Bool) {q : Text} {ip : List (BitVec 8)} (hq : IsQuad q ip) (rest : Text) :
    scanQuad stop (q ++ rest) [0, 0, 0, 0] 0 = scanQuad stop rest ip 3 := by
  obtain ⟨a, b, c, d, va, vb, vc, vd, rfl, rfl, ha, hb, hc, hd⟩ := hq
  have hsplit : a ++ dot :: (b ++ dot :: (c ++ dot :: d)) ++ rest =
      a ++ dot :: (b ++ dot :: (c ++ dot :: (d ++ rest))) := by
    simp only [List.append_assoc, List.cons_append]
  rw [hsplit, scanQuad_octet stop ha.digits _ (by decide) rfl,
    scanQuad_octet stop hb.digits _ (by decide) rfl, scanQuad_octet stop hc.digits _ (by decide) rfl,
    @scanQuad_digits stop d hd.digits rest _ 3 0 (by decide) rfl, ha.ofNat, hb.ofNat, hc.ofNat, hd.ofNat]
  rfl

/-- **The port** is what the digits say, in 16 bits. -/
theorem scanPort_eq (t : Text) (n : Nat) :
    scanPort t (BitVec.ofNat 16 n) = BitVec.ofNat 16 (decimalFrom n (t.takeWhile isDigit)) := by
  induction t generalizing n with
  | nil => rfl
  | cons c p ih =>
    unfold scanPort
    by_cases hc : isDigit c = true
    · rw [if_pos hc, ofNat_digit, ih, List.takeWhile_cons_of_pos hc]
      rfl
    · rw [if_neg hc, List.takeWhile_cons_of_neg hc]
      rfl

/-! ## §4. What is answered. -/

/-- A command that makes its call for every address is answered, unless it makes
    it for a text that is none. -/
theorem answered_iff {α : Type} {action : ShellAction} {call : α → ShellAction} {address : α → Prop}
    {message : String} (hinj : ∀ a b, call a = call b → a = b) (hcall : ∀ a, call a ≠ .print message)
    (haddress : ∀ a, address a → action = call a) (hcases : action = .print message ∨ ∃ a, action = call a) :
    Answered action call address message ↔ (∃ a, address a) ∨ action = .print message := by
  constructor
  · intro h
    obtain ⟨hiff, -⟩ := h
    rcases hcases with hprint | ⟨a, ha⟩
    · exact .inr hprint
    · exact .inl ⟨a, (hiff a).mp ha⟩
  · intro h
    have honce : ∀ a b, address a → action = call b → address b := by
      intro a b ha hb
      rw [← hinj a b ((haddress a ha).symm.trans hb)]
      exact ha
    rcases h with ⟨a, ha⟩ | hprint
    · exact ⟨fun b => ⟨honce a b ha, haddress b⟩, fun hnone => absurd ha (hnone a)⟩
    · refine ⟨fun b => ⟨fun hb => ?_, haddress b⟩, fun _ => hprint⟩
      exact absurd (hb.symm.trans hprint) (hcall b)

section Tcp

variable {t : Text}

/-- The port of an address with three dots. -/
theorem tcp_port (hdots : (beforeBlank t).count dot = 3) :
    (scanQuad true t [0, 0, 0, 0] 0).part = 3 ∧
      scanPort (scanQuad true t [0, 0, 0, 0] 0).p 0 = BitVec.ofNat 16 (decimalFrom 0 (portDigits t)) := by
  have hcount := scanQuad_part true t [0, 0, 0, 0] (show 0 ≤ 4 by omega)
  have hscanned : scanned true t = beforeBlank t := rfl
  rw [hscanned, hdots] at hcount
  refine ⟨hcount, ?_⟩
  rw [scanQuad_rest t _ (show 0 ≤ 3 by omega) (by omega)]
  exact scanPort_eq _ 0

/-- When `tcp` prints its usage. -/
theorem tcpCommand_print_iff :
    tcpCommand t = .print tcpUsage ↔
      (beforeBlank t).count dot ≠ 3 ∨ decimalFrom 0 (portDigits t) % 65536 = 0 := by
  unfold tcpCommand
  dsimp only
  by_cases hdots : (beforeBlank t).count dot = 3
  · obtain ⟨hpart, hport⟩ := tcp_port hdots
    -- with three dots only the port can be wrong, and it is read in 16 bits
    rw [or_iff_right (not_not.mpr hdots), hpart, hport]
    by_cases hzero : decimalFrom 0 (portDigits t) % 65536 = 0
    · rw [if_neg]
      · exact iff_of_true rfl hzero
      · intro h
        have hpos : 0 < (BitVec.ofNat 16 (decimalFrom 0 (portDigits t))).toNat := h.2
        rw [BitVec.toNat_ofNat] at hpos
        omega
    · rw [if_pos]
      · exact iff_of_false ShellAction.noConfusion hzero
      · refine ⟨rfl, ?_⟩
        show 0 < (BitVec.ofNat 16 (decimalFrom 0 (portDigits t))).toNat
        rw [BitVec.toNat_ofNat]
        omega
  · rw [if_neg]
    · exact iff_of_true rfl (.inl hdots)
    · intro h
      have hcount := scanQuad_part true t [0, 0, 0, 0] (show 0 ≤ 4 by omega)
      have hscanned : scanned true t = beforeBlank t := rfl
      rw [hscanned, h.1] at hcount
      omega

/-- An address is connected to. -/
theorem tcpCommand_address {ip : List (BitVec 8)} {port : BitVec 16} (h : IsQuadPort t ip port) :
    tcpCommand t = .tcpConnect ip port := by
  obtain ⟨q, ds, rfl, hq, hds, hpos⟩ := h
  have hscan : scanQuad true (q ++ blank :: ds) [0, 0, 0, 0] 0 = ⟨ip, 3, ds⟩ :=
    scanQuad_quad true hq (blank :: ds)
  have hall : ds.takeWhile isDigit = ds := List.takeWhile_eq_self_iff.mpr hds.digits
  have hport : scanPort ds 0 = port := by
    rw [show (0 : BitVec 16) = BitVec.ofNat 16 0 from rfl, scanPort_eq, hall, hds.value,
      BitVec.ofNat_toNat, BitVec.setWidth_eq]
  unfold tcpCommand
  rw [hscan]
  dsimp only
  rw [hport, if_pos ⟨rfl, hpos⟩]

theorem shellExecute_tcp : shellExecute (tcpName ++ t) = tcpCommand t := by
  have htake : (tcpName ++ t).take 2 = [0x74, 0x63] := rfl
  have hearlier : tcpName ++ t ∉ earlierCommands := by
    intro hmem
    have hhead : (tcpName ++ t).take 2 ∈ earlierCommands.map (List.take 2) := List.mem_map_of_mem hmem
    revert hhead
    rw [htake]
    decide
  have hprefix : tcpName.isPrefixOf (tcpName ++ t) = true := by
    rw [List.isPrefixOf_iff_prefix]
    exact List.prefix_append _ _
  unfold shellExecute
  rw [if_neg hearlier, if_pos hprefix]
  rfl

/-- **The addresses of `tcp`.** -/
theorem tcpAnswered_iff :
    TcpAnswered t ↔ (∃ ip port, IsQuadPort t ip port) ∨
      (beforeBlank t).count dot ≠ 3 ∨ decimalFrom 0 (portDigits t) % 65536 = 0 := by
  have hcases : tcpCommand t = .print tcpUsage ∨
      ∃ a : List (BitVec 8) × BitVec 16, tcpCommand t = .tcpConnect a.1 a.2 := by
    unfold tcpCommand
    dsimp only
    split
    · exact .inr ⟨(_, _), rfl⟩
    · exact .inl rfl
  unfold TcpAnswered
  rw [shellExecute_tcp, answered_iff _ (fun a => ShellAction.noConfusion)
    (fun a ha => tcpCommand_address ha) hcases, tcpCommand_print_iff, Prod.exists]
  intro a b hab
  injection hab with hip hport
  exact Prod.ext hip hport

end Tcp

section Ping

variable {t : Text}

/-- When `ping` prints its error. -/
theorem pingCommand_print_iff : pingCommand t = .print pingError ↔ t.count dot ≠ 3 := by
  have hcount : (scanQuad false t [0, 0, 0, 0] 0).part = min 4 (0 + t.count dot) :=
    scanQuad_part false t [0, 0, 0, 0] (show 0 ≤ 4 by omega)
  unfold pingCommand
  dsimp only
  by_cases hpart : (scanQuad false t [0, 0, 0, 0] 0).part = 3
  · rw [if_pos hpart]
    refine iff_of_false ShellAction.noConfusion ?_
    omega
  · rw [if_neg hpart]
    refine iff_of_true rfl ?_
    omega

/-- An address is pinged. -/
theorem pingCommand_address {ip : List (BitVec 8)} (h : IsQuad t ip) : pingCommand t = .netPing ip := by
  have hscan : scanQuad false t [0, 0, 0, 0] 0 = ⟨ip, 3, []⟩ := by
    have hquad := scanQuad_quad false h []
    rw [List.append_nil] at hquad
    exact hquad
  unfold pingCommand
  rw [hscan]
  exact if_pos rfl

theorem shellExecute_ping : shellExecute (pingName ++ t) = pingCommand t := by
  have htake : (pingName ++ t).take 2 = [0x70, 0x69] := rfl
  have hearlier : pingName ++ t ∉ earlierCommands := by
    intro hmem
    have hhead : (pingName ++ t).take 2 ∈ earlierCommands.map (List.take 2) := List.mem_map_of_mem hmem
    revert hhead
    rw [htake]
    decide
  have hprefix : pingName.isPrefixOf (pingName ++ t) = true := by
    rw [List.isPrefixOf_iff_prefix]
    exact List.prefix_append _ _
  have hnotTcp : ¬ tcpName.isPrefixOf (pingName ++ t) = true := Bool.false_ne_true
  have hnotUdp : ¬ udpName.isPrefixOf (pingName ++ t) = true := Bool.false_ne_true
  unfold shellExecute
  rw [if_neg hearlier, if_neg hnotTcp, if_neg hnotUdp, if_pos hprefix]
  rfl

/-- **The addresses of `ping`.** -/
theorem pingAnswered_iff : PingAnswered t ↔ (∃ ip, IsQuad t ip) ∨ t.count dot ≠ 3 := by
  have hcases : pingCommand t = .print pingError ∨ ∃ ip, pingCommand t = .netPing ip := by
    unfold pingCommand
    dsimp only
    split
    · exact .inr ⟨_, rfl⟩
    · exact .inl rfl
  unfold PingAnswered
  rw [shellExecute_ping, answered_iff _ (fun a => ShellAction.noConfusion)
    (fun a ha => pingCommand_address ha) hcases, pingCommand_print_iff]
  intro a b hab
  injection hab

end Ping

/-- **Address parsing.**  Take any text behind `tcp ` and behind `ping `.  It is
    answered exactly if it is an address, or has not three dots (before the
    first blank), or for `tcp` its port is a multiple of 65536. -/
theorem address_parsing_iff (t : Text) :
    (TcpAnswered t ↔ (∃ ip port, IsQuadPort t ip port) ∨
      (beforeBlank t).count dot ≠ 3 ∨ decimalFrom 0 (portDigits t) % 65536 = 0) ∧
    (PingAnswered t ↔ (∃ ip, IsQuad t ip) ∨ t.count dot ≠ 3) :=
  ⟨tcpAnswered_iff, pingAnswered_iff⟩

/-- An address starts with a number of one byte. -/
theorem IsQuad.first {q : Text} {ip : List (BitVec 8)} (h : IsQuad q ip) (rest : Text) :
    (q ++ rest).takeWhile isDigit ≠ [] ∧ decimalFrom 0 ((q ++ rest).takeWhile isDigit) < 256 := by
  obtain ⟨a, b, c, d, va, vb, vc, vd, rfl, -, ha, -, -, -⟩ := h
  have hfirst : (a ++ dot :: (b ++ dot :: (c ++ dot :: d)) ++ rest).takeWhile isDigit = a := by
    rw [List.append_assoc, List.takeWhile_append_of_pos ha.digits, List.cons_append,
      List.takeWhile_cons_of_neg not_isDigit_dot, List.append_nil]
  rw [hfirst, ha.value]
  exact ⟨ha.nonempty, va.isLt⟩

/-- **A number that does not fit, and no numbers at all**: `tcp 300.1.1.1 80`
    connects to 44.1.1.1, and `ping ...` pings 0.0.0.0. -/
theorem not_an_address :
    ¬ TcpAnswered (text ['3', '0', '0', '.', '1', '.', '1', '.', '1', ' ', '8', '0']) ∧
      ¬ PingAnswered (text ['.', '.', '.']) := by
  constructor
  · intro h
    rcases tcpAnswered_iff.mp h with ⟨ip, port, q, ds, ht, hq, -, -⟩ | hprint
    · have hfirst := (hq.first (blank :: ds)).2
      rw [← ht] at hfirst
      revert hfirst
      decide
    · revert hprint
      decide
  · intro h
    rcases pingAnswered_iff.mp h with ⟨ip, hq⟩ | hprint
    · have hfirst := (hq.first []).1
      rw [List.append_nil] at hfirst
      exact hfirst rfl
    · revert hprint
      decide

end ZohoOs
