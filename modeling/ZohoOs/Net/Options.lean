/-
  ZohoOs.Net.Options — DHCP options, as the format has them and as the client
  reads and writes them (dhcp.c).

  A field of options is a string of PAD bytes and of options, each with a byte
  for its type and one for its length, up to an END byte.  The loop of
  `dhcp_handle` takes a PAD byte for a type, and compares only the position of
  the type with the end of the datagram.  The REQUEST that answers an OFFER
  counts its 16 bytes of options as 12.

  Main results:
    * `dhcp_options_decoded` — which fields the loop reads inside the datagram,
      and which of them it reads as the format has them;
    * `dhcp_request_cut` — no REQUEST is a complete field of options.
-/
import ZohoOs.Net.Codec
import ZohoOs.Net.Dhcp

namespace ZohoOs

open ZohoOs.Lib
open ZohoOs.Lib.Mem (Holds)

/-! ## §1. The format. -/

/-- The filler between options. -/
def dhcpOptPad : BitVec 8 := 0

structure DhcpOption where
  type : BitVec 8
  value : List (BitVec 8)
  deriving DecidableEq

/-- The options of a field; `none` if the field is cut off before its END. -/
def decodeOptions : List (BitVec 8) → Option (List DhcpOption)
  | [] => none
  | [type] => if type = dhcpOptEnd then some [] else none
  | type :: n :: rest =>
    if type = dhcpOptPad then decodeOptions (n :: rest)
    else if type = dhcpOptEnd then some []
    else if n.toNat ≤ rest.length then
      (decodeOptions (rest.drop n.toNat)).map fun options => ⟨type, rest.take n.toNat⟩ :: options
    else none
termination_by l => l.length
decreasing_by
  · exact Nat.lt_succ_self _
  · exact Nat.lt_succ_of_le (Nat.le_succ_of_le (List.length_drop ▸ Nat.sub_le _ _))

/-- The value of an option; if it occurs more than once, the last. -/
def optionValue (type : BitVec 8) : List DhcpOption → Option (List (BitVec 8))
  | [] => none
  | option :: options =>
    (optionValue type options).or (if option.type = type then some option.value else none)

section

variable {n type : BitVec 8} {rest : List (BitVec 8)} {options : List DhcpOption}

theorem decodeOptions_nil : decodeOptions [] = none := by
  rw [decodeOptions]

theorem decodeOptions_pad (rest : List (BitVec 8)) :
    decodeOptions (dhcpOptPad :: rest) = decodeOptions rest := by
  cases rest with
  | nil =>
    rw [decodeOptions, decodeOptions, if_neg (by decide)]
  | cons n rest => rw [decodeOptions, if_pos rfl]

theorem decodeOptions_end (rest : List (BitVec 8)) : decodeOptions (dhcpOptEnd :: rest) = some [] := by
  cases rest with
  | nil => rw [decodeOptions, if_pos rfl]
  | cons n rest => rw [decodeOptions, if_neg (by decide), if_pos rfl]

/-- An option that is all there. -/
theorem decodeOptions_option (hpad : type ≠ dhcpOptPad) (hend : type ≠ dhcpOptEnd)
    (hn : n.toNat ≤ rest.length) :
    decodeOptions (type :: n :: rest) =
      (decodeOptions (rest.drop n.toNat)).map fun options => ⟨type, rest.take n.toNat⟩ :: options := by
  rw [decodeOptions, if_neg hpad, if_neg hend, if_pos hn]

/-- An option that is cut off. -/
theorem decodeOptions_cut (hpad : type ≠ dhcpOptPad) (hend : type ≠ dhcpOptEnd)
    (hn : rest.length < n.toNat) : decodeOptions (type :: n :: rest) = none := by
  rw [decodeOptions, if_neg hpad, if_neg hend, if_neg (Nat.not_le_of_lt hn)]

/-- What a field begins with. -/
theorem decodeOptions_cases {l : List (BitVec 8)} (h : decodeOptions l = some options) :
    (∃ rest, l = dhcpOptPad :: rest ∧ decodeOptions rest = some options) ∨
    (∃ rest, l = dhcpOptEnd :: rest ∧ options = []) ∨
    ∃ type n rest options', l = type :: n :: rest ∧ type ≠ dhcpOptPad ∧ type ≠ dhcpOptEnd ∧
      n.toNat ≤ rest.length ∧ decodeOptions (rest.drop n.toNat) = some options' ∧
      options = ⟨type, rest.take n.toNat⟩ :: options' := by
  cases l with
  | nil =>
    rw [decodeOptions_nil] at h
    cases h
  | cons type rest =>
    by_cases hpad : type = dhcpOptPad
    · subst hpad
      rw [decodeOptions_pad] at h
      exact .inl ⟨rest, rfl, h⟩
    by_cases hend : type = dhcpOptEnd
    · subst hend
      rw [decodeOptions_end] at h
      exact .inr (.inl ⟨rest, rfl, (Option.some.inj h).symm⟩)
    cases rest with
    | nil =>
      rw [decodeOptions, if_neg hend] at h
      cases h
    | cons n rest =>
      by_cases hn : n.toNat ≤ rest.length
      · rw [decodeOptions_option hpad hend hn] at h
        obtain ⟨options', hrest, rfl⟩ := Option.map_eq_some_iff.mp h
        exact .inr (.inr ⟨type, n, rest, options', rfl, hpad, hend, hn, hrest, rfl⟩)
      · rw [decodeOptions_cut hpad hend (Nat.lt_of_not_le hn)] at h
        cases h

end

/-! ## §2. The option loop. -/

/-- A word is determined by its bytes. -/
theorem bytesOf_inj {v v' : BitVec 32} (h : bytesOf v = bytesOf v') : v = v' := by
  have hheld : Holds (Mem.image (bytesOf v)) 0 (bytesOf v) := Mem.holds_image (by
    rw [length_bytesOf]
    decide)
  have hv : (Mem.image (bytesOf v)).load32 (0 + BitVec.ofNat 64 0) = v := hheld.load32_at 0 rfl
  have hv' : (Mem.image (bytesOf v)).load32 (0 + BitVec.ofNat 64 0) = v' := hheld.load32_at 0 h
  exact hv.symm.trans hv'

section

variable {mem : Mem} {data : Word} {len opt : Nat}

theorem dhcpOptions_past (hpast : ¬ opt < len) (msgType : BitVec 8) (serverIp : BitVec 32) :
    (dhcpOptions mem data len opt msgType serverIp).val = (msgType, serverIp) := by
  unfold dhcpOptions
  rw [if_neg hpast]
  rfl

/-- The option loop reads the server identifier. -/
theorem dhcpOptions_server (hlt : opt < len)
    (htype : mem.load8 (data + BitVec.ofNat 64 opt) = dhcpOptServer) (msgType : BitVec 8)
    (serverIp : BitVec 32) :
    (dhcpOptions mem data len opt msgType serverIp).val =
      (dhcpOptions mem data len (opt + 2 + (mem.load8 (data + BitVec.ofNat 64 (opt + 1))).toNat)
        msgType (mem.load32 (data + BitVec.ofNat 64 (opt + 2)))).val := by
  have hnotEnd : ¬ mem.load8 (data + BitVec.ofNat 64 opt) = dhcpOptEnd := by
    rw [htype]
    decide
  have hnotType : ¬ mem.load8 (data + BitVec.ofNat 64 opt) = dhcpOptMsgType := by
    rw [htype]
    decide
  rw [dhcpOptions, if_pos hlt, Logged.val_bind, val_readMem8, if_neg hnotEnd, Logged.val_bind,
    if_neg hnotType, if_pos htype]
  rfl

/-- The option loop skips whatever it does not know. -/
theorem dhcpOptions_other (hlt : opt < len)
    (hend : mem.load8 (data + BitVec.ofNat 64 opt) ≠ dhcpOptEnd)
    (htype : mem.load8 (data + BitVec.ofNat 64 opt) ≠ dhcpOptMsgType)
    (hserver : mem.load8 (data + BitVec.ofNat 64 opt) ≠ dhcpOptServer) (msgType : BitVec 8)
    (serverIp : BitVec 32) :
    (dhcpOptions mem data len opt msgType serverIp).val =
      (dhcpOptions mem data len (opt + 2 + (mem.load8 (data + BitVec.ofNat 64 (opt + 1))).toNat)
        msgType serverIp).val := by
  rw [dhcpOptions, if_pos hlt, Logged.val_bind, val_readMem8, if_neg hend, Logged.val_bind,
    if_neg htype, if_neg hserver]
  rfl

/-- The byte of a value of one byte. -/
theorem load8_of_value {p : Word} {rest : List (BitVec 8)} {n : Nat} {v : BitVec 8}
    (h : Holds mem p rest) (hn : n ≤ rest.length) (hv : rest.take n = [v]) : mem.load8 p = v := by
  have hone := congrArg List.length hv
  rw [List.length_take, Nat.min_eq_left hn] at hone
  have hat : mem.load8 (p + BitVec.ofNat 64 0) = v := h.load8_at 0 (by rw [← hv, hone]; rfl)
  rw [BitVec.add_zero] at hat
  exact hat

/-- The word of a value of four bytes. -/
theorem load32_of_value {p : Word} {rest : List (BitVec 8)} {n : Nat} {v : BitVec 32}
    (h : Holds mem p rest) (hn : n ≤ rest.length) (hv : rest.take n = bytesOf v) :
    mem.load32 p = v := by
  have hfour := congrArg List.length hv
  rw [List.length_take, Nat.min_eq_left hn, length_bytesOf] at hfour
  have hat : mem.load32 (p + BitVec.ofNat 64 0) = v := h.load32_at 0 (by rw [← hv, hfour]; rfl)
  rw [BitVec.add_zero] at hat
  exact hat

/-- What the loop starts an option with, and where it goes from there. -/
theorem dhcpOptionStarts_cons (hlt : opt < len)
    (hend : mem.load8 (data + BitVec.ofNat 64 opt) ≠ dhcpOptEnd) :
    dhcpOptionStarts mem data len opt = opt :: dhcpOptionStarts mem data len
      (opt + 2 + (mem.load8 (data + BitVec.ofNat 64 (opt + 1))).toNat) := by
  rw [dhcpOptionStarts, if_pos hlt, if_neg hend]

/-- Every PAD byte that the loop takes for the type of an option has another
    behind it, which it takes for the length. -/
def PadsPaired (mem : Mem) (data : Word) (len opt : Nat) : Prop :=
  ∀ a ∈ dhcpOptionStarts mem data len opt, mem.load8 (data + BitVec.ofNat 64 a) = dhcpOptPad →
    mem.load8 (data + BitVec.ofNat 64 (a + 1)) = dhcpOptPad

/-- **The loop follows the format** as long as the PAD bytes come in pairs.
    What it ends with is the value of the message type, or what it started
    with, and so for the server identifier. -/
theorem dhcpOptions_values {l : List (BitVec 8)} (hheld : Holds mem (data + BitVec.ofNat 64 opt) l)
    (hlen : opt + l.length = len) {options : List DhcpOption}
    (hfield : decodeOptions l = some options) (hpads : PadsPaired mem data len opt)
    (msgType : BitVec 8) (serverIp : BitVec 32) :
    (∀ v, (optionValue dhcpOptMsgType options).getD [msgType] = [v] →
        (dhcpOptions mem data len opt msgType serverIp).val.1 = v) ∧
      ∀ ip, (optionValue dhcpOptServer options).getD (bytesOf serverIp) = bytesOf ip →
        (dhcpOptions mem data len opt msgType serverIp).val.2 = ip := by
  -- a step of the loop takes an option, or two PAD bytes
  induction hleft : l.length using Nat.strong_induction_on
    generalizing opt l options msgType serverIp with
  | _ left ih =>
    have hbyte : ∀ k b rest, l.drop k = b :: rest →
        mem.load8 (data + BitVec.ofNat 64 (opt + k)) = b := by
      intro k b rest hdrop
      have hat := hheld.load8_at k (v := b) (by rw [hdrop]; rfl)
      rw [BitVec.ofNat_add, ← BitVec.add_assoc]
      exact hat
    have hdrop : ∀ k, Holds mem (data + BitVec.ofNat 64 (opt + k)) (l.drop k) := by
      intro k
      rw [BitVec.ofNat_add, ← BitVec.add_assoc]
      exact hheld.drop k
    have hpos : 0 < l.length → opt < len := by omega
    rcases decodeOptions_cases hfield with ⟨rest, rfl, hrest⟩ | ⟨rest, rfl, rfl⟩ |
      ⟨type, n, rest, options, rfl, hpad, hend, hn, hrest, rfl⟩
    · have hlt : opt < len := hpos (Nat.succ_pos _)
      have hhere : mem.load8 (data + BitVec.ofNat 64 opt) = dhcpOptPad := hbyte 0 _ _ rfl
      have hnotEnd : mem.load8 (data + BitVec.ofNat 64 opt) ≠ dhcpOptEnd := by
        rw [hhere]
        decide
      have hstarts := dhcpOptionStarts_cons hlt hnotEnd
      unfold PadsPaired at hpads
      rw [hstarts, List.forall_mem_cons] at hpads
      have hnext := hpads.1 hhere
      cases rest with
      | nil =>
        rw [decodeOptions_nil] at hrest
        cases hrest
      | cons b rest =>
        -- the loop takes both PAD bytes
        have hb : b = dhcpOptPad := (hbyte 1 _ _ rfl).symm.trans hnext
        subst hb
        rw [decodeOptions_pad] at hrest
        have hskip := dhcpOptions_other hlt hnotEnd (by rw [hhere]; decide) (by rw [hhere]; decide)
          msgType serverIp
        rw [hnext] at hskip
        rw [hskip]
        have htail := hpads.2
        rw [hnext] at htail
        have hbehind : Holds mem (data + BitVec.ofNat 64 (opt + 2)) rest := hdrop 2
        simp only [List.length_cons] at hlen hleft
        exact ih rest.length (by omega) hbehind (by omega) hrest htail msgType serverIp rfl
    · rw [dhcpOptions_end (hpos (Nat.succ_pos _)) (hbyte 0 _ _ rfl)]
      constructor
      · intro v hv
        exact (List.cons.inj hv).1
      · intro ip hip
        exact bytesOf_inj hip
    · have hlt : opt < len := hpos (Nat.succ_pos _)
      have htype : mem.load8 (data + BitVec.ofNat 64 opt) = type := hbyte 0 _ _ rfl
      have hlength : mem.load8 (data + BitVec.ofNat 64 (opt + 1)) = n := hbyte 1 _ _ rfl
      have hnotEnd : mem.load8 (data + BitVec.ofNat 64 opt) ≠ dhcpOptEnd := by
        rw [htype]
        exact hend
      have hstarts := dhcpOptionStarts_cons hlt hnotEnd
      unfold PadsPaired at hpads
      rw [hstarts, List.forall_mem_cons, hlength] at hpads
      have hvalue : Holds mem (data + BitVec.ofNat 64 (opt + 2)) rest := hdrop 2
      have hbehind : Holds mem (data + BitVec.ofNat 64 (opt + 2 + n.toNat)) (rest.drop n.toNat) := by
        rw [BitVec.ofNat_add, ← BitVec.add_assoc]
        exact hvalue.drop n.toNat
      simp only [List.length_cons] at hlen hleft
      have hcount := List.length_drop (l := rest) (i := n.toNat)
      have htail := fun m s => ih (rest.drop n.toNat).length (by omega) hbehind (by omega) hrest
        hpads.2 m s rfl
      unfold optionValue
      rw [Option.getD_or, Option.getD_or]
      by_cases hmsg : type = dhcpOptMsgType
      · have hread := dhcpOptions_type hlt (htype.trans hmsg) msgType serverIp
        have hserver : ¬ type = dhcpOptServer := by
          rw [hmsg]
          decide
        rw [hlength] at hread
        rw [hread, if_pos hmsg, if_neg hserver]
        refine ⟨fun v hv => (htail _ _).1 v ?_, (htail _ _).2⟩
        cases hlast : optionValue dhcpOptMsgType options with
        | some value =>
          rw [hlast] at hv
          exact hv
        | none =>
          rw [hlast] at hv
          rw [load8_of_value hvalue hn hv]
          rfl
      by_cases hserver : type = dhcpOptServer
      · have hread := dhcpOptions_server hlt (htype.trans hserver) msgType serverIp
        rw [hlength] at hread
        rw [hread, if_neg hmsg, if_pos hserver]
        refine ⟨(htail _ _).1, fun ip hip => (htail _ _).2 ip ?_⟩
        cases hlast : optionValue dhcpOptServer options with
        | some value =>
          rw [hlast] at hip
          exact hip
        | none =>
          rw [hlast] at hip
          rw [load32_of_value hvalue hn hip]
          rfl
      · have hread := dhcpOptions_other hlt hnotEnd (by rw [htype]; exact hmsg)
          (by rw [htype]; exact hserver) msgType serverIp
        rw [hlength] at hread
        rw [hread, if_neg hmsg, if_neg hserver]
        exact htail msgType serverIp

end

theorem holds_loadBytes (mem : Mem) (p : Word) (n : Nat) : Holds mem p (loadBytes mem p n) := by
  intro k hk
  simp only [loadBytes, List.getElem_map, List.getElem_range]
  rfl

/-- The field of options of a datagram of `len` bytes. -/
def optionField (mem : Mem) (data : Word) (len : Nat) : List (BitVec 8) :=
  loadBytes mem (data + BitVec.ofNat 64 sizeofDhcp) (len - sizeofDhcp)

/-- What the loop reads of each option is inside the datagram. -/
def OptionsWhole (mem : Mem) (data : Word) (len : Nat) : Prop :=
  ∀ a ∈ dhcpOptionStarts mem data len sizeofDhcp,
    a + dhcpOptionSpan (mem.load8 (data + BitVec.ofNat 64 a)) ≤ len

/-- **The property**: where the field is complete, the loop ends with the values
    of the message type and of the server identifier. -/
def OptionsRead (mem : Mem) (data : Word) (len : Nat) (serverIp : BitVec 32) : Prop :=
  ∀ options, decodeOptions (optionField mem data len) = some options →
    (∀ v, optionValue dhcpOptMsgType options = some [v] →
      (dhcpOptions mem data len sizeofDhcp 0 serverIp).val.1 = v) ∧
    ∀ ip, optionValue dhcpOptServer options = some (bytesOf ip) →
      (dhcpOptions mem data len sizeofDhcp 0 serverIp).val.2 = ip

/-- **The options that are decoded.**  The loop reads inside the datagram
    exactly if what it reads of each option is there; and it ends with the
    values of a complete field if the PAD bytes it meets come in pairs. -/
theorem dhcp_options_decoded (mem : Mem) (data : Word) (len : BitVec 16) (serverIp : BitVec 32) :
    ((dhcpOptions mem data len.toNat sizeofDhcp 0 serverIp).All
        (NetEvent.Inside data len.toNat) ↔ OptionsWhole mem data len.toNat) ∧
      (PadsPaired mem data len.toNat sizeofDhcp → OptionsRead mem data len.toNat serverIp) := by
  constructor
  · have hlen := len.isLt
    have hiff := dhcpOptions_inside mem (At.self data) (L := len.toNat) (by omega)
      (Nat.le_of_eq (Nat.zero_add _)) sizeofDhcp 0 serverIp
    simp only [Nat.zero_add] at hiff
    exact hiff
  · intro hpads options hfield
    have hsize : sizeofDhcp ≤ len.toNat := by
      by_contra hshort
      unfold optionField at hfield
      rw [Nat.sub_eq_zero_of_le (Nat.le_of_not_le hshort)] at hfield
      rw [show loadBytes mem (data + BitVec.ofNat 64 sizeofDhcp) 0 = [] from rfl,
        decodeOptions_nil] at hfield
      cases hfield
    have hlength : (optionField mem data len.toNat).length = len.toNat - sizeofDhcp :=
      length_loadBytes ..
    have hvalues := dhcpOptions_values (holds_loadBytes mem _ _)
      (show sizeofDhcp + (optionField mem data len.toNat).length = len.toNat by omega) hfield
      hpads 0 serverIp
    refine ⟨fun v hv => hvalues.1 v ?_, fun ip hip => hvalues.2 ip ?_⟩
    · rw [hv]
      rfl
    · rw [hip]
      rfl

/-- A reply whose options are one PAD byte and the message type OFFER. -/
def paddedOffer : Mem := Mem.image (List.replicate 240 0 ++
  [dhcpOptPad, dhcpOptMsgType, 1, dhcpMsgOffer, dhcpOptEnd])

/-- **A PAD byte hides the option behind it**; and where it is the last byte of
    the datagram, the loop reads the one behind. -/
theorem padded_offer_lost :
    ¬ OptionsRead paddedOffer 0 245 0 ∧
      ¬ (dhcpOptions paddedOffer 0 241 sizeofDhcp 0 0).All (NetEvent.Inside 0 241) := by
  constructor
  · intro hread
    have hfield : optionField paddedOffer 0 245 =
        [dhcpOptPad, dhcpOptMsgType, 1, dhcpMsgOffer, dhcpOptEnd] := by decide
    have hdecode : decodeOptions (optionField paddedOffer 0 245) =
        some [⟨dhcpOptMsgType, [dhcpMsgOffer]⟩] := by
      rw [hfield, decodeOptions_pad, decodeOptions_option (by decide) (by decide) (by decide)]
      show (decodeOptions [dhcpOptEnd]).map _ = _
      rw [decodeOptions_end]
      rfl
    have hmsg := (hread _ hdecode).1 dhcpMsgOffer rfl
    rw [dhcpOptions_other (by decide) (by decide) (by decide) (by decide),
      dhcpOptions_past (by decide)] at hmsg
    revert hmsg
    decide
  · intro hall
    have hinside := (dhcpOptions_inside paddedOffer (show At (0 : Word) 0 0 from rfl) (L := 241)
      (by decide) (Nat.le_refl _) sizeofDhcp 0 0).mp hall
    rw [dhcpOptionStarts_cons (by decide) (by decide), List.forall_mem_cons] at hinside
    exact absurd hinside.1 (by decide)

/-! ## §3. The REQUEST. -/

/-- The datagram that was sent is a complete field of options: a REQUEST for the
    address that the server offered. -/
def RequestComplete (log : List NetEvent) (offeredIp serverIp : BitVec 32) : Prop :=
  ∃ frame options, framesOf log = [frame] ∧
    decodeOptions (frame.drop (42 + sizeofDhcp)) = some options ∧
    optionValue dhcpOptMsgType options = some [dhcpMsgRequest] ∧
    optionValue dhcpOptReqIp options = some (bytesOf offeredIp) ∧
    optionValue dhcpOptServer options = some (bytesOf serverIp)

/-- No byte is written behind a buffer. -/
def WritesInside (log : List NetEvent) : Prop :=
  ∀ size written, NetEvent.buffer size written ∈ log → written ≤ size

/-- **What `dhcp_handle` does with an OFFER**: it reads, and sends a REQUEST. -/
theorem dhcpHandle_offer {net : Net} {d : Datagram} (haccepted : d.Accepted net.dhcpXid)
    (hoffer : d.msgType = dhcpMsgOffer) :
    ∃ reads net', (dhcpHandle net d.mem d.data d.len).log = reads ++ (dhcpRequest net').log ∧
      (∀ e ∈ reads, ∃ p n, e = NetEvent.read p n) ∧ net'.dhcpOfferedIp = d.yiaddr := by
  obtain ⟨hlong, hop, hmagic, hxid⟩ := haccepted
  have htype : (dhcpOptions d.mem d.data d.len.toNat sizeofDhcp 0 net.dhcpServerIp).val.1 =
      dhcpMsgOffer := (dhcpOptions_msgType _ _ _ _ _ _ _).trans hoffer
  have hloop : ∀ e ∈ (dhcpOptions d.mem d.data d.len.toNat sizeofDhcp 0 net.dhcpServerIp).log,
      ∃ p n, e = NetEvent.read p n := dhcpOptions_all (fun p n => ⟨p, n, rfl⟩) _ _ _ _ _ _
  set found := dhcpOptions d.mem d.data d.len.toNat sizeofDhcp 0 net.dhcpServerIp with hfound
  have hkept : ¬ (d.mem.load8 d.data ≠ dhcpBootreply ∨
      ntohl (d.mem.load32 (d.data + 236)) ≠ dhcpMagicCookie) :=
    not_or.mpr ⟨not_not_intro hop, not_not_intro hmagic⟩
  refine ⟨[.read d.data 1, .read (d.data + 236) 4, .read (d.data + 4) 4] ++ found.log ++
      [.read (d.data + 16) 4],
    { net with dhcpServerIp := found.val.2, dhcpOfferedIp := d.yiaddr }, ?_, ?_, rfl⟩
  · unfold dhcpHandle
    rw [if_neg (Nat.not_lt_of_le hlong), Logged.log_bind, Logged.log_bind, val_readMem8,
      val_readMem32, if_neg hkept, Logged.log_bind, val_readMem32, if_neg (not_not_intro hxid),
      Logged.log_bind, ← hfound, if_pos htype, Logged.log_bind, log_readMem8, log_readMem32,
      log_readMem32, log_readMem32, val_readMem32]
    simp only [List.append_assoc, List.cons_append, List.nil_append]
    rfl
  · intro e he
    rcases List.mem_append.mp he with hfirst | hlast
    · rcases List.mem_append.mp hfirst with hhead | hopt
      · simp only [List.mem_cons, List.not_mem_nil, or_false] at hhead
        rcases hhead with rfl | rfl | rfl
        · exact ⟨_, _, rfl⟩
        · exact ⟨_, _, rfl⟩
        · exact ⟨_, _, rfl⟩
      · exact hloop e hopt
    · rw [List.mem_singleton.mp hlast]
      exact ⟨_, _, rfl⟩

@[simp] theorem length_dhcpPacket (net : Net) (flags : BitVec 16) :
    (dhcpPacket net flags).length = sizeofDhcp := by
  unfold dhcpPacket
  simp only [List.length_append, length_bytesOf, List.length_replicate, List.length_cons,
    List.length_nil]
  rfl

@[simp] theorem length_dhcpRequestOptions (offeredIp serverIp : BitVec 32) :
    (dhcpRequestOptions offeredIp serverIp).length = 16 := rfl

/-- The datagram that is sent: the server identifier has one byte of its four. -/
theorem take_request (net : Net) :
    (dhcpPacket net 0 ++ dhcpRequestOptions net.dhcpOfferedIp net.dhcpServerIp).take
      (sizeofDhcp + 12) =
        dhcpPacket net 0 ++ ([dhcpOptMsgType, 1, dhcpMsgRequest, dhcpOptReqIp, 4] ++
          bytesOf net.dhcpOfferedIp ++ [dhcpOptServer, 4, net.dhcpServerIp.extractLsb' 0 8]) := by
  rw [← length_dhcpPacket net 0, List.take_length_add_append]
  rfl

/-- These options are not a complete field. -/
theorem decodeOptions_request (offeredIp : BitVec 32) (b : BitVec 8) :
    decodeOptions ([dhcpOptMsgType, 1, dhcpMsgRequest, dhcpOptReqIp, 4] ++ bytesOf offeredIp ++
      [dhcpOptServer, 4, b]) = none := by
  have hcut : decodeOptions [dhcpOptServer, 4, b] = none :=
    decodeOptions_cut (by decide) (by decide) (show 1 < 4 by decide)
  have hip : decodeOptions (dhcpOptReqIp :: 4 :: (bytesOf offeredIp ++ [dhcpOptServer, 4, b])) =
      none := by
    rw [decodeOptions_option (by decide) (by decide) (by
      rw [List.length_append, length_bytesOf]
      exact Nat.le_add_right 4 3)]
    show (decodeOptions [dhcpOptServer, 4, b]).map _ = none
    rw [hcut]
    rfl
  show decodeOptions (dhcpOptMsgType :: 1 :: ([dhcpMsgRequest] ++
    dhcpOptReqIp :: 4 :: (bytesOf offeredIp ++ [dhcpOptServer, 4, b]))) = none
  rw [decodeOptions_option (by decide) (by decide) (by
    rw [List.length_append]
    exact Nat.le_add_right 1 _)]
  show (decodeOptions (dhcpOptReqIp :: 4 :: (bytesOf offeredIp ++ [dhcpOptServer, 4, b]))).map _ =
    none
  rw [hip]
  rfl

/-- The buffer is filled before anything is sent from it. -/
theorem dhcpRequest_eq (net : Net) : dhcpRequest net =
    (Logged.tell (.buffer (sizeofDhcp + 12)
        (dhcpPacket net 0 ++ dhcpRequestOptions net.dhcpOfferedIp net.dhcpServerIp).length) >>=
      fun _ => netSendUdp net 0xFFFFFFFF 68 67
        ((dhcpPacket net 0 ++ dhcpRequestOptions net.dhcpOfferedIp net.dhcpServerIp).take
          (sizeofDhcp + 12))) := rfl

/-- The frame of a REQUEST. -/
theorem dhcpRequest_frame (net : Net) :
    ∃ headers, headers.length = 42 ∧ framesOf (dhcpRequest net).log = [headers ++
      (dhcpPacket net 0 ++ dhcpRequestOptions net.dhcpOfferedIp net.dhcpServerIp).take
        (sizeofDhcp + 12)] := by
  set req := (dhcpPacket net 0 ++ dhcpRequestOptions net.dhcpOfferedIp net.dhcpServerIp).take
    (sizeofDhcp + 12) with hreq
  have hlength : req.length = 252 := by
    rw [hreq, List.length_take, List.length_append, length_dhcpPacket, length_dhcpRequestOptions]
    decide
  have hmac : udpTargetMac net 0xFFFFFFFF = some broadcastMac := if_pos rfl
  have hfit : 42 + req.length < 2 ^ 16 := by omega
  have hframe := netSendUdp_frame hmac 68 67 hfit
  unfold ipv4Packet udpDatagram at hframe
  simp only [← List.append_assoc] at hframe
  rw [dhcpRequest_eq, framesOf_bind, ← hreq, hframe]
  refine ⟨_, ?_, rfl⟩
  simp only [List.length_append, length_ethHeader, length_ipv4Header, length_udpHeader]

section

variable {reads : List NetEvent} {net : Net}

/-- What is sent ends inside the last option. -/
theorem request_not_complete (hreads : ∀ e ∈ reads, ∃ p n, e = NetEvent.read p n)
    (offeredIp serverIp : BitVec 32) :
    ¬ RequestComplete (reads ++ (dhcpRequest net).log) offeredIp serverIp := by
  intro ⟨frame, options, hframes, hdecode, _⟩
  have hnone : framesOf reads = [] := by
    apply List.filterMap_eq_nil_iff.mpr
    intro e he
    obtain ⟨p, n, rfl⟩ := hreads e he
    rfl
  obtain ⟨headers, hheaders, hrequest⟩ := dhcpRequest_frame net
  have happend : framesOf (reads ++ (dhcpRequest net).log) =
      framesOf reads ++ framesOf (dhcpRequest net).log := List.filterMap_append
  rw [happend, hnone, hrequest] at hframes
  have hframe := (List.cons.inj hframes).1
  rw [← hframe, ← hheaders, ← List.drop_drop, List.drop_left, take_request,
    ← length_dhcpPacket net 0, List.drop_left, decodeOptions_request] at hdecode
  cases hdecode

/-- 256 bytes are written to a buffer of 252. -/
theorem request_not_inside : ¬ WritesInside (reads ++ (dhcpRequest net).log) := by
  intro hinside
  have hmem : NetEvent.buffer (sizeofDhcp + 12)
      (dhcpPacket net 0 ++ dhcpRequestOptions net.dhcpOfferedIp net.dhcpServerIp).length ∈
        reads ++ (dhcpRequest net).log := by
    rw [dhcpRequest_eq, Logged.log_bind]
    exact List.mem_append_right _ (List.mem_append_left _ (List.mem_singleton_self _))
  have hle := hinside _ _ hmem
  rw [List.length_append, length_dhcpPacket, length_dhcpRequestOptions] at hle
  exact absurd hle (by decide)

end

/-- **No REQUEST is complete.**  Whatever address an accepted OFFER offers, and
    whatever server it names, the datagram that answers it ends inside the last
    option, and four bytes are written behind the buffer it is built in. -/
theorem dhcp_request_cut {net : Net} {d : Datagram} (haccepted : d.Accepted net.dhcpXid)
    (hoffer : d.msgType = dhcpMsgOffer) (serverIp : BitVec 32) :
    ¬ RequestComplete (dhcpHandle net d.mem d.data d.len).log d.yiaddr serverIp ∧
      ¬ WritesInside (dhcpHandle net d.mem d.data d.len).log := by
  obtain ⟨reads, net', hlog, hreads, _⟩ := dhcpHandle_offer haccepted hoffer
  rw [hlog]
  exact ⟨request_not_complete hreads d.yiaddr serverIp, request_not_inside⟩

/-- The server 10.0.2.2 offers 10.0.2.99. -/
def sampleOffer : Datagram where
  mem := Mem.image ([dhcpBootreply, 1, 6, 0, 0x12, 0x34, 0x56, 0x78] ++ List.replicate 8 0 ++
    [10, 0, 2, 99] ++ List.replicate 216 0 ++ [0x63, 0x82, 0x53, 0x63, dhcpOptMsgType, 1, dhcpMsgOffer,
      dhcpOptServer, 4, 10, 0, 2, 2, dhcpOptEnd])
  data := 0
  len := 250

theorem sampleOffer_accepted : sampleOffer.Accepted (dhcpInit bootNet).dhcpXid := by decide

theorem sampleOffer_msgType : sampleOffer.msgType = dhcpMsgOffer := by
  have htype : (dhcpOptions sampleOffer.mem 0 250 240 0 0).val =
      (dhcpOptions sampleOffer.mem 0 250 (240 + 2 + (sampleOffer.mem.load8 241).toNat)
        (sampleOffer.mem.load8 242) 0).val := dhcpOptions_type (by decide) (by decide) 0 0
  have hserver : (dhcpOptions sampleOffer.mem 0 250 243 dhcpMsgOffer 0).val =
      (dhcpOptions sampleOffer.mem 0 250 (243 + 2 + (sampleOffer.mem.load8 244).toNat)
        dhcpMsgOffer (sampleOffer.mem.load32 245)).val :=
    dhcpOptions_server (by decide) (by decide) _ _
  have hend : (dhcpOptions sampleOffer.mem 0 250 249 dhcpMsgOffer
      (sampleOffer.mem.load32 245)).val = (dhcpMsgOffer, sampleOffer.mem.load32 245) :=
    dhcpOptions_end (by decide) (by decide) _ _
  have hlen : 240 + 2 + (sampleOffer.mem.load8 241).toNat = 243 := by decide
  have hlen' : 243 + 2 + (sampleOffer.mem.load8 244).toNat = 249 := by decide
  have hmsg : sampleOffer.mem.load8 242 = dhcpMsgOffer := by decide
  rw [hlen, hmsg, hserver, hlen', hend] at htype
  exact congrArg Prod.fst htype

theorem dhcp_request_cut_sample :
    ¬ RequestComplete (dhcpHandle (dhcpInit bootNet) sampleOffer.mem sampleOffer.data
        sampleOffer.len).log 0x6302000A 0x0202000A ∧
      ¬ WritesInside (dhcpHandle (dhcpInit bootNet) sampleOffer.mem sampleOffer.data
        sampleOffer.len).log :=
  dhcp_request_cut (d := sampleOffer) sampleOffer_accepted sampleOffer_msgType 0x0202000A

/-- **The REQUEST for 10.0.2.99 is cut.** -/
theorem sample_request_cut : sampleOffer.Accepted (dhcpInit bootNet).dhcpXid ∧
    sampleOffer.msgType = dhcpMsgOffer ∧
    ¬ RequestComplete (dhcpHandle (dhcpInit bootNet) sampleOffer.mem sampleOffer.data
      sampleOffer.len).log sampleOffer.yiaddr 0x0202000A := by
  obtain ⟨reads, net', hlog, hreads, _⟩ :=
    dhcpHandle_offer sampleOffer_accepted sampleOffer_msgType
  refine ⟨sampleOffer_accepted, sampleOffer_msgType, ?_⟩
  rw [hlog]
  exact request_not_complete hreads _ _

end ZohoOs
