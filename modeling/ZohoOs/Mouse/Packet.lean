/-
  ZohoOs.Mouse.Packet — the packets of a PS/2 mouse (mouse.c).

  The handler collects three bytes and then moves the pointer.  A delta has
  nine bits: a byte of its own, and a sign in the first byte of the packet.  The
  driver keeps the bytes as signed ones, so a byte from 128 on is negative by
  itself, and the sign of the packet is taken off once more.

  Main results:
    * `mouse_in_range` — where the mouse can be;
    * `mousePacket_spec` — what three bytes from the mouse do;
    * `mousePacket_iff` — when a packet moves the pointer as it says;
    * `mouse_runs_iff` — the same for every packet of a run.
-/
import Mathlib.Algebra.GroupWithZero.Nat
import Mathlib.Tactic.SplitIfs
import ZohoOs.Lib.Signed
import ZohoOs.Lib.Transition

namespace ZohoOs

open ZohoOs.Lib

/-! ## §1. The mouse. -/

/-- The statics of mouse.c. -/
structure Mouse where
  cycle : Fin 3
  byte : Fin 3 → BitVec 8
  x : BitVec 32
  y : BitVec 32

def mouseInit : Mouse := ⟨0, fun _ => 0, 400, 300⟩

/-- A coordinate is kept between 0 and `bound`. -/
def clampCoordinate (v bound : BitVec 32) : BitVec 32 :=
  let v := if v.slt 0 then 0 else v
  if bound.slt v then bound else v

/-- A movement byte, and the sign bit that goes with it. -/
def mouseDelta (byte sign : BitVec 8) : BitVec 32 :=
  if sign ≠ 0 then byte.signExtend 32 - 256 else byte.signExtend 32

/-- `mouse_handler`, with the bytes it reads from the status port and from the
    data port.  The third byte completes a packet. -/
def mouseHandler (m : Mouse) (status data : BitVec 8) : Mouse :=
  if status &&& 1 = 0 ∨ status &&& 0x20 = 0 then m
  else
    let m := { m with byte := Function.update m.byte m.cycle data, cycle := m.cycle + 1 }
    if m.cycle ≠ 0 then m
    else if m.byte 0 &&& 0x80 ≠ 0 ∨ m.byte 0 &&& 0x40 ≠ 0 then m
    else
      { m with
        x := clampCoordinate (m.x + mouseDelta (m.byte 1) (m.byte 0 &&& 0x10)) 1024
        y := clampCoordinate (m.y - mouseDelta (m.byte 2) (m.byte 0 &&& 0x20)) 768 }

/-- The mouse after the bytes have come in. -/
def mouseAfter (input : List (BitVec 8 × BitVec 8)) : Mouse :=
  input.foldl (fun m b => mouseHandler m b.1 b.2) mouseInit

theorem clampCoordinate_le {bound : BitVec 32} (hb : bound.toNat < 2 ^ 31) (v : BitVec 32) :
    (clampCoordinate v bound).toNat ≤ bound.toNat := by
  have hv : (if v.slt 0 then 0 else v).toNat < 2 ^ 31 := by
    by_cases hneg : v.slt 0 = true
    · rw [if_pos hneg]
      decide
    · rw [if_neg hneg]
      have hzero : (0 : BitVec 32).toInt = 0 := rfl
      have hlt := v.isLt
      simp only [BitVec.slt, decide_eq_true_eq, hzero, BitVec.toInt_eq_toNat_cond] at hneg
      split_ifs at hneg <;> omega
  unfold clampCoordinate
  dsimp only
  generalize (if v.slt 0 then 0 else v) = u at hv ⊢
  by_cases hc : bound.slt u = true
  · rw [if_pos hc]
  · rw [if_neg hc]
    simp only [BitVec.slt, decide_eq_true_eq, BitVec.toInt_eq_toNat_cond] at hc
    split_ifs at hc <;> omega

/-- **The mouse stays on a screen of 1024 by 768 pixels**, and the pixels to
    the right and below it. -/
theorem mouse_in_range (input : List (BitVec 8 × BitVec 8)) :
    (mouseAfter input).x.toNat ≤ 1024 ∧ (mouseAfter input).y.toNat ≤ 768 := by
  induction input using List.reverseRecOn with
  | nil => exact ⟨by decide, by decide⟩
  | append_singleton input b ih =>
    unfold mouseAfter at ih ⊢
    rw [List.foldl_append]
    generalize input.foldl (fun m b => mouseHandler m b.1 b.2) mouseInit = m at ih ⊢
    show (mouseHandler m b.1 b.2).x.toNat ≤ 1024 ∧ (mouseHandler m b.1 b.2).y.toNat ≤ 768
    unfold mouseHandler
    dsimp only
    split_ifs
    · exact ih
    · exact ih
    · exact ih
    · exact ⟨clampCoordinate_le (by decide) _, clampCoordinate_le (by decide) _⟩

/-! ## §2. Packets. -/

/-- The three bytes of a packet. -/
structure Packet where
  b0 : BitVec 8
  b1 : BitVec 8
  b2 : BitVec 8

namespace Packet

/-- The overflow bits. -/
def overflow (p : Packet) : Prop := p.b0 &&& 0x80 ≠ 0 ∨ p.b0 &&& 0x40 ≠ 0

/-- The deltas: two's complement in nine bits. -/
def dx (p : Packet) : Int := (BitVec.ofBool (p.b0.getLsbD 4) ++ p.b1).toInt
def dy (p : Packet) : Int := (BitVec.ofBool (p.b0.getLsbD 5) ++ p.b2).toInt

end Packet

/-- `v`, or the end of the range `0 … hi` that is nearest. -/
def clamp (hi v : Int) : Int := max 0 (min hi v)

/-- **The packet moves the pointer as it says**; one with an overflow bit leaves
    it where it is. -/
def Moved (s : Mouse) (p : Packet) (s' : Mouse) : Prop :=
  (p.overflow → s'.x = s.x ∧ s'.y = s.y) ∧
    (¬ p.overflow → s'.x.toInt = clamp 1024 (s.x.toInt + p.dx) ∧
      s'.y.toInt = clamp 768 (s.y.toInt - p.dy))

/-- The status of a controller that holds a byte from the mouse. -/
def FromMouse (status : BitVec 8) : Prop := status &&& 1 ≠ 0 ∧ status &&& 0x20 ≠ 0

/-- The handler is called for each byte of a packet. -/
def mouseStep (s : Mouse) (p : Packet) (s' : Mouse) : Prop :=
  ∃ st0 st1 st2, FromMouse st0 ∧ FromMouse st1 ∧ FromMouse st2 ∧
    s' = mouseHandler (mouseHandler (mouseHandler s st0 p.b0) st1 p.b1) st2 p.b2

/-- The pointer is on the screen, and the next byte is the first of a packet. -/
structure Mouse.Inv (s : Mouse) : Prop where
  cycle : s.cycle = 0
  x : 0 ≤ s.x.toInt ∧ s.x.toInt ≤ 1024
  y : 0 ≤ s.y.toInt ∧ s.y.toInt ≤ 768

theorem mouseInit_inv : mouseInit.Inv := ⟨rfl, by decide, by decide⟩

/-! ## §3. Three bytes. -/

section Bytes

variable {m : Mouse} {status : BitVec 8}

/-- One of the first two bytes of a packet is stored. -/
theorem mouseHandler_store (hst : FromMouse status) (hcycle : m.cycle + 1 ≠ 0) (data : BitVec 8) :
    mouseHandler m status data =
      { m with byte := Function.update m.byte m.cycle data, cycle := m.cycle + 1 } := by
  unfold mouseHandler
  rw [if_neg fun h => h.elim hst.1 hst.2]
  dsimp only
  rw [if_pos hcycle]

/-- The last byte moves the pointer. -/
theorem mouseHandler_move (hst : FromMouse status) (hcycle : m.cycle = 2) {b0 b1 : BitVec 8}
    (h0 : m.byte 0 = b0) (h1 : m.byte 1 = b1) (data : BitVec 8) :
    mouseHandler m status data =
      if b0 &&& 0x80 ≠ 0 ∨ b0 &&& 0x40 ≠ 0 then ⟨0, Function.update m.byte 2 data, m.x, m.y⟩
      else
        ⟨0, Function.update m.byte 2 data, clampCoordinate (m.x + mouseDelta b1 (b0 &&& 0x10)) 1024,
          clampCoordinate (m.y - mouseDelta data (b0 &&& 0x20)) 768⟩ := by
  have hnext : (2 + 1 : Fin 3) = 0 := rfl
  subst h0
  subst h1
  unfold mouseHandler
  rw [if_neg fun h => h.elim hst.1 hst.2]
  dsimp only
  rw [hcycle, hnext, if_neg fun h => h rfl]
  rfl

/-- **Three bytes from the mouse** are one packet. -/
theorem mousePacket_eq {s s' : Mouse} {p : Packet} (hcycle : s.cycle = 0) (hstep : mouseStep s p s') :
    s'.cycle = 0 ∧ (p.overflow → s'.x = s.x ∧ s'.y = s.y) ∧
      (¬ p.overflow → s'.x = clampCoordinate (s.x + mouseDelta p.b1 (p.b0 &&& 0x10)) 1024 ∧
        s'.y = clampCoordinate (s.y - mouseDelta p.b2 (p.b0 &&& 0x20)) 768) := by
  obtain ⟨st0, st1, st2, h0, h1, h2, rfl⟩ := hstep
  have hfirst : mouseHandler s st0 p.b0 = ⟨1, Function.update s.byte 0 p.b0, s.x, s.y⟩ := by
    rw [mouseHandler_store h0 (by rw [hcycle]; decide), hcycle]
    rfl
  have hsecond : mouseHandler (mouseHandler s st0 p.b0) st1 p.b1 =
      ⟨2, Function.update (Function.update s.byte 0 p.b0) 1 p.b1, s.x, s.y⟩ := by
    rw [hfirst]
    exact mouseHandler_store h1 (show (1 + 1 : Fin 3) ≠ 0 by decide) p.b1
  have hbyte0 : Function.update (Function.update s.byte 0 p.b0) 1 p.b1 0 = p.b0 := rfl
  have hbyte1 : Function.update (Function.update s.byte 0 p.b0) 1 p.b1 1 = p.b1 := rfl
  rw [hsecond, mouseHandler_move h2 rfl hbyte0 hbyte1]
  by_cases hover : p.overflow
  · unfold Packet.overflow at hover
    rw [if_pos hover]
    exact ⟨rfl, fun _ => ⟨rfl, rfl⟩, fun h => absurd hover h⟩
  · unfold Packet.overflow at hover
    rw [if_neg hover]
    exact ⟨rfl, fun h => absurd h hover, fun _ => ⟨rfl, rfl⟩⟩

end Bytes

/-! ## §4. One packet. -/

section Move

variable {s s' : Mouse} {p : Packet}

/-- A signed byte is less by 256 from 128 on. -/
theorem toInt_byte (b : BitVec 8) : b.toInt = if b.toNat < 128 then (b.toNat : Int) else b.toNat - 256 := by
  rw [BitVec.toInt_eq_toNat_cond]
  split_ifs <;> omega

/-- The sign of a packet takes off 256. -/
theorem toInt_nine (sign : Bool) (b : BitVec 8) :
    (BitVec.ofBool sign ++ b).toInt = b.toNat - if sign then 256 else 0 := by
  have hb := b.isLt
  have hnat : (BitVec.ofBool sign ++ b).toNat = sign.toNat * 256 + b.toNat := by
    rw [BitVec.toNat_append, ← Nat.shiftLeft_add_eq_or_of_lt hb, BitVec.toNat_ofBool, Nat.shiftLeft_eq]
  rw [BitVec.toInt_eq_toNat_cond, hnat]
  cases sign
  · rw [Bool.toNat_false, if_pos (by omega), if_neg Bool.false_ne_true]
    omega
  · rw [Bool.toNat_true, if_neg (by omega), if_pos rfl]
    omega

/-- The sign bits of the first byte. -/
theorem signBit_iff : ∀ b : BitVec 8,
    (b &&& 0x10 ≠ 0 ↔ b.getLsbD 4 = true) ∧ (b &&& 0x20 ≠ 0 ↔ b.getLsbD 5 = true) := by
  decide

/-- The delta the driver goes by. -/
theorem toInt_mouseDelta (byte sign : BitVec 8) :
    (mouseDelta byte sign).toInt = byte.toInt - if sign ≠ 0 then 256 else 0 := by
  have hbyte : (byte.signExtend 32).toInt = byte.toInt := BitVec.toInt_signExtend_of_le (by decide)
  have hrange := toInt_byte byte
  have hlt := byte.isLt
  have h256 : (256 : BitVec 32).toInt = 256 := rfl
  unfold mouseDelta
  by_cases hsign : sign ≠ 0
  · rw [if_pos hsign, if_pos hsign, toInt_sub_of, hbyte, h256]
    rw [hbyte, h256]
    unfold IsInt32
    split_ifs at hrange <;> omega
  · rw [if_neg hsign, if_neg hsign, hbyte, Int.sub_zero]

/-- The driver clamps to the range. -/
theorem toInt_clampCoordinate (v bound : BitVec 32) (hbound : 0 ≤ bound.toInt) :
    (clampCoordinate v bound).toInt = clamp bound.toInt v.toInt := by
  have hzero : (0 : BitVec 32).toInt = 0 := rfl
  unfold clampCoordinate clamp
  dsimp only
  by_cases hneg : v.toInt < 0
  · have hslt : v.slt 0 = true := BitVec.slt_iff_toInt_lt.mpr hneg
    have hnot : ¬ bound.slt 0 = true := fun h => by
      have hlt := BitVec.slt_iff_toInt_lt.mp h
      omega
    rw [if_pos hslt, if_neg hnot, hzero]
    omega
  · have hslt : ¬ v.slt 0 = true := fun h => hneg (BitVec.slt_iff_toInt_lt.mp h)
    rw [if_neg hslt]
    by_cases hbig : bound.toInt < v.toInt
    · rw [if_pos (BitVec.slt_iff_toInt_lt.mpr hbig)]
      omega
    · rw [if_neg fun h => hbig (BitVec.slt_iff_toInt_lt.mp h)]
      omega

/-- **The driver's deltas**: the byte is read with a sign of its own. -/
def Packet.driverDx (p : Packet) : Int := p.b1.toInt - if p.b0.getLsbD 4 then 256 else 0
def Packet.driverDy (p : Packet) : Int := p.b2.toInt - if p.b0.getLsbD 5 then 256 else 0

theorem toInt_byte_sub_range (sign : Bool) (b : BitVec 8) :
    -384 ≤ b.toInt - (if sign then 256 else 0) ∧ b.toInt - (if sign then 256 else 0) < 128 := by
  have hbyte := toInt_byte b
  have hb := b.isLt
  split_ifs at hbyte ⊢ <;> omega

/-- A byte from 128 on makes the driver's delta negative. -/
theorem driverDelta_neg {sign : Bool} {b : BitVec 8} (hb : ¬ b.toNat < 128) :
    b.toInt - (if sign then 256 else 0) < 0 := by
  have hbyte := toInt_byte b
  have hlt := b.isLt
  rw [if_neg hb] at hbyte
  split_ifs <;> omega

/-- The delta of the packet is the driver's, but for a byte from 128 on. -/
theorem toInt_nine_eq (sign : Bool) (b : BitVec 8) :
    (BitVec.ofBool sign ++ b).toInt =
      b.toInt - (if sign then 256 else 0) + if b.toNat < 128 then 0 else 256 := by
  rw [toInt_nine, toInt_byte]
  split_ifs <;> omega

theorem Packet.dx_eq (p : Packet) : p.dx = p.driverDx + if p.b1.toNat < 128 then 0 else 256 :=
  toInt_nine_eq _ _

theorem Packet.dy_eq (p : Packet) : p.dy = p.driverDy + if p.b2.toNat < 128 then 0 else 256 :=
  toInt_nine_eq _ _

theorem Packet.driverDx_range (p : Packet) : -384 ≤ p.driverDx ∧ p.driverDx < 128 :=
  toInt_byte_sub_range _ _

theorem Packet.driverDy_range (p : Packet) : -384 ≤ p.driverDy ∧ p.driverDy < 128 :=
  toInt_byte_sub_range _ _

/-- **What a packet does.** -/
theorem mousePacket_spec (hinv : s.Inv) (hstep : mouseStep s p s') :
    s'.Inv ∧ (p.overflow → s'.x = s.x ∧ s'.y = s.y) ∧
      (¬ p.overflow → s'.x.toInt = clamp 1024 (s.x.toInt + p.driverDx) ∧
        s'.y.toInt = clamp 768 (s.y.toInt - p.driverDy)) := by
  obtain ⟨hcycle, hstay, hmove⟩ := mousePacket_eq hinv.cycle hstep
  obtain ⟨hsx, hsy⟩ := signBit_iff p.b0
  have hx := hinv.x
  have hy := hinv.y
  by_cases hover : p.overflow
  · obtain ⟨hsamex, hsamey⟩ := hstay hover
    rw [← hsamex] at hx
    rw [← hsamey] at hy
    exact ⟨⟨hcycle, hx, hy⟩, hstay, fun h => absurd hover h⟩
  · obtain ⟨hnewx, hnewy⟩ := hmove hover
    -- both deltas are small, so the sums are exact
    have hdx : (mouseDelta p.b1 (p.b0 &&& 0x10)).toInt = p.driverDx := by
      rw [toInt_mouseDelta, if_congr hsx rfl rfl]
      rfl
    have hdy : (mouseDelta p.b2 (p.b0 &&& 0x20)).toInt = p.driverDy := by
      rw [toInt_mouseDelta, if_congr hsy rfl rfl]
      rfl
    obtain ⟨hdx1, hdx2⟩ := p.driverDx_range
    obtain ⟨hdy1, hdy2⟩ := p.driverDy_range
    have hclampx : s'.x.toInt = clamp 1024 (s.x.toInt + p.driverDx) := by
      rw [hnewx, toInt_clampCoordinate _ 1024 (by decide), toInt_add_of, hdx]
      · rfl
      · rw [hdx]
        unfold IsInt32
        omega
    have hclampy : s'.y.toInt = clamp 768 (s.y.toInt - p.driverDy) := by
      rw [hnewy, toInt_clampCoordinate _ 768 (by decide), toInt_sub_of, hdy]
      · rfl
      · rw [hdy]
        unfold IsInt32
        omega
    refine ⟨⟨hcycle, ?_, ?_⟩, fun h => absurd h hover, fun _ => ⟨hclampx, hclampy⟩⟩
    · rw [hclampx]
      unfold clamp
      omega
    · rw [hclampy]
      unfold clamp
      omega

/-- **When a packet moves the pointer as it says**: its bytes are less than 128,
    or the pointer is stopped at the edge anyway. -/
def Packet.Fits (s : Mouse) (p : Packet) : Prop :=
  p.overflow ∨ ((p.b1.toNat < 128 ∨ s.x.toInt + p.dx ≤ 0) ∧ (p.b2.toNat < 128 ∨ 768 ≤ s.y.toInt - p.dy))

/-- **One packet**, from a pointer on the screen. -/
theorem mousePacket_iff (hinv : s.Inv) (hstep : mouseStep s p s') : Moved s p s' ↔ p.Fits s := by
  obtain ⟨-, hstay, hmove⟩ := mousePacket_spec hinv hstep
  have hx := hinv.x
  have hy := hinv.y
  unfold Moved Packet.Fits
  by_cases hover : p.overflow
  · exact iff_of_true ⟨hstay, fun h => absurd hover h⟩ (.inl hover)
  · obtain ⟨hnewx, hnewy⟩ := hmove hover
    have hsame : (p.overflow → s'.x = s.x ∧ s'.y = s.y) ↔ True := iff_true_intro fun h => absurd h hover
    have h1 := p.b1.isLt
    have h2 := p.b2.isLt
    have hdx := p.dx_eq
    have hdy := p.dy_eq
    rw [hsame, true_and, forall_prop_of_true hover, hnewx, hnewy, or_iff_right hover]
    -- one coordinate at a time
    refine and_congr ?_ ?_
    · by_cases hsmall : p.b1.toNat < 128
      · rw [if_pos hsmall, Int.add_zero] at hdx
        rw [hdx]
        exact iff_of_true rfl (.inl hsmall)
      · -- the driver's delta is 256 less than the packet's, so that only the border hides it
        have hneg : p.driverDx < 0 := driverDelta_neg hsmall
        rw [if_neg hsmall] at hdx
        rw [hdx, or_iff_right hsmall]
        unfold clamp
        omega
    · by_cases hsmall : p.b2.toNat < 128
      · rw [if_pos hsmall, Int.add_zero] at hdy
        rw [hdy]
        exact iff_of_true rfl (.inl hsmall)
      · have hneg : p.driverDy < 0 := driverDelta_neg hsmall
        rw [if_neg hsmall] at hdy
        rw [hdy, or_iff_right hsmall]
        unfold clamp
        omega

/-! ## §5. A run. -/

/-- **Mouse packets.**  Take any stream of packets after `mouse_init`.  All of
    them move the pointer as they say exactly if each fits, in the position it
    comes at. -/
theorem mouse_runs_iff {tr : List (Transition Mouse Packet)} (hrun : Run mouseStep mouseInit tr s) :
    (∀ x ∈ tr, Moved x.1 x.2.1 x.2.2) ↔ ∀ x ∈ tr, x.2.1.Fits x.1 := by
  have hsteps : ∀ x ∈ tr, x.1.Inv ∧ mouseStep x.1 x.2.1 x.2.2 :=
    @Run.step_of_mem Mouse Packet mouseStep Mouse.Inv (fun _ _ => True)
      (fun _ _ _ hinv _ hstep => (mousePacket_spec hinv hstep).1) _ _ _ hrun (fun _ _ => trivial)
      mouseInit_inv
  refine forall₂_congr fun x hx => ?_
  obtain ⟨hinv, hstep⟩ := hsteps x hx
  exact mousePacket_iff hinv hstep

end Move

/-- The three calls of the handler for a packet. -/
def feedPacket (p : Packet) (s : Mouse) : Mouse :=
  mouseHandler (mouseHandler (mouseHandler s 0x21 p.b0) 0x21 p.b1) 0x21 p.b2

theorem feedPacket_step (p : Packet) (s : Mouse) : mouseStep s p (feedPacket p s) := by
  have hfrom : FromMouse 0x21 := ⟨by decide, by decide⟩
  exact ⟨0x21, 0x21, 0x21, hfrom, hfrom, hfrom, rfl⟩

/-- The packet of a mouse that moves to the right and up, slowly or fast. -/
def rightUp (b1 b2 : BitVec 8) : Packet := ⟨0x08, b1, b2⟩

theorem feedPacket_run (p : Packet) :
    Run mouseStep mouseInit [(mouseInit, p, feedPacket p mouseInit)] (feedPacket p mouseInit) :=
  (Run.nil mouseInit).snoc (feedPacket_step p mouseInit)

/-- A slow packet. -/
theorem mouse_runs_slow : Moved mouseInit (rightUp 5 3) (feedPacket (rightUp 5 3) mouseInit) := by
  have hall := (mouse_runs_iff (feedPacket_run (rightUp 5 3))).mpr fun x hx => by
    rw [List.mem_singleton.mp hx]
    exact .inr ⟨.inl (by decide), .inl (by decide)⟩
  exact hall _ (List.mem_singleton_self _)

/-- **A fast packet goes the wrong way**: 200 to the right from 400 is 344. -/
theorem fast_packet_left :
    Run mouseStep mouseInit [(mouseInit, rightUp 200 0, feedPacket (rightUp 200 0) mouseInit)]
        (feedPacket (rightUp 200 0) mouseInit) ∧
      ¬ Moved mouseInit (rightUp 200 0) (feedPacket (rightUp 200 0) mouseInit) := by
  refine ⟨feedPacket_run _, fun hmoved => ?_⟩
  have hover : ¬ (rightUp 200 0).overflow := by
    unfold Packet.overflow
    decide
  have hx := (hmoved.2 hover).1
  revert hx
  decide

end ZohoOs
