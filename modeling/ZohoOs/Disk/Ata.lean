/-
  ZohoOs.Disk.Ata — the ATA driver, port by port (ata.c).

  The driver polls the status register until the drive is ready, sends a
  command through the task file, and moves the sector as 256 words through the
  data register.  The drive takes as long as it likes for a command, shows
  what it likes in the status bits beside BSY while it does, and may fail; its
  next answers are the stream `events`.

  Main results:
    * `ata_refines` — behind the driver there is a store of 2^28 sectors that
      may refuse a call: a call that is refused changes nothing, and one that
      is not reads or writes the whole sector `lba` mod 2^28;
    * `ata_error_sticks` — once the drive has reported an error, the driver
      refuses every call: it looks at ERR before it would send a command, and
      only a command clears ERR.
-/
import ZohoOs.Tar.Basic
import ZohoOs.Lib.Transition
import ZohoOs.Lib.Memory
import Mathlib.Logic.Function.Basic

namespace ZohoOs

open ZohoOs.Lib

/-! ## §1. The drive. -/

def ataCmdReadPio : BitVec 8 := 0x20
def ataCmdWritePio : BitVec 8 := 0x30
def ataCmdCacheFlush : BitVec 8 := 0xE7

def ataSrBsy : BitVec 8 := 0x80
def ataSrDrq : BitVec 8 := 0x08
def ataSrErr : BitVec 8 := 0x01

/-- What keeps the drive busy: a command, or storing a sector. -/
inductive AtaJob where
  | read
  | write
  | flush
  | store

/-- What the drive is doing. -/
inductive AtaPhase where
  | idle
  | busy (job : AtaJob)
  /-- The words the host has still to read. -/
  | dataIn (words : List (BitVec 16))
  /-- The words the host has written. -/
  | dataOut (words : List (BitVec 16))
  | failed

/-- What a busy drive does when its status is read. -/
inductive AtaEvent where
  /-- It goes on; the other bits of the status mean nothing. -/
  | working (bits : BitVec 8)
  | finished
  | failed

structure AtaDrive where
  drive : BitVec 8
  seccount : BitVec 8
  lbaLow : BitVec 8
  lbaMid : BitVec 8
  lbaHigh : BitVec 8
  phase : AtaPhase
  sectors : BitVec 28 → Sector
  events : Nat → AtaEvent
  now : Nat

/-- Word `i` of a sector. -/
def Sector.word (s : Sector) (i : Nat) : BitVec 16 :=
  s ⟨(2 * i + 1) % 512, Nat.mod_lt _ (by decide)⟩ ++ s ⟨2 * i % 512, Nat.mod_lt _ (by decide)⟩

/-- A sector from its words. -/
def Sector.ofWords (words : List (BitVec 16)) : Sector := fun i =>
  (words.getD (i / 2) 0).extractLsb' (8 * (i % 2)) 8

namespace AtaDrive

/-- The 28 bits of the address in the task file. -/
def lba (d : AtaDrive) : BitVec 28 := d.drive.extractLsb' 0 4 ++ d.lbaHigh ++ d.lbaMid ++ d.lbaLow

/-- What a drive shows when its phase has come to an end, or does not end by
    itself. -/
def quietStatus : AtaPhase → BitVec 8
  | .idle => 0x40
  | .busy _ => ataSrBsy
  | .dataIn _ => 0x48
  | .dataOut _ => 0x48
  | .failed => 0x41

/-- The phase after a job. -/
def finish (d : AtaDrive) : AtaJob → AtaPhase
  | .read => .dataIn ((List.range 256).map (d.sectors d.lba).word)
  | .write => .dataOut []
  | .flush => .idle
  | .store => .idle

/-- `inb` of the status register. -/
def readStatus (d : AtaDrive) : BitVec 8 × AtaDrive :=
  match d.phase with
  | .busy job =>
      match d.events d.now with
      | .working bits => (ataSrBsy ||| bits, { d with now := d.now + 1 })
      | .finished =>
          (quietStatus (d.finish job), { d with phase := d.finish job, now := d.now + 1 })
      | .failed => (quietStatus .failed, { d with phase := .failed, now := d.now + 1 })
  | p => (quietStatus p, d)

/-- `outb` of the command register; a busy drive ignores it, and a command
    that is none of the driver's is aborted. -/
def writeCommand (d : AtaDrive) (cmd : BitVec 8) : AtaDrive :=
  match d.phase with
  | .busy _ => d
  | _ =>
      { d with
        phase :=
          if cmd = ataCmdReadPio then .busy .read
          else if cmd = ataCmdWritePio then .busy .write
          else if cmd = ataCmdCacheFlush then .busy .flush
          else .failed }

/-- `inw` of the data register. -/
def readData (d : AtaDrive) : BitVec 16 × AtaDrive :=
  match d.phase with
  | .dataIn [] => (0, d)
  | .dataIn [w] => (w, { d with phase := .idle })
  | .dataIn (w :: words) => (w, { d with phase := .dataIn words })
  | _ => (0, d)

/-- `outw` of the data register; with the last word the drive takes the sector
    over. -/
def writeData (d : AtaDrive) (w : BitVec 16) : AtaDrive :=
  match d.phase with
  | .dataOut words =>
      if words.length = 255 then
        { d with
          phase := .busy .store
          sectors := Function.update d.sectors d.lba (.ofWords (words ++ [w])) }
      else { d with phase := .dataOut (words ++ [w]) }
  | _ => d

end AtaDrive

/-! ## §2. The driver. -/

/-- The loop of `ata_wait`, with `timeout` turns left. -/
def ataWaitLoop (bit : BitVec 8) (set : Bool) : Nat → AtaDrive → Int × AtaDrive
  | 0, d => (-2, d)
  | timeout + 1, d =>
      let (status, d) := d.readStatus
      if status &&& ataSrErr ≠ 0 then (-1, d)
      else if decide (status &&& bit ≠ 0) = set then (0, d)
      else ataWaitLoop bit set timeout d

/-- How often `ata_wait` polls. -/
def ataTimeout : Nat := 1000000

def ataWait (bit : BitVec 8) (set : Bool) (d : AtaDrive) : Int × AtaDrive :=
  ataWaitLoop bit set ataTimeout d

/-- The 28-bit LBA command of `ata_read_sector` and `ata_write_sector`. -/
def ataCommand (lba : BitVec 32) (cmd : BitVec 8) (d : AtaDrive) : AtaDrive :=
  let d := { d with
    drive := 0xE0 ||| ((lba >>> 24) &&& 0x0F).setWidth 8
    seccount := 1
    lbaLow := lba.setWidth 8
    lbaMid := (lba >>> 8).setWidth 8
    lbaHigh := (lba >>> 16).setWidth 8 }
  d.writeCommand cmd

/-- `for (i = 0; i < 256; i++) ptr[i] = inw(...)`: the words read. -/
def ataReadWords : Nat → AtaDrive → List (BitVec 16) × AtaDrive
  | 0, d => ([], d)
  | left + 1, d =>
      let (w, d) := d.readData
      let (words, d) := ataReadWords left d
      (w :: words, d)

/-- `for (i = 0; i < 256; i++) outw(..., ptr[i])`. -/
def ataWriteWords (words : List (BitVec 16)) (d : AtaDrive) : AtaDrive :=
  words.foldl AtaDrive.writeData d

/-- `ata_read_sector`: the buffer afterwards. -/
def ataReadSector (lba : BitVec 32) (buffer : Sector) (d : AtaDrive) : Sector × AtaDrive :=
  let (ready, d) := ataWait ataSrBsy false d
  if ready ≠ 0 then (buffer, d)
  else
    let d := ataCommand lba ataCmdReadPio d
    let (ready, d) := ataWait ataSrBsy false d
    if ready ≠ 0 then (buffer, d)
    else
      let (ready, d) := ataWait ataSrDrq true d
      if ready ≠ 0 then (buffer, d)
      else
        let (words, d) := ataReadWords 256 d
        (.ofWords words, d)

/-- `ata_write_sector`. -/
def ataWriteSector (lba : BitVec 32) (buffer : Sector) (d : AtaDrive) : AtaDrive :=
  let (ready, d) := ataWait ataSrBsy false d
  if ready ≠ 0 then d
  else
    let d := ataCommand lba ataCmdWritePio d
    let (ready, d) := ataWait ataSrBsy false d
    if ready ≠ 0 then d
    else
      let (ready, d) := ataWait ataSrDrq true d
      if ready ≠ 0 then d
      else
        let d := ataWriteWords ((List.range 256).map buffer.word) d
        let d := d.writeCommand ataCmdCacheFlush
        (ataWait ataSrBsy false d).2

/-! ## §3. Polling. -/

/-- The drive is not busy. -/
def AtaPhase.Quiet (p : AtaPhase) : Prop := ∀ job, p ≠ .busy job

namespace AtaDrive

/-- Polls until a busy drive is done, at most `turns`: which event comes next
    then, or `none` if it takes longer or something looks like an error. -/
def doneAt (events : Nat → AtaEvent) : (turns now : Nat) → Option Nat
  | 0, _ => none
  | turns + 1, now =>
      match events now with
      | .working bits => if bits &&& ataSrErr ≠ 0 then none else doneAt events turns (now + 1)
      | .finished => some (now + 1)
      | .failed => none

variable {d : AtaDrive} {bit : BitVec 8} {set : Bool}

/-- One poll of `ata_wait`. -/
theorem loop_poll {status : BitVec 8} {d' : AtaDrive} (h : d.readStatus = (status, d'))
    (timeout : Nat) : ataWaitLoop bit set (timeout + 1) d =
      if status &&& ataSrErr ≠ 0 then (-1, d')
      else if decide (status &&& bit ≠ 0) = set then (0, d')
      else ataWaitLoop bit set timeout d' := by
  rw [ataWaitLoop, h]

/-- The first poll of `ata_wait`. -/
theorem wait_poll {status : BitVec 8} {d' : AtaDrive} (h : d.readStatus = (status, d')) :
    ataWait bit set d =
      if status &&& ataSrErr ≠ 0 then (-1, d')
      else if decide (status &&& bit ≠ 0) = set then (0, d')
      else ataWaitLoop bit set (ataTimeout - 1) d' := by
  have hpos : ataTimeout = ataTimeout - 1 + 1 := by decide
  unfold ataWait
  rw [hpos, loop_poll h, ← hpos]

theorem readStatus_quiet (h : d.phase.Quiet) : d.readStatus = (quietStatus d.phase, d) := by
  unfold readStatus
  cases hp : d.phase with
  | busy job => exact absurd hp (h job)
  | _ => rfl

/-- ERR stops the driver at its first poll. -/
theorem wait_failed (h : d.phase = .failed) : ataWait bit set d = (-1, d) := by
  have hq : d.phase.Quiet := by
    rw [h]
    intro job hj
    cases hj
  rw [wait_poll (readStatus_quiet hq), h]
  exact if_pos (by decide)

/-- Neither ERR nor BSY. -/
theorem quiet_status {p : AtaPhase} (h : p.Quiet) (hf : p ≠ .failed) :
    quietStatus p &&& ataSrErr = 0 ∧ quietStatus p &&& ataSrBsy = 0 := by
  cases p with
  | busy job => exact absurd rfl (h job)
  | failed => exact absurd rfl hf
  | idle =>
    show (0x40 : BitVec 8) &&& ataSrErr = 0 ∧ (0x40 : BitVec 8) &&& ataSrBsy = 0
    decide
  | _ =>
    show (0x48 : BitVec 8) &&& ataSrErr = 0 ∧ (0x48 : BitVec 8) &&& ataSrBsy = 0
    decide

/-- Waiting for BSY when the drive is not busy. -/
theorem waitBusy_quiet (h : d.phase.Quiet) (hf : d.phase ≠ .failed) :
    ataWait ataSrBsy false d = (0, d) := by
  obtain ⟨herr, hbsy⟩ := quiet_status h hf
  rw [wait_poll (readStatus_quiet h), herr, hbsy]
  rfl

/-- Waiting for DRQ when there are words to move. -/
theorem waitDrq_ready (h : d.phase.Quiet) (hdata : quietStatus d.phase = 0x48) :
    ataWait ataSrDrq true d = (0, d) := by
  rw [wait_poll (readStatus_quiet h), hdata, if_neg (by decide), if_pos (by decide)]

theorem finish_ne_failed (d : AtaDrive) (job : AtaJob) : d.finish job ≠ .failed := by
  cases job <;> exact fun h => nomatch h

theorem finish_quiet (d : AtaDrive) (job : AtaJob) : (d.finish job).Quiet := by
  cases job <;> exact fun _ h => nomatch h

/-- A poll of a busy drive that goes on with its job. -/
theorem poll_working {job : AtaJob} {bits : BitVec 8} (h : d.phase = .busy job)
    (he : d.events d.now = .working bits) :
    d.readStatus = (ataSrBsy ||| bits, { d with now := d.now + 1 }) := by
  unfold readStatus
  rw [h]
  dsimp only
  rw [he]

theorem poll_finished {job : AtaJob} (h : d.phase = .busy job) (he : d.events d.now = .finished) :
    d.readStatus =
      (quietStatus (d.finish job), { d with phase := d.finish job, now := d.now + 1 }) := by
  unfold readStatus
  rw [h]
  dsimp only
  rw [he]

theorem poll_failed {job : AtaJob} (h : d.phase = .busy job) (he : d.events d.now = .failed) :
    d.readStatus = (0x41, { d with phase := .failed, now := d.now + 1 }) := by
  unfold readStatus
  rw [h]
  dsimp only
  rw [he]
  rfl

/-- BSY is set in what a busy drive shows, and ERR is what the drive makes of
    it. -/
theorem busy_status (bits : BitVec 8) : (ataSrBsy ||| bits) &&& ataSrBsy ≠ 0 ∧
    (ataSrBsy ||| bits) &&& ataSrErr = bits &&& ataSrErr := by
  unfold ataSrBsy ataSrErr
  revert bits
  decide

/-- **Waiting for a busy drive**: it succeeds exactly if the drive is done in
    time, and touches no sector. -/
theorem waitBusy_busy {job : AtaJob} (h : d.phase = .busy job) (timeout : Nat) :
    match doneAt d.events timeout d.now with
    | some k => ataWaitLoop ataSrBsy false timeout d = (0, { d with phase := d.finish job, now := k })
    | none => (ataWaitLoop ataSrBsy false timeout d).1 ≠ 0 ∧
        (ataWaitLoop ataSrBsy false timeout d).2.sectors = d.sectors := by
  induction timeout generalizing d with
  | zero => exact ⟨by simp [ataWaitLoop], rfl⟩
  | succ timeout ih =>
    cases he : d.events d.now with
    | working bits =>
      obtain ⟨hbsy, herr⟩ := busy_status bits
      rw [doneAt, he, loop_poll (poll_working h he), herr]
      dsimp only
      by_cases hb : bits &&& ataSrErr ≠ 0
      · rw [if_pos hb, if_pos hb]
        exact ⟨by simp, rfl⟩
      · rw [if_neg hb, if_neg hb, decide_eq_true hbsy, if_neg (by decide)]
        exact ih (d := { d with now := d.now + 1 }) h
    | finished =>
      obtain ⟨herr, hbsy⟩ := quiet_status (d.finish_quiet job) (d.finish_ne_failed job)
      rw [doneAt, he, loop_poll (poll_finished h he), herr, hbsy]
      rfl
    | failed =>
      rw [doneAt, he, loop_poll (poll_failed h he)]
      dsimp only
      rw [if_pos (by decide)]
      exact ⟨by simp, rfl⟩

/-- Waiting for a busy drive, as the driver does. -/
theorem wait_busy {job : AtaJob} (h : d.phase = .busy job) :
    match doneAt d.events ataTimeout d.now with
    | some k => ataWait ataSrBsy false d = (0, { d with phase := d.finish job, now := k })
    | none => (ataWait ataSrBsy false d).1 ≠ 0 ∧
        (ataWait ataSrBsy false d).2.sectors = d.sectors := by
  unfold ataWait
  exact waitBusy_busy h ataTimeout

/-! ## §4. Moving a sector. -/

/-- `ataReadWords` reads the words there are. -/
theorem readWords_eq {words : List (BitVec 16)} (h : d.phase = .dataIn words) (hne : words ≠ []) :
    ataReadWords words.length d = (words, { d with phase := .idle }) := by
  induction words generalizing d with
  | nil => exact absurd rfl hne
  | cons w words ih =>
    cases words with
    | nil =>
      have hread : d.readData = (w, { d with phase := .idle }) := by
        unfold readData
        rw [h]
      simp only [List.length_cons, List.length_nil, ataReadWords, hread]
    | cons v words =>
      have hread : d.readData = (w, { d with phase := .dataIn (v :: words) }) := by
        unfold readData
        rw [h]
      have hrest := ih (d := { d with phase := .dataIn (v :: words) }) rfl (by simp)
      rw [List.length_cons, ataReadWords, hread]
      dsimp only
      rw [hrest]

/-- `ataWriteWords`, as long as the sector is not complete. -/
theorem writeWords_part {sent words : List (BitVec 16)} (h : d.phase = .dataOut sent)
    (hlen : sent.length + words.length < 256) :
    ataWriteWords words d = { d with phase := .dataOut (sent ++ words) } := by
  induction words generalizing sent d with
  | nil =>
    rw [List.append_nil, ← h]
    rfl
  | cons w words ih =>
    rw [List.length_cons] at hlen
    have hwrite : d.writeData w = { d with phase := .dataOut (sent ++ [w]) } := by
      unfold writeData
      rw [h]
      exact if_neg (by omega)
    rw [ataWriteWords, List.foldl_cons, hwrite]
    refine (ih (d := { d with phase := .dataOut (sent ++ [w]) }) rfl ?_).trans ?_
    · rw [List.length_append, List.length_singleton]
      omega
    · rw [List.append_assoc]
      rfl

/-- `ataWriteWords` of a whole sector. -/
theorem writeWords_all {words : List (BitVec 16)} (h : d.phase = .dataOut [])
    (hlen : words.length = 256) :
    ataWriteWords words d = { d with
      phase := .busy .store
      sectors := Function.update d.sectors d.lba (.ofWords words) } := by
  obtain ⟨init, w, rfl⟩ : ∃ init w, words = init ++ [w] :=
    ⟨words.dropLast, words.getLast (by rintro rfl; cases hlen), (List.dropLast_append_getLast _).symm⟩
  have hinit : init.length = 255 := by
    rw [List.length_append, List.length_singleton] at hlen
    omega
  have hpart : ataWriteWords init d = { d with phase := .dataOut init } :=
    writeWords_part h (by rw [hinit]; decide)
  have hlast : ({ d with phase := .dataOut init } : AtaDrive).writeData w = { d with
      phase := .busy .store
      sectors := Function.update d.sectors d.lba (.ofWords (init ++ [w])) } := by
    unfold writeData
    exact if_pos hinit
  rw [← hlast, ← hpart]
  exact List.foldl_append

end AtaDrive

/-- The words of a sector are the sector. -/
theorem Sector.ofWords_words (s : Sector) : .ofWords ((List.range 256).map s.word) = s := by
  funext i
  have hi : i.val / 2 < 256 := by omega
  unfold Sector.ofWords
  rw [List.getD_eq_getElem _ _ (by simpa using hi), List.getElem_map, List.getElem_range]
  unfold Sector.word
  rcases Nat.mod_two_eq_zero_or_one i.val with hm | hm
  · have hlow : (⟨2 * (i.val / 2) % 512, Nat.mod_lt _ (by decide)⟩ : Fin 512) = i :=
      Fin.ext (by simp; omega)
    rw [hm, hlow, Mem.extractLsb'_append_low _ _ (by omega)]
    exact BitVec.extractLsb'_eq_self
  · have hhigh : (⟨(2 * (i.val / 2) + 1) % 512, Nat.mod_lt _ (by decide)⟩ : Fin 512) = i :=
      Fin.ext (by simp; omega)
    rw [hm, hhigh, Mem.extractLsb'_append_high _ _ (by omega)]
    exact BitVec.extractLsb'_eq_self

namespace AtaDrive

theorem taskFile_lba (lba : BitVec 32) :
    (0xE0 ||| ((lba >>> 24) &&& 0x0F).setWidth 8 : BitVec 8).extractLsb' 0 4 ++
      ((lba >>> 16).setWidth 8 : BitVec 8) ++ ((lba >>> 8).setWidth 8 : BitVec 8) ++
      (lba.setWidth 8 : BitVec 8) = lba.setWidth 28 := by
  ext i hi
  simp only [BitVec.getElem_append, BitVec.getElem_setWidth, BitVec.getLsbD_ushiftRight,
    BitVec.getElem_extractLsb', BitVec.getLsbD_or, BitVec.getLsbD_and, BitVec.getLsbD_setWidth]
  -- one case for each register
  split
  · rfl
  · split
    · congr 1
      omega
    · split
      · congr 1
        omega
      · obtain ⟨j, rfl⟩ : ∃ j, i = 24 + j := ⟨i - 24, by omega⟩
        have hj : j = 0 ∨ j = 1 ∨ j = 2 ∨ j = 3 := by omega
        rcases hj with rfl | rfl | rfl | rfl <;> simp

/-- A drive that is not busy takes the command, for the low 28 bits of the
    address. -/
theorem command_eq (lba : BitVec 32) (h : d.phase.Quiet) (cmd : BitVec 8) :
    (ataCommand lba cmd d).lba = lba.setWidth 28 ∧
      (ataCommand lba cmd d).sectors = d.sectors ∧
      (ataCommand lba cmd d).events = d.events ∧ (ataCommand lba cmd d).now = d.now ∧
      (ataCommand lba cmd d).phase =
        if cmd = ataCmdReadPio then .busy .read
        else if cmd = ataCmdWritePio then .busy .write
        else if cmd = ataCmdCacheFlush then .busy .flush
        else .failed := by
  unfold ataCommand writeCommand
  cases hp : d.phase with
  | busy job => exact absurd hp (h job)
  | _ => exact ⟨taskFile_lba lba, rfl, rfl, rfl, rfl⟩

/-! ## §5. The calls. -/

/-- **Whether the drive serves the next call**: what it is busy with is done in
    time, and so is the command of the call; and it has not failed. -/
def Serves (d : AtaDrive) : Bool :=
  match d.phase with
  | .failed => false
  | .busy _ => ((doneAt d.events ataTimeout d.now).bind (doneAt d.events ataTimeout)).isSome
  | _ => (doneAt d.events ataTimeout d.now).isSome

/-- The first wait of a call: the drive then is not busy, or the call gives
    up. -/
inductive EntryWait (d : AtaDrive) : Int × AtaDrive → Prop
  | ready (d' : AtaDrive) (hq : d'.phase.Quiet) (hsectors : d'.sectors = d.sectors)
      (hserves : d.Serves = (doneAt d'.events ataTimeout d'.now).isSome) : EntryWait d (0, d')
  | refused (e : Int) (d' : AtaDrive) (he : e ≠ 0) (hsectors : d'.sectors = d.sectors)
      (hserves : d.Serves = false) : EntryWait d (e, d')

theorem entry_wait (d : AtaDrive) : EntryWait d (ataWait ataSrBsy false d) := by
  by_cases hf : d.phase = .failed
  · have hwait : ataWait ataSrBsy false d = (-1, d) := wait_failed hf
    rw [hwait]
    refine .refused _ _ (by simp) rfl ?_
    unfold Serves
    rw [hf]
  · by_cases hq : d.phase.Quiet
    · have hwait : ataWait ataSrBsy false d = (0, d) := waitBusy_quiet hq hf
      rw [hwait]
      refine .ready _ hq rfl ?_
      unfold Serves
      cases hp : d.phase with
      | busy job => exact absurd hp (hq job)
      | failed => exact absurd hp hf
      | _ => rfl
    · obtain ⟨job, hp⟩ : ∃ job, d.phase = .busy job := by
        simpa [AtaPhase.Quiet] using hq
      have hserves : d.Serves =
          ((doneAt d.events ataTimeout d.now).bind (doneAt d.events ataTimeout)).isSome := by
        unfold Serves
        rw [hp]
      have hwait := wait_busy hp
      cases hdone : doneAt d.events ataTimeout d.now with
      | some k =>
        rw [hdone] at hwait
        rw [hdone, Option.bind_some] at hserves
        rw [hwait]
        exact .ready _ (d.finish_quiet job) rfl hserves
      | none =>
        rw [hdone] at hwait hserves
        rw [← Prod.mk.eta (p := ataWait ataSrBsy false d)]
        exact .refused _ _ hwait.1 hwait.2 hserves

/-- The second and the third wait of a call, after its command. -/
theorem command_wait {job : AtaJob} (h : d.phase = .busy job)
    (hdata : quietStatus (d.finish job) = 0x48) :
    match doneAt d.events ataTimeout d.now with
    | some k =>
        ataWait ataSrBsy false d = (0, { d with phase := d.finish job, now := k }) ∧
          ataWait ataSrDrq true { d with phase := d.finish job, now := k } =
            (0, { d with phase := d.finish job, now := k })
    | none => (ataWait ataSrBsy false d).1 ≠ 0 ∧ (ataWait ataSrBsy false d).2.sectors = d.sectors := by
  have hwait := wait_busy h
  cases hdone : doneAt d.events ataTimeout d.now with
  | some k =>
    rw [hdone] at hwait
    exact ⟨hwait, waitDrq_ready (d.finish_quiet job) hdata⟩
  | none =>
    rw [hdone] at hwait
    exact hwait

/-- Waiting touches no sector. -/
theorem wait_sectors (d : AtaDrive) : (ataWait ataSrBsy false d).2.sectors = d.sectors := by
  have h := d.entry_wait
  generalize ataWait ataSrBsy false d = w at h ⊢
  cases h with
  | ready d' _ hsectors _ => exact hsectors
  | refused e d' _ hsectors _ => exact hsectors

theorem writeCommand_sectors (d : AtaDrive) (cmd : BitVec 8) :
    (d.writeCommand cmd).sectors = d.sectors := by
  unfold writeCommand
  split <;> rfl

end AtaDrive

/-- **`ata_read_sector`**: the whole sector if the drive serves the call, and
    otherwise the buffer as it was. -/
theorem ataReadSector_eq (lba : BitVec 32) (buffer : Sector) (d : AtaDrive) :
    (ataReadSector lba buffer d).1 = (if d.Serves then d.sectors (lba.setWidth 28) else buffer) ∧
      (ataReadSector lba buffer d).2.sectors = d.sectors := by
  have hentry := d.entry_wait
  unfold ataReadSector
  generalize ataWait ataSrBsy false d = w at hentry
  cases hentry with
  | refused e d' he hsectors hserves =>
    dsimp only
    rw [if_pos he, hserves]
    exact ⟨rfl, hsectors⟩
  | ready d' hq hsectors hserves =>
    obtain ⟨hlba, hsect, hevents, hnow, hphase⟩ := AtaDrive.command_eq lba hq ataCmdReadPio
    dsimp only
    rw [if_neg (by simp)]
    set c := ataCommand lba ataCmdReadPio d' with hc
    have hbusy : c.phase = .busy .read := hphase
    have hwait := AtaDrive.command_wait hbusy rfl
    rw [← hevents, ← hnow] at hserves
    cases hdone : AtaDrive.doneAt c.events ataTimeout c.now with
    | none =>
      rw [hdone] at hwait hserves
      rw [if_pos hwait.1, hserves]
      exact ⟨rfl, hwait.2.trans (hsect.trans hsectors)⟩
    | some k =>
      rw [hdone] at hwait hserves
      obtain ⟨hbsy, hdrq⟩ := hwait
      rw [hbsy]
      dsimp only
      rw [if_neg (by simp), hdrq]
      dsimp only
      rw [if_neg (by simp)]
      have hin : ({ c with phase := c.finish .read, now := k } : AtaDrive).phase =
          .dataIn ((List.range 256).map (c.sectors c.lba).word) := rfl
      have hwords := AtaDrive.readWords_eq hin (by simp)
      rw [List.length_map, List.length_range] at hwords
      rw [hwords, hserves]
      dsimp only
      rw [Sector.ofWords_words, hlba, hsect, hsectors]
      exact ⟨rfl, rfl⟩

/-- **`ata_write_sector`**: the whole sector if the drive serves the call, and
    otherwise nothing. -/
theorem ataWriteSector_eq (lba : BitVec 32) (buffer : Sector) (d : AtaDrive) :
    (ataWriteSector lba buffer d).sectors =
      if d.Serves then Function.update d.sectors (lba.setWidth 28) buffer else d.sectors := by
  have hentry := d.entry_wait
  unfold ataWriteSector
  generalize ataWait ataSrBsy false d = w at hentry
  cases hentry with
  | refused e d' he hsectors hserves =>
    dsimp only
    rw [if_pos he, hserves]
    exact hsectors
  | ready d' hq hsectors hserves =>
    obtain ⟨hlba, hsect, hevents, hnow, hphase⟩ := AtaDrive.command_eq lba hq ataCmdWritePio
    dsimp only
    rw [if_neg (by simp)]
    set c := ataCommand lba ataCmdWritePio d' with hc
    have hbusy : c.phase = .busy .write := hphase
    have hwait := AtaDrive.command_wait hbusy rfl
    rw [← hevents, ← hnow] at hserves
    cases hdone : AtaDrive.doneAt c.events ataTimeout c.now with
    | none =>
      rw [hdone] at hwait hserves
      rw [if_pos hwait.1, hserves]
      exact hwait.2.trans (hsect.trans hsectors)
    | some k =>
      rw [hdone] at hwait hserves
      obtain ⟨hbsy, hdrq⟩ := hwait
      rw [hbsy]
      dsimp only
      rw [if_neg (by simp), hdrq]
      dsimp only
      rw [if_neg (by simp)]
      have hout : ({ c with phase := c.finish .write, now := k } : AtaDrive).phase =
          .dataOut [] := rfl
      have hlen : ((List.range 256).map buffer.word).length = 256 := by simp
      have hwords := AtaDrive.writeWords_all hout hlen
      rw [hwords, Sector.ofWords_words, hserves]
      -- the drive has the sector; the wait for the flush may still fail
      refine (AtaDrive.wait_sectors _).trans ?_
      rw [AtaDrive.writeCommand_sectors, ← hlba, ← hsectors, ← hsect]
      rfl

/-! ## §6. The disk that the file systems see. -/

/-- The disk of `tar.c`, `ext2.c` and `vfs.c`, for the next call. -/
def AtaDrive.disk (d : AtaDrive) : AtaDisk :=
  ⟨fun lba => d.sectors (lba.setWidth 28), fun _ => d.Serves⟩

theorem ataReadSector_disk (lba : BitVec 32) (buffer : Sector) (d : AtaDrive) :
    (ataReadSector lba buffer d).1 = (d.disk.read lba).getD buffer := by
  rw [(ataReadSector_eq lba buffer d).1]
  unfold AtaDisk.read AtaDrive.disk
  by_cases hserves : d.Serves = true
  · simp [hserves]
  · simp [hserves]

theorem lba_inj {lba lba' : BitVec 32} (h : lba.toNat < 2 ^ 28) (h' : lba'.toNat < 2 ^ 28) :
    lba.setWidth 28 = lba'.setWidth 28 ↔ lba = lba' := by
  constructor
  · intro heq
    have hval := congrArg BitVec.toNat heq
    rw [BitVec.toNat_setWidth, BitVec.toNat_setWidth, Nat.mod_eq_of_lt h, Nat.mod_eq_of_lt h'] at hval
    exact BitVec.eq_of_toNat_eq hval
  · exact congrArg _

/-- On the 2^28 sectors that the command can name, a write is one of that
    disk. -/
theorem ataWriteSector_disk {lba lba' : BitVec 32} (h : lba.toNat < 2 ^ 28)
    (h' : lba'.toNat < 2 ^ 28) (buffer : Sector) (d : AtaDrive) :
    (ataWriteSector lba buffer d).disk.sectors lba' = (d.disk.write lba buffer).sectors lba' := by
  show (ataWriteSector lba buffer d).sectors (lba'.setWidth 28) = _
  rw [ataWriteSector_eq]
  unfold AtaDisk.write AtaDrive.disk
  dsimp only
  by_cases hserves : d.Serves = true
  · rw [if_pos hserves, if_pos hserves]
    dsimp only
    by_cases heq : lba' = lba
    · rw [heq, Function.update_self, Function.update_self]
    · have hne : lba'.setWidth 28 ≠ lba.setWidth 28 := fun hsame => heq ((lba_inj h' h).mp hsame)
      rw [Function.update_of_ne hne, Function.update_of_ne heq]
  · rw [if_neg hserves, if_neg hserves]

/-! ## §7. Runs of the driver. -/

/-- A call and what comes of it. -/
inductive DiskCall where
  | read (lba : BitVec 32) (buffer result : Sector)
  | write (lba : BitVec 32) (data : Sector)

/-- A call of the driver, and whether the drive served it. -/
inductive AtaStep : AtaDrive → DiskCall × Bool → AtaDrive → Prop
  | read (d : AtaDrive) (lba : BitVec 32) (buffer : Sector) :
      AtaStep d (.read lba buffer (ataReadSector lba buffer d).1, d.Serves)
        (ataReadSector lba buffer d).2
  | write (d : AtaDrive) (lba : BitVec 32) (data : Sector) :
      AtaStep d (.write lba data, d.Serves) (ataWriteSector lba data d)

/-- The sectors as they should be: 2^28 of them, which a call that is served
    reads or writes. -/
inductive StoreStep : (BitVec 28 → Sector) → DiskCall × Bool → (BitVec 28 → Sector) → Prop
  | read (s : BitVec 28 → Sector) (lba : BitVec 32) (buffer : Sector) (served : Bool) :
      StoreStep s (.read lba buffer (if served then s (lba.setWidth 28) else buffer), served) s
  | write (s : BitVec 28 → Sector) (lba : BitVec 32) (data : Sector) (served : Bool) :
      StoreStep s (.write lba data, served)
        (if served then Function.update s (lba.setWidth 28) data else s)

/-- One call. -/
theorem ataStep_refines {d d' : AtaDrive} {a : DiskCall × Bool} (h : AtaStep d a d') :
    StoreStep d.sectors a d'.sectors := by
  cases h with
  | read lba buffer =>
    obtain ⟨hresult, hsectors⟩ := ataReadSector_eq lba buffer d
    rw [hresult, hsectors]
    exact .read d.sectors lba buffer d.Serves
  | write lba data =>
    rw [ataWriteSector_eq]
    exact .write d.sectors lba data d.Serves

/-- **Behind the driver there is a store**: the calls of every run have the
    results they have on 2^28 sectors, of which a call that is refused reads
    and writes none. -/
theorem ata_refines {d d' : AtaDrive} {tr : List (Transition AtaDrive (DiskCall × Bool))}
    (hrun : Run AtaStep d tr d') :
    ∃ tr', Run StoreStep d.sectors tr' d'.sectors ∧ Run.labels tr' = Run.labels tr := by
  obtain ⟨tr', s, hrun', hlab, hs⟩ := hrun.simulate (R := fun d s => d.sectors = s)
    (fun d a d' s hs hst => ⟨d'.sectors, hs ▸ ataStep_refines hst, rfl⟩) rfl
  exact ⟨tr', hs ▸ hrun', hlab⟩

/-- A drive that finishes what it does at the first poll. -/
def quickDrive (phase : AtaPhase) : AtaDrive :=
  { drive := 0, seccount := 0, lbaLow := 0, lbaMid := 0, lbaHigh := 0, phase
    sectors := fun _ _ => 0, events := fun _ => .finished, now := 0 }

theorem quickDrive_serves : (quickDrive .idle).Serves = true := by
  have hdone : AtaDrive.doneAt (fun _ => .finished) (ataTimeout - 1 + 1) 0 = some 1 := rfl
  show (AtaDrive.doneAt (fun _ => .finished) ataTimeout 0).isSome = true
  rw [show ataTimeout = ataTimeout - 1 + 1 by decide, hdone]
  rfl

/-- `ata_refines` for a call that writes sector 5. -/
theorem ata_refines_write : ∃ tr' s', Run StoreStep (fun _ _ => 0) tr' s' ∧
    Run.labels tr' = [(.write 5 fun _ => 7, true)] := by
  have hwrite := AtaStep.write (quickDrive .idle) 5 fun _ => 7
  rw [quickDrive_serves] at hwrite
  obtain ⟨tr', hrun, hlab⟩ := ata_refines ((Run.nil _).snoc hwrite)
  exact ⟨tr', _, hrun, hlab⟩

/-- No call gets past the first poll of a drive that shows ERR. -/
theorem failed_calls {d : AtaDrive} (h : d.phase = .failed) (lba : BitVec 32) (buffer : Sector) :
    ataReadSector lba buffer d = (buffer, d) ∧ ataWriteSector lba buffer d = d ∧
      d.Serves = false := by
  have hwait : ataWait ataSrBsy false d = (-1, d) := AtaDrive.wait_failed h
  have hserves : d.Serves = false := by
    unfold AtaDrive.Serves
    rw [h]
  unfold ataReadSector ataWriteSector
  rw [hwait]
  dsimp only
  rw [if_pos (by decide), if_pos (by decide)]
  exact ⟨rfl, rfl, hserves⟩

/-- The call is refused, and a buffer keeps its bytes. -/
def DiskCall.Refused : DiskCall × Bool → Prop
  | (.read _ buffer result, served) => served = false ∧ result = buffer
  | (.write _ _, served) => served = false

theorem failed_step {d d' : AtaDrive} {a : DiskCall × Bool} (h : d.phase = .failed)
    (hst : AtaStep d a d') : d' = d ∧ DiskCall.Refused a := by
  cases hst with
  | read lba buffer =>
    obtain ⟨hread, -, hserves⟩ := failed_calls h lba buffer
    rw [hread]
    exact ⟨rfl, hserves, rfl⟩
  | write lba data =>
    obtain ⟨-, hwrite, hserves⟩ := failed_calls h lba data
    exact ⟨hwrite, hserves⟩

/-- **An error sticks**: after the drive has reported an error, the driver
    refuses every call, and the drive never hears of one again. -/
theorem ata_error_sticks {d d' : AtaDrive} {tr : List (Transition AtaDrive (DiskCall × Bool))}
    (hrun : Run AtaStep d tr d') (hf : d.phase = .failed) :
    d' = d ∧ ∀ a ∈ Run.labels tr, DiskCall.Refused a := by
  induction hrun with
  | nil => exact ⟨rfl, by simp⟩
  | snoc _ hst ih =>
    -- the drive is still the one of the start when the last call comes
    obtain ⟨rfl, hall⟩ := ih
    obtain ⟨rfl, hrefused⟩ := failed_step hf hst
    refine ⟨rfl, ?_⟩
    intro a ha
    rw [Run.labels_append, List.mem_append] at ha
    rcases ha with ha | ha
    · exact hall a ha
    · have hlast := List.mem_singleton.mp ha
      rw [hlast]
      exact hrefused

/-- `ata_error_sticks` for a drive that has failed and a call that reads. -/
theorem ata_error_sticks_read : ∃ d' tr, Run AtaStep (quickDrive .failed) tr d' ∧
    d' = quickDrive .failed ∧ (Run.labels tr).length = 1 ∧
    ∀ a ∈ Run.labels tr, DiskCall.Refused a := by
  have hread := AtaStep.read (quickDrive .failed) 5 fun _ => 0
  have hrun := (Run.nil _).snoc hread
  obtain ⟨hsame, hrefused⟩ := ata_error_sticks hrun rfl
  exact ⟨_, _, hrun, hsame, rfl, hrefused⟩

end ZohoOs
