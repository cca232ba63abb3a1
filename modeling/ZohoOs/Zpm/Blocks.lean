/-
  ZohoOs.Zpm.Blocks — one entry of a package.

  The package is read block by block, whether or not the file of the entry
  could be opened; of the last block as much is written as is left.  So the
  package's offset is at the next header afterwards, and what the entry's
  file held behind the bytes that were written stays there.

    * `copyBlocks_granted`, `copyBlocks_refused` — the loop over the blocks;
    * `installEntry_eq` — an entry, from its header on.
-/
import ZohoOs.Zpm.Paths

namespace ZohoOs.Zpm

open ZohoOs.Lib

/-! ## §1. The blocks of an entry. -/

section Blocks

variable {s : OpenFiles Text} {fd fdPkg : FileNo} {path target : Text} {off w : Nat}

theorem update_pair {A B : Type} [DecidableEq A] {a b : A} (hab : a ≠ b) (f : A → B) (x x' y y' : B) :
    Function.update (Function.update (Function.update (Function.update f a x) b y) a x') b y' =
      Function.update (Function.update f a x') b y' := by
  rw [Function.update_comm hab.symm y x' (Function.update f a x), Function.update_idem, Function.update_idem]

/-- **A block of the package.** -/
theorem readNext_block {whole rest : Text} {blocks : Nat} (hfd : s.fds fdPkg = some (.file path off))
    (hrest : (s.content path).drop off = whole ++ rest) (hlen : whole.length = 512 * (blocks + 1)) :
    s.readNext fdPkg 512 = (some (whole.take 512),
      { s with
        fds := Function.update s.fds fdPkg (some (.file path (off + 512)))
        calls := s.calls ++ [.read fdPkg (whole.take 512)] }) := by
  have htake : (whole ++ rest).take 512 = whole.take 512 := List.take_append_of_le_length (by omega)
  rw [OpenFiles.readNext_file hfd, hrest, htake, List.length_take_of_le (by omega)]

/-- What is left of the package behind a block. -/
theorem drop_block {content whole rest : Text} {blocks : Nat} (hrest : content.drop off = whole ++ rest)
    (hlen : whole.length = 512 * (blocks + 1)) : content.drop (off + 512) = whole.drop 512 ++ rest := by
  rw [← List.drop_drop, hrest, List.drop_append_of_le_length (by omega)]

/-- **A block that is written**: all of it, or what is left of the data. -/
theorem copyBlocks_step {data pad rest : Text} {blocks : Nat} (hne : fdPkg ≠ fd)
    (hpkg : s.fds fdPkg = some (.file path off)) (hfd : s.fds fd = some (.file target w))
    (hrest : (s.content path).drop off = (data ++ pad) ++ rest) (hlen : (data ++ pad).length = 512 * (blocks + 1)) :
    copyBlocks fdPkg (some fd) (blocks + 1) data.length s = copyBlocks fdPkg (some fd) blocks (data.drop 512).length
      { s with
        files := Function.update s.files target (some (overwrite (s.content target) w (data.take 512)))
        fds := Function.update (Function.update s.fds fdPkg (some (.file path (off + 512)))) fd
          (some (.file target (w + (data.take 512).length)))
        calls := s.calls ++ [.read fdPkg ((data ++ pad).take 512)] ++ [.wrote fd (data.take 512)] } := by
  have hfull : ((data ++ pad).take 512).length = 512 := List.length_take_of_le (by omega)
  have hbuffer : (data ++ pad).take 512 ++ (List.replicate 512 0).drop ((data ++ pad).take 512).length
      = (data ++ pad).take 512 := by
    rw [hfull, List.drop_eq_nil_of_le (by rw [List.length_replicate]), List.append_nil]
  have hchunk : ((data ++ pad).take 512).take (if data.length < 512 then data.length else 512) = data.take 512 := by
    split
    · rename_i hlt
      rw [List.take_take, Nat.min_eq_left hlt.le, List.take_left, List.take_of_length_le hlt.le]
    · rename_i hge
      rw [List.take_take, Nat.min_self, List.take_append_of_le_length (by omega)]
  have hleft : data.length - (if data.length < 512 then data.length else 512) = (data.drop 512).length := by
    rw [List.length_drop]
    split <;> omega
  rw [copyBlocks, readNext_block hpkg hrest hlen]
  show copyBlocks fdPkg (some fd) blocks _
    (OpenFiles.writeNext _ fd
      (((data ++ pad).take 512 ++ (List.replicate 512 0).drop ((data ++ pad).take 512).length).take _)) = _
  rw [hbuffer, hchunk, hleft, OpenFiles.writeNext_file]
  · rfl
  · show Function.update s.fds fdPkg _ fd = some (.file target w)
    rw [Function.update_of_ne hne.symm, hfd]

/-- The data that a block leaves, with their padding. -/
theorem drop_data (data pad : Text) :
    (data ++ pad).drop 512 = data.drop 512 ++ pad.drop (512 - data.length) := List.drop_append

/-- **The blocks of an entry whose file is open**: the file holds the data
    from where it stood on. -/
theorem copyBlocks_granted {data pad rest content : Text} {blocks : Nat} (hne : fdPkg ≠ fd) (hpath : target ≠ path)
    (hpkg : s.fds fdPkg = some (.file path off)) (hfd : s.fds fd = some (.file target w))
    (hcontent : s.files target = some content) (hw : w ≤ content.length)
    (hrest : (s.content path).drop off = (data ++ pad) ++ rest) (hlen : (data ++ pad).length = 512 * blocks) :
    ∃ log, copyBlocks fdPkg (some fd) blocks data.length s =
        { s with
          files := Function.update s.files target (some (overwrite content w data))
          fds := Function.update (Function.update s.fds fdPkg (some (.file path (off + 512 * blocks)))) fd
            (some (.file target (w + data.length)))
          calls := s.calls ++ log } ∧
      FileCall.opensOf log = [] ∧ FileCall.closesOf log = [] ∧ FileCall.bytesRead fdPkg log = data ++ pad ∧
      FileCall.bytesWritten fd log = data := by
  induction blocks generalizing s data pad off w content with
  | zero =>
    -- no block is left: no byte of data and none of padding
    obtain ⟨rfl, rfl⟩ := List.append_eq_nil_iff.mp (List.eq_nil_of_length_eq_zero hlen)
    refine ⟨[], ?_, rfl, rfl, rfl, rfl⟩
    have hsame : overwrite content w [] = content := by
      rw [overwrite_within hw, List.append_nil, List.length_nil, Nat.add_zero, List.take_append_drop]
    rw [hsame, ← hcontent, Function.update_eq_self, Nat.mul_zero, Nat.add_zero, ← hpkg, Function.update_eq_self,
      List.length_nil, Nat.add_zero, ← hfd, Function.update_eq_self, List.append_nil]
    rfl
  | succ blocks ih =>
    have hold : s.content target = content := by
      rw [OpenFiles.content, hcontent]
      rfl
    -- one block: the next 512 bytes are read, and those of them that are data are written
    have hcut : w + (data.take 512).length ≤ (overwrite content w (data.take 512)).length := by
      rw [overwrite_within hw, List.length_append, List.length_append, List.length_take_of_le hw]
      exact Nat.le_add_right _ _
    have hdrop := drop_block hrest hlen
    rw [drop_data] at hdrop
    have hlen' : (data.drop 512 ++ pad.drop (512 - data.length)).length = 512 * blocks := by
      rw [← drop_data, List.length_drop]
      omega
    rw [copyBlocks_step hne hpkg hfd hrest hlen, hold]
    have hpkg' : Function.update (Function.update s.fds fdPkg (some (.file path (off + 512)))) fd
        (some (.file target (w + (data.take 512).length))) fdPkg = some (.file path (off + 512)) := by
      rw [Function.update_of_ne hne, Function.update_self]
    have hfd' : Function.update (Function.update s.fds fdPkg (some (.file path (off + 512)))) fd
        (some (.file target (w + (data.take 512).length))) fd = some (.file target (w + (data.take 512).length)) :=
      Function.update_self _ _ _
    have hcontent' : Function.update s.files target (some (overwrite content w (data.take 512))) target
        = some (overwrite content w (data.take 512)) := Function.update_self _ _ _
    have hrest' : ((Function.update s.files target (some (overwrite content w (data.take 512))) path).getD []).drop
        (off + 512) = data.drop 512 ++ pad.drop (512 - data.length) ++ rest := by
      rw [Function.update_of_ne (Ne.symm hpath)]
      exact hdrop
    -- what is left is read from 512 bytes further, and written behind this block
    obtain ⟨log, hrun, hopens, hcloses, hreads, hwrites⟩ := @ih
      { s with
        files := Function.update s.files target (some (overwrite content w (data.take 512)))
        fds := Function.update (Function.update s.fds fdPkg (some (.file path (off + 512)))) fd
          (some (.file target (w + (data.take 512).length)))
        calls := s.calls ++ [.read fdPkg ((data ++ pad).take 512)] ++ [.wrote fd (data.take 512)] }
      (off + 512) (w + (data.take 512).length) (data.drop 512) (pad.drop (512 - data.length))
      (overwrite content w (data.take 512)) hpkg' hfd' hcontent' hcut hrest' hlen'
    refine ⟨[.read fdPkg ((data ++ pad).take 512)] ++ ([.wrote fd (data.take 512)] ++ log), ?_, ?_, ?_, ?_, ?_⟩
    · have hoff : off + 512 + 512 * blocks = off + 512 * (blocks + 1) := by omega
      have hlast : w + (data.take 512).length + (data.drop 512).length = w + data.length := by
        rw [Nat.add_assoc, ← List.length_append, List.take_append_drop]
      rw [hrun]
      dsimp only
      rw [Function.update_idem, overwrite_append hw, List.take_append_drop, update_pair hne, hoff, hlast,
        List.append_assoc, List.append_assoc]
    · rw [FileCall.opensOf_append, FileCall.opensOf_append, hopens]
      rfl
    · rw [FileCall.closesOf_append, FileCall.closesOf_append, hcloses]
      rfl
    · rw [FileCall.bytesRead_append, FileCall.bytesRead_append, hreads, ← drop_data]
      show (if fdPkg = fdPkg then _ else _) ++ [] ++ ([] ++ _) = _
      rw [if_pos rfl, List.append_nil, List.nil_append, List.take_append_drop]
    · rw [FileCall.bytesWritten_append, FileCall.bytesWritten_append, hwrites]
      show [] ++ ((if fd = fd then _ else _) ++ [] ++ _) = _
      rw [if_pos rfl, List.append_nil, List.nil_append, List.take_append_drop]

/-- **The blocks of an entry whose file was refused** are read all the same. -/
theorem copyBlocks_refused {whole rest : Text} {blocks : Nat} (remaining : Nat)
    (hpkg : s.fds fdPkg = some (.file path off)) (hrest : (s.content path).drop off = whole ++ rest)
    (hlen : whole.length = 512 * blocks) :
    ∃ log, copyBlocks fdPkg none blocks remaining s =
        { s with
          fds := Function.update s.fds fdPkg (some (.file path (off + 512 * blocks)))
          calls := s.calls ++ log } ∧
      FileCall.opensOf log = [] ∧ FileCall.closesOf log = [] ∧ FileCall.bytesRead fdPkg log = whole ∧
      ∀ fd, FileCall.bytesWritten fd log = [] := by
  induction blocks generalizing s whole off with
  | zero =>
    obtain rfl := List.eq_nil_of_length_eq_zero hlen
    refine ⟨[], ?_, rfl, rfl, rfl, fun _ => rfl⟩
    rw [Nat.mul_zero, Nat.add_zero, ← hpkg, Function.update_eq_self, List.append_nil]
    rfl
  | succ blocks ih =>
    have hdrop := drop_block hrest hlen
    have hlen' : (whole.drop 512).length = 512 * blocks := by
      rw [List.length_drop]
      omega
    obtain ⟨log, hrun, hopens, hcloses, hreads, hwrites⟩ := @ih
      { s with
        fds := Function.update s.fds fdPkg (some (.file path (off + 512)))
        calls := s.calls ++ [.read fdPkg (whole.take 512)] }
      (off + 512) (whole.drop 512) (Function.update_self _ _ _) hdrop hlen'
    refine ⟨[.read fdPkg (whole.take 512)] ++ log, ?_, ?_, ?_, ?_, fun fd => ?_⟩
    · have hoff : off + 512 + 512 * blocks = off + 512 * (blocks + 1) := by omega
      rw [copyBlocks, readNext_block hpkg hrest hlen]
      show copyBlocks fdPkg none blocks remaining _ = _
      rw [hrun]
      dsimp only
      rw [Function.update_idem, hoff, List.append_assoc]
    · rw [FileCall.opensOf_append, hopens]
      rfl
    · rw [FileCall.closesOf_append, hcloses]
      rfl
    · rw [FileCall.bytesRead_append, hreads]
      show (if fdPkg = fdPkg then _ else _) ++ [] ++ _ = _
      rw [if_pos rfl, List.append_nil, List.take_append_drop]
    · rw [FileCall.bytesWritten_append, hwrites]
      rfl

end Blocks

/-! ## §2. An entry. -/

/-- What an entry's file holds afterwards: the data, and what stood behind. -/
def TarEntry.left (e : TarEntry) (files : Text → Option Text) : Text :=
  e.data ++ ((files e.path).getD []).drop e.data.length

/-- The files after an entry whose file was opened with `answer`. -/
def installed (answer : Option FileNo) (path left : Text) (files : Text → Option Text) : Text → Option Text :=
  match answer with
  | some _ => Function.update files path (some left)
  | none => files

/-- **The calls for an entry**: its file is opened, its blocks are read, its
    data are written, and the file is closed with `left` for its content; or
    the open fails, and the blocks are read. -/
structure EntryCalls (fdPkg : FileNo) (answer : Option FileNo) (e : TarEntry) (left : Text)
    (log : List (FileCall Text)) : Prop where
  opened : FileCall.opensOf log = [(e.path, true, answer)]
  consumed : FileCall.bytesRead fdPkg log = e.bytes
  written : ∀ fd, answer = some fd → FileCall.bytesWritten fd log = e.data
  quiet : answer = none → ∀ fd, FileCall.bytesWritten fd log = []
  closed : FileCall.closesOf log = answer.toList.map fun fd => (fd, left)

section Entry

variable {grant : Nat → Option FileNo} {s : OpenFiles Text} {fdTty fdPkg : FileNo} {path rest : Text} {off : Nat}
  {e : TarEntry}

theorem sysOpen_creat (s : OpenFiles Text) (path : Text) : sysOpen grant s path oCreat = (grant s.opens,
    { s with
      files := installed (grant s.opens) path (s.content path) s.files
      fds := match grant s.opens with
        | some fd => Function.update s.fds fd (some (.file path 0))
        | none => s.fds
      opens := s.opens + 1
      calls := s.calls ++ [.opened path true (grant s.opens)] }) := by
  have hcreate : decide (oCreat &&& oCreat ≠ 0) = true := by decide
  rw [sysOpen, hcreate, OpenFiles.openPath, if_pos (Or.inr rfl)]
  cases grant s.opens with
  | none => rfl
  | some fd => rfl

/-- `t` has more on its console than `s`, and is the same otherwise. -/
def Shown (s t : OpenFiles Text) : Prop := ∃ console, t = { s with console := console }

theorem Shown.write {t : OpenFiles Text} (h : Shown s t) (htty : s.fds fdTty = some .console) (bytes : Text) :
    Shown s (t.writeNext fdTty bytes) := by
  obtain ⟨console, rfl⟩ := h
  exact ⟨_, @OpenFiles.writeNext_console Text _ { s with console := console } fdTty htty bytes⟩

theorem Shown.uint {t : OpenFiles Text} (h : Shown s t) (htty : s.fds fdTty = some .console) (val : Nat) :
    Shown s (printUint t fdTty val) := by
  unfold printUint
  split
  · exact h.write htty _
  · exact h.write htty _

/-- What `install_package` shows of an entry. -/
theorem shown_entry (htty : s.fds fdTty = some .console) (target : Text) (fileSize : Nat) :
    Shown s (showEntry s fdTty target fileSize) := by
  have hstart : Shown s s := ⟨s.console, rfl⟩
  have harrow := hstart.write htty (text [' ', ' ', '-', '>', ' '])
  have hpath := (harrow.write htty (cString target)).write htty (text [' ', '('])
  exact (hpath.uint htty fileSize).write htty _

/-- **An entry**, from its header on. -/
theorem installEntry_eq (hname : e.name.length ≤ 99) (htty : s.fds fdTty = some .console)
    (hpkg : s.fds fdPkg = some (.file path off)) (hpath : e.path ≠ path)
    (hfresh : ∀ fd, grant s.opens = some fd → s.fds fd = none)
    (hrest : (s.content path).drop off = (e.data ++ e.pad) ++ rest) :
    ∃ s' log, installEntry grant fdTty fdPkg e.header s = .ok s' ∧
      s'.files = installed (grant s.opens) e.path (e.left s.files) s.files ∧
      s'.fds = Function.update s.fds fdPkg (some (.file path (off + (e.data ++ e.pad).length))) ∧
      s'.opens = s.opens + 1 ∧ s'.calls = s.calls ++ log ∧
      EntryCalls fdPkg (grant s.opens) e (e.left s.files) (.read fdPkg e.header :: log) := by
  obtain ⟨buf, hbuf⟩ := targetBuffer_fits e.ustar.length hname
  have htarget : cString ((binDirectory ++ fieldName e.header ++ [0]) ++ buf) = e.path := cString_eq (path_ne_nul e.header)
  have hsize : octalToInt (headerSize e.header) = e.data.length := octalToInt_eq e.ustar.size
  have hlen : (e.data ++ e.pad).length = 512 * ((e.data.length + 511) / 512) := by
    rw [List.length_append]
    exact e.padded
  obtain ⟨console, hshown⟩ := shown_entry htty ((binDirectory ++ fieldName e.header ++ [0]) ++ buf) e.data.length
  rw [installEntry, hbuf, hsize]
  -- the source prints the entry before it opens the target; printing touches no file
  dsimp only [bind, Except.bind]
  rw [hshown, htarget, sysOpen_creat]
  dsimp only
  cases hgrant : grant s.opens with
  | none =>
    -- `open` refused: the blocks are still read, so that the next header is found
    obtain ⟨log, hrun, hopens, hcloses, hreads, hwrites⟩ := @copyBlocks_refused
      { s with console := console, opens := s.opens + 1, calls := s.calls ++ [.opened e.path true none] }
      fdPkg path off _ rest _ e.data.length hpkg hrest hlen
    refine ⟨_, [.opened e.path true none] ++ log, congrArg Except.ok hrun, rfl, ?_, rfl, ?_, ?_, ?_, ?_, ?_, ?_⟩
    · rw [hlen]
    · exact List.append_assoc _ _ _
    · show (e.path, true, none) :: FileCall.opensOf log = _
      rw [hopens]
    · show (if fdPkg = fdPkg then _ else _) ++ FileCall.bytesRead fdPkg log = _
      rw [hreads, if_pos rfl]
      rfl
    · intro fd hfd
      cases hfd
    · exact fun _ fd => hwrites fd
    · exact hcloses
  | some fd =>
    -- `open` granted: the descriptor is new, so the package's one is another
    have hfd : s.fds fd = none := hfresh fd hgrant
    have hne : fdPkg ≠ fd := by
      intro he
      rw [he, hfd] at hpkg
      cases hpkg
    -- where the loop starts: the package at `off`, the target at its first byte
    have hpkg' : Function.update s.fds fd (some (.file e.path 0)) fdPkg = some (.file path off) := by
      rw [Function.update_of_ne hne, hpkg]
    have hrest' : ((Function.update s.files e.path (some (s.content e.path)) path).getD []).drop off
        = e.data ++ e.pad ++ rest := by
      rw [Function.update_of_ne (Ne.symm hpath)]
      exact hrest
    obtain ⟨log, hrun, hopens, hcloses, hreads, hwrites⟩ := @copyBlocks_granted
      { s with
        files := Function.update s.files e.path (some (s.content e.path))
        fds := Function.update s.fds fd (some (.file e.path 0))
        console := console
        opens := s.opens + 1
        calls := s.calls ++ [.opened e.path true (some fd)] }
      fd fdPkg path e.path off 0 e.data e.pad rest (s.content e.path) _ hne hpath hpkg'
      (Function.update_self _ _ _) (Function.update_self _ _ _) (Nat.zero_le _) hrest' hlen
    -- the target is written from its start; what stood behind the new data stays
    have hleft : overwrite (s.content e.path) 0 e.data = e.left s.files := overwrite_zero _ _
    dsimp only at hrun
    rw [Function.update_idem, hleft] at hrun
    have hclose := @OpenFiles.closeFd_file Text _ fd e.path (0 + e.data.length)
      (show (copyBlocks fdPkg (some fd) _ e.data.length _).fds fd = _ by rw [hrun]; exact Function.update_self _ _ _)
    rw [hrun] at hclose
    refine ⟨_, [.opened e.path true (some fd)] ++ (log ++ [.closed fd (e.left s.files)]),
      congrArg Except.ok ((congrArg (OpenFiles.closeFd · fd) hrun).trans hclose), rfl, ?_, rfl, ?_, ?_, ?_, ?_, ?_, ?_⟩
    · -- the descriptor was not in use before, and is not any more
      show Function.update (Function.update (Function.update (Function.update s.fds fd _) fdPkg _) fd _) fd none = _
      rw [Function.update_idem, Function.update_comm hne, Function.update_idem, ← hfd, Function.update_eq_self,
        hlen]
    · show s.calls ++ [.opened e.path true (some fd)] ++ log
          ++ [.closed fd ((Function.update s.files e.path (some (e.left s.files)) e.path).getD [])] = _
      rw [Function.update_self, List.append_assoc, List.append_assoc]
      rfl
    · show (e.path, true, some fd) :: FileCall.opensOf (log ++ _) = _
      rw [FileCall.opensOf_append, hopens]
      rfl
    · show (if fdPkg = fdPkg then _ else _) ++ FileCall.bytesRead fdPkg (log ++ _) = _
      rw [FileCall.bytesRead_append, hreads, if_pos rfl]
      show e.header ++ (e.data ++ e.pad ++ []) = _
      rw [List.append_nil]
      rfl
    · intro fd' hfd'
      obtain rfl := Option.some.inj hfd'
      show FileCall.bytesWritten fd (log ++ _) = _
      rw [FileCall.bytesWritten_append, hwrites]
      exact List.append_nil _
    · intro hnone
      cases hnone
    · show FileCall.closesOf (log ++ _) = _
      rw [FileCall.closesOf_append, hcloses]
      rfl

end Entry

end ZohoOs.Zpm
