/-
  ZohoOs.Zpm.Extract — installing a package.

  Whatever the opens answer, the loop stays aligned with the 512-byte blocks
  of the archive.  Three things go wrong.  A package name of more than 113
  bytes does not fit the path buffer, and a name that fills the 100 bytes of
  its field is read on; both panic.  And a file that is there already is
  opened as it is: where it is longer than the entry, its end stays.

  Main results:

    * `packageLoop_entry`, `packageLoop_end` — one turn of the loop;
    * `packageLoop_turns` — the loop over an archive;
    * `install_package_iff` — when a package is extracted.
-/
import ZohoOs.Zpm.Blocks

namespace ZohoOs.Zpm

open ZohoOs.Lib

/-! ## §1. What is to be done. -/

/-- **The entries are extracted in order**, with the opens from the `k`-th
    on: each file is closed with the entry's data for its content. -/
inductive Extraction (grant : Nat → Option FileNo) (fdPkg : FileNo) :
    Nat → List TarEntry → List (FileCall Text) → Prop
  | nil (k : Nat) : Extraction grant fdPkg k [] []
  | cons {k : Nat} {e : TarEntry} {es : List TarEntry} {turn log : List (FileCall Text)} :
      EntryCalls fdPkg (grant k) e e.data turn → Extraction grant fdPkg (k + 1) es log →
      Extraction grant fdPkg k (e :: es) (turn ++ log)

/-- The files after the entries, with the opens from the `k`-th on. -/
def filesInstalled (grant : Nat → Option FileNo) :
    Nat → List TarEntry → (Text → Option Text) → Text → Option Text
  | _, [], files => files
  | k, e :: es, files => filesInstalled grant (k + 1) es (installed (grant k) e.path e.data files)

/-- **A package is extracted**: it is opened, its entries are extracted, the
    first block of zeros is read, and it is closed as it was. -/
structure PackageExtracted (grant : Nat → Option FileNo) (fdPkg : FileNo) (pkgName : Text)
    (entries : List TarEntry) (trailer : Text) (s s' : OpenFiles Text) : Prop where
  calls : ∃ log, Extraction grant fdPkg (s.opens + 1) entries log ∧
    s'.calls = s.calls ++ [.opened (packagePath pkgName) false (some fdPkg)] ++ log ++
      [.read fdPkg (List.replicate 512 0), .closed fdPkg (archive entries trailer)]
  files : s'.files = filesInstalled grant (s.opens + 1) entries s.files

/-- **What the archive has to be like**: no name fills its field, and an entry
    whose file is opened finds no longer file there. -/
def EntriesFit (grant : Nat → Option FileNo) : Nat → (Text → Option Text) → List TarEntry → Prop
  | _, _, [] => True
  | k, files, e :: es =>
    e.name.length ≤ 99 ∧ (grant k = none ∨ ((files e.path).getD []).length ≤ e.data.length) ∧
      EntriesFit grant (k + 1) (installed (grant k) e.path e.data files) es

/-! ## §2. What is done. -/

/-- The entries as they are extracted, from the files `files` to the last
    ones. -/
inductive Turns (grant : Nat → Option FileNo) (fdPkg : FileNo) :
    Nat → (Text → Option Text) → List TarEntry → List (FileCall Text) → (Text → Option Text) → Prop
  | nil (k : Nat) (files : Text → Option Text) : Turns grant fdPkg k files [] [] files
  | cons {k : Nat} {files files' : Text → Option Text} {e : TarEntry} {es : List TarEntry}
      {turn log : List (FileCall Text)} :
      EntryCalls fdPkg (grant k) e (e.left files) turn →
      Turns grant fdPkg (k + 1) (installed (grant k) e.path (e.left files) files) es log files' →
      Turns grant fdPkg k files (e :: es) (turn ++ log) files'

section Turns

variable {grant : Nat → Option FileNo} {fdPkg : FileNo} {k : Nat} {files files' : Text → Option Text}
  {entries : List TarEntry} {log log' : List (FileCall Text)}

/-- A file that is not longer is replaced. -/
theorem TarEntry.left_eq_iff (e : TarEntry) (files : Text → Option Text) :
    e.left files = e.data ↔ ((files e.path).getD []).length ≤ e.data.length := by
  rw [TarEntry.left, List.append_right_eq_self, List.drop_eq_nil_iff]

/-- **Entries that fit** are extracted. -/
theorem Turns.extraction (h : Turns grant fdPkg k files entries log files') (hfit : EntriesFit grant k files entries) :
    Extraction grant fdPkg k entries log ∧ files' = filesInstalled grant k entries files := by
  induction h with
  | nil k files => exact ⟨.nil k, rfl⟩
  | @cons k files files' e es turn log hcalls hrest ih =>
    obtain ⟨-, hshort, hes⟩ := hfit
    cases hgrant : grant k with
    | none =>
      rw [hgrant] at hcalls hes hrest ih
      obtain ⟨hextracted, hfiles⟩ := ih hes
      have hcalls' : EntryCalls fdPkg (grant k) e e.data turn := by
        rw [hgrant]
        exact ⟨hcalls.opened, hcalls.consumed, hcalls.written, hcalls.quiet, hcalls.closed⟩
      refine ⟨.cons hcalls' hextracted, ?_⟩
      rw [filesInstalled, hgrant]
      exact hfiles
    | some fd =>
      have hleft : e.left files = e.data := by
        rw [hgrant] at hshort
        exact (e.left_eq_iff files).mpr (hshort.resolve_left (Option.some_ne_none fd))
      rw [hleft] at hcalls hrest ih
      obtain ⟨hextracted, hfiles⟩ := ih hes
      exact ⟨.cons hcalls hextracted, hfiles⟩

/-- **Extracted entries fit**, if their names do. -/
theorem Turns.fit (h : Turns grant fdPkg k files entries log files')
    (hextracted : Extraction grant fdPkg k entries log') (hcloses : FileCall.closesOf log = FileCall.closesOf log')
    (hnames : ∀ e ∈ entries, e.name.length ≤ 99) : EntriesFit grant k files entries := by
  induction h generalizing log' with
  | nil k files => trivial
  | @cons k files files' e es turn log hcalls hrest ih =>
    cases hextracted with
    | @cons _ _ _ turn' log' hcalls' hrest' =>
      rw [FileCall.closesOf_append, FileCall.closesOf_append, hcalls.closed, hcalls'.closed] at hcloses
      have hnames' : ∀ e ∈ es, e.name.length ≤ 99 := fun x hx => hnames x (List.mem_cons_of_mem e hx)
      refine ⟨hnames e List.mem_cons_self, ?_⟩
      cases hgrant : grant k with
      | none =>
        rw [hgrant] at hcloses ih
        exact ⟨.inl rfl, ih hrest' hcloses hnames'⟩
      | some fd =>
        rw [hgrant] at hcloses ih
        obtain ⟨hhead, htail⟩ := List.cons.inj hcloses
        have hleft : e.left files = e.data := (Prod.mk.inj hhead).2
        rw [hleft] at ih
        exact ⟨.inr ((e.left_eq_iff files).mp hleft), ih hrest' htail hnames'⟩

end Turns

/-! ## §3. The loop. -/

/-- **The head of the loop**: the package is open, `rest` is what remains of
    it, and the descriptors still to be given are not in use. -/
structure AtHeader (grant : Nat → Option FileNo) (fdTty fdPkg : FileNo) (path : Text) (s : OpenFiles Text)
    (rest : Text) : Prop where
  console : s.fds fdTty = some .console
  package : ∃ off, s.fds fdPkg = some (.file path off) ∧ (s.content path).drop off = rest
  fresh : ∀ k fd, s.opens ≤ k → grant k = some fd → s.fds fd = none

section Loop

variable {grant : Nat → Option FileNo} {fdTty fdPkg : FileNo} {path rest header trailer : Text} {s : OpenFiles Text}
  {e : TarEntry} {entries : List TarEntry}

theorem AtHeader.tty_ne (h : AtHeader grant fdTty fdPkg path s rest) : fdTty ≠ fdPkg := by
  intro he
  obtain ⟨off, hfd, -⟩ := h.package
  have hconsole := h.console
  rw [he, hfd] at hconsole
  cases hconsole

theorem AtHeader.ne_package (h : AtHeader grant fdTty fdPkg path s rest) {fd : FileNo} (hfd : s.fds fd = none) :
    fd ≠ fdPkg := by
  intro he
  obtain ⟨off, hpkg, -⟩ := h.package
  rw [← he, hfd] at hpkg
  cases hpkg

/-- Reading the header of an entry. -/
theorem packageLoop_read (h : AtHeader grant fdTty fdPkg path s (e.bytes ++ rest)) :
    ∃ off, (s.content path).drop (off + 512) = (e.data ++ e.pad) ++ rest ∧ ∀ fuel header, header.length = 512 →
      packageLoop grant fdTty fdPkg (fuel + 1) header s =
        andThen (installEntry grant fdTty fdPkg e.header
          { s with
            fds := Function.update s.fds fdPkg (some (.file path (off + 512)))
            calls := s.calls ++ [.read fdPkg e.header] })
          fun s => packageLoop grant fdTty fdPkg fuel e.header s := by
  obtain ⟨off, hfd, hrest⟩ := h.package
  have hlen := e.ustar.length
  have hblock : e.header.length = 512 * (0 + 1) := by omega
  have hsplit : (s.content path).drop off = e.header ++ (e.data ++ e.pad ++ rest) := by
    rw [hrest, TarEntry.bytes, List.append_assoc]
  have hread := readNext_block hfd hsplit hblock
  have htake : e.header.take 512 = e.header := List.take_of_length_le hlen.le
  have hdrop := drop_block hsplit hblock
  rw [List.drop_eq_nil_of_le hlen.le, List.nil_append] at hdrop
  rw [htake] at hread
  have hne : e.header ≠ [] := by
    intro hnil
    rw [hnil] at hlen
    exact absurd hlen (by decide)
  refine ⟨off, hdrop, fun fuel header hheader => ?_⟩
  have hbuffer : e.header ++ header.drop e.header.length = e.header := by
    rw [List.drop_eq_nil_of_le (by rw [hheader, hlen]), List.append_nil]
  rw [packageLoop, hread]
  dsimp only
  rw [Option.getD_some, if_neg hne, hbuffer, if_neg e.ustar.named]

/-- **A turn of the loop.** -/
theorem packageLoop_entry (h : AtHeader grant fdTty fdPkg path s (e.bytes ++ rest)) (hname : e.name.length ≤ 99)
    (hpath : e.path ≠ path) :
    ∃ s' turn, (∀ fuel header, header.length = 512 →
        packageLoop grant fdTty fdPkg (fuel + 1) header s = packageLoop grant fdTty fdPkg fuel e.header s') ∧
      AtHeader grant fdTty fdPkg path s' rest ∧ s'.content path = s.content path ∧
      s'.files = installed (grant s.opens) e.path (e.left s.files) s.files ∧ s'.opens = s.opens + 1 ∧
      s'.calls = s.calls ++ turn ∧ EntryCalls fdPkg (grant s.opens) e (e.left s.files) turn := by
  obtain ⟨off, hdrop, hrun⟩ := packageLoop_read h
  have hfree : ∀ {fd : FileNo}, s.fds fd = none →
      Function.update s.fds fdPkg (some (.file path (off + 512))) fd = none := by
    intro fd hfd
    rw [Function.update_of_ne (h.ne_package hfd), hfd]
  obtain ⟨s', log, hentry, hfiles, hfds, hopens, hcalls, hlog⟩ := @installEntry_eq grant
    { s with
      fds := Function.update s.fds fdPkg (some (.file path (off + 512)))
      calls := s.calls ++ [.read fdPkg e.header] }
    fdTty fdPkg path rest (off + 512) e hname
    (show Function.update s.fds fdPkg _ fdTty = _ by rw [Function.update_of_ne h.tty_ne, h.console])
    (Function.update_self _ _ _) hpath (fun fd hfd => hfree (h.fresh s.opens fd le_rfl hfd)) hdrop
  dsimp only at hfds hopens
  rw [Function.update_idem] at hfds
  have hcontent : s'.content path = s.content path := by
    rw [OpenFiles.content, OpenFiles.content, hfiles]
    show (installed (grant s.opens) e.path _ s.files path).getD [] = _
    cases grant s.opens with
    | none => rfl
    | some fd => rw [installed, Function.update_of_ne hpath.symm]
  refine ⟨s', .read fdPkg e.header :: log, fun fuel header hheader => ?_, ⟨?_, ⟨off + 512 + (e.data ++ e.pad).length, ?_, ?_⟩,
      fun k fd hk hfd => ?_⟩,
    hcontent, hfiles, hopens, ?_, hlog⟩
  · rw [hrun fuel header hheader, hentry]
    rfl
  · rw [hfds, Function.update_of_ne h.tty_ne, h.console]
  · rw [hfds, Function.update_self]
  · rw [hcontent, ← List.drop_drop, hdrop, List.drop_left]
  · have hnone := h.fresh k fd (by omega) hfd
    rw [hfds, Function.update_of_ne (h.ne_package hnone), hnone]
  · rw [hcalls, List.append_assoc]
    rfl

/-- **A name that fills its field** ends the loop in a panic. -/
theorem packageLoop_panics (h : AtHeader grant fdTty fdPkg path s (e.bytes ++ rest)) (hname : e.name.length = 100)
    (hheader : header.length = 512) (fuel : Nat) :
    packageLoop grant fdTty fdPkg (fuel + 1) header s = some (.error ⟨100, 100⟩) := by
  obtain ⟨off, -, hrun⟩ := packageLoop_read h
  rw [hrun fuel header hheader, installEntry, targetBuffer_panics e.ustar.length hname]
  rfl

/-- **The first block of zeros** ends the loop. -/
theorem packageLoop_end (h : AtHeader grant fdTty fdPkg path s (List.replicate 1024 0 ++ trailer)) :
    ∃ s', (∀ fuel header, packageLoop grant fdTty fdPkg (fuel + 1) header s = some (.ok s')) ∧
      s'.files = s.files ∧ s'.fds fdTty = some .console ∧ (∃ off, s'.fds fdPkg = some (.file path off)) ∧
      s'.calls = s.calls ++ [.read fdPkg (List.replicate 512 0)] := by
  obtain ⟨off, hfd, hrest⟩ := h.package
  have hread := @readNext_block s fdPkg path off (List.replicate 1024 0) trailer 1 hfd hrest (by rw [List.length_replicate])
  rw [List.take_replicate] at hread
  refine ⟨{ s with
      fds := Function.update s.fds fdPkg (some (.file path (off + 512)))
      calls := s.calls ++ [.read fdPkg (List.replicate 512 0)] }, fun fuel header => ?_, rfl, ?_,
    ⟨off + 512, Function.update_self _ _ _⟩, rfl⟩
  · rw [packageLoop, hread]
    rfl
  · show Function.update s.fds fdPkg _ fdTty = _
    rw [Function.update_of_ne h.tty_ne, h.console]

/-- The entries of an archive, one by one. -/
theorem archive_cons (e : TarEntry) (entries : List TarEntry) (trailer : Text) :
    archive (e :: entries) trailer = e.bytes ++ archive entries trailer := by
  rw [archive, List.flatMap_cons, List.append_assoc]
  rfl

/-- **The loop over an archive**, none of whose names fills its field. -/
theorem packageLoop_turns (h : AtHeader grant fdTty fdPkg path s (archive entries trailer))
    (hnames : ∀ e ∈ entries, e.name.length ≤ 99) (hpaths : ∀ e ∈ entries, e.path ≠ path) :
    ∃ s' log, (∀ fuel header, header.length = 512 →
        packageLoop grant fdTty fdPkg fuel header s = if entries.length < fuel then some (.ok s') else none) ∧
      Turns grant fdPkg s.opens s.files entries log s'.files ∧ s'.content path = s.content path ∧
      s'.fds fdTty = some .console ∧ (∃ off, s'.fds fdPkg = some (.file path off)) ∧
      s'.calls = s.calls ++ log ++ [.read fdPkg (List.replicate 512 0)] := by
  induction entries generalizing s with
  | nil =>
    obtain ⟨s', hrun, hfiles, hconsole, hpkg, hcalls⟩ := packageLoop_end h
    refine ⟨s', [], fun fuel header _ => ?_, ?_, ?_, hconsole, hpkg, ?_⟩
    · cases fuel with
      | zero => rfl
      | succ fuel => rw [hrun, List.length_nil, if_pos (Nat.succ_pos fuel)]
    · rw [hfiles]
      exact .nil _ _
    · rw [OpenFiles.content, hfiles]
      rfl
    · rw [hcalls, List.append_nil]
  | cons e entries ih =>
    rw [archive_cons] at h
    obtain ⟨s₁, turn, hturn, hat, hcontent, hfiles, hopens, hcalls, hentry⟩ :=
      packageLoop_entry h (hnames e List.mem_cons_self) (hpaths e List.mem_cons_self)
    obtain ⟨s', log, hrun, hturns, hkept, hconsole, hpkg, hrest⟩ := ih hat
      (fun x hx => hnames x (List.mem_cons_of_mem e hx)) fun x hx => hpaths x (List.mem_cons_of_mem e hx)
    rw [hopens, hfiles] at hturns
    refine ⟨s', turn ++ log, fun fuel header hheader => ?_, .cons hentry hturns, hkept.trans hcontent, hconsole, hpkg,
      ?_⟩
    · cases fuel with
      | zero => rfl
      | succ fuel =>
        rw [hturn fuel header hheader, hrun fuel e.header e.ustar.length, List.length_cons]
        simp only [Nat.add_lt_add_iff_right]
    · rw [hrest, hcalls, List.append_assoc s.calls]

/-- **A name that fills its field**, anywhere in the archive, and the loop
    does not end well. -/
theorem packageLoop_ok_names (h : AtHeader grant fdTty fdPkg path s (archive entries trailer))
    (hpaths : ∀ e ∈ entries, e.path ≠ path) (hheader : header.length = 512) {fuel : Nat} {s' : OpenFiles Text}
    (hrun : packageLoop grant fdTty fdPkg fuel header s = some (.ok s')) : ∀ e ∈ entries, e.name.length ≤ 99 := by
  induction entries generalizing s fuel header with
  | nil => exact fun e he => absurd he List.not_mem_nil
  | cons e entries ih =>
    rw [archive_cons] at h
    cases fuel with
    | zero => cases hrun
    | succ fuel =>
      by_cases hname : e.name.length ≤ 99
      · obtain ⟨s₁, turn, hturn, hat, -⟩ := packageLoop_entry h hname (hpaths e List.mem_cons_self)
        rw [hturn fuel header hheader] at hrun
        have hrest := ih hat (fun x hx => hpaths x (List.mem_cons_of_mem e hx)) e.ustar.length hrun
        intro x hx
        rcases List.mem_cons.mp hx with rfl | hx
        · exact hname
        · exact hrest x hx
      · have hfull : e.name.length = 100 := by
          have hle : e.name.length ≤ 100 := length_fieldName_le e.header
          omega
        rw [packageLoop_panics h hfull hheader fuel] at hrun
        cases hrun

end Loop

/-! ## §4. The package. -/

/-- No entry is installed over the package. -/
theorem path_ne_packagePath (e : TarEntry) (pkgName : Text) : e.path ≠ packagePath pkgName := by
  intro he
  have hsecond := congrArg (fun l : Text => l.getD 1 0) he
  exact absurd hsecond (by decide : (0x62 : BitVec 8) ≠ 0x70)

section Package

variable {grant : Nat → Option FileNo} {s s' : OpenFiles Text} {fdTty fdPkg : FileNo} {pkgName uninit : Text}
  {entries : List TarEntry} {trailer : Text}

/-- Opening the package. -/
theorem sysOpen_package (hgrant : grant s.opens = some fdPkg) {path content : Text}
    (hfile : s.files path = some content) : sysOpen grant s path 0 = (some fdPkg,
      { s with
        fds := Function.update s.fds fdPkg (some (.file path 0))
        opens := s.opens + 1
        calls := s.calls ++ [.opened path false (some fdPkg)] }) := by
  have hcreate : decide ((0 : Word) &&& oCreat ≠ 0) = false := by decide
  have hsome : (s.files path).isSome = true ∨ false = true := .inl (by rw [hfile]; rfl)
  have hsame : Function.update s.files path (some (s.content path)) = s.files := by
    rw [OpenFiles.content, hfile]
    exact (congrArg _ hfile.symm).trans (Function.update_eq_self path s.files)
  rw [sysOpen, hcreate, OpenFiles.openPath, if_pos hsome, hgrant]
  dsimp only
  rw [Option.isSome_some, if_pos rfl, hsame]

/-- `install_package`, when its package is there. -/
theorem installPackage_eq (hname : ∀ c ∈ pkgName, c ≠ 0) (hlen : pkgName.length ≤ 113)
    (hgrant : grant s.opens = some fdPkg) (hfile : s.files (packagePath pkgName) = some (archive entries trailer))
    (htty : s.fds fdTty = some .console) (hfresh : s.fds fdPkg = none)
    (hfree : ∀ k fd, s.opens < k → grant k = some fd → s.fds fd = none ∧ fd ≠ fdPkg) :
    ∃ s₁, AtHeader grant fdTty fdPkg (packagePath pkgName) s₁ (archive entries trailer) ∧
      s₁.opens = s.opens + 1 ∧ s₁.files = s.files ∧
      s₁.calls = s.calls ++ [.opened (packagePath pkgName) false (some fdPkg)] ∧
      ∀ fuel uninit, installPackage grant fuel fdTty pkgName uninit s =
        (packageLoop grant fdTty fdPkg fuel uninit s₁).map fun result => result.map fun s =>
          (s.closeFd fdPkg).writeNext fdTty (text ("Installation complete.\n".toList)) := by
  obtain ⟨buf, hbuf⟩ := packageBuffer_fits hlen
  have hpath : cString ((packagePath pkgName ++ [0]) ++ buf) = packagePath pkgName := cString_eq (packagePath_ne_nul hname)
  -- the terminal and the package are two descriptors
  have hne : fdTty ≠ fdPkg := by
    intro he
    rw [he, hfresh] at htty
    cases htty
  have htty' : Function.update s.fds fdPkg (some (.file (packagePath pkgName) 0)) fdTty = some .console := by
    rw [Function.update_of_ne hne, htty]
  have hshown := @OpenFiles.writeNext_console Text _ { s with
    fds := Function.update s.fds fdPkg (some (.file (packagePath pkgName) 0))
    opens := s.opens + 1
    calls := s.calls ++ [.opened (packagePath pkgName) false (some fdPkg)] } fdTty htty'
    (text ("Extracting package...\n".toList))
  refine ⟨{ s with
      fds := Function.update s.fds fdPkg (some (.file (packagePath pkgName) 0))
      console := s.console ++ text ("Extracting package...\n".toList)
      opens := s.opens + 1
      calls := s.calls ++ [.opened (packagePath pkgName) false (some fdPkg)] },
    ⟨htty', ⟨0, Function.update_self _ _ _, ?_⟩, fun k fd hk hfd => ?_⟩, rfl, rfl, rfl, fun fuel uninit => ?_⟩
  · show ((s.files (packagePath pkgName)).getD []).drop 0 = _
    rw [hfile]
    rfl
  · obtain ⟨hnone, hfd'⟩ := hfree k fd hk hfd
    -- what is opened later is not the package's descriptor
    show Function.update s.fds fdPkg _ fd = none
    rw [Function.update_of_ne hfd', hnone]
  · rw [installPackage, hbuf, andThen]
    dsimp only
    rw [hpath, sysOpen_package hgrant hfile]
    dsimp only
    rw [hshown]
    dsimp only
    generalize packageLoop grant fdTty fdPkg fuel uninit _ = result
    cases result with
    | none => rfl
    | some result => cases result <;> rfl

/-- The end of `install_package`. -/
theorem closePackage_eq {path content : Text} {off : Nat} (htty : s.fds fdTty = some .console)
    (hpkg : s.fds fdPkg = some (.file path off)) (hcontent : s.content path = content) (bytes : Text) :
    ((s.closeFd fdPkg).writeNext fdTty bytes).files = s.files ∧
      ((s.closeFd fdPkg).writeNext fdTty bytes).calls = s.calls ++ [.closed fdPkg content] := by
  have hne : fdTty ≠ fdPkg := by
    intro he
    rw [he, hpkg] at htty
    cases htty
  have htty' : (s.closeFd fdPkg).fds fdTty = some .console := by
    rw [OpenFiles.closeFd_file hpkg]
    show Function.update s.fds fdPkg none fdTty = _
    rw [Function.update_of_ne hne, htty]
  rw [OpenFiles.writeNext_console htty', OpenFiles.closeFd_file hpkg, hcontent]
  exact ⟨rfl, rfl⟩

theorem EntriesFit.names {k : Nat} {files : Text → Option Text} (h : EntriesFit grant k files entries) :
    ∀ e ∈ entries, e.name.length ≤ 99 := by
  induction entries generalizing k files with
  | nil => exact fun e he => absurd he List.not_mem_nil
  | cons e entries ih =>
    intro x hx
    rcases List.mem_cons.mp hx with rfl | hx
    · exact h.1
    · exact ih h.2.2 x hx

/-- **When `install_package` extracts a package**: in every state in which the
    package's file holds an archive and descriptors are not given twice,
    whichever opens fail, it returns and has extracted every entry in order if
    and only if the package's name has at most 113 bytes, every entry's name
    at most 99, and no entry finds a longer file where it is installed. -/
theorem install_package_iff (hname : ∀ c ∈ pkgName, c ≠ 0) (htty : s.fds fdTty = some .console)
    (hgrant : grant s.opens = some fdPkg) (hfresh : s.fds fdPkg = none)
    (hfree : ∀ k fd, s.opens < k → grant k = some fd → s.fds fd = none ∧ fd ≠ fdPkg)
    (hfile : s.files (packagePath pkgName) = some (archive entries trailer)) (huninit : uninit.length = 512) :
    (∃ fuel s', installPackage grant fuel fdTty pkgName uninit s = some (.ok s') ∧
        PackageExtracted grant fdPkg pkgName entries trailer s s') ↔
      pkgName.length ≤ 113 ∧ EntriesFit grant (s.opens + 1) s.files entries := by
  have hpaths : ∀ e ∈ entries, e.path ≠ packagePath pkgName := fun e _ => path_ne_packagePath e pkgName
  constructor
  · -- a call that returned: its path fitted, its loop ended well, and every turn did
    rintro ⟨fuel, s', hrun, hextracted⟩
    have hlen : pkgName.length ≤ 113 := by
      by_contra hlong
      rw [installPackage, packageBuffer_panics (by omega)] at hrun
      cases hrun
    obtain ⟨s₁, hat, hopens, hfiles, hcalls, heq⟩ := installPackage_eq hname hlen hgrant hfile htty hfresh hfree
    rw [heq] at hrun
    obtain ⟨result, hloop, hresult⟩ := Option.map_eq_some_iff.mp hrun
    cases result with
    | error p => cases hresult
    | ok s₂ =>
      -- a name of 100 characters or more panics, so a loop that ended well met none
      have hnames := packageLoop_ok_names hat hpaths huninit hloop
      obtain ⟨s₃, log, hlooped, hturns, hkept, hconsole, ⟨off, hpkg⟩, hlog⟩ := packageLoop_turns hat hnames hpaths
      rw [hlooped fuel uninit huninit] at hloop
      split at hloop
      · obtain rfl := Except.ok.inj (Option.some.inj hloop)
        obtain rfl := Except.ok.inj hresult
        obtain ⟨log', hlog', hcalls'⟩ := hextracted.calls
        have hcontent : s₃.content (packagePath pkgName) = archive entries trailer := by
          rw [hkept, OpenFiles.content, hfiles, hfile]
          rfl
        rw [(closePackage_eq hconsole hpkg hcontent _).2, hlog, hcalls, List.append_assoc _ _ [FileCall.closed _ _]] at hcalls'
        -- the calls of the turns are the calls that were asked about
        have hsame : log = log' := List.append_cancel_left (List.append_cancel_right hcalls')
        rw [hopens, hfiles] at hturns
        subst hsame
        exact ⟨hlen, hturns.fit hlog' rfl hnames⟩
      · cases hloop
  · -- a package that fits: one turn per entry, and one for the trailer
    rintro ⟨hlen, hfit⟩
    obtain ⟨s₁, hat, hopens, hfiles, hcalls, heq⟩ := installPackage_eq hname hlen hgrant hfile htty hfresh hfree
    obtain ⟨s₃, log, hlooped, hturns, hkept, hconsole, ⟨off, hpkg⟩, hlog⟩ := packageLoop_turns hat hfit.names hpaths
    rw [hopens, hfiles] at hturns
    obtain ⟨hextraction, hinstalled⟩ := hturns.extraction hfit
    have hcontent : s₃.content (packagePath pkgName) = archive entries trailer := by
      rw [hkept, OpenFiles.content, hfiles, hfile]
      rfl
    obtain ⟨hend, hclosed⟩ := closePackage_eq hconsole hpkg hcontent (text ("Installation complete.\n".toList))
    refine ⟨entries.length + 1, (s₃.closeFd fdPkg).writeNext fdTty (text ("Installation complete.\n".toList)), ?_,
      ⟨log, hextraction, ?_⟩, hend.trans hinstalled⟩
    · rw [heq, hlooped _ uninit huninit, if_pos (Nat.lt_succ_self _)]
      rfl
    · rw [hclosed, hlog, hcalls, List.append_assoc _ _ [FileCall.closed _ _]]
      rfl

end Package

/-! ## §5. Two packages. -/

/-- A header with the given name, size and checksum, and a tar file's usual
    other fields. -/
def plainHeader (name size sum : Text) : Text :=
  name ++ List.replicate (100 - name.length) 0 ++ (text ['0', '0', '0', '0', '6', '4', '4'] ++ [0]) ++
    (List.replicate 7 0x30 ++ [0] ++ (List.replicate 7 0x30 ++ [0])) ++ (size ++ [0]) ++
    (List.replicate 11 0x30 ++ [0]) ++ (sum ++ [0, 0x20]) ++ [0x30] ++ List.replicate 100 0 ++
    [0x75, 0x73, 0x74, 0x61, 0x72, 0, 0x30, 0x30] ++ List.replicate 64 0 ++
    (List.replicate 7 0x30 ++ [0] ++ (List.replicate 7 0x30 ++ [0])) ++ List.replicate 167 0

/-- A file `a` of two bytes. -/
def smallEntry : TarEntry where
  header := plainHeader [0x61] (List.replicate 10 0x30 ++ [0x32]) (text ['0', '0', '7', '3', '4', '0'])
  data := [0x68, 0x69]
  pad := List.replicate 510 0
  ustar := by
    refine ⟨?_, ?_, ⟨?_, ?_⟩, ⟨?_, ?_⟩, ?_, ?_, ?_⟩ <;> decide +kernel
  padded := by decide +kernel

/-- The same file under a name of 100 bytes. -/
def fullNameEntry : TarEntry where
  header := plainHeader (List.replicate 100 0x61) (List.replicate 10 0x30 ++ [0x32]) (text ['0', '3', '2', '1', '4', '3'])
  data := [0x68, 0x69]
  pad := List.replicate 510 0
  ustar := by
    refine ⟨?_, ?_, ⟨?_, ?_⟩, ⟨?_, ?_⟩, ?_, ?_, ?_⟩ <;> decide +kernel
  padded := by decide +kernel

/-- A system with one file, the package `p`, that holds one entry. -/
def packageSystem (e : TarEntry) : OpenFiles Text where
  files := fun path => if path = packagePath [0x70] then some (archive [e] []) else none
  fds := fun fd => if fd = 0 then some .console else none
  console := []
  opens := 0
  calls := []

/-- The package gets descriptor 1, and every entry descriptor 2. -/
def grantTwo (k : Nat) : Option FileNo := if k = 0 then some 1 else some 2

theorem grantTwo_free (e : TarEntry) (k : Nat) (fd : FileNo) (hk : (packageSystem e).opens < k)
    (hfd : grantTwo k = some fd) : (packageSystem e).fds fd = none ∧ fd ≠ 1 := by
  rw [grantTwo, if_neg (show 0 < k from hk).ne'] at hfd
  obtain rfl := Option.some.inj hfd
  exact ⟨rfl, by decide⟩

theorem packageSystem_file (e : TarEntry) : (packageSystem e).files (packagePath [0x70]) = some (archive [e] []) := by
  show (if packagePath [0x70] = packagePath [0x70] then some (archive [e] []) else none) = _
  exact if_pos rfl

/-- A package that is extracted. -/
theorem install_package_small : ∃ fuel s',
    installPackage grantTwo fuel 0 [0x70] (List.replicate 512 0) (packageSystem smallEntry) = some (.ok s') ∧
      PackageExtracted grantTwo 1 [0x70] [smallEntry] [] (packageSystem smallEntry) s' := by
  have hfits : EntriesFit grantTwo 1 (packageSystem smallEntry).files [smallEntry] :=
    ⟨by decide +kernel, .inr (by decide +kernel), trivial⟩
  exact (install_package_iff (by decide) rfl rfl rfl (grantTwo_free smallEntry) (packageSystem_file smallEntry)
    List.length_replicate).mpr ⟨by decide, hfits⟩

/-- **A name of 100 bytes**: the package is not installed, however long one
    waits. -/
theorem full_name_panics : fullNameEntry.name.length = 100 ∧ ¬ ∃ fuel s',
    installPackage grantTwo fuel 0 [0x70] (List.replicate 512 0) (packageSystem fullNameEntry) = some (.ok s') := by
  have hname : fullNameEntry.name.length = 100 := by decide +kernel
  refine ⟨hname, ?_⟩
  rintro ⟨fuel, s', hrun⟩
  obtain ⟨s₁, hat, -, -, -, heq⟩ := @installPackage_eq grantTwo (packageSystem fullNameEntry) 0 1 [0x70] [fullNameEntry] []
    (by decide) (by decide) rfl (packageSystem_file fullNameEntry) rfl rfl (grantTwo_free fullNameEntry)
  rw [heq] at hrun
  obtain ⟨result, hloop, hresult⟩ := Option.map_eq_some_iff.mp hrun
  cases result with
  | error p => cases hresult
  | ok s₂ =>
    have hshort := packageLoop_ok_names hat (fun e _ => path_ne_packagePath e [0x70]) List.length_replicate hloop
      fullNameEntry List.mem_cons_self
    omega

end ZohoOs.Zpm
