/-
  ZohoOs.Zpm.Install — `install_package` (apps/zpm/src/main.rs).

  The package manager opens `/packages/<name>.tar` and goes through its
  512-byte blocks: a header, then the blocks of the file, which are written to
  `/bin/<name>`.  The system calls are the calls on byte-stream files of
  `Lib.FileCalls`.

  Indexing an array beyond its end panics, and the panic handler never
  returns.  Strings passed by pointer are taken up to their NUL byte.  The
  build is the release build, whose arithmetic wraps without a check.
-/
import ZohoOs.Lib.FileCalls
import ZohoOs.Lib.Word
import Mathlib.Data.Nat.Digits.Defs

namespace ZohoOs.Zpm

open ZohoOs.Lib

/-! ## §1. Arrays. -/

/-- An index beyond the end of an array. -/
structure Panic where
  index : Nat
  len : Nat
  deriving DecidableEq

/-- `buf[i] = c`. -/
def setByte (buf : Text) (i : Nat) (c : BitVec 8) : Except Panic Text :=
  if i < buf.length then .ok (buf.set i c) else .error ⟨i, buf.length⟩

/-- The loops that copy a string to `buf` from `i` on, with the index behind
    it. -/
def copyBytes : Text → Nat → Text → Except Panic (Text × Nat)
  | [], i, buf => .ok (buf, i)
  | c :: src, i, buf => do
      let buf ← setByte buf i c
      copyBytes src (i + 1) buf

/-- The string that a pointer to `buf` stands for. -/
def cString (buf : Text) : Text := buf.takeWhile fun c => c ≠ 0

/-! ## §2. `TarHeader`. -/

/-- `header.name[i]`. -/
def headerName (header : Text) (i : Nat) : Except Panic (BitVec 8) :=
  if i < 100 then .ok (header.getD i 0) else .error ⟨i, 100⟩

/-- A field of the header. -/
def field (header : Text) (offset len : Nat) : Text := (header.drop offset).take len

/-- `header.size`. -/
def headerSize (header : Text) : Text := field header 124 12

/-- `octal_to_int`. -/
def octalToInt (octal : Text) : Nat :=
  loop octal 0
where
  loop : Text → Nat → Nat
    | [], res => res
    | c :: octal, res =>
      if c = 0 ∨ c = 0x20 then res else loop octal (res * 8 + (c - 0x30).toNat)

/-! ## §3. The terminal. -/

section Terminal

variable (s : OpenFiles Text) (fd : FileNo)

/-- `print_str`. -/
def printStr (buf : Text) : OpenFiles Text := s.writeNext fd (cString buf)

/-- The digits that `print_uint` puts before `done`, with `left` places in its
    buffer. -/
def uintDigits : (left val : Nat) → (done : Text) → Text
  | 0, _, done => done
  | left + 1, val, done =>
    if val = 0 then done else uintDigits left (val / 10) (BitVec.ofNat 8 (0x30 + val % 10) :: done)

/-- `print_uint`. -/
def printUint (val : Nat) : OpenFiles Text :=
  if val = 0 then s.writeNext fd (text ['0']) else s.writeNext fd (uintDigits 20 val [])

/-- The line that `install_package` prints for an entry. -/
def showEntry (targetPath : Text) (fileSize : Nat) : OpenFiles Text :=
  let s := s.writeNext fd (text [' ', ' ', '-', '>', ' '])
  let s := printStr s fd targetPath
  let s := s.writeNext fd (text [' ', '('])
  let s := printUint s fd fileSize
  s.writeNext fd (text [' ', 'b', 'y', 't', 'e', 's', ')', '\n'])

end Terminal

/-! ## §4. `install_package`. -/

def oCreat : Word := 64

/-- `sys_open`; `none` is a negative result. -/
def sysOpen (grant : Nat → Option FileNo) (s : OpenFiles Text) (path : Text) (flags : Word) :
    Option FileNo × OpenFiles Text :=
  s.openPath grant path (flags &&& oCreat ≠ 0)

def packagesPrefix : Text := text ['/', 'p', 'a', 'c', 'k', 'a', 'g', 'e', 's', '/']
def tarSuffix : Text := text ['.', 't', 'a', 'r']
def binDirectory : Text := text ['/', 'b', 'i', 'n', '/']

/-- `path`: the file of the package. -/
def packageBuffer (pkgName : Text) : Except Panic Text := do
  let (path, i) ← copyBytes packagesPrefix 0 (List.replicate 128 0)
  let (path, i) ← copyBytes pkgName i path
  let (path, i) ← copyBytes tarSuffix i path
  setByte path i 0

/-- The loop that copies the name of a header.  `tp` grows in each of the
    `left` turns. -/
def copyName (header : Text) : (left hn tp : Nat) → Text → Except Panic (Text × Nat)
  | 0, _, tp, target => .ok (target, tp)
  | left + 1, hn, tp, target => do
      let c ← headerName header hn
      if c ≠ 0 ∧ tp < 127 then
        let target ← setByte target tp c
        copyName header left (hn + 1) (tp + 1) target
      else .ok (target, tp)

/-- `target_path`: the file of an entry. -/
def targetBuffer (header : Text) : Except Panic Text := do
  let (target, tp) ← copyBytes binDirectory 0 (List.replicate 128 0)
  let (target, tp) ← copyName header 128 0 tp target
  setByte target tp 0

/-- The loop over the blocks of an entry. -/
def copyBlocks (fdPkg : FileNo) (fdOut : Option FileNo) :
    (blocks remaining : Nat) → OpenFiles Text → OpenFiles Text
  | 0, _, s => s
  | blocks + 1, remaining, s =>
    let (n, s) := s.readNext fdPkg 512
    let bytes := n.getD []
    let data := bytes ++ (List.replicate 512 0).drop bytes.length
    match fdOut with
    | some fd =>
      let toWrite := if remaining < 512 then remaining else 512
      copyBlocks fdPkg fdOut blocks (remaining - toWrite) (s.writeNext fd (data.take toWrite))
    | none => copyBlocks fdPkg fdOut blocks remaining s

/-- What the loop of `install_package` does with a header. -/
def installEntry (grant : Nat → Option FileNo) (fdTty fdPkg : FileNo) (header : Text)
    (s : OpenFiles Text) : Except Panic (OpenFiles Text) := do
  let fileSize := octalToInt (headerSize header)
  let targetPath ← targetBuffer header
  let s := showEntry s fdTty targetPath fileSize
  let (fdOut, s) := sysOpen grant s (cString targetPath) oCreat
  let s := copyBlocks fdPkg fdOut ((fileSize + 511) / 512) fileSize s
  match fdOut with
  | some fd => .ok (s.closeFd fd)
  | none => .ok s

/-- What follows a step that may panic. -/
def andThen {A B : Type} (result : Except Panic A) (next : A → Option (Except Panic B)) :
    Option (Except Panic B) :=
  match result with
  | .error p => some (.error p)
  | .ok a => next a

/-- The loop of `install_package`; `header` is its buffer.  The outer `none`
    means that the loop has not come to an end. -/
def packageLoop (grant : Nat → Option FileNo) (fdTty fdPkg : FileNo) :
    (fuel : Nat) → (header : Text) → OpenFiles Text → Option (Except Panic (OpenFiles Text))
  | 0, _, _ => none
  | fuel + 1, header, s =>
    let (n, s) := s.readNext fdPkg 512
    let bytes := n.getD []
    if bytes = [] then some (.ok s)
    else
      let header := bytes ++ header.drop bytes.length
      if header.getD 0 0 = 0 then some (.ok s)
      else
        andThen (installEntry grant fdTty fdPkg header s) fun s => packageLoop grant fdTty fdPkg fuel header s

/-- `install_package`; `uninit` is what the header buffer happens to hold. -/
def installPackage (grant : Nat → Option FileNo) (fuel : Nat) (fdTty : FileNo) (pkgName uninit : Text)
    (s : OpenFiles Text) : Option (Except Panic (OpenFiles Text)) :=
  andThen (packageBuffer pkgName) fun path =>
    match sysOpen grant s (cString path) 0 with
    | (none, s) =>
      let s := s.writeNext fdTty (text ("Error: Package file not found: ".toList))
      let s := printStr s fdTty path
      some (.ok (s.writeNext fdTty (text ['\n'])))
    | (some fdPkg, s) =>
      let s := s.writeNext fdTty (text ("Extracting package...\n".toList))
      match packageLoop grant fdTty fdPkg fuel uninit s with
      | none => none
      | some (.error p) => some (.error p)
      | some (.ok s) =>
        some (.ok ((s.closeFd fdPkg).writeNext fdTty (text ("Installation complete.\n".toList))))

/-! ## §5. Archives. -/

/-- The digits of a numeric field. -/
def octalDigits (f : Text) : Text := f.takeWhile fun c => c ≠ 0 ∧ c ≠ 0x20

/-- A numeric field holds the number `v`. -/
def HoldsOctal (f : Text) (v : Nat) : Prop :=
  (∀ c ∈ octalDigits f, 0x30 ≤ c ∧ c ≤ 0x37) ∧
    Nat.ofDigits 8 ((octalDigits f).reverse.map fun c => c.toNat - 0x30) = v

/-- The sum of the bytes of a header, with spaces for the checksum field. -/
def checksum (header : Text) : Nat :=
  ((header.take 148).map BitVec.toNat).sum + 8 * 0x20 + ((header.drop 156).map BitVec.toNat).sum

/-- **A ustar header** of a regular file of `size` bytes, whose name is in the
    name field. -/
structure UstarHeader (header : Text) (size : Nat) : Prop where
  length : header.length = 512
  named : header.getD 0 0 ≠ 0
  size : HoldsOctal (headerSize header) size
  checksum : HoldsOctal (field header 148 8) (checksum header)
  regular : header.getD 156 0 = 0x30 ∨ header.getD 156 0 = 0
  magic : field header 257 8 = [0x75, 0x73, 0x74, 0x61, 0x72, 0, 0x30, 0x30]
  unprefixed : header.getD 345 0 = 0

/-- The name field, up to a NUL byte; all 100 bytes may be taken. -/
def fieldName (header : Text) : Text := (header.take 100).takeWhile fun c => c ≠ 0

/-- An entry of an archive. -/
structure TarEntry where
  header : Text
  data : Text
  /-- What fills the last block. -/
  pad : Text
  ustar : UstarHeader header data.length
  padded : data.length + pad.length = 512 * ((data.length + 511) / 512)

namespace TarEntry

variable (e : TarEntry)

def name : Text := fieldName e.header

/-- The blocks of an entry. -/
def bytes : Text := e.header ++ (e.data ++ e.pad)

/-- Where the entry is installed. -/
def path : Text := binDirectory ++ e.name

end TarEntry

/-- **An archive**: its entries, two blocks of zeros, and anything after
    them. -/
def archive (entries : List TarEntry) (trailer : Text) : Text :=
  entries.flatMap TarEntry.bytes ++ (List.replicate 1024 0 ++ trailer)

/-- The file of a package. -/
def packagePath (pkgName : Text) : Text := packagesPrefix ++ (pkgName ++ tarSuffix)

end ZohoOs.Zpm
