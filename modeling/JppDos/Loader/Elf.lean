import JppDos.Lib.CText
import JppDos.Lib.Memory

/-!
# ELF images of native apps

The files, and the part of `jpp_elf32_riscv.h` that the loader reads: headers from the file, tables
from the memory the image was loaded into.
-/

namespace JppDos
namespace Loader

open LittleEndian Memory

/-- `jpp_native_loader_result_t`. -/
inductive LoadResult where
  | ok
  | readFailed
  | invalidElf
  | unsupported
  | noMemory
  | unresolvedSym
  | noEntry
  | badState
deriving Repr, DecidableEq

/-- An open file: its bytes, and how many of them the `k`-th read of a load delivers at most. -/
structure File where
  content : List UInt8
  delivers : Nat → Nat

/-- `pread_exact`, as the `k`-th read: the bytes that arrive, and whether these are all. -/
def preadExact (f : File) (k : Nat) (off : UInt32) (n : Nat) : List UInt8 × Bool :=
  -- as a `long` the offset would be negative, and `fseek` fails
  if 2 ^ 31 ≤ off.toNat then ([], false)
  else
    let data := (f.content.drop off.toNat).take (min n (f.delivers k))
    (data, data.length == n)

/-- The half word at an offset. -/
def halfAt (bs : List UInt8) (off : Nat) : UInt16 := UInt16.ofNat (leNat ((bs.drop off).take 2))

/-- The word at an offset. -/
def wordAt (bs : List UInt8) (off : Nat) : UInt32 := UInt32.ofNat (leNat ((bs.drop off).take 4))

/-- `Elf32_Ehdr`. -/
structure Ehdr where
  eIdent : List UInt8
  eType : UInt16
  eMachine : UInt16
  ePhoff : UInt32
  ePhentsize : UInt16
  ePhnum : UInt16
deriving Repr, DecidableEq

def Ehdr.decode (bs : List UInt8) : Ehdr :=
  ⟨bs.take 16, halfAt bs 16, halfAt bs 18, wordAt bs 28, halfAt bs 42, halfAt bs 44⟩

/-- `Elf32_Phdr`. -/
structure Phdr where
  pType : UInt32
  pOffset : UInt32
  pVaddr : UInt32
  pFilesz : UInt32
  pMemsz : UInt32
deriving Repr, DecidableEq

def Phdr.decode (bs : List UInt8) : Phdr :=
  ⟨wordAt bs 0, wordAt bs 4, wordAt bs 8, wordAt bs 16, wordAt bs 20⟩

/-- A `PT_LOAD` segment that is not empty. -/
def Phdr.Loads (ph : Phdr) : Prop := ph.pType = 1 ∧ ph.pMemsz > 0

instance (ph : Phdr) : Decidable ph.Loads :=
  inferInstanceAs (Decidable (ph.pType = 1 ∧ ph.pMemsz > 0))

/-- Step 1 of `load_image`. -/
def readEhdr (f : File) : Except LoadResult Ehdr :=
  match preadExact f 0 0 52 with
  | (_, false) => .error .readFailed
  | (bs, true) =>
      let ehdr := Ehdr.decode bs
      if ehdr.eIdent.take 4 ≠ [0x7F, 0x45, 0x4C, 0x46] then .error .invalidElf
      else if (ehdr.eIdent.drop 4).take 2 ≠ [1, 1] then .error .invalidElf
      else if ehdr.eMachine ≠ 243 ∨ ehdr.eType ≠ 3 then .error .invalidElf
      else if ehdr.ePhentsize < 32 ∨ ehdr.ePhnum = 0 then .error .invalidElf
      else .ok ehdr

/-- The loop of step 2: `n` program headers from the `i`-th on. -/
def readPhdrs (f : File) (ehdr : Ehdr) : Nat → Nat → Except LoadResult (List Phdr)
  | 0, _ => .ok []
  | n + 1, i =>
      match preadExact f (1 + i) (ehdr.ePhoff + UInt32.ofNat i * ehdr.ePhentsize.toUInt32) 32 with
      | (_, false) => .error .readFailed
      | (bs, true) =>
          match readPhdrs f ehdr n (i + 1) with
          | .error r => .error r
          | .ok phdrs => .ok (Phdr.decode bs :: phdrs)

/-- Steps 1 and 2 of `load_image`. -/
def readHeaders (f : File) : Except LoadResult (List Phdr) :=
  match readEhdr f with
  | .error r => .error r
  | .ok ehdr => if ehdr.ePhnum > 8 then .error .invalidElf else readPhdrs f ehdr ehdr.ePhnum.toNat 0

/-- One turn of the loop of step 3. -/
def widen (range : UInt32 × UInt32) (ph : Phdr) : UInt32 × UInt32 :=
  if ph.Loads then
    let segEnd := ph.pVaddr + ph.pMemsz
    (if ph.pVaddr < range.1 then ph.pVaddr else range.1,
      if segEnd > range.2 then segEnd else range.2)
  else range

/-- Step 3: `vaddr_min` and `vaddr_max`. -/
def loadRange (phdrs : List Phdr) : UInt32 × UInt32 := phdrs.foldl widen (0xFFFFFFFF, 0)

/-- The address and the number of entries of the first `PT_DYNAMIC` segment. -/
def dynamicOf (phdrs : List Phdr) : UInt32 × UInt32 :=
  match phdrs.find? fun ph => ph.pType = 2 with
  | some ph => (ph.pVaddr, ph.pFilesz / 8)
  | none => (0, 0)

/-- `Elf32_Dyn`. -/
structure Dyn where
  dTag : UInt32
  dVal : UInt32

def dynAt (m : Mem) (a : UInt32) : Dyn := ⟨readWord m a, readWord m (a + 4)⟩

/-- `Elf32_Sym`. -/
structure Sym where
  stName : UInt32
  stValue : UInt32
  stInfo : UInt8
  stShndx : UInt16

def symbolAt (m : Mem) (a : UInt32) : Sym :=
  ⟨readWord m a, readWord m (a + 4), m (a + 12), UInt16.ofNat (leNat (readBytes m (a + 14) 2))⟩

/-- `Elf32_Rela`. -/
structure Rela where
  rOffset : UInt32
  rInfo : UInt32
  rAddend : UInt32

def relaAt (m : Mem) (a : UInt32) : Rela := ⟨readWord m a, readWord m (a + 4), readWord m (a + 8)⟩

/-- `ELF32_R_SYM`. -/
def Rela.sym (r : Rela) : UInt32 := r.rInfo >>> 8

/-- `ELF32_R_TYPE`. -/
def Rela.type (r : Rela) : UInt8 := r.rInfo.toUInt8

/-- The string at the address is `name`, by `strcmp`. -/
def stringIs (m : Mem) (a : UInt32) (name : List UInt8) : Bool :=
  readBytes m a (name.length + 1) == name ++ [0]

/-- `jpp_native_symtab`. -/
abbrev Exports := List (List UInt8 × UInt32)

/-- `lookup_sym`; 0 is `NULL`. -/
def lookupSym (exports : Exports) (m : Mem) (a : UInt32) : UInt32 :=
  match exports.find? fun e => stringIs m a e.1 with
  | some e => e.2
  | none => 0

/-- What `load_image` takes from the dynamic entries. -/
structure Tables where
  strtab : UInt32
  symtab : UInt32
  syment : UInt32
  hash : UInt32
  rela : UInt32
  relasz : UInt32
  relaent : UInt32
  jmprel : UInt32
  pltrelsz : UInt32
deriving Repr, DecidableEq

/-- One turn of the loop over the dynamic entries. -/
def Tables.note (t : Tables) (d : Dyn) : Tables :=
  match d.dTag with
  | 5 => { t with strtab := d.dVal }
  | 6 => { t with symtab := d.dVal }
  | 11 => { t with syment := d.dVal }
  | 4 => { t with hash := d.dVal }
  | 7 => { t with rela := d.dVal }
  | 8 => { t with relasz := d.dVal }
  | 9 => { t with relaent := d.dVal }
  | 23 => { t with jmprel := d.dVal }
  | 2 => { t with pltrelsz := d.dVal }
  | _ => t

/-- The loop over the dynamic entries at `dyn`, up to `DT_NULL`. -/
def readDynamic (m : Mem) (dyn : UInt32) : Nat → UInt32 → Tables → Tables
  | 0, _, t => t
  | n + 1, i, t =>
      let d := dynAt m (dyn + 8 * i)
      if d.dTag = 0 then t else readDynamic m dyn n (i + 1) (t.note d)

/-- The bytes of an ELF header that has `phnum` program headers behind it. -/
def ehdrBytes (phnum : Nat) : List UInt8 :=
  [0x7F, 0x45, 0x4C, 0x46, 1, 1, 1] ++ List.replicate 9 0 ++ leBytes 2 3 ++ leBytes 2 243 ++
    leBytes 4 1 ++ leBytes 4 0 ++ leBytes 4 52 ++ leBytes 4 0 ++ leBytes 4 0 ++ leBytes 2 52 ++
    leBytes 2 32 ++ leBytes 2 phnum ++ List.replicate 6 0

/-- The bytes of a program header. -/
def phdrBytes (pType pOffset pVaddr pFilesz pMemsz : Nat) : List UInt8 :=
  leBytes 4 pType ++ leBytes 4 pOffset ++ leBytes 4 pVaddr ++ leBytes 4 0 ++ leBytes 4 pFilesz ++
    leBytes 4 pMemsz ++ leBytes 4 0 ++ leBytes 4 0

/-- A file that is read without faults. -/
def soundFile (content : List UInt8) : File := ⟨content, fun _ => content.length⟩

/-- The loaded part of a module linked at `vaddr`, with its relocation entries (offset, info and
addend): 8 bytes of code, the dynamic table, the hash table, two symbols of which the second is the
entry, the strings and `.rela.dyn`. -/
def moduleImage (vaddr : Nat) (relas : List (Nat × Nat × Nat)) : List UInt8 :=
  List.replicate 8 0 ++
    (leBytes 4 5 ++ leBytes 4 (vaddr + 96) ++ leBytes 4 6 ++ leBytes 4 (vaddr + 64) ++
      leBytes 4 4 ++ leBytes 4 (vaddr + 56) ++ leBytes 4 7 ++ leBytes 4 (vaddr + 116) ++
      leBytes 4 8 ++ leBytes 4 (12 * relas.length) ++ leBytes 8 0) ++
    (leBytes 4 1 ++ leBytes 4 2) ++
    (List.replicate 16 0 ++ leBytes 4 1 ++ leBytes 4 vaddr ++ leBytes 4 0 ++ [0x10, 0, 1, 0]) ++
    (0 :: CText.ascii "jpp_module_entry" ++ [0, 0, 0]) ++
    relas.flatMap fun r => leBytes 4 r.1 ++ leBytes 4 r.2.1 ++ leBytes 4 r.2.2

/-- The file of such a module. -/
def moduleFile (vaddr : Nat) (relas : List (Nat × Nat × Nat)) : File :=
  soundFile
    (ehdrBytes 2 ++
      phdrBytes 1 116 vaddr (116 + 12 * relas.length) (116 + 12 * relas.length) ++
      phdrBytes 2 124 (vaddr + 8) 48 48 ++ moduleImage vaddr relas)

end Loader
end JppDos
