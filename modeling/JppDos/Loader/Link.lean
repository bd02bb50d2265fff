import JppDos.Lib.Loops
import JppDos.Loader.Elf

/-!
# Linking a loaded image

Steps 6 to 9 of `load_image`: the dynamic table, the relocations, the entry symbols.

Main fact:
* `link_extends`, `link_agrees`: what linking leaves alone.
-/

namespace JppDos
namespace Loader

open LittleEndian Loops Memory

/-- What is known of an image when it is relocated. -/
structure Linkage where
  loadBase : UInt32
  delta : UInt32
  tables : Tables
  symCount : UInt32

/-- The symbol count is read from the hash table. -/
def linkageOf (loadBase delta : UInt32) (t : Tables) (m : Mem) : Linkage :=
  ⟨loadBase, delta, t, if t.hash = 0 then 0 else readWord m (delta + t.hash + 4)⟩

section Relocations

variable (exports : Exports) (l : Linkage)

/-- `SYM_AT`. -/
def symAt (m : Mem) (idx : UInt32) : Sym :=
  let symEnt := if l.tables.syment > 0 then l.tables.syment else 16
  symbolAt m (l.delta + l.tables.symtab + idx * symEnt)

/-- The `i`-th entry of the relocation table at `table`. -/
def relaEntry (m : Mem) (table : UInt32) (i : Nat) : Rela :=
  let relaEnt := if l.tables.relaent > 0 then l.tables.relaent else 12
  relaAt m (l.delta + table + UInt32.ofNat i * relaEnt)

/-- The number of entries of a relocation table. -/
def relaCount (size : UInt32) : Nat :=
  (size / (if l.tables.relaent > 0 then l.tables.relaent else 12)).toNat

/-- The run-time address of a symbol, `none` for a symbol that is not exported. -/
def symValue (m : Mem) (idx : UInt32) : Option UInt32 :=
  let s := symAt l m idx
  if s.stShndx = 0 then
    let faddr := lookupSym exports m (l.delta + l.tables.strtab + s.stName)
    if faddr = 0 then none else some faddr
  else some (l.delta + s.stValue)

/-- One `R_RISCV_JUMP_SLOT` entry, in either table: how it fails, and the memory. -/
def jumpSlot (r : Rela) (ram : Ram) : Option LoadResult × Ram :=
  if r.sym = 0 ∨ r.sym ≥ l.symCount then (none, ram)
  else
    match symValue exports l ram.bytes r.sym with
    | none => (some .unresolvedSym, ram)
    | some v => (none, ram.writeWord (l.delta + r.rOffset) v)

/-- The `R_RISCV_32` case. -/
def absolute32 (r : Rela) (ram : Ram) : Option LoadResult × Ram :=
  if r.sym ≠ 0 ∧ r.sym < l.symCount then
    match symValue exports l ram.bytes r.sym with
    | none => (some .unresolvedSym, ram)
    | some v => (none, ram.writeWord (l.delta + r.rOffset) (v + r.rAddend))
  else (none, ram.writeWord (l.delta + r.rOffset) (0 + r.rAddend))

/-- One entry of `.rela.dyn`. -/
def applyDyn (i : Nat) (ram : Ram) : Option LoadResult × Ram :=
  let r := relaEntry l ram.bytes l.tables.rela i
  if r.type = 3 then (none, ram.writeWord (l.delta + r.rOffset) (l.loadBase + r.rAddend))
  else if r.type = 1 then absolute32 exports l r ram
  else if r.type = 5 then jumpSlot exports l r ram
  else if r.type = 0 then (none, ram)
  else (some .unsupported, ram)

/-- One entry of `.rela.plt`. -/
def applyPlt (i : Nat) (ram : Ram) : Option LoadResult × Ram :=
  let r := relaEntry l ram.bytes l.tables.jmprel i
  if r.type ≠ 5 then (some .unsupported, ram) else jumpSlot exports l r ram

/-- The number of entries that step 7 goes through. -/
def dynEntries : Nat :=
  if l.tables.rela ≠ 0 ∧ l.tables.relasz > 0 then relaCount l l.tables.relasz else 0

/-- The number of entries that step 8 goes through. -/
def pltEntries : Nat :=
  if l.tables.jmprel ≠ 0 ∧ l.tables.pltrelsz > 0 then relaCount l l.tables.pltrelsz else 0

/-- Steps 7 and 8. -/
def relocate (ram : Ram) : Option LoadResult × Ram :=
  match loop (applyDyn exports l) (dynEntries l) 0 ram with
  | (some r, ram) => (some r, ram)
  | (none, ram) => loop (applyPlt exports l) (pltEntries l) 0 ram

end Relocations

/-- The loop of step 9: `n` symbols from the `i`-th on, with the entries found so far. -/
def findEntries (l : Linkage) (m : Mem) (entryName : List UInt8)
    (entry2Name : Option (List UInt8)) : Nat → UInt32 → UInt32 → UInt32 → UInt32 × UInt32
  | 0, _, entry, entry2 => (entry, entry2)
  | n + 1, i, entry, entry2 =>
      let s := symAt l m i
      if s.stShndx = 0 ∨ s.stInfo >>> 4 ≠ 1 then
        findEntries l m entryName entry2Name n (i + 1) entry entry2
      else
        let named := stringIs m (l.delta + l.tables.strtab + s.stName)
        let (entry, entry2) :=
          if named entryName then (l.delta + s.stValue, entry2)
          else if entry2Name.any named then (entry, l.delta + s.stValue)
          else (entry, entry2)
        if entry ≠ 0 ∧ (entry2Name = none ∨ entry2 ≠ 0) then (entry, entry2)
        else findEntries l m entryName entry2Name n (i + 1) entry entry2

/-- The tables of step 6, or none. -/
def tablesOf (delta : UInt32) (phdrs : List Phdr) (m : Mem) : Option Tables :=
  let (dynVaddr, dynCount) := dynamicOf phdrs
  if dynVaddr = 0 then none
  else
    let t := readDynamic m (delta + dynVaddr) dynCount.toNat 0 ⟨0, 0, 0, 0, 0, 0, 0, 0, 0⟩
    if t.strtab = 0 ∨ t.symtab = 0 then none else some t

/-- Steps 6 to 9: the entry symbols. -/
def link (exports : Exports) (entryName : List UInt8) (entry2Name : Option (List UInt8))
    (loadBase delta : UInt32) (phdrs : List Phdr) (ram : Ram) :
    Except LoadResult (UInt32 × UInt32) × Ram :=
  match tablesOf delta phdrs ram.bytes with
  | none => (.error .invalidElf, ram)
  | some t =>
      let l := linkageOf loadBase delta t ram.bytes
      match relocate exports l ram with
      | (some r, ram) => (.error r, ram)
      | (none, ram) =>
          let (entry, entry2) :=
            findEntries l ram.bytes entryName entry2Name (l.symCount.toNat - 1) 1 0 0
          if entry = 0 then (.error .noEntry, ram) else (.ok (entry, entry2), ram)

section Stores

variable (exports : Exports) (l : Linkage)

/-- The memory is as before, or with one word more at the address. -/
def StoresAt (a : UInt32) (ram ram' : Ram) : Prop := ram' = ram ∨ ∃ v, ram' = ram.writeWord a v

theorem jumpSlot_stores (r : Rela) (ram : Ram) :
    StoresAt (l.delta + r.rOffset) ram (jumpSlot exports l r ram).2 := by
  unfold jumpSlot
  split_ifs
  · exact Or.inl rfl
  · cases symValue exports l ram.bytes r.sym with
    | none => exact Or.inl rfl
    | some v => exact Or.inr ⟨v, rfl⟩

theorem absolute32_stores (r : Rela) (ram : Ram) :
    StoresAt (l.delta + r.rOffset) ram (absolute32 exports l r ram).2 := by
  unfold absolute32
  split_ifs
  · cases symValue exports l ram.bytes r.sym with
    | none => exact Or.inl rfl
    | some v => exact Or.inr ⟨_, rfl⟩
  · exact Or.inr ⟨_, rfl⟩

theorem applyDyn_stores (i : Nat) (ram : Ram) :
    StoresAt (l.delta + (relaEntry l ram.bytes l.tables.rela i).rOffset) ram
      (applyDyn exports l i ram).2 := by
  unfold applyDyn
  simp only
  split_ifs
  · exact Or.inr ⟨_, rfl⟩
  · exact absolute32_stores exports l _ ram
  · exact jumpSlot_stores exports l _ ram
  · exact Or.inl rfl
  · exact Or.inl rfl

theorem applyPlt_stores (i : Nat) (ram : Ram) :
    StoresAt (l.delta + (relaEntry l ram.bytes l.tables.jmprel i).rOffset) ram
      (applyPlt exports l i ram).2 := by
  unfold applyPlt
  simp only
  split_ifs
  · exact Or.inl rfl
  · exact jumpSlot_stores exports l _ ram

variable {exports l}

theorem StoresAt.extends {a : UInt32} {ram ram' : Ram} (h : StoresAt a ram ram') :
    Ram.Extends ram ram' := by
  rcases h with rfl | ⟨v, rfl⟩
  · exact .refl _
  · exact Ram.writeWord_extends a v ram

theorem StoresAt.agrees {a : UInt32} {ram ram' : Ram} {region : UInt32 → Prop}
    (h : StoresAt a ram ram') (hclear : Apart a 4 region) : Ram.Agrees region ram ram' := by
  rcases h with rfl | ⟨v, rfl⟩
  · exact .refl region _
  · exact Ram.writeWord_agrees hclear

/-- The words that the relocations store are apart from the region. -/
structure RelocationsClear (exports : Exports) (l : Linkage) (region : UInt32 → Prop)
    (ram : Ram) : Prop where
  dyn : ∀ p ∈ visited (applyDyn exports l) (dynEntries l) 0 ram,
    Apart (l.delta + (relaEntry l p.2.bytes l.tables.rela p.1).rOffset) 4 region
  plt : ∀ ram', loop (applyDyn exports l) (dynEntries l) 0 ram = (none, ram') →
    ∀ p ∈ visited (applyPlt exports l) (pltEntries l) 0 ram',
      Apart (l.delta + (relaEntry l p.2.bytes l.tables.jmprel p.1).rOffset) 4 region

theorem relocate_extends (ram : Ram) : Ram.Extends ram (relocate exports l ram).2 := by
  have hdyn := loop_relates Ram.Extends.refl Ram.Extends.trans (dynEntries l) (i := 0) (s := ram)
    fun p _ => (applyDyn_stores exports l p.1 p.2).extends
  unfold relocate
  cases hloop : loop (applyDyn exports l) (dynEntries l) 0 ram with
  | mk failure ram' =>
      rw [hloop] at hdyn
      cases failure with
      | some r => exact hdyn
      | none =>
          exact hdyn.trans (loop_relates Ram.Extends.refl Ram.Extends.trans (pltEntries l)
            fun p _ => (applyPlt_stores exports l p.1 p.2).extends)

theorem relocate_agrees {region : UInt32 → Prop} {ram : Ram}
    (h : RelocationsClear exports l region ram) :
    Ram.Agrees region ram (relocate exports l ram).2 := by
  have hdyn := loop_relates (Ram.Agrees.refl region) Ram.Agrees.trans (dynEntries l)
    fun p hp => (applyDyn_stores exports l p.1 p.2).agrees (h.dyn p hp)
  unfold relocate
  cases hloop : loop (applyDyn exports l) (dynEntries l) 0 ram with
  | mk failure ram' =>
      rw [hloop] at hdyn
      cases failure with
      | some r => exact hdyn
      | none =>
          exact hdyn.trans (loop_relates (Ram.Agrees.refl region) Ram.Agrees.trans (pltEntries l)
            fun p hp => (applyPlt_stores exports l p.1 p.2).agrees (h.plt ram' hloop p hp))

end Stores

section Link

variable {exports : Exports} {entryName : List UInt8} {entry2Name : Option (List UInt8)}
  {loadBase delta : UInt32} {phdrs : List Phdr} {ram : Ram}

theorem link_ram : (link exports entryName entry2Name loadBase delta phdrs ram).2 =
    match tablesOf delta phdrs ram.bytes with
    | none => ram
    | some t => (relocate exports (linkageOf loadBase delta t ram.bytes) ram).2 := by
  unfold link
  cases tablesOf delta phdrs ram.bytes with
  | none => rfl
  | some t =>
      simp only
      cases hrelocate : relocate exports (linkageOf loadBase delta t ram.bytes) ram with
      | mk failure ram' =>
          cases failure with
          | some r => rfl
          | none =>
              simp only
              split_ifs <;> rfl

theorem link_extends :
    Ram.Extends ram (link exports entryName entry2Name loadBase delta phdrs ram).2 := by
  rw [link_ram]
  cases tablesOf delta phdrs ram.bytes with
  | none => exact .refl ram
  | some t => exact relocate_extends ram

theorem link_agrees {region : UInt32 → Prop}
    (h : ∀ t, tablesOf delta phdrs ram.bytes = some t →
      RelocationsClear exports (linkageOf loadBase delta t ram.bytes) region ram) :
    Ram.Agrees region ram (link exports entryName entry2Name loadBase delta phdrs ram).2 := by
  rw [link_ram]
  cases htables : tablesOf delta phdrs ram.bytes with
  | none => exact .refl region ram
  | some t => exact relocate_agrees (h t htables)

end Link

end Loader
end JppDos
