import JppDos.Loader.Failure

/-!
# Relocations of accepted images

What the relocation entries of an image denote, and what `load_image` stores for them.  An address
`v` of the file is at `v - vaddr_min + mem` when the image runs.

Main fact:
* `relocated_iff`: the entries of an accepted image are relocated as they should be exactly when no
  relative one is made in an image linked elsewhere than at 0, and no symbol index is out of range.
-/

namespace JppDos
namespace Loader

open LittleEndian Loops Memory

/-- Where the address `v` of an image is at run time. -/
def runTime (vaddrMin mem v : UInt32) : UInt32 := v - vaddrMin + mem

section Denote

variable (exports : Exports) (l : Linkage) (vaddrMin mem : UInt32) (m : Mem)

/-- The address of the exported symbol whose name is at `a`. -/
def exported (a : UInt32) : Option UInt32 :=
  ((exports.find? fun e => stringIs m a e.1).map Prod.snd).filter (· ≠ 0)

/-- The run-time address of a symbol of the image: an exported one of the firmware, or its own. -/
def symbolAddress (idx : UInt32) : Option UInt32 :=
  if idx = 0 ∨ idx ≥ l.symCount then none
  else
    let s := symAt l m idx
    if s.stShndx = 0 then exported exports m (l.delta + l.tables.strtab + s.stName)
    else some (runTime vaddrMin mem s.stValue)

/-- What the word of an entry is to be at run time, if it can be resolved. -/
def denoted (r : Rela) : Option UInt32 :=
  if r.type = 3 then some (runTime vaddrMin mem r.rAddend)
  else if r.type = 1 then
    if r.sym = 0 then some r.rAddend
    else (symbolAddress exports l vaddrMin mem m r.sym).map (· + r.rAddend)
  else if r.type = 5 then symbolAddress exports l vaddrMin mem m r.sym
  else none

/-- The entries that are about an address. -/
def Rela.Patches (r : Rela) : Prop := r.type = 3 ∨ r.type = 1 ∨ r.type = 5

/-- An entry is relocated: it can be resolved, and its word is stored. -/
def Relocated (r : Rela) (before after : Ram) : Prop :=
  r.Patches → ∃ v, denoted exports l vaddrMin mem before.bytes r = some v ∧
    readWord after.bytes (runTime vaddrMin mem r.rOffset) = v

/-- The entries the loader gets right: relative ones of an image linked at 0, and those whose symbol
index is in range (0 is no symbol, which only an `R_RISCV_32` may have). -/
def Covered (r : Rela) : Prop :=
  (r.type = 3 → vaddrMin = 0) ∧ (r.type = 1 → r.sym = 0 ∨ r.sym < l.symCount) ∧
    (r.type = 5 → r.sym ≠ 0 ∧ r.sym < l.symCount)

end Denote

section Entry

variable {exports : Exports} {l : Linkage} {vaddrMin mem : UInt32} {ram : Ram}

theorem lookupSym_eq (m : Mem) (a : UInt32) :
    (if lookupSym exports m a = 0 then none else some (lookupSym exports m a)) =
      exported exports m a := by
  unfold lookupSym exported
  cases exports.find? fun e => stringIs m a e.1 with
  | none => rfl
  | some e =>
      simp only [Option.map_some, Option.filter_some]
      by_cases hnull : e.2 = 0 <;> simp [hnull]

/-- The linkage of an image placed at `mem` and linked at `vaddrMin`. -/
def PlacedAt (l : Linkage) (vaddrMin mem : UInt32) : Prop :=
  l.delta = mem - vaddrMin ∧ l.loadBase = mem

theorem PlacedAt.runTime_eq (h : PlacedAt l vaddrMin mem) (v : UInt32) :
    l.delta + v = runTime vaddrMin mem v := by
  rw [h.1, runTime]
  grind

theorem symValue_eq (h : PlacedAt l vaddrMin mem) {m : Mem} {idx : UInt32}
    (hidx : idx ≠ 0 ∧ idx < l.symCount) :
    symValue exports l m idx = symbolAddress exports l vaddrMin mem m idx := by
  have hrange : ¬ (idx = 0 ∨ idx ≥ l.symCount) := by
    rintro (hzero | hlarge)
    · exact hidx.1 hzero
    · exact absurd hidx.2 (UInt32.not_lt.mpr hlarge)
  unfold symValue symbolAddress
  rw [if_neg hrange]
  simp only
  rw [lookupSym_eq, h.runTime_eq (symAt l m idx).stValue]

theorem symbolAddress_out {m : Mem} {idx : UInt32} (hidx : ¬ (idx ≠ 0 ∧ idx < l.symCount)) :
    symbolAddress exports l vaddrMin mem m idx = none := by
  unfold symbolAddress
  refine if_pos ?_
  by_contra hrange
  rw [not_or] at hrange
  exact hidx ⟨hrange.1, UInt32.not_le.mp hrange.2⟩

theorem jumpSlot_relocated_iff (h : PlacedAt l vaddrMin mem) {r : Rela} (htype : r.type = 5)
    (hok : (jumpSlot exports l r ram).1 = none) :
    Relocated exports l vaddrMin mem r ram (jumpSlot exports l r ram).2 ↔
      Covered l vaddrMin r := by
  have hdenoted : denoted exports l vaddrMin mem ram.bytes r =
      symbolAddress exports l vaddrMin mem ram.bytes r.sym := by
    simp [denoted, htype]
  have hcovered : Covered l vaddrMin r ↔ r.sym ≠ 0 ∧ r.sym < l.symCount := by
    simp [Covered, htype]
  rw [hcovered]
  unfold Relocated
  rw [hdenoted]
  constructor
  · intro hrelocated
    obtain ⟨v, hv, -⟩ := hrelocated (Or.inr (Or.inr htype))
    by_contra hidx
    rw [symbolAddress_out hidx] at hv
    cases hv
  · intro hidx _
    have hrange : ¬ (r.sym = 0 ∨ r.sym ≥ l.symCount) := by
      rintro (hzero | hlarge)
      · exact hidx.1 hzero
      · exact absurd hidx.2 (UInt32.not_lt.mpr hlarge)
    unfold jumpSlot at hok ⊢
    rw [if_neg hrange, symValue_eq h hidx] at hok ⊢
    cases hvalue : symbolAddress exports l vaddrMin mem ram.bytes r.sym with
    | none =>
        rw [hvalue] at hok
        cases hok
    | some v =>
        refine ⟨v, rfl, ?_⟩
        rw [← h.runTime_eq]
        exact readWord_writeWord _ v ram

theorem absolute32_relocated_iff (h : PlacedAt l vaddrMin mem) {r : Rela} (htype : r.type = 1)
    (hok : (absolute32 exports l r ram).1 = none) :
    Relocated exports l vaddrMin mem r ram (absolute32 exports l r ram).2 ↔
      Covered l vaddrMin r := by
  have hdenoted : denoted exports l vaddrMin mem ram.bytes r =
      if r.sym = 0 then some r.rAddend
      else (symbolAddress exports l vaddrMin mem ram.bytes r.sym).map (· + r.rAddend) := by
    simp [denoted, htype]
  have hcovered : Covered l vaddrMin r ↔ r.sym = 0 ∨ r.sym < l.symCount := by
    simp [Covered, htype]
  rw [hcovered]
  unfold Relocated
  rw [hdenoted]
  by_cases hzero : r.sym = 0
  · refine iff_of_true (fun _ => ⟨r.rAddend, if_pos hzero, ?_⟩) (Or.inl hzero)
    rw [← h.runTime_eq, absolute32, if_neg (fun hidx => hidx.1 hzero), UInt32.zero_add]
    exact readWord_writeWord _ _ ram
  · rw [if_neg hzero]
    constructor
    · intro hrelocated
      obtain ⟨v, hv, -⟩ := hrelocated (Or.inr (Or.inl htype))
      by_contra hidx
      rw [symbolAddress_out fun hin => hidx (Or.inr hin.2)] at hv
      cases hv
    · rintro (hzero' | hlt) _
      · exact absurd hzero' hzero
      · unfold absolute32 at hok ⊢
        rw [if_pos ⟨hzero, hlt⟩, symValue_eq h ⟨hzero, hlt⟩] at hok ⊢
        cases hvalue : symbolAddress exports l vaddrMin mem ram.bytes r.sym with
        | none =>
            rw [hvalue] at hok
            cases hok
        | some v =>
            refine ⟨v + r.rAddend, rfl, ?_⟩
            rw [← h.runTime_eq]
            exact readWord_writeWord _ _ ram

/-- A relative word is that of the load address, whatever the image is linked at. -/
theorem relative_relocated_iff (h : PlacedAt l vaddrMin mem) {r : Rela} (htype : r.type = 3) :
    Relocated exports l vaddrMin mem r ram
        (ram.writeWord (l.delta + r.rOffset) (l.loadBase + r.rAddend)) ↔
      Covered l vaddrMin r := by
  have hdenoted : denoted exports l vaddrMin mem ram.bytes r =
      some (runTime vaddrMin mem r.rAddend) := by
    simp [denoted, htype]
  have hcovered : Covered l vaddrMin r ↔ vaddrMin = 0 := by
    simp [Covered, htype]
  have hstored : readWord (ram.writeWord (l.delta + r.rOffset) (l.loadBase + r.rAddend)).bytes
      (runTime vaddrMin mem r.rOffset) = mem + r.rAddend := by
    rw [← h.runTime_eq, h.2]
    exact readWord_writeWord _ _ ram
  rw [hcovered]
  unfold Relocated
  rw [hdenoted, hstored, runTime]
  constructor
  · intro hrelocated
    obtain ⟨v, hv, hword⟩ := hrelocated (Or.inl htype)
    obtain rfl := Option.some.inj hv
    grind
  · rintro rfl _
    exact ⟨_, rfl, by grind⟩

/-- An entry of `.rela.dyn` that does not fail. -/
theorem applyDyn_relocated_iff (h : PlacedAt l vaddrMin mem) {i : Nat}
    (hok : (applyDyn exports l i ram).1 = none) :
    Relocated exports l vaddrMin mem (relaEntry l ram.bytes l.tables.rela i) ram
        (applyDyn exports l i ram).2 ↔
      Covered l vaddrMin (relaEntry l ram.bytes l.tables.rela i) := by
  unfold applyDyn at hok ⊢
  simp only at hok ⊢
  by_cases hrelative : (relaEntry l ram.bytes l.tables.rela i).type = 3
  · rw [if_pos hrelative]
    exact relative_relocated_iff h hrelative
  rw [if_neg hrelative] at hok ⊢
  by_cases habsolute : (relaEntry l ram.bytes l.tables.rela i).type = 1
  · rw [if_pos habsolute] at hok ⊢
    exact absolute32_relocated_iff h habsolute hok
  rw [if_neg habsolute] at hok ⊢
  by_cases hslot : (relaEntry l ram.bytes l.tables.rela i).type = 5
  · rw [if_pos hslot] at hok ⊢
    exact jumpSlot_relocated_iff h hslot hok
  · refine iff_of_true ?_ ⟨fun h3 => absurd h3 hrelative, fun h1 => absurd h1 habsolute,
      fun h5 => absurd h5 hslot⟩
    rintro (h3 | h1 | h5)
    · exact absurd h3 hrelative
    · exact absurd h1 habsolute
    · exact absurd h5 hslot

/-- An entry of `.rela.plt` that does not fail. -/
theorem applyPlt_relocated_iff (h : PlacedAt l vaddrMin mem) {i : Nat}
    (hok : (applyPlt exports l i ram).1 = none) :
    Relocated exports l vaddrMin mem (relaEntry l ram.bytes l.tables.jmprel i) ram
        (applyPlt exports l i ram).2 ↔
      Covered l vaddrMin (relaEntry l ram.bytes l.tables.jmprel i) := by
  unfold applyPlt at hok ⊢
  simp only at hok ⊢
  by_cases hslot : (relaEntry l ram.bytes l.tables.jmprel i).type = 5
  · rw [if_neg (not_not.mpr hslot)] at hok ⊢
    exact jumpSlot_relocated_iff h hslot hok
  · rw [if_pos hslot] at hok
    cases hok

end Entry

/-- What is known of an image, and the memory, when its relocations start. -/
def relocationStart (f : File) (phdrs : List Phdr) (vaddrMin totalSize mem : UInt32) (ram : Ram) :
    Option (Linkage × Ram) :=
  match loadSegments f (mem - vaddrMin) phdrs (ram.fill mem totalSize.toNat 0) with
  | (some _, _) => none
  | (none, ram) =>
      (tablesOf (mem - vaddrMin) phdrs ram.bytes).map fun t =>
        (linkageOf mem (mem - vaddrMin) t ram.bytes, ram)

/-- Something holds of each entry of both tables of an image, with the memory before and after
it. -/
def EachEntry (exports : Exports) (l : Linkage) (ram : Ram)
    (P : Rela → Ram → Ram → Prop) : Prop :=
  (∀ p ∈ visited (applyDyn exports l) (dynEntries l) 0 ram,
    P (relaEntry l p.2.bytes l.tables.rela p.1) p.2 (applyDyn exports l p.1 p.2).2) ∧
  ∀ ram', loop (applyDyn exports l) (dynEntries l) 0 ram = (none, ram') →
    ∀ p ∈ visited (applyPlt exports l) (pltEntries l) 0 ram',
      P (relaEntry l p.2.bytes l.tables.jmprel p.1) p.2 (applyPlt exports l p.1 p.2).2

/-- Something holds of each entry of the image that a load places. -/
def EachRelocation (site : Site) (exports : Exports) (asModule : Bool) (f : File)
    (s : LoaderState) (P : UInt32 → UInt32 → Linkage → Rela → Ram → Ram → Prop) : Prop :=
  ∀ phdrs vaddrMin vaddrMax mem s₁ l ram,
    Placing site asModule s f phdrs vaddrMin vaddrMax mem s₁ →
    relocationStart f phdrs vaddrMin (vaddrMax - vaddrMin) mem s.ram = some (l, ram) →
    EachEntry exports l ram (P vaddrMin mem l)

section Accepted

variable {site : Site} {exports : Exports} {asModule : Bool} {entryName : List UInt8}
  {entry2Name : Option (List UInt8)}

theorem relocate_of_fillImage {f : File} {phdrs : List Phdr} {lo size mem : UInt32}
    {s s' : LoaderState} {img : LoadedImage} {l : Linkage} {ram : Ram}
    (h : fillImage exports asModule entryName entry2Name f phdrs lo size mem s = (.ok img, s'))
    (hstart : relocationStart f phdrs lo size mem s.ram = some (l, ram)) :
    PlacedAt l lo mem ∧ (relocate exports l ram).1 = none := by
  unfold fillImage at h
  unfold relocationStart at hstart
  simp only at h
  cases hload : loadSegments f (mem - lo) phdrs (s.ram.fill mem size.toNat 0) with
  | mk failure ram₁ =>
      rw [hload] at h hstart
      cases failure with
      | some r => cases h
      | none =>
          simp only at h hstart
          cases htables : tablesOf (mem - lo) phdrs ram₁.bytes with
          | none =>
              rw [htables] at hstart
              cases hstart
          | some t =>
              rw [htables] at hstart
              obtain ⟨rfl, rfl⟩ := Prod.mk.inj (Option.some.inj hstart)
              refine ⟨⟨rfl, rfl⟩, ?_⟩
              unfold link at h
              rw [htables] at h
              simp only at h
              cases hrelocate : relocate exports (linkageOf mem (mem - lo) t ram₁.bytes) ram₁ with
              | mk failure ram₂ =>
                  rw [hrelocate] at h
                  cases failure with
                  | some r => cases h
                  | none => rfl

/-- The turns of both loops, where the relocations do not fail. -/
theorem eachEntry_of_relocate {l : Linkage} {ram : Ram} {P Q : Rela → Ram → Ram → Prop}
    (hrelocate : (relocate exports l ram).1 = none)
    (hdyn : ∀ i ram, (applyDyn exports l i ram).1 = none →
      (P (relaEntry l ram.bytes l.tables.rela i) ram (applyDyn exports l i ram).2 ↔
        Q (relaEntry l ram.bytes l.tables.rela i) ram (applyDyn exports l i ram).2))
    (hplt : ∀ i ram, (applyPlt exports l i ram).1 = none →
      (P (relaEntry l ram.bytes l.tables.jmprel i) ram (applyPlt exports l i ram).2 ↔
        Q (relaEntry l ram.bytes l.tables.jmprel i) ram (applyPlt exports l i ram).2)) :
    EachEntry exports l ram P ↔ EachEntry exports l ram Q := by
  unfold relocate at hrelocate
  cases hloop : loop (applyDyn exports l) (dynEntries l) 0 ram with
  | mk failure ram' =>
      rw [hloop] at hrelocate
      cases failure with
      | some r => cases hrelocate
      | none =>
          have hdyn' := turn_of_loop (dynEntries l) hloop
          simp only at hrelocate
          cases hloop' : loop (applyPlt exports l) (pltEntries l) 0 ram' with
          | mk failure ram'' =>
              rw [hloop'] at hrelocate
              obtain rfl : failure = none := hrelocate
              have hplt' := turn_of_loop (pltEntries l) hloop'
              refine and_congr (forall₂_congr fun p hp => hdyn p.1 p.2 (hdyn' p hp))
                (forall₂_congr fun ram₁ hram => ?_)
              obtain rfl := (Prod.mk.inj (hloop.symm.trans hram)).2
              exact forall₂_congr fun p hp => hplt p.1 p.2 (hplt' p hp)

/-- The entries of an accepted image are relocated exactly when the loader covers them. -/
theorem relocated_iff {f : File} {s s' : LoaderState} {img : LoadedImage}
    (h : loadImage site exports asModule entryName entry2Name (some f) s = (.ok img, s')) :
    EachRelocation site exports asModule f s
        (fun vaddrMin mem l r before after => Relocated exports l vaddrMin mem r before after) ↔
      EachRelocation site exports asModule f s
        (fun vaddrMin _ l r _ _ => Covered l vaddrMin r) := by
  rcases loadImage_cases site exports asModule entryName entry2Name (some f) s with
    ⟨r, hrefused⟩ | ⟨f', phdrs', lo', hi', mem', s₁', hfile, hplacing', hfill⟩
  · rw [hrefused] at h
    cases h
  · obtain rfl := Option.some.inj hfile
    rw [hfill] at h
    unfold EachRelocation
    refine forall_congr' fun phdrs => forall_congr' fun lo => forall_congr' fun hi =>
      forall_congr' fun mem => forall_congr' fun s₁ => forall_congr' fun l =>
      forall_congr' fun ram => forall_congr' fun hplacing => forall_congr' fun hstart => ?_
    -- an image is placed in one way only
    obtain rfl := Except.ok.inj (hplacing'.headers.symm.trans hplacing.headers)
    obtain ⟨rfl, rfl⟩ := Prod.mk.inj (hplacing'.range.symm.trans hplacing.range)
    obtain ⟨hmem, rfl⟩ := Prod.mk.inj (hplacing'.placed.symm.trans hplacing.placed)
    obtain rfl := Option.some.inj hmem
    rw [← hplacing.ram] at hstart
    obtain ⟨hplaced, hrelocate⟩ := relocate_of_fillImage h hstart
    exact eachEntry_of_relocate hrelocate (fun i ram hok => applyDyn_relocated_iff hplaced hok)
      (fun i ram hok => applyPlt_relocated_iff hplaced hok)

end Accepted

/-- The program headers of a module with one relocation, linked at `vaddr`. -/
def oneRelocation (vaddr : UInt32) : List Phdr :=
  [⟨1, 116, vaddr, 128, 128⟩, ⟨2, 124, vaddr + 8, 48, 48⟩]

/-- A module linked at 0x1000, whose first word is the address of its dynamic table. -/
def elsewhereModule : File := moduleFile 0x1000 [(0x1000, 3, 0x1008)]

/-- The same module linked at 0. -/
def zeroLinked : File := moduleFile 0 [(0, 3, 8)]

/-- The module is accepted, and the word that is stored is that of the dynamic table and
0x1000. -/
theorem elsewhereModule_word :
    readHeaders elsewhereModule = .ok (oneRelocation 0x1000) ∧
      (loadImage devicePool [] true (CText.ascii "jpp_module_entry") none (some elsewhereModule)
        hosting).1.isOk = true ∧
      (relocationStart elsewhereModule (oneRelocation 0x1000) 0x1000 (0x1080 - 0x1000) 0x40800040
          hosting.ram).map (fun p =>
        (dynEntries p.1, (relaEntry p.1 p.2.bytes p.1.tables.rela 0).type,
          denoted [] p.1 0x1000 0x40800040 p.2.bytes (relaEntry p.1 p.2.bytes p.1.tables.rela 0),
          readWord (applyDyn [] p.1 0 p.2).2.bytes (runTime 0x1000 0x40800040
            (relaEntry p.1 p.2.bytes p.1.tables.rela 0).rOffset))) =
        some (1, 3, some 0x40800048, 0x40801048) := by
  decide +kernel

theorem placing_oneRelocation {f : File} {vaddr : UInt32}
    (hheaders : readHeaders f = .ok (oneRelocation vaddr))
    (hrange : loadRange (oneRelocation vaddr) = (vaddr, vaddr + 128))
    (hnonempty : vaddr < vaddr + 128) (hsize : vaddr + 128 - vaddr = 128) :
    Placing devicePool true hosting f (oneRelocation vaddr) vaddr (vaddr + 128) 0x40800040
      (fopen hosting) :=
  ⟨hheaders, hrange, hnonempty, by rw [hsize]; rfl⟩

/-- A relative relocation of a module that is not linked at 0 is off by the address it is linked
at. -/
theorem not_relocated :
    ¬ ∀ (s : LoaderState) (f : File) (img : LoadedImage) (s' : LoaderState),
      loadImage devicePool [] true (CText.ascii "jpp_module_entry") none (some f) s =
          (.ok img, s') →
        EachRelocation devicePool [] true f s
          (fun vaddrMin mem l r before after => Relocated [] l vaddrMin mem r before after) := by
  intro hall
  obtain ⟨hheaders, haccepted, hword⟩ := elsewhereModule_word
  cases hload : loadImage devicePool [] true (CText.ascii "jpp_module_entry") none
      (some elsewhereModule) hosting with
  | mk result s' =>
      rw [hload] at haccepted
      cases result with
      | error r => cases haccepted
      | ok img =>
          have hplacing := placing_oneRelocation hheaders (by decide) (by decide) (by decide)
          cases hstart : relocationStart elsewhereModule (oneRelocation 0x1000) 0x1000
              (0x1080 - 0x1000) 0x40800040 hosting.ram with
          | none =>
              rw [hstart] at hword
              cases hword
          | some p =>
              obtain ⟨l, ram⟩ := p
              rw [hstart] at hword
              simp only [Option.map_some, Option.some.injEq, Prod.mk.injEq] at hword
              obtain ⟨hentries, htype, hdenoted, hstored⟩ := hword
              have heach := (hall hosting elsewhereModule img s' hload _ _ _ _ _ l ram hplacing
                hstart).1 (0, ram) (by rw [hentries, visited]; exact List.mem_cons_self ..)
              obtain ⟨v, hv, hslot⟩ := heach (Or.inl htype)
              rw [hdenoted] at hv
              rw [hstored] at hslot
              exact absurd (Option.some.inj hv) (by rw [← hslot]; decide)

theorem zeroLinked_entries :
    readHeaders zeroLinked = .ok (oneRelocation 0) ∧
      (loadImage devicePool [] true (CText.ascii "jpp_module_entry") none (some zeroLinked)
        hosting).1.isOk = true ∧
      (relocationStart zeroLinked (oneRelocation 0) 0 (128 - 0) 0x40800040 hosting.ram).map
          (fun p => (dynEntries p.1, pltEntries p.1,
            (relaEntry p.1 p.2.bytes p.1.tables.rela 0).type)) = some (1, 0, 3) := by
  decide +kernel

/-- The module linked at 0 is relocated. -/
theorem relocated_zeroLinked :
    EachRelocation devicePool [] true zeroLinked hosting
      (fun vaddrMin mem l r before after => Relocated [] l vaddrMin mem r before after) := by
  obtain ⟨hheaders, haccepted, hentries⟩ := zeroLinked_entries
  cases hload : loadImage devicePool [] true (CText.ascii "jpp_module_entry") none
      (some zeroLinked) hosting with
  | mk result s' =>
      rw [hload] at haccepted
      cases result with
      | error r => cases haccepted
      | ok img =>
          refine (relocated_iff hload).mpr fun phdrs lo hi mem s₁ l ram hplacing hstart => ?_
          have hrange : loadRange (oneRelocation 0) = (0, 128) := by decide
          have hplace : hosting.base + alignUp hosting.used = 0x40800040 := by decide
          obtain rfl := Except.ok.inj (hheaders.symm.trans hplacing.headers)
          obtain ⟨rfl, rfl⟩ := Prod.mk.inj (hrange.symm.trans hplacing.range)
          obtain rfl := hplace.symm.trans (place_module hplacing.placed).1.symm
          rw [hstart] at hentries
          simp only [Option.map_some, Option.some.injEq, Prod.mk.injEq] at hentries
          obtain ⟨hdyn, hplt, htype⟩ := hentries
          refine ⟨fun p hp => ?_, fun ram' _ p hp => ?_⟩
          · rw [hdyn, visited] at hp
            rcases List.mem_cons.mp hp with rfl | hp
            · rw [Covered, htype]
              exact ⟨fun _ => rfl, fun h => absurd h (by decide), fun h => absurd h (by decide)⟩
            · split at hp
              · cases hp
              · rw [visited] at hp
                cases hp
          · rw [hplt, visited] at hp
            cases hp

end Loader
end JppDos
