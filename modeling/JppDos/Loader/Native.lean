import JppDos.Loader.Link
import JppDos.Pool.AppPool

/-!
# The native loader

`load_image` and the calls of `jpp_native_loader_core.c` that load and free apps and modules.
-/

namespace JppDos
namespace Loader

open Loops Memory Pool

/-- Where the linker put `s_pool`, and the variables of the pool and of the loader. -/
structure Site where
  base : UInt32
  statics : UInt32 → Prop
  aligned : 16 ∣ base.toNat
  nonnull : base ≠ 0
  fits : base.toNat + poolBytes.toNat ≤ 2 ^ 32

/-- `jpp_native_loaded_module_t`. -/
structure Module where
  mem : UInt32
  memSize : UInt32
  entry : UInt32
deriving Repr, DecidableEq

/-- `jpp_native_loaded_app_t`. -/
structure App where
  mem : UInt32
  memSize : UInt32
  loadBase : UInt32
  vaddrBase : UInt32
  entry : UInt32
  taskEntry : UInt32
deriving Repr, DecidableEq

/-- The pool, `s_pool_base` (0 is `NULL`), `s_pool_used` and `s_active_module`, the files that are
open, and the memory. -/
structure LoaderState where
  pool : AppPool
  base : UInt32
  used : UInt32
  active : Option Module
  openFiles : Nat
  ram : Ram

/-- `JPP_LOADER_ALIGN`. -/
def alignUp (size : UInt32) : UInt32 := roundUp size 16

/-- The statics before the first load. -/
def LoaderState.boot (ram : Ram) : LoaderState := ⟨.boot, 0, 0, none, 0, ram⟩

def fopen (s : LoaderState) : LoaderState := { s with openFiles := s.openFiles + 1 }

def fclose (s : LoaderState) : LoaderState := { s with openFiles := s.openFiles - 1 }

/-- `FREE_MEM`. -/
def freeMem (asModule : Bool) (s : LoaderState) : LoaderState :=
  if asModule then s else { s with pool := release s.pool }

/-- Step 4 of `load_image`: the address of the image. -/
def place (site : Site) (asModule : Bool) (totalSize : UInt32) (s : LoaderState) :
    Option UInt32 × LoaderState :=
  if !asModule then
    match acquire totalSize s.pool with
    | (none, pool) => (none, { s with pool := pool })
    | (some (off, _), pool) => (some (site.base + off), { s with pool := pool })
  else
    let tailOff := alignUp s.used
    if tailOff + totalSize > poolBytes then (none, s) else (some (s.base + tailOff), s)

/-- One turn of the loop of step 5. -/
def loadSegment (f : File) (delta : UInt32) (phdrs : List Phdr) (i : Nat) (ram : Ram) :
    Option LoadResult × Ram :=
  match phdrs[i]? with
  | none => (none, ram)
  | some ph =>
      if ¬ ph.Loads ∨ ph.pFilesz = 0 then (none, ram)
      else
        let (data, all) := preadExact f (9 + i) ph.pOffset ph.pFilesz.toNat
        (if all then none else some .readFailed, ram.write (delta + ph.pVaddr) data)

/-- Step 5. -/
def loadSegments (f : File) (delta : UInt32) (phdrs : List Phdr) (ram : Ram) :
    Option LoadResult × Ram :=
  loop (loadSegment f delta phdrs) phdrs.length 0 ram

/-- `jpp_loaded_image_t`. -/
structure LoadedImage where
  mem : UInt32
  memSize : UInt32
  loadBase : UInt32
  vaddrBase : UInt32
  entry : UInt32
  entry2 : UInt32
deriving Repr, DecidableEq

section Calls

variable (site : Site) (exports : Exports)

/-- Steps 5 to 10, for an image placed at `mem`; the file is open. -/
def fillImage (asModule : Bool) (entryName : List UInt8) (entry2Name : Option (List UInt8))
    (f : File) (phdrs : List Phdr) (vaddrMin totalSize mem : UInt32) (s : LoaderState) :
    Except LoadResult LoadedImage × LoaderState :=
  let delta := mem - vaddrMin
  match loadSegments f delta phdrs (s.ram.fill mem totalSize.toNat 0) with
  | (some r, ram) => (.error r, freeMem asModule (fclose { s with ram := ram }))
  | (none, ram) =>
      match link exports entryName entry2Name mem delta phdrs ram with
      | (.error r, ram) => (.error r, freeMem asModule { fclose s with ram := ram })
      | (.ok (entry, entry2), ram) =>
          (.ok ⟨mem, totalSize, mem, vaddrMin, entry, entry2⟩, { fclose s with ram := ram })

/-- `load_image`; `none` is a file that cannot be opened. -/
def loadImage (asModule : Bool) (entryName : List UInt8) (entry2Name : Option (List UInt8))
    (file : Option File) (s : LoaderState) : Except LoadResult LoadedImage × LoaderState :=
  match file with
  | none => (.error .readFailed, s)
  | some f =>
      let s := fopen s
      match readHeaders f with
      | .error r => (.error r, fclose s)
      | .ok phdrs =>
          let (vaddrMin, vaddrMax) := loadRange phdrs
          if vaddrMax ≤ vaddrMin then (.error .invalidElf, fclose s)
          else
            let totalSize := vaddrMax - vaddrMin
            match place site asModule totalSize s with
            | (none, s) => (.error .noMemory, fclose s)
            | (some mem, s) =>
                fillImage exports asModule entryName entry2Name f phdrs vaddrMin totalSize mem s

/-- `jpp_native_loader_load`; `malloced` is whether there is memory for the handle. -/
def load (file : Option File) (malloced : Bool) (s : LoaderState) :
    Except LoadResult App × LoaderState :=
  match loadImage site exports false (CText.ascii "jpp_app_entry")
      (some (CText.ascii "jpp_app_task_entry")) file s with
  | (.error r, s) => (.error r, s)
  | (.ok img, s) =>
      if !malloced then (.error .noMemory, { s with pool := release s.pool })
      else
        (.ok ⟨img.mem, img.memSize, img.loadBase, img.vaddrBase, img.entry, img.entry2⟩,
          { s with base := img.mem, used := img.memSize })

/-- `jpp_native_loader_load_module`. -/
def loadModule (file : Option File) (malloced : Bool) (s : LoaderState) :
    Except LoadResult Module × LoaderState :=
  if s.base = 0 then (.error .badState, s)
  else if s.active ≠ none then (.error .badState, s)
  else
    match loadImage site exports true (CText.ascii "jpp_module_entry") none file s with
    | (.error r, s) => (.error r, s)
    | (.ok img, s) =>
        if !malloced then (.error .noMemory, s)
        else
          (.ok ⟨img.mem, img.memSize, img.entry⟩,
            { s with active := some ⟨img.mem, img.memSize, img.entry⟩ })

end Calls

/-- `jpp_native_loader_module_free`. -/
def moduleFree (m : Module) (s : LoaderState) : LoaderState :=
  if s.active = some m then { s with active := none } else s

/-- `jpp_native_loader_free`. -/
def free (app : App) (s : LoaderState) : LoaderState :=
  let s :=
    match s.active with
    | some m => moduleFree m s
    | none => s
  let s := if app.mem ≠ 0 then { s with pool := release s.pool } else s
  { s with base := 0, used := 0 }

section Image

variable {site : Site} {exports : Exports} {asModule : Bool} {entryName : List UInt8}
  {entry2Name : Option (List UInt8)}

theorem fclose_fopen (s : LoaderState) : fclose (fopen s) = s := rfl

theorem acquire_none {n : UInt32} {pool pool' : AppPool} (h : acquire n pool = (none, pool')) :
    pool' = pool := by
  unfold acquire acquireAs at h
  split_ifs at h
  · exact (Prod.mk.inj h).2.symm
  · exact (Prod.mk.inj h).2.symm
  · cases h

/-- An acquire that succeeds found the pool free, and gives it from its start on. -/
theorem acquire_some {n off size : UInt32} {pool pool' : AppPool}
    (h : acquire n pool = (some (off, size), pool')) :
    off = 0 ∧ pool.inUse = false ∧ n ≤ poolBytes ∧ pool'.inUse = true := by
  unfold acquire acquireAs at h
  split_ifs at h with huse hlarge
  · cases h
  · cases h
  · obtain ⟨hblock, rfl⟩ := Prod.mk.inj h
    obtain ⟨rfl, -⟩ := Prod.mk.inj (Option.some.inj hblock)
    exact ⟨rfl, by simpa using huse, by simpa using hlarge, rfl⟩

/-- The image found a place: its headers are read, and `mem` is where it goes. -/
structure Placing (site : Site) (asModule : Bool) (s : LoaderState) (f : File)
    (phdrs : List Phdr) (vaddrMin vaddrMax mem : UInt32) (s₁ : LoaderState) : Prop where
  headers : readHeaders f = .ok phdrs
  range : loadRange phdrs = (vaddrMin, vaddrMax)
  nonempty : vaddrMin < vaddrMax
  placed : place site asModule (vaddrMax - vaddrMin) (fopen s) = (some mem, s₁)

theorem place_none {n : UInt32} {s s' : LoaderState}
    (h : place site asModule n s = (none, s')) : s' = s := by
  unfold place at h
  cases asModule with
  | true =>
      simp only [Bool.not_true, Bool.false_eq_true, if_false] at h
      split_ifs at h
      · exact (Prod.mk.inj h).2.symm
      · cases h
  | false =>
      simp only [Bool.not_false, if_true] at h
      cases hacquire : acquire n s.pool with
      | mk block pool =>
          rw [hacquire] at h
          cases block with
          | none =>
              obtain ⟨-, rfl⟩ := Prod.mk.inj h
              rw [acquire_none hacquire]
          | some block => cases h

/-- An image is refused with nothing changed, or placed and filled. -/
theorem loadImage_cases (site : Site) (exports : Exports) (asModule : Bool)
    (entryName : List UInt8) (entry2Name : Option (List UInt8)) (file : Option File)
    (s : LoaderState) :
    (∃ r, loadImage site exports asModule entryName entry2Name file s = (.error r, s)) ∨
      ∃ f phdrs vaddrMin vaddrMax mem s₁, file = some f ∧
        Placing site asModule s f phdrs vaddrMin vaddrMax mem s₁ ∧
        loadImage site exports asModule entryName entry2Name file s =
          fillImage exports asModule entryName entry2Name f phdrs vaddrMin
            (vaddrMax - vaddrMin) mem s₁ := by
  cases file with
  | none => exact Or.inl ⟨_, rfl⟩
  | some f =>
      unfold loadImage
      cases hheaders : readHeaders f with
      | error r => exact Or.inl ⟨r, by simp only [hheaders, fclose_fopen]⟩
      | ok phdrs =>
          cases hrange : loadRange phdrs with
          | mk vaddrMin vaddrMax =>
              simp only [hheaders, hrange]
              by_cases hempty : vaddrMax ≤ vaddrMin
              · exact Or.inl ⟨_, by rw [if_pos hempty, fclose_fopen]⟩
              · rw [if_neg hempty]
                cases hplace : place site asModule (vaddrMax - vaddrMin) (fopen s) with
                | mk mem s₁ =>
                    cases mem with
                    | none => exact Or.inl ⟨_, by rw [place_none hplace]; rfl⟩
                    | some mem =>
                        exact Or.inr ⟨f, phdrs, vaddrMin, vaddrMax, mem, s₁, rfl,
                          ⟨hheaders, hrange, by simpa using hempty, hplace⟩, rfl⟩

theorem loadSegment_stores (f : File) (delta : UInt32) (phdrs : List Phdr) (i : Nat) (ram : Ram) :
    (loadSegment f delta phdrs i ram).2 = ram ∨
      ∃ ph, phdrs[i]? = some ph ∧ ph.Loads ∧
        (loadSegment f delta phdrs i ram).2 = ram.write (delta + ph.pVaddr)
          (preadExact f (9 + i) ph.pOffset ph.pFilesz.toNat).1 := by
  unfold loadSegment
  cases hph : phdrs[i]? with
  | none => exact Or.inl rfl
  | some ph =>
      simp only
      by_cases hskip : ¬ ph.Loads ∨ ph.pFilesz = 0
      · rw [if_pos hskip]
        exact Or.inl rfl
      · rw [if_neg hskip]
        exact Or.inr ⟨ph, rfl, not_not.mp fun h => hskip (Or.inl h), rfl⟩

theorem loadSegments_extends (f : File) (delta : UInt32) (phdrs : List Phdr) (ram : Ram) :
    Ram.Extends ram (loadSegments f delta phdrs ram).2 := by
  refine loop_relates Ram.Extends.refl Ram.Extends.trans _ fun p _ => ?_
  rcases loadSegment_stores f delta phdrs p.1 p.2 with hsame | ⟨ph, -, -, hwrite⟩
  · rw [hsame]
    exact .refl _
  · rw [hwrite]
    exact Ram.write_extends _ _ _

/-- Every store of filling an image is apart from the region: the zeroing, the segments, and the
relocations. -/
structure FillClear (exports : Exports) (f : File) (phdrs : List Phdr)
    (vaddrMin totalSize mem : UInt32) (region : UInt32 → Prop) (ram : Ram) : Prop where
  zeroed : Apart mem totalSize.toNat region
  segments : ∀ p ∈ visited (loadSegment f (mem - vaddrMin) phdrs) phdrs.length 0
      (ram.fill mem totalSize.toNat 0), ∀ ph, phdrs[p.1]? = some ph → ph.Loads →
    Apart (mem - vaddrMin + ph.pVaddr)
      (preadExact f (9 + p.1) ph.pOffset ph.pFilesz.toNat).1.length region
  relocations : ∀ ram₁,
    loadSegments f (mem - vaddrMin) phdrs (ram.fill mem totalSize.toNat 0) = (none, ram₁) →
    ∀ t, tablesOf (mem - vaddrMin) phdrs ram₁.bytes = some t →
      RelocationsClear exports (linkageOf mem (mem - vaddrMin) t ram₁.bytes) region ram₁

theorem loadSegments_agrees {f : File} {phdrs : List Phdr} {vaddrMin totalSize mem : UInt32}
    {region : UInt32 → Prop} {ram : Ram}
    (h : FillClear exports f phdrs vaddrMin totalSize mem region ram) :
    Ram.Agrees region (ram.fill mem totalSize.toNat 0)
      (loadSegments f (mem - vaddrMin) phdrs (ram.fill mem totalSize.toNat 0)).2 := by
  refine loop_relates (Ram.Agrees.refl region) Ram.Agrees.trans _ fun p hp => ?_
  rcases loadSegment_stores f (mem - vaddrMin) phdrs p.1 p.2 with hsame | ⟨ph, hph, hloads, hwrite⟩
  · rw [hsame]
    exact .refl region _
  · rw [hwrite]
    exact Ram.write_agrees (h.segments p hp ph hph hloads)

section Fill

variable {f : File} {phdrs : List Phdr} {vaddrMin totalSize mem : UInt32} {s : LoaderState}

/-- Filling changes the memory, closes the file, and gives the pool back when it fails. -/
theorem fillImage_state (exports : Exports) (asModule : Bool) (entryName : List UInt8)
    (entry2Name : Option (List UInt8)) (f : File) (phdrs : List Phdr)
    (vaddrMin totalSize mem : UInt32) (s : LoaderState) :
    ∃ ram, (fillImage exports asModule entryName entry2Name f phdrs vaddrMin totalSize mem s).2 =
        { (match (fillImage exports asModule entryName entry2Name f phdrs vaddrMin totalSize mem
              s).1 with
            | .error _ => freeMem asModule (fclose s)
            | .ok _ => fclose s) with ram := ram } ∧
      Ram.Extends (s.ram.fill mem totalSize.toNat 0) ram ∧
      ∀ region, FillClear exports f phdrs vaddrMin totalSize mem region s.ram →
        Ram.Agrees region s.ram ram := by
  have hsegments := loadSegments_extends f (mem - vaddrMin) phdrs (s.ram.fill mem totalSize.toNat 0)
  have hagrees : ∀ region, FillClear exports f phdrs vaddrMin totalSize mem region s.ram →
      Ram.Agrees region s.ram
        (loadSegments f (mem - vaddrMin) phdrs (s.ram.fill mem totalSize.toNat 0)).2 :=
    fun region h => (Ram.fill_agrees h.zeroed).trans (loadSegments_agrees h)
  have hfree : ∀ ram, freeMem asModule (fclose { s with ram := ram }) =
      { freeMem asModule (fclose s) with ram := ram } := by
    intro ram
    cases asModule <;> rfl
  have hfree' : ∀ ram, freeMem asModule { fclose s with ram := ram } =
      { freeMem asModule (fclose s) with ram := ram } := by
    intro ram
    cases asModule <;> rfl
  unfold fillImage
  simp only
  cases hload : loadSegments f (mem - vaddrMin) phdrs (s.ram.fill mem totalSize.toNat 0) with
  | mk failure ram₁ =>
      rw [hload] at hsegments hagrees
      cases failure with
      | some r => exact ⟨ram₁, hfree ram₁, hsegments, hagrees⟩
      | none =>
          simp only
          have hextends : Ram.Extends ram₁
              (link exports entryName entry2Name mem (mem - vaddrMin) phdrs ram₁).2 := link_extends
          have hlink : ∀ region, FillClear exports f phdrs vaddrMin totalSize mem region s.ram →
              Ram.Agrees region ram₁
                (link exports entryName entry2Name mem (mem - vaddrMin) phdrs ram₁).2 :=
            fun region h => link_agrees (h.relocations ram₁ hload)
          cases hresult : link exports entryName entry2Name mem (mem - vaddrMin) phdrs ram₁ with
          | mk result ram₂ =>
              rw [hresult] at hextends hlink
              have hlast := hsegments.trans hextends
              have hstays := fun region h => (hagrees region h).trans (hlink region h)
              cases result with
              | error r => exact ⟨ram₂, hfree' ram₂, hlast, hstays⟩
              | ok entries => exact ⟨ram₂, rfl, hlast, hstays⟩

/-- The image that comes back is the one that was placed. -/
theorem fillImage_ok {img : LoadedImage} {s' : LoaderState}
    (h : fillImage exports asModule entryName entry2Name f phdrs vaddrMin totalSize mem s =
      (.ok img, s')) :
    img.mem = mem ∧ img.memSize = totalSize := by
  unfold fillImage at h
  simp only at h
  cases hload : loadSegments f (mem - vaddrMin) phdrs (s.ram.fill mem totalSize.toNat 0) with
  | mk failure ram₁ =>
      rw [hload] at h
      cases failure with
      | some r => cases h
      | none =>
          simp only at h
          cases hresult : link exports entryName entry2Name mem (mem - vaddrMin) phdrs ram₁ with
          | mk result ram₂ =>
              rw [hresult] at h
              cases result with
              | error r => cases h
              | ok entries =>
                  obtain ⟨himg, -⟩ := Prod.mk.inj h
                  obtain rfl := Except.ok.inj himg
                  exact ⟨rfl, rfl⟩

end Fill

end Image

/-- The variables of the loader fit the pool: a host app holds the pool and lies at its start, and
a pool that nobody holds is as after the boot. -/
structure Sound (site : Site) (s : LoaderState) : Prop where
  host : s.base ≠ 0 → s.base = site.base ∧ s.used ≤ poolBytes ∧ s.pool.inUse = true
  vacant : s.base = 0 → s.used = 0 ∧ s.active = none
  idle : s.pool.inUse = false → s.pool = .boot

section Sound

variable {site : Site} {exports : Exports} {entryName : List UInt8}
  {entry2Name : Option (List UInt8)} {file : Option File} {s s' : LoaderState}

theorem Sound.boot (site : Site) (ram : Ram) : Sound site (.boot ram) where
  host h := absurd rfl h
  vacant _ := ⟨rfl, rfl⟩
  idle _ := rfl

theorem Sound.withRam (h : Sound site s) (ram : Ram) : Sound site { s with ram := ram } :=
  ⟨h.host, h.vacant, h.idle⟩

theorem place_app {n mem : UInt32} {s₁ : LoaderState}
    (h : place site false n s = (some mem, s₁)) :
    mem = site.base ∧ s.pool.inUse = false ∧ n ≤ poolBytes ∧
      ∃ pool, pool.inUse = true ∧ s₁ = { s with pool := pool } := by
  unfold place at h
  simp only [Bool.not_false, if_true] at h
  cases hacquire : acquire n s.pool with
  | mk block pool =>
      rw [hacquire] at h
      cases block with
      | none => cases h
      | some block =>
          obtain ⟨off, size⟩ := block
          obtain ⟨hoff, hfree, hsize, hheld⟩ := acquire_some hacquire
          obtain ⟨hmem, rfl⟩ := Prod.mk.inj h
          obtain rfl := Option.some.inj hmem
          rw [hoff, UInt32.add_zero]
          exact ⟨rfl, hfree, hsize, pool, hheld, rfl⟩

theorem place_module {n mem : UInt32} {s₁ : LoaderState}
    (h : place site true n s = (some mem, s₁)) :
    mem = s.base + alignUp s.used ∧ alignUp s.used + n ≤ poolBytes ∧ s₁ = s := by
  unfold place at h
  simp only [Bool.not_true, Bool.false_eq_true, if_false] at h
  split_ifs at h with hfit
  · cases h
  · obtain ⟨hmem, rfl⟩ := Prod.mk.inj h
    exact ⟨(Option.some.inj hmem).symm, by simpa using hfit, rfl⟩

/-- An image that is refused leaves everything but the memory as it was. -/
theorem loadImage_error {asModule : Bool} {r : LoadResult} (hs : Sound site s)
    (h : loadImage site exports asModule entryName entry2Name file s = (.error r, s')) :
    ∃ ram, s' = { s with ram := ram } := by
  rcases loadImage_cases site exports asModule entryName entry2Name file s with
    ⟨r', hrefused⟩ | ⟨f, phdrs, lo, hi, mem, s₁, -, hplacing, hfill⟩
  · rw [hrefused] at h
    exact ⟨s.ram, (Prod.mk.inj h).2.symm⟩
  · obtain ⟨ram, hstate, -, -⟩ := fillImage_state exports asModule entryName entry2Name f phdrs lo
      (hi - lo) mem s₁
    rw [← hfill, h] at hstate
    refine ⟨ram, hstate.trans ?_⟩
    cases asModule with
    | true =>
        obtain ⟨-, -, rfl⟩ := place_module hplacing.placed
        rfl
    | false =>
        obtain ⟨-, hfree, -, pool, -, rfl⟩ := place_app hplacing.placed
        have hboot : s.pool = .boot := hs.idle hfree
        cases s
        cases hboot
        rfl

/-- An app image that is loaded holds the pool and starts with it. -/
theorem loadImage_app_ok {img : LoadedImage}
    (h : loadImage site exports false entryName entry2Name file s = (.ok img, s')) :
    img.mem = site.base ∧ img.memSize ≤ poolBytes ∧ s.pool.inUse = false ∧
      ∃ pool ram, pool.inUse = true ∧ s' = { s with pool := pool, ram := ram } := by
  rcases loadImage_cases site exports false entryName entry2Name file s with
    ⟨r', hrefused⟩ | ⟨f, phdrs, lo, hi, mem, s₁, -, hplacing, hfill⟩
  · rw [hrefused] at h
    cases h
  · obtain ⟨ram, hstate, -, -⟩ := fillImage_state exports false entryName entry2Name f phdrs lo
      (hi - lo) mem s₁
    rw [hfill] at h
    rw [h] at hstate
    obtain ⟨hmem, hsize⟩ := fillImage_ok h
    obtain ⟨hbase, hfree, hfits, pool, hheld, rfl⟩ := place_app hplacing.placed
    exact ⟨hmem.trans hbase, hsize ▸ hfits, hfree, pool, ram, hheld, hstate⟩

/-- A module image that is loaded lies behind the host app, by the test of the loader. -/
theorem loadImage_module_ok {img : LoadedImage}
    (h : loadImage site exports true entryName entry2Name file s = (.ok img, s')) :
    img.mem = s.base + alignUp s.used ∧ alignUp s.used + img.memSize ≤ poolBytes ∧
      ∃ ram, s' = { s with ram := ram } := by
  rcases loadImage_cases site exports true entryName entry2Name file s with
    ⟨r', hrefused⟩ | ⟨f, phdrs, lo, hi, mem, s₁, -, hplacing, hfill⟩
  · rw [hrefused] at h
    cases h
  · obtain ⟨ram, hstate, -, -⟩ := fillImage_state exports true entryName entry2Name f phdrs lo
      (hi - lo) mem s₁
    rw [hfill] at h
    rw [h] at hstate
    obtain ⟨hmem, hsize⟩ := fillImage_ok h
    obtain ⟨hbase, hfits, rfl⟩ := place_module hplacing.placed
    exact ⟨hmem.trans hbase, hsize ▸ hfits, ram, hstate⟩

/-- How `jpp_native_loader_load` ends. -/
theorem load_cases (exports : Exports) (file : Option File) (hs : Sound site s) (malloced : Bool) :
    (∃ r ram, load site exports file malloced s = (.error r, { s with ram := ram })) ∨
      ∃ app pool ram, load site exports file malloced s =
          (.ok app, { s with pool := pool, base := site.base, used := app.memSize, ram := ram }) ∧
        app.mem = site.base ∧ app.memSize ≤ poolBytes ∧ s.pool.inUse = false ∧
        pool.inUse = true := by
  unfold load
  cases himage : loadImage site exports false (CText.ascii "jpp_app_entry")
      (some (CText.ascii "jpp_app_task_entry")) file s with
  | mk result s₁ =>
      cases result with
      | error r =>
          obtain ⟨ram, rfl⟩ := loadImage_error hs himage
          exact Or.inl ⟨r, ram, rfl⟩
      | ok img =>
          obtain ⟨hmem, hsize, hfree, pool, ram, hheld, rfl⟩ := loadImage_app_ok himage
          simp only
          split_ifs
          · have hboot : s.pool = .boot := hs.idle hfree
            refine Or.inl ⟨.noMemory, ram, ?_⟩
            cases s
            cases hboot
            rfl
          · exact Or.inr ⟨_, pool, ram, by rw [hmem], rfl, hsize, hfree, hheld⟩

/-- How `jpp_native_loader_load_module` ends. -/
theorem loadModule_cases (exports : Exports) (file : Option File) (hs : Sound site s)
    (malloced : Bool) :
    (∃ r ram, loadModule site exports file malloced s = (.error r, { s with ram := ram })) ∨
      ∃ m ram, loadModule site exports file malloced s =
          (.ok m, { s with active := some m, ram := ram }) ∧
        s.base ≠ 0 ∧ s.active = none ∧ m.mem = s.base + alignUp s.used ∧
        alignUp s.used + m.memSize ≤ poolBytes := by
  unfold loadModule
  by_cases hbase : s.base = 0
  · rw [if_pos hbase]
    exact Or.inl ⟨_, s.ram, rfl⟩
  · rw [if_neg hbase]
    by_cases hactive : s.active ≠ none
    · rw [if_pos hactive]
      exact Or.inl ⟨_, s.ram, rfl⟩
    · rw [if_neg hactive]
      cases himage : loadImage site exports true (CText.ascii "jpp_module_entry") none file s with
      | mk result s₁ =>
          cases result with
          | error r =>
              obtain ⟨ram, rfl⟩ := loadImage_error hs himage
              exact Or.inl ⟨r, ram, rfl⟩
          | ok img =>
              obtain ⟨hmem, hsize, ram, rfl⟩ := loadImage_module_ok himage
              simp only
              split_ifs
              · exact Or.inl ⟨_, ram, rfl⟩
              · exact Or.inr ⟨_, ram, rfl, hbase, not_not.mp hactive, hmem, hsize⟩

end Sound

/-- A call of the loader, or of another owner of the pool, which gives back what it holds. -/
inductive Step (site : Site) (exports : Exports) : LoaderState → LoaderState → Prop
  | load (file : Option File) (malloced : Bool) (s : LoaderState) :
      Step site exports s (load site exports file malloced s).2
  | loadModule (file : Option File) (malloced : Bool) (s : LoaderState) :
      Step site exports s (loadModule site exports file malloced s).2
  | moduleFree (m : Module) (s : LoaderState) : Step site exports s (moduleFree m s)
  | free (app : App) (s : LoaderState) (hmem : app.mem ≠ 0) : Step site exports s (free app s)
  | acquire (n : UInt32) (s : LoaderState) :
      Step site exports s { s with pool := (acquire n s.pool).2 }
  | release (s : LoaderState) (hbase : s.base = 0) :
      Step site exports s { s with pool := release s.pool }

section Runs

variable {site : Site} {exports : Exports} {s s' : LoaderState}

/-- Freeing the app leaves the loader as after the boot. -/
theorem free_eq {app : App} (hmem : app.mem ≠ 0) :
    free app s = { s with pool := .boot, base := 0, used := 0, active := none } := by
  unfold free
  cases hactive : s.active with
  | none =>
      simp only
      rw [if_pos hmem]
      cases s
      cases hactive
      rfl
  | some m =>
      simp only [moduleFree]
      rw [if_pos hactive, if_pos hmem]
      rfl

theorem Sound.step (h : Sound site s) (hstep : Step site exports s s') : Sound site s' := by
  cases hstep with
  | load file malloced =>
      rcases load_cases exports file h malloced with
        ⟨r, ram, hload⟩ | ⟨app, pool, ram, hload, -, hsize, -, hheld⟩
      · rw [hload]
        exact h.withRam ram
      · rw [hload]
        exact ⟨fun _ => ⟨rfl, hsize, hheld⟩, fun hbase => absurd hbase site.nonnull,
          fun hfree => absurd (hheld.symm.trans hfree) (by decide)⟩
  | loadModule file malloced =>
      rcases loadModule_cases exports file h malloced with
        ⟨r, ram, hload⟩ | ⟨m, ram, hload, hbase, -⟩
      · rw [hload]
        exact h.withRam ram
      · rw [hload]
        exact ⟨h.host, fun hvacant => absurd hvacant hbase, h.idle⟩
  | moduleFree m =>
      unfold Loader.moduleFree
      split_ifs
      · exact ⟨h.host, fun hvacant => ⟨(h.vacant hvacant).1, rfl⟩, h.idle⟩
      · exact h
  | free app _ hmem =>
      rw [free_eq hmem]
      exact ⟨fun hbase => absurd rfl hbase, fun _ => ⟨rfl, rfl⟩, fun _ => rfl⟩
  | acquire n =>
      cases hacquire : Pool.acquire n s.pool with
      | mk block pool =>
          cases block with
          | none =>
              rw [acquire_none hacquire]
              exact h
          | some block =>
              obtain ⟨-, hfree, -, hheld⟩ := acquire_some hacquire
              refine ⟨fun hbase => ?_, h.vacant,
                fun hidle => absurd (hheld.symm.trans hidle) (by decide)⟩
              exact absurd ((h.host hbase).2.2.symm.trans hfree) (by decide)
  | release _ hbase => exact ⟨fun h' => absurd hbase h', h.vacant, fun _ => rfl⟩

end Runs

end Loader
end JppDos
