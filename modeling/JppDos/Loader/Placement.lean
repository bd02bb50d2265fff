import JppDos.Loader.Native

/-!
# Where modules are placed

The place of a module behind the host app.  Segment ends, the size of the image and the fit test are
sums of 32-bit numbers that the file decides on.

Main fact:
* `module_placed_iff`: modules are placed as they should be exactly when none passes the test that
  does not fit.
-/

namespace JppDos
namespace Loader

open Memory Pool

/-- One turn of the loop of step 3, over the integers. -/
def widenExact (range : Nat × Nat) (ph : Phdr) : Nat × Nat :=
  if ph.Loads then
    (min ph.pVaddr.toNat range.1, max (ph.pVaddr.toNat + ph.pMemsz.toNat) range.2)
  else range

/-- The lowest address and the highest end of the segments, over the integers. -/
def exactRange (phdrs : List Phdr) : Nat × Nat := phdrs.foldl widenExact (0xFFFFFFFF, 0)

/-- How many bytes the segments extend over. -/
def extent (phdrs : List Phdr) : Nat := (exactRange phdrs).2 - (exactRange phdrs).1

/-- There is room for the segments behind the host app. -/
def Fits (s : LoaderState) (phdrs : List Phdr) : Prop :=
  (alignUp s.used).toNat + extent phdrs ≤ poolBytes.toNat

instance (s : LoaderState) (phdrs : List Phdr) : Decidable (Fits s phdrs) :=
  inferInstanceAs (Decidable (_ ≤ _))

/-- The tests of `load_image` let the module through. -/
def PassesTest (s : LoaderState) (phdrs : List Phdr) : Prop :=
  (loadRange phdrs).1 < (loadRange phdrs).2 ∧
    alignUp s.used + ((loadRange phdrs).2 - (loadRange phdrs).1) ≤ poolBytes

/-- The range of the loader has the exact lowest address, and an end that is not too high. -/
def UpTo (range : UInt32 × UInt32) (exact : Nat × Nat) : Prop :=
  range.1.toNat = exact.1 ∧ range.2.toNat ≤ exact.2

theorem UpTo.widen {range : UInt32 × UInt32} {exact : Nat × Nat} (h : UpTo range exact)
    (ph : Phdr) : UpTo (widen range ph) (widenExact exact ph) := by
  obtain ⟨hlow, hhigh⟩ := h
  unfold Loader.widen widenExact
  by_cases hloads : ph.Loads
  · rw [if_pos hloads, if_pos hloads]
    -- an end that wraps is lower than the end it stands for
    have hwrap : (ph.pVaddr + ph.pMemsz).toNat ≤ ph.pVaddr.toNat + ph.pMemsz.toNat := by
      rw [UInt32.toNat_add]
      exact Nat.mod_le _ _
    refine ⟨?_, ?_⟩
    · simp only [UInt32.lt_iff_toNat_lt]
      split_ifs <;> omega
    · simp only [gt_iff_lt, UInt32.lt_iff_toNat_lt]
      split_ifs <;> omega
  · rw [if_neg hloads, if_neg hloads]
    exact ⟨hlow, hhigh⟩

theorem UpTo.foldl (phdrs : List Phdr) :
    ∀ {range : UInt32 × UInt32} {exact : Nat × Nat}, UpTo range exact →
      UpTo (phdrs.foldl Loader.widen range) (phdrs.foldl widenExact exact) := by
  induction phdrs with
  | nil => exact fun h => h
  | cons ph phdrs ih => exact fun h => ih (h.widen ph)

/-- The lowest address is exact, and no end is above the one over the integers. -/
theorem loadRange_exact (phdrs : List Phdr) : UpTo (loadRange phdrs) (exactRange phdrs) :=
  UpTo.foldl phdrs ⟨rfl, Nat.le_refl 0⟩

/-- The size the loader works with is at most the extent. -/
theorem totalSize_le_extent {phdrs : List Phdr}
    (h : (loadRange phdrs).1 < (loadRange phdrs).2) :
    0 < ((loadRange phdrs).2 - (loadRange phdrs).1).toNat ∧
      ((loadRange phdrs).2 - (loadRange phdrs).1).toNat ≤ extent phdrs := by
  obtain ⟨hlow, hhigh⟩ := loadRange_exact phdrs
  rw [UInt32.toNat_sub_of_le _ _ (UInt32.le_of_lt h), extent]
  rw [UInt32.lt_iff_toNat_lt] at h
  omega

/-- What is asked of the place of a module: it lies behind the host app, at a multiple of 16, and
ends in the pool; and a module that does not fit is refused before anything is stored. -/
structure WellPlaced (s : LoaderState) (file : Option File)
    (r : Except LoadResult Module × LoaderState) : Prop where
  inside : ∀ m, r.1 = .ok m → ∃ off, m.mem.toNat = s.base.toNat + off ∧ s.used.toNat ≤ off ∧
    16 ∣ off ∧ off + m.memSize.toNat ≤ poolBytes.toNat
  refused : ∀ f phdrs, file = some f → readHeaders f = .ok phdrs → ¬ Fits s phdrs →
    (∃ e, r.1 = .error e) ∧ r.2.ram.stored = s.ram.stored

section Module

variable {site : Site} {exports : Exports} {s : LoaderState} {file : Option File}
  {malloced : Bool}

theorem loadModule_image (site : Site) (exports : Exports) (file : Option File) (malloced : Bool)
    (hbase : s.base ≠ 0) (hactive : s.active = none) :
    (loadModule site exports file malloced s).2.ram =
        (loadImage site exports true (CText.ascii "jpp_module_entry") none file s).2.ram ∧
      ∀ e s', loadImage site exports true (CText.ascii "jpp_module_entry") none file s =
          (.error e, s') → (loadModule site exports file malloced s).1 = .error e := by
  unfold loadModule
  rw [if_neg hbase, if_neg (not_not.mpr hactive)]
  cases loadImage site exports true (CText.ascii "jpp_module_entry") none file s with
  | mk result s₁ =>
      cases result with
      | error r => exact ⟨rfl, fun e s' h => by rw [(Except.error.inj (Prod.mk.inj h).1)]⟩
      | ok img =>
          simp only
          split_ifs
          · exact ⟨rfl, fun e s' h => (by cases h)⟩
          · exact ⟨rfl, fun e s' h => (by cases h)⟩

/-- A module that passes the tests is filled in behind the host app. -/
theorem loadImage_of_passes {f : File} {phdrs : List Phdr} (hheaders : readHeaders f = .ok phdrs)
    (hpasses : PassesTest s phdrs) :
    loadImage site exports true (CText.ascii "jpp_module_entry") none (some f) s =
      fillImage exports true (CText.ascii "jpp_module_entry") none f phdrs (loadRange phdrs).1
        ((loadRange phdrs).2 - (loadRange phdrs).1) (s.base + alignUp s.used) (fopen s) := by
  obtain ⟨hrange, hfit⟩ := hpasses
  have hplace : place site true ((loadRange phdrs).2 - (loadRange phdrs).1) (fopen s) =
      (some (s.base + alignUp s.used), fopen s) := by
    unfold place
    simp only [Bool.not_true, Bool.false_eq_true, if_false]
    rw [if_neg (by simpa [fopen] using hfit)]
    rfl
  unfold loadImage
  simp only [hheaders]
  rw [if_neg (by simpa using hrange)]
  simp only [hplace]

/-- A module that passes the tests is stored to the pool. -/
theorem loadModule_stores {f : File} {phdrs : List Phdr} (hbase : s.base ≠ 0)
    (hactive : s.active = none) (hheaders : readHeaders f = .ok phdrs)
    (hpasses : PassesTest s phdrs) :
    (loadModule site exports (some f) malloced s).2.ram.stored ≠ s.ram.stored := by
  rw [(loadModule_image site exports (some f) malloced hbase hactive).1,
    loadImage_of_passes hheaders hpasses]
  obtain ⟨ram, hstate, hextends, -⟩ := fillImage_state exports true
    (CText.ascii "jpp_module_entry") none f phdrs (loadRange phdrs).1
    ((loadRange phdrs).2 - (loadRange phdrs).1) (s.base + alignUp s.used) (fopen s)
  rw [hstate]
  exact hextends.ne_of_fill

theorem passes_of_placing {f : File} {phdrs : List Phdr} {lo hi mem : UInt32}
    {s₁ : LoaderState} (h : Placing site true s f phdrs lo hi mem s₁) : PassesTest s phdrs := by
  have hfit := (place_module h.placed).2.1
  unfold PassesTest
  rw [h.range]
  exact ⟨h.nonempty, hfit⟩

/-- A module that does not pass the tests is refused with nothing changed. -/
theorem loadImage_of_not_passes (site : Site) (exports : Exports) {f : File} {phdrs : List Phdr}
    (hheaders : readHeaders f = .ok phdrs) (hpasses : ¬ PassesTest s phdrs) :
    ∃ r, loadImage site exports true (CText.ascii "jpp_module_entry") none (some f) s =
      (.error r, s) := by
  rcases loadImage_cases site exports true (CText.ascii "jpp_module_entry") none (some f) s with
    hrefused | ⟨f', phdrs', lo, hi, mem, s₁, hf, hplacing, -⟩
  · exact hrefused
  · obtain rfl := Option.some.inj hf
    obtain rfl := Except.ok.inj (hheaders.symm.trans hplacing.headers)
    exact absurd (passes_of_placing hplacing) hpasses

/-- A module that comes back has passed the tests, and has the size they were made with. -/
theorem loadModule_ok {m : Module} (h : (loadModule site exports file malloced s).1 = .ok m) :
    ∃ f phdrs, file = some f ∧ s.base ≠ 0 ∧ s.active = none ∧ readHeaders f = .ok phdrs ∧
      PassesTest s phdrs ∧ m.mem = s.base + alignUp s.used ∧
      m.memSize = (loadRange phdrs).2 - (loadRange phdrs).1 := by
  unfold loadModule at h
  by_cases hbase : s.base = 0
  · rw [if_pos hbase] at h
    cases h
  rw [if_neg hbase] at h
  by_cases hactive : s.active = none
  · rw [if_neg (not_not.mpr hactive)] at h
    rcases loadImage_cases site exports true (CText.ascii "jpp_module_entry") none file s with
      ⟨r, hrefused⟩ | ⟨f, phdrs, lo, hi, mem, s₁, hfile, hplacing, hfill⟩
    · rw [hrefused] at h
      cases h
    · cases hresult : fillImage exports true (CText.ascii "jpp_module_entry") none f phdrs lo
          (hi - lo) mem s₁ with
      | mk result s' =>
          rw [hfill, hresult] at h
          cases result with
          | error r => cases h
          | ok img =>
              obtain ⟨hmem, hsize⟩ := fillImage_ok hresult
              obtain ⟨hbehind, -, -⟩ := place_module hplacing.placed
              cases malloced with
              | false => cases h
              | true =>
                  obtain rfl := Except.ok.inj h
                  refine ⟨f, phdrs, hfile, hbase, hactive, hplacing.headers,
                    passes_of_placing hplacing, hmem.trans hbehind, ?_⟩
                  rw [hplacing.range]
                  exact hsize
  · rw [if_pos hactive] at h
    cases h

/-- A module is placed as it should be exactly when it does not pass the tests without fitting. -/
theorem module_placed_iff (hs : Sound site s) :
    WellPlaced s file (loadModule site exports file malloced s) ↔
      (s.base ≠ 0 → s.active = none → ∀ f phdrs, file = some f → readHeaders f = .ok phdrs →
        PassesTest s phdrs → Fits s phdrs) := by
  constructor
  · rintro h hbase hactive f phdrs rfl hheaders hpasses
    by_contra hfits
    exact loadModule_stores hbase hactive hheaders hpasses
      (h.refused f phdrs rfl hheaders hfits).2
  · intro h
    refine ⟨fun m hm => ?_, ?_⟩
    · obtain ⟨f, phdrs, hfile, hbase, hactive, hheaders, hpasses, hmem, hsize⟩ := loadModule_ok hm
      have hfits := h hbase hactive f phdrs hfile hheaders hpasses
      obtain ⟨hpos, hle⟩ := totalSize_le_extent hpasses.1
      obtain ⟨hsite, hused, -⟩ := hs.host hbase
      rw [UInt32.le_iff_toNat_le] at hused
      have hroom := site.fits
      unfold Fits at hfits
      refine ⟨(alignUp s.used).toNat, ?_, used_le_roundUp hused (by decide) (by decide), ?_, ?_⟩
      · rw [hmem, UInt32.toNat_add, Nat.mod_eq_of_lt (by rw [hsite]; omega)]
      · exact dvd_roundUp (k := 4) (by decide) (by decide)
      · rw [hsize]
        omega
    · rintro f phdrs rfl hheaders hfits
      by_cases hbase : s.base = 0
      · unfold loadModule
        rw [if_pos hbase]
        exact ⟨⟨_, rfl⟩, rfl⟩
      · by_cases hactive : s.active = none
        · have hpasses : ¬ PassesTest s phdrs :=
            fun hpasses => hfits (h hbase hactive f phdrs rfl hheaders hpasses)
          obtain ⟨r, hrefused⟩ := loadImage_of_not_passes site exports hheaders hpasses
          obtain ⟨hram, herror⟩ := loadModule_image site exports (some f) malloced
            hbase hactive
          exact ⟨⟨r, herror r s hrefused⟩, by rw [hram, hrefused]⟩
        · unfold loadModule
          rw [if_neg hbase, if_pos hactive]
          exact ⟨⟨_, rfl⟩, rfl⟩

end Module

/-- The pool of a device. -/
def devicePool : Site := ⟨0x40800000, fun _ => False, by decide, by decide, by decide⟩

/-- A host app of 64 bytes is loaded. -/
def hosting : LoaderState :=
  ⟨⟨true, 0, some "app"⟩, 0x40800000, 64, none, 0, ⟨fun _ => 0xAA, []⟩⟩

theorem hosting_sound : Sound devicePool hosting where
  host _ := ⟨rfl, by decide, rfl⟩
  vacant h := absurd h (by decide)
  idle h := (by cases h)

/-- A module of one segment of `size` bytes, without a file part. -/
def zeroModule (size : Nat) : File := soundFile (ehdrBytes 1 ++ phdrBytes 1 0 0 0 size)

/-- A module of 4 GiB less 16 bytes passes the fit test, and all memory is zeroed. -/
theorem not_module_placed :
    ¬ ∀ (s : LoaderState) (file : Option File) (malloced : Bool), Sound devicePool s →
      WellPlaced s file (loadModule devicePool [] file malloced s) := by
  intro hall
  have hplaced := hall hosting (some (zeroModule 0xFFFFFFF0)) true hosting_sound
  have hheaders : readHeaders (zeroModule 0xFFFFFFF0) = .ok [⟨1, 0, 0, 0, 0xFFFFFFF0⟩] := by
    decide
  have hstored := (hplaced.refused _ _ rfl hheaders (by decide)).2
  exact absurd hstored (by decide)

/-- A module of 4 KiB is placed well. -/
theorem module_placed_small :
    WellPlaced hosting (some (zeroModule 4096))
      (loadModule devicePool [] (some (zeroModule 4096)) true hosting) := by
  refine (module_placed_iff hosting_sound).mpr fun _ _ f phdrs hfile hheaders _ => ?_
  have hread : readHeaders (zeroModule 4096) = .ok [⟨1, 0, 0, 0, 4096⟩] := by decide
  rw [← Option.some.inj hfile, hread] at hheaders
  rw [← Except.ok.inj hheaders]
  decide

end Loader
end JppDos
