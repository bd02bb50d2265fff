import Mathlib.Algebra.Group.Nat.Defs
import Mathlib.Data.List.Pairwise
import Mathlib.Data.Nat.Bits
import Mathlib.Tactic.Common

/-!
# The shared pool of the running app

One static block of memory with a flag, a bump pointer and the label of its owner.
`size_t` is 32 bits wide on the device.

Main fact:
* `release_by_other`: releasing does not ask who holds the pool.
-/

namespace JppDos
namespace Pool

/-- `JPP_APP_POOL_BYTES`. -/
def poolBytes : UInt32 := 80 * 1024

/-- `s_in_use`, `s_used` and `s_owner`. -/
structure AppPool where
  inUse : Bool
  used : UInt32
  owner : Option String
  deriving DecidableEq

/-- The statics before the first call. -/
def AppPool.boot : AppPool := { inUse := false, used := 0, owner := none }

/-- `jpp_app_pool_acquire_as`: the offset of the block and the value of `out_size`. -/
def acquireAs (owner : Option String) (needBytes : UInt32) (pool : AppPool) :
    Option (UInt32 × UInt32) × AppPool :=
  if pool.inUse then (none, pool)
  else if needBytes > poolBytes then (none, pool)
  else
    (some (0, poolBytes), { inUse := true, used := 0, owner := some (owner.getD "app") })

/-- `jpp_app_pool_acquire`. -/
def acquire (needBytes : UInt32) (pool : AppPool) : Option (UInt32 × UInt32) × AppPool :=
  acquireAs (some "app") needBytes pool

/-- The rounding of `jpp_app_pool_alloc`: `(used + (align - 1)) & ~(align - 1)`. -/
def roundUp (used align : UInt32) : UInt32 := (used + (align - 1)) &&& ~~~(align - 1)

/-- The alignment that `jpp_app_pool_alloc` works with. -/
def atLeastFour (align : UInt32) : UInt32 := if align < 4 then 4 else align

/-- `jpp_app_pool_alloc`: the offset of the block. -/
def alloc (bytes align : UInt32) (pool : AppPool) : Option UInt32 × AppPool :=
  if !pool.inUse then (none, pool)
  else
    let start := roundUp pool.used (atLeastFour align)
    if start > poolBytes || bytes > poolBytes - start then (none, pool)
    else (some start, { pool with used := start + bytes })

/-- `jpp_app_pool_avail`. -/
def avail (pool : AppPool) : UInt32 := if pool.inUse then poolBytes - pool.used else poolBytes

/-- `jpp_app_pool_release`. -/
def release (_pool : AppPool) : AppPool := { inUse := false, used := 0, owner := none }

/-- A call of one of the functions that change the pool. -/
inductive PoolOp
  | acquireAs (owner : Option String) (needBytes : UInt32)
  | alloc (bytes align : UInt32)
  | release
  deriving DecidableEq

/-- A call and the task that makes it, which the functions are not told. -/
structure PoolCall (τ : Type) where
  caller : τ
  op : PoolOp
  deriving DecidableEq

/-- A block given out by `jpp_app_pool_alloc`, with the request it answers. -/
structure Block where
  start : Nat
  bytes : Nat
  align : Nat
  deriving DecidableEq

/-- The blocks do not overlap. -/
def Block.Apart (b b' : Block) : Prop :=
  b.start + b.bytes ≤ b'.start ∨ b'.start + b'.bytes ≤ b.start

/-- The pool with the blocks in use and the tasks that took it and did not see it released. -/
structure PoolRun (τ : Type) where
  pool : AppPool
  live : List Block
  holders : List τ
  deriving DecidableEq

section Calls

variable {τ : Type}

/-- The device before the first call. -/
def PoolRun.boot : PoolRun τ := { pool := .boot, live := [], holders := [] }

/-- One call.  A release frees all blocks, and so does taking the pool. -/
def poolCall (s : PoolRun τ) (call : PoolCall τ) : PoolRun τ :=
  match call.op with
  | .acquireAs owner needBytes =>
      match acquireAs owner needBytes s.pool with
      | (none, pool) => { s with pool := pool }
      | (some _, pool) => { pool := pool, live := [], holders := call.caller :: s.holders }
  | .alloc bytes align =>
      match alloc bytes align s.pool with
      | (none, pool) => { s with pool := pool }
      | (some start, pool) =>
          { s with pool := pool, live := ⟨start.toNat, bytes.toNat, align.toNat⟩ :: s.live }
  | .release => { pool := release s.pool, live := [], holders := [] }

/-- The device after a sequence of calls. -/
def poolCalls (calls : List (PoolCall τ)) : PoolRun τ := calls.foldl poolCall .boot

end Calls

/-- Where the linker put `s_pool`, which is `aligned(16)`. -/
structure PoolSite where
  base : Nat
  aligned : 16 ∣ base

/-- A place of a block as the request wants it, behind all blocks in use. -/
def AppPool.Place (pool : AppPool) (align : UInt32) (start : Nat) : Prop :=
  pool.used.toNat ≤ start ∧ ∀ k, align.toNat = 2 ^ k → 2 ^ k ∣ start

/-- A call that the pool cannot serve: taking a held pool or more than there is, a block
from a free pool or one that no place has room for, giving back a free pool. -/
def PoolOp.Unfit (pool : AppPool) : PoolOp → Prop
  | .acquireAs _ needBytes => pool.inUse = true ∨ poolBytes < needBytes
  | .alloc bytes align =>
      pool.inUse = false ∨
        ∀ start, pool.Place align start → poolBytes.toNat < start + bytes.toNat
  | .release => pool.inUse = false

/-- The alignment of a request is at most 16. -/
def PoolOp.AlignedTo16 : PoolOp → Prop
  | .alloc _ align => align ≤ 16
  | _ => True

/-- What the pool promises its holders. -/
structure PoolRun.Safe {τ : Type} (site : PoolSite) (s : PoolRun τ) : Prop where
  inside : ∀ b ∈ s.live, b.start + b.bytes ≤ poolBytes.toNat
  aligned : ∀ b ∈ s.live, ∀ k, b.align = 2 ^ k → 2 ^ k ∣ site.base + b.start
  apart : s.live.Pairwise Block.Apart
  accounted : s.pool.used.toNat + (avail s.pool).toNat = poolBytes.toNat
  one_holder : s.holders.length ≤ 1
  held : s.pool.inUse = true ↔ s.holders ≠ []
  unfit : ∀ call : PoolCall τ, call.op.AlignedTo16 → call.op.Unfit s.pool →
    poolCall s call = s

theorem and_not_add (x m : UInt32) : (x &&& ~~~m).toNat + (x &&& m).toNat = x.toNat := by
  have hzero : (x.toBitVec &&& ~~~m.toBitVec) &&& (x.toBitVec &&& m.toBitVec) = 0#32 := by
    ext i hi
    simp only [BitVec.getElem_and, BitVec.getElem_not, BitVec.getElem_zero]
    cases x.toBitVec[i] <;> cases m.toBitVec[i] <;> rfl
  have hor : (x.toBitVec &&& ~~~m.toBitVec) ||| (x.toBitVec &&& m.toBitVec) = x.toBitVec := by
    ext i hi
    simp only [BitVec.getElem_or, BitVec.getElem_and, BitVec.getElem_not]
    cases x.toBitVec[i] <;> cases m.toBitVec[i] <;> rfl
  have hadd := BitVec.toNat_add_of_and_eq_zero hzero
  rw [BitVec.add_eq_or_of_and_eq_zero _ _ hzero, hor] at hadd
  exact hadd.symm

theorem toNat_sub_one {align : UInt32} (h4 : 4 ≤ align.toNat) :
    (align - 1).toNat = align.toNat - 1 := by
  have hone : (1 : UInt32) ≤ align := UInt32.le_iff_toNat_le.mpr (by simp; omega)
  exact UInt32.toNat_sub_of_le _ _ hone

theorem toNat_add_sub_one {used align : UInt32} (hused : used.toNat ≤ poolBytes.toNat)
    (h4 : 4 ≤ align.toNat) (h16 : align.toNat ≤ 16) :
    (used + (align - 1)).toNat = used.toNat + (align.toNat - 1) := by
  have hpool : poolBytes.toNat = 81920 := rfl
  rw [UInt32.toNat_add, toNat_sub_one h4, Nat.mod_eq_of_lt (by omega)]

theorem used_le_roundUp {used align : UInt32} (hused : used.toNat ≤ poolBytes.toNat)
    (h4 : 4 ≤ align.toNat) (h16 : align.toNat ≤ 16) :
    used.toNat ≤ (roundUp used align).toNat := by
  have hsplit := and_not_add (used + (align - 1)) (align - 1)
  have hmask : ((used + (align - 1)) &&& (align - 1)).toNat ≤ align.toNat - 1 := by
    rw [UInt32.toNat_and, toNat_sub_one h4]
    exact Nat.and_le_right
  rw [toNat_add_sub_one hused h4 h16] at hsplit
  rw [roundUp]
  omega

/-- Rounding to a power of two gives a multiple of it, at every position. -/
theorem dvd_roundUp {used align : UInt32} {k : Nat} (h4 : 4 ≤ align.toNat)
    (hk : align.toNat = 2 ^ k) : 2 ^ k ∣ (roundUp used align).toNat := by
  have hsplit := and_not_add (used + (align - 1)) (align - 1)
  have hmask : ((used + (align - 1)) &&& (align - 1)).toNat =
      (used + (align - 1)).toNat % 2 ^ k := by
    rw [UInt32.toNat_and, toNat_sub_one h4, hk, Nat.and_two_pow_sub_one_eq_mod]
  have hdiv := Nat.div_add_mod (used + (align - 1)).toNat (2 ^ k)
  rw [hmask] at hsplit
  have hfloor : (roundUp used align).toNat =
      2 ^ k * ((used + (align - 1)).toNat / 2 ^ k) := by
    rw [roundUp]
    omega
  exact ⟨_, hfloor⟩

theorem four_le_atLeastFour (align : UInt32) : 4 ≤ (atLeastFour align).toNat := by
  rw [atLeastFour]
  split
  · exact Nat.le_refl _
  · rename_i h
    exact UInt32.le_iff_toNat_le.mp (UInt32.not_lt.mp h)

theorem atLeastFour_le {align : UInt32} (h : align ≤ 16) : (atLeastFour align).toNat ≤ 16 := by
  rw [atLeastFour]
  split
  · decide
  · exact UInt32.le_iff_toNat_le.mp h

theorem dvd_atLeastFour {align : UInt32} {k start : Nat} (hk : align.toNat = 2 ^ k)
    (h : ∀ j, (atLeastFour align).toNat = 2 ^ j → 2 ^ j ∣ start) : 2 ^ k ∣ start := by
  rw [atLeastFour] at h
  split at h
  · rename_i hlt
    have hk4 : 2 ^ k < 2 ^ 2 := hk ▸ UInt32.lt_iff_toNat_lt.mp hlt
    have hk2 : k ≤ 2 := Nat.le_of_lt ((Nat.pow_lt_pow_iff_right (by decide)).mp hk4)
    exact Nat.dvd_trans (Nat.pow_dvd_pow 2 hk2) (h 2 rfl)
  · exact h k hk

/-- Everything `jpp_app_pool_alloc` can do. -/
theorem alloc_cases (bytes align : UInt32) (pool : AppPool) :
    alloc bytes align pool = (none, pool) ∨
      ∃ start, alloc bytes align pool = (some start, { pool with used := start + bytes }) ∧
        pool.inUse = true ∧ start = roundUp pool.used (atLeastFour align) ∧
        start.toNat + bytes.toNat ≤ poolBytes.toNat := by
  rw [alloc]
  split
  · exact .inl rfl
  · rename_i hheld
    simp only
    split
    · exact .inl rfl
    · rename_i hfits
      simp only [Bool.or_eq_true, decide_eq_true_eq, not_or, UInt32.not_lt] at hfits
      refine .inr ⟨_, rfl, by simpa using hheld, rfl, ?_⟩
      have hstart := UInt32.le_iff_toNat_le.mp hfits.1
      have hbytes := UInt32.le_iff_toNat_le.mp hfits.2
      rw [UInt32.toNat_sub_of_le _ _ hfits.1] at hbytes
      omega

/-- Everything `jpp_app_pool_acquire_as` can do. -/
theorem acquireAs_cases (owner : Option String) (needBytes : UInt32) (pool : AppPool) :
    acquireAs owner needBytes pool = (none, pool) ∨
      acquireAs owner needBytes pool = (some (0, poolBytes),
          { inUse := true, used := 0, owner := some (owner.getD "app") }) ∧
        pool.inUse = false ∧ needBytes ≤ poolBytes := by
  rw [acquireAs]
  split
  · exact .inl rfl
  · rename_i hfree
    split
    · exact .inl rfl
    · rename_i hneed
      exact .inr ⟨rfl, by simpa using hfree, UInt32.not_lt.mp hneed⟩

/-- The blocks lie one behind the other below the bump pointer. -/
structure Placed (site : PoolSite) (used : Nat) (live : List Block) : Prop where
  below : ∀ b ∈ live, b.start + b.bytes ≤ used
  apart : live.Pairwise Block.Apart
  aligned : ∀ b ∈ live, ∀ k, b.align = 2 ^ k → 2 ^ k ∣ site.base + b.start

theorem Placed.nil (site : PoolSite) (used : Nat) : Placed site used [] :=
  ⟨nofun, .nil, nofun⟩

/-- A block behind the bump pointer overlaps no block before it. -/
theorem Placed.push {site : PoolSite} {used : Nat} {live : List Block}
    (h : Placed site used live) {b : Block} (hused : used ≤ b.start)
    (halign : ∀ k, b.align = 2 ^ k → 2 ^ k ∣ site.base + b.start) :
    Placed site (b.start + b.bytes) (b :: live) where
  below c hc := by
    rcases List.mem_cons.mp hc with rfl | hc
    · exact Nat.le_refl _
    · have hbelow := h.below c hc
      omega
  apart := List.pairwise_cons.mpr
    ⟨fun c hc => .inr (Nat.le_trans (h.below c hc) hused), h.apart⟩
  aligned c hc := by
    rcases List.mem_cons.mp hc with rfl | hc
    · exact halign
    · exact h.aligned c hc

/-- The invariant of the calls. -/
structure PoolRun.Inv {τ : Type} (site : PoolSite) (s : PoolRun τ) : Prop where
  used_le : s.pool.used.toNat ≤ poolBytes.toNat
  placed : Placed site s.pool.used.toNat s.live
  free : s.pool.inUse = false → s = .boot
  one_holder : s.pool.inUse = true → s.holders.length = 1

section Runs

variable {τ : Type} {site : PoolSite}

theorem PoolRun.Inv.boot : (PoolRun.boot : PoolRun τ).Inv site where
  used_le := Nat.zero_le _
  placed := .nil site _
  free _ := rfl
  one_holder h := by cases h

/-- A place that is aligned in the pool is aligned in memory. -/
theorem PoolSite.dvd_add (site : PoolSite) {align : UInt32} (h16 : align ≤ 16) {k start : Nat}
    (hk : align.toNat = 2 ^ k) (h : 2 ^ k ∣ start) : 2 ^ k ∣ site.base + start := by
  have hle : 2 ^ k ≤ 2 ^ 4 := hk ▸ UInt32.le_iff_toNat_le.mp h16
  have hk4 : k ≤ 4 := (Nat.pow_le_pow_iff_right (by decide)).mp hle
  exact Nat.dvd_add (Nat.dvd_trans (Nat.pow_dvd_pow 2 hk4) site.aligned) h

theorem PoolRun.Inv.acquire {s : PoolRun τ} (h : s.Inv site) (call : PoolCall τ)
    (owner : Option String) (needBytes : UInt32) (hop : call.op = .acquireAs owner needBytes) :
    (poolCall s call).Inv site := by
  rw [poolCall, hop]
  rcases acquireAs_cases owner needBytes s.pool with heq | ⟨heq, hfree, -⟩
  · simpa only [heq] using h
  · simp only [heq]
    have hboot : s.holders = [] := by rw [h.free hfree]; rfl
    exact
      { used_le := Nat.zero_le _
        placed := .nil site _
        free := nofun
        one_holder := fun _ => by rw [hboot]; rfl }

theorem PoolRun.Inv.alloc {s : PoolRun τ} (h : s.Inv site) (call : PoolCall τ)
    (bytes align : UInt32) (hop : call.op = .alloc bytes align) (h16 : align ≤ 16) :
    (poolCall s call).Inv site := by
  rw [poolCall, hop]
  rcases alloc_cases bytes align s.pool with heq | ⟨start, heq, hheld, hstart, hfits⟩
  · simpa only [heq] using h
  · simp only [heq]
    have hused : s.pool.used.toNat ≤ start.toNat := by
      rw [hstart]
      exact used_le_roundUp h.used_le (four_le_atLeastFour align) (atLeastFour_le h16)
    have hsum : (start + bytes).toNat = start.toNat + bytes.toNat := by
      have hpool : poolBytes.toNat = 81920 := rfl
      rw [UInt32.toNat_add, Nat.mod_eq_of_lt (by omega)]
    have halign : ∀ k, align.toNat = 2 ^ k → 2 ^ k ∣ site.base + start.toNat := fun k hk => by
      refine site.dvd_add h16 hk (dvd_atLeastFour hk fun j hj => ?_)
      rw [hstart]
      exact dvd_roundUp (four_le_atLeastFour align) hj
    refine
      { used_le := by rw [hsum]; exact hfits
        placed := ?_
        free := fun hfree => by rw [hheld] at hfree; cases hfree
        one_holder := h.one_holder }
    rw [hsum]
    exact h.placed.push (b := ⟨start.toNat, bytes.toNat, align.toNat⟩) hused halign

theorem PoolRun.Inv.step {s : PoolRun τ} (h : s.Inv site) {call : PoolCall τ}
    (h16 : call.op.AlignedTo16) : (poolCall s call).Inv site := by
  obtain ⟨caller, op⟩ := call
  cases op with
  | acquireAs owner needBytes => exact h.acquire _ owner needBytes rfl
  | alloc bytes align => exact h.alloc _ bytes align rfl h16
  | release => exact .boot

theorem PoolRun.Inv.run {calls : List (PoolCall τ)} (h16 : ∀ call ∈ calls, call.op.AlignedTo16)
    {s : PoolRun τ} (h : s.Inv site) : (calls.foldl poolCall s).Inv site := by
  induction calls generalizing s with
  | nil => exact h
  | cons call calls ih =>
      exact ih (fun c hc => h16 c (List.mem_cons_of_mem _ hc))
        (h.step (h16 call List.mem_cons_self))

theorem PoolRun.Inv.accounted {s : PoolRun τ} (h : s.Inv site) :
    s.pool.used.toNat + (avail s.pool).toNat = poolBytes.toNat := by
  rw [avail]
  split
  · rw [UInt32.toNat_sub_of_le _ _ (UInt32.le_iff_toNat_le.mpr h.used_le)]
    exact Nat.add_sub_of_le h.used_le
  · rename_i hfree
    rw [h.free (by simpa using hfree)]
    exact Nat.zero_add _

theorem PoolRun.Inv.unfit {s : PoolRun τ} (h : s.Inv site) {call : PoolCall τ}
    (h16 : call.op.AlignedTo16) (hunfit : call.op.Unfit s.pool) : poolCall s call = s := by
  obtain ⟨caller, op⟩ := call
  cases op with
  | acquireAs owner needBytes =>
      rcases acquireAs_cases owner needBytes s.pool with heq | ⟨-, hfree, hneed⟩
      · simp only [poolCall, heq]
      · rcases hunfit with hheld | hlarge
        · rw [hfree] at hheld
          cases hheld
        · exact absurd hlarge (UInt32.not_lt.mpr hneed)
  | alloc bytes align =>
      rcases alloc_cases bytes align s.pool with heq | ⟨start, -, hheld, hstart, hfits⟩
      · simp only [poolCall, heq]
      · rcases hunfit with hfree | hfull
        · rw [hfree] at hheld
          cases hheld
        · have hplace : s.pool.Place align start.toNat := by
            rw [hstart]
            exact ⟨used_le_roundUp h.used_le (four_le_atLeastFour align) (atLeastFour_le h16),
              fun k hk => dvd_atLeastFour hk fun j hj =>
                dvd_roundUp (four_le_atLeastFour align) hj⟩
          exact absurd (hfull _ hplace) (Nat.not_lt.mpr hfits)
  | release =>
      rw [h.free hunfit]
      rfl

/-- After every sequence of calls by any tasks, whoever makes them, the blocks in use lie in
the pool, as they were asked for and apart from each other, all of the pool is accounted for,
one task at most holds it, and a call it cannot serve changes nothing. -/
theorem pool_safe (site : PoolSite) (calls : List (PoolCall τ))
    (h16 : ∀ call ∈ calls, call.op.AlignedTo16) : (poolCalls calls).Safe site := by
  have h : (poolCalls calls).Inv site := PoolRun.Inv.run h16 .boot
  exact
    { inside := fun b hb => Nat.le_trans (h.placed.below b hb) h.used_le
      aligned := h.placed.aligned
      apart := h.placed.apart
      accounted := h.accounted
      one_holder := by
        cases hheld : (poolCalls calls).pool.inUse with
        | false => rw [h.free hheld]; exact Nat.zero_le _
        | true => exact Nat.le_of_eq (h.one_holder hheld)
      held := by
        constructor
        · intro hheld hnone
          have hone := h.one_holder hheld
          rw [hnone] at hone
          cases hone
        · intro hsome
          cases hheld : (poolCalls calls).pool.inUse with
          | false => exact absurd (by rw [h.free hheld]; rfl) hsome
          | true => rfl
      unfit := fun call h16 => h.unfit h16 }

/-- A server takes the pool and carves two blocks. -/
def serverCalls : List (PoolCall String) :=
  [⟨"webdav", .acquireAs (some "webdav") 0⟩, ⟨"webdav", .alloc 100 16⟩,
    ⟨"webdav", .alloc 8192 16⟩]

theorem pool_safe_serverCalls : (poolCalls serverCalls).Safe ⟨16, Nat.dvd_refl 16⟩ :=
  pool_safe ⟨16, Nat.dvd_refl 16⟩ serverCalls (by
    intro call hcall
    simp only [serverCalls, List.mem_cons, List.not_mem_nil, or_false] at hcall
    rcases hcall with rfl | rfl | rfl
    · trivial
    · exact (by decide : (16 : UInt32) ≤ 16)
    · exact (by decide : (16 : UInt32) ≤ 16))

/-- Another task than the holder can carve a block and give the whole pool back: the
functions are not told who calls them. -/
theorem release_by_other :
    (poolCalls serverCalls).holders = ["webdav"] ∧
      poolCall (poolCalls serverCalls) ⟨"app", .alloc 64 4⟩ ≠ poolCalls serverCalls ∧
      poolCall (poolCalls serverCalls) ⟨"app", .release⟩ ≠ poolCalls serverCalls := by
  decide

end Runs

end Pool
end JppDos
