import JppDos.Loader.Placement

/-!
# Loads that fail

What a load leaves behind when it fails, and what it and the free that belongs to it leave behind
when it does not.  Wherever a load ends, the variables, the pool and the open files are in order;
the bytes of the host app are when no store of the load hits them.
-/

namespace JppDos
namespace Loader

open LittleEndian Loops Memory Pool

/-- The bytes that a load must not change: those of the variables and those of the host app. -/
def Kept (site : Site) (s : LoaderState) (a : UInt32) : Prop :=
  site.statics a ∨ s.base ≠ 0 ∧ InRange s.base s.used.toNat a

/-- Nothing is different from before. -/
structure Unchanged (site : Site) (s s' : LoaderState) : Prop where
  pool : s'.pool = s.pool
  base : s'.base = s.base
  used : s'.used = s.used
  active : s'.active = s.active
  openFiles : s'.openFiles = s.openFiles
  bytes : Ram.Agrees (Kept site s) s.ram s'.ram

/-- A load leaves everything as it was: when it fails, and when what it loaded is freed. -/
structure LeavesAsWas {α : Type} (site : Site) (s : LoaderState)
    (free : α → LoaderState → LoaderState) (r : Except LoadResult α × LoaderState) : Prop where
  failed : ∀ e, r.1 = .error e → Unchanged site s r.2
  freed : ∀ a, r.1 = .ok a → Unchanged site s (free a r.2)

section Failure

variable {site : Site} {exports : Exports} {s s' : LoaderState} {file : Option File}
  {malloced : Bool}

theorem Placing.ram {asModule : Bool} {f : File} {phdrs : List Phdr} {lo hi mem : UInt32}
    {s₁ : LoaderState} (h : Placing site asModule s f phdrs lo hi mem s₁) : s₁.ram = s.ram := by
  cases asModule with
  | true => rw [(place_module h.placed).2.2, fopen]
  | false =>
      obtain ⟨-, -, -, pool, -, rfl⟩ := place_app h.placed
      rfl

end Failure

theorem LeavesAsWas.bytes {site : Site} {s : LoaderState}
    {r : Except LoadResult Module × LoaderState} (h : LeavesAsWas site s moduleFree r) :
    Ram.Agrees (Kept site s) s.ram r.2.ram := by
  obtain ⟨result, s'⟩ := r
  cases result with
  | error e => exact (h.failed e rfl).bytes
  | ok m =>
      have hfree : (moduleFree m s').ram = s'.ram := by
        unfold moduleFree
        split_ifs <;> rfl
      rw [← hfree]
      exact (h.freed m rfl).bytes

end Loader
end JppDos
