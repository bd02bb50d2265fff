import Mathlib.Algebra.Order.BigOperators.Group.List
import Mathlib.Algebra.Order.Ring.Nat
import Mathlib.Data.List.Basic
import Mathlib.Data.List.Induction
import Mathlib.Data.List.Nodup
import Mathlib.Tactic.Common

/-!
# Finite directory trees

A tree of directories and files, given by its entries: each has the directory that it stands
in, its name, and what it is.  The root has no entry of its own.
-/

namespace JppDos

/-- What an entry is. -/
inductive FileKind (σ : Type)
  | file (content : σ)
  | dir
  deriving DecidableEq

/-- An entry of a directory. -/
structure TreeEntry (ν σ : Type) where
  dir : List ν
  name : ν
  kind : FileKind σ
  deriving DecidableEq

/-- The names on the way from the root to an entry. -/
def TreeEntry.path {ν σ : Type} (e : TreeEntry ν σ) : List ν := e.dir ++ [e.name]

/-- A finite tree: no two entries stand at one path, and each stands in a directory. -/
structure FileTree (ν σ : Type) where
  entries : List (TreeEntry ν σ)
  distinct : (entries.map TreeEntry.path).Nodup
  closed : ∀ e ∈ entries, e.dir = [] ∨ ∃ d ∈ entries, d.path = e.dir ∧ d.kind = .dir

namespace FileTree

variable {ν σ : Type}

/-- The entries of one tree are among those of another. -/
def Within (t t' : FileTree ν σ) : Prop := ∀ e ∈ t.entries, e ∈ t'.entries

theorem path_ne_nil (e : TreeEntry ν σ) : e.path ≠ [] := by simp [TreeEntry.path]

theorem Within.refl (t : FileTree ν σ) : t.Within t := fun _ h => h

theorem Within.trans {t t' t'' : FileTree ν σ} (h : t.Within t') (h' : t'.Within t'') :
    t.Within t'' := fun e he => h' e (h e he)

theorem eq_of_path {t : FileTree ν σ} {e e' : TreeEntry ν σ} (he : e ∈ t.entries)
    (he' : e' ∈ t.entries) (h : e.path = e'.path) : e = e' :=
  List.inj_on_of_nodup_map t.distinct he he' h

variable [DecidableEq ν]

/-- What stands at a path. -/
def lookup (t : FileTree ν σ) (p : List ν) : Option (FileKind σ) :=
  if p = [] then some .dir else (t.entries.find? fun e => e.path = p).map TreeEntry.kind

/-- The entries of a directory. -/
def list (t : FileTree ν σ) (p : List ν) : List (TreeEntry ν σ) :=
  t.entries.filter fun e => e.dir = p

variable {t : FileTree ν σ} {p q : List ν} {n : ν} {k : FileKind σ} {e : TreeEntry ν σ}

@[simp] theorem lookup_root (t : FileTree ν σ) : t.lookup [] = some .dir := rfl

theorem mem_list : e ∈ t.list p ↔ e ∈ t.entries ∧ e.dir = p := by
  simp [list]

theorem lookup_of_mem (h : e ∈ t.entries) : t.lookup e.path = some e.kind := by
  rw [lookup, if_neg (path_ne_nil e)]
  cases hfind : t.entries.find? fun e' => e'.path = e.path with
  | none => exact absurd (List.find?_eq_none.mp hfind e h) (by simp)
  | some e' =>
      have hpath : e'.path = e.path := by simpa using List.find?_some hfind
      rw [eq_of_path (List.mem_of_find?_eq_some hfind) h hpath]
      rfl

theorem mem_of_lookup (hp : p ≠ []) (h : t.lookup p = some k) :
    ∃ e ∈ t.entries, e.path = p ∧ e.kind = k := by
  rw [lookup, if_neg hp] at h
  obtain ⟨e, hfind, hkind⟩ := Option.map_eq_some_iff.mp h
  exact ⟨e, List.mem_of_find?_eq_some hfind, by simpa using List.find?_some hfind, hkind⟩

theorem mem_list_iff : e ∈ t.list p ↔ e.dir = p ∧ t.lookup (p ++ [e.name]) = some e.kind := by
  rw [mem_list]
  constructor
  · rintro ⟨he, rfl⟩
    exact ⟨rfl, lookup_of_mem he⟩
  · rintro ⟨rfl, hlookup⟩
    obtain ⟨e', he', hpath, hkind⟩ := mem_of_lookup (by simp) hlookup
    obtain ⟨hdir, hname⟩ := List.append_inj' hpath rfl
    have heq : e' = e := by
      cases e
      cases e'
      simp_all
    exact ⟨heq ▸ he', rfl⟩

theorem lookup_parent (h : t.lookup (p ++ [n]) = some k) : t.lookup p = some .dir := by
  obtain ⟨e, he, hpath, -⟩ := mem_of_lookup (by simp) h
  obtain ⟨hdir, -⟩ := List.append_inj' hpath rfl
  rcases t.closed e he with hroot | ⟨d, hd, hpath', hkind⟩
  · rw [← hdir, hroot]
    rfl
  · rw [← hdir, ← hpath', lookup_of_mem hd, hkind]

theorem lookup_of_list (h : t.list p ≠ []) : t.lookup p = some .dir := by
  obtain ⟨e, he⟩ := List.exists_mem_of_ne_nil _ h
  exact lookup_parent (mem_list_iff.mp he).2

theorem lookup_above (h : t.lookup (p ++ q) = some k) (hq : q ≠ []) :
    t.lookup p = some .dir := by
  induction q using List.reverseRecOn generalizing k with
  | nil => exact absurd rfl hq
  | append_singleton q n ih =>
      rw [← List.append_assoc] at h
      have hparent := lookup_parent h
      by_cases hnil : q = []
      · rwa [hnil, List.append_nil] at hparent
      · exact ih hparent hnil

theorem lookup_none_below (h : t.lookup p = none) (hpq : p <+: q) : t.lookup q = none := by
  obtain ⟨rest, rfl⟩ := hpq
  by_cases hrest : rest = []
  · rwa [hrest, List.append_nil]
  · cases hlookup : t.lookup (p ++ rest) with
    | none => rfl
    | some k =>
        rw [lookup_above hlookup hrest] at h
        cases h

theorem exists_depth (t : FileTree ν σ) :
    ∃ depth, ∀ p k, t.lookup p = some k → p.length ≤ depth := by
  refine ⟨(t.entries.map fun e => e.path.length).sum, fun p k h => ?_⟩
  by_cases hp : p = []
  · rw [hp]
    exact Nat.zero_le _
  · obtain ⟨e, he, rfl, -⟩ := mem_of_lookup hp h
    exact List.le_sum_of_mem (List.mem_map_of_mem he)

/-- The tree without the entry at a path that has nothing below it. -/
def erase (t : FileTree ν σ) (p : List ν) (h : t.list p = []) : FileTree ν σ where
  entries := t.entries.filter fun e => e.path ≠ p
  distinct := t.distinct.sublist (List.filter_sublist.map _)
  closed := by
    intro e he
    obtain ⟨he, -⟩ := List.mem_filter.mp he
    refine (t.closed e he).imp id fun ⟨d, hd, hpath, hkind⟩ => ⟨d, ?_, hpath, hkind⟩
    refine List.mem_filter.mpr ⟨hd, decide_eq_true fun hdp => ?_⟩
    have hmem : e ∈ t.list p := mem_list.mpr ⟨he, by rw [← hpath, hdp]⟩
    rw [h] at hmem
    exact absurd hmem List.not_mem_nil

theorem Within.list_nil {t t' : FileTree ν σ} (h : t.Within t') (hp : t'.list p = []) :
    t.list p = [] := by
  refine List.eq_nil_iff_forall_not_mem.mpr fun e he => ?_
  obtain ⟨he, hdir⟩ := mem_list.mp he
  have hmem : e ∈ t'.list p := mem_list.mpr ⟨h e he, hdir⟩
  rw [hp] at hmem
  exact List.not_mem_nil hmem

theorem erase_within (h : t.list p = []) : (t.erase p h).Within t :=
  fun _ he => (List.mem_filter.mp he).1

theorem mem_erase (h : t.list p = []) :
    e ∈ (t.erase p h).entries ↔ e ∈ t.entries ∧ e.path ≠ p := by
  simp [erase]

theorem lookup_erase (h : t.list p = []) (hq : q ≠ []) :
    (t.erase p h).lookup q = if q = p then none else t.lookup q := by
  cases hlookup : (t.erase p h).lookup q with
  | none =>
      split
      · rfl
      · rename_i hne
        cases hold : t.lookup q with
        | none => rfl
        | some k =>
            obtain ⟨e, he, rfl, -⟩ := mem_of_lookup hq hold
            rw [lookup_of_mem ((mem_erase h).mpr ⟨he, hne⟩)] at hlookup
            cases hlookup
  | some k =>
      obtain ⟨e, he, rfl, rfl⟩ := mem_of_lookup hq hlookup
      obtain ⟨he, hne⟩ := (mem_erase h).mp he
      rw [if_neg hne, lookup_of_mem he]

end FileTree
end JppDos
