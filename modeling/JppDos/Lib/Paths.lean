import JppDos.Lib.CText
import Mathlib.Algebra.Order.Ring.Nat

/-!
# Paths

What an absolute path leads to when its parts are read from left to right: empty parts and
`.` stay where they are, `..` leaves a directory, and any other part enters one.

Main fact:
* `resolve_eq_filter`, `weight_mono`: the names that a path spells out, and their characters.
-/

namespace JppDos
namespace Paths

open CText

/-- The slash. -/
def slash : UInt8 := 47

/-- The dot. -/
def dot : UInt8 := 46

/-- A part of a path between its slashes. -/
abbrev Segment := List UInt8

/-- The segment `..`. -/
def parent : Segment := [dot, dot]

/-- The parts of a path. -/
def segments (path : List UInt8) : List Segment := path.splitOn slash

/-- One segment, read in a directory that is given by the names that lead to it. -/
def walk (dirs : List Segment) (seg : Segment) : List Segment :=
  if seg = [] ∨ seg = [dot] then dirs
  else if seg = parent then dirs.dropLast
  else dirs ++ [seg]

/-- The names on the way from the root to where an absolute path leads. -/
def resolve (path : List UInt8) : List Segment := (segments path).foldl walk []

/-- The path leads to a directory or to something below it. -/
def Below (dirs : List Segment) (path : List UInt8) : Prop := dirs <+: resolve path

instance (dirs : List Segment) (path : List UInt8) : Decidable (Below dirs path) :=
  inferInstanceAs (Decidable (dirs <+: resolve path))

/-- A segment that enters a directory. -/
def IsName (seg : Segment) : Prop := seg ≠ [] ∧ seg ≠ [dot] ∧ seg ≠ parent ∧ slash ∉ seg

instance (seg : Segment) : Decidable (IsName seg) := inferInstanceAs (Decidable (_ ∧ _))

theorem walk_name {seg : Segment} (h : IsName seg) (dirs : List Segment) :
    walk dirs seg = dirs ++ [seg] := by
  obtain ⟨hne, hdot, hparent, -⟩ := h
  rw [walk, if_neg (not_or.mpr ⟨hne, hdot⟩), if_neg hparent]

theorem segments_name {seg : Segment} (h : slash ∉ seg) : segments seg = [seg] :=
  List.splitOn_eq_singleton h

theorem segments_join (p q : List UInt8) : segments (p ++ slash :: q) = segments p ++ segments q :=
  List.splitOn_append_cons_self p q

theorem segments_slash (q : List UInt8) : segments (slash :: q) = [] :: segments q := by
  have h := segments_join [] q
  rwa [List.nil_append, show segments [] = [[]] from List.splitOn_nil slash,
    List.singleton_append] at h

/-- A path behind a slash starts where the path in front of it leads. -/
theorem resolve_join (p q : List UInt8) :
    resolve (p ++ slash :: q) = (segments q).foldl walk (resolve p) := by
  rw [resolve, segments_join, List.foldl_append, resolve]

theorem resolve_slash (p : List UInt8) : resolve (p ++ [slash]) = resolve p := by
  rw [resolve_join]
  rfl

theorem resolve_join_name (p : List UInt8) {seg : Segment} (h : IsName seg) :
    resolve (p ++ slash :: seg) = resolve p ++ [seg] := by
  rw [resolve_join, segments_name h.2.2.2, List.foldl_cons, List.foldl_nil, walk_name h]

/-- Without a `..` a path stays below its start. -/
theorem prefix_foldl_walk {segs : List Segment} (h : parent ∉ segs) (dirs : List Segment) :
    dirs <+: segs.foldl walk dirs := by
  induction segs generalizing dirs with
  | nil => exact List.prefix_refl dirs
  | cons seg segs ih =>
      obtain ⟨hseg, hsegs⟩ := not_or.mp (fun hmem => h (List.mem_cons.mpr hmem))
      refine List.IsPrefix.trans ?_ (ih hsegs (walk dirs seg))
      rw [walk]
      split
      · exact List.prefix_refl dirs
      · rw [if_neg (Ne.symm hseg)]
        exact List.prefix_append dirs [seg]

/-- A path without a `..` behind another path leads below it. -/
theorem below_join {p q : List UInt8} (h : parent ∉ segments q) :
    Below (resolve p) (p ++ slash :: q) := by
  rw [Below, resolve_join]
  exact prefix_foldl_walk h _

theorem head_segments (path : List UInt8) :
    ∃ rest, segments path = path.takeWhile (· ≠ slash) :: rest := by
  induction path with
  | nil => exact ⟨[], rfl⟩
  | cons c path ih =>
      obtain ⟨rest, hrest⟩ := ih
      by_cases hc : c = slash
      · subst hc
        exact ⟨segments path, segments_slash path⟩
      · refine ⟨rest, ?_⟩
        rw [segments, List.splitOn_cons_eq_if_modifyHead, if_neg (by simpa using hc)]
        rw [segments] at hrest
        rw [hrest, List.modifyHead_cons, List.takeWhile_cons_of_pos (by simpa using hc)]

theorem segments_cons {c : UInt8} (hc : c ≠ slash) {path : List UInt8} {seg : Segment}
    {rest : List Segment} (h : segments path = seg :: rest) :
    segments (c :: path) = (c :: seg) :: rest := by
  rw [segments] at h ⊢
  rw [List.splitOn_cons_eq_if_modifyHead, if_neg (by simpa using hc), h, List.modifyHead_cons]

/-- A part that a path without a `..` enters. -/
def Spelt (seg : Segment) : Prop := seg ≠ [] ∧ seg ≠ [dot]

instance (seg : Segment) : Decidable (Spelt seg) := inferInstanceAs (Decidable (_ ∧ _))

theorem foldl_walk_eq {segs : List Segment} (h : parent ∉ segs) (dirs : List Segment) :
    segs.foldl walk dirs = dirs ++ segs.filter fun seg => Spelt seg := by
  induction segs generalizing dirs with
  | nil => simp
  | cons seg segs ih =>
      obtain ⟨hseg, hsegs⟩ := not_or.mp (fun hmem => h (List.mem_cons.mpr hmem))
      rw [List.foldl_cons, ih hsegs, walk]
      by_cases hspelt : Spelt seg
      · rw [if_neg (not_or.mpr hspelt), if_neg (Ne.symm hseg),
          List.filter_cons_of_pos (by simpa using hspelt), List.append_assoc,
          List.singleton_append]
      · rw [if_pos (by rwa [Spelt, ← not_or, not_not] at hspelt),
          List.filter_cons_of_neg (by simpa using hspelt)]

/-- A path without a `..` leads through the names that it spells out. -/
theorem resolve_eq_filter {path : List UInt8} (h : parent ∉ segments path) :
    resolve path = (segments path).filter fun seg => Spelt seg := by
  rw [resolve, foldl_walk_eq h, List.nil_append]

/-- How many characters the names of a path have. -/
def weight (path : List UInt8) : Nat :=
  (((segments path).filter fun seg => Spelt seg).map List.length).sum

theorem weight_join (p q : List UInt8) : weight (p ++ slash :: q) = weight p + weight q := by
  rw [weight, segments_join, List.filter_append, List.map_append, List.sum_append]
  rfl

theorem weight_name {seg : Segment} (h : slash ∉ seg) :
    weight seg = if Spelt seg then seg.length else 0 := by
  rw [weight, segments_name h]
  by_cases hspelt : Spelt seg
  · simp [hspelt]
  · simp [hspelt]

/-- A path is one part, or the last part stands behind a slash. -/
theorem exists_last_segment (path : List UInt8) :
    slash ∉ path ∨ ∃ front seg, path = front ++ slash :: seg ∧ slash ∉ seg := by
  induction path with
  | nil => exact .inl List.not_mem_nil
  | cons c path ih =>
      rcases ih with hpath | ⟨front, seg, rfl, hseg⟩
      · by_cases hc : c = slash
        · exact .inr ⟨[], path, by rw [hc, List.nil_append], hpath⟩
        · refine .inl fun hmem => ?_
          rcases List.mem_cons.mp hmem with heq | hmem
          · exact hc heq.symm
          · exact hpath hmem
      · exact .inr ⟨c :: front, seg, rfl, hseg⟩

theorem weight_name_concat {seg : Segment} (h : slash ∉ seg) {c : UInt8} (hc : c ≠ slash) :
    weight seg ≤ weight (seg ++ [c]) := by
  have hconcat : slash ∉ seg ++ [c] := fun hmem =>
    (List.mem_append.mp hmem).elim h fun hmem => hc (List.mem_singleton.mp hmem).symm
  rw [weight_name h, weight_name hconcat]
  by_cases hspelt : Spelt seg
  · have hnext : Spelt (seg ++ [c]) := by
      refine ⟨by simp, fun hdot => hspelt.1 ?_⟩
      exact (List.append_inj' (hdot.trans (List.nil_append [dot]).symm) rfl).1
    rw [if_pos hspelt, if_pos hnext, List.length_append]
    omega
  · rw [if_neg hspelt]
    exact Nat.zero_le _

theorem weight_concat (path : List UInt8) (c : UInt8) : weight path ≤ weight (path ++ [c]) := by
  by_cases hc : c = slash
  · rw [hc, weight_join]
    exact Nat.le_add_right _ _
  · rcases exists_last_segment path with hpath | ⟨front, seg, rfl, hseg⟩
    · exact weight_name_concat hpath hc
    · rw [List.append_assoc, List.cons_append, weight_join, weight_join]
      exact Nat.add_le_add_left (weight_name_concat hseg hc) _

/-- A longer path has no fewer characters in its names. -/
theorem weight_mono {p q : List UInt8} (h : p <+: q) : weight p ≤ weight q := by
  obtain ⟨rest, rfl⟩ := h
  induction rest generalizing p with
  | nil => rw [List.append_nil]
  | cons c rest ih =>
      have hnext := ih (p := p ++ [c])
      rw [List.append_assoc, List.singleton_append] at hnext
      exact Nat.le_trans (weight_concat p c) hnext

theorem weight_of_resolve {path : List UInt8} (h : parent ∉ segments path) :
    weight path = ((resolve path).map List.length).sum := by
  rw [weight, resolve_eq_filter h]

/-- A path without weight has nothing but slashes and single dots. -/
theorem not_spelt_of_weight {path : List UInt8} (h : weight path = 0) :
    ∀ seg ∈ segments path, seg = [] ∨ seg = [dot] := by
  intro seg hseg
  by_contra hno
  have hspelt : Spelt seg := not_or.mp hno
  have hzero := List.sum_eq_zero_iff_forall_eq_nat.mp h seg.length
    (List.mem_map_of_mem (List.mem_filter.mpr ⟨hseg, by simpa using hspelt⟩))
  exact hspelt.1 (List.length_eq_zero_iff.mp hzero)

theorem parent_not_mem_of_weight {path : List UInt8} (h : weight path = 0) :
    parent ∉ segments path := fun hmem => by
  rcases not_spelt_of_weight h parent hmem with heq | heq
  · exact absurd heq (by decide)
  · exact absurd heq (by decide)

theorem resolve_of_weight {path : List UInt8} (h : weight path = 0) : resolve path = [] := by
  rw [resolve_eq_filter (parent_not_mem_of_weight h), List.filter_eq_nil_iff]
  intro seg hseg
  rcases not_spelt_of_weight h seg hseg with rfl | rfl
  · simp [Spelt]
  · simp [Spelt]

/-- A character of a path is a slash or stands in one of its parts. -/
theorem mem_segments {path : List UInt8} {c : UInt8} (h : c ∈ path) :
    c = slash ∨ ∃ seg ∈ segments path, c ∈ seg := by
  induction path with
  | nil => exact absurd h List.not_mem_nil
  | cons b path ih =>
      by_cases hb : b = slash
      · subst hb
        rw [segments_slash]
        rcases List.mem_cons.mp h with rfl | h
        · exact .inl rfl
        · refine (ih h).imp id fun ⟨seg, hseg, hc⟩ => ⟨seg, List.mem_cons_of_mem _ hseg, hc⟩
      · obtain ⟨rest, hrest⟩ := head_segments path
        rw [segments_cons hb hrest]
        rcases List.mem_cons.mp h with rfl | h
        · exact .inr ⟨_, List.mem_cons_self, List.mem_cons_self⟩
        · refine (ih h).imp id fun ⟨seg, hseg, hc⟩ => ?_
          rw [hrest] at hseg
          rcases List.mem_cons.mp hseg with rfl | hseg
          · exact ⟨_, List.mem_cons_self, List.mem_cons_of_mem b hc⟩
          · exact ⟨seg, List.mem_cons_of_mem _ hseg, hc⟩

theorem slash_or_dot_of_weight {path : List UInt8} (h : weight path = 0) :
    ∀ c ∈ path, c = slash ∨ c = dot := by
  intro c hc
  refine (mem_segments hc).imp id fun ⟨seg, hseg, hmem⟩ => ?_
  rcases not_spelt_of_weight h seg hseg with rfl | rfl
  · exact absurd hmem List.not_mem_nil
  · exact List.mem_singleton.mp hmem

end Paths
end JppDos
