import Mathlib.Algebra.BigOperators.Group.List.Basic
import Mathlib.Data.List.Chain
import Mathlib.Tactic.Common

/-!
# Fusing neighbours

A line of places, some of them blank, is pushed against its beginning; two equal neighbours become
one element, and what has come into being in this way is not fused again.

Main fact:
* `all_blank_of_settled`: a line with blanks that stays both ways is empty.
-/

namespace JppDos
namespace Fusion

variable {α : Type*} [DecidableEq α] (up : α → α) (blank : α)

/-- Equal neighbours are fused, from the beginning. -/
def fuse : List α → List α
  | [] => []
  | [a] => [a]
  | a :: b :: l => if a = b then up a :: fuse l else a :: fuse (b :: l)

/-- What comes into being. -/
def born : List α → List α
  | [] => []
  | [_] => []
  | a :: b :: l => if a = b then up a :: born l else born (b :: l)

/-- A line is pushed against its beginning, and filled up behind. -/
def settle (l : List α) : List α :=
  let fused := fuse up (l.filter (· ≠ blank))
  fused ++ List.replicate (l.length - fused.length) blank

variable {up} {blank}

theorem sum_fuse {M : Type*} [AddCommMonoid M] (weight : α → M) {l : List α}
    (h : ∀ a ∈ l, weight (up a) = weight a + weight a) :
    ((fuse up l).map weight).sum = (l.map weight).sum := by
  induction l using fuse.induct with
  | case1 => rfl
  | case2 a => rfl
  | case3 b l ih =>
      have hrest := ih fun a ha => h a (List.mem_cons_of_mem b (List.mem_cons_of_mem b ha))
      rw [fuse, if_pos rfl, List.map_cons, List.sum_cons, hrest, h b List.mem_cons_self,
        List.map_cons, List.map_cons, List.sum_cons, List.sum_cons, add_assoc]
  | case4 a b l hne ih =>
      have hrest := ih fun c hc => h c (List.mem_cons_of_mem a hc)
      rw [fuse, if_neg hne, List.map_cons, List.sum_cons, hrest, ← List.sum_cons, ← List.map_cons]

theorem length_fuse (up : α → α) (l : List α) :
    (fuse up l).length + (born up l).length = l.length := by
  induction l using fuse.induct with
  | case1 => rfl
  | case2 a => rfl
  | case3 b l ih =>
      rw [fuse, born, if_pos rfl, if_pos rfl, List.length_cons, List.length_cons, List.length_cons,
        List.length_cons]
      omega
  | case4 a b l hne ih =>
      rw [fuse, born, if_neg hne, if_neg hne, List.length_cons, List.length_cons, ← ih]
      omega

theorem born_eq_nil_iff (up : α → α) (l : List α) : born up l = [] ↔ l.IsChain (· ≠ ·) := by
  induction l using fuse.induct with
  | case1 => exact iff_of_true rfl List.IsChain.nil
  | case2 a => exact iff_of_true rfl (List.IsChain.singleton a)
  | case3 b l ih =>
      rw [born, if_pos rfl, List.isChain_cons_cons]
      exact iff_of_false (List.cons_ne_nil _ _) fun h => h.1 rfl
  | case4 a b l hne ih =>
      rw [born, if_neg hne, ih, List.isChain_cons_cons]
      exact (and_iff_right hne).symm

/-- Nothing is fused exactly if no neighbours are equal. -/
theorem fuse_eq_self_iff (up : α → α) (l : List α) : fuse up l = l ↔ l.IsChain (· ≠ ·) := by
  constructor
  · intro h
    have hlen := length_fuse up l
    rw [h] at hlen
    exact (born_eq_nil_iff up l).mp (List.length_eq_zero_iff.mp (by omega))
  · intro h
    induction l with
    | nil => rfl
    | cons a l ih =>
        cases l with
        | nil => rfl
        | cons b l =>
            obtain ⟨hne, hrest⟩ := List.isChain_cons_cons.mp h
            rw [fuse, if_neg hne, ih hrest]

theorem ne_blank_of_mem_fuse (hup : ∀ a, a ≠ blank → up a ≠ blank) {l : List α}
    (h : ∀ a ∈ l, a ≠ blank) : ∀ a ∈ fuse up l, a ≠ blank := by
  induction l using fuse.induct with
  | case1 => exact h
  | case2 a => exact h
  | case3 b l ih =>
      rw [fuse, if_pos rfl]
      refine List.forall_mem_cons.mpr ⟨hup b (h b List.mem_cons_self), ih fun a ha => ?_⟩
      exact h a (List.mem_cons_of_mem b (List.mem_cons_of_mem b ha))
  | case4 a b l hne ih =>
      rw [fuse, if_neg hne]
      exact List.forall_mem_cons.mpr ⟨h a List.mem_cons_self,
        ih fun c hc => h c (List.mem_cons_of_mem a hc)⟩

theorem ne_blank_of_mem_fused (hup : ∀ a, a ≠ blank → up a ≠ blank) (l : List α) :
    ∀ a ∈ fuse up (l.filter (· ≠ blank)), a ≠ blank :=
  ne_blank_of_mem_fuse hup fun a ha => of_decide_eq_true (p := a ≠ blank) (List.mem_filter.mp ha).2

theorem length_settle (l : List α) : (settle up blank l).length = l.length := by
  have hfuse := length_fuse up (l.filter (· ≠ blank))
  have hfilter := List.length_filter_le (· ≠ blank) l
  rw [settle, List.length_append, List.length_replicate]
  omega

/-- A weight that a fusion adds up, and that blanks do not have, is kept. -/
theorem sum_settle {M : Type*} [AddCommMonoid M] (weight : α → M) (hblank : weight blank = 0)
    {l : List α} (h : ∀ a ∈ l, a ≠ blank → weight (up a) = weight a + weight a) :
    ((settle up blank l).map weight).sum = (l.map weight).sum := by
  have hfilter : ∀ l : List α, ((l.filter (· ≠ blank)).map weight).sum = (l.map weight).sum := by
    intro l
    induction l with
    | nil => rfl
    | cons a l ih =>
        by_cases ha : a = blank
        · rw [List.filter_cons_of_neg (by simpa using ha), ih, List.map_cons, List.sum_cons, ha,
            hblank, zero_add]
        · rw [List.filter_cons_of_pos (by simpa using ha), List.map_cons, List.sum_cons, ih,
            List.map_cons, List.sum_cons]
  have hfused : ((fuse up (l.filter (· ≠ blank))).map weight).sum =
      ((l.filter (· ≠ blank)).map weight).sum := sum_fuse weight fun a ha =>
    h a (List.mem_of_mem_filter ha) (by simpa using List.of_mem_filter ha)
  rw [settle, List.map_append, List.sum_append, hfused, hfilter, List.map_replicate, hblank,
    List.sum_replicate, nsmul_zero, add_zero]

/-- A line without blanks stays as it is exactly if no neighbours are equal. -/
theorem settle_eq_self_iff {l : List α} (h : ∀ a ∈ l, a ≠ blank) :
    settle up blank l = l ↔ l.IsChain (· ≠ ·) := by
  have hall : l.filter (· ≠ blank) = l :=
    List.filter_eq_self.mpr fun a ha => decide_eq_true (h a ha)
  rw [settle, hall, ← fuse_eq_self_iff up]
  constructor
  · intro hsettle
    cases hrest : l.length - (fuse up l).length with
    | zero => rwa [hrest, List.replicate_zero, List.append_nil] at hsettle
    | succ k =>
        rw [hrest] at hsettle
        refine absurd rfl (h blank ?_)
        rw [← hsettle]
        exact List.mem_append_right _ (List.mem_replicate.mpr ⟨Nat.succ_ne_zero k, rfl⟩)
  · intro hfuse
    rw [hfuse, Nat.sub_self, List.replicate_zero, List.append_nil]

/-- The blanks of a line that stays as it is come last. -/
theorem getLast_of_settled (hup : ∀ a, a ≠ blank → up a ≠ blank) {l : List α}
    (h : settle up blank l = l) (hmem : blank ∈ l) : l.getLast? = some blank := by
  have hne := ne_blank_of_mem_fused hup l
  rw [settle] at h
  rw [← h] at hmem ⊢
  rcases List.mem_append.mp hmem with hfused | hrest
  · exact absurd rfl (hne blank hfused)
  · obtain ⟨hpos, -⟩ := List.mem_replicate.mp hrest
    rw [List.getLast?_append, List.getLast?_replicate, if_neg hpos, Option.some_or]

/-- A line with blanks that stays as it is, pushed either way, has nothing else. -/
theorem all_blank_of_settled (hup : ∀ a, a ≠ blank → up a ≠ blank) {l : List α}
    (h : settle up blank l = l) (hrev : settle up blank l.reverse = l.reverse) (hmem : blank ∈ l) :
    ∀ a ∈ l, a = blank := by
  have hfirst : l.head? = some blank := by
    have hlast := getLast_of_settled hup hrev (List.mem_reverse.mpr hmem)
    rwa [List.getLast?_reverse] at hlast
  have hne := ne_blank_of_mem_fused hup l
  rw [settle] at h
  cases hfused : fuse up (l.filter (· ≠ blank)) with
  | nil =>
      rw [hfused, List.nil_append] at h
      intro a ha
      rw [← h] at ha
      exact List.eq_of_mem_replicate ha
  | cons b fused =>
      rw [← h, hfused] at hfirst
      exact absurd (Option.some.inj hfirst) (hne b (hfused ▸ List.mem_cons_self))

end Fusion
end JppDos
