import Mathlib.Data.List.Infix
import Mathlib.Tactic.Common

/-!
# Incremental matching of one pattern

A matcher that reads its input one symbol at a time and keeps only the length
of the pattern prefix matched so far.  After a mismatch it falls back to length
one when the symbol read is the first symbol of the pattern, and to length zero
otherwise.

This restart rule is the exact failure function when the first symbol of the
pattern occurs nowhere else in it (`UniqueHead`).
-/

namespace JppDos
namespace Matcher

universe u

variable {α : Type u}

/-- The head of the pattern occurs at no later position. -/
def UniqueHead : List α → Prop
  | [] => False
  | a :: p => a ∉ p

section Scan

variable [DecidableEq α]

/-- One symbol: extend the match, restart it at its first symbol, or drop it. -/
def advance (pat : List α) (idx : Nat) (s : α) : Nat :=
  if pat[idx]? = some s then idx + 1
  else if pat[0]? = some s then 1
  else 0

/-- Read symbols until the whole pattern has been matched; the result is the
rest of the input. -/
def scan (pat : List α) : Nat → List α → Option (List α)
  | _, [] => none
  | idx, s :: w =>
      if advance pat idx s = pat.length then some w
      else scan pat (advance pat idx s) w

end Scan

/-- `n` is the length of the longest proper prefix of `pat` that ends `w`. -/
structure Longest (pat w : List α) (n : Nat) : Prop where
  lt : n < pat.length
  suffix : pat.take n <:+ w
  max : ∀ j, j ≤ pat.length → pat.take j <:+ w → j ≤ n

theorem longest_nil {pat : List α} (hpat : UniqueHead pat) :
    Longest pat [] 0 where
  lt := by
    cases pat with
    | nil => exact absurd hpat id
    | cons a p => simp
  suffix := by simp
  max := by
    intro j hj h
    have : (pat.take j).length = 0 := by simp [List.suffix_nil.mp h]
    rw [List.length_take] at this
    omega

/-- A nonempty prefix that ends `w ++ [s]` is a shorter one that ends `w`,
followed by `s`. -/
theorem take_suffix_snoc {pat w : List α} {s : α} {j : Nat}
    (hj : j + 1 ≤ pat.length) :
    pat.take (j + 1) <:+ w ++ [s] ↔ pat.take j <:+ w ∧ pat[j]? = some s := by
  have hget : pat.take (j + 1) = pat.take j ++ [pat[j]] := by
    rw [List.take_succ_eq_append_getElem (by omega)]
  rw [hget]
  constructor
  · rintro ⟨t, ht⟩
    rw [← List.append_assoc] at ht
    obtain ⟨h1, h2⟩ := List.append_inj' ht rfl
    refine ⟨⟨t, h1⟩, ?_⟩
    rw [List.getElem?_eq_getElem (by omega)]
    simpa using h2
  · rintro ⟨⟨t, ht⟩, hs⟩
    rw [List.getElem?_eq_getElem (by omega), Option.some.injEq] at hs
    exact ⟨t, by rw [← List.append_assoc, ht, hs]⟩

/-- With a unique head, two nested prefixes of the pattern can only end the
same word when the shorter one is empty. -/
theorem take_suffix_take {pat : List α} (hpat : UniqueHead pat) {i n : Nat}
    (hin : i < n) (hn : n ≤ pat.length)
    (h : pat.take i <:+ pat.take n) : i = 0 := by
  cases pat with
  | nil => exact absurd hpat id
  | cons a p =>
      cases i with
      | zero => rfl
      | succ i =>
          exfalso
          obtain ⟨t, ht⟩ := h
          cases t with
          | nil =>
              have := congrArg List.length ht
              simp at this hn
              omega
          | cons b t =>
              cases n with
              | zero => omega
              | succ n =>
                  simp only [List.take_succ_cons, List.cons_append, List.cons.injEq] at ht
                  have hmem : a ∈ p.take n := by
                    rw [← ht.2]
                    simp
                  exact hpat (List.mem_of_mem_take hmem)

variable [DecidableEq α]

/-- The stored length stays the longest match, or the pattern is complete. -/
theorem Longest.advance {pat w : List α} {n : Nat} (hpat : UniqueHead pat)
    (h : Longest pat w n) (s : α) :
    (advance pat n s = pat.length ∧ pat <:+ w ++ [s]) ∨
      (Longest pat (w ++ [s]) (advance pat n s) ∧ ¬ pat <:+ w ++ [s]) := by
  -- every prefix that ends `w ++ [s]` extends a prefix that ends `w`
  have hstep : ∀ j, j ≤ pat.length → pat.take j <:+ w ++ [s] →
      j = 0 ∨ (j = n + 1 ∧ pat[n]? = some s) ∨ (j = 1 ∧ pat[0]? = some s) := by
    intro j hj hsuf
    cases j with
    | zero => exact Or.inl rfl
    | succ j =>
        right
        obtain ⟨hw, hs⟩ := (take_suffix_snoc hj).mp hsuf
        have hjn := h.max j (by omega) hw
        rcases Nat.lt_or_eq_of_le hjn with hlt | rfl
        · have hnest : pat.take j <:+ pat.take n := by
            apply List.suffix_of_suffix_length_le hw h.suffix
            simp only [List.length_take]
            omega
          have := take_suffix_take hpat hlt (le_of_lt h.lt) hnest
          subst this
          exact Or.inr ⟨rfl, hs⟩
        · exact Or.inl ⟨rfl, hs⟩
  have hlen := h.lt
  by_cases hn : pat[n]? = some s
  · have hadv : Matcher.advance pat n s = n + 1 := by simp [Matcher.advance, hn]
    have hext : pat.take (n + 1) <:+ w ++ [s] :=
      (take_suffix_snoc (by omega)).mpr ⟨h.suffix, hn⟩
    by_cases hfull : n + 1 = pat.length
    · left
      refine ⟨by rw [hadv, hfull], ?_⟩
      rw [hfull, List.take_length] at hext
      exact hext
    · right
      refine ⟨⟨by rw [hadv]; omega, by rw [hadv]; exact hext, ?_⟩, ?_⟩
      · intro j hj hsuf
        rcases hstep j hj hsuf with h0 | h1 | h2 <;> omega
      · intro hsuf
        have := hstep pat.length le_rfl (by rwa [List.take_length])
        omega
  · have hne : ∀ j, j ≤ pat.length → pat.take j <:+ w ++ [s] →
        j = 0 ∨ (j = 1 ∧ pat[0]? = some s) := by
      intro j hj hsuf
      rcases hstep j hj hsuf with h0 | ⟨_, h1⟩ | h2
      · exact Or.inl h0
      · exact absurd h1 hn
      · exact Or.inr h2
    by_cases h0 : pat[0]? = some s
    · have hadv : Matcher.advance pat n s = 1 := by simp [Matcher.advance, hn, h0]
      have hlong : 1 < pat.length := by
        rcases Nat.lt_or_ge 1 pat.length with h1 | h1
        · exact h1
        · have hzero : n = 0 := by omega
          subst hzero
          exact absurd h0 hn
      right
      refine ⟨⟨by rw [hadv]; exact hlong, ?_, ?_⟩, ?_⟩
      · rw [hadv]
        exact (take_suffix_snoc (j := 0) (by omega)).mpr ⟨by simp, h0⟩
      · intro j hj hsuf
        rcases hne j hj hsuf with h1 | h1 <;> omega
      · intro hsuf
        have := hne pat.length le_rfl (by rwa [List.take_length])
        omega
    · have hadv : Matcher.advance pat n s = 0 := by simp [Matcher.advance, hn, h0]
      right
      refine ⟨⟨by rw [hadv]; omega, by rw [hadv]; simp, ?_⟩, ?_⟩
      · intro j hj hsuf
        rcases hne j hj hsuf with h1 | ⟨_, h1⟩
        · omega
        · exact absurd h1 h0
      · intro hsuf
        rcases hne pat.length le_rfl (by rwa [List.take_length]) with h1 | ⟨_, h1⟩
        · omega
        · exact absurd h1 h0

/-- The scanner stops at the end of the first occurrence that the symbols read
before (`u`) and now complete. -/
theorem scan_eq_some {pat : List α} (hpat : UniqueHead pat) :
    ∀ {w u rest : List α} {n : Nat}, Longest pat u n →
      (scan pat n w = some rest ↔
        ∃ v, w = v ++ rest ∧ pat <:+ u ++ v ∧
          ∀ v', v' <+: v → pat <:+ u ++ v' → v' = v)
  | [], u, rest, n, h => by
      simp only [scan, reduceCtorEq, false_iff]
      rintro ⟨v, hw, hsuf, _⟩
      obtain ⟨rfl, _⟩ := List.append_eq_nil_iff.mp hw.symm
      have := h.max pat.length le_rfl (by simpa using hsuf)
      have := h.lt
      omega
  | s :: w, u, rest, n, h => by
      have hnow : ¬ pat <:+ u := by
        intro hsuf
        have := h.max pat.length le_rfl (by simpa using hsuf)
        have := h.lt
        omega
      unfold scan
      rcases h.advance hpat s with ⟨hadv, hsuf⟩ | ⟨hlong, hnsuf⟩
      · rw [if_pos hadv]
        constructor
        · rintro ⟨⟩
          refine ⟨[s], rfl, hsuf, ?_⟩
          intro v' hv' hocc
          rcases List.prefix_cons_iff.mp hv' with rfl | ⟨t, rfl, ht⟩
          · exact absurd (by simpa using hocc) hnow
          · rw [List.prefix_nil.mp ht]
        · rintro ⟨v, hw, hocc, hfirst⟩
          cases v with
          | nil => exact absurd (by simpa using hocc) hnow
          | cons b v =>
              obtain ⟨rfl, rfl⟩ := List.cons.inj hw
              have := hfirst [s] (by simp) hsuf
              simp only [List.cons.injEq, true_and] at this
              subst this
              simp
      · have hne : advance pat n s ≠ pat.length := by
          have := hlong.lt
          omega
        rw [if_neg hne, scan_eq_some hpat hlong]
        constructor
        · rintro ⟨v, rfl, hocc, hfirst⟩
          refine ⟨s :: v, rfl, by simpa using hocc, ?_⟩
          intro v' hv' hocc'
          rcases List.prefix_cons_iff.mp hv' with rfl | ⟨t, rfl, ht⟩
          · exact absurd (by simpa using hocc') hnow
          · rw [hfirst t ht (by simpa using hocc')]
        · rintro ⟨v, hw, hocc, hfirst⟩
          cases v with
          | nil => exact absurd (by simpa using hocc) hnow
          | cons b v =>
              obtain ⟨rfl, rfl⟩ := List.cons.inj hw
              refine ⟨v, rfl, by simpa using hocc, ?_⟩
              intro v' hv' hocc'
              have := hfirst (s :: v') (by simpa using hv') (by simpa using hocc')
              simpa using this

/-- What was read before the scanner stopped ends with the pattern. -/
theorem scan_sound {pat w rest : List α} (hpat : UniqueHead pat)
    (h : scan pat 0 w = some rest) : ∃ pre, w = pre ++ pat ++ rest := by
  obtain ⟨v, rfl, ⟨pre, hpre⟩, _⟩ := (scan_eq_some hpat (longest_nil hpat)).mp h
  exact ⟨pre, by rw [hpre]; simp⟩

/-- The scanner finds the pattern right after noise that completes no earlier
occurrence. -/
theorem scan_noise {pat noise rest : List α} (hpat : UniqueHead pat)
    (hnoise : ¬ pat <:+: noise ++ pat.dropLast) :
    scan pat 0 (noise ++ pat ++ rest) = some rest := by
  rw [scan_eq_some hpat (longest_nil hpat)]
  refine ⟨noise ++ pat, rfl, List.suffix_append _ _, ?_⟩
  intro v' hv' hocc
  by_contra hne
  apply hnoise
  have hlen : v'.length < (noise ++ pat).length := by
    refine lt_of_le_of_ne hv'.length_le ?_
    intro he
    exact hne (hv'.eq_of_length he)
  have hne' : pat ≠ [] := by
    rintro rfl
    exact hpat
  have hdrop : v' <+: noise ++ pat.dropLast := by
    rw [← List.dropLast_append_of_ne_nil hne']
    apply List.prefix_of_prefix_length_le hv' (List.dropLast_prefix _)
    simp only [List.length_append, List.length_dropLast] at hlen ⊢
    omega
  exact (List.IsSuffix.isInfix (by simpa using hocc)).trans hdrop.isInfix

/-- The scanner never stops on input without an occurrence. -/
theorem scan_none {pat w : List α} (hpat : UniqueHead pat)
    (hw : ¬ pat <:+: w) : scan pat 0 w = none := by
  rw [Option.eq_none_iff_forall_ne_some]
  intro rest h
  obtain ⟨pre, rfl⟩ := scan_sound hpat h
  exact hw ⟨pre, rest, rfl⟩

end Matcher
end JppDos
