import Mathlib.Data.List.TakeWhile
import Mathlib.Tactic.Common

/-!
# Words of a text

The pieces of a text between separators, without the empty ones, as a scanner finds them
that reads a word and skips the separators behind it.

Main fact:
* `words_take`: the words of a text that is cut off.
-/

namespace JppDos
namespace Words

variable {α : Type*} [DecidableEq α] (sep : α)

/-- The words of a text. -/
def words (text : List α) : List (List α) := (text.splitOn sep).filter (· ≠ [])

@[simp] theorem words_nil : words sep ([] : List α) = [] := by
  simp [words]

@[simp] theorem words_cons_sep (text : List α) : words sep (sep :: text) = words sep text := by
  have hsplit := List.splitOn_append_cons_self (a := sep) [] text
  rw [List.nil_append, List.splitOn_nil, List.singleton_append] at hsplit
  rw [words, hsplit, List.filter_cons_of_neg (by simp), words]

theorem words_dropWhile (text : List α) :
    words sep (text.dropWhile (· = sep)) = words sep text := by
  induction text with
  | nil => rfl
  | cons c text ih =>
      by_cases hc : c = sep
      · subst hc
        rw [List.dropWhile_cons_of_pos (by simp), ih, words_cons_sep]
      · rw [List.dropWhile_cons_of_neg (by simpa using hc)]

variable {sep}

theorem words_eq_cons {text : List α} (h : text ≠ []) (hhead : text.head? ≠ some sep) :
    words sep text =
      text.takeWhile (· ≠ sep) :: words sep (text.dropWhile (· ≠ sep)) := by
  have hword : text.takeWhile (· ≠ sep) ≠ [] := by
    cases text with
    | nil => exact absurd rfl h
    | cons c text =>
        have hc : c ≠ sep := fun heq => hhead (congrArg some heq)
        rw [List.takeWhile_cons_of_pos (by simpa using hc)]
        exact List.cons_ne_nil _ _
  have hsep : sep ∉ text.takeWhile (· ≠ sep) := fun hmem => by
    simpa using List.mem_takeWhile_imp hmem
  have hjoin : text.takeWhile (· ≠ sep) ++ text.dropWhile (· ≠ sep) = text :=
    List.takeWhile_append_dropWhile
  have hrest := List.head?_dropWhile_not (fun c => decide (c ≠ sep)) text
  cases hdrop : text.dropWhile (· ≠ sep) with
  | nil =>
      rw [hdrop, List.append_nil] at hjoin
      rw [hjoin] at hword hsep ⊢
      rw [words_nil, words, List.splitOn_eq_singleton hsep,
        List.filter_cons_of_pos (by simpa using hword), List.filter_nil]
  | cons c rest =>
      rw [hdrop] at hrest hjoin
      obtain rfl : c = sep := by simpa using hrest
      rw [words_cons_sep]
      conv_lhs => rw [words, ← hjoin, List.splitOn_append_cons_self,
        List.splitOn_eq_singleton hsep, List.singleton_append,
        List.filter_cons_of_pos (by simpa using hword)]
      rfl

theorem length_dropWhile_lt {c : α} (text : List α) (h : c ≠ sep) :
    ((c :: text).dropWhile (· ≠ sep)).length < (c :: text).length := by
  rw [List.dropWhile_cons_of_pos (by simpa using h), List.length_cons]
  exact Nat.lt_succ_of_le (List.dropWhile_suffix _).length_le

theorem mem_words {text word : List α} (h : word ∈ words sep text) :
    word ≠ [] ∧ word <:+: text := by
  induction hn : text.length using Nat.strong_induction_on generalizing text with
  | _ n ih =>
      subst hn
      cases text with
      | nil => exact absurd h (by simp)
      | cons c text =>
          by_cases hc : c = sep
          · subst hc
            rw [words_cons_sep] at h
            obtain ⟨hne, hwithin⟩ := ih text.length (by simp) h rfl
            exact ⟨hne, hwithin.trans (List.suffix_cons c text).isInfix⟩
          · have hhead : (c :: text).head? ≠ some sep := fun heq => hc (Option.some.inj heq)
            have hshort := length_dropWhile_lt text hc
            rw [words_eq_cons (List.cons_ne_nil _ _) hhead] at h
            rcases List.mem_cons.mp h with rfl | hmem
            · rw [List.takeWhile_cons_of_pos (by simpa using hc)]
              refine ⟨List.cons_ne_nil _ _, ?_⟩
              exact (List.cons_prefix_cons.mpr ⟨rfl, List.takeWhile_prefix _⟩).isInfix
            · obtain ⟨hne, hwithin⟩ := ih _ hshort hmem rfl
              exact ⟨hne, hwithin.trans (List.dropWhile_suffix _).isInfix⟩

/-- A word in front, with a separator or nothing behind it. -/
theorem words_append {word rest : List α} (hne : word ≠ []) (hword : ∀ x ∈ word, x ≠ sep)
    (hrest : ∀ x, rest.head? = some x → x = sep) :
    words sep (word ++ rest) = word :: words sep rest := by
  have hhead : (word ++ rest).head? ≠ some sep := by
    cases word with
    | nil => exact absurd rfl hne
    | cons c word => exact fun heq => hword c List.mem_cons_self (Option.some.inj heq)
  have hpass : ∀ x ∈ word, decide (x ≠ sep) = true := fun x hx => by simpa using hword x hx
  have htake : rest.takeWhile (· ≠ sep) = [] ∧ rest.dropWhile (· ≠ sep) = rest := by
    cases rest with
    | nil => exact ⟨rfl, rfl⟩
    | cons x rest => simp [hrest x rfl]
  rw [words_eq_cons (List.append_ne_nil_of_left_ne_nil hne rest) hhead,
    List.takeWhile_append_of_pos hpass, List.dropWhile_append_of_pos hpass, htake.1, htake.2,
    List.append_nil]

/-- A text that is cut off has the words of the text; only the last one may be cut, too. -/
theorem words_take (text : List α) (n : Nat) {i : Nat} {p : List α}
    (h : (words sep (text.take n))[i]? = some p) :
    ∃ w, (words sep text)[i]? = some w ∧ p <+: w ∧
      (i + 1 < (words sep (text.take n)).length → p = w) := by
  induction hlen : text.length using Nat.strong_induction_on generalizing text n i with
  | _ len ih =>
      subst hlen
      match text, n with
      | [], _ => simp at h
      | _ :: _, 0 => simp at h
      | c :: text, n + 1 =>
          by_cases hc : c = sep
          · subst hc
            rw [List.take_succ_cons, words_cons_sep] at h ⊢
            rw [words_cons_sep]
            exact ih text.length (by simp) text n h rfl
          · -- the first word, and what stands behind it
            obtain ⟨word, rest, hjoin, hne, hword, hrest, hshort⟩ : ∃ word rest,
                c :: text = word ++ rest ∧ word ≠ [] ∧ (∀ x ∈ word, x ≠ sep) ∧
                  (∀ x, rest.head? = some x → x = sep) ∧ rest.length < (c :: text).length := by
              refine ⟨(c :: text).takeWhile (· ≠ sep), (c :: text).dropWhile (· ≠ sep),
                List.takeWhile_append_dropWhile.symm, ?_, fun x hx => ?_, fun x hx => ?_,
                length_dropWhile_lt text hc⟩
              · rw [List.takeWhile_cons_of_pos (by simpa using hc)]
                exact List.cons_ne_nil _ _
              · simpa using List.mem_takeWhile_imp hx
              · have hnot := List.head?_dropWhile_not (fun x => decide (x ≠ sep)) (c :: text)
                rw [hx] at hnot
                simpa using hnot
            rw [hjoin, List.take_append] at h ⊢
            rw [words_append hne hword hrest]
            rcases Nat.lt_or_ge word.length (n + 1) with hlt | hge
            · -- the first word is whole, and the text behind it is cut
              have hcut : ∀ x, (rest.take (n + 1 - word.length)).head? = some x → x = sep := by
                rw [List.head?_take, if_neg (by omega)]
                exact hrest
              rw [List.take_of_length_le hlt.le, words_append hne hword hcut] at h ⊢
              cases i with
              | zero =>
                  obtain rfl : word = p := by simpa using h
                  exact ⟨word, rfl, List.prefix_rfl, fun _ => rfl⟩
              | succ i =>
                  rw [List.getElem?_cons_succ] at h ⊢
                  simpa using ih rest.length hshort rest _ h rfl
            · -- the first word is all there is
              have hall : words sep (word.take (n + 1) ++ []) =
                  word.take (n + 1) :: words sep [] :=
                words_append (by simpa using hne) (fun x hx => hword x (List.mem_of_mem_take hx))
                  (by simp)
              rw [show n + 1 - word.length = 0 by omega, List.take_zero, hall, words_nil] at h ⊢
              cases i with
              | zero =>
                  obtain rfl : word.take (n + 1) = p := by simpa using h
                  exact ⟨word, rfl, List.take_prefix _ _, fun hmore => absurd hmore (by simp)⟩
              | succ i => simp at h

end Words
end JppDos
