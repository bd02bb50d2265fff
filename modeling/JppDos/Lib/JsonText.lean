import Mathlib.Data.List.Basic
import Mathlib.Tactic.Common
import Mathlib.Tactic.IntervalCases

/-!
# Objects of strings as compact JSON texts

The texts of objects whose members are all strings, printed without blanks, and a
reader for them that takes one byte at a time and stops behind the closing brace.

Main fact:
* `read_take_objectText`: a text that is cut short is not read at all.
-/

namespace JppDos
namespace JsonText

/-- A member: its name and its string, neither with a zero byte. -/
abbrev Member := List UInt8 × List UInt8

/-- A hexadecimal digit, lower case. -/
def hexDigit (n : Nat) : UInt8 := UInt8.ofNat (if n < 10 then 48 + n else 87 + n)

/-- One byte inside a string. -/
def escape (b : UInt8) : List UInt8 :=
  if b = 34 then [92, 34]
  else if b = 92 then [92, 92]
  else if b = 8 then [92, 98]
  else if b = 12 then [92, 102]
  else if b = 10 then [92, 110]
  else if b = 13 then [92, 114]
  else if b = 9 then [92, 116]
  else if b < 32 then [92, 117, 48, 48, hexDigit (b.toNat / 16), hexDigit (b.toNat % 16)]
  else [b]

/-- A string in its quotes. -/
def stringText (s : List UInt8) : List UInt8 := 34 :: (s.flatMap escape ++ [34])

/-- The text of a member. -/
def memberText (m : Member) : List UInt8 := stringText m.1 ++ 58 :: stringText m.2

/-- Texts with commas between them. -/
def commas : List (List UInt8) → List UInt8
  | [] => []
  | [t] => t
  | t :: u :: ts => t ++ 44 :: commas (u :: ts)

/-- The text of an object, from the texts of its members. -/
def braces (members : List (List UInt8)) : List UInt8 := 123 :: (commas members ++ [125])

/-- The text of an object. -/
def objectText (members : List Member) : List UInt8 := braces (members.map memberText)

attribute [local simp] commas

theorem length_commas_cons (t : List UInt8) (ts : List (List UInt8)) :
    (commas (t :: ts)).length =
      t.length + if ts = [] then 0 else 1 + (commas ts).length := by
  cases ts with
  | nil => rfl
  | cons u ts => simp [commas, Nat.add_comm]

theorem length_braces_le {ts us : List (List UInt8)} (h : ts.Sublist us) :
    (braces ts).length ≤ (braces us).length := by
  have hcommas : (commas ts).length ≤ (commas us).length := by
    induction h with
    | slnil => exact Nat.le_refl _
    | @cons ts us u h ih =>
        rw [length_commas_cons]
        split
        · rename_i hus
          subst hus
          obtain rfl := List.eq_nil_of_sublist_nil h
          exact Nat.zero_le _
        · omega
    | @cons_cons ts us t h ih =>
        rw [length_commas_cons, length_commas_cons]
        by_cases hts : ts = []
        · rw [if_pos hts]
          omega
        · have hus : us ≠ [] := fun hus => hts (List.eq_nil_of_sublist_nil (hus ▸ h))
          rw [if_neg hts, if_neg hus]
          omega
  simp only [braces, List.length_cons, List.length_append]
  omega

theorem zero_notMem_escape {b : UInt8} (hb : b ≠ 0) : 0 ∉ escape b := by
  have hdigit : ∀ n, n < 16 → (0 : UInt8) ≠ hexDigit n := by
    intro n hn
    interval_cases n <;> decide
  have hlt := UInt8.toNat_lt b
  unfold escape
  split_ifs
  all_goals first | decide | skip
  · have hhigh := hdigit (b.toNat / 16) (by omega)
    have hlow := hdigit (b.toNat % 16) (by omega)
    simp [hhigh, hlow]
  · simpa using hb.symm

/-- No zero byte in a member. -/
def Member.NulFree (m : Member) : Prop := 0 ∉ m.1 ∧ 0 ∉ m.2

theorem zero_notMem_stringText {s : List UInt8} (hs : 0 ∉ s) : 0 ∉ stringText s := by
  have hbytes : 0 ∉ s.flatMap escape := by
    intro h
    obtain ⟨b, hb, hzero⟩ := List.mem_flatMap.mp h
    exact zero_notMem_escape (fun h => hs (h ▸ hb)) hzero
  simp [stringText, hbytes]

theorem zero_notMem_commas {ts : List (List UInt8)} (h : ∀ t ∈ ts, 0 ∉ t) :
    0 ∉ commas ts := by
  induction ts with
  | nil => simp [commas]
  | cons t ts ih =>
      obtain ⟨ht, hts⟩ := List.forall_mem_cons.mp h
      cases ts with
      | nil => exact ht
      | cons u ts => simp [commas, ht, ih hts]

/-- Where the reader stands, with the members read so far. -/
inductive Reader
  /-- Before the opening brace. -/
  | start
  /-- Behind the opening brace. -/
  | first
  /-- Before the name of a further member. -/
  | name (members : List Member)
  /-- In a string: the name, or the value of the name. -/
  | string (members : List Member) (name : Option (List UInt8)) (text : List UInt8)
  /-- Behind a backslash. -/
  | escape (members : List Member) (name : Option (List UInt8)) (text : List UInt8)
  /-- In the four digits of a code point. -/
  | code (members : List Member) (name : Option (List UInt8)) (text : List UInt8)
      (digits : Nat) (value : Nat)
  /-- Behind a name. -/
  | colon (members : List Member) (name : List UInt8)
  /-- Before a value. -/
  | value (members : List Member) (name : List UInt8)
  /-- Behind a member. -/
  | next (members : List Member)
  /-- Behind the closing brace. -/
  | done (members : List Member)
  /-- At a byte that does not belong there. -/
  | failed
  deriving DecidableEq

/-- The value of a hexadecimal digit. -/
def hexValue (b : UInt8) : Option Nat :=
  if 48 ≤ b ∧ b ≤ 57 then some (b.toNat - 48)
  else if 97 ≤ b ∧ b ≤ 102 then some (b.toNat - 87)
  else if 65 ≤ b ∧ b ≤ 70 then some (b.toNat - 55)
  else none

/-- The byte that a letter behind a backslash stands for. -/
def unescape (b : UInt8) : Option UInt8 :=
  if b = 34 ∨ b = 92 ∨ b = 47 then some b
  else if b = 98 then some 8
  else if b = 102 then some 12
  else if b = 110 then some 10
  else if b = 114 then some 13
  else if b = 116 then some 9
  else none

/-- Take one byte. -/
def Reader.step : Reader → UInt8 → Reader
  | .start, b => if b = 123 then .first else .failed
  | .first, b => if b = 34 then .string [] none [] else if b = 125 then .done [] else .failed
  | .name ms, b => if b = 34 then .string ms none [] else .failed
  | .string ms none text, b =>
      if b = 34 then .colon ms text
      else if b = 92 then .escape ms none text
      else .string ms none (text ++ [b])
  | .string ms (some key) text, b =>
      if b = 34 then .next (ms ++ [(key, text)])
      else if b = 92 then .escape ms (some key) text
      else .string ms (some key) (text ++ [b])
  | .escape ms key text, b =>
      if b = 117 then .code ms key text 0 0
      else
        match unescape b with
        | some c => .string ms key (text ++ [c])
        | none => .failed
  | .code ms key text digits point, b =>
      match hexValue b with
      | none => .failed
      | some d =>
          let point := 16 * point + d
          if digits < 3 then .code ms key text (digits + 1) point
          else if 0 < point ∧ point < 128 then .string ms key (text ++ [UInt8.ofNat point])
          else .failed
  | .colon ms key, b => if b = 58 then .value ms key else .failed
  | .value ms key, b => if b = 34 then .string ms (some key) [] else .failed
  | .next ms, b => if b = 44 then .name ms else if b = 125 then .done ms else .failed
  | .done ms, _ => .done ms
  | .failed, _ => .failed

/-- The members of the object at the front of a text. -/
def read (text : List UInt8) : Option (List Member) :=
  match text.foldl Reader.step .start with
  | .done ms => some ms
  | _ => none

attribute [local simp] Reader.step

theorem foldl_done (ms : List Member) (text : List UInt8) :
    text.foldl Reader.step (.done ms) = .done ms := by
  induction text with
  | nil => rfl
  | cons b text ih => rwa [List.foldl_cons, Reader.step]

theorem step_string (ms : List Member) (key : Option (List UInt8)) (text : List UInt8)
    {b : UInt8} (hquote : b ≠ 34) (hslash : b ≠ 92) :
    Reader.step (.string ms key text) b = .string ms key (text ++ [b]) := by
  cases key <;> simp [Reader.step, hquote, hslash]

theorem foldl_backslash (ms : List Member) (key : Option (List UInt8)) (text : List UInt8)
    {b c : UInt8} (hb : b ≠ 117) (hc : unescape b = some c) :
    [92, b].foldl Reader.step (.string ms key text) = .string ms key (text ++ [c]) := by
  cases key <;> simp [Reader.step, hb, hc]

theorem hexValue_hexDigit {n : Nat} (h : n < 16) : hexValue (hexDigit n) = some n := by
  interval_cases n <;> rfl

theorem foldl_code (ms : List Member) (key : Option (List UInt8)) (text : List UInt8)
    {b : UInt8} (hb : b ≠ 0) (hlt : b.toNat < 128) :
    [92, 117, 48, 48, hexDigit (b.toNat / 16), hexDigit (b.toNat % 16)].foldl Reader.step
      (.string ms key text) = .string ms key (text ++ [b]) := by
  have hzero : hexValue 48 = some 0 := rfl
  have hhigh := hexValue_hexDigit (n := b.toNat / 16) (by omega)
  have hlow := hexValue_hexDigit (n := b.toNat % 16) (by omega)
  have hpos : 0 < b.toNat := by
    rw [Nat.pos_iff_ne_zero]
    exact fun h => hb (UInt8.toNat_inj.mp h)
  have hpoint : 16 * (b.toNat / 16) + b.toNat % 16 = b.toNat := Nat.div_add_mod _ _
  cases key <;>
    simp [Reader.step, hzero, hhigh, hlow, hpoint, hpos, hlt]

theorem foldl_escape (ms : List Member) (key : Option (List UInt8)) (text : List UInt8)
    {b : UInt8} (hb : b ≠ 0) :
    (escape b).foldl Reader.step (.string ms key text) = .string ms key (text ++ [b]) := by
  unfold escape
  split_ifs with h1 h2 h3 h4 h5 h6 h7 h8
  · exact foldl_backslash ms key text (by decide) (by rw [h1]; rfl)
  · exact foldl_backslash ms key text (by decide) (by rw [h2]; rfl)
  · exact foldl_backslash ms key text (by decide) (by rw [h3]; rfl)
  · exact foldl_backslash ms key text (by decide) (by rw [h4]; rfl)
  · exact foldl_backslash ms key text (by decide) (by rw [h5]; rfl)
  · exact foldl_backslash ms key text (by decide) (by rw [h6]; rfl)
  · exact foldl_backslash ms key text (by decide) (by rw [h7]; rfl)
  · have hlt : b.toNat < 32 := h8
    exact foldl_code ms key text hb (by omega)
  · exact step_string ms key text h1 h2

theorem foldl_escapes (ms : List Member) (key : Option (List UInt8)) {s : List UInt8}
    (hs : 0 ∉ s) (text : List UInt8) :
    (s.flatMap escape).foldl Reader.step (.string ms key text) =
      .string ms key (text ++ s) := by
  induction s generalizing text with
  | nil => simp
  | cons b s ih =>
      simp only [List.mem_cons, not_or] at hs
      rw [List.flatMap_cons, List.foldl_append, foldl_escape ms key text (Ne.symm hs.1),
        ih hs.2, List.append_assoc, List.singleton_append]

/-- A member takes the reader from its opening quote to its end. -/
theorem foldl_memberText (ms : List Member) {m : Member} (hm : Member.NulFree m) :
    (memberText m).foldl Reader.step (.name ms) = .next (ms ++ [m]) := by
  obtain ⟨hname, hvalue⟩ := hm
  have hopen : Reader.step (.name ms) 34 = .string ms none [] := rfl
  have hmid : [34, 58, 34].foldl Reader.step (.string ms none m.1) =
      .string ms (some m.1) [] := rfl
  calc (memberText m).foldl Reader.step (.name ms)
      = ((m.2.flatMap escape ++ [34]).foldl Reader.step
          ([34, 58, 34].foldl Reader.step
            ((m.1.flatMap escape).foldl Reader.step (Reader.step (.name ms) 34)))) := by
        simp only [memberText, stringText, List.cons_append, List.append_assoc,
          List.foldl_cons, List.foldl_append, List.nil_append, List.foldl_nil]
    _ = (m.2.flatMap escape ++ [34]).foldl Reader.step (.string ms (some m.1) []) := by
        rw [hopen, foldl_escapes ms none hname, List.nil_append, hmid]
    _ = .next (ms ++ [m]) := by
        rw [List.foldl_append, foldl_escapes ms (some m.1) hvalue, List.nil_append]
        rfl

theorem foldl_commas {more : List Member} (hmore : ∀ m ∈ more, Member.NulFree m)
    {m : Member} (hm : Member.NulFree m) (ms : List Member) :
    (commas ((m :: more).map memberText)).foldl Reader.step (.name ms) =
      .next (ms ++ m :: more) := by
  induction more generalizing m ms with
  | nil => exact foldl_memberText ms hm
  | cons m' more ih =>
      have hcomma : Reader.step (.next (ms ++ [m])) 44 = .name (ms ++ [m]) := rfl
      simp only [List.map_cons, commas, List.foldl_append, List.foldl_cons]
      rw [foldl_memberText ms hm, hcomma]
      have hrest := ih (fun x hx => hmore x (List.mem_cons_of_mem _ hx))
        (hmore m' List.mem_cons_self) (ms ++ [m])
      rw [List.map_cons] at hrest
      rw [hrest, List.append_assoc, List.singleton_append]

theorem exists_commas_cons (m : Member) (more : List Member) :
    ∃ rest, commas ((m :: more).map memberText) = 34 :: rest := by
  cases more with
  | nil => exact ⟨_, rfl⟩
  | cons m' more => exact ⟨_, rfl⟩

/-- Up to its closing brace an object is not read yet, and the brace ends it. -/
theorem foldl_braces {ms : List Member} (hms : ∀ m ∈ ms, Member.NulFree m) :
    (∀ done, (123 :: commas (ms.map memberText)).foldl Reader.step .start ≠ .done done) ∧
      (objectText ms).foldl Reader.step .start = .done ms := by
  cases ms with
  | nil => exact ⟨fun _ h => Reader.noConfusion h, rfl⟩
  | cons m more =>
      have hmembers := foldl_commas (fun x hx => hms x (List.mem_cons_of_mem _ hx))
        (hms m List.mem_cons_self) []
      have hopen : (123 :: commas ((m :: more).map memberText)).foldl Reader.step .start =
          .next (m :: more) := by
        obtain ⟨rest, hquote⟩ := exists_commas_cons m more
        rw [hquote] at hmembers ⊢
        exact hmembers
      constructor
      · intro done h
        rw [hopen] at h
        exact Reader.noConfusion h
      · rw [objectText, braces, ← List.cons_append, List.foldl_append, hopen]
        rfl

theorem read_objectText {ms : List Member} (hms : ∀ m ∈ ms, Member.NulFree m) :
    read (objectText ms) = some ms := by
  rw [read, (foldl_braces hms).2]

theorem read_take_objectText {ms : List Member} (hms : ∀ m ∈ ms, Member.NulFree m) {n : Nat}
    (hn : n < (objectText ms).length) : read ((objectText ms).take n) = none := by
  rw [read]
  split
  · rename_i done hdone
    -- The reader would still stand behind the closing brace when the rest has come.
    refine absurd ?_ ((foldl_braces hms).1 done)
    have hsplit : 123 :: commas (ms.map memberText) =
        (objectText ms).take n ++ (123 :: commas (ms.map memberText)).drop n := by
      have htake : (objectText ms).take n = (123 :: commas (ms.map memberText)).take n := by
        rw [objectText, braces, ← List.cons_append, List.take_append_of_le_length]
        rw [objectText, braces, ← List.cons_append, List.length_append] at hn
        exact Nat.lt_succ_iff.mp hn
      rw [htake, List.take_append_drop]
    rw [hsplit, List.foldl_append, hdone, foldl_done]
  · rfl

end JsonText
end JppDos
