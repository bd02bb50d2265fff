import JppDos.Lib.CText
import JppDos.Lib.Machine

/-!
# The on-screen keyboard

`jpp_kbd_core.c` with the loop of `jpp_sdk_keyboard_entry` around it: keys move a focus over rows
of different lengths, OK presses the key under the focus, and the value is edited in a buffer of
65 bytes.  Seen from outside it is a text with a shift, on which the pressed keys act.
-/

namespace JppDos
namespace Ui

open CText Machine

/-- `jpp_kbd_input_type_t`. -/
inductive KbdInputType where
  | text
  | number
  | date
  | time
  deriving DecidableEq

/-- `jpp_kbd_key_kind_t`. -/
inductive KbdKeyKind where
  | char
  | shift
  | space
  | bksp
  | done
  | cancel
  deriving DecidableEq

/-- `jpp_kbd_key_t`; a key without a shifted form has 0 there. -/
structure KbdKey where
  ch : UInt8
  kind : KbdKeyKind
  shiftCh : UInt8
  deriving DecidableEq

/-- The keys of a text of characters. -/
def charKeys (chars : List UInt8) : List KbdKey := chars.map fun c => ⟨c, .char, 0⟩

/-- The row of digits, with their symbols. -/
def digitRow : List KbdKey :=
  List.zipWith (fun digit symbol => ⟨digit, .char, symbol⟩) (ascii "1234567890")
    (ascii "!?@#*/:.()")

/-- The keys that end a layout. -/
def endKeys : List KbdKey := [⟨60, .bksp, 0⟩, ⟨42, .done, 0⟩, ⟨88, .cancel, 0⟩]

/-- `jpp_kbd_layout`. -/
def kbdLayout : KbdInputType → List (List KbdKey)
  | .text =>
      [digitRow, charKeys (ascii "qwertyuiop"),
        charKeys (ascii "asdfghjkl") ++ [⟨94, .shift, 0⟩],
        charKeys (ascii "zxcvbnm") ++ [⟨95, .space, 0⟩] ++ endKeys]
  | .number => [digitRow, charKeys (ascii "-.") ++ endKeys]
  | .date => [digitRow, charKeys (ascii "-") ++ endKeys]
  | .time => [digitRow, charKeys (ascii ":") ++ endKeys]

/-- `JPP_KBD_VALUE_MAX`. -/
def kbdValueMax : Nat := 64

/-- `jpp_kbd_cursor_t`. -/
structure KbdCursor where
  value : List UInt8
  len : Nat
  focusRow : Nat
  focusCol : Nat
  upper : Bool
  deriving DecidableEq

/-- `jpp_kbd_cursor_init`, with the prefill that there is, or with none. -/
def kbdCursorInit (prefill : Option CStr) : KbdCursor :=
  let filled := ((prefill.map Subtype.val).getD []).take kbdValueMax
  { value := filled ++ List.replicate (kbdValueMax + 1 - filled.length) 0
    len := filled.length
    focusRow := 0
    focusCol := 0
    upper := false }

/-- `jpp_sdk_key_event_t`. -/
inductive SdkKey where
  | none
  | up
  | down
  | left
  | right
  | ok
  | okLong
  deriving DecidableEq

/-- `jpp_kbd_result_t`. -/
inductive KbdResult where
  | continued
  | done
  | cancel
  deriving DecidableEq

/-- What a character key writes. -/
def KbdKey.char (k : KbdKey) (upper : Bool) : UInt8 :=
  if upper then
    if 97 ≤ k.ch ∧ k.ch ≤ 122 then k.ch - 97 + 65
    else if k.shiftCh ≠ 0 then k.shiftCh
    else k.ch
  else k.ch

/-- A character at the end of the value, when there is room. -/
def KbdCursor.append (cap : Nat) (c : KbdCursor) (ch : UInt8) : KbdCursor :=
  if c.len < cap then
    { c with value := (c.value.set c.len ch).set (c.len + 1) 0, len := c.len + 1 }
  else c

/-- The last character taken away. -/
def KbdCursor.delete (c : KbdCursor) : KbdCursor :=
  if 0 < c.len then { c with value := c.value.set (c.len - 1) 0, len := c.len - 1 } else c

/-- `KEY_OK` on a key. -/
def kbdPress (cap : Nat) (c : KbdCursor) (k : KbdKey) : KbdResult × KbdCursor :=
  match k.kind with
  | .shift => (.continued, { c with upper := !c.upper })
  | .bksp => (.continued, c.delete)
  | .space => (.continued, c.append cap 32)
  | .done => (.done, c)
  | .cancel => (.cancel, c)
  | .char => (.continued, c.append cap (k.char c.upper))

section Rows

variable (rows : List (List KbdKey))

/-- `row_len` of the row with the focus. -/
def KbdCursor.rowLen (c : KbdCursor) : Nat := (rows[c.focusRow]?.getD []).length

/-- The key with the focus. -/
def KbdCursor.focused (c : KbdCursor) : Option KbdKey := (rows[c.focusRow]?.getD [])[c.focusCol]?

/-- The column is moved back where the new row is shorter. -/
def KbdCursor.clamp (c : KbdCursor) : KbdCursor :=
  if c.rowLen rows ≤ c.focusCol then { c with focusCol := c.rowLen rows - 1 } else c

/-- `jpp_kbd_step`. -/
def kbdStep (cap : Nat) (c : KbdCursor) (key : SdkKey) : KbdResult × KbdCursor :=
  let moved (c : KbdCursor) : KbdResult × KbdCursor := (.continued, c.clamp rows)
  match key with
  | .okLong => (.cancel, c)
  | .up =>
      moved { c with focusRow := if c.focusRow = 0 then rows.length - 1 else c.focusRow - 1 }
  | .down => moved { c with focusRow := (c.focusRow + 1) % rows.length }
  | .left =>
      moved { c with focusCol := if c.focusCol = 0 then c.rowLen rows - 1 else c.focusCol - 1 }
  | .right => moved { c with focusCol := (c.focusCol + 1) % c.rowLen rows }
  | .ok =>
      match c.focused rows with
      | none => moved c
      | some k =>
          match kbdPress cap c k with
          | (.continued, c) => moved c
          | result => result
  | .none => moved c

end Rows

/-- The capacity in `jpp_sdk_keyboard_entry`, whose callers give a buffer of at least one byte. -/
def kbdCap (valueBufLen : Nat) : Nat := min (valueBufLen - 1) kbdValueMax

/-- The entry in its loop, or what it has returned: OK or BACK, and the text in `out_value`. -/
inductive KbdEntry where
  | editing (c : KbdCursor)
  | returned (ok : Bool) (text : List UInt8)
  deriving DecidableEq

/-- What the buffer of the caller holds as a text after `memcpy` and the zero. -/
def outText (valueBufLen : Nat) (c : KbdCursor) : List UInt8 :=
  (c.value.take (min c.len (valueBufLen - 1)) ++ [0]).takeWhile (· ≠ 0)

/-- A turn of the loop, with the key that OK presses. -/
def kbdEntryStep (rows : List (List KbdKey)) (valueBufLen : Nat) (e : KbdEntry) (key : SdkKey) :
    KbdEntry × List KbdKey :=
  match e with
  | .returned ok text => (.returned ok text, [])
  | .editing c =>
      let pressed := if key = .ok then (c.focused rows).toList else []
      match kbdStep rows (kbdCap valueBufLen) c key with
      | (.continued, c') => (.editing c', pressed)
      | (.done, c') => (.returned true (outText valueBufLen c'), pressed)
      | (.cancel, _) => (.returned false [], pressed)

/-- A text that is edited at its end. -/
structure Typed where
  text : List UInt8
  upper : Bool

/-- A press of a key. -/
def Typed.press (cap : Nat) (t : Typed) (k : KbdKey) : Typed :=
  match k.kind with
  | .shift => { t with upper := !t.upper }
  | .bksp => { t with text := t.text.dropLast }
  | .space => { t with text := if t.text.length < cap then t.text ++ [32] else t.text }
  | .char =>
      { t with text := if t.text.length < cap then t.text ++ [k.char t.upper] else t.text }
  | .done | .cancel => t

/-- The text that the pressed keys leave. -/
def typed (cap : Nat) (prefill : Option CStr) (pressed : List KbdKey) : Typed :=
  pressed.foldl (Typed.press cap) ⟨(prefill.map Subtype.val).getD [], false⟩

/-- The rows of a layout have keys, and the keys have characters. -/
structure Layout (rows : List (List KbdKey)) : Prop where
  nonempty : rows ≠ []
  keys : ∀ row ∈ rows, row ≠ []
  chars : ∀ row ∈ rows, ∀ k ∈ row, ∀ upper, k.char upper ≠ 0

/-- The value of the cursor is a text of at most `cap` characters, with a zero behind it. -/
structure ValueHolds (cap : Nat) (c : KbdCursor) (text : List UInt8) : Prop where
  size : c.value.length = kbdValueMax + 1
  room : c.len ≤ cap
  ended : c.value[c.len]? = some 0
  taken : c.value.take c.len = text
  plain : 0 ∉ text

/-- The cursor stands for a text with a shift, and its focus is on a key. -/
structure EditsAs (rows : List (List KbdKey)) (cap : Nat) (c : KbdCursor) (t : Typed) : Prop where
  focus : c.focusRow < rows.length ∧ c.focusCol < c.rowLen rows
  value : ValueHolds cap c t.text
  upper : c.upper = t.upper

/-- What the entry should show or have returned when these keys are pressed. -/
def Refines (rows : List (List KbdKey)) (cap : Nat) (prefill : Option CStr) (e : KbdEntry)
    (pressed : List KbdKey) : Prop :=
  match e with
  | .editing c => EditsAs rows cap c (typed cap prefill pressed)
  | .returned true text => text = (typed cap prefill pressed).text
  | .returned false text => text = []

section Buffer

variable {cap : Nat} {c : KbdCursor} {t : Typed}

/-- A byte put behind the first `n` bytes. -/
theorem take_set_succ {l : List UInt8} {n : Nat} (h : n < l.length) (b : UInt8) :
    (l.set n b).take (n + 1) = l.take n ++ [b] := by
  have hset : n < (l.set n b).length := by rwa [List.length_set]
  rw [List.take_succ_eq_append_getElem hset, List.getElem_set_self,
    List.take_set_of_le (Nat.le_refl n)]

theorem take_set_behind {l : List UInt8} {n m : Nat} (h : n ≤ m) (b : UInt8) :
    (l.set m b).take n = l.take n := List.take_set_of_le h

theorem ValueHolds.length {text : List UInt8} (hcap : cap ≤ kbdValueMax)
    (h : ValueHolds cap c text) : text.length = c.len := by
  have hroom := h.room
  rw [← h.taken, List.length_take, h.size]
  omega

theorem ValueHolds.append {text : List UInt8} (hcap : cap ≤ kbdValueMax) (h : ValueHolds cap c text)
    {ch : UInt8} (hch : ch ≠ 0) :
    ValueHolds cap (c.append cap ch) (if text.length < cap then text ++ [ch] else text) := by
  rw [KbdCursor.append, h.length hcap]
  by_cases hroom : c.len < cap
  · rw [if_pos hroom, if_pos hroom]
    have hsize := h.size
    have hlen : c.len + 1 < (c.value.set c.len ch).length := by
      rw [List.length_set]
      omega
    refine ⟨by simp [hsize], hroom, ?_, ?_, ?_⟩
    · exact List.getElem?_set_self hlen
    · rw [take_set_behind (Nat.le_refl _), take_set_succ (by omega), h.taken]
    · rw [List.mem_append, List.mem_singleton, not_or]
      exact ⟨h.plain, hch.symm⟩
  · rw [if_neg hroom, if_neg hroom]
    exact h

theorem ValueHolds.delete {text : List UInt8} (hcap : cap ≤ kbdValueMax)
    (h : ValueHolds cap c text) : ValueHolds cap c.delete text.dropLast := by
  have hroom := h.room
  have hsize := h.size
  rw [KbdCursor.delete]
  by_cases hpos : 0 < c.len
  · rw [if_pos hpos]
    have hlast : c.len - 1 < c.value.length := by omega
    have hless : c.len - 1 ≤ cap := by omega
    refine ⟨by simp [hsize], hless, List.getElem?_set_self hlast, ?_, ?_⟩
    · rw [take_set_behind (Nat.le_refl _), ← h.taken, List.dropLast_take (by omega)]
    · exact fun hmem => h.plain (List.dropLast_subset _ hmem)
  · rw [if_neg hpos]
    have hnil : text = [] := List.eq_nil_of_length_eq_zero (by rw [h.length hcap]; omega)
    rw [hnil, List.dropLast_nil, ← hnil]
    exact h

/-- What is read back from the buffer of the caller is the text. -/
theorem ValueHolds.outText {text : List UInt8} {valueBufLen : Nat}
    (h : ValueHolds (kbdCap valueBufLen) c text) : Ui.outText valueBufLen c = text := by
  have hroom : c.len ≤ valueBufLen - 1 := Nat.le_trans h.room (Nat.min_le_left _ _)
  have hplain : ∀ b ∈ text, decide (b ≠ 0) = true := fun b hb =>
    decide_eq_true fun hzero => h.plain (hzero ▸ hb)
  rw [Ui.outText, Nat.min_eq_left hroom, h.taken, List.takeWhile_append_of_pos hplain,
    List.takeWhile_cons_of_neg (by simp), List.append_nil]

end Buffer

section Steps

variable {rows : List (List KbdKey)} {cap : Nat} {c : KbdCursor} {t : Typed}

/-- Every row of every layout has keys, and they have characters. -/
theorem kbdLayout_ok (type : KbdInputType) : Layout (kbdLayout type) := by
  cases type <;> exact ⟨by decide, by decide, by decide⟩

theorem rowLen_pos (h : Layout rows) (hrow : c.focusRow < rows.length) : 0 < c.rowLen rows := by
  rw [KbdCursor.rowLen, List.getElem?_eq_getElem hrow, Option.getD_some]
  exact List.length_pos_iff.mpr (h.keys _ (List.getElem_mem hrow))

theorem focused_eq (hrow : c.focusRow < rows.length) (hcol : c.focusCol < c.rowLen rows) :
    ∃ k, c.focused rows = some k ∧ ∃ row ∈ rows, k ∈ row := by
  rw [KbdCursor.rowLen, List.getElem?_eq_getElem hrow, Option.getD_some] at hcol
  refine ⟨rows[c.focusRow][c.focusCol], ?_, _, List.getElem_mem hrow, List.getElem_mem hcol⟩
  rw [KbdCursor.focused, List.getElem?_eq_getElem hrow, Option.getD_some,
    List.getElem?_eq_getElem hcol]

theorem clamp_focus (h : Layout rows) (hrow : c.focusRow < rows.length) :
    (c.clamp rows).focusRow < rows.length ∧
      (c.clamp rows).focusCol < (c.clamp rows).rowLen rows := by
  have hpos := rowLen_pos h hrow
  rw [KbdCursor.clamp]
  split_ifs with hbehind
  · exact ⟨hrow, Nat.sub_one_lt_of_lt hpos⟩
  · exact ⟨hrow, Nat.lt_of_not_le hbehind⟩

theorem EditsAs.moved {c' : KbdCursor} (hlayout : Layout rows) (h : EditsAs rows cap c t)
    (hrow : c'.focusRow < rows.length) (hvalue : c'.value = c.value) (hlen : c'.len = c.len)
    (hupper : c'.upper = c.upper) : EditsAs rows cap (c'.clamp rows) t := by
  refine ⟨clamp_focus hlayout hrow, ?_, ?_⟩
  · have hsame : (c'.clamp rows).value = c.value ∧ (c'.clamp rows).len = c.len := by
      rw [KbdCursor.clamp]
      split_ifs <;> exact ⟨hvalue, hlen⟩
    obtain ⟨hv, hl⟩ := hsame
    exact ⟨hv ▸ h.value.size, hl ▸ h.value.room, hv ▸ hl ▸ h.value.ended,
      hv ▸ hl ▸ h.value.taken, h.value.plain⟩
  · rw [KbdCursor.clamp]
    split_ifs <;> exact hupper.trans h.upper

/-- A pressed key does to the cursor what it does to the text, and leaves the focus. -/
theorem EditsAs.press (hcap : cap ≤ kbdValueMax) (h : EditsAs rows cap c t) {k : KbdKey}
    (hk : ∀ upper, k.char upper ≠ 0) : EditsAs rows cap (kbdPress cap c k).2 (t.press cap k) := by
  have hvalue := h.value
  have hupper := h.upper
  rw [kbdPress, Typed.press]
  cases k.kind with
  | shift => exact ⟨h.focus, ⟨hvalue.1, hvalue.2, hvalue.3, hvalue.4, hvalue.5⟩, by rw [hupper]⟩
  | bksp =>
      refine ⟨?_, hvalue.delete hcap, ?_⟩
      · unfold KbdCursor.delete
        split_ifs <;> exact h.focus
      · unfold KbdCursor.delete
        split_ifs <;> exact hupper
  | space =>
      refine ⟨?_, hvalue.append hcap (by decide), ?_⟩
      · unfold KbdCursor.append
        split_ifs <;> exact h.focus
      · unfold KbdCursor.append
        split_ifs <;> exact hupper
  | char =>
      refine ⟨?_, ?_, ?_⟩
      · unfold KbdCursor.append
        split_ifs <;> exact h.focus
      · rw [hupper]
        exact hvalue.append hcap (hk t.upper)
      · unfold KbdCursor.append
        split_ifs <;> exact hupper
  | done => exact h
  | cancel => exact h

/-- What a step leaves: the text with the pressed key, and on a key again. -/
theorem EditsAs.step (hlayout : Layout rows) (hcap : cap ≤ kbdValueMax)
    (h : EditsAs rows cap c t) (key : SdkKey) :
    EditsAs rows cap (kbdStep rows cap c key).2
      ((if key = .ok then (c.focused rows).toList else []).foldl (Typed.press cap) t) := by
  obtain ⟨hrow, hcol⟩ := h.focus
  have hpos := rowLen_pos hlayout hrow
  cases key with
  | none => exact h.moved hlayout hrow rfl rfl rfl
  | okLong => exact h
  | up =>
      refine h.moved hlayout ?_ rfl rfl rfl
      change (if c.focusRow = 0 then rows.length - 1 else c.focusRow - 1) < rows.length
      split_ifs <;> omega
  | down => exact h.moved hlayout (Nat.mod_lt _ (by omega)) rfl rfl rfl
  | left => exact h.moved hlayout hrow rfl rfl rfl
  | right => exact h.moved hlayout hrow rfl rfl rfl
  | ok =>
      obtain ⟨k, hk, row, hmem, hkrow⟩ := focused_eq hrow hcol
      have hpress := h.press hcap (hlayout.chars row hmem k hkrow)
      rw [if_pos rfl, hk]
      have hstep : (kbdStep rows cap c .ok).2 = (kbdPress cap c k).2 ∨
          (kbdStep rows cap c .ok).2 = (kbdPress cap c k).2.clamp rows := by
        simp only [kbdStep, hk]
        rcases kbdPress cap c k with ⟨result, c'⟩
        cases result with
        | continued => exact .inr rfl
        | done => exact .inl rfl
        | cancel => exact .inl rfl
      rcases hstep with hstep | hstep
      · rw [hstep]
        exact hpress
      · rw [hstep]
        exact hpress.moved hlayout hpress.focus.1 rfl rfl rfl

end Steps

section Runs

variable {rows : List (List KbdKey)} {valueBufLen : Nat} {prefill : Option CStr}

theorem typed_append (cap : Nat) (prefill : Option CStr) (pressed more : List KbdKey) :
    typed cap prefill (pressed ++ more) =
      more.foldl (Typed.press cap) (typed cap prefill pressed) :=
  List.foldl_append ..

theorem Refines.step (hlayout : Layout rows) {e : KbdEntry} {pressed : List KbdKey}
    (h : Refines rows (kbdCap valueBufLen) prefill e pressed) (key : SdkKey) :
    Refines rows (kbdCap valueBufLen) prefill (kbdEntryStep rows valueBufLen e key).1
      (pressed ++ (kbdEntryStep rows valueBufLen e key).2) := by
  cases e with
  | returned ok text =>
      rw [kbdEntryStep, List.append_nil]
      exact h
  | editing c =>
      have hcap : kbdCap valueBufLen ≤ kbdValueMax := Nat.min_le_right _ _
      have hnext := EditsAs.step hlayout hcap h key
      rw [← typed_append] at hnext
      rw [kbdEntryStep]
      rcases hres : kbdStep rows (kbdCap valueBufLen) c key with ⟨_ | _ | _, c'⟩
      · rw [hres] at hnext
        exact hnext
      · rw [hres] at hnext
        exact hnext.value.outText
      · rfl

theorem refines_start (hlayout : Layout rows)
    (hprefill : ((prefill.map Subtype.val).getD []).length ≤ kbdCap valueBufLen) :
    Refines rows (kbdCap valueBufLen) prefill (.editing (kbdCursorInit prefill)) [] := by
  have hmax : ((prefill.map Subtype.val).getD []).length ≤ kbdValueMax :=
    Nat.le_trans hprefill (Nat.min_le_right _ _)
  have hplain : 0 ∉ (prefill.map Subtype.val).getD [] := by
    cases prefill with
    | none => exact List.not_mem_nil
    | some s => exact s.2
  have hrow : (kbdCursorInit prefill).focusRow < rows.length :=
    List.length_pos_iff.mpr hlayout.nonempty
  refine ⟨⟨hrow, rowLen_pos hlayout hrow⟩, ?_, rfl⟩
  refine ⟨?_, ?_, ?_, ?_, hplain⟩
  · change (_ ++ List.replicate _ 0).length = _
    rw [List.length_append, List.length_replicate, List.length_take]
    omega
  · simp only [kbdCursorInit, List.take_of_length_le hmax]
    exact hprefill
  · simp only [kbdCursorInit, List.take_of_length_le hmax]
    rw [List.getElem?_append_right (Nat.le_refl _), Nat.sub_self, List.getElem?_replicate,
      if_pos (by omega)]
  · simp only [kbdCursorInit, List.take_of_length_le hmax, List.take_left]
    rfl

/-- The keyboard is the text editor: whatever keys are pressed, the focus is on a key and the
buffer holds the text that the pressed keys leave; DONE returns that text, and CANCEL none. -/
theorem keyboard_refines (type : KbdInputType) (prefill : Option CStr) (valueBufLen : Nat)
    (hprefill : ((prefill.map Subtype.val).getD []).length ≤ kbdCap valueBufLen)
    (keys : List SdkKey) :
    Refines (kbdLayout type) (kbdCap valueBufLen) prefill
      (run (kbdEntryStep (kbdLayout type) valueBufLen) (.editing (kbdCursorInit prefill)) keys)
      (outputs (kbdEntryStep (kbdLayout type) valueBufLen) (.editing (kbdCursorInit prefill))
        keys) :=
  Along.monitor (fun _ key _ h _ => h.step (kbdLayout_ok type) key) (along_true _ keys)
    (refines_start (kbdLayout_ok type) hprefill)

/-- A date. -/
def someDate : CStr := ⟨ascii "2026-01-01", by decide⟩

/-- It is edited. -/
theorem keyboard_refines_date :
    Refines (kbdLayout .date) (kbdCap 32) (some someDate)
      (run (kbdEntryStep (kbdLayout .date) 32)
        (.editing (kbdCursorInit (some someDate))) [.down, .right, .ok])
      (outputs (kbdEntryStep (kbdLayout .date) 32)
        (.editing (kbdCursorInit (some someDate))) [.down, .right, .ok]) :=
  keyboard_refines .date _ 32 (by decide) _

end Runs

end Ui
end JppDos
