import JppDos.Lib.Rows
import JppDos.Lib.Words
import JppDos.Sdk.Prompts

/-!
# Text in rows

`jpp_sdk_wrap_text` and the two callers that go through their arrays by the count that it
returns: the dialog of the apps and the prompt for a capability.
-/

namespace JppDos
namespace Sdk

open CText Filling Rows Words

/-- `JPP_SDK_DISPLAY_COLS`. -/
def displayCols : Nat := 21

/-- What `jpp_sdk_wrap_text` returns, and the rows that it has written, from the first one on. -/
structure Wrapped where
  lines : List (List UInt8)
  count : Nat
  deriving DecidableEq

/-- A word behind what is in its row, as much of it as there is room for. -/
def putWord (row word : List UInt8) : List UInt8 :=
  let row := if 0 < row.length then row ++ [32] else row
  row ++ word.take (displayCols - row.length)

/-- What is returned at the end of the loop; `line` and `col` tell where it has stopped. -/
def wrapCount (line col : Nat) : Nat := if 0 < col ∨ 0 < line then line + 1 else 0

/-- The loop of `jpp_sdk_wrap_text`: `above` are the rows in front of `lines[line]`, and `row` is
what this one holds, of `col` characters. -/
def wrapLoop (maxLines : Nat) (above : List (List UInt8)) (row : List UInt8) :
    List UInt8 → Wrapped
  | [] => ⟨above ++ [row], wrapCount above.length row.length⟩
  | c :: rest =>
      if maxLines ≤ above.length then ⟨above ++ [row], wrapCount above.length row.length⟩
      else if c = 32 then wrapLoop maxLines above row rest
      else
        let word := (c :: rest).takeWhile (· ≠ 32)
        let behind := (c :: rest).dropWhile (· ≠ 32)
        let need := (if 0 < row.length then 1 else 0) + word.length
        if 0 < row.length ∧ displayCols < row.length + need then
          -- the row at hand stays as it is when the counter has gone beyond the last one
          if maxLines ≤ above.length + 1 then
            ⟨above ++ [row], wrapCount (above.length + 1) row.length⟩
          else wrapLoop maxLines (above ++ [row]) (putWord [] word) behind
        else wrapLoop maxLines above (putWord row word) behind
  termination_by text => text.length
  decreasing_by
    · exact Nat.lt_succ_self _
    · exact length_dropWhile_lt _ ‹_›
    · exact length_dropWhile_lt _ ‹_›

/-- `jpp_sdk_wrap_text`. -/
def wrapText (text : Option CStr) (maxLines : Nat) : Wrapped :=
  match text with
  | none => ⟨[], 0⟩
  | some text => if maxLines = 0 then ⟨[], 0⟩ else wrapLoop maxLines [] [] text.val

/-- The loop over the words. -/
def wrapWords (maxLines : Nat) (above : List (List UInt8)) (row : List UInt8) :
    List (List UInt8) → Wrapped
  | [] => ⟨above ++ [row], wrapCount above.length row.length⟩
  | word :: behind =>
      let need := (if 0 < row.length then 1 else 0) + word.length
      if 0 < row.length ∧ displayCols < row.length + need then
        if maxLines ≤ above.length + 1 then
          ⟨above ++ [row], wrapCount (above.length + 1) row.length⟩
        else wrapWords maxLines (above ++ [row]) (putWord [] word) behind
      else wrapWords maxLines above (putWord row word) behind

theorem wrapLoop_eq {maxLines : Nat} {above : List (List UInt8)} (h : above.length < maxLines)
    (row text : List UInt8) :
    wrapLoop maxLines above row text = wrapWords maxLines above row (words 32 text) := by
  fun_induction wrapLoop maxLines above row text with
  | case1 above row => rw [words_nil, wrapWords]
  | case2 above row c rest hfull => exact absurd h (by omega)
  | case3 above row rest hfull ih => rw [words_cons_sep, ih h]
  | case4 above row c rest hfull hc word need hnext hlast =>
      have hhead : (c :: rest).head? ≠ some 32 := fun heq => hc (Option.some.inj heq)
      rw [words_eq_cons (List.cons_ne_nil _ _) hhead, wrapWords]
      exact ((if_pos hnext).trans (if_pos hlast)).symm
  | case5 above row c rest hfull hc word behind need hnext hlast ih =>
      have hhead : (c :: rest).head? ≠ some 32 := fun heq => hc (Option.some.inj heq)
      rw [words_eq_cons (List.cons_ne_nil _ _) hhead, wrapWords]
      have hroom : (above ++ [row]).length < maxLines := by
        rw [List.length_append, List.length_singleton]
        omega
      exact (ih hroom).trans ((if_pos hnext).trans (if_neg hlast)).symm
  | case6 above row c rest hfull hc word behind need hnext ih =>
      have hhead : (c :: rest).head? ≠ some 32 := fun heq => hc (Option.some.inj heq)
      rw [words_eq_cons (List.cons_ne_nil _ _) hhead, wrapWords]
      exact (ih h).trans (if_neg hnext).symm

/-- As much of each word as a row has room for. -/
def cutWords (text : List UInt8) : List (List UInt8) :=
  (words 32 text).map (List.take displayCols)

theorem length_le_of_mem_cutWords {text word : List UInt8} (h : word ∈ cutWords text) :
    word.length ≤ displayCols := by
  obtain ⟨whole, -, rfl⟩ := List.mem_map.mp h
  exact List.length_take_le _ _

section Fill

variable {row : List (List UInt8)} {word : List UInt8}

theorem joined_pos (hrow : ∀ w ∈ row, w ≠ []) : 0 < (joined 32 row).length ↔ row ≠ [] := by
  rw [List.length_pos_iff, ne_eq, joined_eq_nil_iff hrow]

theorem wraps_iff (hrow : ∀ w ∈ row, w ≠ []) :
    (0 < (joined 32 row).length ∧ displayCols <
      (joined 32 row).length + ((if 0 < (joined 32 row).length then 1 else 0) + word.length)) ↔
        ¬ Fits displayCols (row ++ [word.take displayCols]) := by
  rw [fits_iff 32]
  rcases eq_or_ne row [] with rfl | hne
  · simp
  · have hpos := (joined_pos hrow).mpr hne
    rw [joined_concat hne, List.length_append, List.length_cons, List.length_take, if_pos hpos]
    omega

theorem putWord_nil : putWord [] word = joined 32 [word.take displayCols] := by
  simp [putWord]

theorem putWord_joined (hrow : ∀ w ∈ row, w ≠ [])
    (hfits : Fits displayCols (row ++ [word.take displayCols])) :
    putWord (joined 32 row) word = joined 32 (row ++ [word.take displayCols]) := by
  rcases eq_or_ne row [] with rfl | hne
  · exact putWord_nil
  · have hpos := (joined_pos hrow).mpr hne
    rw [fits_iff 32, joined_concat hne, List.length_append, List.length_cons,
      List.length_take] at hfits
    rw [putWord, if_pos hpos, joined_concat hne, List.append_assoc]
    have hroom : word.take (displayCols - (joined 32 row ++ [32]).length) = word := by
      rw [List.length_append, List.length_singleton]
      exact List.take_of_length_le (by omega)
    rw [hroom, List.take_of_length_le (by omega), List.singleton_append]

/-- The count at the end of the loop: all rows, unless there is only an empty one. -/
def rowCount (lines : List (List UInt8)) : Nat := if lines = [[]] then 0 else lines.length

theorem wrapCount_eq (above : List (List UInt8)) (row : List UInt8) :
    wrapCount above.length row.length = rowCount (above ++ [row]) := by
  cases above <;> cases row <;> simp [wrapCount, rowCount]

/-- The loop fills the rows one after the other, and where a word is left over it counts one row
more. -/
theorem wrapWords_eq {n maxLines : Nat} {above : List (List UInt8)} {text : List (List UInt8)}
    (hmax : above.length + 1 + n = maxLines) (hrow : ∀ w ∈ row, w ≠ [])
    (hfits : Fits displayCols row) (htext : ∀ w ∈ text, w ≠ []) :
    let rows := fillRows displayCols n row (text.map (List.take displayCols))
    let lines := above ++ rows.map (joined 32)
    wrapWords maxLines above (joined 32 row) text =
      ⟨lines, if rows.flatten = row ++ text.map (List.take displayCols) then rowCount lines
        else maxLines + 1⟩ := by
  induction text generalizing n above row with
  | nil =>
      simp only [List.map_nil, fillRows, List.map_cons, List.flatten_singleton, List.append_nil,
        if_true, wrapWords, wrapCount_eq]
  | cons word text ih =>
      have hword := htext word List.mem_cons_self
      have hrest := fun w hw => htext w (List.mem_cons_of_mem word hw)
      have hcut : word.take displayCols ≠ [] := by
        rw [ne_eq, List.take_eq_nil_iff, not_or]
        exact ⟨by decide, hword⟩
      simp only [List.map_cons, fillRows_cons, wrapWords, wraps_iff hrow]
      by_cases hput : Fits displayCols (row ++ [word.take displayCols])
      · rw [if_neg (not_not_intro hput), if_pos hput, putWord_joined hrow hput]
        have hrow' : ∀ w ∈ row ++ [word.take displayCols], w ≠ [] :=
          List.forall_mem_append.mpr ⟨hrow, by simpa using hcut⟩
        have h := ih hmax hrow' hput hrest
        simpa only [List.append_assoc, List.singleton_append] using h
      · rw [if_pos hput, if_neg hput]
        cases n with
        | zero =>
            have hlast : maxLines ≤ above.length + 1 := by omega
            have hleft : ¬ [row].flatten =
                row ++ word.take displayCols :: text.map (List.take displayCols) := by simp
            rw [if_pos hlast, if_neg hleft, wrapCount, if_pos (Or.inr (Nat.succ_pos _)), ← hmax]
            rfl
        | succ n =>
            have hmore : ¬ maxLines ≤ above.length + 1 := by omega
            have hmax' : (above ++ [joined 32 row]).length + 1 + n = maxLines := by
              rw [List.length_append, List.length_singleton]
              omega
            have hone : Fits displayCols [word.take displayCols] :=
              fits_singleton (List.length_take_le _ _)
            have h := ih hmax' (by simpa using hcut) hone hrest
            rw [if_neg hmore, putWord_nil, h]
            simp only [List.append_assoc, List.singleton_append, List.map_cons, List.flatten_cons,
              List.append_cancel_left_eq]

end Fill

/-- The words of a text, if there is one. -/
def textWords (text : Option CStr) : List (List UInt8) :=
  (text.map fun t => cutWords t.val).getD []

/-- So many words can be laid out in the rows, and no more of them. -/
def MostFit (n : Nat) (ws : List (List UInt8)) (k : Nat) : Prop :=
  FitsIn displayCols n (ws.take k) ∧
    ∀ j, k < j → j ≤ ws.length → ¬ FitsIn displayCols n (ws.take j)

/-- The rows are those that there are, none is too long, and together they are the words as far
as they fit. -/
structure RowsShown (text : Option CStr) (maxLines : Nat) : Prop where
  length_lines : (wrapText text maxLines).lines.length ≤ maxLines
  length_line : ∀ line ∈ (wrapText text maxLines).lines, line.length ≤ displayCols
  joined_lines : ∃ k, MostFit maxLines (textWords text) k ∧
    joined 32 ((wrapText text maxLines).lines.take (wrapText text maxLines).count) =
      joined 32 ((textWords text).take k)

theorem wrapText_some (text : CStr) (n : Nat) :
    let rows := fillRows displayCols n [] (cutWords text.val)
    wrapText (some text) (n + 1) =
      ⟨rows.map (joined 32), if rows.flatten = cutWords text.val then
        rowCount (rows.map (joined 32)) else n + 2⟩ := by
  have hloop := @wrapLoop_eq (n + 1) [] (Nat.succ_pos n) [] text.val
  have hmax : ([] : List (List UInt8)).length + 1 + n = n + 1 := by simp [Nat.add_comm]
  have hwords := @wrapWords_eq [] n (n + 1) [] (words 32 text.val) hmax (by simp) fits_nil
    fun w hw => (mem_words hw).1
  rw [wrapText, if_neg (Nat.succ_ne_zero n), hloop]
  exact hwords

theorem joined_take_rowCount (lines : List (List UInt8)) :
    joined 32 (lines.take (rowCount lines)) = joined 32 lines := by
  rw [rowCount]
  split_ifs with h
  · rw [h]
    rfl
  · rw [List.take_length]

theorem rowCount_le (lines : List (List UInt8)) : rowCount lines ≤ lines.length := by
  rw [rowCount]
  split_ifs
  · exact Nat.zero_le _
  · exact Nat.le_refl _

section Filled

variable (text : List UInt8) (n : Nat)

theorem take_filled :
    (cutWords text).take (fillRows displayCols n [] (cutWords text)).flatten.length =
      (fillRows displayCols n [] (cutWords text)).flatten :=
  (List.prefix_iff_eq_take.mp fillRows_flatten).symm

/-- The words that have been put into rows are as many as fit. -/
theorem mostFit_filled : MostFit (n + 1) (cutWords text)
    (fillRows displayCols n [] (cutWords text)).flatten.length := by
  have hcut : ∀ word ∈ cutWords text, word.length ≤ displayCols :=
    fun _ => length_le_of_mem_cutWords
  constructor
  · rw [take_filled]
    exact fitsIn_flatten fits_nil hcut
  · intro j hj hle hfits
    exact absurd hj (Nat.not_lt.mpr (@le_of_fitsIn _ _ n [] _ _ hle hfits))

theorem joined_filled :
    joined 32 ((fillRows displayCols n [] (cutWords text)).map (joined 32)) =
      joined 32 (fillRows displayCols n [] (cutWords text)).flatten := by
  rcases eq_or_ne (cutWords text) [] with hnil | hwords
  · rw [hnil]
    rfl
  · exact joined_rows 32 (ne_nil_of_mem_fillRows (Or.inr hwords) fun _ => length_le_of_mem_cutWords)

end Filled

/-- The rows hold the words that fit, whatever is counted. -/
theorem rowsShown (text : Option CStr) {maxLines : Nat} (hmax : 0 < maxLines) :
    RowsShown text maxLines := by
  obtain ⟨n, rfl⟩ : ∃ n, maxLines = n + 1 := ⟨maxLines - 1, by omega⟩
  cases text with
  | none =>
      refine ⟨Nat.zero_le _, by simp [wrapText], 0, ⟨⟨[], by simp [textWords]⟩, ?_⟩, rfl⟩
      intro j hj hle
      exact absurd hle (by simp [textWords]; omega)
  | some text =>
      have hrows : (fillRows displayCols n [] (cutWords text.val)).length ≤ n + 1 :=
        length_fillRows_le
      have hfits := fits_of_mem_fillRows (n := n) fits_nil fun w (hw : w ∈ cutWords text.val) =>
        length_le_of_mem_cutWords hw
      refine ⟨?_, ?_, _, mostFit_filled text.val n, ?_⟩
      · rw [wrapText_some, List.length_map]
        exact hrows
      · rw [wrapText_some]
        intro line hline
        obtain ⟨row, hrow, rfl⟩ := List.mem_map.mp hline
        exact (fits_iff 32 row).mp (hfits row hrow)
      · rw [wrapText_some]
        simp only
        split_ifs with hall
        · rw [joined_take_rowCount, joined_filled]
          exact congrArg _ (take_filled text.val n).symm
        · rw [List.take_of_length_le (by rw [List.length_map]; omega), joined_filled]
          exact congrArg _ (take_filled text.val n).symm

theorem count_le_iff (text : Option CStr) {maxLines : Nat} (hmax : 0 < maxLines) :
    (wrapText text maxLines).count ≤ maxLines ↔ FitsIn displayCols maxLines (textWords text) := by
  obtain ⟨n, rfl⟩ : ∃ n, maxLines = n + 1 := ⟨maxLines - 1, by omega⟩
  cases text with
  | none => exact iff_of_true (Nat.zero_le _) ⟨[], by simp [textWords]⟩
  | some text =>
      have hrows : (fillRows displayCols n [] (cutWords text.val)).length ≤ n + 1 :=
        length_fillRows_le
      have hall := fillRows_all_iff (n := n) fits_nil fun w (hw : w ∈ cutWords text.val) =>
        length_le_of_mem_cutWords hw
      rw [List.nil_append] at hall
      rw [wrapText_some]
      simp only
      split_ifs with h
      · refine iff_of_true ?_ (hall.mp h)
        have hle := rowCount_le ((fillRows displayCols n [] (cutWords text.val)).map (joined 32))
        rw [List.length_map] at hle
        omega
      · exact iff_of_false (by omega) fun hfit => h (hall.mpr hfit)

/-- The rows that `jpp_sdk_dialog` uses for the title and the line below it. -/
def dialogHead (title : Option CStr) : Nat :=
  match title with
  | none => 0
  | some title => if title.val = [] then 0 else 2

/-- `n` of `jpp_sdk_dialog`: the rows of `body` that become `lines`. -/
def dialogRows (title text : Option CStr) : Nat :=
  dialogHead title + (wrapText text (frameLineCapacity - dialogHead title)).count

theorem dialogHead_le (title : Option CStr) : dialogHead title ≤ 2 := by
  unfold dialogHead
  split
  · decide
  · split_ifs <;> decide

/-- The comparisons of `cap_description` with what is returned for each. -/
def capDescriptions : List (CStr × CStr) :=
  [(lit "http.request", lit "make requests over the network"),
    (lit "https.request", lit "make secure (HTTPS) web requests"),
    (lit "ble.scan", lit "scan for nearby Bluetooth devices"),
    (lit "ble.advertise", lit "broadcast over Bluetooth"),
    (lit "background.register", lit "run scheduled tasks in the background"),
    (lit "esp_now", lit "send and receive ESP-NOW messages"),
    (lit "files.full", lit "open any file on the SD card"),
    (lit "network.bind", lit "open network servers and sockets"),
    (lit "network.connect", lit "open outbound network connections"),
    (lit "ble.connect", lit "connect to Bluetooth devices"),
    (lit "ble.host", lit "host a Bluetooth service")]

/-- `cap_description`. -/
def capDescription (cap : CStr) : CStr :=
  match capDescriptions.find? fun entry => cap == entry.1 with
  | some (_, description) => description
  | none => lit "use an extra device feature"

/-- The rows of `prompt_permission`: `desc_count` of the array with two, and `bn` of the one with
four. -/
def promptRows (cap : CStr) : Nat × Nat :=
  let descCount := (wrapText (some (capDescription cap)) 2).count
  (descCount, 1 + descCount + 1)

theorem count_capDescription_le (cap : CStr) :
    (wrapText (some (capDescription cap)) 2).count ≤ 2 := by
  have hfit : ∀ description ∈ lit "use an extra device feature" :: capDescriptions.map Prod.snd,
      (wrapWords 2 [] [] (words 32 description.val)).count ≤ 2 := by
    decide +kernel
  have hloop := @wrapLoop_eq 2 [] (by decide) [] (capDescription cap).val
  rw [wrapText, if_neg (by decide), hloop]
  refine hfit _ ?_
  rw [capDescription]
  split
  · rename_i name description hfind
    exact List.mem_cons_of_mem _ (List.mem_map_of_mem (List.mem_of_find?_eq_some hfind))
  · exact List.mem_cons_self

/-- What `jpp_sdk_wrap_text` returns is right exactly for the texts that fit into the rows, the
dialog stays inside its arrays for the texts that fit below its title, and the prompt does for
every capability. -/
theorem textRows_iff (text title : Option CStr) (n : Nat) (cap : CStr) :
    ((wrapText text (n + 1)).count ≤ n + 1 ∧ RowsShown text (n + 1) ↔
        FitsIn displayCols (n + 1) (textWords text)) ∧
      ((∀ i < dialogRows title text, i < frameLineCapacity) ↔
        FitsIn displayCols (frameLineCapacity - dialogHead title) (textWords text)) ∧
      (∀ i < (promptRows cap).1, i < 2) ∧ ∀ i < (promptRows cap).2, i < 4 := by
  refine ⟨?_, ?_, ?_⟩
  · rw [count_le_iff text (Nat.succ_pos n)]
    exact and_iff_left (rowsShown text (Nat.succ_pos n))
  · have hhead := dialogHead_le title
    have hroom : 0 < frameLineCapacity - dialogHead title := by
      rw [frameLineCapacity]
      omega
    rw [← count_le_iff text hroom, dialogRows, frameLineCapacity] at *
    constructor
    · intro h
      by_contra hmore
      exact absurd (h 7 (by omega)) (by decide)
    · intro h i hi
      omega
  · have hcount := count_capDescription_le cap
    constructor
    · intro i hi
      exact Nat.lt_of_lt_of_le hi hcount
    · intro i hi
      have hi' : i < 1 + (wrapText (some (capDescription cap)) 2).count + 1 := hi
      omega

/-- Words that fill a row each, one more than a frame has rows. -/
def eightRows : CStr := CStr.ofBytes ((List.replicate 8 (List.replicate 21 97 ++ [32])).flatten)

/-- A text for a row more than there are: the dialog goes through eight rows of seven. -/
theorem not_textRows :
    ¬ ((wrapText (some eightRows) 7).count ≤ 7 ∧ RowsShown (some eightRows) 7) ∧
      ¬ ∀ i < dialogRows none (some eightRows), i < frameLineCapacity := by
  have hloop := @wrapLoop_eq 7 [] (by decide) [] eightRows.val
  have hcount : (wrapText (some eightRows) 7).count = 8 := by
    rw [wrapText, if_neg (by decide), hloop]
    decide
  constructor
  · rintro ⟨hle, -⟩
    rw [hcount] at hle
    exact absurd hle (by decide)
  · intro h
    refine absurd (h 7 ?_) (by decide)
    change 7 < 0 + (wrapText (some eightRows) 7).count
    rw [hcount]
    decide

end Sdk
end JppDos
