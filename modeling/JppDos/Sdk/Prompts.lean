import JppDos.Sdk.Origin

/-!
# What the prompts show

The rows of the dialogs in which the user approves a file path or the origin of a web
request: the text in rows of 21 characters, three of them at most, the frame that they
become, and what the display draws of it.

Main fact:
* `prompts_cut`: two paths of which the user sees the same.
-/

namespace JppDos
namespace Sdk

open CText Url

/-- `JPP_SDK_FRAME_LINE_CAPACITY`. -/
def frameLineCapacity : Nat := 7

/-- `JPP_SDK_FRAME_TEXT_MAX`. -/
def frameTextMax : Nat := 64

/-- `jpp_ui_consent_selector_row`. -/
def consentSelectorRow (allow : Bool) : CStr :=
  if allow then lit " Deny       >Allow" else lit ">Deny        Allow"

/-- The lines that `jpp_sdk_set_frame` stores. -/
def setFrame (lines : List CStr) : List CStr :=
  (lines.take frameLineCapacity).map fun line => line.strncpy frameTextMax

/-- The lines that `jpp_sdk_confirm` shows while the given answer is selected. -/
def confirmFrame (title : CStr) (body : List CStr) (allow : Bool) : List CStr :=
  let head := if title.val = [] then [] else [title.strncpy frameTextMax, lit ""]
  let maxBody := frameLineCapacity - head.length - 1
  setFrame (head ++ (body.take maxBody).map (fun line => line.strncpy frameTextMax) ++
    [(consentSelectorRow allow).strncpy frameTextMax])

/-- What `ssd1306_draw_string` draws, from the given column on. -/
def drawString (col : Nat) : List UInt8 → List UInt8
  | [] => []
  | c :: rest => if col + 6 ≤ 128 then c :: drawString (col + 6) rest else []

/-- The rows on the display. -/
def display (frame : List CStr) : List (List UInt8) := frame.map fun line => drawString 0 line.val

/-- The loop of a prompt: at most the given number of rows with 21 characters. -/
def chunkRows : Nat → List UInt8 → List (List UInt8)
  | 0, _ => []
  | rows + 1, text => if text = [] then [] else text.take 21 :: chunkRows rows (text.drop 21)

/-- The rows of a text below a heading. -/
def promptBody (heading : CStr) (text : List UInt8) : List CStr :=
  heading :: (chunkRows 3 text).map CStr.ofBytes

/-- The display while `sd_path_prompt_cb` waits for an answer. -/
def pathPrompt (mode : OpenMode) (path : CStr) (allow : Bool) : List (List UInt8) :=
  let heading :=
    match mode with
    | .write => lit "Allow write access:"
    | .read => lit "Allow read access:"
  display (confirmFrame (lit "File access") (promptBody heading path.val) allow)

/-- What `prompt_origin` shows of an origin. -/
def shownOrigin (origin : CStr) : List UInt8 :=
  if origin.val.take 8 = ascii "https://" then origin.val.drop 8 else origin.val

/-- The display while `prompt_origin` waits for an answer. -/
def originPrompt (origin : CStr) (allow : Bool) : List (List UInt8) :=
  display (confirmFrame (lit "Web request")
    (promptBody (lit "Connect securely to:") (shownOrigin origin)) allow)

/-- The rows between the heading of a prompt, behind the title and its rule, and the row with
the answers, one behind the other. -/
def behindHeading (rows : List (List UInt8)) : List UInt8 := ((rows.drop 3).dropLast).flatten

theorem flatten_chunkRows (rows : Nat) (text : List UInt8) :
    (chunkRows rows text).flatten = text.take (rows * 21) := by
  induction rows generalizing text with
  | zero => rw [chunkRows, List.flatten_nil, Nat.zero_mul, List.take_zero]
  | succ rows ih =>
      rw [chunkRows]
      split_ifs with hnil
      · rw [hnil, List.flatten_nil, List.take_nil]
      · rw [List.flatten_cons, ih, Nat.succ_mul, Nat.add_comm, List.take_add]

theorem length_chunkRows (rows : Nat) (text : List UInt8) :
    (chunkRows rows text).length ≤ rows := by
  induction rows generalizing text with
  | zero => exact Nat.le_refl 0
  | succ rows ih =>
      rw [chunkRows]
      split_ifs
      · exact Nat.zero_le _
      · exact Nat.succ_le_succ (ih _)

/-- A row is a part of the text, and no longer than the display is wide. -/
theorem mem_chunkRows {rows : Nat} {text row : List UInt8} (h : row ∈ chunkRows rows text) :
    row.length ≤ 21 ∧ ∀ c ∈ row, c ∈ text := by
  induction rows generalizing text with
  | zero => exact absurd h List.not_mem_nil
  | succ rows ih =>
      rw [chunkRows] at h
      split_ifs at h
      · exact absurd h List.not_mem_nil
      · rcases List.mem_cons.mp h with rfl | h
        · exact ⟨List.length_take_le _ _, fun c => List.mem_of_mem_take⟩
        · obtain ⟨hlen, hmem⟩ := ih h
          exact ⟨hlen, fun c hc => List.mem_of_mem_drop (hmem c hc)⟩

theorem drawString_of_le {col : Nat} {text : List UInt8} (h : col + 6 * text.length ≤ 128) :
    drawString col text = text := by
  induction text generalizing col with
  | nil => rfl
  | cons c rest ih =>
      rw [List.length_cons] at h
      rw [drawString, if_pos (by omega), ih (by omega)]

/-- The frame and the display leave the rows of a prompt as they are. -/
theorem behindHeading_confirm {title heading : CStr} (htitle : title.val ≠ [])
    {text : List UInt8} (htext : 0 ∉ text) (allow : Bool) :
    behindHeading (display (confirmFrame title (promptBody heading text) allow)) =
      text.take 63 := by
  have hrows : (chunkRows 3 text).length ≤ 3 := length_chunkRows 3 text
  have hkept : ∀ row ∈ chunkRows 3 text,
      drawString 0 (((CStr.ofBytes row).strncpy frameTextMax).strncpy frameTextMax).val = row := by
    intro row hrow
    obtain ⟨hlen, hmem⟩ := mem_chunkRows hrow
    have hval : (CStr.ofBytes row).val = row :=
      List.takeWhile_eq_self_iff.mpr fun c hc =>
        decide_eq_true fun heq => htext (heq ▸ hmem c hc)
    have hshort : (CStr.ofBytes row).strlen < frameTextMax := by
      rw [CStr.strlen, hval, frameTextMax]
      omega
    rw [CStr.strncpy_of_lt hshort, CStr.strncpy_of_lt hshort, hval]
    exact drawString_of_le (by omega)
  have hbody : (promptBody heading text).take (frameLineCapacity - 2 - 1) =
      promptBody heading text := by
    refine List.take_of_length_le ?_
    simp only [promptBody, frameLineCapacity, List.length_cons, List.length_map]
    omega
  have hframe : (title.strncpy frameTextMax :: lit "" :: (promptBody heading text).map
      (fun line => line.strncpy frameTextMax) ++
        [(consentSelectorRow allow).strncpy frameTextMax]).take frameLineCapacity =
      title.strncpy frameTextMax :: lit "" :: (promptBody heading text).map
        (fun line => line.strncpy frameTextMax) ++
          [(consentSelectorRow allow).strncpy frameTextMax] := by
    refine List.take_of_length_le ?_
    simp only [promptBody, frameLineCapacity, List.length_cons, List.length_map,
      List.length_append, List.length_nil]
    omega
  have hmap : (chunkRows 3 text).map (fun row =>
      drawString 0 (((CStr.ofBytes row).strncpy frameTextMax).strncpy frameTextMax).val) =
      chunkRows 3 text :=
    (List.map_congr_left hkept).trans (List.map_id _)
  have hrest : behindHeading (display (confirmFrame title (promptBody heading text) allow)) =
      ((chunkRows 3 text).map fun row =>
        drawString 0
          (((CStr.ofBytes row).strncpy frameTextMax).strncpy frameTextMax).val).flatten := by
    rw [confirmFrame, if_neg htitle]
    rw [show [title.strncpy frameTextMax, lit ""].length = 2 from rfl, hbody]
    simp only [List.cons_append, List.nil_append] at hframe ⊢
    rw [setFrame, hframe]
    simp only [display, behindHeading, promptBody, List.map_cons, List.map_append, List.map_map,
      List.cons_append, List.drop_succ_cons, List.drop_zero, List.map_nil]
    rw [List.dropLast_concat]
    rfl
  rw [hrest, hmap, flatten_chunkRows]

theorem behindHeading_pathPrompt (mode : OpenMode) (path : CStr) (allow : Bool) :
    behindHeading (pathPrompt mode path allow) = path.val.take 63 :=
  behindHeading_confirm (by decide) path.property allow

/-- What a prompt shows of an origin: the host and the port behind the scheme. -/
theorem behindHeading_originPrompt {url : CStr} {out : List UInt8}
    (h : httpsOrigin url = (.ok, out)) (allow : Bool) :
    behindHeading (originPrompt (CStr.ofBytes out) allow) = (out.drop 8).take 63 := by
  obtain ⟨host, port, -, -, hall, -, rfl⟩ := httpsOrigin_ok_iff.mp h
  have hlen : (ascii "https://").length = 8 := by decide
  have hsplit : origin host port = ascii "https://" ++ (host.map lower ++ portSuffix port) := by
    rw [origin, List.append_assoc]
  have hshown : shownOrigin (CStr.ofBytes (origin host port)) = (origin host port).drop 8 := by
    rw [shownOrigin, ofBytes_origin hall, if_pos]
    rw [hsplit, List.take_left' hlen]
  rw [originPrompt, hshown, behindHeading_confirm (by decide) ?_]
  intro hzero
  rw [hsplit, List.drop_left' hlen] at hzero
  rcases origin_bytes hall port hzero with hchar | hcolon
  · exact absurd hchar (by decide)
  · exact absurd hcolon (by decide)

/-- Behind the scheme two origins are different if they are. -/
theorem drop_origin_inj {url url' : CStr} {out out' : List UInt8}
    (h : httpsOrigin url = (.ok, out)) (h' : httpsOrigin url' = (.ok, out'))
    (heq : out.drop 8 = out'.drop 8) : out = out' := by
  have hfront : ∀ {u : CStr} {o : List UInt8}, httpsOrigin u = (.ok, o) →
      o.take 8 = ascii "https://" := by
    intro u o ho
    obtain ⟨host, port, -, -, -, -, rfl⟩ := httpsOrigin_ok_iff.mp ho
    rw [origin, List.append_assoc]
    exact List.take_left' (by decide)
  rw [← List.take_append_drop 8 out, ← List.take_append_drop 8 out', hfront h, hfront h', heq]

theorem take_eq_self_iff {text : List UInt8} {n : Nat} : text.take n = text ↔ text.length ≤ n := by
  constructor
  · intro h
    have hlen := congrArg List.length h
    rw [List.length_take] at hlen
    omega
  · exact List.take_of_length_le

/-- A prompt shows all of a path, and all of the host and the port of an origin, exactly when
they have at most 63 characters; and among those no two have the same prompt. -/
theorem prompts_show_iff (mode : OpenMode) (allow : Bool) :
    (∀ path : CStr,
      behindHeading (pathPrompt mode path allow) = path.val ↔ path.strlen ≤ 63) ∧
    (∀ url out, httpsOrigin url = (.ok, out) →
      (behindHeading (originPrompt (CStr.ofBytes out) allow) = out.drop 8 ↔
        (out.drop 8).length ≤ 63)) ∧
    (∀ path path' : CStr, path.strlen ≤ 63 → path'.strlen ≤ 63 →
      pathPrompt mode path allow = pathPrompt mode path' allow → path = path') ∧
    (∀ url url' out out', httpsOrigin url = (.ok, out) → httpsOrigin url' = (.ok, out') →
      (out.drop 8).length ≤ 63 → (out'.drop 8).length ≤ 63 →
      originPrompt (CStr.ofBytes out) allow = originPrompt (CStr.ofBytes out') allow →
        out = out') := by
  refine ⟨fun path => ?_, fun url out hok => ?_, ?_, ?_⟩
  · rw [behindHeading_pathPrompt]
    exact take_eq_self_iff
  · rw [behindHeading_originPrompt hok]
    exact take_eq_self_iff
  · intro path path' hlen hlen' heq
    have hshown := congrArg behindHeading heq
    rw [behindHeading_pathPrompt, behindHeading_pathPrompt, take_eq_self_iff.mpr hlen,
      take_eq_self_iff.mpr hlen'] at hshown
    exact Subtype.ext hshown
  · intro url url' out out' hok hok' hlen hlen' heq
    have hshown := congrArg behindHeading heq
    rw [behindHeading_originPrompt hok, behindHeading_originPrompt hok',
      take_eq_self_iff.mpr hlen, take_eq_self_iff.mpr hlen'] at hshown
    exact drop_origin_inj hok hok' hshown

/-- A path of 69 characters, with one that the caller chooses among the last ones. -/
def picture (letter : UInt8) : CStr :=
  CStr.ofBytes (ascii "/sd/photos/2026/summer-holiday/around-the-lake/evening/pictures/" ++
    letter :: ascii ".jpg")

/-- Two files that an app may name, and of which the user sees the same: the prompt does not
show all of either. -/
theorem prompts_cut :
    fullPathIsValid (some (picture 97)) = true ∧ fullPathIsValid (some (picture 98)) = true ∧
      picture 97 ≠ picture 98 ∧
      pathPrompt .write (picture 97) false = pathPrompt .write (picture 98) false ∧
      ¬ ∀ mode (path : CStr) allow, behindHeading (pathPrompt mode path allow) = path.val := by
  refine ⟨by decide, by decide, by decide, by decide, fun h => ?_⟩
  have hbad : behindHeading (pathPrompt .write (picture 97) false) ≠ (picture 97).val := by
    decide
  exact hbad (h .write (picture 97) false)

end Sdk
end JppDos
