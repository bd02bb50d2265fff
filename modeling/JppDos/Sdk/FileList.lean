import JppDos.Lib.Filling
import JppDos.Sdk.Ipc

/-!
# What a directory listing shows

A listing gives its caller a table of fields `entry_0`, `entry_1`, … and a text with the
names.  The keys and the names in the table are pointers into the frame of the callback
and into the directory's stream, which are both gone when the caller reads them.

Main fact:
* `listing_intact_iff`: when a caller finds what the listing was to show.
-/

namespace JppDos
namespace Sdk

open CText Numerals Filling

/-- The entries of a directory, in the order of its stream; none has an empty name. -/
structure Directory where
  names : List CStr
  named : ∀ name ∈ names, name.val ≠ []

/-- The entries that are not hidden. -/
def Directory.shown (d : Directory) : List CStr := d.names.filter (Shown ·)

/-- The names of the shown entries, as texts. -/
def Directory.lines (d : Directory) : List (List UInt8) := d.shown.map Subtype.val

/-- The result that the caller gets, and the files with the static buffers. -/
def listing (d : Directory) (io : IpcIo) : BrokerResult Ptr × IpcIo :=
  (sdFileListCb (fun _ => some d.names) io).2

/-- The number of entries that the table reports: its last field is the text. -/
def reportedCount (result : BrokerResult Ptr) : Nat := result.fields.length - 1

/-- What the caller reads in a field, while the dead buffers hold the given bytes. -/
def fieldText (d : Directory) (io : IpcIo) (dead : Dead) (key : CStr) : Option CStr :=
  let memory := deref (listing d io).2 dead
  (resultGet memory (listing d io).1 key).map memory

/-- Each reported entry is found under its key. -/
def EntriesShown (d : Directory) (io : IpcIo) (dead : Dead) : Prop :=
  ∀ i < reportedCount (listing d io).1, fieldText d io dead (entryKey i) = d.shown[i]?

/-- The text has the first names whole, and all of them if they fit the buffer. -/
def TextShown (d : Directory) (io : IpcIo) (dead : Dead) : Prop :=
  ∃ text, fieldText d io dead (CStr.ofBytes (ascii "text")) = some text ∧
    (∃ k, text.val = joined 10 (d.lines.take k)) ∧
    ((joined 10 d.lines).length < listTextSize → text.val = joined 10 d.lines)

theorem Directory.lines_ne_nil (d : Directory) : ∀ line ∈ d.lines, line ≠ [] := by
  intro line hline
  obtain ⟨name, hname, rfl⟩ := List.mem_map.mp hline
  exact d.named name (List.mem_of_mem_filter hname)

/-- The text and the count of a listing after one more entry. -/
theorem listEntry_text (l : ListLoop) (name : CStr) :
    (⟨(listEntry l name).text, (listEntry l name).pos⟩ : Fill UInt8) =
      if Shown name then (⟨l.text, l.pos⟩ : Fill UInt8).add 10 listTextSize name.val
      else ⟨l.text, l.pos⟩ := by
  by_cases h : name.val.head? = some 46
  · rw [if_neg (show ¬ Shown name from not_not_intro h), listEntry]
    simp only [h, if_true]
  · rw [if_pos (show Shown name from h), listEntry]
    simp only [h, if_false]
    split <;> rfl

/-- The text of a listing is that of a writer that is given the shown names. -/
theorem listLoop_text (names : List CStr) :
    (listLoop names).text =
      (fill 10 listTextSize ((names.filter (Shown ·)).map Subtype.val)).text := by
  have hfold : ∀ l : ListLoop,
      (⟨(names.foldl listEntry l).text, (names.foldl listEntry l).pos⟩ : Fill UInt8) =
        ((names.filter (Shown ·)).map Subtype.val).foldl (Fill.add 10 listTextSize)
          ⟨l.text, l.pos⟩ := by
    induction names with
    | nil => exact fun l => rfl
    | cons name names ih =>
        intro l
        rw [List.foldl_cons, ih, listEntry_text]
        by_cases h : Shown name
        · simp only [h, if_true, List.filter_cons_of_pos, decide_true, List.map_cons,
            List.foldl_cons]
        · simp [h]
  exact congrArg Fill.text (hfold _)

/-- The listing counts the shown entries, up to the room in the table. -/
theorem listEntry_idx {l : ListLoop} (h : l.Kept) (name : CStr) :
    (listEntry l name).idx =
      if Shown name then min (l.idx + 1) (resultFieldCapacity - 1) else l.idx := by
  have hidx := h.room
  by_cases hhidden : name.val.head? = some 46
  · rw [if_neg (show ¬ Shown name from not_not_intro hhidden), listEntry]
    simp only [hhidden, if_true]
  · rw [if_pos (show Shown name from hhidden), listEntry]
    simp only [hhidden, if_false]
    split
    · have hfree : ¬ resultFieldCapacity ≤ l.result.fields.length := by
        rw [h.fields, List.length_replicate]
        exact Nat.not_le_of_lt h.room
      simp only [resultPut, hfree, if_false, if_true]
      omega
    · dsimp only
      omega

theorem listLoop_idx (names : List CStr) :
    (listLoop names).idx = min (names.filter (Shown ·)).length (resultFieldCapacity - 1) := by
  have hfold : ∀ l : ListLoop, l.Kept → (names.foldl listEntry l).idx =
      min (l.idx + (names.filter (Shown ·)).length) (resultFieldCapacity - 1) := by
    induction names with
    | nil =>
        intro l h
        have := h.room
        simp only [List.foldl_nil, List.filter_nil, List.length_nil]
        omega
    | cons name names ih =>
        intro l h
        rw [List.foldl_cons, ih _ (h.listEntry name), listEntry_idx h]
        by_cases hshown : Shown name
        · simp only [hshown, if_true, List.filter_cons_of_pos, decide_true, List.length_cons]
          omega
        · simp [hshown]
  rw [listLoop, hfold _ ⟨rfl, rfl, by decide⟩, Nat.zero_add]

theorem sdFileListCb_shown (d : Directory) (io : IpcIo) :
    (listing d io).1.fields =
        List.replicate (min d.shown.length (resultFieldCapacity - 1))
          (Ptr.listKey, Ptr.entryName) ++ [(.literal "text", .listText)] ∧
      (listing d io).2.listText = (fill 10 listTextSize d.lines).text := by
  have h := listLoop_kept d.names
  have hfree : ¬ resultFieldCapacity ≤ (listLoop d.names).result.fields.length := by
    rw [h.fields, List.length_replicate]
    exact Nat.not_le_of_lt h.room
  refine ⟨?_, listLoop_text d.names⟩
  simp only [listing, sdFileListCb, resultPut, hfree, if_false]
  rw [h.fields, listLoop_idx]
  rfl

theorem reportedCount_listing (d : Directory) (io : IpcIo) :
    reportedCount (listing d io).1 = min d.shown.length (resultFieldCapacity - 1) := by
  rw [reportedCount, (sdFileListCb_shown d io).1]
  simp

/-- A key leads to the last entry, to the text or nowhere. -/
theorem fieldText_eq (d : Directory) (io : IpcIo) (dead : Dead) (key : CStr) :
    fieldText d io dead key =
      if d.shown ≠ [] ∧ dead.key = key then some dead.name
      else if CStr.ofBytes (ascii "text") = key then
        some (CStr.ofBytes (fill 10 listTextSize d.lines).text)
      else none := by
  obtain ⟨hfields, htext⟩ := sdFileListCb_shown d io
  simp only [fieldText, resultGet, hfields, List.find?_append]
  by_cases hnone : d.shown = []
  · by_cases hkey : CStr.ofBytes (ascii "text") = key
    · simp [hnone, hkey, deref, htext]
    · simp [hnone, hkey, deref]
  · obtain ⟨n, hn⟩ : ∃ n, min d.shown.length (resultFieldCapacity - 1) = n + 1 := by
      have := List.length_pos_iff.mpr hnone
      exact ⟨_, (Nat.succ_pred_eq_of_pos (by simp [resultFieldCapacity, this])).symm⟩
    by_cases hdead : dead.key = key
    · simp [hn, hnone, hdead, deref, List.replicate_succ]
    · by_cases hkey : CStr.ofBytes (ascii "text") = key
      · simp [hn, hdead, hkey, deref, htext]
      · simp [hn, hdead, hkey, deref]

theorem entryKey_val (i : Nat) : (entryKey i).val = ascii "entry_" ++ showBase 10 i := by
  have hzero : (0 : UInt8) ∉ ascii "entry_" ++ showBase 10 i := by
    rw [List.mem_append]
    rintro (h | h)
    · exact absurd h (by decide)
    · exact showBase_not_mem (by decide) (by decide) i (by decide) h
  exact congrArg Subtype.val (CStr.ofBytes_val ⟨_, hzero⟩)

theorem entryKey_injective : Function.Injective entryKey := by
  intro i j h
  have hval := congrArg Subtype.val h
  rw [entryKey_val, entryKey_val, List.append_cancel_left_eq] at hval
  have hread := congrArg (readBase 10) hval
  rw [readBase_showBase (by decide) (by decide), readBase_showBase (by decide) (by decide)]
    at hread
  exact Option.some.inj hread

theorem text_ne_key (i : Nat) : CStr.ofBytes (ascii "text") ≠ entryKey i := by
  intro h
  have hval := congrArg (List.head? ∘ Subtype.val) h
  simp only [Function.comp, entryKey_val] at hval
  have hhead : (some 116 : Option UInt8) = some 101 := hval
  exact absurd hhead (by decide)

theorem fieldText_entry (d : Directory) (io : IpcIo) (dead : Dead) (i : Nat) :
    fieldText d io dead (entryKey i) =
      if d.shown ≠ [] ∧ dead.key = entryKey i then some dead.name else none := by
  rw [fieldText_eq, if_neg (text_ne_key i)]

theorem ofBytes_fill (d : Directory) :
    (CStr.ofBytes (fill 10 listTextSize d.lines).text).val =
      (fill 10 listTextSize d.lines).text := by
  have hzero : (0 : UInt8) ∉ (fill 10 listTextSize d.lines).text := by
    intro h
    rcases mem_fill h with hsep | ⟨line, hline, hmem⟩
    · exact absurd hsep (by decide)
    · obtain ⟨name, _, rfl⟩ := List.mem_map.mp hline
      exact name.property hmem
  exact congrArg Subtype.val (CStr.ofBytes_val ⟨_, hzero⟩)

/-- The names fit the buffer, or the first ones fill it to its last character. -/
def TextFits (d : Directory) : Prop :=
  (joined 10 d.lines).length < listTextSize ∨
    ∃ k, (joined 10 (d.lines.take k)).length + 1 = listTextSize

/-- The text field has whole names, the first ones, if and only if the names fit. -/
theorem text_whole_iff (d : Directory) (io : IpcIo) {dead : Dead}
    (h : d.shown = [] ∨ dead.key ≠ CStr.ofBytes (ascii "text")) :
    TextShown d io dead ↔ TextFits d := by
  have hread : fieldText d io dead (CStr.ofBytes (ascii "text")) =
      some (CStr.ofBytes (fill 10 listTextSize d.lines).text) := by
    have hentry : ¬ (d.shown ≠ [] ∧ dead.key = CStr.ofBytes (ascii "text")) := by
      rintro ⟨hshown, hkey⟩
      exact h.elim hshown (· hkey)
    rw [fieldText_eq, if_neg hentry, if_pos rfl]
  rw [TextFits, ← whole_lines_iff (by decide) d.lines_ne_nil]
  constructor
  · rintro ⟨text, htext, hwhole, _⟩
    rw [hread] at htext
    rwa [← Option.some.inj htext, ofBytes_fill] at hwhole
  · intro hwhole
    refine ⟨_, hread, by rwa [ofBytes_fill], fun hall => ?_⟩
    rw [ofBytes_fill]
    exact fill_of_fits (by decide) d.lines_ne_nil hall

/-- The listing shows no entry, or one entry whose name fits the text, and the dead
buffers still hold its key and its name. -/
def ListingIntact (d : Directory) (dead : Dead) : Prop :=
  d.shown = [] ∨
    ∃ name, d.shown = [name] ∧ dead = ⟨entryKey 0, name⟩ ∧ name.strlen < listTextSize

/-- The entries of a listing share their key and their name, so that at most one of them
can be found. -/
theorem entriesShown_iff (d : Directory) (io : IpcIo) (dead : Dead) :
    EntriesShown d io dead ↔
      d.shown = [] ∨ ∃ name, d.shown = [name] ∧ dead = ⟨entryKey 0, name⟩ := by
  rw [EntriesShown, reportedCount_listing]
  constructor
  · intro h
    cases hshown : d.shown with
    | nil => exact Or.inl rfl
    | cons name rest =>
        right
        rw [hshown] at h
        have hfirst := h 0 (by simp [resultFieldCapacity])
        rw [fieldText_entry] at hfirst
        by_cases hkey : dead.key = entryKey 0
        · rw [if_pos ⟨by simp [hshown], hkey⟩] at hfirst
          have hname : dead.name = name := Option.some.inj hfirst
          cases rest with
          | nil => exact ⟨name, rfl, by rw [← hkey, ← hname]⟩
          | cons second rest =>
              have hsecond := h 1 (by simp [resultFieldCapacity])
              have hother : dead.key ≠ entryKey 1 := fun heq =>
                absurd (entryKey_injective (hkey.symm.trans heq)) (by decide)
              rw [fieldText_entry, if_neg (fun hfound => hother hfound.2)] at hsecond
              cases hsecond
        · rw [if_neg (fun hfound => hkey hfound.2)] at hfirst
          cases hfirst
  · rintro (hshown | ⟨name, hshown, rfl⟩) i hi
    · simp [hshown] at hi
    · have hzero : i = 0 := by
        rw [hshown, List.length_singleton] at hi
        omega
      subst hzero
      rw [fieldText_entry, if_pos ⟨by simp [hshown], rfl⟩, hshown]
      rfl

/-- A caller finds each reported entry under its key, and whole names in the text, if and
only if the listing shows no entry, or one whose key and name the dead buffers still hold
and whose name fits the text. -/
theorem listing_intact_iff (d : Directory) (io : IpcIo) (dead : Dead) :
    (EntriesShown d io dead ∧ TextShown d io dead) ↔ ListingIntact d dead := by
  rw [entriesShown_iff, ListingIntact]
  constructor
  · rintro ⟨hnone | ⟨name, hshown, hdead⟩, htext⟩
    · exact Or.inl hnone
    · refine Or.inr ⟨name, hshown, hdead, ?_⟩
      rw [text_whole_iff d io (Or.inr (by rw [hdead]; exact (text_ne_key 0).symm))] at htext
      rw [TextFits, Directory.lines, hshown] at htext
      rcases htext with hall | ⟨k, hk⟩
      · simpa [CStr.strlen] using hall
      · cases k with
        | zero => simp [listTextSize] at hk
        | succ k =>
            simp only [List.map_cons, List.map_nil, List.take_succ_cons, List.take_nil,
              joined_singleton] at hk
            exact Nat.lt_of_succ_le (Nat.le_of_eq hk)
  · rintro (hnone | ⟨name, hshown, hdead, hlen⟩)
    · refine ⟨Or.inl hnone, (text_whole_iff d io (Or.inl hnone)).mpr (Or.inl ?_)⟩
      simp [Directory.lines, hnone, listTextSize]
    · refine ⟨Or.inr ⟨name, hshown, hdead⟩, ?_⟩
      rw [text_whole_iff d io (Or.inr (by rw [hdead]; exact (text_ne_key 0).symm))]
      refine Or.inl ?_
      rw [Directory.lines, hshown]
      simpa [CStr.strlen] using hlen

/-- In a directory with the files `a` and `b` the caller does not find both of them,
whatever the dead buffers hold. -/
theorem not_listing_intact :
    ¬ ∀ (d : Directory) (io : IpcIo) (dead : Dead),
      EntriesShown d io dead ∧ TextShown d io dead := by
  intro h
  have hab := (h ⟨[CStr.ofBytes (ascii "a"), CStr.ofBytes (ascii "b")], by decide⟩
    ⟨[], [], [], []⟩ ⟨entryKey 0, CStr.ofBytes (ascii "b")⟩).1
  have hsecond := hab 1 (by decide)
  exact absurd hsecond (by decide)

end Sdk
end JppDos
