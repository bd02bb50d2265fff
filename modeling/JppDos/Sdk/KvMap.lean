import JppDos.Lib.Machine
import JppDos.Sdk.KvStore

/-!
# The key-value store as a finite map

An app sees its store through the reads.  A set or a deletion is the update of a finite
map as long as no other stored key agrees with its key up to case, and the text of the
store fits the buffer through which it is read back.
-/

namespace JppDos
namespace Sdk

open CText KeyedList Machine

/-- A call of an app. -/
inductive KvCall
  | get (key : CStr) (bufLen : Nat)
  | set (key value : CStr)
  | delete (key : CStr)

section Runs

variable (json : CJson)

/-- One call. -/
def kvStep (s : KvState) : KvCall → KvState × List KvAnswer
  | .get key bufLen => ((kvGet json s key bufLen).1, [(kvGet json s key bufLen).2])
  | .set key value => ((kvSet json s key value).1, [(kvSet json s key value).2])
  | .delete key => ((kvDelete json s key).1, [(kvDelete json s key).2])

/-- The string that a successful read gives back. -/
def KvAnswer.value (answer : KvAnswer) : Option CStr :=
  if answer.status = .ok then answer.out else none

/-- The store as the app sees it: what a read into a full-size buffer gives back. -/
def view (s : KvState) (key : CStr) : Option CStr := (kvGet json s key kvValueMax).2.value

/-- The call acts as on a finite map. -/
def Refines (s : KvState) : KvCall → Prop
  | .get key bufLen =>
      (bufLen ≠ 0 → (kvGet json s key bufLen).2.value =
        (view json s key).map fun v => v.strncpy bufLen) ∧
      ∀ other, view json (kvGet json s key bufLen).1 other = view json s other
  | .set key value =>
      ((kvSet json s key value).2.status = .ok →
        view json (kvSet json s key value).1 key = some value) ∧
      ∀ other, other ≠ key → view json (kvSet json s key value).1 other = view json s other
  | .delete key =>
      ((kvDelete json s key).2.status = .ok →
        view json (kvDelete json s key).1 key = none) ∧
      ∀ other, other ≠ key → view json (kvDelete json s key).1 other = view json s other

/-- The length of an object's text. -/
def printedLength (object : KvObject) : Nat :=
  ((json.printUnformatted object).map CStr.strlen).getD 0

/-- An accepted edit meets no other key that agrees with its own up to case, and an
accepted set leaves a text that fits the buffer. -/
def Undisturbed (s : KvState) : KvCall → Prop
  | .get _ _ => True
  | .set key value => AdmitsSet s key value →
      Alone CStr.fold (stored json s) key ∧
        printedLength json (put CStr.fold (stored json s) key (some value)) < kvBufSize
  | .delete key => AdmitsDelete s key → Alone CStr.fold (stored json s) key

instance (s : KvState) : DecidablePred (Undisturbed json s)
  | .get _ _ => inferInstanceAs (Decidable True)
  | .set _ _ => inferInstanceAs (Decidable (_ → _ ∧ _))
  | .delete _ => inferInstanceAs (Decidable (_ → _))

/-- A member that a set can have stored. -/
def Storable (item : KvItem) : Prop :=
  ValidKey item.1 ∧ ∃ v, item.2 = some v ∧ v.strlen < kvValueMax

/-- An object that such calls can have stored. -/
structure WellFormed (object : KvObject) : Prop where
  distinct : Distinct CStr.fold object
  storable : ∀ item ∈ object, Storable item

/-- A store that such calls can have left. -/
structure Kept (s : KvState) : Prop where
  idle : Idle s.locks
  text : s.file = none ∨ ∃ object text, WellFormed object ∧
    json.printUnformatted object = some text ∧ s.file = some text.val

variable {json}

theorem WellFormed.allStrings {object : KvObject} (h : WellFormed object) :
    AllStrings object := by
  intro item hitem
  obtain ⟨-, v, hv, -⟩ := h.storable item hitem
  rw [hv]
  rfl

theorem WellFormed.nil : WellFormed [] := ⟨List.Pairwise.nil, by simp⟩

theorem WellFormed.remove {object : KvObject} (h : WellFormed object) (key : CStr) :
    WellFormed (remove CStr.fold object key) :=
  ⟨h.distinct.remove key, fun item hitem => h.storable item (List.mem_of_mem_eraseP hitem)⟩

theorem WellFormed.put {object : KvObject} (h : WellFormed object) {key value : CStr}
    (hkey : ValidKey key) (hvalue : value.strlen < kvValueMax) :
    WellFormed (put CStr.fold object key (some value)) := by
  refine ⟨h.distinct.put key _, fun item hitem => ?_⟩
  rcases List.mem_append.mp hitem with hitem | hitem
  · exact (h.remove key).storable item hitem
  · rw [List.mem_singleton.mp hitem]
    exact ⟨hkey, value, rfl, hvalue⟩

theorem WellFormed.lookup_cases {object : KvObject} (h : WellFormed object) (key : CStr) :
    lookup object key = none ∨
      ValidKey key ∧ ∃ v, lookup object key = some (some v) ∧ v.strlen < kvValueMax := by
  cases hfind : object.find? fun e => e.1 = key with
  | none => exact Or.inl (by rw [lookup, hfind]; rfl)
  | some item =>
      obtain ⟨hvalid, v, hv, hshort⟩ := h.storable item (List.mem_of_find?_eq_some hfind)
      have hkey : item.1 = key := by simpa using List.find?_some hfind
      exact Or.inr ⟨hkey ▸ hvalid, v, by rw [lookup, hfind, ← hv]; rfl, hshort⟩

theorem WellFormed.lookup_eq_map {object : KvObject} (h : WellFormed object) (key : CStr) :
    lookup object key = (lookup object key).join.map some := by
  rcases h.lookup_cases key with hnone | ⟨-, v, hv, -⟩
  · rw [hnone]
    rfl
  · rw [hv]
    rfl

theorem WellFormed.join_eq_iff {object : KvObject} (h : WellFormed object) (key : CStr)
    (value : Option CStr) :
    (lookup object key).join = value ↔ lookup object key = value.map some := by
  constructor
  · rintro rfl
    exact h.lookup_eq_map key
  · intro hvalue
    rw [hvalue]
    cases value <;> rfl

/-- A text that fits the buffer is read as a whole, a longer one is cut short. -/
theorem kvBuf_val (text : CStr) : kvBuf text.val = text.strncpy kvBufSize :=
  CStr.ofBytes_val (text.strncpy kvBufSize)

theorem strlen_remove_le (hjson : json.Documented) {object : KvObject} {key whole text : CStr}
    (hwhole : json.printUnformatted object = some whole)
    (htext : json.printUnformatted (remove CStr.fold object key) = some text) :
    text.strlen ≤ whole.strlen := by
  obtain ⟨memberText, hprint⟩ := hjson.print_eq
  obtain ⟨_, hwhole', hwholeVal⟩ := hprint object
  obtain ⟨_, htext', htextVal⟩ := hprint (remove CStr.fold object key)
  obtain rfl := Option.some.inj (hwhole'.symm.trans hwhole)
  obtain rfl := Option.some.inj (htext'.symm.trans htext)
  rw [CStr.strlen, CStr.strlen, hwholeVal, htextVal]
  exact JsonText.length_braces_le (List.eraseP_sublist.map memberText)

theorem stored_of_text (hjson : json.Documented) {object : KvObject} (h : WellFormed object)
    {text : CStr} (htext : json.printUnformatted object = some text) {s : KvState}
    (hfile : s.file = some text.val) :
    stored json s = if text.strlen < kvBufSize then object else [] := by
  simp only [stored, hfile, kvBuf_val]
  split
  · rename_i hfits
    rw [CStr.strncpy_of_lt hfits, hjson.parse_print object text h.allStrings htext]
    rfl
  · rename_i hlong
    have hcut := hjson.parse_cut object text (kvBufSize - 1) h.allStrings htext
      (Nat.lt_of_lt_of_le (by decide) (Nat.le_of_not_lt hlong))
    rw [show kvBufSize = kvBufSize - 1 + 1 from rfl, hcut]
    rfl

theorem Kept.wellFormed (hjson : json.Documented) {s : KvState} (h : Kept json s) :
    WellFormed (stored json s) := by
  rcases h.text with hnone | ⟨object, text, hobject, htext, hfile⟩
  · simp only [stored, hnone]
    exact WellFormed.nil
  · rw [stored_of_text hjson hobject htext hfile]
    split
    · exact hobject
    · exact WellFormed.nil

/-- The state after an accepted call serves calls again. -/
theorem Serves.served {s : KvState} (h : Serves s) (file : Option (List UInt8)) :
    Serves (Sdk.served s file) := ⟨h.1, lockable_register s.locks "storage"⟩

theorem Kept.served {s : KvState} (h : Kept json s) {object : KvObject}
    (hobject : WellFormed object) {text : CStr}
    (htext : json.printUnformatted object = some text) :
    Kept json (Sdk.served s (some text.val)) :=
  ⟨h.idle.register _, Or.inr ⟨object, text, hobject, htext, rfl⟩⟩

theorem Kept.served_same {s : KvState} (h : Kept json s) : Kept json (Sdk.served s s.file) :=
  ⟨h.idle.register _, h.text⟩

/-- A context that serves calls shows the strings of the stored object. -/
theorem view_of_wellFormed (hjson : json.Documented) {s : KvState} (hidle : Idle s.locks)
    (hw : WellFormed (stored json s)) (hserves : Serves s) (key : CStr) :
    view json s key = (lookup (stored json s) key).join := by
  by_cases hkey : ValidKey key
  · rw [view, kvGet_served hjson hidle hserves hkey (by decide)]
    rcases hw.lookup_cases key with hnone | ⟨-, v, hv, hshort⟩
    · rw [hnone]
      rfl
    · rw [hv]
      exact congrArg some (CStr.strncpy_of_lt hshort)
  · have hrefused : (kvGet json s key kvValueMax).2.status ≠ .ok :=
      (kvGet_refused json hidle fun hc => hkey hc.2.1).2
    rw [view, KvAnswer.value, if_neg hrefused]
    rcases hw.lookup_cases key with hnone | ⟨hvalid, -⟩
    · rw [hnone]
      rfl
    · exact absurd hvalid hkey

theorem view_eq (hjson : json.Documented) {s : KvState} (h : Kept json s)
    (hserves : Serves s) (key : CStr) : view json s key = (lookup (stored json s) key).join :=
  view_of_wellFormed hjson h.idle (h.wellFormed hjson) hserves key

/-- Every call leaves a store that such calls can leave. -/
theorem Kept.step (hjson : json.Documented) {s : KvState} (h : Kept json s) (call : KvCall) :
    Kept json (kvStep json s call).1 := by
  cases call with
  | get key bufLen =>
      by_cases hc : Serves s ∧ ValidKey key ∧ bufLen ≠ 0
      · rw [kvStep, kvGet_served hjson h.idle hc.1 hc.2.1 hc.2.2]
        exact h.served_same
      · rw [kvStep, (kvGet_refused json h.idle hc).1]
        exact h
  | set key value =>
      by_cases hc : AdmitsSet s key value
      · obtain ⟨text, htext, hrun⟩ := kvSet_served hjson h.idle hc
        rw [kvStep, hrun]
        exact h.served ((h.wellFormed hjson).put hc.2.1 hc.2.2) htext
      · rw [kvStep, (kvSet_refused json h.idle hc).1]
        exact h
  | delete key =>
      by_cases hc : AdmitsDelete s key
      · rcases kvDelete_served hjson h.idle hc with ⟨-, hrun⟩ | ⟨_, text, -, -, htext, hrun⟩
        · rw [kvStep, hrun]
          exact h.served_same
        · rw [kvStep, hrun]
          exact h.served ((h.wellFormed hjson).remove key) htext
      · rw [kvStep, (kvDelete_refused json h.idle hc).1]
        exact h

/-- The strings of two objects differ as their members do. -/
theorem WellFormed.update_iff {object object' : KvObject} (h : WellFormed object)
    (h' : WellFormed object') (key : CStr) (value : Option CStr) :
    ((lookup object' key).join = value ∧
        ∀ other, other ≠ key → (lookup object' other).join = (lookup object other).join) ↔
      lookup object' = Function.update (lookup object) key (value.map some) := by
  rw [Function.eq_update_iff]
  refine and_congr (h'.join_eq_iff key value) (forall_congr' fun other =>
    forall_congr' fun _ => ?_)
  rw [h'.join_eq_iff, ← h.lookup_eq_map]

/-- Between two served states the views differ as the stored objects do. -/
theorem view_update_iff (hjson : json.Documented) {s s' : KvState} (h : Kept json s)
    (h' : Kept json s') (hserves : Serves s) (hserves' : Serves s') (key : CStr)
    (value : Option CStr) :
    (view json s' key = value ∧ ∀ other, other ≠ key → view json s' other = view json s other) ↔
      lookup (stored json s') =
        Function.update (lookup (stored json s)) key (value.map some) := by
  simp only [view_eq hjson h hserves, view_eq hjson h' hserves']
  exact (h.wellFormed hjson).update_iff (h'.wellFormed hjson) key value

theorem refines_get (hjson : json.Documented) {s : KvState} (h : Kept json s) (key : CStr)
    (bufLen : Nat) : Refines json s (.get key bufLen) := by
  by_cases hc : Serves s ∧ ValidKey key ∧ bufLen ≠ 0
  · obtain ⟨hserves, hkey, hlen⟩ := hc
    constructor
    · intro _
      rw [view_eq hjson h hserves, kvGet_served hjson h.idle hserves hkey hlen]
      cases (lookup (stored json s) key).join <;> rfl
    · intro other
      rw [kvGet_served hjson h.idle hserves hkey hlen, view_eq hjson h hserves,
        view_eq hjson h.served_same (hserves.served _)]
      rfl
  · obtain ⟨hstate, hstatus⟩ := kvGet_refused json h.idle hc
    refine ⟨fun hlen => ?_, fun other => by rw [hstate]⟩
    have hview : (kvGet json s key kvValueMax).2.status ≠ .ok :=
      (kvGet_refused json h.idle fun hfull => hc ⟨hfull.1, hfull.2.1, hlen⟩).2
    rw [view, KvAnswer.value, if_neg hstatus, KvAnswer.value, if_neg hview]
    rfl

/-- A set acts as on a finite map exactly when it is undisturbed. -/
theorem refines_set_iff (hjson : json.Documented) {s : KvState} (h : Kept json s)
    (key value : CStr) :
    Refines json s (.set key value) ↔ Undisturbed json s (.set key value) := by
  by_cases hc : AdmitsSet s key value
  · obtain ⟨text, htext, hrun⟩ := kvSet_served hjson h.idle hc
    have hput := (h.wellFormed hjson).put hc.2.1 hc.2.2
    have hkept := h.served hput htext
    have hlength : printedLength json (put CStr.fold (stored json s) key (some value)) =
        text.strlen := by rw [printedLength, htext]; rfl
    simp only [Refines, Undisturbed, hrun, hc, true_imp_iff, hlength]
    rw [view_update_iff hjson h hkept hc.1 (hc.1.served _),
      stored_of_text hjson hput htext rfl]
    by_cases hfits : text.strlen < kvBufSize
    · rw [if_pos hfits, Option.map_some,
        lookup_put_eq_update_iff (h.wellFormed hjson).distinct]
      exact ⟨fun halone => ⟨halone, hfits⟩, fun hboth => hboth.1⟩
    · rw [if_neg hfits]
      constructor
      · intro hlost
        have hkey := congrFun hlost key
        rw [Function.update_self] at hkey
        exact absurd hkey (by simp)
      · exact fun hboth => absurd hboth.2 hfits
  · obtain ⟨hstate, hstatus⟩ := kvSet_refused json h.idle hc
    simp only [Refines, Undisturbed, hstate, hstatus, hc, false_imp_iff, true_and, iff_true]
    exact fun _ _ => trivial

/-- A deletion acts as on a finite map exactly when it is undisturbed. -/
theorem refines_delete_iff (hjson : json.Documented) {s : KvState} (h : Kept json s)
    (key : CStr) : Refines json s (.delete key) ↔ Undisturbed json s (.delete key) := by
  by_cases hc : AdmitsDelete s key
  · simp only [Refines, Undisturbed, hc, true_imp_iff]
    have hw := h.wellFormed hjson
    rcases kvDelete_served hjson h.idle hc with
      ⟨hempty, hrun⟩ | ⟨file, text, hfile, hparse, htext, hrun⟩
    · simp only [hrun, true_imp_iff]
      rw [view_update_iff hjson h h.served_same hc.1 (hc.1.served _),
        ← lookup_remove_eq_update_iff hw.distinct]
      have hsame : stored json (Sdk.served s s.file) = [] := hempty
      rw [hsame, hempty]
      exact ⟨fun heq => heq, fun heq => heq⟩
    · have hkept := h.served (hw.remove key) htext
      simp only [hrun, true_imp_iff]
      rw [view_update_iff hjson h hkept hc.1 (hc.1.served _),
        stored_of_text hjson (hw.remove key) htext rfl, if_pos, Option.map_none,
        lookup_remove_eq_update_iff hw.distinct]
      -- The object was read as a whole, and what is left of it has no longer text.
      rcases h.text with hnone | ⟨object, whole, hobject, hwhole, hwholeFile⟩
      · rw [hnone] at hfile
        exact absurd hfile (by simp)
      · obtain rfl : whole.val = file := Option.some.inj (hwholeFile.symm.trans hfile)
        have hstored := stored_of_text hjson hobject hwhole hwholeFile
        rw [kvBuf_val] at hparse
        by_cases hfits : whole.strlen < kvBufSize
        · rw [if_pos hfits] at hstored
          rw [hstored] at htext
          exact Nat.lt_of_le_of_lt (strlen_remove_le hjson hwhole htext) hfits
        · have hcut := hjson.parse_cut object whole (kvBufSize - 1) hobject.allStrings hwhole
            (Nat.lt_of_lt_of_le (by decide) (Nat.le_of_not_lt hfits))
          rw [show kvBufSize - 1 + 1 = kvBufSize from rfl, hparse] at hcut
          exact absurd hcut (by simp)
  · obtain ⟨hstate, hstatus⟩ := kvDelete_refused json h.idle hc
    simp only [Refines, Undisturbed, hstate, hstatus, hc, false_imp_iff, true_and, iff_true]
    exact fun _ _ => trivial

/-- In every run of an app's calls, from any store that earlier calls have left, each call
acts as on a finite map exactly when each is undisturbed. -/
theorem kv_refines_map_iff (hjson : json.Documented) (bound : Bool) {locks : LockSet}
    (hidle : Idle locks) (before calls : List KvCall) :
    Along (kvStep json) (Refines json) (run (kvStep json) ⟨bound, locks, none⟩ before) calls ↔
      Along (kvStep json) (Undisturbed json)
        (run (kvStep json) ⟨bound, locks, none⟩ before) calls := by
  have hstart : Kept json ⟨bound, locks, none⟩ := ⟨hidle, Or.inl rfl⟩
  have hkept := run_invariant (I := Kept json) (fun s call h => h.step hjson call) before hstart
  refine along_congr (I := Kept json) (fun s call h => h.step hjson call)
    (fun s call h => ?_) calls hkept
  cases call with
  | get key bufLen => exact iff_of_true (refines_get hjson h key bufLen) trivial
  | set key value => exact refines_set_iff hjson h key value
  | delete key => exact refines_delete_iff hjson h key

end Runs

/-- The text of a member; a member that is no string is a null. -/
def compactMember (item : KvItem) : List UInt8 :=
  match item.2 with
  | some v => JsonText.memberText (item.1.val, v.val)
  | none => JsonText.stringText item.1.val ++ ascii ":null"

/-- The JSON package on compact texts of objects of strings. -/
def compactJson : CJson where
  parse text := (JsonText.read text.val).map fun members =>
    members.map fun m => (CStr.ofBytes m.1, some (CStr.ofBytes m.2))
  printUnformatted object :=
    some (CStr.ofBytes (JsonText.braces (object.map compactMember)))
  getObjectItemCaseSensitive := lookup
  deleteItemFromObject := remove CStr.fold
  addStringToObject object key value := object ++ [(key, some value)]

theorem zero_notMem_compactMember (item : KvItem) : 0 ∉ compactMember item := by
  have hname := JsonText.zero_notMem_stringText item.1.property
  rw [compactMember]
  split
  · rename_i v _
    have hvalue := JsonText.zero_notMem_stringText v.property
    simp [JsonText.memberText, hname, hvalue]
  · have hnull : 0 ∉ ascii ":null" := by decide
    simp [hname, hnull]

/-- The members as the texts know them. -/
def plainMember (item : KvItem) : JsonText.Member := (item.1.val, (item.2.map (·.val)).getD [])

theorem compactMember_eq {object : KvObject} (h : AllStrings object) :
    object.map compactMember = (object.map plainMember).map JsonText.memberText := by
  rw [List.map_map]
  refine List.map_congr_left fun item hitem => ?_
  obtain ⟨v, hv⟩ := Option.isSome_iff_exists.mp (h item hitem)
  simp [compactMember, plainMember, hv]

theorem plainMember_nulFree (object : KvObject) :
    ∀ m ∈ object.map plainMember, JsonText.Member.NulFree m := by
  intro m hm
  obtain ⟨item, -, rfl⟩ := List.mem_map.mp hm
  refine ⟨item.1.property, ?_⟩
  cases hv : item.2 with
  | none => simp [plainMember, hv]
  | some v => simpa [plainMember, hv] using v.property

theorem compactJson_text {object : KvObject} {text : CStr}
    (h : compactJson.printUnformatted object = some text) :
    text.val = JsonText.braces (object.map compactMember) := by
  obtain rfl := Option.some.inj h
  have hnul : 0 ∉ JsonText.braces (object.map compactMember) := by
    have hmembers : 0 ∉ JsonText.commas (object.map compactMember) :=
      JsonText.zero_notMem_commas fun t ht => by
        obtain ⟨item, -, rfl⟩ := List.mem_map.mp ht
        exact zero_notMem_compactMember item
    simp [JsonText.braces, hmembers]
  exact congrArg Subtype.val (CStr.ofBytes_val ⟨_, hnul⟩)

theorem compactJson_documented : compactJson.Documented where
  get_eq _ _ := rfl
  delete_eq _ _ := rfl
  add_eq _ _ _ := rfl
  print_eq := ⟨compactMember, fun object => ⟨_, rfl, compactJson_text rfl⟩⟩
  parse_print object text hall htext := by
    have hval := compactJson_text htext
    rw [compactMember_eq hall] at hval
    have hread := JsonText.read_objectText (plainMember_nulFree object)
    simp only [compactJson, hval]
    rw [JsonText.objectText] at hread
    rw [hread, Option.map_some, List.map_map]
    refine congrArg some (Eq.trans (List.map_congr_left fun item hitem => ?_) (List.map_id _))
    obtain ⟨v, hv⟩ := Option.isSome_iff_exists.mp (hall item hitem)
    rcases item with ⟨name, value⟩
    obtain rfl : value = some v := hv
    exact Prod.ext (CStr.ofBytes_val name) (congrArg some (CStr.ofBytes_val v))
  parse_cut object text n hall htext hn := by
    have hval := compactJson_text htext
    rw [compactMember_eq hall] at hval
    have hcut := JsonText.read_take_objectText (plainMember_nulFree object) (n := n)
      (by rw [JsonText.objectText, ← hval]; exact hn)
    have htake : (text.strncpy (n + 1)).val = text.val.take n := rfl
    simp only [compactJson, htake, hval]
    rw [JsonText.objectText] at hcut
    rw [hcut]
    rfl

/-- A context with a fresh lock table and no file. -/
def freshKv : KvState := ⟨true, [], none⟩

/-- A short text as a C string. -/
def cstr (s : String) : CStr := CStr.ofBytes (ascii s)

theorem kv_refines_map_iff_twoKeys :
    Idle ([] : LockSet) ∧ compactJson.Documented ∧
      Along (kvStep compactJson) (Refines compactJson) (run (kvStep compactJson) freshKv [])
        [.set (cstr "a") (cstr "1"), .set (cstr "b") (cstr "2"), .get (cstr "a") kvValueMax,
          .delete (cstr "a"), .get (cstr "a") kvValueMax] :=
  ⟨idle_nil, compactJson_documented,
    (kv_refines_map_iff compactJson_documented true idle_nil [] _).mpr (by decide)⟩

/-- A set takes along the pair whose key differs from its own in case only. -/
theorem kv_set_other_case :
    view compactJson (run (kvStep compactJson) freshKv [.set (cstr "a") (cstr "1")])
        (cstr "a") = some (cstr "1") ∧
      (kvSet compactJson (run (kvStep compactJson) freshKv [.set (cstr "a") (cstr "1")])
        (cstr "A") (cstr "2")).2.status = .ok ∧
      view compactJson (run (kvStep compactJson) freshKv
        [.set (cstr "a") (cstr "1"), .set (cstr "A") (cstr "2")]) (cstr "a") = none ∧
      ¬ Along (kvStep compactJson) (Refines compactJson) freshKv
        [.set (cstr "a") (cstr "1"), .set (cstr "A") (cstr "2")] := by
  have hkept : view compactJson
      (run (kvStep compactJson) freshKv [.set (cstr "a") (cstr "1")]) (cstr "a") =
        some (cstr "1") := by decide
  have hlost : view compactJson
      (run (kvStep compactJson) freshKv [.set (cstr "a") (cstr "1"),
        .set (cstr "A") (cstr "2")]) (cstr "a") = none := by decide
  refine ⟨hkept, by decide, hlost, ?_⟩
  rintro ⟨-, ⟨-, hother⟩, -⟩
  have hsame := hother (cstr "a") (by decide)
  exact absurd (hkept.symm.trans (hsame.symm.trans hlost)) (by simp)

end Sdk
end JppDos
