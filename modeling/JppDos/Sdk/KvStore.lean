import JppDos.Lib.CText
import JppDos.Lib.JsonText
import JppDos.Lib.KeyedList
import JppDos.Sdk.Broker

/-!
# The key-value store of an app

An app's pairs are kept as one JSON object in a file of its own.  Every call reads the
file through a fixed buffer, parses it, and writes the whole object back when it has
changed it.
-/

namespace JppDos
namespace Sdk

open CText KeyedList

/-- A member of an object: its name, and its string when it holds one. -/
abbrev KvItem := CStr × Option CStr

/-- The members of an object in their order. -/
abbrev KvObject := List KvItem

/-- The functions of the JSON package. -/
structure CJson where
  /-- `cJSON_Parse`. -/
  parse : CStr → Option KvObject
  /-- `cJSON_PrintUnformatted`. -/
  printUnformatted : KvObject → Option CStr
  /-- `cJSON_GetObjectItemCaseSensitive`; the inner option is `cJSON_IsString`. -/
  getObjectItemCaseSensitive : KvObject → CStr → Option (Option CStr)
  /-- `cJSON_DeleteItemFromObject`. -/
  deleteItemFromObject : KvObject → CStr → KvObject
  /-- `cJSON_AddStringToObject`. -/
  addStringToObject : KvObject → CStr → CStr → KvObject

/-- All members are strings. -/
def AllStrings (object : KvObject) : Prop := ∀ item ∈ object, item.2.isSome

/-- What the package documents. -/
structure CJson.Documented (json : CJson) : Prop where
  /-- A lookup finds the first member with exactly the name. -/
  get_eq : ∀ object key, json.getObjectItemCaseSensitive object key = lookup object key
  /-- A deletion takes out the first member whose name agrees up to case. -/
  delete_eq : ∀ object key,
    json.deleteItemFromObject object key = remove CStr.fold object key
  /-- A new member is the last one. -/
  add_eq : ∀ object key value,
    json.addStringToObject object key value = object ++ [(key, some value)]
  /-- Printing succeeds, with the members between braces and commas. -/
  print_eq : ∃ memberText : KvItem → List UInt8, ∀ object, ∃ text,
    json.printUnformatted object = some text ∧
      text.val = JsonText.braces (object.map memberText)
  /-- What was printed is parsed back. -/
  parse_print : ∀ object text, AllStrings object →
    json.printUnformatted object = some text → json.parse text = some object
  /-- A text cut short is not a JSON text. -/
  parse_cut : ∀ object text n, AllStrings object →
    json.printUnformatted object = some text → n < text.strlen →
      json.parse (text.strncpy (n + 1)) = none

/-- `JPP_SDK_KV_KEY_MAX`. -/
def kvKeyMax : Nat := 64

/-- `JPP_SDK_KV_VALUE_MAX`. -/
def kvValueMax : Nat := 256

/-- The size of the buffers through which the file is read. -/
def kvBufSize : Nat := 2048

/-- What the services work on: the file, and the caller's buffer once it was written. -/
structure KvIo where
  file : Option (List UInt8)
  out : Option CStr
  deriving DecidableEq

/-- The text in the buffer after `fread` and the terminating zero. -/
def kvBuf (file : List UInt8) : CStr := CStr.ofBytes (file.take (kvBufSize - 1))

section Services

variable (json : CJson)

/-- `sd_kv_read_cb`. -/
def sdKvReadCb (key : CStr) (bufLen : Nat) (io : KvIo) :
    BrokerStatus × BrokerResult String × KvIo :=
  match io.file with
  | none => (.ok, errorResult "KEY_NOT_FOUND", io)
  | some file =>
      match json.parse (kvBuf file) with
      | none => (.ok, errorResult "KV_CORRUPT", io)
      | some root =>
          match json.getObjectItemCaseSensitive root key with
          | some (some valuestring) =>
              (.ok, okResult, { io with out := some (valuestring.strncpy bufLen) })
          | _ => (.ok, errorResult "KEY_NOT_FOUND", io)

/-- `sd_kv_write_cb`. -/
def sdKvWriteCb (key value : CStr) (io : KvIo) :
    BrokerStatus × BrokerResult String × KvIo :=
  let parsed :=
    match io.file with
    | none => none
    | some file => json.parse (kvBuf file)
  let root := parsed.getD []
  let root := json.addStringToObject (json.deleteItemFromObject root key) key value
  match json.printUnformatted root with
  | none => (.ok, errorResult "KV_SERIALIZE_FAILED", io)
  | some serialized => (.ok, okResult, { io with file := some serialized.val })

/-- `sd_kv_delete_cb`. -/
def sdKvDeleteCb (key : CStr) (io : KvIo) : BrokerStatus × BrokerResult String × KvIo :=
  match io.file with
  | none => (.ok, okResult, io)
  | some file =>
      match json.parse (kvBuf file) with
      | none => (.ok, okResult, io)
      | some root =>
          match json.printUnformatted (json.deleteItemFromObject root key) with
          | none => (.ok, okResult, io)
          | some serialized => (.ok, okResult, { io with file := some serialized.val })

/-- An app's context as far as these calls read it, with its file. -/
structure KvState where
  bound : Bool
  locks : LockSet
  file : Option (List UInt8)
  deriving DecidableEq

/-- What a call gives back: its status, and the buffer if it was written. -/
structure KvAnswer where
  status : SdkStatus
  out : Option CStr
  deriving DecidableEq

/-- `jpp_sdk_kv_get`. -/
def kvGet (s : KvState) (key : CStr) (bufLen : Nat) : KvState × KvAnswer :=
  if !s.bound then (s, ⟨.invalidState, none⟩)
  else if key.strlen = 0 ∨ bufLen = 0 then (s, ⟨.invalidArgument, none⟩)
  else if kvKeyMax ≤ key.strlen then (s, ⟨.invalidArgument, none⟩)
  else
    let (bs, result, locks, io) :=
      runExclusive id "storage" (sdKvReadCb json key bufLen) s.locks ⟨s.file, none⟩
    let s' := { s with locks := locks, file := io.file }
    if bs ≠ .ok then (s', ⟨.brokerError, io.out⟩)
    else if result.any fun r => r.ok then (s', ⟨.ok, io.out⟩)
    else (s', ⟨.brokerError, some (CStr.ofBytes [])⟩)

/-- `jpp_sdk_kv_set`. -/
def kvSet (s : KvState) (key value : CStr) : KvState × KvAnswer :=
  if !s.bound then (s, ⟨.invalidState, none⟩)
  else if key.strlen = 0 then (s, ⟨.invalidArgument, none⟩)
  else if kvKeyMax ≤ key.strlen ∨ kvValueMax ≤ value.strlen then
    (s, ⟨.invalidArgument, none⟩)
  else
    let (bs, _, locks, io) :=
      runExclusive id "storage" (sdKvWriteCb json key value) s.locks ⟨s.file, none⟩
    ({ s with locks := locks, file := io.file },
      ⟨if bs = .ok then .ok else .brokerError, none⟩)

/-- `jpp_sdk_kv_delete`. -/
def kvDelete (s : KvState) (key : CStr) : KvState × KvAnswer :=
  if !s.bound then (s, ⟨.invalidState, none⟩)
  else if key.strlen = 0 then (s, ⟨.invalidArgument, none⟩)
  else
    let (bs, _, locks, io) :=
      runExclusive id "storage" (sdKvDeleteCb json key) s.locks ⟨s.file, none⟩
    ({ s with locks := locks, file := io.file },
      ⟨if bs = .ok then .ok else .brokerError, none⟩)

/-- What a reader of the file gets: the object, or nothing if there is none to parse. -/
def stored (s : KvState) : KvObject :=
  match s.file with
  | none => []
  | some file => (json.parse (kvBuf file)).getD []

/-- The context serves calls: it is bound, and the lock can be taken. -/
def Serves (s : KvState) : Prop := s.bound = true ∧ Lockable s.locks "storage"

instance (s : KvState) : Decidable (Serves s) := inferInstanceAs (Decidable (_ ∧ _))

/-- The key passes the check of the calls that read or set it. -/
def ValidKey (key : CStr) : Prop := key.strlen ≠ 0 ∧ key.strlen < kvKeyMax

instance (key : CStr) : Decidable (ValidKey key) := inferInstanceAs (Decidable (_ ∧ _))

/-- The state after a call that took the lock. -/
def served (s : KvState) (file : Option (List UInt8)) : KvState :=
  { s with locks := register s.locks "storage", file := file }

variable {json}

/-- The service finds the string in the stored object, or reports an error. -/
theorem sdKvReadCb_cases (hjson : json.Documented) (s : KvState) (key : CStr)
    (bufLen : Nat) :
    (∃ v, (lookup (stored json s) key).join = some v ∧
        sdKvReadCb json key bufLen ⟨s.file, none⟩ =
          (.ok, okResult, ⟨s.file, some (v.strncpy bufLen)⟩)) ∨
      ((lookup (stored json s) key).join = none ∧
        ∃ code, sdKvReadCb json key bufLen ⟨s.file, none⟩ =
          (.ok, errorResult code, ⟨s.file, none⟩)) := by
  simp only [stored, sdKvReadCb, hjson.get_eq]
  cases s.file with
  | none => exact Or.inr ⟨rfl, _, rfl⟩
  | some file =>
      cases hparse : json.parse (kvBuf file) with
      | none =>
          refine Or.inr ⟨by simp [hparse], "KV_CORRUPT", ?_⟩
          simp only [hparse]
      | some root =>
          rcases hroot : lookup root key with _ | _ | v
          · refine Or.inr ⟨by simp [hparse, hroot], "KEY_NOT_FOUND", ?_⟩
            simp only [hparse, hroot]
          · refine Or.inr ⟨by simp [hparse, hroot], "KEY_NOT_FOUND", ?_⟩
            simp only [hparse, hroot]
          · refine Or.inl ⟨v, by simp [hparse, hroot], ?_⟩
            simp only [hparse, hroot]

/-- A read that is served, from the object as it is stored. -/
theorem kvGet_served (hjson : json.Documented) {s : KvState} (hidle : Idle s.locks)
    (hserves : Serves s) {key : CStr} (hkey : ValidKey key) {bufLen : Nat}
    (hlen : bufLen ≠ 0) :
    kvGet json s key bufLen =
      (served s s.file,
        match (lookup (stored json s) key).join with
        | some v => ⟨.ok, some (v.strncpy bufLen)⟩
        | none => ⟨.brokerError, some (CStr.ofBytes [])⟩) := by
  obtain ⟨hbound, hlock⟩ := hserves
  obtain ⟨hne, hlt⟩ := hkey
  have hmax : ¬ kvKeyMax ≤ key.strlen := Nat.not_le_of_lt hlt
  have harg : ¬ (key.strlen = 0 ∨ bufLen = 0) := not_or.mpr ⟨hne, hlen⟩
  rcases sdKvReadCb_cases hjson s key bufLen with ⟨v, hv, hrun⟩ | ⟨hv, code, hrun⟩
  · simp [kvGet, hbound, harg, hmax, runExclusive_idle hidle, hlock, hrun, hv, served,
      okResult]
  · simp [kvGet, hbound, harg, hmax, runExclusive_idle hidle, hlock, hrun, hv, served,
      errorResult]

/-- A read that is not served leaves everything as it is. -/
theorem kvGet_refused (json : CJson) {s : KvState} (hidle : Idle s.locks) {key : CStr}
    {bufLen : Nat}
    (h : ¬ (Serves s ∧ ValidKey key ∧ bufLen ≠ 0)) :
    (kvGet json s key bufLen).1 = s ∧ (kvGet json s key bufLen).2.status ≠ .ok := by
  unfold kvGet
  split
  · exact ⟨rfl, SdkStatus.noConfusion⟩
  · rename_i hbound
    split
    · exact ⟨rfl, SdkStatus.noConfusion⟩
    · rename_i harg
      split
      · exact ⟨rfl, SdkStatus.noConfusion⟩
      · rename_i hmax
        rw [not_or] at harg
        have hfull : ¬ Lockable s.locks "storage" := fun hlock =>
          h ⟨⟨by simpa using hbound, hlock⟩, ⟨harg.1, Nat.lt_of_not_le hmax⟩, harg.2⟩
        rw [runExclusive_idle hidle, if_neg hfull]
        exact ⟨rfl, SdkStatus.noConfusion⟩

/-- The conditions under which a set is accepted. -/
def AdmitsSet (s : KvState) (key value : CStr) : Prop :=
  Serves s ∧ ValidKey key ∧ value.strlen < kvValueMax

/-- The conditions under which a deletion is accepted. -/
def AdmitsDelete (s : KvState) (key : CStr) : Prop := Serves s ∧ key.strlen ≠ 0

instance (s : KvState) (key value : CStr) : Decidable (AdmitsSet s key value) :=
  inferInstanceAs (Decidable (_ ∧ _ ∧ _))

instance (s : KvState) (key : CStr) : Decidable (AdmitsDelete s key) :=
  inferInstanceAs (Decidable (_ ∧ _))

/-- A set that is accepted writes the stored object with the pair put in. -/
theorem kvSet_served (hjson : json.Documented) {s : KvState} (hidle : Idle s.locks)
    {key value : CStr} (h : AdmitsSet s key value) :
    ∃ text, json.printUnformatted (put CStr.fold (stored json s) key (some value)) =
        some text ∧
      kvSet json s key value = (served s (some text.val), ⟨.ok, none⟩) := by
  obtain ⟨⟨hbound, hlock⟩, ⟨hne, hlt⟩, hvalue⟩ := h
  have hmax : ¬ (kvKeyMax ≤ key.strlen ∨ kvValueMax ≤ value.strlen) := by omega
  obtain ⟨memberText, hprint⟩ := hjson.print_eq
  obtain ⟨text, htext, -⟩ := hprint (put CStr.fold (stored json s) key (some value))
  refine ⟨text, htext, ?_⟩
  have hroot :
      json.addStringToObject
        (json.deleteItemFromObject
          ((match s.file with
            | none => none
            | some file => json.parse (kvBuf file)).getD []) key) key value =
        put CStr.fold (stored json s) key (some value) := by
    rw [hjson.add_eq, hjson.delete_eq, put, stored]
    cases s.file <;> rfl
  simp [kvSet, hbound, hne, hmax, runExclusive_idle hidle, hlock, sdKvWriteCb, hroot, htext,
    served]

/-- A set that is not accepted leaves everything as it is. -/
theorem kvSet_refused (json : CJson) {s : KvState} (hidle : Idle s.locks) {key value : CStr}
    (h : ¬ AdmitsSet s key value) :
    (kvSet json s key value).1 = s ∧ (kvSet json s key value).2.status ≠ .ok := by
  unfold kvSet
  split
  · exact ⟨rfl, SdkStatus.noConfusion⟩
  · rename_i hbound
    split
    · exact ⟨rfl, SdkStatus.noConfusion⟩
    · rename_i hne
      split
      · exact ⟨rfl, SdkStatus.noConfusion⟩
      · rename_i hmax
        rw [not_or] at hmax
        have hfull : ¬ Lockable s.locks "storage" := fun hlock =>
          h ⟨⟨by simpa using hbound, hlock⟩, ⟨hne, Nat.lt_of_not_le hmax.1⟩,
            Nat.lt_of_not_le hmax.2⟩
        rw [runExclusive_idle hidle, if_neg hfull]
        exact ⟨rfl, SdkStatus.noConfusion⟩

/-- A deletion that is accepted writes the stored object without the pair, unless there is
no object to read. -/
theorem kvDelete_served (hjson : json.Documented) {s : KvState} (hidle : Idle s.locks)
    {key : CStr} (h : AdmitsDelete s key) :
    (stored json s = [] ∧ kvDelete json s key = (served s s.file, ⟨.ok, none⟩)) ∨
      ∃ file text, s.file = some file ∧ json.parse (kvBuf file) = some (stored json s) ∧
        json.printUnformatted (remove CStr.fold (stored json s) key) = some text ∧
        kvDelete json s key = (served s (some text.val), ⟨.ok, none⟩) := by
  obtain ⟨⟨hbound, hlock⟩, hne⟩ := h
  have hrun : kvDelete json s key =
      (served s (sdKvDeleteCb json key ⟨s.file, none⟩).2.2.file,
        ⟨if (sdKvDeleteCb json key ⟨s.file, none⟩).1 = .ok then .ok else .brokerError,
          none⟩) := by
    simp [kvDelete, hbound, hne, runExclusive_idle hidle, hlock, served]
  rw [hrun]
  cases hfile : s.file with
  | none => exact Or.inl ⟨by simp [stored, hfile], rfl⟩
  | some file =>
      cases hparse : json.parse (kvBuf file) with
      | none => exact Or.inl ⟨by simp [stored, hfile, hparse], by simp [sdKvDeleteCb, hparse]⟩
      | some root =>
          have hstored : stored json s = root := by simp [stored, hfile, hparse]
          obtain ⟨memberText, hprint⟩ := hjson.print_eq
          obtain ⟨text, htext, -⟩ := hprint (remove CStr.fold root key)
          refine Or.inr ⟨file, text, rfl, by rw [hstored, hparse], by rw [hstored, htext], ?_⟩
          simp [sdKvDeleteCb, hparse, hjson.delete_eq, htext]

/-- A deletion that is not accepted leaves everything as it is. -/
theorem kvDelete_refused (json : CJson) {s : KvState} (hidle : Idle s.locks) {key : CStr}
    (h : ¬ AdmitsDelete s key) :
    (kvDelete json s key).1 = s ∧ (kvDelete json s key).2.status ≠ .ok := by
  unfold kvDelete
  split
  · exact ⟨rfl, SdkStatus.noConfusion⟩
  · rename_i hbound
    split
    · exact ⟨rfl, SdkStatus.noConfusion⟩
    · rename_i hne
      have hfull : ¬ Lockable s.locks "storage" := fun hlock =>
        h ⟨⟨by simpa using hbound, hlock⟩, hne⟩
      rw [runExclusive_idle hidle, if_neg hfull]
      exact ⟨rfl, SdkStatus.noConfusion⟩

end Services

end Sdk
end JppDos
