import JppDos.Sdk.KvMap

/-!
# The key-value store under failures

A set or a deletion writes the new text to a temporary file, removes the store file and
renames the temporary file.  Any of these operations can fail, the text can come up short on
the card, and the power can be lost between any two of them.

Main fact:
* `kv_atomic_iff`: when an update is atomic and honestly reported.
-/

namespace JppDos
namespace Sdk

open CText KeyedList

/-- The store file `.kv.json` and its temporary file. -/
structure KvCard where
  file : Option (List UInt8)
  tmp : Option (List UInt8)
  deriving DecidableEq

/-- What goes wrong during an update. -/
structure KvFaults where
  /-- `fopen(path, "r")` fails. -/
  openRead : Bool
  /-- `fopen(tmp_path, "w")` fails. -/
  openTmp : Bool
  /-- The number of bytes of the text that reach the card, if it is not all of them. -/
  written : Option Nat
  /-- `remove` fails. -/
  remove : Bool
  /-- `rename` fails. -/
  rename : Bool
  /-- The number of operations on the card after which the power is lost. -/
  power : Option Nat
  deriving DecidableEq

/-- Nothing goes wrong. -/
def KvFaults.none : KvFaults := ⟨false, false, .none, false, false, .none⟩

/-- The operations that change the card. -/
inductive KvOp
  | create
  | write (text : List UInt8)
  | remove
  | rename

/-- An operation; FAT does not rename onto a file that exists. -/
def kvOp (f : KvFaults) (card : KvCard) : KvOp → KvCard
  | .create => { card with tmp := some [] }
  | .write text =>
      { card with tmp := some (match f.written with | none => text | some n => text.take n) }
  | .remove => if f.remove then card else { card with file := none }
  | .rename => if f.rename || card.file.isSome then card else { file := card.tmp, tmp := none }

/-- The operations behind `cJSON_PrintUnformatted`. -/
def kvReplace (f : KvFaults) (text : List UInt8) : List KvOp :=
  if f.openTmp then [] else [.create, .write text, .remove, .rename]

/-- The card after these operations, or after as many of them as the power lasts for. -/
def kvReplaced (f : KvFaults) (card : KvCard) (text : List UInt8) : KvCard :=
  (match f.power with
    | none => kvReplace f text
    | some k => (kvReplace f text).take k).foldl (kvOp f) card

/-- Between two readings of a store all other keys keep their values, the key has its old or its
new value, and it has the new one if success is reported. -/
structure AtomicChange (before after : CStr → Option CStr) (key : CStr) (value : Option CStr)
    (reported : Prop) : Prop where
  others : ∀ other, other ≠ key → after other = before other
  own : after key = before key ∨ after key = value
  honest : reported → after key = value

section Change

variable {before after : CStr → Option CStr} {key : CStr} {value : Option CStr} {reported : Prop}

theorem atomicChange_same_iff :
    AtomicChange before before key value reported ↔ (reported → before key = value) :=
  ⟨fun h => h.honest, fun h => ⟨fun _ _ => rfl, Or.inl rfl, h⟩⟩

theorem atomicChange_none_iff :
    AtomicChange before (fun _ => none) key value reported ↔
      (∀ other, other ≠ key → before other = none) ∧ (before key = none ∨ value = none) ∧
        (reported → value = none) := by
  constructor
  · rintro ⟨hothers, hown, hhonest⟩
    exact ⟨fun other hne => (hothers other hne).symm, hown.imp Eq.symm Eq.symm,
      fun h => (hhonest h).symm⟩
  · rintro ⟨hothers, hown, hhonest⟩
    exact ⟨fun other hne => (hothers other hne).symm, hown.imp Eq.symm Eq.symm,
      fun h => (hhonest h).symm⟩

theorem atomicChange_new_iff (hnew : after key = value) :
    AtomicChange before after key value reported ↔
      after key = value ∧ ∀ other, other ≠ key → after other = before other :=
  ⟨fun h => ⟨hnew, h.others⟩, fun h => ⟨h.2, Or.inr hnew, fun _ => hnew⟩⟩

end Change

section Faults

variable (json : CJson)

/-- `sd_kv_write_cb`. -/
def sdKvWriteFaulty (f : KvFaults) (key value : CStr) (card : KvCard) :
    BrokerStatus × BrokerResult String × KvCard :=
  let parsed :=
    match if f.openRead then none else card.file with
    | none => none
    | some file => json.parse (kvBuf file)
  let root := parsed.getD []
  let root := json.addStringToObject (json.deleteItemFromObject root key) key value
  match json.printUnformatted root with
  | none => (.ok, errorResult "KV_SERIALIZE_FAILED", card)
  | some serialized => (.ok, okResult, kvReplaced f card serialized.val)

/-- `sd_kv_delete_cb`. -/
def sdKvDeleteFaulty (f : KvFaults) (key : CStr) (card : KvCard) :
    BrokerStatus × BrokerResult String × KvCard :=
  match if f.openRead then none else card.file with
  | none => (.ok, okResult, card)
  | some file =>
      match json.parse (kvBuf file) with
      | none => (.ok, okResult, card)
      | some root =>
          match json.printUnformatted (json.deleteItemFromObject root key) with
          | none => (.ok, okResult, card)
          | some serialized => (.ok, okResult, kvReplaced f card serialized.val)

/-- A call that changes the store. -/
inductive KvUpdate
  | set (key value : CStr)
  | delete (key : CStr)

/-- The key of an update. -/
def KvUpdate.key : KvUpdate → CStr
  | .set key _ => key
  | .delete key => key

/-- What the key has after the update. -/
def KvUpdate.value : KvUpdate → Option CStr
  | .set _ value => some value
  | .delete _ => none

/-- The status of a call that returns. -/
def returned (f : KvFaults) (status : SdkStatus) : Option SdkStatus :=
  if f.power.isSome then none else some status

/-- `jpp_sdk_kv_set` and `jpp_sdk_kv_delete`, with the card they leave and the status if the
call returns. -/
def kvUpdate (f : KvFaults) (bound : Bool) (locks : LockSet) (card : KvCard) :
    KvUpdate → KvCard × Option SdkStatus
  | .set key value =>
      if !bound then (card, returned f .invalidState)
      else if key.strlen = 0 then (card, returned f .invalidArgument)
      else if kvKeyMax ≤ key.strlen ∨ kvValueMax ≤ value.strlen then
        (card, returned f .invalidArgument)
      else
        let (bs, _, _, card) :=
          runExclusive id "storage" (sdKvWriteFaulty json f key value) locks card
        (card, returned f (if bs = .ok then .ok else .brokerError))
  | .delete key =>
      if !bound then (card, returned f .invalidState)
      else if key.strlen = 0 then (card, returned f .invalidArgument)
      else
        let (bs, _, _, card) :=
          runExclusive id "storage" (sdKvDeleteFaulty json f key) locks card
        (card, returned f (if bs = .ok then .ok else .brokerError))

/-- What `jpp_sdk_kv_get` with a full-size buffer gives back for a store file. -/
def readBack (file : Option (List UInt8)) (key : CStr) : Option CStr :=
  view json ⟨true, [], file⟩ key

/-- The object that a reader of the file gets. -/
def storedIn (file : Option (List UInt8)) : KvObject := stored json ⟨true, [], file⟩

/-- The update is atomic and honestly reported. -/
def AtomicUpdate (f : KvFaults) (bound : Bool) (locks : LockSet) (card : KvCard)
    (u : KvUpdate) : Prop :=
  AtomicChange (readBack json card.file)
    (readBack json (kvUpdate json f bound locks card u).1.file) u.key u.value
    ((kvUpdate json f bound locks card u).2 = some .ok)

/-- What becomes of the store file. -/
inductive Fate
  | kept
  | lost
  | done
  deriving DecidableEq

/-- The fate of the file when a text of some length is to replace it. -/
def fate (f : KvFaults) (hasFile : Bool) (length : Nat) : Fate :=
  if f.openTmp ∨ f.power.getD 4 < 3 ∨ (hasFile ∧ f.remove) then .kept
  else if f.power.getD 4 < 4 ∨ f.rename then (if hasFile then .lost else .kept)
  else if (∃ n ∈ f.written, n < length) ∨ kvBufSize ≤ length then .lost
  else .done

/-- The object that a set works on. -/
def baseOf (f : KvFaults) (file : Option (List UInt8)) : KvObject :=
  if f.openRead then [] else storedIn json file

/-- The fate of the file under an update that is served. -/
def updateFate (f : KvFaults) (file : Option (List UInt8)) : KvUpdate → Fate
  | .set key value =>
      fate f file.isSome
        (printedLength json (put CStr.fold (baseOf json f file) key (some value)))
  | .delete key =>
      if f.openRead ∨ (file.bind fun bytes => json.parse (kvBuf bytes)) = none then .kept
      else fate f true (printedLength json (remove CStr.fold (storedIn json file) key))

/-- The update is served. -/
def Admits (bound : Bool) (locks : LockSet) : KvUpdate → Prop
  | .set key value => AdmitsSet ⟨bound, locks, none⟩ key value
  | .delete key => AdmitsDelete ⟨bound, locks, none⟩ key

/-- A file that is kept must hold the new value if the call reports success; one that is lost
must have held no other key, and an old value only if the key is deleted; a text that is in
place must come from the whole object, without another key that agrees up to case. -/
def SafeUpdate (f : KvFaults) (file : Option (List UInt8)) (u : KvUpdate) : Prop :=
  match updateFate json f file u with
  | .kept => f.power = none → readBack json file u.key = u.value
  | .lost =>
      (∀ other, other ≠ u.key → readBack json file other = none) ∧
        (readBack json file u.key = none ∨ u.value = none) ∧ (f.power = none → u.value = none)
  | .done =>
      if f.openRead then ∀ other, other ≠ u.key → readBack json file other = none
      else Alone CStr.fold (storedIn json file) u.key

variable {json}

/-- The file behind the removal. -/
def behindRemove (f : KvFaults) (card : KvCard) : Option (List UInt8) :=
  if f.remove then card.file else none

theorem kvReplaced_file_eq (f : KvFaults) (card : KvCard) (text : List UInt8) :
    (kvReplaced f card text).file =
      if f.openTmp ∨ f.power.getD 4 < 3 then card.file
      else if f.power.getD 4 < 4 ∨ f.rename ∨ (behindRemove f card).isSome then behindRemove f card
      else some (text.take (f.written.getD text.length)) := by
  have hsteps : kvReplaced f card text =
      ((kvReplace f text).take (f.power.getD 4)).foldl (kvOp f) card := by
    rw [kvReplaced]
    cases f.power with
    | some k => rfl
    | none =>
        rw [Option.getD_none, List.take_of_length_le]
        rw [kvReplace]
        split
        · exact Nat.zero_le _
        · exact Nat.le_refl 4
  have hwritten : (match f.written with | none => text | some n => text.take n) =
      text.take (f.written.getD text.length) := by
    cases f.written with
    | none => exact (List.take_length).symm
    | some n => rfl
  have hremove : (kvOp f ((kvOp f ((kvOp f card .create)) (.write text))) .remove) =
      ⟨behindRemove f card, some (text.take (f.written.getD text.length))⟩ := by
    simp only [kvOp, hwritten, behindRemove]
    split <;> rfl
  rw [hsteps, kvReplace]
  by_cases hopen : f.openTmp
  · simp [hopen]
  · rw [if_neg hopen]
    generalize f.power.getD 4 = steps
    match steps with
    | 0 | 1 | 2 => simp [kvOp]
    | 3 =>
        rw [if_neg (by simp [hopen]), if_pos (Or.inl (by decide))]
        change (kvOp f _ .remove).file = _
        rw [hremove]
    | k + 4 =>
        rw [if_neg (by simp [hopen])]
        rw [List.take_of_length_le (Nat.le_add_left 4 k)]
        change (kvOp f (kvOp f _ .remove) .rename).file = _
        rw [hremove, kvOp]
        by_cases hstays : f.rename = true ∨ (behindRemove f card).isSome
        · rw [if_pos (by simpa using hstays), if_pos (Or.inr hstays)]
        · rw [if_neg (by simpa using hstays), if_neg]
          exact not_or.mpr ⟨Nat.not_lt.mpr (Nat.le_add_left 4 k), hstays⟩

/-- The file after the operations on the card, by its fate. -/
theorem kvReplaced_cases (f : KvFaults) (card : KvCard) (text : List UInt8) :
    (fate f card.file.isSome text.length = .kept ∧ (kvReplaced f card text).file = card.file) ∨
      (fate f card.file.isSome text.length = .lost ∧
        ((kvReplaced f card text).file = none ∨
          ∃ n, (n < text.length ∨ kvBufSize ≤ text.length) ∧
            (kvReplaced f card text).file = some (text.take n))) ∨
      fate f card.file.isSome text.length = .done ∧
        (kvReplaced f card text).file = some text ∧ text.length < kvBufSize := by
  rw [kvReplaced_file_eq]
  by_cases hearly : f.openTmp ∨ f.power.getD 4 < 3
  · refine Or.inl ⟨?_, if_pos hearly⟩
    rw [fate, if_pos (hearly.imp_right Or.inl)]
  · rw [if_neg hearly]
    obtain ⟨hopen, hsteps⟩ := not_or.mp hearly
    by_cases hstays : card.file.isSome ∧ f.remove
    · have hbehind : behindRemove f card = card.file := if_pos hstays.2
      refine Or.inl ⟨?_, ?_⟩
      · rw [fate, if_pos (Or.inr (Or.inr hstays))]
      · rw [hbehind, if_pos (Or.inr (Or.inr hstays.1))]
    · have hbehind : behindRemove f card = none := by
        rw [behindRemove]
        split
        · rename_i hremove
          simpa using fun h => hstays ⟨h, hremove⟩
        · rfl
      have hkept : ¬ (f.openTmp = true ∨ f.power.getD 4 < 3 ∨ (card.file.isSome ∧ f.remove)) :=
        not_or.mpr ⟨hopen, not_or.mpr ⟨hsteps, hstays⟩⟩
      rw [hbehind]
      by_cases hlate : f.power.getD 4 < 4 ∨ f.rename = true
      · have hgone : f.power.getD 4 < 4 ∨ f.rename = true ∨ (none : Option (List UInt8)).isSome :=
          hlate.imp_right Or.inl
        rw [fate, if_neg hkept, if_pos hlate, if_pos hgone]
        cases card.file with
        | none => exact Or.inl ⟨rfl, rfl⟩
        | some file => exact Or.inr (Or.inl ⟨rfl, Or.inl rfl⟩)
      · have hplaced :
            ¬ (f.power.getD 4 < 4 ∨ f.rename = true ∨ (none : Option (List UInt8)).isSome) := by
          simpa using hlate
        rw [fate, if_neg hkept, if_neg hlate, if_neg hplaced]
        by_cases hshort : (∃ n ∈ f.written, n < text.length) ∨ kvBufSize ≤ text.length
        · refine Or.inr (Or.inl ⟨if_pos hshort, Or.inr ⟨_, ?_, rfl⟩⟩)
          rcases hshort with ⟨n, hn, hlt⟩ | hlong
          · exact Or.inl (by rwa [Option.mem_def.mp hn])
          · exact Or.inr hlong
        · obtain ⟨hwritten, hlong⟩ := not_or.mp hshort
          refine Or.inr (Or.inr ⟨if_neg hshort, congrArg some (List.take_of_length_le ?_),
            Nat.lt_of_not_le hlong⟩)
          cases hcount : f.written with
          | none => exact Nat.le_refl _
          | some n => exact Nat.le_of_not_lt fun hlt => hwritten ⟨n, hcount, hlt⟩

/-- A store file that updates can leave: none, or the text of an object or the front of it. -/
def Left (json : CJson) (file : Option (List UInt8)) : Prop :=
  file = none ∨ ∃ object text n, WellFormed object ∧ json.printUnformatted object = some text ∧
    file = some (text.val.take n)

theorem storedIn_take (hjson : json.Documented) {object : KvObject} (h : WellFormed object)
    {text : CStr} (htext : json.printUnformatted object = some text) (n : Nat) :
    storedIn json (some (text.val.take n)) =
      if text.strlen ≤ n ∧ text.strlen < kvBufSize then object else [] := by
  have hbuf : kvBuf (text.val.take n) = text.strncpy (min (kvBufSize - 1) n + 1) := by
    rw [kvBuf, List.take_take]
    exact CStr.ofBytes_val (text.strncpy (min (kvBufSize - 1) n + 1))
  have hsize : kvBufSize = 2048 := rfl
  simp only [storedIn, stored, hbuf]
  split
  · rename_i hwhole
    rw [CStr.strncpy_of_lt (by omega), hjson.parse_print object text h.allStrings htext]
    rfl
  · rename_i hcut
    rw [hjson.parse_cut object text _ h.allStrings htext (by omega)]
    rfl

theorem storedIn_none : storedIn json none = [] := rfl

theorem Left.wellFormed (hjson : json.Documented) {file : Option (List UInt8)}
    (h : Left json file) : WellFormed (storedIn json file) := by
  rcases h with rfl | ⟨object, text, n, hobject, htext, rfl⟩
  · exact WellFormed.nil
  · rw [storedIn_take hjson hobject htext]
    split
    · exact hobject
    · exact WellFormed.nil

theorem readBack_eq (hjson : json.Documented) {file : Option (List UInt8)}
    (h : WellFormed (storedIn json file)) (key : CStr) :
    readBack json file key = (lookup (storedIn json file) key).join :=
  view_of_wellFormed hjson idle_nil h ⟨rfl, Or.inr (show 0 < lockCapacity by decide)⟩ key

theorem returned_eq_some_iff {f : KvFaults} {status status' : SdkStatus} :
    returned f status = some status' ↔ f.power = none ∧ status = status' := by
  rw [returned]
  cases f.power <;> simp

section Calls

variable (f : KvFaults) {bound : Bool} {locks : LockSet} (card : KvCard)

/-- A set that is served replaces the file by the text of the object with the pair put in. -/
theorem kvUpdate_set (hjson : json.Documented) (hidle : Idle locks) {key value : CStr}
    (h : Admits bound locks (.set key value)) :
    ∃ text, json.printUnformatted
        (put CStr.fold (baseOf json f card.file) key (some value)) = some text ∧
      kvUpdate json f bound locks card (.set key value) =
        (kvReplaced f card text.val, returned f .ok) := by
  obtain ⟨⟨hbound, hlock⟩, ⟨hne, hlt⟩, hvalue⟩ := h
  obtain rfl : bound = true := hbound
  have hmax : ¬ (kvKeyMax ≤ key.strlen ∨ kvValueMax ≤ value.strlen) := by omega
  obtain ⟨memberText, hprint⟩ := hjson.print_eq
  obtain ⟨text, htext, -⟩ := hprint (put CStr.fold (baseOf json f card.file) key (some value))
  refine ⟨text, htext, ?_⟩
  have hroot :
      json.addStringToObject
        (json.deleteItemFromObject
          ((match if f.openRead then none else card.file with
            | none => none
            | some file => json.parse (kvBuf file)).getD []) key) key value =
        put CStr.fold (baseOf json f card.file) key (some value) := by
    rw [hjson.add_eq, hjson.delete_eq, put, baseOf]
    by_cases hopen : f.openRead = true
    · rw [if_pos hopen, if_pos hopen]
      rfl
    · rw [if_neg hopen, if_neg hopen]
      cases card.file <;> rfl
  simp [kvUpdate, hne, hmax, runExclusive_idle hidle, hlock, sdKvWriteFaulty, hroot, htext]

/-- A deletion that is served replaces the file by the text of the object without the pair, if
there is an object to read. -/
theorem kvUpdate_delete (hjson : json.Documented) (hidle : Idle locks) {key : CStr}
    (h : Admits bound locks (.delete key)) :
    ((f.openRead ∨ (card.file.bind fun bytes => json.parse (kvBuf bytes)) = none) ∧
        kvUpdate json f bound locks card (.delete key) = (card, returned f .ok)) ∨
      ¬ (f.openRead ∨ (card.file.bind fun bytes => json.parse (kvBuf bytes)) = none) ∧
        card.file.isSome ∧
        ∃ text, json.printUnformatted (remove CStr.fold (storedIn json card.file) key) =
            some text ∧
          kvUpdate json f bound locks card (.delete key) =
            (kvReplaced f card text.val, returned f .ok) := by
  obtain ⟨⟨hbound, hlock⟩, hne⟩ := h
  obtain rfl : bound = true := hbound
  have hrun : kvUpdate json f true locks card (.delete key) =
      ((sdKvDeleteFaulty json f key card).2.2,
        returned f (if (sdKvDeleteFaulty json f key card).1 = .ok then .ok else .brokerError)) := by
    simp [kvUpdate, hne, runExclusive_idle hidle, hlock]
  rw [hrun, sdKvDeleteFaulty]
  by_cases hopen : f.openRead
  · exact Or.inl ⟨Or.inl hopen, by simp [hopen]⟩
  · cases hfile : card.file with
    | none => exact Or.inl ⟨Or.inr rfl, by simp [hopen]⟩
    | some file =>
        cases hparse : json.parse (kvBuf file) with
        | none => exact Or.inl ⟨Or.inr hparse, by simp [hopen, hparse]⟩
        | some root =>
            have hstored : storedIn json (some file) = root := by
              simp [storedIn, stored, hparse]
            obtain ⟨memberText, hprint⟩ := hjson.print_eq
            obtain ⟨text, htext, -⟩ := hprint (remove CStr.fold root key)
            refine Or.inr ⟨by simp [hopen, hparse], rfl, text, by rw [hstored, htext], ?_⟩
            simp [hopen, hparse, hjson.delete_eq, htext]

/-- An update that is not served changes nothing and reports no success. -/
theorem kvUpdate_refused (json : CJson) (hidle : Idle locks) {u : KvUpdate} (h : ¬ Admits bound locks u) :
    ∃ status, status ≠ .ok ∧
      kvUpdate json f bound locks card u = (card, returned f status) := by
  cases u with
  | set key value =>
      rw [kvUpdate]
      split
      · exact ⟨_, SdkStatus.noConfusion, rfl⟩
      · rename_i hbound
        split
        · exact ⟨_, SdkStatus.noConfusion, rfl⟩
        · rename_i hne
          split
          · exact ⟨_, SdkStatus.noConfusion, rfl⟩
          · rename_i hmax
            have hfull : ¬ Lockable locks "storage" := fun hlock =>
              h ⟨⟨by simpa using hbound, hlock⟩, ⟨hne, by omega⟩, by omega⟩
            rw [runExclusive_idle hidle, if_neg hfull]
            exact ⟨_, SdkStatus.noConfusion, rfl⟩
  | delete key =>
      rw [kvUpdate]
      split
      · exact ⟨_, SdkStatus.noConfusion, rfl⟩
      · rename_i hbound
        split
        · exact ⟨_, SdkStatus.noConfusion, rfl⟩
        · rename_i hne
          have hfull : ¬ Lockable locks "storage" := fun hlock =>
            h ⟨⟨by simpa using hbound, hlock⟩, hne⟩
          rw [runExclusive_idle hidle, if_neg hfull]
          exact ⟨_, SdkStatus.noConfusion, rfl⟩

theorem storedIn_lost (hjson : json.Documented) {object : KvObject} (h : WellFormed object)
    {text : CStr} (htext : json.printUnformatted object = some text)
    {file : Option (List UInt8)}
    (hfile : file = none ∨ ∃ n, (n < text.val.length ∨ kvBufSize ≤ text.val.length) ∧
      file = some (text.val.take n)) : storedIn json file = [] := by
  rcases hfile with rfl | ⟨n, hn, rfl⟩
  · exact storedIn_none
  · rw [storedIn_take hjson h htext, if_neg]
    rw [CStr.strlen]
    omega

/-- A text that is in place is read back as its object. -/
theorem storedIn_done (hjson : json.Documented) {object : KvObject} (h : WellFormed object)
    {text : CStr} (htext : json.printUnformatted object = some text)
    (hlt : text.val.length < kvBufSize) : storedIn json (some text.val) = object := by
  have hwhole := storedIn_take hjson h htext text.val.length
  rw [List.take_length, if_pos ⟨Nat.le_refl _, hlt⟩] at hwhole
  exact hwhole

theorem readBack_of_storedIn (hjson : json.Documented) {file : Option (List UInt8)}
    {object : KvObject} (h : WellFormed object) (hstored : storedIn json file = object) :
    readBack json file = fun key => (lookup object key).join := by
  funext key
  rw [readBack_eq hjson (by rwa [hstored]), hstored]

theorem readBack_of_storedIn_nil (hjson : json.Documented) {file : Option (List UInt8)}
    (hstored : storedIn json file = []) : readBack json file = fun _ => none := by
  rw [readBack_of_storedIn hjson WellFormed.nil hstored]
  rfl

theorem Left.baseOf {file : Option (List UInt8)} (hjson : json.Documented) (h : Left json file) :
    WellFormed (Sdk.baseOf json f file) := by
  rw [Sdk.baseOf]
  split
  · exact WellFormed.nil
  · exact h.wellFormed hjson

theorem atomic_set_iff (hjson : json.Documented) (hidle : Idle locks)
    (hleft : Left json card.file) {key value : CStr} (h : Admits bound locks (.set key value)) :
    AtomicUpdate json f bound locks card (.set key value) ↔
      SafeUpdate json f card.file (.set key value) := by
  obtain ⟨text, htext, hrun⟩ := kvUpdate_set f card hjson hidle h
  have hw := hleft.wellFormed hjson
  have hput := (hleft.baseOf f hjson).put h.2.1 h.2.2
  have hlength : printedLength json (put CStr.fold (baseOf json f card.file) key (some value)) =
      text.val.length := by
    rw [printedLength, htext]
    rfl
  rw [AtomicUpdate, hrun, SafeUpdate, updateFate, hlength, returned_eq_some_iff,
    and_iff_left rfl]
  dsimp only [KvUpdate.key, KvUpdate.value]
  rcases kvReplaced_cases f card text.val with ⟨hfate, hfile⟩ | ⟨hfate, hfile⟩ | ⟨hfate, hfile, hlt⟩
  · rw [hfate, hfile]
    exact atomicChange_same_iff
  · rw [hfate, readBack_of_storedIn_nil hjson (storedIn_lost hjson hput htext hfile)]
    exact atomicChange_none_iff
  · rw [hfate, hfile, readBack_of_storedIn hjson hput (storedIn_done hjson hput htext hlt)]
    have hbase := (hleft.baseOf f hjson).distinct
    have hnew : (lookup (put CStr.fold (baseOf json f card.file) key (some value)) key).join =
        some value := by rw [lookup_put hbase, if_pos rfl]; rfl
    rw [atomicChange_new_iff hnew]
    by_cases hopen : f.openRead = true
    · have hempty : baseOf json f card.file = [] := if_pos hopen
      rw [if_pos hopen, and_iff_right hnew]
      refine forall_congr' fun other => forall_congr' fun hne => ?_
      rw [hempty, lookup_put List.Pairwise.nil, if_neg hne, lookup_nil, ite_self]
      exact eq_comm
    · have hsame : baseOf json f card.file = storedIn json card.file := if_neg hopen
      rw [if_neg hopen, hsame, readBack_of_storedIn hjson hw rfl,
        hw.update_iff (hsame ▸ hput) key (some value)]
      exact lookup_put_eq_update_iff hw.distinct key (some value)

theorem atomic_delete_iff (hjson : json.Documented) (hidle : Idle locks)
    (hleft : Left json card.file) {key : CStr} (h : Admits bound locks (.delete key)) :
    AtomicUpdate json f bound locks card (.delete key) ↔
      SafeUpdate json f card.file (.delete key) := by
  have hw := hleft.wellFormed hjson
  rcases kvUpdate_delete f card hjson hidle h with
    ⟨hnothing, hrun⟩ | ⟨hsomething, hfileSome, text, htext, hrun⟩
  · rw [AtomicUpdate, hrun, SafeUpdate, updateFate, if_pos hnothing, returned_eq_some_iff,
      and_iff_left rfl]
    exact atomicChange_same_iff
  · have hremove := hw.remove key
    have hlength : printedLength json (remove CStr.fold (storedIn json card.file) key) =
        text.val.length := by
      rw [printedLength, htext]
      rfl
    rw [AtomicUpdate, hrun, SafeUpdate, updateFate, if_neg hsomething, hlength,
      returned_eq_some_iff, and_iff_left rfl]
    dsimp only [KvUpdate.key, KvUpdate.value]
    have hcases := kvReplaced_cases f card text.val
    rw [hfileSome] at hcases
    rcases hcases with
      ⟨hfate, hfile⟩ | ⟨hfate, hfile⟩ | ⟨hfate, hfile, hlt⟩
    · rw [hfate, hfile]
      exact atomicChange_same_iff
    · rw [hfate, readBack_of_storedIn_nil hjson (storedIn_lost hjson hremove htext hfile)]
      exact atomicChange_none_iff
    · rw [hfate, hfile, readBack_of_storedIn hjson hremove (storedIn_done hjson hremove htext hlt)]
      have hnew : (lookup (remove CStr.fold (storedIn json card.file) key) key).join = none := by
        rw [lookup_remove hw.distinct, if_pos rfl]
        rfl
      have hopen : ¬ f.openRead = true := fun hopen => hsomething (Or.inl hopen)
      rw [atomicChange_new_iff hnew, readBack_of_storedIn hjson hw rfl,
        hw.update_iff hremove key none]
      dsimp only
      rw [if_neg hopen]
      exact lookup_remove_eq_update_iff hw.distinct key

theorem Left.update (hjson : json.Documented) (hidle : Idle locks) (hleft : Left json card.file)
    (u : KvUpdate) : Left json (kvUpdate json f bound locks card u).1.file := by
  have hreplaced : ∀ {object : KvObject} {text : CStr}, WellFormed object →
      json.printUnformatted object = some text → Left json (kvReplaced f card text.val).file := by
    intro object text hobject htext
    rcases kvReplaced_cases f card text.val with ⟨-, hfile⟩ | ⟨-, hfile⟩ | ⟨-, hfile, -⟩
    · rwa [hfile]
    · rcases hfile with hfile | ⟨n, -, hfile⟩
      · exact Or.inl hfile
      · exact Or.inr ⟨object, text, n, hobject, htext, hfile⟩
    · refine Or.inr ⟨object, text, text.val.length, hobject, htext, ?_⟩
      rw [hfile, List.take_length]
  by_cases h : Admits bound locks u
  · cases u with
    | set key value =>
        obtain ⟨text, htext, hrun⟩ := kvUpdate_set f card hjson hidle h
        rw [hrun]
        exact hreplaced ((hleft.baseOf f hjson).put h.2.1 h.2.2) htext
    | delete key =>
        rcases kvUpdate_delete f card hjson hidle h with
          ⟨-, hrun⟩ | ⟨-, -, text, htext, hrun⟩
        · rwa [hrun]
        · rw [hrun]
          exact hreplaced ((hleft.wellFormed hjson).remove key) htext
  · obtain ⟨status, -, hrun⟩ := kvUpdate_refused f card json hidle h
    rwa [hrun]

/-- An update, with what goes wrong during it and the context it is called in. -/
structure KvStep where
  faults : KvFaults
  bound : Bool
  locks : LockSet
  update : KvUpdate

/-- The card after updates in a row. -/
def kvCards (json : CJson) (steps : List KvStep) (card : KvCard) : KvCard :=
  steps.foldl (fun card s => (kvUpdate json s.faults s.bound s.locks card s.update).1) card

theorem Left.updates (hjson : json.Documented) (steps : List KvStep)
    (hsteps : ∀ s ∈ steps, Idle s.locks) (hleft : Left json card.file) :
    Left json (kvCards json steps card).file := by
  induction steps generalizing card with
  | nil => exact hleft
  | cons s steps ih =>
      obtain ⟨hs, hsteps⟩ := List.forall_mem_cons.mp hsteps
      exact ih _ hsteps (hleft.update s.faults card hjson hs s.update)

/-- From every store file that updates have left, whatever fails and whenever the power is lost,
an update is atomic and honestly reported exactly if it is refused or safe. -/
theorem kv_atomic_iff (hjson : json.Documented) (before : List KvStep)
    (hbefore : ∀ s ∈ before, Idle s.locks) (bound : Bool) (hidle : Idle locks)
    (u : KvUpdate) :
    AtomicUpdate json f bound locks (kvCards json before ⟨none, none⟩) u ↔
      (Admits bound locks u →
        SafeUpdate json f (kvCards json before ⟨none, none⟩).file u) := by
  have hleft : Left json (kvCards json before ⟨none, none⟩).file :=
    Left.updates _ hjson before hbefore (Or.inl rfl)
  by_cases h : Admits bound locks u
  · rw [forall_prop_of_true h]
    cases u with
    | set key value => exact atomic_set_iff f _ hjson hidle hleft h
    | delete key => exact atomic_delete_iff f _ hjson hidle hleft h
  · obtain ⟨status, hstatus, hrun⟩ := kvUpdate_refused f
      (kvCards json before ⟨none, none⟩) json hidle h
    refine iff_of_true ?_ fun hadmits => absurd hadmits h
    rw [AtomicUpdate, hrun]
    exact atomicChange_same_iff.mpr fun hok =>
      absurd (returned_eq_some_iff.mp hok).2 hstatus

theorem sdKvWriteFaulty_none (json : CJson) (key value : CStr) (file tmp : Option (List UInt8)) :
    (sdKvWriteFaulty json .none key value ⟨file, tmp⟩).1 =
        (sdKvWriteCb json key value ⟨file, none⟩).1 ∧
      (sdKvWriteFaulty json .none key value ⟨file, tmp⟩).2.2.file =
        (sdKvWriteCb json key value ⟨file, none⟩).2.2.file := by
  rw [sdKvWriteFaulty, sdKvWriteCb, if_neg (by decide)]
  dsimp only
  generalize json.printUnformatted _ = printed
  cases printed <;> exact ⟨rfl, rfl⟩

theorem sdKvDeleteFaulty_none (json : CJson) (key : CStr) (file tmp : Option (List UInt8)) :
    (sdKvDeleteFaulty json .none key ⟨file, tmp⟩).1 =
        (sdKvDeleteCb json key ⟨file, none⟩).1 ∧
      (sdKvDeleteFaulty json .none key ⟨file, tmp⟩).2.2.file =
        (sdKvDeleteCb json key ⟨file, none⟩).2.2.file := by
  rw [sdKvDeleteFaulty, sdKvDeleteCb, if_neg (by decide)]
  cases file with
  | none => exact ⟨rfl, rfl⟩
  | some file =>
      dsimp only
      cases json.parse (kvBuf file) with
      | none => exact ⟨rfl, rfl⟩
      | some root =>
          dsimp only
          generalize json.printUnformatted _ = printed
          cases printed <;> exact ⟨rfl, rfl⟩

/-- Without a failure a set is that of the plain model. -/
theorem kvUpdate_set_noFaults (s : KvState) (hidle : Idle s.locks) (tmp : Option (List UInt8))
    (key value : CStr) :
    (kvUpdate json .none s.bound s.locks ⟨s.file, tmp⟩ (.set key value)).1.file =
        (kvSet json s key value).1.file ∧
      (kvUpdate json .none s.bound s.locks ⟨s.file, tmp⟩ (.set key value)).2 =
        some (kvSet json s key value).2.status := by
  obtain ⟨hstatus, hfile⟩ := sdKvWriteFaulty_none json key value s.file tmp
  rw [kvUpdate, kvSet]
  split
  · exact ⟨rfl, rfl⟩
  · split
    · exact ⟨rfl, rfl⟩
    · split
      · exact ⟨rfl, rfl⟩
      · rw [runExclusive_idle hidle, runExclusive_idle hidle]
        by_cases hlock : Lockable s.locks "storage"
        · rw [if_pos hlock, if_pos hlock, ← hstatus]
          exact ⟨hfile, rfl⟩
        · rw [if_neg hlock, if_neg hlock]
          exact ⟨rfl, rfl⟩

/-- Without a failure a deletion is that of the plain model. -/
theorem kvUpdate_delete_noFaults (s : KvState) (hidle : Idle s.locks)
    (tmp : Option (List UInt8)) (key : CStr) :
    (kvUpdate json .none s.bound s.locks ⟨s.file, tmp⟩ (.delete key)).1.file =
        (kvDelete json s key).1.file ∧
      (kvUpdate json .none s.bound s.locks ⟨s.file, tmp⟩ (.delete key)).2 =
        some (kvDelete json s key).2.status := by
  obtain ⟨hstatus, hfile⟩ := sdKvDeleteFaulty_none json key s.file tmp
  rw [kvUpdate, kvDelete]
  split
  · exact ⟨rfl, rfl⟩
  · split
    · exact ⟨rfl, rfl⟩
    · rw [runExclusive_idle hidle, runExclusive_idle hidle]
      by_cases hlock : Lockable s.locks "storage"
      · rw [if_pos hlock, if_pos hlock, ← hstatus]
        exact ⟨hfile, rfl⟩
      · rw [if_neg hlock, if_neg hlock]
        exact ⟨rfl, rfl⟩

end Calls

end Faults

/-- The call of an update. -/
def KvUpdate.call : KvUpdate → KvCall
  | .set key value => .set key value
  | .delete key => .delete key

/-- Updates without a failure, each under the locks that the ones before it leave. -/
def plainSteps (json : CJson) (s : KvState) : List KvUpdate → List KvStep
  | [] => []
  | u :: us => ⟨.none, s.bound, s.locks, u⟩ :: plainSteps json (kvStep json s u.call).1 us

theorem idle_kvStep (json : CJson) {s : KvState} (h : Idle s.locks) (u : KvUpdate) :
    Idle (kvStep json s u.call).1.locks := by
  cases u with
  | set key value =>
      rw [KvUpdate.call, kvStep, kvSet]
      split
      · exact h
      · split
        · exact h
        · split
          · exact h
          · exact h.runExclusive _ _ _ _
  | delete key =>
      rw [KvUpdate.call, kvStep, kvDelete]
      split
      · exact h
      · split
        · exact h
        · exact h.runExclusive _ _ _ _

/-- Without a failure, updates in a row leave the file of the plain model. -/
theorem kvCards_plainSteps (json : CJson) {s : KvState} (h : Idle s.locks)
    (tmp : Option (List UInt8)) (us : List KvUpdate) :
    (kvCards json (plainSteps json s us) ⟨s.file, tmp⟩).file =
      (Machine.run (kvStep json) s (us.map KvUpdate.call)).file := by
  induction us generalizing s tmp with
  | nil => rfl
  | cons u us ih =>
      have hfile : (kvUpdate json .none s.bound s.locks ⟨s.file, tmp⟩ u).1.file =
          (kvStep json s u.call).1.file := by
        cases u with
        | set key value => exact (kvUpdate_set_noFaults s h tmp key value).1
        | delete key => exact (kvUpdate_delete_noFaults s h tmp key).1
      have hnext := ih (idle_kvStep json h u)
        (kvUpdate json .none s.bound s.locks ⟨s.file, tmp⟩ u).1.tmp
      rw [← hfile] at hnext
      exact hnext

/-- A store with one pair. -/
def onePair : List KvStep := [⟨.none, true, [], .set (cstr "a") (cstr "1")⟩]

theorem kvCards_plainSteps_twoUpdates :
    (kvCards compactJson (plainSteps compactJson ⟨true, [], none⟩
        [.set (cstr "a") (cstr "1"), .delete (cstr "a")]) ⟨none, none⟩).file =
      (Machine.run (kvStep compactJson) ⟨true, [], none⟩
        [.set (cstr "a") (cstr "1"), .delete (cstr "a")]).file :=
  kvCards_plainSteps compactJson idle_nil none
    [.set (cstr "a") (cstr "1"), .delete (cstr "a")]

/-- A failure of the power after some operations on the card. -/
def powerAfter (k : Nat) : KvFaults := { KvFaults.none with power := some k }

theorem kv_atomic_iff_onePair :
    AtomicUpdate compactJson (powerAfter 2) true [] (kvCards compactJson onePair ⟨none, none⟩)
        (.set (cstr "b") (cstr "2")) ∧
      AtomicUpdate compactJson .none true [] (kvCards compactJson onePair ⟨none, none⟩)
        (.set (cstr "b") (cstr "2")) := by
  have hidle : ∀ s ∈ onePair, Idle s.locks := by
    intro s hs
    obtain rfl := List.mem_singleton.mp hs
    exact idle_nil
  refine ⟨(kv_atomic_iff _ compactJson_documented onePair hidle true idle_nil _).mpr fun _ => ?_,
    (kv_atomic_iff _ compactJson_documented onePair hidle true idle_nil _).mpr fun _ => ?_⟩
  · have hfate : updateFate compactJson (powerAfter 2)
        (kvCards compactJson onePair ⟨none, none⟩).file (.set (cstr "b") (cstr "2")) = .kept := by
      decide
    rw [SafeUpdate, hfate]
    exact fun h => absurd h (by decide)
  · have hfate : updateFate compactJson .none
        (kvCards compactJson onePair ⟨none, none⟩).file (.set (cstr "b") (cstr "2")) = .done := by
      decide
    rw [SafeUpdate, hfate]
    dsimp only
    rw [if_neg (by decide)]
    decide

/-- The power is lost between the removal and the renaming: the other pair is gone. -/
theorem not_kv_atomic :
    ¬ AtomicUpdate compactJson (powerAfter 3) true [] (kvCards compactJson onePair ⟨none, none⟩)
      (.set (cstr "b") (cstr "2")) := by
  intro h
  have hother := h.others (cstr "a") (by decide)
  exact absurd hother (by decide)

end Sdk
end JppDos
