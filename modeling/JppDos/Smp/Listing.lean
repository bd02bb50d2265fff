import JppDos.Smp.System
import JppDos.Storage.Card

/-!
# The listing of a directory

FS_LIST_DIR answers with the entries of a directory in one buffer: a count, and for every
entry its kind, its size and its name.  The size comes from a call with a path that is put
together in a buffer of its own.

Main fact:
* `listing_exact_iff`: the answer is exact if and only if the sizes were found.
-/

namespace JppDos
namespace Smp

open CText Serial LittleEndian Paths Storage

/-- An entry as `readdir` gives it. -/
def direntOf (c : Card) (e : TreeEntry Segment Nat) (h : e ∈ c.tree.entries) : Dirent where
  name := ⟨e.name, (c.names e h).2⟩
  isDir := decide (e.kind = .dir)
  noSlash := (c.names e h).1.2.2.2

/-- The entries of a directory, in the order of `readdir`. -/
def dirents (c : Card) (p : List Segment) : List Dirent :=
  (c.tree.list p).pmap (direntOf c) fun _ h => (FileTree.mem_list.mp h).1

/-- The size that `stat` reports. -/
def statSize : FileKind Nat → Nat
  | .file size => size
  | .dir => 0

/-- The card's side of an action. -/
def cardIo (c : Card) : Act → Io
  | .readDir path =>
      { entries := if c.stat path = some .dir then some (dirents c (resolve path)) else none }
  | .stat path => { size := (c.stat path).map statSize }
  | _ => {}

/-- The answer of the card to an action. -/
def cardAnswer (c : Card) (m : State) (a : Act) : a.Ans := a.answer (cardIo c a) m

/-- The replies among the actions of a handler. -/
def repliesOf (acts : List Act) : List Reply :=
  acts.filterMap fun
    | .send reply => some reply
    | _ => none

/-- What FS_LIST_DIR sends. -/
def listingReplies (c : Card) (m : State) (seq : UInt8) (body : List UInt8) : List Reply :=
  repliesOf ((handleFsListDir seq body).outcome (cardAnswer c m)).2

/-- An entry of a listing. -/
structure Listed where
  isDir : Bool
  size : Nat
  name : List UInt8
  deriving DecidableEq

/-- The bytes of an entry. -/
def Listed.encode (l : Listed) : List UInt8 :=
  [if l.isDir then 1 else 0] ++ leBytes 4 l.size ++ l.name ++ [0]

/-- The given number of entries, and nothing behind them. -/
def readListed : Nat → List UInt8 → Option (List Listed)
  | 0, bytes => if bytes = [] then some [] else none
  | count + 1, flags :: b0 :: b1 :: b2 :: b3 :: rest =>
      match breakAt 0 rest with
      | none => none
      | some (name, rest) =>
          (readListed count rest).map (⟨flags &&& 1 = 1, leNat [b0, b1, b2, b3], name⟩ :: ·)
  | _ + 1, _ => none

/-- A payload of FS_LIST_DIR: the count and the entries. -/
def decodeListing (payload : List UInt8) : Option (List Listed) :=
  match payload with
  | c0 :: c1 :: rest => readListed (leNat [c0, c1]) rest
  | _ => none

/-- The size of what stands at a path: that of a file, or the number of entries of a directory
that are not hidden. -/
def sizeAt (c : Card) (isDir : Bool) (p : List Segment) : Nat :=
  if isDir then ((dirents c p).filter (!·.hidden)).length
  else ((c.tree.lookup p).map statSize).getD 0

/-- An entry with its full name, its kind and its size. -/
def describe (c : Card) (p : List Segment) (ent : Dirent) : Listed :=
  ⟨ent.isDir, sizeAt c ent.isDir (p ++ [ent.name.val]), ent.name.val⟩

/-- The entries that are not hidden. -/
def shownEntries (ents : List Dirent) : List Dirent := ents.filter (!·.hidden)

/-- The bytes of a listing. -/
def listedBytes (ents : List Dirent) : Nat := 2 + (ents.map fun ent => 6 + ent.name.strlen).sum

/-- The first `k` entries fit the buffer, and no more do. -/
def LongestFit (ents : List Dirent) (k : Nat) : Prop :=
  k ≤ ents.length ∧ listedBytes (ents.take k) ≤ smpListBufBytes ∧
    (k < ents.length → smpListBufBytes < listedBytes (ents.take (k + 1)))

/-- The payload has the longest row of entries that fits, each with its name, kind and size. -/
def ListsExactly (c : Card) (path : Path) (payload : List UInt8) : Prop :=
  payload.length ≤ smpListBufBytes ∧
    ∃ k, LongestFit (shownEntries (dirents c (resolve path))) k ∧
      decodeListing payload =
        some (((shownEntries (dirents c (resolve path))).take k).map (describe c (resolve path)))

/-- The entries that the loop takes when so many bytes are used. -/
def fitting : Nat → List Dirent → List Dirent
  | _, [] => []
  | used, ent :: rest =>
      if ent.hidden then fitting used rest
      else if used + 5 + ent.name.strlen + 1 > smpListBufBytes then []
      else ent :: fitting (used + 5 + ent.name.strlen + 1) rest

/-- An entry as the handler finds it. -/
def seen (c : Card) (path : Path) (ent : Dirent) : Listed :=
  ⟨ent.isDir, sizeAt c ent.isDir (resolve (childPath path ent.name)), ent.name.val⟩

/-- The entries that the listing of a directory has. -/
def listedEntries (c : Card) (path : Path) : List Dirent :=
  fitting 2 (dirents c (resolve path))

/-- The payload of FS_LIST_DIR. -/
def listingPayload (c : Card) (path : Path) : List UInt8 :=
  leBytes 2 (listedEntries c path).length ++
    (listedEntries c path).flatMap fun ent => (seen c path ent).encode

section Loop

variable (c : Card) (m : State)

theorem dirents_eq_nil {p : List Segment} (h : c.tree.lookup p ≠ some .dir) : dirents c p = [] := by
  have hlist : c.tree.list p = [] := by
    by_contra hne
    exact h (FileTree.lookup_of_list hne)
  simp [dirents, hlist]

/-- The entries that a directory answers with; there are none where there is no directory. -/
theorem getD_readDir (p : Path) :
    Option.getD (cardAnswer c m (.readDir p)) [] = dirents c (resolve p) := by
  change (if c.stat p = some .dir then some (dirents c (resolve p)) else none).getD [] = _
  split
  · rfl
  · rename_i hno
    exact (dirents_eq_nil c hno).symm

theorem sizeOrCount_outcome (path : Path) (ent : Dirent) :
    ((sizeOrCount path ent).outcome (cardAnswer c m)).1 =
        sizeAt c ent.isDir (resolve (childPath path ent.name)) ∧
      repliesOf ((sizeOrCount path ent).outcome (cardAnswer c m)).2 = [] := by
  rw [sizeOrCount, sizeAt]
  cases ent.isDir with
  | false => exact ⟨rfl, rfl⟩
  | true =>
      refine ⟨?_, rfl⟩
      change ((Option.getD (cardAnswer c m (.readDir (childPath path ent.name))) []).filter
        (!·.hidden)).length = _
      rw [getD_readDir]
      rfl

theorem repliesOf_append (acts acts' : List Act) :
    repliesOf (acts ++ acts') = repliesOf acts ++ repliesOf acts' :=
  List.filterMap_append

/-- What the loop writes behind the bytes that are there. -/
theorem listEntries_outcome (path : Path) (ents : List Dirent) (buf : List UInt8) (count : Nat) :
    ((listEntries path ents buf count).outcome (cardAnswer c m)).1 =
        (buf ++ (fitting (2 + buf.length) ents).flatMap fun ent => (seen c path ent).encode,
          count + (fitting (2 + buf.length) ents).length) ∧
      repliesOf ((listEntries path ents buf count).outcome (cardAnswer c m)).2 = [] := by
  induction ents generalizing buf count with
  | nil =>
      rw [listEntries, fitting]
      exact ⟨by simp, rfl⟩
  | cons ent rest ih =>
      rw [listEntries, fitting]
      split
      · exact ih buf count
      · split
        · exact ⟨by simp, rfl⟩
        · obtain ⟨hsize, hquiet⟩ := sizeOrCount_outcome c m path ent
          obtain ⟨hrest, hquiet'⟩ := ih (buf ++ (seen c path ent).encode) (count + 1)
          have hlen : 2 + (buf ++ (seen c path ent).encode).length =
              2 + buf.length + 5 + ent.name.strlen + 1 := by
            simp [Listed.encode, seen, CStr.strlen]
            omega
          rw [hlen] at hrest
          rw [Task.outcome_bind, repliesOf_append, hquiet, hsize]
          have hwritten : buf ++ [if ent.isDir then 1 else 0] ++
              leBytes 4 (sizeAt c ent.isDir (resolve (childPath path ent.name))) ++
              ent.name.val ++ [0] = buf ++ (seen c path ent).encode := by
            simp only [Listed.encode, List.append_assoc]
            rfl
          rw [hwritten]
          refine ⟨?_, hquiet'⟩
          rw [hrest, List.flatMap_cons, List.length_cons]
          simp only [List.append_assoc, Prod.mk.injEq, true_and]
          omega

theorem listingReplies_eq (seq : UInt8) {body : List UInt8} {path : Path}
    (hpath : pathValidSd body = some path) (hdir : c.stat path = some .dir) :
    listingReplies c m seq body =
      [⟨seq, SmpSt.ok, listingPayload c path⟩] := by
  obtain ⟨hloop, hquiet⟩ := listEntries_outcome c m path (dirents c (resolve path)) [] 0
  have hopen : cardAnswer c m (.readDir path) = some (dirents c (resolve path)) := by
    change (if c.stat path = some .dir then some (dirents c (resolve path)) else none) = _
    rw [if_pos hdir]
  let found : Code Unit := listEntries path (dirents c (resolve path)) [] 0 >>= fun written =>
    sendResponse seq SmpSt.ok (leBytes 2 written.2 ++ written.1)
  obtain ⟨rest, hcode, hrest⟩ : ∃ rest : (Act.readDir path).Ans → Code Unit,
      listDir seq path = Task.act (.readDir path) rest ∧
        rest (some (dirents c (resolve path))) = found := ⟨_, rfl, rfl⟩
  have hhead : ((listDir seq path).outcome (cardAnswer c m)).2 =
      .readDir path :: (found.outcome (cardAnswer c m)).2 := by
    rw [hcode, Task.outcome_act, hopen]
    exact congrArg (fun t => Act.readDir path :: (Task.outcome (cardAnswer c m) t).2) hrest
  rw [List.nil_append, List.length_nil, Nat.zero_add] at hloop
  rw [listingReplies, handleFsListDir, hpath]
  dsimp only
  rw [hhead, Task.outcome_bind, hloop]
  change repliesOf ([_] ++ (_ ++ [_])) = _
  rw [repliesOf_append, repliesOf_append, hquiet]
  rfl

end Loop

theorem readListed_encode {ls : List Listed}
    (h : ∀ l ∈ ls, 0 ∉ l.name ∧ l.size < 2 ^ 32) :
    readListed ls.length (ls.flatMap Listed.encode) = some ls := by
  induction ls with
  | nil => rfl
  | cons l ls ih =>
      obtain ⟨⟨hname, hsize⟩, hrest⟩ := List.forall_mem_cons.mp h
      obtain ⟨isDir, size, name⟩ := l
      have hback : leNat (leBytes 4 size) = size := leNat_leBytes hsize
      have hflag : decide ((if isDir then (1 : UInt8) else 0) &&& 1 = 1) = isDir := by
        cases isDir <;> rfl
      simp only [leBytes] at hback
      rw [List.flatMap_cons, List.length_cons, Listed.encode]
      simp only [leBytes, List.append_assoc, List.cons_append, List.nil_append, readListed]
      rw [breakAt_append hname]
      simp only [ih hrest, Option.map_some, hback]
      simpa using hflag

theorem sizeAt_lt (c : Card) (isDir : Bool) (p : List Segment) : sizeAt c isDir p < 2 ^ 32 := by
  rw [sizeAt]
  split
  · refine Nat.lt_of_le_of_lt (List.length_filter_le _ _) ?_
    rw [dirents, List.length_pmap]
    exact c.counts p
  · cases hkind : c.tree.lookup p with
    | none => exact Nat.pow_pos (by decide)
    | some kind =>
        cases kind with
        | dir => exact Nat.pow_pos (by decide)
        | file size =>
            have hp : p ≠ [] := by
              rintro rfl
              cases hkind
            obtain ⟨e, he, -, hsize⟩ := FileTree.mem_of_lookup hp hkind
            exact c.sizes e he size hsize

/-- The bytes of entries. -/
def entryBytes (ents : List Dirent) : Nat := (ents.map fun ent => 6 + ent.name.strlen).sum

theorem entryBytes_cons (ent : Dirent) (ents : List Dirent) :
    entryBytes (ent :: ents) = 6 + ent.name.strlen + entryBytes ents := by
  simp [entryBytes]

theorem entryBytes_take_mono (ents : List Dirent) {j k : Nat} (h : j ≤ k) :
    entryBytes (ents.take j) ≤ entryBytes (ents.take k) := by
  induction ents generalizing j k with
  | nil => simp
  | cons ent ents ih =>
      cases j with
      | zero => simp [entryBytes]
      | succ j =>
          cases k with
          | zero => omega
          | succ k =>
              have := ih (Nat.le_of_succ_le_succ h)
              rw [List.take_succ_cons, List.take_succ_cons, entryBytes_cons, entryBytes_cons]
              omega

/-- The loop takes the longest row of shown entries that fits. -/
theorem fitting_longest (used : Nat) (hused : used ≤ smpListBufBytes) (ents : List Dirent) :
    ∃ k, fitting used ents = (shownEntries ents).take k ∧ k ≤ (shownEntries ents).length ∧
      used + entryBytes ((shownEntries ents).take k) ≤ smpListBufBytes ∧
      (k < (shownEntries ents).length →
        smpListBufBytes < used + entryBytes ((shownEntries ents).take (k + 1))) := by
  induction ents generalizing used with
  | nil => exact ⟨0, rfl, Nat.le_refl 0, hused, fun h => absurd h (Nat.not_lt_zero 0)⟩
  | cons ent rest ih =>
      rw [fitting]
      split
      · rename_i hhidden
        have hskip : shownEntries (ent :: rest) = shownEntries rest := by
          simp [shownEntries, hhidden]
        rw [hskip]
        exact ih used hused
      · rename_i hshown
        have hcons : shownEntries (ent :: rest) = ent :: shownEntries rest := by
          simp [shownEntries, hshown]
        rw [hcons]
        split
        · rename_i hfull
          refine ⟨0, rfl, Nat.zero_le _, hused, fun _ => ?_⟩
          rw [List.take_succ_cons, entryBytes_cons]
          omega
        · rename_i hroom
          obtain ⟨k, heq, hk, hfits, hmore⟩ := ih (used + 5 + ent.name.strlen + 1) (by omega)
          refine ⟨k + 1, by rw [heq, List.take_succ_cons], Nat.succ_le_succ hk, ?_, fun hlt => ?_⟩
          · rw [List.take_succ_cons, entryBytes_cons]
            omega
          · rw [List.take_succ_cons, entryBytes_cons]
            have := hmore (Nat.lt_of_succ_lt_succ hlt)
            omega

theorem LongestFit.unique {ents : List Dirent} {j k : Nat} (hj : LongestFit ents j)
    (hk : LongestFit ents k) : j = k := by
  have hle : ∀ {j k : Nat}, LongestFit ents j → LongestFit ents k → k ≤ j := by
    intro j k hj hk
    by_contra hlt
    have hmore := hj.2.2 (by have := hk.1; omega)
    have hfits := hk.2.1
    have hmono := entryBytes_take_mono ents (show j + 1 ≤ k by omega)
    change _ < 2 + entryBytes _ at hmore
    change 2 + entryBytes _ ≤ _ at hfits
    omega
  exact Nat.le_antisymm (hle hk hj) (hle hj hk)

theorem mem_dirents {c : Card} {p : List Segment} {ent : Dirent} (h : ent ∈ dirents c p) :
    ∃ e ∈ c.tree.list p, ent.name.val = e.name := by
  obtain ⟨e, he, rfl⟩ := List.mem_pmap.mp h
  exact ⟨e, he, rfl⟩

/-- The path of the entry fits its buffer, or what stands at its first 511 characters has the
same size. -/
def SizeSeen (c : Card) (path : Path) (ent : Dirent) : Prop :=
  path.length + 1 + ent.name.strlen < 512 ∨
    sizeAt c ent.isDir (resolve (childPath path ent.name)) =
      sizeAt c ent.isDir (resolve path ++ [ent.name.val])

theorem seen_eq_iff {c : Card} {path : Path} {ent : Dirent}
    (h : ent ∈ dirents c (resolve path)) :
    seen c path ent = describe c (resolve path) ent ↔ SizeSeen c path ent := by
  have hfit : path.length + 1 + ent.name.strlen < 512 →
      resolve (childPath path ent.name) = resolve path ++ [ent.name.val] := by
    intro hlen
    obtain ⟨e, he, hname⟩ := mem_dirents h
    rw [childPath, List.take_of_length_le, hname]
    · exact resolve_join_name path (c.names e (FileTree.mem_list.mp he).1).1
    · rw [List.length_append, List.length_cons]
      exact Nat.le_of_lt_succ (by rw [CStr.strlen] at hlen; omega)
  rw [seen, describe, SizeSeen]
  simp only [Listed.mk.injEq, true_and, and_true]
  constructor
  · exact Or.inr
  · rintro (hlen | hsame)
    · rw [hfit hlen]
    · exact hsame

theorem length_payload (c : Card) (path : Path) :
    (listingPayload c path).length = 2 + entryBytes (listedEntries c path) := by
  rw [listingPayload, List.length_append, leBytes_length, List.length_flatMap, entryBytes]
  refine congrArg (2 + List.sum ·) (List.map_congr_left fun ent _ => ?_)
  simp [Listed.encode, seen, CStr.strlen]
  omega

theorem length_le_entryBytes (ents : List Dirent) : 6 * ents.length ≤ entryBytes ents := by
  induction ents with
  | nil => exact Nat.le_refl 0
  | cons ent ents ih =>
      rw [entryBytes_cons, List.length_cons]
      omega

theorem length_listedEntries (c : Card) (path : Path) :
    (listedEntries c path).length < 256 ^ 2 := by
  obtain ⟨k, hfit, -, hroom, -⟩ := fitting_longest 2 (by decide) (dirents c (resolve path))
  have hlen := length_le_entryBytes (listedEntries c path)
  rw [listedEntries, hfit] at hlen ⊢
  rw [smpListBufBytes] at hroom
  omega

/-- The payload reads as the entries that the handler has found. -/
theorem decode_payload (c : Card) (path : Path) :
    decodeListing (listingPayload c path) = some ((listedEntries c path).map (seen c path)) := by
  have hseen : ∀ l ∈ (listedEntries c path).map (seen c path), 0 ∉ l.name ∧ l.size < 2 ^ 32 := by
    intro l hl
    obtain ⟨ent, -, rfl⟩ := List.mem_map.mp hl
    exact ⟨ent.name.property, sizeAt_lt c _ _⟩
  have hback := leNat_leBytes (length_listedEntries c path)
  have hread := readListed_encode hseen
  rw [List.length_map, List.flatMap_map] at hread
  simp only [leBytes] at hback
  simp only [listingPayload, leBytes, List.cons_append, List.nil_append, decodeListing, hback,
    hread]

/-- The payload is exact if and only if the sizes were found. -/
theorem listsExactly_payload_iff (c : Card) (path : Path) :
    ListsExactly c path (listingPayload c path) ↔
      ∀ ent ∈ listedEntries c path, SizeSeen c path ent := by
  obtain ⟨k, hfit, hk, hroom, hmore⟩ :=
    fitting_longest 2 (by decide) (dirents c (resolve path))
  have hlongest : LongestFit (shownEntries (dirents c (resolve path))) k := ⟨hk, hroom, hmore⟩
  have hlisted : listedEntries c path = (shownEntries (dirents c (resolve path))).take k := hfit
  have hmem : ∀ ent ∈ listedEntries c path, ent ∈ dirents c (resolve path) := by
    intro ent hent
    rw [hlisted] at hent
    exact (List.mem_filter.mp (List.mem_of_mem_take hent)).1
  have hdecode := decode_payload c path
  rw [ListsExactly]
  constructor
  · rintro ⟨-, j, hj, hdecoded⟩ ent hent
    obtain rfl : j = k := hj.unique hlongest
    rw [hdecode, ← hlisted] at hdecoded
    have hsame := List.map_inj_left.mp (Option.some.inj hdecoded) ent hent
    exact (seen_eq_iff (hmem ent hent)).mp hsame
  · intro hsizes
    refine ⟨?_, k, hlongest, ?_⟩
    · rw [length_payload, hlisted]
      exact hroom
    · rw [hdecode, ← hlisted]
      exact congrArg some (List.map_congr_left fun ent hent =>
        (seen_eq_iff (hmem ent hent)).mpr (hsizes ent hent))

/-- For every directory, FS_LIST_DIR answers with one payload; it fits the buffer and reads as
the longest row of shown entries that fits, each with its name, kind and size, if and only if
for every entry of the row its path fits the buffer for it or what its cut path leads to has
the same size. -/
theorem listing_exact_iff (c : Card) (m : State) (seq : UInt8) {body : List UInt8} {path : Path}
    (hpath : pathValidSd body = some path) (hdir : c.stat path = some .dir) :
    (∃ payload, listingReplies c m seq body = [⟨seq, SmpSt.ok, payload⟩] ∧
        ListsExactly c path payload) ↔
      ∀ ent ∈ listedEntries c path, SizeSeen c path ent := by
  rw [← listsExactly_payload_iff, listingReplies_eq c m seq hpath hdir]
  constructor
  · rintro ⟨payload, hreply, hexact⟩
    have hpayload := congrArg Reply.body (List.cons.inj hreply).1
    dsimp only at hpayload
    rwa [hpayload]
  · exact fun hexact => ⟨_, rfl, hexact⟩

/-- A name of 253 characters. -/
def longName : Segment := List.replicate 253 97

/-- A card with a directory of a long name in another one, and a file of five bytes in it. -/
def deepCard : Card where
  tree :=
    { entries :=
        [⟨[], ascii "sd", .dir⟩, ⟨[ascii "sd"], longName, .dir⟩,
          ⟨[ascii "sd", longName], longName, .dir⟩,
          ⟨[ascii "sd", longName, longName], ascii "f", .file 5⟩]
      distinct := by decide +kernel
      closed := by decide +kernel }
  names := by decide
  sizes := by
    intro e he size hsize
    simp only [List.mem_cons, List.not_mem_nil, or_false] at he
    rcases he with rfl | rfl | rfl | rfl <;> cases hsize
    decide
  counts := fun p => Nat.lt_of_le_of_lt (List.length_filter_le _ _) (by decide)

/-- The path of the inner directory. -/
def deepPath : Path := ascii "/sd/" ++ longName ++ slash :: longName

instance (c : Card) (path : Path) (ent : Dirent) : Decidable (SizeSeen c path ent) :=
  inferInstanceAs (Decidable (_ ∨ _))

theorem listing_exact_root :
    ∃ payload, listingReplies deepCard (System.boot false).state 7 (ascii "/sd" ++ [0]) =
        [⟨7, SmpSt.ok, payload⟩] ∧ ListsExactly deepCard (ascii "/sd") payload :=
  (listing_exact_iff deepCard (System.boot false).state 7 (by decide) (by decide)).mpr
    (by decide +kernel)

/-- In a directory whose path has 511 characters the file of five bytes is listed with the
size of the directory itself. -/
theorem not_listing_exact :
    ¬ ∀ (c : Card) (m : State) (seq : UInt8) (body : List UInt8) (path : Path),
      pathValidSd body = some path → c.stat path = some .dir →
        ∃ payload, listingReplies c m seq body = [⟨seq, SmpSt.ok, payload⟩] ∧
          ListsExactly c path payload := by
  intro h
  have hpath : pathValidSd (deepPath ++ [0]) = some deepPath := by decide +kernel
  have hdir : deepCard.stat deepPath = some .dir := by decide +kernel
  obtain ⟨payload, hreply, hexact⟩ :=
    h deepCard (System.boot false).state 7 (deepPath ++ [0]) deepPath hpath hdir
  rw [listingReplies_eq _ _ _ hpath hdir] at hreply
  have hpayload : listingPayload deepCard deepPath = payload :=
    congrArg Reply.body (List.cons.inj hreply).1
  rw [← hpayload, listsExactly_payload_iff] at hexact
  exact absurd hexact (by decide +kernel)

end Smp
end JppDos
