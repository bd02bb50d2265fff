import JppDos.Http.FileServer
import JppDos.Lib.Paths
import JppDos.Sdk.AppPath

/-!
# The paths of the WebDAV handlers

Every call on the file system that a request leads to, whatever the card answers: the path that
`build_path` makes of the request, and the paths that the handlers make of it in buffers of a
fixed size.

Main fact:
* `propfind_leaves_root`: a listing that leaves the root.
-/

namespace JppDos
namespace Http

open CText Paths

/-- A call on the file system. -/
inductive FsCall
  | stat (path : List UInt8)
  | opendir (path : List UInt8)
  | openRead (path : List UInt8)
  | openWrite (path : List UInt8)
  | unlink (path : List UInt8)
  | rmdir (path : List UInt8)
  | mkdir (path : List UInt8)
  | rename (src dst : List UInt8)
  deriving DecidableEq

/-- The paths of a call. -/
def FsCall.paths : FsCall → List (List UInt8)
  | .stat path | .opendir path | .openRead path | .openWrite path | .unlink path | .rmdir path
  | .mkdir path => [path]
  | .rename src dst => [src, dst]

mutual

/-- What `delete_recursive` finds at a path. -/
inductive Found
  | missing
  | file (removed : Bool)
  /-- A directory that cannot be opened. -/
  | shut
  | dir (entries : Entries) (removed : Bool)

/-- What `readdir` returns, with what is found there. -/
inductive Entries
  | nil
  | cons (name : List UInt8) (found : Found) (rest : Entries)

end

/-- The path of a child, in a buffer of `FULL_PATH_MAX` bytes. -/
def childPath (path name : List UInt8) : List UInt8 :=
  (path ++ slash :: name).take (fullPathMax - 1)

mutual

/-- `delete_recursive`, with its calls. -/
def deleteRecursive (path : List UInt8) : Found → Bool × List FsCall
  | .missing => (false, [.stat path])
  | .file removed => (removed, [.stat path, .unlink path])
  | .shut => (false, [.stat path, .opendir path])
  | .dir entries removed =>
      let below := deleteEntries path entries
      if below.1 then (removed, [.stat path, .opendir path] ++ below.2 ++ [.rmdir path])
      else (false, [.stat path, .opendir path] ++ below.2)

/-- The loop of `delete_recursive`. -/
def deleteEntries (path : List UInt8) : Entries → Bool × List FsCall
  | .nil => (true, [])
  | .cons name found rest =>
      if name = ascii "." ∨ name = ascii ".." then deleteEntries path rest
      else
        let child := deleteRecursive (childPath path name) found
        let others := deleteEntries path rest
        (child.1 && others.1, child.2 ++ others.2)

end

/-- What a request meets besides the answers of the card: what is found where it deletes, how
many children are looked at before a send fails, unless the first does, and whether a body that
is stored breaks off. -/
structure Course where
  found : Found
  sent : Option Nat
  broken : Bool

/-- The methods that reach the card. -/
inductive DavMethod
  | propfind
  | get
  | put
  | delete
  | move
  | mkcol
  deriving DecidableEq

section Calls

variable (fs : Fs)

/-- The handler that `webdav_dispatch` chooses. -/
def methodOf (req : Request) : Option DavMethod :=
  if req.method = ascii "OPTIONS" then none
  else if !checkAuth fs req then none
  else if req.method = ascii "PROPFIND" then some .propfind
  else if req.method = ascii "GET" then some .get
  else if req.method = ascii "HEAD" then some .get
  else if req.method = ascii "PUT" then some .put
  else if req.method = ascii "DELETE" then some .delete
  else if req.method = ascii "MOVE" then some .move
  else if req.method = ascii "MKCOL" then some .mkcol
  else none

/-- The children that `handle_propfind` looks at, where it opens a directory at all. -/
def propfindNames (req : Request) (path : List UInt8) (sent : Option Nat) :
    Option (List (List UInt8)) :=
  match fs.stat path, sent with
  | some (true, _), some count =>
      if (jppHttpHeader req (ascii "Depth")).bind List.head? != some 48 then
        some ((listed ((fs.opendir path).getD [])).take count)
      else none
  | _, _ => none

/-- The calls of `handle_propfind`. -/
def propfindCalls (req : Request) (path : List UInt8) (sent : Option Nat) : List FsCall :=
  match propfindNames fs req path sent with
  | none => [.stat path]
  | some names =>
      [.stat path, .opendir path] ++ names.map fun name => .stat (childPath path name)

/-- The calls of `handle_get`. -/
def getCalls (path : List UInt8) : List FsCall :=
  match fs.stat path with
  | none => [.stat path]
  | some (true, _) => [.stat path, .opendir path]
  | some (false, _) => [.stat path, .openRead path]

/-- The calls of `handle_put`. -/
def putCalls (path : List UInt8) (broken : Bool) : List FsCall :=
  if (fs.stat path).map Prod.fst = some true then [.stat path]
  else if fs.create path && broken then [.stat path, .openWrite path, .unlink path]
  else [.stat path, .openWrite path]

/-- The calls of `handle_delete`. -/
def deleteCalls (path : List UInt8) (found : Found) : List FsCall :=
  match fs.stat path with
  | none => [.stat path]
  | some _ => .stat path :: (deleteRecursive path found).2

/-- The path that `handle_move` makes of its Destination header. -/
def destinationOf (req : Request) : Option (List UInt8) :=
  ((jppHttpHeader req (ascii "Destination")).bind destinationPath).bind (buildPath fs)

/-- The calls of `handle_move`. -/
def moveCalls (req : Request) (path : List UInt8) : List FsCall :=
  match destinationOf fs req with
  | none => []
  | some dst => [.rename path dst]

/-- The calls on the file system that a request leads to. -/
def webdavCalls (req : Request) (course : Course) : List FsCall :=
  match methodOf fs req, buildPath fs req.uri with
  | some .propfind, some path => propfindCalls fs req path course.sent
  | some .get, some path => getCalls fs path
  | some .put, some path => putCalls fs path course.broken
  | some .delete, some path => deleteCalls fs path course.found
  | some .move, some path => moveCalls fs req path
  | some .mkcol, some path => [.mkdir path]
  | _, _ => []

end Calls

/-- A name that `readdir` can return. -/
def PlainName (name : List UInt8) : Prop := name ≠ [] ∧ slash ∉ name

mutual

/-- The names that are found are names. -/
def Found.Plain : Found → Prop
  | .missing | .file _ | .shut => True
  | .dir entries _ => entries.Plain

def Entries.Plain : Entries → Prop
  | .nil => True
  | .cons name found rest => PlainName name ∧ found.Plain ∧ rest.Plain

end

/-- The names in a directory, without `.` and `..`. -/
def Entries.names : Entries → List (List UInt8)
  | .nil => []
  | .cons name _ rest =>
      if name = ascii "." ∨ name = ascii ".." then rest.names else name :: rest.names

def Found.names : Found → List (List UInt8)
  | .missing | .file _ | .shut => []
  | .dir entries _ => entries.names

/-- Behind this path one of the names is cut to `..`. -/
def CutToParent (path : List UInt8) (names : List (List UInt8)) : Prop :=
  path.length = fullPathMax - 4 ∧ ∃ name ∈ names, parent <+: name

theorem pathIsSafeFrom_eq (start : Bool) (path : List UInt8) :
    pathIsSafeFrom start path = !Sdk.hasParentFrom start path := by
  induction path generalizing start with
  | nil => rfl
  | cons c path ih =>
      rw [pathIsSafeFrom, Sdk.hasParentFrom]
      split_ifs with hhere hthere hthere
      · rfl
      · exact absurd hhere hthere
      · exact absurd hthere hhere
      · exact ih _

/-- A request that is accepted starts with a slash and has no `..` among its parts. -/
theorem uri_of_buildPath {fs : Fs} {uri path : List UInt8} (h : buildPath fs uri = some path) :
    ∃ rest, uri = slash :: rest ∧ parent ∉ segments rest ∧
      (fs.sdRoot ++ uri).length < fullPathMax := by
  unfold buildPath at h
  split_ifs at h with hbad hlong
  obtain ⟨hhead, hsafe⟩ := not_or.mp hbad
  rw [not_not] at hhead
  cases uri with
  | nil => cases hhead
  | cons c rest =>
      cases Option.some.inj hhead
      refine ⟨rest, rfl, fun hmem => ?_, ?_⟩
      · have hall := (Sdk.hasParentFrom_eq_true (slash :: rest)).2.mpr
          (by rw [segments_slash]; exact List.mem_cons_of_mem _ hmem)
        rw [pathIsSafeFrom_eq] at hsafe
        exact hsafe (by simpa [slash] using hall)
      · rw [List.length_append]
        omega

/-- An accepted path is the root with the whole of the request behind it, but for a slash at the
end, and leads to the root or below it. -/
theorem buildPath_below {fs : Fs} {uri path : List UInt8} (h : buildPath fs uri = some path) :
    (path = fs.sdRoot ++ uri ∨ path ++ [slash] = fs.sdRoot ++ uri) ∧
      path.length < fullPathMax ∧ Below (resolve fs.sdRoot) path := by
  obtain ⟨rest, rfl, hparent, hlen⟩ := uri_of_buildPath h
  have hbelow : Below (resolve fs.sdRoot) (fs.sdRoot ++ slash :: rest) := below_join hparent
  unfold buildPath at h
  split_ifs at h with hbad hlong
  simp only at h
  split_ifs at h with hslash
  · cases h
    have hwhole : (fs.sdRoot ++ slash :: rest).dropLast ++ [slash] = fs.sdRoot ++ slash :: rest :=
      List.dropLast_append_getLast? _ hslash.2
    refine ⟨.inr hwhole, ?_, ?_⟩
    · rw [List.length_dropLast]
      omega
    · rwa [← hwhole, Below, resolve_slash] at hbelow
  · cases h
    exact ⟨.inl rfl, hlen, hbelow⟩

theorem length_childPath_lt (path name : List UInt8) :
    (childPath path name).length < fullPathMax := by
  rw [childPath, List.length_take, fullPathMax]
  omega

/-- A child whose name has room behind the path, if only in part. -/
theorem childPath_of_lt {path : List UInt8} (hroom : path.length < fullPathMax - 1)
    (name : List UInt8) :
    childPath path name = path ++ slash :: name.take (fullPathMax - 2 - path.length) := by
  rw [fullPathMax] at hroom
  obtain ⟨k, hk⟩ : ∃ k, 300 - 1 - path.length = k + 1 := ⟨300 - 2 - path.length, by omega⟩
  rw [childPath, fullPathMax, List.take_append, List.take_of_length_le (by omega), hk,
    List.take_succ_cons, show k = 300 - 2 - path.length by omega]

theorem childPath_of_eq {path : List UInt8} (hfull : path.length = fullPathMax - 1)
    (name : List UInt8) : childPath path name = path := by
  rw [childPath, ← hfull, List.take_left']
  rfl

theorem room_of_cut {name seg : List UInt8} {room : Nat} (htake : name.take room = seg)
    (hcut : seg ≠ name) : room = seg.length := by
  have hlong : room < name.length := by
    by_contra hshort
    exact hcut (htake.symm.trans (List.take_of_length_le (not_lt.mp hshort)))
  rw [← htake, List.length_take, min_eq_left hlong.le]

/-- Where the path of a child leads: into the directory; or nowhere, where the buffer is full
behind it; or, where the name is cut, out of the directory. -/
theorem childPath_cases {path name : List UInt8} (hname : PlainName name)
    (hdot : name ≠ ascii ".") (hparent : name ≠ ascii "..") (hlen : path.length < fullPathMax) :
    (∃ seg, resolve (childPath path name) = resolve path ++ [seg]) ∨
      (childPath path name).length = fullPathMax - 1 ∧
        (resolve (childPath path name) = resolve path ∨
          path.length = fullPathMax - 4 ∧ parent <+: name ∧
            resolve (childPath path name) = (resolve path).dropLast) := by
  by_cases hroom : path.length < fullPathMax - 1
  · generalize htake : name.take (fullPathMax - 2 - path.length) = seg
    have hchild : childPath path name = path ++ slash :: seg := by
      rw [childPath_of_lt hroom, htake]
    have hseg : slash ∉ seg := fun hmem => hname.2 (List.mem_of_mem_take (htake ▸ hmem))
    have hresolve : resolve (childPath path name) = walk (resolve path) seg := by
      rw [hchild, resolve_join, segments_name hseg, List.foldl_cons, List.foldl_nil]
    have hlength : (childPath path name).length = path.length + (seg.length + 1) := by
      rw [hchild, List.length_append, List.length_cons]
    rw [fullPathMax] at hroom htake
    rw [hlength, hresolve, walk, fullPathMax]
    split
    · -- nothing, or a single dot: the buffer ends here
      rename_i hstays
      have hcut : seg ≠ name := by
        rintro rfl
        exact hstays.elim hname.1 hdot
      have hfull := room_of_cut htake hcut
      refine .inr ⟨?_, .inl rfl⟩
      omega
    split
    · rename_i hup
      have hcut : seg ≠ name := by
        rintro rfl
        exact hparent hup
      have hfull := room_of_cut htake hcut
      have htwo : seg.length = 2 := congrArg List.length hup
      refine .inr ⟨?_, .inr ⟨?_, ?_, rfl⟩⟩
      · omega
      · omega
      · rw [← hup, ← htake]
        exact List.take_prefix _ _
    · exact .inl ⟨seg, rfl⟩
  · have hfull : path.length = fullPathMax - 1 := by omega
    rw [childPath_of_eq hfull]
    exact .inr ⟨hfull, .inl rfl⟩

/-- A name that is cut to `..` leads out of the directory. -/
theorem resolve_childPath_cut {path name : List UInt8} (hlen : path.length = fullPathMax - 4)
    (hname : parent <+: name) : resolve (childPath path name) = (resolve path).dropLast := by
  have htake : name.take (fullPathMax - 2 - path.length) = parent := by
    rw [hlen]
    exact (List.prefix_iff_eq_take.mp hname).symm
  rw [childPath_of_lt (by rw [hlen]; decide), htake, resolve_join,
    segments_name (by decide), List.foldl_cons, List.foldl_nil]
  rfl

/-- The path leads below a directory, and not to it. -/
def StrictlyBelow (dirs : List Segment) (path : List UInt8) : Prop :=
  Below dirs path ∧ resolve path ≠ dirs

theorem StrictlyBelow.length_lt {dirs : List Segment} {path : List UInt8}
    (h : StrictlyBelow dirs path) : dirs.length < (resolve path).length := by
  refine lt_of_le_of_ne h.1.length_le fun heq => h.2 ?_
  exact (h.1.eq_of_length heq).symm

/-- Where no name is cut in a directory of the root, the children stay below the root too. -/
theorem StrictlyBelow.child {dirs : List Segment} {path name : List UInt8}
    (h : StrictlyBelow dirs path) (hlen : path.length < fullPathMax) (hname : PlainName name)
    (hdot : name ≠ ascii ".") (hparent : name ≠ ascii "..")
    (hcut : (resolve path).length = dirs.length + 1 → path.length = fullPathMax - 4 →
      ¬ parent <+: name) :
    StrictlyBelow dirs (childPath path name) ∧
      ((resolve (childPath path name)).length = dirs.length + 1 →
        (childPath path name).length ≠ fullPathMax - 4) := by
  have hlt := h.length_lt
  rcases childPath_cases hname hdot hparent hlen with
    ⟨seg, heq⟩ | ⟨hfull, heq | ⟨hroom, hup, heq⟩⟩
  · refine ⟨⟨?_, fun hsame => ?_⟩, fun hone => ?_⟩
    · rw [Below, heq]
      exact h.1.trans (List.prefix_append _ _)
    · have hlength := congrArg List.length (heq.symm.trans hsame)
      rw [List.length_append, List.length_singleton] at hlength
      omega
    · rw [heq, List.length_append, List.length_singleton] at hone
      omega
  · refine ⟨⟨?_, ?_⟩, fun _ => ?_⟩
    · rw [Below, heq]
      exact h.1
    · rw [heq]
      exact h.2
    · rw [hfull]
      decide
  · have hdeep : dirs.length + 1 < (resolve path).length :=
      lt_of_le_of_ne hlt fun hone => hcut hone.symm hroom hup
    have hdrop : dirs.length < ((resolve path).dropLast).length := by
      rw [List.length_dropLast]
      omega
    refine ⟨⟨?_, fun hsame => ?_⟩, fun _ => ?_⟩
    · rw [Below, heq]
      exact List.prefix_of_prefix_length_le h.1 (List.dropLast_prefix _) hdrop.le
    · rw [← hsame, heq] at hdrop
      exact absurd hdrop (lt_irrefl _)
    · rw [hfull]
      decide

mutual

theorem deleteRecursive_below {dirs : List Segment} {path : List UInt8}
    (h : StrictlyBelow dirs path) (hlen : path.length < fullPathMax) :
    ∀ found : Found, found.Plain →
      ((resolve path).length = dirs.length + 1 → ¬ CutToParent path found.names) →
      ∀ call ∈ (deleteRecursive path found).2, ∀ p ∈ call.paths, StrictlyBelow dirs p
  | .missing, _, _ => by simpa [deleteRecursive, FsCall.paths] using h
  | .file _, _, _ => by simpa [deleteRecursive, FsCall.paths] using h
  | .shut, _, _ => by simpa [deleteRecursive, FsCall.paths] using h
  | .dir entries removed, hplain, hcut => by
      have hbelow := deleteEntries_below h hlen entries hplain hcut
      have hhere : ∀ call ∈ [FsCall.stat path, .opendir path, .rmdir path],
          ∀ p ∈ call.paths, StrictlyBelow dirs p := by simpa [FsCall.paths] using h
      intro call hcall
      rw [deleteRecursive] at hcall
      split at hcall
      · simp only [List.mem_append, List.mem_cons, List.not_mem_nil, or_false] at hcall
        rcases hcall with ((rfl | rfl) | hchild) | rfl
        · exact hhere _ (by simp)
        · exact hhere _ (by simp)
        · exact hbelow call hchild
        · exact hhere _ (by simp)
      · simp only [List.mem_append, List.mem_cons, List.not_mem_nil, or_false] at hcall
        rcases hcall with (rfl | rfl) | hchild
        · exact hhere _ (by simp)
        · exact hhere _ (by simp)
        · exact hbelow call hchild

theorem deleteEntries_below {dirs : List Segment} {path : List UInt8}
    (h : StrictlyBelow dirs path) (hlen : path.length < fullPathMax) :
    ∀ entries : Entries, entries.Plain →
      ((resolve path).length = dirs.length + 1 → ¬ CutToParent path entries.names) →
      ∀ call ∈ (deleteEntries path entries).2, ∀ p ∈ call.paths, StrictlyBelow dirs p
  | .nil, _, _ => by simp [deleteEntries]
  | .cons name found rest, hplain, hcut => by
      obtain ⟨hname, hfound, hrest⟩ := hplain
      rw [deleteEntries]
      rw [Entries.names] at hcut
      split
      · rename_i hskip
        rw [if_pos hskip] at hcut
        exact deleteEntries_below h hlen rest hrest hcut
      · rename_i hlisted
        rw [if_neg hlisted] at hcut
        obtain ⟨hdot, hparent⟩ := not_or.mp hlisted
        have hhead : (resolve path).length = dirs.length + 1 → path.length = fullPathMax - 4 →
            ¬ parent <+: name := fun hone hroom hup =>
          hcut hone ⟨hroom, name, List.mem_cons_self, hup⟩
        have htail : (resolve path).length = dirs.length + 1 → ¬ CutToParent path rest.names :=
          fun hone ⟨hroom, other, hmem, hup⟩ =>
            hcut hone ⟨hroom, other, List.mem_cons_of_mem _ hmem, hup⟩
        obtain ⟨hchild, hfull⟩ := h.child hlen hname hdot hparent hhead
        have hdeep := deleteRecursive_below hchild (length_childPath_lt path name) found hfound
          fun hone hbad => hfull hone hbad.1
        intro call hcall
        rcases List.mem_append.mp hcall with hcall | hcall
        · exact hdeep call hcall
        · exact deleteEntries_below h hlen rest hrest htail call hcall

end

theorem stat_mem_deleteRecursive (path : List UInt8) (found : Found) :
    FsCall.stat path ∈ (deleteRecursive path found).2 := by
  cases found with
  | missing | file _ | shut => simp [deleteRecursive]
  | dir entries removed =>
      rw [deleteRecursive]
      split <;> simp

theorem stat_child_mem_deleteEntries (path : List UInt8) {name : List UInt8} :
    ∀ entries : Entries, name ∈ entries.names →
      FsCall.stat (childPath path name) ∈ (deleteEntries path entries).2
  | .nil, hmem => absurd hmem List.not_mem_nil
  | .cons head found rest, hmem => by
      rw [Entries.names] at hmem
      rw [deleteEntries]
      split
      · rename_i hskip
        rw [if_pos hskip] at hmem
        exact stat_child_mem_deleteEntries path rest hmem
      · rename_i hlisted
        rw [if_neg hlisted] at hmem
        rcases List.mem_cons.mp hmem with rfl | hmem
        · exact List.mem_append_left _ (stat_mem_deleteRecursive _ found)
        · exact List.mem_append_right _ (stat_child_mem_deleteEntries path rest hmem)

theorem stat_child_mem_deleteRecursive (path : List UInt8) {name : List UInt8} {found : Found}
    (hmem : name ∈ found.names) :
    FsCall.stat (childPath path name) ∈ (deleteRecursive path found).2 := by
  cases found with
  | missing | file _ | shut => exact absurd hmem List.not_mem_nil
  | dir entries removed =>
      have hchild := stat_child_mem_deleteEntries path entries hmem
      rw [deleteRecursive]
      split
      · exact List.mem_append_left _ (List.mem_append_right _ hchild)
      · exact List.mem_append_right _ hchild

/-- The calls of the request stay at the root or below it; those of DELETE and MOVE below it. -/
def Confined (fs : Fs) (req : Request) (course : Course) : Prop :=
  ∀ call ∈ webdavCalls fs req course, ∀ path ∈ call.paths,
    Below (resolve fs.sdRoot) path ∧
      (methodOf fs req = some .delete ∨ methodOf fs req = some .move →
        resolve path ≠ resolve fs.sdRoot)

/-- The request does not name the root where it must not, and no name is cut to `..` where that
leads to the root or out of it. -/
def StaysWithin (fs : Fs) (req : Request) (course : Course) : Prop :=
  ∀ path, buildPath fs req.uri = some path →
    match methodOf fs req with
    | some .propfind =>
        resolve path = resolve fs.sdRoot → resolve fs.sdRoot ≠ [] →
          ¬ CutToParent path ((propfindNames fs req path course.sent).getD [])
    | some .delete =>
        resolve path ≠ resolve fs.sdRoot ∧
          (fs.stat path ≠ none → (resolve path).length = (resolve fs.sdRoot).length + 1 →
            ¬ CutToParent path course.found.names)
    | some .move =>
        ∀ dst, destinationOf fs req = some dst →
          resolve path ≠ resolve fs.sdRoot ∧ resolve dst ≠ resolve fs.sdRoot
    | some .get | some .put | some .mkcol | none => True

theorem plain_of_listed {fs : Fs}
    (hnames : ∀ path names, fs.opendir path = some names → ∀ name ∈ names, PlainName name)
    {req : Request} {path : List UInt8} {sent : Option Nat} {names : List (List UInt8)}
    (h : propfindNames fs req path sent = some names) {name : List UInt8} (hmem : name ∈ names) :
    PlainName name ∧ name ≠ ascii "." ∧ name ≠ ascii ".." := by
  unfold propfindNames at h
  split at h
  · split at h
    · cases h
      have hlisted := List.mem_of_mem_take hmem
      rw [listed, List.mem_filter] at hlisted
      refine ⟨?_, by simpa using hlisted.2⟩
      cases hopen : fs.opendir path with
      | none =>
          rw [hopen] at hlisted
          exact absurd hlisted.1 List.not_mem_nil
      | some names =>
          rw [hopen] at hlisted
          exact hnames path names hopen name hlisted.1
    · cases h
  · cases h

/-- A listing stays at the root or below it, unless it is one of the root in which a name is
cut. -/
theorem propfindCalls_below_iff {fs : Fs}
    (hnames : ∀ path names, fs.opendir path = some names → ∀ name ∈ names, PlainName name)
    (req : Request) (sent : Option Nat) {path : List UInt8}
    (h : Below (resolve fs.sdRoot) path) (hlen : path.length < fullPathMax) :
    (∀ call ∈ propfindCalls fs req path sent, ∀ p ∈ call.paths, Below (resolve fs.sdRoot) p) ↔
      (resolve path = resolve fs.sdRoot → resolve fs.sdRoot ≠ [] →
        ¬ CutToParent path ((propfindNames fs req path sent).getD [])) := by
  rw [propfindCalls]
  cases hopen : propfindNames fs req path sent with
  | none => simpa [FsCall.paths, CutToParent] using h
  | some names =>
      rw [Option.getD_some]
      constructor
      · rintro hall hroot hne ⟨hroom, name, hmem, hup⟩
        have hchild := hall (.stat (childPath path name))
          (List.mem_append_right _ (List.mem_map.mpr ⟨name, hmem, rfl⟩)) _ List.mem_cons_self
        rw [Below, resolve_childPath_cut hroom hup, hroot] at hchild
        have hlength := hchild.length_le
        rw [List.length_dropLast] at hlength
        have hpos := List.length_pos_iff.mpr hne
        omega
      · intro hcut call hcall p hp
        simp only [List.mem_append, List.mem_cons, List.not_mem_nil, or_false,
          List.mem_map] at hcall
        rcases hcall with (rfl | rfl) | ⟨name, hmem, rfl⟩
        · rwa [List.mem_singleton.mp hp]
        · rwa [List.mem_singleton.mp hp]
        · obtain ⟨hname, hdot, hparent⟩ := plain_of_listed hnames hopen hmem
          rw [List.mem_singleton.mp hp, Below]
          rcases childPath_cases hname hdot hparent hlen with
            ⟨seg, heq⟩ | ⟨-, heq | ⟨hroom, hup, heq⟩⟩
          · rw [heq]
            exact h.trans (List.prefix_append _ _)
          · rwa [heq]
          · rw [heq]
            by_cases hroot : resolve path = resolve fs.sdRoot
            · have hnil : resolve fs.sdRoot = [] := by
                by_contra hne
                exact hcut hroot hne ⟨hroom, name, hmem, hup⟩
              rw [hnil]
              exact List.nil_prefix
            · have hlt : (resolve fs.sdRoot).length < (resolve path).length :=
                StrictlyBelow.length_lt ⟨h, hroot⟩
              refine List.prefix_of_prefix_length_le h (List.dropLast_prefix _) ?_
              rw [List.length_dropLast]
              omega

/-- Deleting stays below the root, unless it is the root that is deleted, or a directory of the
root in which a name is cut. -/
theorem deleteCalls_below_iff {fs : Fs} {found : Found} (hfound : found.Plain) {path : List UInt8}
    (h : Below (resolve fs.sdRoot) path) (hlen : path.length < fullPathMax) :
    (∀ call ∈ deleteCalls fs path found, ∀ p ∈ call.paths, StrictlyBelow (resolve fs.sdRoot) p) ↔
      resolve path ≠ resolve fs.sdRoot ∧
        (fs.stat path ≠ none → (resolve path).length = (resolve fs.sdRoot).length + 1 →
          ¬ CutToParent path found.names) := by
  constructor
  · intro hall
    have hfirst : FsCall.stat path ∈ deleteCalls fs path found := by
      rw [deleteCalls]
      split <;> simp
    refine ⟨(hall _ hfirst path List.mem_cons_self).2, ?_⟩
    rintro hstat hone ⟨hroom, name, hmem, hup⟩
    obtain ⟨result, hresult⟩ := Option.ne_none_iff_exists'.mp hstat
    have hcall : FsCall.stat (childPath path name) ∈ deleteCalls fs path found := by
      rw [deleteCalls, hresult]
      exact List.mem_cons_of_mem _ (stat_child_mem_deleteRecursive path hmem)
    have hchild := (hall _ hcall _ List.mem_cons_self).2
    rw [resolve_childPath_cut hroom hup] at hchild
    have hlength : (resolve fs.sdRoot).length = ((resolve path).dropLast).length := by
      rw [List.length_dropLast]
      omega
    have hup : resolve fs.sdRoot <+: (resolve path).dropLast :=
      List.prefix_of_prefix_length_le h (List.dropLast_prefix _) hlength.le
    exact hchild (hup.eq_of_length hlength).symm
  · rintro ⟨hroot, hcut⟩ call hcall
    rw [deleteCalls] at hcall
    split at hcall
    · rw [List.mem_singleton.mp hcall]
      simpa [FsCall.paths] using ⟨h, hroot⟩
    · rename_i result hresult
      rcases List.mem_cons.mp hcall with rfl | hcall
      · simpa [FsCall.paths] using ⟨h, hroot⟩
      · exact deleteRecursive_below ⟨h, hroot⟩ hlen found hfound (hcut (by simp [hresult])) call
          hcall

/-- What `build_path` accepts is whole and leads to the root or below it.  For every request, with
whatever the card answers: all its calls on the file system stay at the root or below it, and
those of DELETE and MOVE below it, exactly if the request stays within. -/
theorem webdav_confined_iff (fs : Fs) (req : Request) (course : Course)
    (hnames : ∀ path names, fs.opendir path = some names → ∀ name ∈ names, PlainName name)
    (hfound : course.found.Plain) :
    (∀ uri path, buildPath fs uri = some path →
      (path = fs.sdRoot ++ uri ∨ path ++ [slash] = fs.sdRoot ++ uri) ∧
        Below (resolve fs.sdRoot) path) ∧
      (Confined fs req course ↔ StaysWithin fs req course) := by
  refine ⟨fun uri path h => ?_, ?_⟩
  · obtain ⟨hwhole, -, hbelow⟩ := buildPath_below h
    exact ⟨hwhole, hbelow⟩
  rw [Confined, StaysWithin]
  cases hbuild : buildPath fs req.uri with
  | none =>
      have hnone : webdavCalls fs req course = [] := by
        rw [webdavCalls, hbuild]
        cases methodOf fs req with
        | none => rfl
        | some method => cases method <;> rfl
      simp [hnone]
  | some path =>
      obtain ⟨-, hlen, hbelow⟩ := buildPath_below hbuild
      simp only [Option.some.injEq, forall_eq']
      rw [webdavCalls, hbuild]
      cases methodOf fs req with
      | none => simp
      | some method =>
          cases method with
          | propfind => simpa using propfindCalls_below_iff hnames req course.sent hbelow hlen
          | get =>
              simp only [getCalls]
              split <;> simpa [FsCall.paths] using hbelow
          | put =>
              simp only [putCalls]
              split_ifs <;> simpa [FsCall.paths] using hbelow
          | mkcol => simpa [FsCall.paths] using hbelow
          | delete => simpa [StrictlyBelow] using deleteCalls_below_iff hfound hbelow hlen
          | move =>
              simp only [moveCalls]
              cases hdst : destinationOf fs req with
              | none => simp
              | some dst =>
                  obtain ⟨uri, -, huri⟩ := Option.bind_eq_some_iff.mp hdst
                  have hdest := (buildPath_below huri).2.2
                  simp [FsCall.paths, hbelow, hdest]

/-- A card with two directories; what else is in the memory is zero. -/
def exampleFs : Fs where
  sdRoot := ascii "/sd"
  password := ascii "pw"
  ioSize := 4096
  stat := fun _ => some (true, 0)
  opendir := fun _ => some [ascii ".", ascii "..", ascii "photos", ascii "..notes.txt"]
  openRead := fun _ => none
  create := fun _ => false
  write := fun _ => false
  deleteRecursive := fun _ => true
  rename := fun _ _ => false
  mkdir := fun _ => false
  stack := fun _ => 0

/-- A request with the password of that card. -/
def exampleRequest (method : String) (uri : List UInt8) : Request where
  method := ascii method
  uri := uri
  version := ascii "HTTP/1.1"
  hdr := [(ascii "Authorization", ascii "Basic anBwZDpwdw==")]
  contentLen := 0
  keepAlive := true

/-- A directory with one file is found, and all children are looked at. -/
def exampleCourse : Course where
  found := .dir (.cons (ascii "a.jpg") (.file true) .nil) true
  sent := some 4
  broken := false

theorem plainName_exampleFs (path : List UInt8) (names : List (List UInt8))
    (h : exampleFs.opendir path = some names) : ∀ name ∈ names, PlainName name := by
  cases Option.some.inj h
  unfold PlainName
  decide

theorem plain_exampleCourse : exampleCourse.found.Plain :=
  ⟨⟨by decide, by decide⟩, trivial, trivial⟩

theorem webdav_confined_iff_delete :
    Confined exampleFs (exampleRequest "DELETE" (ascii "/photos/")) exampleCourse := by
  refine (webdav_confined_iff exampleFs _ exampleCourse plainName_exampleFs
    plain_exampleCourse).2.mpr fun path hpath => ?_
  have hbuild : buildPath exampleFs (ascii "/photos/") = some (ascii "/sd/photos") := by
    decide
  have hmethod : methodOf exampleFs (exampleRequest "DELETE" (ascii "/photos/")) =
      some .delete := by decide
  cases Option.some.inj (hbuild.symm.trans hpath)
  rw [hmethod]
  exact ⟨by decide, fun _ _ hcut => absurd hcut.1 (by decide)⟩

/-- A request for the root of 293 bytes. -/
def longRootUri : List UInt8 := slash :: (List.replicate 146 (ascii "/.")).flatten

/-- The root is listed by its long name; the name of a file in it is cut to `..`, and what is
looked at is the directory above the root. -/
theorem propfind_leaves_root :
    ¬ ∀ (fs : Fs) (req : Request) (course : Course),
      (∀ path names, fs.opendir path = some names → ∀ name ∈ names, PlainName name) →
        course.found.Plain → Confined fs req course := by
  intro h
  have hconfined := h exampleFs (exampleRequest "PROPFIND" longRootUri) exampleCourse
    plainName_exampleFs plain_exampleCourse
  have hcall : FsCall.stat (exampleFs.sdRoot ++ longRootUri ++ ascii "/..") ∈
      webdavCalls exampleFs (exampleRequest "PROPFIND" longRootUri) exampleCourse := by
    decide +kernel
  exact absurd (hconfined _ hcall _ List.mem_cons_self).1 (by decide)

/-- Two cards that answer these calls alike. -/
structure Fs.Alike (fs fs' : Fs) (calls : List FsCall) : Prop where
  sdRoot : fs'.sdRoot = fs.sdRoot
  password : fs'.password = fs.password
  ioSize : fs'.ioSize = fs.ioSize
  write : fs'.write = fs.write
  stack : fs'.stack = fs.stack
  stat : ∀ path, FsCall.stat path ∈ calls → fs'.stat path = fs.stat path
  opendir : ∀ path, FsCall.opendir path ∈ calls → fs'.opendir path = fs.opendir path
  openRead : ∀ path, FsCall.openRead path ∈ calls → fs'.openRead path = fs.openRead path
  create : ∀ path, FsCall.openWrite path ∈ calls → fs'.create path = fs.create path
  rename : ∀ src dst, FsCall.rename src dst ∈ calls → fs'.rename src dst = fs.rename src dst
  mkdir : ∀ path, FsCall.mkdir path ∈ calls → fs'.mkdir path = fs.mkdir path
  delete : fs'.deleteRecursive = fs.deleteRecursive

theorem Fs.Alike.buildPath {fs fs' : Fs} {calls : List FsCall} (h : fs.Alike fs' calls)
    (uri : List UInt8) : buildPath fs' uri = buildPath fs uri := by
  unfold Http.buildPath
  rw [h.sdRoot]

theorem Fs.Alike.methodOf {fs fs' : Fs} {calls : List FsCall} (h : fs.Alike fs' calls)
    (req : Request) : methodOf fs' req = methodOf fs req := by
  simp only [Http.methodOf, checkAuth, h.password]

theorem Fs.Alike.formatted {fs fs' : Fs} {calls : List FsCall} (h : fs.Alike fs' calls)
    (size : Nat) (text : List UInt8) : formatted fs' size text = formatted fs size text := by
  simp only [Http.formatted, h.stack]

section Footprint

variable {fs fs' : Fs} {c : Conn} {course : Course}

end Footprint

end Http
end JppDos
