import JppDos.Lib.Paths
import JppDos.Sdk.AppId
import JppDos.Sdk.Broker

/-!
# Paths of an app

The scan for a parent segment, the tests of the paths that apps pass, and the paths that
are built from them below the directories of an app.
-/

namespace JppDos
namespace Sdk

open CText Paths

/-- The loop of `jpp_str_has_parent_segment`; the flag says that the byte before is a slash
or that there is none. -/
def hasParentFrom (start : Bool) : List UInt8 → Bool
  | [] => false
  | c :: rest =>
      if c = dot ∧ rest.head? = some dot ∧ start = true ∧
          (rest.tail.head? = none ∨ rest.tail.head? = some slash) then true
      else hasParentFrom (c == slash) rest

/-- `jpp_str_has_parent_segment`. -/
def strHasParentSegment (path : CStr) : Bool := hasParentFrom true path.val

theorem takeWhile_eq_dot_iff {path : List UInt8} :
    path.takeWhile (· ≠ slash) = [dot] ↔
      path.head? = some dot ∧ (path.tail.head? = none ∨ path.tail.head? = some slash) := by
  cases path with
  | nil => simp
  | cons c rest =>
      by_cases hc : c = slash
      · subst hc
        simp [slash, dot]
      · rw [List.takeWhile_cons_of_pos (by simpa using hc)]
        cases rest with
        | nil => simp
        | cons d rest =>
            by_cases hd : d = slash
            · subst hd
              simp
            · rw [List.takeWhile_cons_of_pos (by simpa using hd)]
              simp [hd]

/-- The scan looks for a segment `..` from the next slash on, or from here. -/
theorem hasParentFrom_eq_true (path : List UInt8) :
    (hasParentFrom false path = true ↔ parent ∈ (segments path).tail) ∧
      (hasParentFrom true path = true ↔ parent ∈ segments path) := by
  induction path with
  | nil => simp [hasParentFrom, segments, parent]
  | cons c rest ih =>
      obtain ⟨ihFalse, ihTrue⟩ := ih
      by_cases hc : c = slash
      · subst hc
        have hne : slash ≠ dot := by decide
        rw [hasParentFrom, if_neg (fun h => hne h.1), hasParentFrom,
          if_neg (fun h => hne h.1), segments_slash]
        simp [ihTrue, parent]
      · obtain ⟨tail, htail⟩ := head_segments rest
        have hcons := segments_cons hc htail
        have hbeq : (c == slash) = false := by simpa using hc
        rw [htail, List.tail_cons] at ihFalse
        rw [hcons, List.tail_cons]
        constructor
        · rw [hasParentFrom, if_neg (by simp), hbeq, ihFalse]
        · rw [hasParentFrom, hbeq, List.mem_cons]
          split
          · rename_i hhere
            obtain ⟨rfl, hhead, -, hend⟩ := hhere
            rw [takeWhile_eq_dot_iff.mpr ⟨hhead, hend⟩]
            simp [parent]
          · rename_i hnot
            rw [ihFalse]
            refine ⟨Or.inr, ?_⟩
            rintro (heq | hmem)
            · obtain ⟨hdot, hfirst⟩ := List.cons.inj heq
              obtain ⟨hhead, hend⟩ := takeWhile_eq_dot_iff.mp hfirst.symm
              exact absurd ⟨hdot.symm, hhead, rfl, hend⟩ hnot
            · exact hmem

/-- The scan finds exactly the segments `..`. -/
theorem strHasParentSegment_eq_true (path : CStr) :
    strHasParentSegment path = true ↔ parent ∈ segments path.val :=
  (hasParentFrom_eq_true path.val).2

/-- `jpp_sdk_relative_path_is_valid`; `none` is the null pointer. -/
def relativePathIsValid (path : Option CStr) : Bool :=
  match path with
  | none => false
  | some path =>
      if path.val = [] then false
      else if path.val.dropWhile (· = slash) = [] then false
      else !strHasParentSegment path

/-- `jpp_sdk_full_path_is_valid`. -/
def fullPathIsValid (path : Option CStr) : Bool :=
  match path with
  | none => false
  | some path =>
      if path.val = [] then false
      else if path.val.take 4 ≠ ascii "/sd/" then false
      else if path.val.drop 4 = [] then false
      else !strHasParentSegment path

/-- `jpp_sdk_build_app_path`, in the context of the given app. -/
def buildAppPath (appId : CStr) (root : CStr) (relativePath : Option CStr) :
    SdkStatus × List UInt8 :=
  match relativePath with
  | none => (.invalidArgument, [])
  | some path =>
      if !relativePathIsValid (some path) then (.invalidArgument, [])
      else
        let relative := path.val.dropWhile (· = slash)
        if sdkPathMax < root.strlen + 1 + appId.strlen + 1 + relative.length + 1 then
          (.textTruncated, [])
        else (.ok, root.val ++ slash :: appId.val ++ slash :: relative)

/-- `/sd/apps`. -/
def appsRoot : CStr := CStr.ofBytes (ascii "/sd/apps")

/-- `/sd/shared`. -/
def sharedRoot : CStr := CStr.ofBytes (ascii "/sd/shared")

/-- `jpp_sdk_build_scoped_path`. -/
def buildScopedPath (appId : CStr) (relativePath : Option CStr) : SdkStatus × List UInt8 :=
  buildAppPath appId appsRoot relativePath

/-- `jpp_sdk_build_shared_path`. -/
def buildSharedPath (appId : CStr) (relativePath : Option CStr) : SdkStatus × List UInt8 :=
  buildAppPath appId sharedRoot relativePath

theorem isName_of_strNameValid {name : CStr} (h : strNameValid name = true) :
    IsName name.val := by
  obtain ⟨c, rest, hname, hdot⟩ := strNameValid_head h
  refine ⟨by rw [hname]; simp, ?_, ?_, ?_⟩
  · rw [hname]
    exact fun heq => hdot (List.cons.inj heq).1
  · rw [hname]
    exact fun heq => hdot (List.cons.inj heq).1
  · intro hslash
    rcases strNameValid_mem h hslash with hbad | hbad
    · exact absurd hbad (by decide)
    · exact absurd hbad (by decide)

theorem segments_dropWhile (path : List UInt8) :
    ∀ seg ∈ segments (path.dropWhile (· = slash)), seg ∈ segments path := by
  induction path with
  | nil => exact fun seg h => h
  | cons c rest ih =>
      intro seg hseg
      by_cases hc : c = slash
      · subst hc
        rw [List.dropWhile_cons_of_pos (by simp)] at hseg
        rw [segments_slash]
        exact List.mem_cons_of_mem _ (ih seg hseg)
      · rwa [List.dropWhile_cons_of_neg (by simpa using hc)] at hseg

/-- A path that is built is the root, the app and the whole of the path that was passed, and
that path has no parent segment. -/
theorem buildAppPath_ok {appId root : CStr} {relativePath : Option CStr} {path : List UInt8}
    (h : buildAppPath appId root relativePath = (.ok, path)) :
    ∃ p : CStr, relativePath = some p ∧ parent ∉ segments p.val ∧
      path = root.val ++ slash :: appId.val ++ slash :: p.val.dropWhile (· = slash) ∧
      path.length < sdkPathMax := by
  cases relativePath with
  | none => exact absurd h (by simp [buildAppPath])
  | some p =>
      rw [buildAppPath] at h
      split at h
      · exact absurd h (by simp)
      rename_i hvalid
      simp only at h
      split at h
      · exact absurd h (by simp)
      rename_i hlen
      obtain ⟨-, rfl⟩ := Prod.mk.inj h
      refine ⟨p, rfl, ?_, rfl, ?_⟩
      · simp only [relativePathIsValid, Bool.not_eq_true', Bool.not_eq_false] at hvalid
        split at hvalid
        · exact absurd hvalid (by simp)
        split at hvalid
        · exact absurd hvalid (by simp)
        rw [← strHasParentSegment_eq_true]
        simpa using hvalid
      · simp only [CStr.strlen] at hlen
        simp only [List.length_append, List.length_cons]
        omega

/-- A path that is built leads below the app's directory. -/
theorem buildAppPath_below {appId root : CStr} (hid : strNameValid appId = true)
    {relativePath : Option CStr} {path : List UInt8}
    (h : buildAppPath appId root relativePath = (.ok, path)) :
    Below (resolve root.val ++ [appId.val]) path := by
  obtain ⟨p, -, hparent, rfl, -⟩ := buildAppPath_ok h
  rw [← resolve_join_name root.val (isName_of_strNameValid hid)]
  exact below_join fun hmem => hparent (segments_dropWhile p.val _ hmem)

end Sdk
end JppDos
