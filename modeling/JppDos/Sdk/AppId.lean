import JppDos.Lib.CText

/-!
# App identities

The names that apps may have: identifiers joined by single dots, which are also the
names of the directories the apps live in.
-/

namespace JppDos
namespace Sdk

open CText

/-- A letter, a digit or an underscore. -/
def isNameChar (c : UInt8) : Bool :=
  (97 ≤ c && c ≤ 122) || (65 ≤ c && c ≤ 90) || (48 ≤ c && c ≤ 57) || c == 95

/-- The loop of `jpp_str_name_valid`. -/
def nameValidFrom (previousWasDot : Bool) : List UInt8 → Bool
  | [] => true
  | c :: rest =>
      if c = 46 then
        if previousWasDot || rest.isEmpty then false else nameValidFrom true rest
      else if isNameChar c then nameValidFrom false rest
      else false

/-- `jpp_str_name_valid`. -/
def strNameValid (name : CStr) : Bool :=
  match name.val with
  | [] => false
  | c :: rest => if c = 46 then false else nameValidFrom false (c :: rest)

/-- `jpp_sdk_app_id_is_valid`. -/
def appIdIsValid (appId : CStr) : Bool :=
  if !strNameValid appId || appId == CStr.ofBytes (ascii "settings") then false else true

/-- `JPP_SDK_APP_ID_MAX`. -/
def appIdMax : Nat := 64

/-- `JPP_SDK_PATH_MAX`. -/
def sdkPathMax : Nat := 160

/-- The identity of a bound context. -/
abbrev AppId := { id : CStr // appIdIsValid id = true ∧ id.strlen < appIdMax }

theorem nameValidFrom_mem {dot : Bool} {name : List UInt8} (h : nameValidFrom dot name = true)
    {c : UInt8} (hc : c ∈ name) : c = 46 ∨ isNameChar c = true := by
  induction name generalizing dot with
  | nil => exact absurd hc (by simp)
  | cons first rest ih =>
      rw [nameValidFrom] at h
      split at h
      · rename_i hdot
        split at h
        · exact absurd h (by simp)
        · rcases List.mem_cons.mp hc with rfl | hc
          · exact Or.inl hdot
          · exact ih h hc
      · split at h
        · rename_i hname
          rcases List.mem_cons.mp hc with rfl | hc
          · exact Or.inr hname
          · exact ih h hc
        · exact absurd h (by simp)

theorem strNameValid_mem {name : CStr} (h : strNameValid name = true) {c : UInt8}
    (hc : c ∈ name.val) : c = 46 ∨ isNameChar c = true := by
  rw [strNameValid] at h
  split at h
  · exact absurd h (by simp)
  · rename_i first rest hname
    split at h
    · exact absurd h (by simp)
    · exact nameValidFrom_mem h (hname ▸ hc)

/-- A valid name begins with a character that is no dot. -/
theorem strNameValid_head {name : CStr} (h : strNameValid name = true) :
    ∃ c rest, name.val = c :: rest ∧ c ≠ 46 := by
  rw [strNameValid] at h
  split at h
  · exact absurd h (by simp)
  · rename_i c rest hname
    split at h
    · exact absurd h (by simp)
    · rename_i hdot
      exact ⟨c, rest, hname, hdot⟩

theorem appIdIsValid_name {appId : CStr} (h : appIdIsValid appId = true) :
    strNameValid appId = true := by
  rw [appIdIsValid] at h
  split at h
  · exact absurd h (by simp)
  · rename_i hvalid
    simp only [Bool.or_eq_true, not_or, Bool.not_eq_true'] at hvalid
    simpa using hvalid.1

end Sdk
end JppDos
