import Mathlib.Algebra.Order.BigOperators.Group.List
import Mathlib.Algebra.Order.Ring.Nat
import Mathlib.Data.List.Infix
import Mathlib.Logic.Function.Basic
import JppDos.Sdk.AppId

/-!
# Grants

The capabilities that an app may declare, the files that keep what the user has granted,
and the partition of the declared capabilities when an app is launched.

Main fact:
* `applyConsent_sound`: what is granted at a launch is saved for the app, and what is
  pending is declared.
-/

namespace JppDos
namespace Sdk

open CText

/-- A string literal of the source. -/
def lit (s : String) : CStr := CStr.ofBytes (ascii s)

/-- `TIER1_CAPS`. -/
def tier1Caps : List CStr :=
  [lit "http.request", lit "https.request", lit "ble.scan", lit "ble.advertise",
    lit "background.register", lit "esp_now"]

/-- The capabilities that are granted for one session only. -/
def tier2Caps : List CStr :=
  [lit "files.full", lit "network.bind", lit "network.connect", lit "ble.connect",
    lit "ble.host"]

/-- `cap_tier`. -/
def capTier (cap : CStr) : Nat := if cap ∈ tier1Caps then 1 else 2

/-- `jpp_manifest_v2_is_allowed_capability`. -/
def isAllowedCapability (cap : CStr) : Bool := decide (cap ∈ tier1Caps ++ tier2Caps)

theorem strlen_of_allowed {cap : CStr} (h : isAllowedCapability cap = true) :
    cap.strlen < 32 := by
  have hall : ∀ cap ∈ tier1Caps ++ tier2Caps, CStr.strlen cap < 32 := by decide
  exact hall cap (of_decide_eq_true h)

theorem mem_tier1Caps_of_capTier {cap : CStr} (h : capTier cap = 1) : cap ∈ tier1Caps := by
  rw [capTier] at h
  split at h
  · assumption
  · exact absurd h (by simp)

/-- The files below `/data/grants`, by their paths. -/
abbrev GrantFiles := List UInt8 → Option (List UInt8)

/-- The path of an app's grant file, in its buffer. -/
def grantsPath (appId : CStr) : List UInt8 :=
  (ascii "/data/grants/" ++ appId.val ++ ascii ".json").take 95

/-- A capability between quotes. -/
def quoted (cap : CStr) : List UInt8 := 34 :: cap.val ++ [34]

/-- `grant_is_persisted`: the capability stands between quotes in the part of the file that
is read. -/
def grantIsPersisted (files : GrantFiles) (appId cap : CStr) : Bool :=
  match files (grantsPath appId) with
  | none => false
  | some text => decide ((quoted cap).take 63 <:+: cString (text.take 255))

/-- The list that a grant file holds. -/
def grantText (caps : List CStr) : List UInt8 :=
  91 :: ((caps.map quoted).intersperse [44]).flatten ++ [93]

/-- `grant_persist`. -/
def grantPersist (files : GrantFiles) (appId cap : CStr) : GrantFiles :=
  let granted := tier1Caps.filter fun c => grantIsPersisted files appId c || c == cap
  Function.update files (grantsPath appId) (some (grantText granted))

/-- The list of a grant file, from its first capability on. -/
theorem grantText_cons (cap : CStr) (caps : List CStr) :
    grantText (cap :: caps) =
      91 :: (quoted cap ++ (caps.flatMap fun next => 44 :: quoted next) ++ [93]) := by
  have hlist : (((cap :: caps).map quoted).intersperse [44]).flatten =
      quoted cap ++ caps.flatMap fun next => 44 :: quoted next := by
    induction caps generalizing cap with
    | nil => simp
    | cons next caps ih =>
        have hrest := ih next
        rw [List.map_cons] at hrest
        rw [List.map_cons, List.map_cons, List.intersperse_cons_cons, List.flatten_cons,
          List.flatten_cons, hrest, List.flatMap_cons]
        rfl
  rw [grantText, hlist, List.cons_append]

/-- The pieces behind the first capability, between the quotes. -/
theorem mem_splitOn_grantList {caps : List CStr} (hquotes : ∀ cap ∈ caps, 34 ∉ cap.val)
    {piece : List UInt8}
    (h : piece ∈ (caps.flatMap (fun next => 44 :: quoted next) ++ [93]).splitOn 34) :
    piece ∈ caps.map Subtype.val ∨ piece ∈ [[44], [93]] := by
  induction caps with
  | nil =>
      rw [List.flatMap_nil, List.nil_append, List.splitOn_eq_singleton (by decide)] at h
      exact Or.inr (List.mem_cons_of_mem _ h)
  | cons cap caps ih =>
      have hsplit : (((cap :: caps).flatMap fun next => 44 :: quoted next) ++ [93]).splitOn 34 =
          [44] :: cap.val :: ((caps.flatMap fun next => 44 :: quoted next) ++ [93]).splitOn 34 := by
        have hcap := hquotes cap List.mem_cons_self
        rw [← List.splitOn_append_cons_self_of_not_mem hcap,
          ← List.splitOn_append_cons_self_of_not_mem (by decide : (34 : UInt8) ∉ [44])]
        simp [quoted]
      rw [hsplit, List.mem_cons, List.mem_cons] at h
      rcases h with rfl | rfl | h
      · exact Or.inr List.mem_cons_self
      · exact Or.inl List.mem_cons_self
      · refine (ih (fun c hc => hquotes c (List.mem_cons_of_mem _ hc)) h).imp_left fun hmem => ?_
        exact List.mem_cons_of_mem _ hmem

/-- A capability between quotes stands in a list exactly if it is one of those listed. -/
theorem quoted_infix_iff {caps : List CStr} (hquotes : ∀ c ∈ caps, 34 ∉ c.val) {cap : CStr}
    (hquote : 34 ∉ cap.val) (hplain : cap.val ∉ [[44], [93], [91]]) :
    quoted cap <:+: grantText caps ↔ cap ∈ caps := by
  constructor
  · rintro ⟨front, behind, htext⟩
    have hmem : cap.val ∈ (grantText caps).splitOn 34 := by
      have hpieces : front ++ quoted cap ++ behind =
          front ++ 34 :: (cap.val ++ 34 :: behind) := by simp [quoted]
      rw [← htext, hpieces, List.splitOn_append_cons_self,
        List.splitOn_append_cons_self_of_not_mem hquote]
      exact List.mem_append_right _ List.mem_cons_self
    cases caps with
    | nil =>
        have hin : (34 : UInt8) ∈ grantText [] := by rw [← htext]; simp [quoted]
        exact absurd hin (by decide)
    | cons first caps =>
        have hfirst := hquotes first List.mem_cons_self
        have hsplit : (grantText (first :: caps)).splitOn 34 = [91] :: first.val ::
            ((caps.flatMap fun next => 44 :: quoted next) ++ [93]).splitOn 34 := by
          rw [← List.splitOn_append_cons_self_of_not_mem hfirst,
            ← List.splitOn_append_cons_self_of_not_mem (by decide : (34 : UInt8) ∉ [91]),
            grantText_cons]
          simp [quoted]
        rw [hsplit, List.mem_cons, List.mem_cons] at hmem
        rcases hmem with h91 | hsame | hmem
        · exact absurd (by rw [h91]; decide) hplain
        · exact List.mem_cons.mpr (Or.inl (Subtype.ext hsame))
        · rcases mem_splitOn_grantList (fun c hc => hquotes c (List.mem_cons_of_mem _ hc)) hmem
            with hin | hin
          · obtain ⟨c, hc, hval⟩ := List.mem_map.mp hin
            exact List.mem_cons_of_mem _ (Subtype.ext hval ▸ hc)
          · exact absurd (List.mem_append_left [[91]] hin) hplain
  · intro hcap
    cases caps with
    | nil => exact absurd hcap List.not_mem_nil
    | cons first caps =>
        rw [grantText_cons, ← List.singleton_append, List.append_assoc]
        rcases List.mem_cons.mp hcap with rfl | hin
        · exact ⟨[91], _, (List.append_assoc _ _ _)⟩
        · have hlist : 44 :: quoted cap <:+: caps.flatMap fun next => 44 :: quoted next := by
            rw [List.flatMap_def]
            exact List.infix_of_mem_flatten (List.mem_map_of_mem hin)
          refine ((List.suffix_cons 44 (quoted cap)).isInfix.trans hlist).trans ?_
          exact ⟨[91] ++ quoted first, [93], by simp only [List.append_assoc]⟩

/-- A list of capabilities is printed in two characters more than they have, with three for each
of them. -/
theorem length_grantText_le (caps : List CStr) :
    (grantText caps).length ≤ 2 + (caps.map fun c => c.strlen + 3).sum := by
  cases caps with
  | nil => decide
  | cons first caps =>
      have hrest : (caps.flatMap fun next => 44 :: quoted next).length =
          (caps.map fun c => c.strlen + 3).sum := by
        rw [List.length_flatMap]
        refine congrArg List.sum (List.map_congr_left fun c _ => ?_)
        simp [quoted, CStr.strlen]
      have hfirst : (quoted first).length = first.strlen + 2 := by
        simp [quoted, CStr.strlen]
      simp only [grantText_cons, List.length_cons, List.length_append, List.length_nil, hrest,
        hfirst, List.map_cons, List.sum_cons]
      omega

theorem zero_notMem_grantText (caps : List CStr) : 0 ∉ grantText caps := by
  have hquoted : ∀ c : CStr, 0 ∉ quoted c := fun c => by simp [quoted, c.property]
  cases caps with
  | nil => decide
  | cons first caps => simp [grantText_cons, hquoted]

/-- What a grant file holds is found in it, and nothing else. -/
theorem quoted_infix_grantText {caps : List CStr} (hcaps : List.Sublist caps tier1Caps)
    {cap : CStr} (hcap : cap ∈ tier1Caps) :
    (quoted cap).take 63 <:+: cString ((grantText caps).take 255) ↔ cap ∈ caps := by
  have hplain : ∀ c ∈ tier1Caps, 34 ∉ c.val ∧ c.strlen < 32 ∧
      c.val ∉ [[44], [93], [91]] := by
    decide
  have hquotes : ∀ c ∈ caps, 34 ∉ c.val := fun c hc => (hplain c (hcaps.mem hc)).1
  obtain ⟨hquote, hshort, hnone⟩ := hplain cap hcap
  have hlength : (quoted cap).length ≤ 63 := by
    have hval : cap.val.length < 32 := hshort
    simp only [quoted, List.length_append, List.length_cons, List.length_nil]
    omega
  have hsum : (caps.map fun c => c.strlen + 3).sum ≤ 200 :=
    Nat.le_trans ((hcaps.map _).sum_le_sum fun _ _ => Nat.zero_le _) (by decide)
  have htext := length_grantText_le caps
  have hwhole : cString (grantText caps) = grantText caps :=
    List.takeWhile_eq_self_iff.mpr fun c hc => decide_eq_true fun hzero =>
      zero_notMem_grantText caps (hzero ▸ hc)
  rw [List.take_of_length_le hlength, List.take_of_length_le (by omega), hwhole]
  exact quoted_infix_iff hquotes hquote hnone

theorem grantsPath_injective {id id' : CStr} (h : id.strlen < appIdMax)
    (h' : id'.strlen < appIdMax) (heq : grantsPath id = grantsPath id') : id = id' := by
  have hlen : ∀ id : CStr, id.strlen < appIdMax →
      grantsPath id = ascii "/data/grants/" ++ id.val ++ ascii ".json" := by
    intro id hid
    refine List.take_of_length_le ?_
    have hprefix : (ascii "/data/grants/").length = 13 := by decide
    have hsuffix : (ascii ".json").length = 5 := by decide
    simp only [CStr.strlen, appIdMax] at hid
    simp only [List.length_append, hprefix, hsuffix]
    omega
  rw [hlen id h, hlen id' h'] at heq
  exact Subtype.ext (List.append_cancel_left (List.append_cancel_right heq))

/-- A grant that is saved is read back, and no other one is gained or lost by it. -/
theorem grantIsPersisted_grantPersist (files : GrantFiles) {appId id : CStr}
    (happ : appId.strlen < appIdMax) (hid : id.strlen < appIdMax) (cap : CStr) {c : CStr}
    (hc : c ∈ tier1Caps) :
    grantIsPersisted (grantPersist files appId cap) id c = true ↔
      grantIsPersisted files id c = true ∨ id = appId ∧ c = cap := by
  by_cases hsame : id = appId
  · subst hsame
    rw [grantIsPersisted, grantPersist, Function.update_self]
    simp only [decide_eq_true_eq]
    rw [quoted_infix_grantText List.filter_sublist hc, List.mem_filter]
    simp [hc, Subtype.ext_iff]
  · have hpath : grantsPath id ≠ grantsPath appId := fun heq =>
      hsame (grantsPath_injective hid happ heq)
    rw [grantIsPersisted, grantPersist, Function.update_of_ne hpath, ← grantIsPersisted]
    simp [hsame]

/-- `JPP_SDK_PENDING_CAP_MAX`. -/
def pendingCapMax : Nat := 16

/-- The capabilities that are granted at a launch, by their slots in the manifest's
buffer, and those that are pending, with their tiers. -/
structure Consent where
  caps : List Nat
  pending : List (CStr × Nat)
  deriving DecidableEq

/-- One turn of the loop of `apply_consent`, for the capability in a slot. -/
def consentTurn (files : GrantFiles) (appId : CStr) (consent : Consent) :
    CStr × Nat → Consent
  | (cap, slot) =>
      let tier := capTier cap
      if tier = 1 ∧ grantIsPersisted files appId cap = true then
        { consent with caps := consent.caps ++ [slot] }
      else if consent.pending.length < pendingCapMax then
        { consent with pending := consent.pending ++ [(cap, tier)] }
      else consent

/-- `apply_consent`. -/
def applyConsent (files : GrantFiles) (appId : CStr) (declared : List CStr) : Consent :=
  declared.zipIdx.foldl (consentTurn files appId) { caps := [], pending := [] }

/-- What the loop of `apply_consent` has found in the part of a list that it has read. -/
structure Consent.Sound (files : GrantFiles) (appId : CStr) (declared : List (CStr × Nat))
    (consent : Consent) : Prop where
  caps : ∀ slot ∈ consent.caps, ∃ cap, (cap, slot) ∈ declared ∧ cap ∈ tier1Caps ∧
    grantIsPersisted files appId cap = true
  pending : ∀ p ∈ consent.pending, (∃ slot, (p.1, slot) ∈ declared) ∧ p.2 = capTier p.1
  length : consent.pending.length ≤ pendingCapMax

theorem Consent.Sound.turn {files : GrantFiles} {appId : CStr} {declared : List (CStr × Nat)}
    {consent : Consent} (h : Consent.Sound files appId declared consent)
    {entry : CStr × Nat} (hentry : entry ∈ declared) :
    Consent.Sound files appId declared (consentTurn files appId consent entry) := by
  obtain ⟨cap, slot⟩ := entry
  rw [consentTurn]
  split
  · rename_i htier
    refine ⟨?_, h.pending, h.length⟩
    intro s hs
    rcases List.mem_append.mp hs with hs | hs
    · exact h.caps s hs
    · rw [List.mem_singleton.mp hs]
      exact ⟨cap, hentry, mem_tier1Caps_of_capTier htier.1, htier.2⟩
  split
  · rename_i hroom
    refine ⟨h.caps, ?_, ?_⟩
    · intro p hp
      rcases List.mem_append.mp hp with hp | hp
      · exact h.pending p hp
      · rw [List.mem_singleton.mp hp]
        exact ⟨⟨slot, hentry⟩, rfl⟩
    · rw [List.length_append, List.length_singleton]
      exact hroom
  · exact h

/-- What is granted at a launch is saved for the app, and what is pending is declared. -/
theorem applyConsent_sound (files : GrantFiles) (appId : CStr) (declared : List CStr) :
    Consent.Sound files appId declared.zipIdx (applyConsent files appId declared) := by
  have hfold : ∀ (todo : List (CStr × Nat)) (consent : Consent),
      Consent.Sound files appId declared.zipIdx consent → todo ⊆ declared.zipIdx →
      Consent.Sound files appId declared.zipIdx
        (todo.foldl (consentTurn files appId) consent) := by
    intro todo
    induction todo with
    | nil => exact fun consent h _ => h
    | cons entry todo ih =>
        intro consent h hsub
        obtain ⟨hentry, hrest⟩ := List.cons_subset.mp hsub
        exact ih _ (h.turn hentry) hrest
  exact hfold _ _ ⟨by simp, by simp, by simp⟩ (List.Subset.refl _)

end Sdk
end JppDos
