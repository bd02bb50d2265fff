import JppDos.Lib.Numerals

/-!
# URLs

The parts of an URL as far as they say which server it leads to: the scheme in front of
`://`, and the authority behind it, which ends at the first slash, question mark or number
sign and has user information in front of an at sign, a host, and a port behind a colon.

The query of an URL: the characters that it may have, the octets that a percent sign spells, and
its parameters with their names.

Main fact:
* `hostPort_of_not_mem`: without an at sign the authority is the host and the port.
-/

namespace JppDos
namespace Url

open CText Numerals

/-- The colon. -/
def colon : UInt8 := 58

/-- The at sign. -/
def atSign : UInt8 := 64

/-- What stands between a scheme and an authority. -/
def schemeEnd : List UInt8 := [58, 47, 47]

/-- A slash, a question mark or a number sign. -/
def endsAuthority (c : UInt8) : Bool := c = 47 || c = 63 || c = 35

/-- The scheme of an URL and what follows it. -/
def splitScheme (url : List UInt8) : Option (List UInt8 × List UInt8) :=
  let scheme := url.takeWhile (· ≠ colon)
  let rest := url.dropWhile (· ≠ colon)
  if rest.take 3 = schemeEnd then some (scheme, rest.drop 3) else none

/-- The authority at the front of what follows the scheme. -/
def authority (rest : List UInt8) : List UInt8 := rest.takeWhile fun c => !endsAuthority c

/-- The host and the port of an authority. -/
def hostPort (auth : List UInt8) : List UInt8 := (afterLast atSign auth).getD auth

/-- The host of an authority. -/
def host (auth : List UInt8) : List UInt8 := (hostPort auth).takeWhile (· ≠ colon)

/-- The text of the port of an authority, if there is one. -/
def portText (auth : List UInt8) : Option (List UInt8) :=
  match (hostPort auth).dropWhile (· ≠ colon) with
  | [] => none
  | _ :: text => some text

/-- The number of a port, unless its text is malformed. -/
def readPort (text : List UInt8) : Option Nat :=
  match readBase 10 text with
  | some port => if 1 ≤ port ∧ port ≤ 65535 then some port else none
  | none => none

/-- The port that an authority leads to, unless it is malformed. -/
def effectivePort (default : Nat) (auth : List UInt8) : Option Nat :=
  match portText auth with
  | none => some default
  | some text => readPort text

/-- The scheme and what follows are the parts in front of and behind the first `://`. -/
theorem splitScheme_iff {url scheme rest : List UInt8} :
    splitScheme url = some (scheme, rest) ↔ url = scheme ++ schemeEnd ++ rest ∧ colon ∉ scheme := by
  have hsplit := List.takeWhile_append_dropWhile (p := (· ≠ colon)) (l := url)
  constructor
  · intro h
    simp only [splitScheme] at h
    split_ifs at h with hend
    obtain ⟨rfl, rfl⟩ := Prod.mk.inj (Option.some.inj h)
    constructor
    · rw [List.append_assoc, ← hend, List.take_append_drop]
      exact hsplit.symm
    · intro hmem
      simpa using List.mem_takeWhile_imp hmem
  · rintro ⟨rfl, hcolon⟩
    have hall : ∀ c ∈ scheme, decide (c ≠ colon) = true := fun c hc =>
      decide_eq_true fun heq => hcolon (heq ▸ hc)
    have htake : (scheme ++ schemeEnd ++ rest).takeWhile (· ≠ colon) = scheme := by
      rw [List.append_assoc, List.takeWhile_append_of_pos hall]
      simp [schemeEnd, colon]
    have hdrop : (scheme ++ schemeEnd ++ rest).dropWhile (· ≠ colon) = schemeEnd ++ rest := by
      rw [List.append_assoc, List.dropWhile_append_of_pos hall]
      simp [schemeEnd, colon]
    simp only [splitScheme, htake, hdrop]
    simp [schemeEnd]

theorem authority_of_forall {auth : List UInt8} (h : ∀ c ∈ auth, endsAuthority c = false) :
    authority auth = auth :=
  List.takeWhile_eq_self_iff.mpr fun c hc => by simp [h c hc]

/-- Without an at sign the authority is the host and the port. -/
theorem hostPort_of_not_mem {auth : List UInt8} (h : atSign ∉ auth) : hostPort auth = auth := by
  rw [hostPort, afterLast_of_not_mem h, Option.getD_none]

theorem effectivePort_append {auth h text : List UInt8} (default : Nat) (hat : atSign ∉ auth)
    (hauth : auth = h ++ colon :: text) (hcolon : colon ∉ h) :
    host auth = h ∧ effectivePort default auth = readPort text := by
  have hall : ∀ c ∈ h, decide (c ≠ colon) = true := fun c hc =>
    decide_eq_true fun heq => hcolon (heq ▸ hc)
  constructor
  · rw [host, hostPort_of_not_mem hat, hauth, List.takeWhile_append_of_pos hall]
    simp
  · rw [effectivePort, portText, hostPort_of_not_mem hat, hauth,
      List.dropWhile_append_of_pos hall]
    simp

theorem effectivePort_host {auth : List UInt8} (default : Nat) (hat : atSign ∉ auth)
    (hcolon : colon ∉ auth) : host auth = auth ∧ effectivePort default auth = some default := by
  have hall : ∀ c ∈ auth, decide (c ≠ colon) = true := fun c hc =>
    decide_eq_true fun heq => hcolon (heq ▸ hc)
  constructor
  · rw [host, hostPort_of_not_mem hat, List.takeWhile_eq_self_iff.mpr hall]
  · rw [effectivePort, portText, hostPort_of_not_mem hat, List.dropWhile_eq_nil_iff.mpr hall]

/-- A letter, a digit, or one of `-._~`. -/
def isUnreserved (c : UInt8) : Bool :=
  (65 ≤ c.toNat && c.toNat ≤ 90) || (97 ≤ c.toNat && c.toNat ≤ 122) ||
    (48 ≤ c.toNat && c.toNat ≤ 57) || c = 45 || c = 95 || c = 46 || c = 126

/-- A character that stands for itself in a query: beside the unreserved ones one of
`!$&'()*+,;=:@/?`. -/
def isQueryChar (c : UInt8) : Bool :=
  isUnreserved c || c = 33 || c = 36 || (38 ≤ c.toNat && c.toNat ≤ 44) || c = 59 || c = 61 ||
    c = 58 || c = 64 || c = 47 || c = 63

/-- A query: characters that stand for themselves, and octets spelled with a percent sign. -/
def queryLegal : List UInt8 → Bool
  | [] => true
  | c :: rest =>
      if c = 37 then
        match rest with
        | h :: l :: rest => (hexVal h).isSome && (hexVal l).isSome && queryLegal rest
        | _ => false
      else isQueryChar c && queryLegal rest

/-- An octet, spelled with a percent sign unless it is unreserved. -/
def percentByte (c : UInt8) : List UInt8 := if isUnreserved c then [c] else 37 :: upperByte c

/-- A text with its reserved octets spelled with percent signs. -/
def percentEncode (text : List UInt8) : List UInt8 := text.flatMap percentByte

/-- The octets of a text with percent signs. -/
def percentDecode : List UInt8 → Option (List UInt8)
  | [] => some []
  | c :: rest =>
      if c = 37 then
        match rest with
        | h :: l :: rest =>
            match hexVal h, hexVal l with
            | some hi, some lo =>
                (percentDecode rest).map fun bytes => UInt8.ofNat (16 * hi + lo) :: bytes
            | _, _ => none
        | _ => none
      else (percentDecode rest).map fun bytes => c :: bytes

theorem queryLegal_percent (h l : UInt8) (rest : List UInt8) :
    queryLegal (37 :: h :: l :: rest) =
      ((hexVal h).isSome && (hexVal l).isSome && queryLegal rest) := rfl

theorem queryLegal_cons {c : UInt8} (hc : c ≠ 37) (rest : List UInt8) :
    queryLegal (c :: rest) = (isQueryChar c && queryLegal rest) := by
  rw [queryLegal.eq_def]
  exact if_neg hc

theorem percentDecode_percent {h l : UInt8} {hi lo : Nat} (hh : hexVal h = some hi)
    (hl : hexVal l = some lo) (rest : List UInt8) :
    percentDecode (37 :: h :: l :: rest) =
      (percentDecode rest).map fun bytes => UInt8.ofNat (16 * hi + lo) :: bytes := by
  rw [percentDecode.eq_def]
  simp only [if_true, hh, hl]

theorem percentDecode_cons {c : UInt8} (hc : c ≠ 37) (rest : List UInt8) :
    percentDecode (c :: rest) = (percentDecode rest).map fun bytes => c :: bytes := by
  rw [percentDecode.eq_def]
  exact if_neg hc

theorem ne_percent {c : UInt8} (h : isUnreserved c = true) : c ≠ 37 := by
  rintro rfl
  exact absurd h (by decide)

theorem percentDecode_percentEncode (text : List UInt8) :
    percentDecode (percentEncode text) = some text := by
  induction text with
  | nil => rfl
  | cons c text ih =>
      have hc := c.toNat_lt
      rw [percentEncode, List.flatMap_cons, ← percentEncode, percentByte]
      by_cases hplain : isUnreserved c = true
      · rw [if_pos hplain, List.singleton_append, percentDecode_cons (ne_percent hplain), ih]
        rfl
      · have hbyte : UInt8.ofNat (16 * (c.toNat / 16) + c.toNat % 16) = c := by
          rw [Nat.div_add_mod, UInt8.ofNat_toNat]
        rw [if_neg hplain]
        simp only [upperByte, List.cons_append, List.nil_append]
        rw [percentDecode_percent (hexVal_upperDigit (by omega)) (hexVal_upperDigit (by omega)),
          ih, Option.map_some, hbyte]

theorem length_percentEncode_le (text : List UInt8) :
    (percentEncode text).length ≤ 3 * text.length := by
  induction text with
  | nil => exact Nat.zero_le _
  | cons c text ih =>
      have hbyte : (percentByte c).length ≤ 3 := by
        unfold percentByte
        split_ifs
        · simp
        · simp [upperByte]
      rw [percentEncode, List.flatMap_cons, ← percentEncode, List.length_append,
        List.length_cons]
      omega

theorem isQueryChar_of_unreserved {c : UInt8} (h : isUnreserved c = true) :
    isQueryChar c = true := by
  simp [isQueryChar, h]

theorem queryLegal_append {front back : List UInt8} (hfront : queryLegal front = true)
    (hback : queryLegal back = true) : queryLegal (front ++ back) = true := by
  fun_induction queryLegal front with
  | case1 => exact hback
  | case2 h l rest ih =>
      simp only [Bool.and_eq_true] at hfront
      simp only [List.cons_append, queryLegal_percent, hfront.1.1, hfront.1.2, Bool.true_and]
      exact ih hfront.2
  | case3 => exact absurd hfront (by simp)
  | case4 c rest hc ih =>
      simp only [Bool.and_eq_true] at hfront
      rw [List.cons_append, queryLegal_cons hc, hfront.1, Bool.true_and]
      exact ih hfront.2

theorem queryLegal_of_forall {text : List UInt8} (h : ∀ c ∈ text, isQueryChar c = true) :
    queryLegal text = true := by
  induction text with
  | nil => rfl
  | cons c text ih =>
      obtain ⟨hc, hrest⟩ := List.forall_mem_cons.mp h
      have hne : c ≠ 37 := by
        rintro rfl
        exact absurd hc (by decide)
      rw [queryLegal_cons hne, hc, Bool.true_and]
      exact ih hrest

theorem queryLegal_percentEncode (text : List UInt8) : queryLegal (percentEncode text) = true := by
  induction text with
  | nil => rfl
  | cons c text ih =>
      have hc := c.toNat_lt
      rw [percentEncode, List.flatMap_cons, ← percentEncode]
      refine queryLegal_append ?_ ih
      unfold percentByte
      split_ifs with hplain
      · exact queryLegal_of_forall (List.forall_mem_singleton.mpr
          (isQueryChar_of_unreserved hplain))
      · rw [upperByte, queryLegal_percent, hexVal_upperDigit (by omega),
          hexVal_upperDigit (by omega)]
        rfl

theorem notMem_percentEncode {c : UInt8} (hplain : isUnreserved c = false) (hpercent : c ≠ 37)
    (hdigit : hexVal c = none) (text : List UInt8) : c ∉ percentEncode text := by
  intro hmem
  obtain ⟨b, -, hc⟩ := List.mem_flatMap.mp hmem
  have hb := b.toNat_lt
  have hupper : ∀ d < 16, c ≠ upperDigit d := by
    rintro d hd rfl
    rw [hexVal_upperDigit hd] at hdigit
    exact absurd hdigit (by simp)
  unfold percentByte at hc
  split_ifs at hc with hb'
  · obtain rfl := List.mem_singleton.mp hc
    exact absurd hb' (by simp [hplain])
  · simp only [upperByte, List.mem_cons, List.not_mem_nil, or_false] at hc
    rcases hc with hc | hc | hc
    · exact hpercent hc
    · exact hupper _ (by omega) hc
    · exact hupper _ (by omega) hc

/-- The query of an URL, behind its first question mark. -/
def query (url : List UInt8) : Option (List UInt8) := (breakAt 63 url).map Prod.snd

/-- A parameter: its name and its value, on both sides of the first equals sign. -/
def splitParam (param : List UInt8) : List UInt8 × List UInt8 :=
  (breakAt 61 param).getD (param, [])

/-- The parameters of a query, between its ampersands. -/
def queryParams (query : List UInt8) : List (List UInt8 × List UInt8) :=
  (query.splitOn 38).map splitParam

/-- A parameter as it is written. -/
def joinParam (param : List UInt8 × List UInt8) : List UInt8 := param.1 ++ 61 :: param.2

/-- The parameters of a query that was put together from them. -/
theorem queryParams_join {params : List (List UInt8 × List UInt8)} (hne : params ≠ [])
    (hname : ∀ p ∈ params, 38 ∉ p.1 ∧ 61 ∉ p.1) (hvalue : ∀ p ∈ params, 38 ∉ p.2) :
    queryParams ([38].intercalate (params.map joinParam)) = params := by
  have hsep : ∀ text ∈ params.map joinParam, (38 : UInt8) ∉ text := by
    intro text htext
    obtain ⟨p, hp, rfl⟩ := List.mem_map.mp htext
    have hequals : (38 : UInt8) ≠ 61 := by decide
    simp only [joinParam, List.mem_append, List.mem_cons, not_or]
    exact ⟨(hname p hp).1, hequals, hvalue p hp⟩
  rw [queryParams, List.splitOn_intercalate _ hsep (by simpa using hne), List.map_map]
  have hsplit : ∀ p ∈ params, (splitParam ∘ joinParam) p = p := by
    intro p hp
    simp only [Function.comp_apply, splitParam, joinParam, breakAt_append (hname p hp).2,
      Option.getD_some]
  exact (List.map_congr_left hsplit).trans (List.map_id _)

end Url
end JppDos
