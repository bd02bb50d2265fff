import JppDos.Lib.Url
import JppDos.Sdk.Calls

/-!
# Origins of URLs

The text under which the user's consent to an https server is kept: the scheme, the host in
lower case, and the port unless it is 443.
-/

namespace JppDos
namespace Sdk

open CText Numerals Url

/-- An https URL without user information leads to a host and a port. -/
def Denotes (url : List UInt8) (h : List UInt8) (port : Nat) : Prop :=
  ∃ scheme rest, splitScheme url = some (scheme, rest) ∧ scheme.map lower = ascii "https" ∧
    atSign ∉ authority rest ∧ host (authority rest) = h ∧
    effectivePort 443 (authority rest) = some port

/-- The URL has no scheme or another one, user information, no host, or a malformed port. -/
def Malformed (url : List UInt8) : Prop :=
  ∀ scheme rest, splitScheme url = some (scheme, rest) →
    scheme.map lower ≠ ascii "https" ∨ atSign ∈ authority rest ∨ host (authority rest) = [] ∨
      effectivePort 443 (authority rest) = none

/-- The port of an origin. -/
def portSuffix (port : Nat) : List UInt8 := if port = 443 then [] else colon :: showBase 10 port

/-- The origin of a host and a port. -/
def origin (h : List UInt8) (port : Nat) : List UInt8 :=
  ascii "https://" ++ h.map lower ++ portSuffix port

theorem readDigit_ten (acc : Nat) (c : UInt8) :
    readDigit 10 acc c = if c < 48 ∨ 57 < c then none else some (acc * 10 + (c.toNat - 48)) := by
  have hc : (c < 48 ∨ 57 < c) ↔ ¬(48 ≤ c.toNat ∧ c.toNat ≤ 57) := by
    simp only [UInt8.lt_iff_toNat_lt]
    change c.toNat < 48 ∨ 57 < c.toNat ↔ _
    omega
  simp only [readDigit, digitVal, hc]
  by_cases h : 48 ≤ c.toNat ∧ c.toNat ≤ 57
  · rw [if_pos h, if_neg (by simpa using h)]
    simp only
    rw [if_pos (by omega), Nat.mul_comm]
  · rw [if_neg h, if_pos h]
    by_cases hletter : 97 ≤ c.toNat ∧ c.toNat ≤ 102
    · rw [if_pos hletter]
      simp only
      rw [if_neg (by omega)]
    · rw [if_neg hletter]

/-- The port loop reads a number between the bounds of a port. -/
theorem portFrom_iff {acc n : Nat} {text : List UInt8} (hacc : acc ≤ 65535) :
    portFrom acc text = some n ↔
      text.foldlM (readDigit 10) acc = some n ∧ 1 ≤ n ∧ n ≤ 65535 := by
  induction text generalizing acc with
  | nil =>
      simp only [portFrom, List.foldlM_nil, Option.pure_def, Option.some.injEq]
      split_ifs with hzero
      · simp only [false_iff]
        omega
      · simp only [Option.some.injEq]
        omega
  | cons c text ih =>
      rw [portFrom, List.foldlM_cons, readDigit_ten]
      split_ifs with hdigit
      · simp
      simp only [Option.bind_eq_bind, Option.bind_some]
      split_ifs with hbig
      · simp only [false_iff]
        rintro ⟨hread, -, hle⟩
        have := le_of_foldlM_readDigit (by decide) hread
        omega
      · exact ih (by omega)

theorem portFrom_eq_readPort {text : List UInt8} (h : text ≠ []) :
    portFrom 0 text = readPort text := by
  refine Option.ext fun n => ?_
  rw [portFrom_iff (by decide)]
  unfold readPort readBase
  rw [if_neg h]
  cases hread : text.foldlM (readDigit 10) 0 with
  | none => simp
  | some m =>
      simp only [Option.some.injEq]
      split_ifs with hm
      · simp only [Option.some.injEq]
        constructor
        · exact And.left
        · rintro rfl
          exact ⟨rfl, hm⟩
      · simp only [iff_false]
        rintro ⟨rfl, hn⟩
        exact hm hn

theorem drop_host (auth : List UInt8) :
    auth.drop (auth.takeWhile (· ≠ colon)).length = auth.dropWhile (· ≠ colon) := by
  have hsplit := List.takeWhile_append_dropWhile (p := (· ≠ colon)) (l := auth)
  calc auth.drop (auth.takeWhile (· ≠ colon)).length
      = (auth.takeWhile (· ≠ colon) ++ auth.dropWhile (· ≠ colon)).drop
          (auth.takeWhile (· ≠ colon)).length := by rw [hsplit]
    _ = auth.dropWhile (· ≠ colon) := List.drop_left

/-- The port that is found behind a host is the one that the authority leads to. -/
theorem originPort_eq {auth : List UInt8} (hat : atSign ∉ auth) :
    originPort (auth.dropWhile (· ≠ colon)) = effectivePort 443 auth := by
  rw [effectivePort, portText, hostPort_of_not_mem hat]
  cases auth.dropWhile (· ≠ colon) with
  | nil => rfl
  | cons c text =>
      cases text with
      | nil => rfl
      | cons d text => exact portFrom_eq_readPort (by simp)

theorem atSign_not_mem {auth : List UInt8} {port : Nat}
    (hhost : (auth.takeWhile (· ≠ colon)).all isHostChar = true)
    (hport : originPort (auth.dropWhile (· ≠ colon)) = some port) : atSign ∉ auth := by
  rw [← List.takeWhile_append_dropWhile (p := (· ≠ colon)) (l := auth), List.mem_append, not_or]
  constructor
  · intro hmem
    exact absurd (List.all_eq_true.mp hhost atSign hmem) (by decide)
  · intro hmem
    cases hrest : auth.dropWhile (· ≠ colon) with
    | nil =>
        rw [hrest] at hmem
        exact absurd hmem List.not_mem_nil
    | cons c text =>
        rw [hrest] at hmem hport
        rcases List.mem_cons.mp hmem with heq | hmem
        · have hhead := List.head?_dropWhile_not (· ≠ colon) auth
          rw [hrest, ← heq] at hhead
          simp [atSign, colon] at hhead
        · cases text with
          | nil => exact absurd hmem List.not_mem_nil
          | cons d text =>
              have hread := (portFrom_iff (by decide)).mp hport
              have hdigit := digit_of_foldlM_readDigit hread.1 hmem
              exact absurd hdigit (by decide)

theorem map_lower_schemeEnd {text : List UInt8} (h : text.map lower = schemeEnd) :
    text = schemeEnd := by
  refine List.ext_getElem ?_ fun n hn hn' => ?_
  · simpa using congrArg List.length h
  · have hget : lower text[n] = schemeEnd[n] := by simp [← h]
    have hsmall : ∀ c ∈ schemeEnd, c.toNat < 97 := by
      simpa using List.all_eq_true.mp (by decide : (schemeEnd.all fun c => c.toNat < 97) = true)
    exact eq_of_lower_eq hget (hsmall _ (List.getElem_mem hn'))

theorem length_scheme {scheme : List UInt8} (h : scheme.map lower = ascii "https") :
    scheme.length = 5 := by
  have hlen := congrArg List.length h
  rw [List.length_map] at hlen
  exact hlen

/-- The comparison with the scheme finds it in any case. -/
theorem take_scheme_iff {url : List UInt8} :
    (url.take 8).map lower = ascii "https://" ↔
      ∃ scheme, splitScheme url = some (scheme, url.drop 8) ∧
        scheme.map lower = ascii "https" := by
  constructor
  · intro h
    have hname : (url.take 5).map lower = ascii "https" := by
      have htake := congrArg (List.take 5) h
      rw [← List.map_take, List.take_take] at htake
      exact htake
    have hend : (url.take 8).drop 5 = schemeEnd := by
      refine map_lower_schemeEnd ?_
      rw [List.map_drop, h]
      decide
    refine ⟨url.take 5, splitScheme_iff.mpr ⟨?_, ?_⟩, hname⟩
    · have hfirst : url.take 5 = (url.take 8).take 5 := by rw [List.take_take]; rfl
      rw [← hend, hfirst, List.take_append_drop, List.take_append_drop]
    · intro hmem
      have hlower := List.mem_map_of_mem (f := lower) hmem
      rw [hname] at hlower
      exact absurd hlower (by decide)
  · rintro ⟨scheme, hsplit, hname⟩
    obtain ⟨hurl, -⟩ := splitScheme_iff.mp hsplit
    have hlen := length_scheme hname
    have htake : url.take 8 = scheme ++ schemeEnd := by
      rw [hurl]
      exact List.take_left' (by simp [hlen, schemeEnd])
    rw [htake, List.map_append, hname]
    decide

theorem splitScheme_https {url scheme rest : List UInt8}
    (h : splitScheme url = some (scheme, rest)) (hname : scheme.map lower = ascii "https") :
    rest = url.drop 8 := by
  obtain ⟨hurl, -⟩ := splitScheme_iff.mp h
  have hlen := length_scheme hname
  rw [hurl]
  exact (List.drop_left' (by simp [hlen, schemeEnd])).symm

/-- The origin fits the buffers that hold it. -/
def OriginFits (h : List UInt8) (port : Nat) : Prop :=
  8 + h.length + (if port = 443 then 0 else 6) + 1 ≤ originMax

theorem authority_eq (rest : List UInt8) :
    (rest.takeWhile fun c => c ≠ 47 && c ≠ 63 && c ≠ 35) = authority rest := by
  unfold authority endsAuthority
  congr 1
  funext c
  simp

theorem httpsOrigin_ok_iff {url : CStr} {out : List UInt8} :
    httpsOrigin url = (.ok, out) ↔
      ∃ h port, Denotes url.val h port ∧ h ≠ [] ∧ h.all isHostChar = true ∧ OriginFits h port ∧
        out = origin h port := by
  constructor
  · intro hok
    unfold httpsOrigin at hok
    split at hok
    · exact absurd hok (by simp)
    rename_i hscheme
    rw [authority_eq] at hok
    dsimp only at hok
    split at hok
    · exact absurd hok (by simp)
    rename_i hhost
    obtain ⟨hne, hall⟩ := not_or.mp hhost
    rw [not_not] at hall
    rw [show (58 : UInt8) = colon from rfl, drop_host] at hok
    split at hok
    · exact absurd hok (by simp)
    rename_i port hport
    by_cases hfits : OriginFits ((authority (url.val.drop 8)).takeWhile (· ≠ colon)) port
    swap
    · rw [if_pos (Nat.lt_of_not_le hfits)] at hok
      exact absurd hok (by simp)
    rw [if_neg (Nat.not_lt.mpr hfits)] at hok
    obtain ⟨-, rfl⟩ := Prod.mk.inj hok
    have hat := atSign_not_mem hall hport
    obtain ⟨scheme, hsplit, hname⟩ := take_scheme_iff.mp (not_not.mp hscheme)
    refine ⟨(authority (url.val.drop 8)).takeWhile (· ≠ colon), port,
      ⟨scheme, url.val.drop 8, hsplit, hname, hat, ?_, ?_⟩, hne, hall, hfits, rfl⟩
    · rw [host, hostPort_of_not_mem hat]
    · rw [← originPort_eq hat, hport]
  · rintro ⟨h, port, ⟨scheme, rest, hsplit, hname, hat, rfl, hport⟩, hne, hall, hfits, rfl⟩
    obtain rfl := splitScheme_https hsplit hname
    rw [host, hostPort_of_not_mem hat] at hne hall hfits ⊢
    rw [← originPort_eq hat] at hport
    unfold httpsOrigin
    rw [if_neg (not_not.mpr (take_scheme_iff.mpr ⟨scheme, hsplit, hname⟩)), authority_eq]
    dsimp only
    rw [show (58 : UInt8) = colon from rfl, if_neg (not_or.mpr ⟨hne, not_not.mpr hall⟩),
      drop_host, hport]
    dsimp only
    rw [if_neg (Nat.not_lt.mpr hfits)]
    rfl

theorem Denotes.unique {url h h' : List UInt8} {port port' : Nat} (hd : Denotes url h port)
    (hd' : Denotes url h' port') : h = h' ∧ port = port' := by
  obtain ⟨scheme, rest, hsplit, -, -, rfl, hport⟩ := hd
  obtain ⟨scheme', rest', hsplit', -, -, rfl, hport'⟩ := hd'
  rw [hsplit] at hsplit'
  obtain ⟨-, rfl⟩ := Prod.mk.inj (Option.some.inj hsplit')
  exact ⟨rfl, Option.some.inj (hport.symm.trans hport')⟩

theorem httpsOrigin_malformed {url : CStr} (h : Malformed url.val) :
    (httpsOrigin url).1 ≠ .ok := by
  intro hok
  obtain ⟨host, port, ⟨scheme, rest, hsplit, hname, hat, rfl, hport⟩, hne, -⟩ :=
    httpsOrigin_ok_iff.mp (show httpsOrigin url = (.ok, (httpsOrigin url).2) by rw [← hok])
  rcases h scheme rest hsplit with hbad | hbad | hbad | hbad
  · exact hbad hname
  · exact hat hbad
  · exact hne hbad
  · rw [hbad] at hport
    exact absurd hport (by simp)

theorem colon_not_mem_lower {h : List UInt8} (hall : h.all isHostChar = true) :
    colon ∉ h.map lower := by
  intro hmem
  obtain ⟨c, hc, hlower⟩ := List.mem_map.mp hmem
  obtain rfl : c = colon := eq_of_lower_eq hlower (by decide)
  exact absurd (List.all_eq_true.mp hall colon hc) (by decide)

/-- Two origins are equal only when the folded hosts and the ports are. -/
theorem origin_inj {h h' : List UInt8} {port port' : Nat} (hall : h.all isHostChar = true)
    (hall' : h'.all isHostChar = true) (heq : origin h port = origin h' port') :
    h.map lower = h'.map lower ∧ port = port' := by
  simp only [origin, List.append_assoc] at heq
  have htail := List.append_cancel_left heq
  have hsuffix : ∀ p, portSuffix p = [] ∨ (portSuffix p).head? = some colon := fun p => by
    unfold portSuffix
    split_ifs <;> simp
  have hhost : ∀ (t : List UInt8) (p : Nat), colon ∉ t →
      (t ++ portSuffix p).takeWhile (· ≠ colon) = t ∧
        (t ++ portSuffix p).dropWhile (· ≠ colon) = portSuffix p := by
    intro t p ht
    have ht' : ∀ c ∈ t, decide (c ≠ colon) = true := fun c hc =>
      decide_eq_true fun heq => ht (heq ▸ hc)
    rw [List.takeWhile_append_of_pos ht', List.dropWhile_append_of_pos ht']
    rcases hsuffix p with hnil | hcons
    · simp [hnil]
    · cases hp : portSuffix p with
      | nil => simp
      | cons c rest =>
          obtain rfl : c = colon := by simpa [hp] using hcons
          simp
  obtain ⟨htake, hdrop⟩ := hhost (h.map lower) port (colon_not_mem_lower hall)
  obtain ⟨htake', hdrop'⟩ := hhost (h'.map lower) port' (colon_not_mem_lower hall')
  refine ⟨htake.symm.trans (by rw [htail, htake']), ?_⟩
  have hports : portSuffix port = portSuffix port' := by rw [← hdrop, htail, hdrop']
  unfold portSuffix at hports
  split_ifs at hports with h1 h2
  · rw [h1, h2]
  · have hread := congrArg (readBase 10) (List.cons.inj hports).2
    rw [readBase_showBase (by decide) (by decide), readBase_showBase (by decide) (by decide)]
      at hread
    exact Option.some.inj hread

theorem isHostChar_lower {c : UInt8} (h : isHostChar c = true) : isHostChar (lower c) = true := by
  have hlower := lower_toNat c
  simp only [isHostChar, Bool.or_eq_true, Bool.and_eq_true, decide_eq_true_eq, beq_iff_eq,
    UInt8.le_iff_toNat_le, ← UInt8.toNat_inj, UInt8.reduceToNat] at h ⊢
  split_ifs at hlower <;> omega

theorem isHostChar_digit {c : UInt8} (h : 48 ≤ c.toNat ∧ c.toNat ≤ 57) :
    isHostChar c = true := by
  simp only [isHostChar, Bool.or_eq_true, Bool.and_eq_true, decide_eq_true_eq, beq_iff_eq,
    UInt8.le_iff_toNat_le, ← UInt8.toNat_inj, UInt8.reduceToNat]
  omega

theorem showBase_digit (n : Nat) {c : UInt8} (hc : c ∈ showBase 10 n) :
    48 ≤ c.toNat ∧ c.toNat ≤ 57 := by
  have hread := readBase_showBase (b := 10) (by decide) (by decide) n
  rw [readBase, if_neg (showBase_ne_nil 10 n)] at hread
  exact digit_of_foldlM_readDigit hread hc

/-- What follows the scheme of an origin has the bytes of hosts and colons. -/
theorem origin_bytes {h : List UInt8} (hall : h.all isHostChar = true) (port : Nat) {c : UInt8}
    (hc : c ∈ h.map lower ++ portSuffix port) : isHostChar c = true ∨ c = colon := by
  rcases List.mem_append.mp hc with hc | hc
  · obtain ⟨b, hb, rfl⟩ := List.mem_map.mp hc
    exact Or.inl (isHostChar_lower (List.all_eq_true.mp hall b hb))
  · unfold portSuffix at hc
    split_ifs at hc
    · exact absurd hc List.not_mem_nil
    · rcases List.mem_cons.mp hc with rfl | hc
      · exact Or.inr rfl
      · exact Or.inl (isHostChar_digit (showBase_digit port hc))

theorem readPort_showBase {port : Nat} (h : 1 ≤ port ∧ port ≤ 65535) :
    readPort (showBase 10 port) = some port := by
  rw [readPort, readBase_showBase (by decide) (by decide)]
  exact if_pos h

theorem Denotes.port {url h : List UInt8} {port : Nat} (hd : Denotes url h port) :
    1 ≤ port ∧ port ≤ 65535 := by
  obtain ⟨scheme, rest, -, -, -, -, hport⟩ := hd
  unfold effectivePort at hport
  split at hport
  · obtain rfl := Option.some.inj hport
    decide
  · unfold readPort at hport
    split at hport
    · split_ifs at hport with hbounds
      exact Option.some.inj hport ▸ hbounds
    · exact absurd hport (by simp)

theorem denotes_origin {h : List UInt8} {port : Nat} (hall : h.all isHostChar = true)
    (hport : 1 ≤ port ∧ port ≤ 65535) : Denotes (origin h port) (h.map lower) port := by
  have hbytes := fun c => origin_bytes hall port (c := c)
  have hauth : authority (h.map lower ++ portSuffix port) = h.map lower ++ portSuffix port := by
    refine authority_of_forall fun c hc => ?_
    rw [Bool.eq_false_iff]
    intro hend
    simp only [endsAuthority, Bool.or_eq_true, decide_eq_true_eq] at hend
    rcases hbytes c hc with hchar | rfl
    · rcases hend with (rfl | rfl) | rfl <;> exact absurd hchar (by decide)
    · exact absurd hend (by decide)
  have hat : atSign ∉ h.map lower ++ portSuffix port := fun hmem => by
    rcases hbytes atSign hmem with hchar | heq
    · exact absurd hchar (by decide)
    · exact absurd heq (by decide)
  have hcolon := colon_not_mem_lower hall
  refine ⟨ascii "https", h.map lower ++ portSuffix port, splitScheme_iff.mpr ⟨?_, by decide⟩,
    by decide, by rwa [hauth], ?_⟩
  · rw [origin, List.append_assoc, show ascii "https://" = ascii "https" ++ schemeEnd by decide]
  · rw [hauth]
    unfold portSuffix at hat ⊢
    split_ifs at hat ⊢ with hdefault
    · rw [List.append_nil] at hat ⊢
      rw [hdefault]
      exact effectivePort_host 443 hat hcolon
    · obtain ⟨hhost, heffective⟩ := effectivePort_append 443 hat rfl hcolon
      exact ⟨hhost, heffective.trans (readPort_showBase hport)⟩

theorem ofBytes_origin {h : List UInt8} (hall : h.all isHostChar = true) (port : Nat) :
    (CStr.ofBytes (origin h port)).val = origin h port := by
  refine List.takeWhile_eq_self_iff.mpr fun c hc => decide_eq_true ?_
  rw [origin, List.append_assoc, List.mem_append] at hc
  rcases hc with hc | hc
  · simpa using List.all_eq_true.mp (by decide : ((ascii "https://").all (· ≠ 0)) = true) c hc
  · rcases origin_bytes hall port hc with hchar | rfl
    · rintro rfl
      exact absurd hchar (by decide)
    · decide

theorem httpsOrigin_origin {url : CStr} {out : List UInt8} (h : httpsOrigin url = (.ok, out)) :
    httpsOrigin (CStr.ofBytes out) = (.ok, out) := by
  obtain ⟨host, port, hd, hne, hall, hfits, rfl⟩ := httpsOrigin_ok_iff.mp h
  refine httpsOrigin_ok_iff.mpr ⟨host.map lower, port, ?_, by simpa using hne, ?_, ?_, ?_⟩
  · rw [ofBytes_origin hall]
    exact denotes_origin hall hd.port
  · rw [List.all_eq_true]
    intro c hc
    obtain ⟨b, hb, rfl⟩ := List.mem_map.mp hc
    exact isHostChar_lower (List.all_eq_true.mp hall b hb)
  · rw [OriginFits, List.length_map]
    exact hfits
  · rw [origin, origin, List.map_map]
    congr 3
    exact (funext lower_lower).symm

/-- Without its terminator an origin is shorter than the buffers for it. -/
theorem length_origin {h : List UInt8} {port : Nat} (hport : 1 ≤ port ∧ port ≤ 65535)
    (hfits : OriginFits h port) : (origin h port).length < originMax := by
  have hscheme : (ascii "https://").length = 8 := by decide
  have hsuffix : (portSuffix port).length ≤ if port = 443 then 0 else 6 := by
    unfold portSuffix
    split_ifs
    · exact Nat.le_refl 0
    · have hdigits := length_showBase_lt_pow (b := 10) (k := 4) (n := port)
        (Nat.lt_of_le_of_lt hport.2 (by decide))
      rw [List.length_cons]
      omega
  unfold OriginFits at hfits
  rw [origin, List.length_append, List.length_append, List.length_map, hscheme]
  omega

/-- Every URL is rejected or has its folded host and its port as origin, which fits; two URLs
have one origin exactly when they denote the same host and port; an origin is its own origin;
and malformed URLs are rejected. -/
theorem httpsOrigin_canonical :
    (∀ url, (httpsOrigin url).1 ≠ .ok ∨ ∃ h port, Denotes url.val h port ∧ h ≠ [] ∧
      httpsOrigin url = (.ok, origin h port) ∧ (origin h port).length < originMax) ∧
    (∀ url₁ url₂ h₁ h₂ port₁ port₂, Denotes url₁.val h₁ port₁ → Denotes url₂.val h₂ port₂ →
      (httpsOrigin url₁).1 = .ok → (httpsOrigin url₂).1 = .ok →
        ((httpsOrigin url₁).2 = (httpsOrigin url₂).2 ↔
          h₁.map lower = h₂.map lower ∧ port₁ = port₂)) ∧
    (∀ url out, httpsOrigin url = (.ok, out) → httpsOrigin (CStr.ofBytes out) = (.ok, out)) ∧
    (∀ url, Malformed url.val → (httpsOrigin url).1 ≠ .ok) := by
  have hok : ∀ url, (httpsOrigin url).1 = .ok → ∃ h port, Denotes url.val h port ∧ h ≠ [] ∧
      h.all isHostChar = true ∧ OriginFits h port ∧ httpsOrigin url = (.ok, origin h port) := by
    intro url hstatus
    have heq : httpsOrigin url = (.ok, (httpsOrigin url).2) := by rw [← hstatus]
    obtain ⟨h, port, hd, hne, hall, hfits, hout⟩ := httpsOrigin_ok_iff.mp heq
    exact ⟨h, port, hd, hne, hall, hfits, heq.trans (by rw [hout])⟩
  refine ⟨fun url => ?_, ?_, fun url out => httpsOrigin_origin, fun url => httpsOrigin_malformed⟩
  · by_cases hstatus : (httpsOrigin url).1 = .ok
    · obtain ⟨h, port, hd, hne, -, hfits, heq⟩ := hok url hstatus
      exact Or.inr ⟨h, port, hd, hne, heq, length_origin hd.port hfits⟩
    · exact Or.inl hstatus
  · intro url₁ url₂ h₁ h₂ port₁ port₂ hd₁ hd₂ hok₁ hok₂
    obtain ⟨h, port, hd, -, hall, -, heq₁⟩ := hok url₁ hok₁
    obtain ⟨rfl, rfl⟩ := hd.unique hd₁
    obtain ⟨h', port', hd', -, hall', -, heq₂⟩ := hok url₂ hok₂
    obtain ⟨rfl, rfl⟩ := hd'.unique hd₂
    rw [heq₁, heq₂]
    constructor
    · exact origin_inj hall hall'
    · rintro ⟨hhost, rfl⟩
      simp only [origin, hhost]

end Sdk
end JppDos
