import JppDos.Http.LrvServer
import JppDos.Lib.Base64
import JppDos.Lib.Url
import JppDos.Lrv.Challenge
import JppDos.Lrv.Identity

/-!
# The URL of the verification page

`send_verification_page` puts the identity, a challenge and its signature into the query of an URL:
the certificate and the signatures in the URL-safe alphabet of base64, the challenge with percent
signs.

Main fact:
* `verificationPage_carries`: whoever takes the URL apart has the record, the challenge and the
  signatures.
-/

namespace JppDos
namespace Lrv

open Clock CText Http Numerals Url

/-- The two characters that `b64url_encode` replaces. -/
def urlSafe (c : UInt8) : UInt8 := if c = 43 then 45 else if c = 47 then 95 else c

/-- `b64url_encode` into a cleared buffer; `mbedtls_base64_encode` writes nothing unless there is
room for a terminator. -/
def b64urlEncode (src : List UInt8) (dstmax : Nat) : List UInt8 :=
  if dstmax < (Base64.encode src).length + 1 then [] else (Base64.encode src).map urlSafe

/-- The loop of `url_encode`, behind the characters `dst`. -/
def urlEncodeFrom (dstmax : Nat) (dst : List UInt8) : List UInt8 → List UInt8
  | [] => dst
  | c :: src =>
      if c ≠ 0 ∧ dst.length + 4 < dstmax then urlEncodeFrom dstmax (dst ++ percentByte c) src
      else dst

/-- `url_encode`. -/
def urlEncode (src : List UInt8) (dstmax : Nat) : List UInt8 := urlEncodeFrom dstmax [] src

/-- The loop of `jpp_lrv_hex_format`, before byte `i`. -/
def hexFormatFrom (bytesPerRow bufLen i : Nat) (buf : List UInt8) : List UInt8 → List UInt8
  | [] => buf
  | b :: data =>
      let sep := if i % bytesPerRow = 0 then 10 else 32
      let buf :=
        if 0 < bytesPerRow ∧ 0 < i ∧ buf.length + 1 < bufLen then buf ++ [sep] else buf
      let buf := if buf.length + 2 < bufLen then buf ++ upperByte b else buf
      hexFormatFrom bytesPerRow bufLen (i + 1) buf data

/-- `jpp_lrv_hex_format`. -/
def hexFormat (data : List UInt8) (bytesPerRow bufLen : Nat) : List UInt8 :=
  hexFormatFrom bytesPerRow bufLen 0 [] data

/-- `jpp_lrv_sign_challenge` into a cleared buffer; `sign` is `crypto_sign_ed25519_detached`. -/
def lrvSignChallenge (sign : List UInt8 → List UInt8 → Option (List UInt8)) (d : LrvData)
    (challenge : List UInt8) : List UInt8 :=
  (sign (cString challenge) d.deviceSeckey).getD (List.replicate 64 0)

/-- The certificate as `strnlen` delimits it. -/
def certText (d : LrvData) : List UInt8 := cString (d.cert.take (certMax - 1))

/-- The text of `certpage_url`. -/
def verifyText (serial : Nat) (certB64 certsigB64 challengeEnc respsigB64 : List UInt8) :
    List UInt8 :=
  ascii "https://jppdevice.by.m4l3vi.ch/verify" ++ (ascii "?serial=" ++ (showBase 10 serial ++
    (ascii "&cert=" ++ (certB64 ++ (ascii "&certsig=" ++ (certsigB64 ++ (ascii "&challenge=" ++
      (challengeEnc ++ (ascii "&resp=" ++ respsigB64)))))))))

/-- The text of `certpage_url` for an identity and a signed challenge. -/
def verifyTextOf (d : LrvData) (challenge respSig : List UInt8) : List UInt8 :=
  verifyText d.serial.toNat (b64urlEncode (certText d) 300) (b64urlEncode d.certSig 128)
    (urlEncode challenge 400) (b64urlEncode respSig 128)

/-- The texts of `send_verification_page`; `stored`, `now` and `tzH` are what the challenge is
built from. -/
def verificationPage (sign : List UInt8 → List UInt8 → Option (List UInt8)) (d : LrvData)
    (stored : Option CStr) (now : Except RtcStatus RtcDatetime) (tzH : Option Int) : LrvPage :=
  let challenge := (buildChallenge stored now tzH challengeMax 0).out
  let respSig := lrvSignChallenge sign d challenge
  { serial := d.serial.toNat
    cert := cString d.cert
    certHex := hexFormat (certText d) 8 608
    certsigHex := hexFormat d.certSig 8 224
    pubkeyHex := hexFormat d.devicePubkey 8 112
    challenge := challenge
    respsigHex := hexFormat respSig 8 224
    certpageUrl := (verifyTextOf d challenge respSig).take 1279 }

/-- The value of a character of the URL-safe alphabet. -/
def urlVal (c : UInt8) : Option Nat :=
  if 65 ≤ c.toNat ∧ c.toNat ≤ 90 then some (c.toNat - 65)
  else if 97 ≤ c.toNat ∧ c.toNat ≤ 122 then some (c.toNat - 71)
  else if 48 ≤ c.toNat ∧ c.toNat ≤ 57 then some (c.toNat + 4)
  else if c = 45 then some 62
  else if c = 95 then some 63
  else none

/-- What the query of a verification URL says. -/
structure VerifyRecord where
  serial : Nat
  cert : List UInt8
  certsig : List UInt8
  challenge : List UInt8
  resp : List UInt8

/-- The record of a verification URL. -/
def readVerifyUrl (url : List UInt8) : Option VerifyRecord := do
  let params := queryParams (← query url)
  let serial ← readBase 10 (← params.lookup (ascii "serial"))
  let cert ← Base64.decode urlVal (← params.lookup (ascii "cert"))
  let certsig ← Base64.decode urlVal (← params.lookup (ascii "certsig"))
  let challenge ← percentDecode (← params.lookup (ascii "challenge"))
  let resp ← Base64.decode urlVal (← params.lookup (ascii "resp"))
  return ⟨serial, cert, certsig, challenge, resp⟩

/-- A page whose URL is whole, on the page too, has a legal query, and says `record`. -/
structure Carries (page : LrvPage) (text : List UInt8) (record : VerifyRecord) : Prop where
  whole : page.certpageUrl = text
  link : ascii "<a class='btn' href='" ++ text ++ ascii "'>Open Certificate Page</a>" ∈ page.pieces
  legal : ∃ q, query page.certpageUrl = some q ∧ queryLegal q = true
  reads : readVerifyUrl page.certpageUrl = some record

theorem urlVal_urlSafe_char {n : Nat} (h : n < 64) : urlVal (urlSafe (Base64.char n)) = some n := by
  have hall : ∀ n < 64, urlVal (urlSafe (Base64.char n)) = some n := by decide
  exact hall n h

theorem decode_urlSafe (bytes : List UInt8) :
    Base64.decode urlVal ((Base64.encode bytes).map urlSafe) = some bytes :=
  Base64.decode_encode (fun _ h => urlVal_urlSafe_char h) (by decide) (by decide) bytes

theorem b64urlEncode_fits {src : List UInt8} {dstmax : Nat}
    (h : (src.length + 2) / 3 * 4 + 1 ≤ dstmax) :
    b64urlEncode src dstmax = (Base64.encode src).map urlSafe := by
  rw [b64urlEncode, Base64.length_encode, if_neg (Nat.not_lt.mpr h)]

theorem mem_urlSafe {bytes : List UInt8} {c : UInt8}
    (h : c ∈ (Base64.encode bytes).map urlSafe) : isQueryChar c = true ∧ c ≠ 38 := by
  obtain ⟨b, hb, rfl⟩ := List.mem_map.mp h
  have hchar : ∀ n < 64, isQueryChar (urlSafe (Base64.char n)) = true ∧
      urlSafe (Base64.char n) ≠ 38 := by decide
  exact Base64.forall_mem_encode (p := fun b => isQueryChar (urlSafe b) = true ∧ urlSafe b ≠ 38)
    hchar (by decide) bytes b hb

theorem urlEncodeFrom_fits {src : List UInt8} (hzero : 0 ∉ src) {dst : List UInt8} {dstmax : Nat}
    (h : dst.length + 3 * src.length + 2 ≤ dstmax) :
    urlEncodeFrom dstmax dst src = dst ++ percentEncode src := by
  induction src generalizing dst with
  | nil => rw [urlEncodeFrom, percentEncode, List.flatMap_nil, List.append_nil]
  | cons c src ih =>
      rw [List.mem_cons, not_or] at hzero
      rw [List.length_cons] at h
      have hbyte : (percentByte c).length ≤ 3 := by
        unfold percentByte
        split_ifs
        · simp
        · simp [upperByte]
      rw [urlEncodeFrom, if_pos ⟨Ne.symm hzero.1, by omega⟩,
        ih hzero.2 (by rw [List.length_append]; omega), List.append_assoc]
      rfl

theorem urlEncode_fits {src : List UInt8} (hzero : 0 ∉ src) {dstmax : Nat}
    (h : 3 * src.length + 2 ≤ dstmax) : urlEncode src dstmax = percentEncode src :=
  urlEncodeFrom_fits hzero (by rw [List.length_nil]; omega)

/-- The parameters of the URL. -/
def verifyParams (serial : Nat) (certB64 certsigB64 challengeEnc respsigB64 : List UInt8) :
    List (List UInt8 × List UInt8) :=
  [(ascii "serial", showBase 10 serial), (ascii "cert", certB64), (ascii "certsig", certsigB64),
    (ascii "challenge", challengeEnc), (ascii "resp", respsigB64)]

theorem query_verifyText (serial : Nat) (certB64 certsigB64 challengeEnc respsigB64 : List UInt8) :
    query (verifyText serial certB64 certsigB64 challengeEnc respsigB64) =
      some ([38].intercalate
        ((verifyParams serial certB64 certsigB64 challengeEnc respsigB64).map joinParam)) := by
  have hbase : (63 : UInt8) ∉ ascii "https://jppdevice.by.m4l3vi.ch/verify" := by decide
  have hsplit := breakAt_append hbase ([38].intercalate
    ((verifyParams serial certB64 certsigB64 challengeEnc respsigB64).map joinParam))
  rw [query, show verifyText serial certB64 certsigB64 challengeEnc respsigB64 =
    ascii "https://jppdevice.by.m4l3vi.ch/verify" ++ 63 :: [38].intercalate
      ((verifyParams serial certB64 certsigB64 challengeEnc respsigB64).map joinParam) from ?_,
    hsplit]
  · rfl
  · simp [verifyText, verifyParams, joinParam, ascii, List.intercalate]

section Parts

variable {serial : Nat} {cert certsig challenge resp : List UInt8}

/-- The four values that are encoded. -/
def verifyTextEncoded (serial : Nat) (cert certsig challenge resp : List UInt8) : List UInt8 :=
  verifyText serial ((Base64.encode cert).map urlSafe) ((Base64.encode certsig).map urlSafe)
    (percentEncode challenge) ((Base64.encode resp).map urlSafe)

/-- The parameters of the URL, with values that are encoded. -/
def encodedParams (serial : Nat) (cert certsig challenge resp : List UInt8) :
    List (List UInt8 × List UInt8) :=
  verifyParams serial ((Base64.encode cert).map urlSafe) ((Base64.encode certsig).map urlSafe)
    (percentEncode challenge) ((Base64.encode resp).map urlSafe)

theorem mem_showBase_ten {n : Nat} {c : UInt8} (h : c ∈ showBase 10 n) :
    48 ≤ c.toNat ∧ c.toNat ≤ 57 :=
  digit_of_foldlM_readDigit (foldlM_digits (by decide) (by decide) (n + 1) n (Nat.lt_succ_self n)) h

/-- The query is legal where its values are, and is taken apart at the ampersands if they
have none. -/
theorem forall_encodedParams (serial : Nat) (cert certsig challenge resp : List UInt8) :
    ∀ p ∈ encodedParams serial cert certsig challenge resp,
      ((∀ c ∈ p.1, isUnreserved c = true) ∧ queryLegal p.2 = true) ∧ 38 ∉ p.2 := by
  have hbase : ∀ bytes, queryLegal ((Base64.encode bytes).map urlSafe) = true ∧
      38 ∉ (Base64.encode bytes).map urlSafe := fun bytes =>
    ⟨queryLegal_of_forall fun c hc => (mem_urlSafe hc).1, fun hc => (mem_urlSafe hc).2 rfl⟩
  have hserial : queryLegal (showBase 10 serial) = true ∧ 38 ∉ showBase 10 serial := by
    refine ⟨queryLegal_of_forall fun c hc => ?_, fun hc => absurd (mem_showBase_ten hc).1
      (by decide)⟩
    obtain ⟨hlow, hhigh⟩ := mem_showBase_ten hc
    simp [isQueryChar, isUnreserved, hlow, hhigh]
  have hchallenge : queryLegal (percentEncode challenge) = true ∧ 38 ∉ percentEncode challenge :=
    ⟨queryLegal_percentEncode challenge,
      notMem_percentEncode (by decide) (by decide) (by decide) challenge⟩
  intro p hp
  simp only [encodedParams, verifyParams, List.mem_cons, List.not_mem_nil, or_false] at hp
  rcases hp with rfl | rfl | rfl | rfl | rfl
  · have hname : (ascii "serial").all isUnreserved = true := by decide
    exact ⟨⟨List.all_eq_true.mp hname, hserial.1⟩, hserial.2⟩
  · have hname : (ascii "cert").all isUnreserved = true := by decide
    exact ⟨⟨List.all_eq_true.mp hname, (hbase cert).1⟩, (hbase cert).2⟩
  · have hname : (ascii "certsig").all isUnreserved = true := by decide
    exact ⟨⟨List.all_eq_true.mp hname, (hbase certsig).1⟩, (hbase certsig).2⟩
  · have hname : (ascii "challenge").all isUnreserved = true := by decide
    exact ⟨⟨List.all_eq_true.mp hname, hchallenge.1⟩, hchallenge.2⟩
  · have hname : (ascii "resp").all isUnreserved = true := by decide
    exact ⟨⟨List.all_eq_true.mp hname, (hbase resp).1⟩, (hbase resp).2⟩

theorem queryParams_verifyText :
    queryParams ([38].intercalate
        ((encodedParams serial cert certsig challenge resp).map joinParam)) =
      encodedParams serial cert certsig challenge resp := by
  refine queryParams_join (List.cons_ne_nil _ _) (fun p hp => ?_) fun p hp =>
    (forall_encodedParams serial cert certsig challenge resp p hp).2
  have hname := (forall_encodedParams serial cert certsig challenge resp p hp).1.1
  exact ⟨fun h => absurd (hname _ h) (by decide), fun h => absurd (hname _ h) (by decide)⟩

theorem queryLegal_joinParam {p : List UInt8 × List UInt8}
    (hname : ∀ c ∈ p.1, isUnreserved c = true) (hvalue : queryLegal p.2 = true) :
    queryLegal (joinParam p) = true := by
  refine queryLegal_append
    (queryLegal_of_forall fun c hc => isQueryChar_of_unreserved (hname c hc)) ?_
  rw [queryLegal_cons (by decide), hvalue]
  decide

theorem queryLegal_intercalate {parts : List (List UInt8)}
    (h : ∀ part ∈ parts, queryLegal part = true) : queryLegal ([38].intercalate parts) = true := by
  induction parts with
  | nil => rfl
  | cons part parts ih =>
      obtain ⟨hpart, hparts⟩ := List.forall_mem_cons.mp h
      cases parts with
      | nil => simpa using hpart
      | cons next parts =>
          rw [List.intercalate_cons_cons]
          exact queryLegal_append (queryLegal_append hpart rfl) (ih hparts)

theorem queryLegal_verifyText :
    queryLegal ([38].intercalate
      ((encodedParams serial cert certsig challenge resp).map joinParam)) = true := by
  refine queryLegal_intercalate fun part hpart => ?_
  obtain ⟨p, hp, rfl⟩ := List.mem_map.mp hpart
  obtain ⟨hname, hvalue⟩ := (forall_encodedParams serial cert certsig challenge resp p hp).1
  exact queryLegal_joinParam hname hvalue

theorem lookup_encodedParams (serial : Nat) (cert certsig challenge resp : List UInt8) :
    let params := encodedParams serial cert certsig challenge resp
    params.lookup (ascii "serial") = some (showBase 10 serial) ∧
      params.lookup (ascii "cert") = some ((Base64.encode cert).map urlSafe) ∧
      params.lookup (ascii "certsig") = some ((Base64.encode certsig).map urlSafe) ∧
      params.lookup (ascii "challenge") = some (percentEncode challenge) ∧
      params.lookup (ascii "resp") = some ((Base64.encode resp).map urlSafe) :=
  ⟨rfl, rfl, rfl, rfl, rfl⟩

theorem readVerifyUrl_encoded :
    readVerifyUrl (verifyTextEncoded serial cert certsig challenge resp) =
      some ⟨serial, cert, certsig, challenge, resp⟩ := by
  have hquery : query (verifyTextEncoded serial cert certsig challenge resp) =
      some ([38].intercalate
        ((encodedParams serial cert certsig challenge resp).map joinParam)) :=
    query_verifyText _ _ _ _ _
  obtain ⟨hserial, hcert, hcertsig, hchallenge, hresp⟩ :=
    lookup_encodedParams serial cert certsig challenge resp
  simp only [readVerifyUrl, hquery, Option.bind_eq_bind, Option.bind_some, queryParams_verifyText,
    hserial, hcert, hcertsig, hchallenge, hresp, readBase_showBase (by decide : 2 ≤ 10)
      (by decide : 10 ≤ 16), decode_urlSafe, percentDecode_percentEncode]
  rfl

end Parts

theorem length_certText_le (d : LrvData) : (certText d).length ≤ 191 := by
  have htake : (cString (d.cert.take (certMax - 1))).length ≤ (d.cert.take (certMax - 1)).length :=
    List.Sublist.length_le (List.takeWhile_sublist _)
  have hcert : (d.cert.take (certMax - 1)).length ≤ certMax - 1 := List.length_take_le _ _
  exact htake.trans hcert

theorem zero_notMem_challengeStamp (now : Except RtcStatus RtcDatetime) (tzH : Option Int) :
    (0 : UInt8) ∉ challengeStamp now tzH := by
  unfold challengeStamp
  split
  · exact fun h => absurd (mem_isoText h).1 (by decide)
  · decide

theorem zero_notMem_challenge (stored : Option CStr) (now : Except RtcStatus RtcDatetime)
    (tzH : Option Int) (outLen usernameLen : Nat) :
    (0 : UInt8) ∉ (buildChallenge stored now tzH outLen usernameLen).out := by
  intro h
  have hmem := List.mem_of_mem_take h
  rw [List.mem_append, List.mem_cons] at hmem
  rcases hmem with hmem | hmem | hmem
  · exact (challengeUser stored).property hmem
  · exact absurd hmem (by decide)
  · exact zero_notMem_challengeStamp now tzH hmem

theorem length_challenge_le (stored : Option CStr) (now : Except RtcStatus RtcDatetime)
    (tzH : Option Int) (usernameLen : Nat) :
    (buildChallenge stored now tzH challengeMax usernameLen).out.length ≤ 127 :=
  List.length_take_le _ _

theorem verifyTextOf_eq {d : LrvData} {challenge respSig : List UInt8}
    (hcertsig : d.certSig.length = 64) (hzero : 0 ∉ challenge) (hlen : challenge.length ≤ 127)
    (hresp : respSig.length = 64) :
    verifyTextOf d challenge respSig =
      verifyTextEncoded d.serial.toNat (certText d) d.certSig challenge respSig := by
  have hcert := length_certText_le d
  rw [verifyTextOf, verifyTextEncoded, b64urlEncode_fits (by omega), b64urlEncode_fits (by omega),
    b64urlEncode_fits (by omega), urlEncode_fits hzero (by omega)]

theorem length_verifyTextEncoded_le {serial : Nat} {cert certsig challenge resp : List UInt8}
    (hserial : serial < 10 ^ 5) (hcert : cert.length ≤ 191) (hcertsig : certsig.length = 64)
    (hchallenge : challenge.length ≤ 127) (hresp : resp.length = 64) :
    (verifyTextEncoded serial cert certsig challenge resp).length ≤ 1000 := by
  have hdigits : (showBase 10 serial).length ≤ 5 := length_showBase_lt_pow hserial
  have hpercent := length_percentEncode_le challenge
  have hascii : (ascii "https://jppdevice.by.m4l3vi.ch/verify").length = 37 ∧
      (ascii "?serial=").length = 8 ∧ (ascii "&cert=").length = 6 ∧
      (ascii "&certsig=").length = 9 ∧ (ascii "&challenge=").length = 11 ∧
      (ascii "&resp=").length = 6 := by decide
  obtain ⟨h₁, h₂, h₃, h₄, h₅, h₆⟩ := hascii
  simp only [verifyTextEncoded, verifyText, List.length_append, List.length_map,
    Base64.length_encode, h₁, h₂, h₃, h₄, h₅, h₆]
  omega

theorem deserialise_eq_some {record : List UInt8} {d : LrvData} (h : deserialise record = some d) :
    rcMinSz ≤ record.length ∧ d.certSig = (record.drop 98).take 64 ∧
      d.cert = (record.drop rcFixedSz).take
        (if u16At record rcOffCertlen < certMax then u16At record rcOffCertlen
          else certMax - 1) := by
  rw [deserialise] at h
  by_cases hmin : record.length < rcMinSz
  · rw [if_pos hmin] at h
    exact absurd h (by simp)
  rw [if_neg hmin] at h
  dsimp only at h
  by_cases hcert : u16At record rcOffCertlen = 0 ∨
      record.length < rcFixedSz + u16At record rcOffCertlen
  · rw [if_pos hcert] at h
    exact absurd h (by simp)
  rw [if_neg hcert] at h
  obtain rfl := Option.some.inj h
  exact ⟨Nat.le_of_not_lt hmin, rfl, rfl⟩

/-- The certificate in a record, which ends with a NUL. -/
def certField (record : List UInt8) : List UInt8 :=
  (record.drop rcFixedSz).take (u16At record rcOffCertlen)

/-- The text in the field of the certificate is the one that the firmware has. -/
theorem certText_eq {record : List UInt8} {d : LrvData} (h : deserialise record = some d)
    (hmax : record.length ≤ rcMaxSz) (hnul : 0 ∈ certField record) :
    certText d = cString (certField record) := by
  have hcert := (deserialise_eq_some h).2.2
  have hfield : d.cert.take (certMax - 1) = (certField record).take (certMax - 1) := by
    rw [hcert, certField, List.take_take, List.take_take]
    congr 1
    split_ifs with hsmall
    · rfl
    · omega
  have hlen : (certField record).length ≤ certMax := by
    rw [certField, List.length_take, List.length_drop]
    rw [rcMaxSz] at hmax
    omega
  have hshort : (cString (certField record)).length ≤ certMax - 1 := by
    have hlt : (cString (certField record)).length < (certField record).length := by
      refine Nat.lt_of_le_of_ne (List.Sublist.length_le (List.takeWhile_sublist _)) fun heq => ?_
      have hall := (List.takeWhile_sublist _).eq_of_length heq
      exact absurd (List.mem_takeWhile_imp (hall ▸ hnul)) (by simp)
    omega
  rw [certText, hfield, cString, ← List.take_takeWhile]
  exact List.take_of_length_le hshort

variable {record : List UInt8} {d : LrvData}
  {sign : List UInt8 → List UInt8 → Option (List UInt8)}

theorem length_lrvSignChallenge
    (hsign : ∀ message key sig, sign message key = some sig → sig.length = 64)
    (challenge : List UInt8) : (lrvSignChallenge sign d challenge).length = 64 := by
  unfold lrvSignChallenge
  cases hsig : sign (cString challenge) d.deviceSeckey with
  | none => exact List.length_replicate
  | some sig => exact hsign _ _ _ hsig

/-- Whoever takes the URL apart has the record, the challenge and the signatures. -/
theorem verificationPage_carries (hdata : deserialise record = some d)
    (hmax : record.length ≤ rcMaxSz)
    (hsign : ∀ message key sig, sign message key = some sig → sig.length = 64)
    (stored : Option CStr) (now : Except RtcStatus RtcDatetime) (tzH : Option Int) :
    let challenge := (buildChallenge stored now tzH challengeMax 0).out
    let respSig := lrvSignChallenge sign d challenge
    Carries (verificationPage sign d stored now tzH)
        (verifyTextEncoded d.serial.toNat (certText d) d.certSig challenge respSig)
        ⟨d.serial.toNat, certText d, d.certSig, challenge, respSig⟩ ∧
      (0 ∈ certField record → certText d = cString (certField record)) := by
  intro challenge respSig
  have hserial := d.serial.toNat_lt
  have hcertsig : d.certSig.length = 64 := by
    obtain ⟨hmin, hfield, -⟩ := deserialise_eq_some hdata
    rw [rcMinSz, rcFixedSz] at hmin
    rw [hfield, List.length_take, List.length_drop]
    omega
  have hresp : respSig.length = 64 := length_lrvSignChallenge hsign challenge
  have hchallenge : challenge.length ≤ 127 := length_challenge_le stored now tzH 0
  have hlen := length_verifyTextEncoded_le (show d.serial.toNat < 10 ^ 5 by omega)
    (length_certText_le d) hcertsig hchallenge hresp
  have hurl : (verificationPage sign d stored now tzH).certpageUrl =
      verifyTextEncoded d.serial.toNat (certText d) d.certSig challenge respSig := by
    change (verifyTextOf d challenge respSig).take 1279 = _
    rw [verifyTextOf_eq hcertsig (zero_notMem_challenge stored now tzH challengeMax 0) hchallenge
      hresp]
    exact List.take_of_length_le (Nat.le_trans hlen (by decide))
  refine ⟨⟨hurl, ?_, ?_, ?_⟩, certText_eq hdata hmax⟩
  · have hlink : (ascii "<a class='btn' href='" ++
        (verificationPage sign d stored now tzH).certpageUrl ++
          ascii "'>Open Certificate Page</a>").take 1599 ∈
        (verificationPage sign d stored now tzH).pieces := by
      simp [LrvPage.pieces]
    have hascii : (ascii "<a class='btn' href='").length = 21 ∧
        (ascii "'>Open Certificate Page</a>").length = 27 := by decide
    rw [hurl, List.take_of_length_le] at hlink
    · exact hlink
    · rw [List.length_append, List.length_append, hascii.1, hascii.2]
      omega
  · rw [hurl]
    exact ⟨_, query_verifyText _ _ _ _ _, queryLegal_verifyText⟩
  · rw [hurl]
    exact readVerifyUrl_encoded

/-- A record with the certificate `A`. -/
def recordA : List UInt8 := List.replicate 186 0 ++ [2, 0, 65, 0]

/-- The identity in it. -/
def dataA : LrvData :=
  ⟨0, List.replicate 32 0, List.replicate 64 0, List.replicate 64 0, [], [65, 0]⟩

theorem verificationPage_carries_dataA :
    let sign := fun _ _ : List UInt8 => some (List.replicate 64 (7 : UInt8))
    let challenge := (buildChallenge none (.error .unavailable) none challengeMax 0).out
    Carries (verificationPage sign dataA none (.error .unavailable) none)
        (verifyTextEncoded 0 (certText dataA) dataA.certSig challenge
          (lrvSignChallenge sign dataA challenge))
        ⟨0, certText dataA, dataA.certSig, challenge, lrvSignChallenge sign dataA challenge⟩ ∧
      (0 ∈ certField recordA → certText dataA = cString (certField recordA)) :=
  verificationPage_carries (show deserialise recordA = some dataA by decide +kernel)
    (by decide +kernel)
    (fun _ _ _ h => by obtain rfl := Option.some.inj h; rfl) none (.error .unavailable) none

end Lrv
end JppDos
