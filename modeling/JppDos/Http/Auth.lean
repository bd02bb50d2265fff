import JppDos.Http.Confinement
import JppDos.Lib.Base64

/-!
# The credentials of the WebDAV server

What `check_auth` accepts.  Its decoder takes a character outside the alphabet for an `A`, looks for
`=` at two positions of a group only, and drops the bits that are left; and the decoded text is
compared up to its first NUL.

Main fact:
* `auth_exact_iff`: the credentials, and only these, are accepted exactly when the header is not a
  loose spelling of them.
-/

namespace JppDos
namespace Http

open CText

theorem b64Val_char {n : Nat} (h : n < 64) : b64Val (Base64.char n) = n := by
  have hall : ∀ n < 64, b64Val (Base64.char n) = n := by decide
  exact hall n h

theorem length_b64Groups (src : List UInt8) : (b64Groups src).length ≤ src.length / 4 * 3 := by
  induction src using b64Groups.induct with
  | case1 s0 s1 s2 s3 src ih =>
      rw [b64Groups]
      simp only [List.length_append, List.length_cons, List.length_nil]
      split_ifs <;> simp only [List.length_cons, List.length_nil] <;> omega
  | case2 src hshort =>
      rw [b64Groups]
      · exact Nat.zero_le _
      · exact hshort

theorem b64Decode_fits {src decoded : List UInt8} {dstSize : Nat}
    (h : b64Decode src dstSize = some decoded) : decoded.length + 1 ≤ dstSize := by
  unfold b64Decode at h
  split_ifs at h with hgroups hroom
  obtain rfl := Option.some.inj h
  have hlength := length_b64Groups src
  omega

theorem first_byte (a : UInt8) {n : Nat} (hn : n / 16 = a.toNat % 4) :
    UInt8.ofNat ((a.toNat / 4) <<< 2 ||| n >>> 4) = a := by
  have ha := a.toNat_lt
  rw [Nat.shiftRight_eq_div_pow, Base64.or_shift (by omega)]
  refine (congrArg UInt8.ofNat ?_).trans UInt8.ofNat_toNat
  omega

theorem second_byte (b : UInt8) {n m : Nat} (hn : n % 16 = b.toNat / 16)
    (hm : m / 4 = b.toNat % 16) : UInt8.ofNat ((n &&& 0xf) <<< 4 ||| m >>> 2) = b := by
  have hb := b.toNat_lt
  rw [show (0xf : Nat) = 2 ^ 4 - 1 from rfl, Nat.and_two_pow_sub_one_eq_mod,
    Nat.shiftRight_eq_div_pow, Base64.or_shift (by omega)]
  refine (congrArg UInt8.ofNat ?_).trans UInt8.ofNat_toNat
  omega

theorem third_byte (c : UInt8) {n : Nat} (hn : n % 4 = c.toNat / 64) :
    UInt8.ofNat ((n &&& 0x3) <<< 6 ||| c.toNat % 64) = c := by
  have hc := c.toNat_lt
  rw [show (0x3 : Nat) = 2 ^ 2 - 1 from rfl, Nat.and_two_pow_sub_one_eq_mod,
    Base64.or_shift (by omega)]
  refine (congrArg UInt8.ofNat ?_).trans UInt8.ofNat_toNat
  omega

theorem b64Groups_encode (bytes : List UInt8) : b64Groups (Base64.encode bytes) = bytes := by
  have hdigit : ∀ n < 64, Base64.char n ≠ 61 := fun n hn => Base64.char_ne_pad hn
  induction bytes using Base64.encode.induct with
  | case1 a b c rest ih =>
      have ha := a.toNat_lt
      have hb := b.toNat_lt
      have hc := c.toNat_lt
      rw [Base64.encode, b64Groups]
      rw [b64Val_char (by omega), b64Val_char (by omega), b64Val_char (by omega),
        b64Val_char (by omega), if_pos (hdigit (b.toNat % 16 * 4 + c.toNat / 64) (by omega)),
        if_pos (hdigit (c.toNat % 64) (by omega)), first_byte a (by omega),
        second_byte b (by omega) (by omega), third_byte c (by omega), ih]
      rfl
  | case2 a b =>
      have ha := a.toNat_lt
      have hb := b.toNat_lt
      rw [Base64.encode, b64Groups]
      rw [b64Val_char (by omega), b64Val_char (by omega), b64Val_char (by omega),
        if_pos (hdigit (b.toNat % 16 * 4) (by omega)), if_neg (by decide), first_byte a (by omega),
        second_byte b (by omega) (by omega)]
      rfl
  | case3 a =>
      have ha := a.toNat_lt
      rw [Base64.encode, b64Groups]
      rw [b64Val_char (by omega), b64Val_char (by omega), if_neg (by decide), if_neg (by decide),
        first_byte a (by omega)]
      rfl
  | case4 => rfl

/-- `jppd:` and the password. -/
def credentials (fs : Fs) : List UInt8 := ascii "jppd:" ++ fs.password

/-- The header of the credentials. -/
def basicAuth (fs : Fs) : List UInt8 := ascii "Basic " ++ Base64.encode (credentials fs)

/-- What is asked of `check_auth`: the credentials and only these are accepted, and the decoder
stays in its 32 bytes. -/
structure AuthExact (fs : Fs) (req : Request) : Prop where
  accepts : checkAuth fs req = true ↔
    jppHttpHeader req (ascii "Authorization") = some (basicAuth fs)
  inside : ∀ hdr decoded, jppHttpHeader req (ascii "Authorization") = some hdr →
    b64Decode (hdr.drop 6) 32 = some decoded → decoded.length + 1 ≤ 32

/-- The header is spelled so that the decoder reads the credentials up to the first NUL, but it is
not the encoding of bytes without a NUL. -/
def LooseSpelling (fs : Fs) (hdr : List UInt8) : Prop :=
  hdr.take 6 = ascii "Basic " ∧ (hdr.drop 6).length % 4 = 0 ∧ (hdr.drop 6).length ≤ 40 ∧
    cString (b64Groups (hdr.drop 6)) = credentials fs ∧
    ¬ ∃ bytes, 0 ∉ bytes ∧ hdr.drop 6 = Base64.encode bytes

/-- What `check_auth` looks at. -/
theorem checkAuth_iff (fs : Fs) (req : Request) :
    checkAuth fs req = true ↔ ∃ hdr, jppHttpHeader req (ascii "Authorization") = some hdr ∧
      hdr.take 6 = ascii "Basic " ∧ (hdr.drop 6).length % 4 = 0 ∧ (hdr.drop 6).length ≤ 40 ∧
        cString (b64Groups (hdr.drop 6)) = credentials fs := by
  unfold checkAuth
  cases hheader : jppHttpHeader req (ascii "Authorization") with
  | none => simp
  | some hdr =>
      simp only [Option.some.injEq, exists_eq_left']
      by_cases hbasic : hdr.take 6 = ascii "Basic "
      · rw [if_neg (not_not.mpr hbasic)]
        unfold b64Decode
        by_cases hgroups : (hdr.drop 6).length % 4 = 0
        · rw [if_neg (not_not.mpr hgroups)]
          by_cases hroom : 32 < (hdr.drop 6).length / 4 * 3 + 1
          · rw [if_pos hroom]
            refine iff_of_false Bool.false_ne_true ?_
            rintro ⟨-, -, hshort, -⟩
            omega
          · rw [if_neg hroom]
            simp only [Bool.and_eq_true, beq_iff_eq]
            constructor
            · rintro ⟨hfront, hrest⟩
              refine ⟨hbasic, hgroups, by omega, ?_⟩
              rw [← List.take_append_drop 5 (cString (b64Groups (hdr.drop 6))), hfront, hrest]
              rfl
            · rintro ⟨-, -, -, hcreds⟩
              rw [hcreds]
              exact ⟨List.take_left' rfl, List.drop_left' rfl⟩
        · rw [if_pos hgroups]
          exact iff_of_false Bool.false_ne_true fun h => hgroups h.2.1
      · rw [if_pos hbasic]
        exact iff_of_false Bool.false_ne_true fun h => hbasic h.1

theorem cString_of_notMem {bytes : List UInt8} (h : 0 ∉ bytes) : cString bytes = bytes := by
  refine List.takeWhile_eq_self_iff.mpr fun b hb => ?_
  simpa using fun hzero : b = 0 => h (hzero ▸ hb)

/-- The header of the credentials is accepted, also with the longest password. -/
theorem accepted_basicAuth {fs : Fs} (hnul : 0 ∉ fs.password) (hlen : fs.password.length ≤ 24) :
    (basicAuth fs).take 6 = ascii "Basic " ∧ ((basicAuth fs).drop 6).length % 4 = 0 ∧
      ((basicAuth fs).drop 6).length ≤ 40 ∧
        cString (b64Groups ((basicAuth fs).drop 6)) = credentials fs := by
  have hdrop : (basicAuth fs).drop 6 = Base64.encode (credentials fs) := List.drop_left' rfl
  have hlength : (credentials fs).length = 5 + fs.password.length := List.length_append
  have hcreds : 0 ∉ credentials fs := by
    rw [credentials, List.mem_append, not_or]
    exact ⟨by decide, hnul⟩
  rw [hdrop, Base64.length_encode, b64Groups_encode]
  exact ⟨List.take_left' rfl, by omega, by omega, cString_of_notMem hcreds⟩

/-- The credentials and only these are accepted exactly when the header is no loose spelling of
them. -/
theorem auth_exact_iff {fs : Fs} (hnul : 0 ∉ fs.password) (hlen : fs.password.length ≤ 24)
    (req : Request) :
    AuthExact fs req ↔
      ∀ hdr, jppHttpHeader req (ascii "Authorization") = some hdr → ¬ LooseSpelling fs hdr := by
  constructor
  · rintro h hdr hheader ⟨hbasic, hgroups, hshort, hcreds, hloose⟩
    have haccepted := h.accepts.mp
      ((checkAuth_iff fs req).mpr ⟨hdr, hheader, hbasic, hgroups, hshort, hcreds⟩)
    obtain rfl := Option.some.inj (hheader.symm.trans haccepted)
    refine hloose ⟨credentials fs, ?_, List.drop_left' rfl⟩
    rw [credentials, List.mem_append, not_or]
    exact ⟨by decide, hnul⟩
  · intro h
    refine ⟨⟨fun haccepted => ?_, fun hheader => ?_⟩,
      fun hdr decoded _ hdecoded => b64Decode_fits hdecoded⟩
    · obtain ⟨hdr, hheader, hbasic, hgroups, hshort, hcreds⟩ := (checkAuth_iff fs req).mp haccepted
      have hstrict : ∃ bytes, 0 ∉ bytes ∧ hdr.drop 6 = Base64.encode bytes := by
        by_contra hloose
        exact h hdr hheader ⟨hbasic, hgroups, hshort, hcreds, hloose⟩
      obtain ⟨bytes, hbytes, hencoded⟩ := hstrict
      rw [hencoded, b64Groups_encode, cString_of_notMem hbytes] at hcreds
      rw [hheader, basicAuth, ← hcreds, ← hencoded, ← hbasic, List.take_append_drop]
    · exact (checkAuth_iff fs req).mpr ⟨_, hheader, accepted_basicAuth hnul hlen⟩

theorem auth_exact_pw : AuthExact exampleFs (exampleRequest "GET" [47]) := by
  refine (auth_exact_iff (by decide) (by decide) _).mpr fun hdr hheader hloose => ?_
  have hfound : jppHttpHeader (exampleRequest "GET" [47]) (ascii "Authorization") =
      some (ascii "Basic anBwZDpwdw==") := by decide
  obtain rfl := Option.some.inj (hfound.symm.trans hheader)
  exact hloose.2.2.2.2 ⟨ascii "jppd:pw", by decide, by decide⟩

/-- The same request with other credentials. -/
def withAuth (auth : String) : Request :=
  { exampleRequest "GET" [47] with hdr := [(ascii "Authorization", ascii auth)] }

/-- The bits behind the last byte are not looked at. -/
theorem not_auth_exact :
    ¬ ∀ (fs : Fs) (req : Request), fs.password ≠ [] → 0 ∉ fs.password →
      fs.password.length ≤ 24 → AuthExact fs req := by
  intro h
  have hexact := h exampleFs (withAuth "Basic anBwZDpwdx==") (by decide) (by decide) (by decide)
  have haccepted : checkAuth exampleFs (withAuth "Basic anBwZDpwdx==") = true := by decide
  exact absurd (hexact.accepts.mp haccepted) (by decide)

end Http
end JppDos
