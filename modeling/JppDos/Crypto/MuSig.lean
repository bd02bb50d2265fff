import JppDos.Crypto.Sodium
import Mathlib.Algebra.BigOperators.Group.List.Basic
import Mathlib.Algebra.Module.NatInt
import Mathlib.Tactic.Abel

/-!
# Multi-signatures

Key aggregation, nonces, partial signatures, their sum, and verification, on the byte
strings that the functions take and give.
-/

namespace JppDos
namespace Crypto

open LittleEndian

section Functions

variable (S : Sodium)

/-- `compute_key_list_hash`. -/
def computeKeyListHash (pubkeys : List (List UInt8)) : List UInt8 := S.sha512 pubkeys.flatten

/-- `compute_key_coeff`. -/
def computeKeyCoeff (hash pubkey : List UInt8) : List UInt8 :=
  S.scalarReduce (S.sha512 (hash ++ pubkey))

/-- The rest of the loop of `jpp_crypto_musig2_aggregate_pubkeys`, behind the first key. -/
def addTerms (hash acc : List UInt8) : List (List UInt8) → Option (List UInt8)
  | [] => some acc
  | pubkey :: pubkeys => do
      let term ← S.scalarmult (computeKeyCoeff S hash pubkey) pubkey
      let acc ← S.add acc term
      addTerms hash acc pubkeys

/-- `jpp_crypto_musig2_aggregate_pubkeys`. -/
def aggregatePubkeys (pubkeys : List (List UInt8)) : Option (List UInt8) :=
  match pubkeys with
  | [] => none
  | pubkey :: rest => do
      let hash := computeKeyListHash S pubkeys
      let term ← S.scalarmult (computeKeyCoeff S hash pubkey) pubkey
      addTerms S hash term rest

/-- A zeroed buffer. -/
def zeros (n : Nat) : List UInt8 := List.replicate n 0

/-- `jpp_crypto_musig2_nonce_gen` from 32 random bytes: the secret and the public nonce. -/
def nonceGen (random : List UInt8) : Option (List UInt8 × List UInt8) := do
  let r := S.scalarReduce (random ++ zeros 32)
  let R ← S.scalarmultBase r
  some (r ++ R, R ++ zeros 32)

/-- `jpp_crypto_musig2_aggregate_nonces`. -/
def aggregateNonces (pubNonces : List (List UInt8)) : Option (List UInt8) :=
  match pubNonces with
  | [] => none
  | nonce :: rest => do
      let acc ← rest.foldlM (fun acc nonce => S.add acc (nonce.take 32)) (nonce.take 32)
      some (acc ++ zeros 32)

/-- The challenge of a signature. -/
def challenge (aggPubkey aggNonce message : List UInt8) : List UInt8 :=
  S.scalarReduce (S.sha512 (aggPubkey ++ aggNonce ++ message))

/-- Clear and set the bits of a secret scalar. -/
def clamp (bytes : List UInt8) : List UInt8 :=
  match bytes with
  | b :: rest => ((b &&& 248) :: rest).modify 31 fun b => (b &&& 127) ||| 64
  | [] => []

/-- The secret scalar of a seed. -/
def secretScalar (seed : List UInt8) : List UInt8 := (clamp (S.sha512 seed)).take 32

/-- `jpp_crypto_musig2_partial_sign`. -/
def partialSign (secretNonce seckey : List UInt8) (allPubkeys : List (List UInt8))
    (aggPubnonce message : List UInt8) : Option (List UInt8) := do
  let r := secretNonce.take 32
  let R := aggPubnonce.take 32
  let x := secretScalar S (seckey.take 32)
  let P ← aggregatePubkeys S allPubkeys
  let c := challenge S P R message
  let a := computeKeyCoeff S (computeKeyListHash S allPubkeys) ((seckey.drop 32).take 32)
  let temp1 := S.scalarMul c a
  let temp2 := S.scalarMul temp1 x
  some (S.scalarAdd r temp2)

/-- `jpp_crypto_musig2_aggregate_sigs`: the second half of the final signature. -/
def aggregateSigs (partialSigs : List (List UInt8)) : Option (List UInt8) :=
  match partialSigs with
  | [] => none
  | s :: rest => some (rest.foldl S.scalarAdd s)

/-- `jpp_crypto_musig2_verify`. -/
def verify (message aggPubkey finalSig : List UInt8) : Bool :=
  let R := finalSig.take 32
  let s := (finalSig.drop 32).take 32
  let c := challenge S aggPubkey R message
  match S.scalarmultBase s with
  | none => false
  | some sG =>
      match S.scalarmult c aggPubkey with
      | none => false
      | some cP =>
          match S.add R cP with
          | none => false
          | some expected => sG == expected

end Functions

section Points

variable {S : Sodium} {G : Type} [AddCommGroup G] (C : Curve S G)

/-- The coefficient of a key in a list of keys. -/
def coeff (pubkeys : List (List UInt8)) (pubkey : List UInt8) : Nat :=
  leNat (computeKeyCoeff S (computeKeyListHash S pubkeys) pubkey)

/-- The aggregate of a list of keys. -/
def aggregatePoint (pubkeys : List (List UInt8)) : G :=
  (pubkeys.map fun pk => coeff (S := S) pubkeys pk • C.point pk).sum

include C in
theorem multiplier_computeKeyCoeff (hash pubkey : List UInt8) :
    multiplier (computeKeyCoeff S hash pubkey) = leNat (computeKeyCoeff S hash pubkey) := by
  rw [computeKeyCoeff, C.scalarReduce_eq, C.multiplier_scalar (C.mod_order_lt _),
    C.leNat_scalar (C.mod_order_lt _)]

theorem addTerms_some {hash : List UInt8} {pubkeys : List (List UInt8)} {g : G}
    {P : List UInt8} (h : addTerms S hash (C.encode g) pubkeys = some P) :
    (∀ pk ∈ pubkeys, C.order • C.point pk = 0) ∧
      P = C.encode (g + (pubkeys.map fun pk =>
        leNat (computeKeyCoeff S hash pk) • C.point pk).sum) := by
  induction pubkeys generalizing g with
  | nil =>
      obtain rfl := Option.some.inj h
      simp
  | cons pk pks ih =>
      obtain ⟨term, hterm, h⟩ := Option.bind_eq_some_iff.mp h
      obtain ⟨acc, hacc, h⟩ := Option.bind_eq_some_iff.mp h
      obtain ⟨horder, rfl⟩ := C.scalarmult_some hterm
      rw [C.add_eq, C.decode_encode, C.decode_encode] at hacc
      obtain rfl := Option.some.inj hacc
      obtain ⟨hrest, rfl⟩ := ih h
      rw [List.forall_mem_cons]
      refine ⟨⟨horder, hrest⟩, ?_⟩
      rw [multiplier_computeKeyCoeff C, List.map_cons, List.sum_cons, add_assoc]

/-- An aggregate of keys is the sum of the keys with their coefficients. -/
theorem aggregatePubkeys_some {pubkeys : List (List UInt8)} {P : List UInt8}
    (h : aggregatePubkeys S pubkeys = some P) :
    (∀ pk ∈ pubkeys, C.order • C.point pk = 0) ∧ P = C.encode (aggregatePoint C pubkeys) := by
  cases pubkeys with
  | nil => exact absurd h (by simp [aggregatePubkeys])
  | cons pk pks =>
      obtain ⟨term, hterm, h⟩ := Option.bind_eq_some_iff.mp h
      obtain ⟨horder, rfl⟩ := C.scalarmult_some hterm
      obtain ⟨hrest, rfl⟩ := addTerms_some C h
      rw [List.forall_mem_cons]
      refine ⟨⟨horder, hrest⟩, ?_⟩
      rw [multiplier_computeKeyCoeff C, aggregatePoint, List.map_cons, List.sum_cons]
      rfl

theorem order_aggregatePoint {pubkeys : List (List UInt8)}
    (h : ∀ pk ∈ pubkeys, C.order • C.point pk = 0) :
    C.order • aggregatePoint C pubkeys = 0 := by
  rw [aggregatePoint]
  generalize coeff (S := S) pubkeys = a
  induction pubkeys with
  | nil => exact nsmul_zero _
  | cons pk pks ih =>
      obtain ⟨hpk, hpks⟩ := List.forall_mem_cons.mp h
      rw [List.map_cons, List.sum_cons, nsmul_add, ih hpks, add_zero, ← mul_nsmul', mul_comm,
        mul_nsmul', hpk, nsmul_zero]

/-- The point of a public nonce. -/
def noncePoint (nonce : List UInt8) : G := C.point (nonce.take 32)

theorem foldlM_add_some {nonces : List (List UInt8)} {g : G} {R : List UInt8}
    (h : nonces.foldlM (fun acc nonce => S.add acc (nonce.take 32)) (C.encode g) = some R) :
    R = C.encode (g + (nonces.map (noncePoint C)).sum) := by
  induction nonces generalizing g with
  | nil =>
      obtain rfl := Option.some.inj h
      simp
  | cons nonce nonces ih =>
      rw [List.foldlM_cons] at h
      obtain ⟨acc, hacc, h⟩ := Option.bind_eq_some_iff.mp h
      rw [C.add_eq, C.decode_encode] at hacc
      obtain ⟨n, hn, rfl⟩ := Option.map_eq_some_iff.mp hacc
      rw [ih h, List.map_cons, List.sum_cons, ← add_assoc, noncePoint, Curve.point, hn,
        Option.getD_some]

/-- An aggregate of two or more nonces is the sum of their points. -/
theorem aggregateNonces_some {nonce : List UInt8} {nonces : List (List UInt8)}
    (hne : nonces ≠ []) {R : List UInt8} (h : aggregateNonces S (nonce :: nonces) = some R) :
    R.take 32 = C.encode (((nonce :: nonces).map (noncePoint C)).sum) := by
  obtain ⟨acc, hacc, h⟩ := Option.bind_eq_some_iff.mp h
  obtain rfl := Option.some.inj h
  cases nonces with
  | nil => exact absurd rfl hne
  | cons second rest =>
      rw [List.foldlM_cons] at hacc
      obtain ⟨acc', hacc', hacc⟩ := Option.bind_eq_some_iff.mp hacc
      rw [C.add_eq] at hacc'
      obtain ⟨g, hg, hacc'⟩ := Option.bind_eq_some_iff.mp hacc'
      obtain ⟨n, hn, rfl⟩ := Option.map_eq_some_iff.mp hacc'
      obtain rfl := foldlM_add_some C hacc
      rw [List.take_left' (C.length_encode _), List.map_cons, List.map_cons, List.sum_cons,
        List.sum_cons, ← add_assoc, noncePoint, noncePoint, Curve.point, Curve.point, hg, hn,
        Option.getD_some, Option.getD_some]

/-- The challenge as a number. -/
def challengeNat (P R message : List UInt8) : Nat := leNat (challenge S P R message)

include C in
theorem multiplier_challenge (P R message : List UInt8) :
    multiplier (challenge S P R message) = challengeNat (S := S) P R message := by
  rw [challengeNat, challenge, C.scalarReduce_eq, C.multiplier_scalar (C.mod_order_lt _),
    C.leNat_scalar (C.mod_order_lt _)]

/-- The equation of a signature under a key: the multiple of the base is the nonce with the
challenge's share of the key, and neither multiple is the neutral point. -/
def Signed (P : G) (message R s : List UInt8) : Prop :=
  ∃ r, C.decode R = some r ∧ multiplier s • C.base ≠ 0 ∧
    challengeNat (S := S) (C.encode P) R message • P ≠ 0 ∧
    multiplier s • C.base = r + challengeNat (S := S) (C.encode P) R message • P

theorem verify_iff {message sig : List UInt8} {P : G} (hP : C.order • P = 0) :
    verify S message (C.encode P) sig = true ↔
      Signed C P message (sig.take 32) ((sig.drop 32).take 32) := by
  generalize hR : sig.take 32 = R
  generalize hs : (sig.drop 32).take 32 = s
  simp only [verify, hR, hs, Signed]
  by_cases hbase : multiplier s • C.base = 0
  · simp [C.scalarmultBase_zero s hbase, hbase]
  rw [C.scalarmultBase_eq s hbase]
  rcases C.scalarmult_encode (challenge S (C.encode P) R message) hP with
    ⟨hnone, hzero⟩ | ⟨hsome, hne⟩
  · rw [multiplier_challenge C] at hzero
    simp [hnone, hzero]
  rw [multiplier_challenge C] at hsome hne
  simp only [hsome, C.add_eq, C.decode_encode, Option.map_some]
  cases C.decode R with
  | none => simp
  | some r => simp [hbase, hne, C.encode_injective.eq_iff]

theorem and_or_lt (b : UInt8) : ((b &&& 127) ||| 64).toNat < 128 := by
  rw [UInt8.toNat_or, UInt8.toNat_and]
  exact Nat.or_lt_two_pow (n := 7) (Nat.and_lt_two_pow _ (by decide)) (by decide)

theorem leNat_clamp_lt {bytes : List UInt8} (h : bytes.length = 64) :
    leNat ((clamp bytes).take 32) < 2 ^ 255 := by
  cases bytes with
  | nil => simp at h
  | cons b rest =>
      have hlen : 31 < ((b &&& 248) :: rest).length := by
        simp only [List.length_cons] at h ⊢
        omega
      rw [clamp, List.modify_eq_take_cons_drop hlen]
      have hfront : (((b &&& 248) :: rest).take 31).length = 31 := by
        rw [List.length_take]
        omega
      rw [show ∀ (l : List UInt8) (x : UInt8) (r : List UInt8), l ++ x :: r = (l ++ [x]) ++ r by
        simp, List.take_left' (by rw [List.length_append, hfront]; rfl), leNat_append, hfront]
      have htop := and_or_lt ((b &&& 248) :: rest)[31]
      have hlow := leNat_lt (((b &&& 248) :: rest).take 31)
      rw [hfront] at hlow
      simp only [leNat, mul_zero, add_zero]
      omega

/-- The key pair of a seed: the point of its secret scalar, and the seed with it. -/
structure KeyPair (S : Sodium) where
  pubkey : List UInt8
  seckey : List UInt8
  seed : List UInt8
  length_seed : seed.length = 32
  length_pubkey : pubkey.length = 32
  pubkey_eq : S.scalarmultBase (secretScalar S seed) = some pubkey
  seckey_eq : seckey = seed ++ pubkey

/-- The public key of a pair is its secret scalar's point. -/
theorem KeyPair.point_pubkey (kp : KeyPair S) :
    C.point kp.pubkey = leNat (secretScalar S kp.seed) • C.base := by
  obtain ⟨-, hpubkey⟩ := C.scalarmultBase_some kp.pubkey_eq
  rw [hpubkey, C.point_encode, multiplier, secretScalar,
    Nat.mod_eq_of_lt (leNat_clamp_lt (C.length_sha512 _))]

theorem nonceGen_some {random sec pub : List UInt8} (h : nonceGen S random = some (sec, pub)) :
    ∃ r < C.order, sec.take 32 = scalar r ∧ pub.take 32 = C.encode (r • C.base) := by
  obtain ⟨R, hR, h⟩ := Option.bind_eq_some_iff.mp h
  obtain ⟨rfl, rfl⟩ := Prod.mk.inj (Option.some.inj h)
  obtain ⟨-, rfl⟩ := C.scalarmultBase_some hR
  have hlt := C.mod_order_lt (leNat (random ++ zeros 32))
  refine ⟨_, hlt, ?_, ?_⟩
  · rw [C.scalarReduce_eq, List.take_left' (length_scalar _)]
  · rw [List.take_left' (C.length_encode _), C.scalarReduce_eq, C.multiplier_scalar hlt]

/-- The challenge's share of a key. -/
def keyShare (pubkeys : List (List UInt8)) (R message pubkey : List UInt8) : G :=
  (challengeNat (S := S) (C.encode (aggregatePoint C pubkeys)) R message *
    coeff (S := S) pubkeys pubkey) • C.point pubkey

/-- The challenge's share of the aggregate is the sum of its shares of the keys. -/
theorem challenge_smul_aggregatePoint (pubkeys : List (List UInt8)) (R message : List UInt8) :
    challengeNat (S := S) (C.encode (aggregatePoint C pubkeys)) R message •
        aggregatePoint C pubkeys = (pubkeys.map (keyShare C pubkeys R message)).sum := by
  unfold keyShare
  generalize challengeNat (S := S) (C.encode (aggregatePoint C pubkeys)) R message = c
  rw [aggregatePoint]
  generalize coeff (S := S) pubkeys = a
  induction pubkeys with
  | nil => exact nsmul_zero _
  | cons pk pks ih =>
      rw [List.map_cons, List.sum_cons, nsmul_add, ih, List.map_cons, List.sum_cons, mul_nsmul']

theorem partialSign_aggregates {sec seckey R message σ : List UInt8}
    {pubkeys : List (List UInt8)} (h : partialSign S sec seckey pubkeys R message = some σ) :
    aggregatePubkeys S pubkeys = some (C.encode (aggregatePoint C pubkeys)) ∧
      ∀ pk ∈ pubkeys, C.order • C.point pk = 0 := by
  obtain ⟨P, hP, -⟩ := Option.bind_eq_some_iff.mp h
  obtain ⟨horder, rfl⟩ := aggregatePubkeys_some C hP
  exact ⟨hP, horder⟩

/-- An honest partial signature meets its own equation. -/
theorem partialSign_some {kp : KeyPair S} {sec R message σ : List UInt8} {r : Nat}
    {pubkeys : List (List UInt8)} (hr : r < C.order) (hsec : sec.take 32 = scalar r)
    (h : partialSign S sec kp.seckey pubkeys R message = some σ) :
    aggregatePubkeys S pubkeys = some (C.encode (aggregatePoint C pubkeys)) ∧
      (∀ pk ∈ pubkeys, C.order • C.point pk = 0) ∧
      ∃ k < C.order, σ = scalar k ∧
        k • C.base = r • C.base + keyShare C pubkeys (R.take 32) message kp.pubkey := by
  obtain ⟨P, hP, h⟩ := Option.bind_eq_some_iff.mp h
  obtain ⟨horder, rfl⟩ := aggregatePubkeys_some C hP
  refine ⟨hP, horder, ?_⟩
  obtain rfl := Option.some.inj h
  have hseed : kp.seckey.take 32 = kp.seed := by
    rw [kp.seckey_eq, List.take_left' kp.length_seed]
  have hpubkey : (kp.seckey.drop 32).take 32 = kp.pubkey := by
    rw [kp.seckey_eq, List.drop_left' kp.length_seed,
      List.take_of_length_le kp.length_pubkey.le]
  rw [hsec, hseed, hpubkey, C.scalarAdd_eq, C.scalarMul_eq, C.scalarMul_eq, C.leNat_scalar hr,
    C.leNat_scalar (C.mod_order_lt _), C.leNat_scalar (C.mod_order_lt _)]
  refine ⟨_, C.mod_order_lt _, rfl, ?_⟩
  have hsum : ∀ n, r + n % C.order < 2 ^ 256 := fun n => by
    have hn := C.mod_order_lt n
    have ho : C.order ≤ 2 ^ 255 := C.order_le.trans (Nat.pow_le_pow_right (by omega) (by omega))
    omega
  rw [keyShare, kp.point_pubkey C, ← mul_nsmul', C.mod_order_smul C.order_base,
    Nat.mod_eq_of_lt (hsum _), add_nsmul, C.mod_order_smul C.order_base, mul_comm, mul_nsmul',
    mul_comm _ (leNat (secretScalar S kp.seed)), mul_nsmul', C.mod_order_smul C.order_base]
  rfl

/-- Shares added one by one to a scalar, as 32-byte numbers and then reduced. -/
def addShares (k : Nat) (sigs : List (List UInt8)) : Nat :=
  sigs.foldl (fun acc s => (acc + leNat s) % 2 ^ 256 % C.order) k

theorem addShares_lt {k : Nat} (hk : k < C.order) (sigs : List (List UInt8)) :
    addShares C k sigs < C.order := by
  induction sigs generalizing k with
  | nil => exact hk
  | cons s sigs ih => exact ih (C.mod_order_lt _)

/-- The sum of partial signatures is the scalar of their added shares. -/
theorem aggregateSigs_eq {k : Nat} (hk : k < C.order) (sigs : List (List UInt8)) :
    aggregateSigs S (scalar k :: sigs) = some (scalar (addShares C k sigs)) := by
  refine congrArg some ?_
  induction sigs generalizing k with
  | nil => rfl
  | cons s sigs ih =>
      rw [List.foldl_cons, C.scalarAdd_eq, C.leNat_scalar hk, ih (C.mod_order_lt _)]
      rfl

theorem addShares_smul {k : Nat} (hk : k < C.order) {sigs : List (List UInt8)}
    (hsigs : ∀ s ∈ sigs, leNat s < C.order) :
    addShares C k sigs • C.base =
      k • C.base + (sigs.map fun s => leNat s • C.base).sum := by
  induction sigs generalizing k with
  | nil => exact (add_zero _).symm
  | cons s sigs ih =>
      obtain ⟨hs, hsigs⟩ := List.forall_mem_cons.mp hsigs
      have hwrap : k + leNat s < 2 ^ 256 := by
        have ho : C.order ≤ 2 ^ 255 :=
          C.order_le.trans (Nat.pow_le_pow_right (by omega) (by omega))
        omega
      have hstep : addShares C k (s :: sigs) = addShares C ((k + leNat s) % C.order) sigs := by
        rw [addShares, List.foldl_cons, Nat.mod_eq_of_lt hwrap]
        rfl
      rw [hstep, ih (C.mod_order_lt _) hsigs, C.mod_order_smul C.order_base, add_nsmul,
        List.map_cons, List.sum_cons, add_assoc]

end Points

end Crypto
end JppDos
