import JppDos.Crypto.MuSig
import JppDos.Crypto.Residues

/-!
# Honest signers make valid signatures

A run of the multi-signature functions in which every signer follows them: key pairs, nonces,
the aggregates, the partial signatures and their sum.

Main fact:
* `musig2_complete`: the signature is accepted for the key list and the message.
-/

namespace JppDos
namespace Crypto

open LittleEndian

/-- A signer with its key pair and the nonces made from its random bytes. -/
structure Signer (S : Sodium) where
  keys : KeyPair S
  random : List UInt8
  secNonce : List UInt8
  pubNonce : List UInt8
  nonce_eq : nonceGen S random = some (secNonce, pubNonce)

/-- The key list that all signers use. -/
def keyList {S : Sodium} (signers : List (Signer S)) : List (List UInt8) :=
  signers.map fun x => x.keys.pubkey

/-- The functions in the order of the protocol, none of which returns an error. -/
structure MusigRun (S : Sodium) where
  signers : List (Signer S)
  message : List UInt8
  aggNonce : List UInt8
  nonces_eq : aggregateNonces S (signers.map Signer.pubNonce) = some aggNonce
  partials : List (List UInt8)
  partials_eq : signers.map (fun x =>
    partialSign S x.secNonce x.keys.seckey (keyList signers) aggNonce message) = partials.map some
  sigHalf : List UInt8
  sigHalf_eq : aggregateSigs S partials = some sigHalf
  aggPubkey : List UInt8
  aggPubkey_eq : aggregatePubkeys S (keyList signers) = some aggPubkey

/-- The signature: the caller puts the aggregate nonce before the sum. -/
def MusigRun.signature {S : Sodium} (run : MusigRun S) : List UInt8 :=
  run.aggNonce.take 32 ++ run.sigHalf

section Sums

variable {S : Sodium} {G : Type} [AddCommGroup G] (C : Curve S G)

theorem Signer.pubNonce_eq (x : Signer S) :
    ∃ r < C.order, x.secNonce.take 32 = scalar r ∧ r • C.base = noncePoint C x.pubNonce ∧
      x.pubNonce.take 32 = C.encode (noncePoint C x.pubNonce) := by
  obtain ⟨r, hr, hsec, hpub⟩ := nonceGen_some C x.nonce_eq
  have hpoint : noncePoint C x.pubNonce = r • C.base := by
    rw [noncePoint, hpub, C.point_encode]
  exact ⟨r, hr, hsec, hpoint.symm, by rw [hpoint, hpub]⟩

/-- The aggregate nonce of one or more signers is the sum of their points. -/
theorem aggregateNonces_signers {signers : List (Signer S)} {R : List UInt8}
    (h : aggregateNonces S (signers.map Signer.pubNonce) = some R) :
    R.take 32 = C.encode (signers.map fun x => noncePoint C x.pubNonce).sum := by
  cases signers with
  | nil => cases h
  | cons x rest =>
      cases rest with
      | nil =>
          obtain ⟨r, -, -, -, hpub⟩ := x.pubNonce_eq C
          have hR : R = x.pubNonce.take 32 ++ zeros 32 := (Option.some.inj h).symm
          rw [hR, hpub, List.take_left' (C.length_encode _)]
          simp
      | cons y rest =>
          rw [List.map_cons] at h
          rw [aggregateNonces_some C (by simp) h, ← List.map_cons, List.map_map]
          rfl

/-- A partial signature is a reduced scalar, worth the nonce and the share of the key. -/
theorem Signer.share (x : Signer S) {pubkeys : List (List UInt8)} {R message σ : List UInt8}
    (h : partialSign S x.secNonce x.keys.seckey pubkeys R message = some σ) :
    ∃ k < C.order, σ = scalar k ∧
      k • C.base = noncePoint C x.pubNonce +
        keyShare C pubkeys (R.take 32) message x.keys.pubkey := by
  obtain ⟨r, hr, hsec, hpoint, -⟩ := x.pubNonce_eq C
  obtain ⟨-, -, k, hk, hσ, hworth⟩ := partialSign_some C hr hsec h
  exact ⟨k, hk, hσ, by rw [hworth, hpoint]⟩

/-- The partial signatures add up to the nonces and the shares of the keys. -/
theorem partials_sum {signers : List (Signer S)} {pubkeys : List (List UInt8)}
    {R message : List UInt8} {partials : List (List UInt8)}
    (h : signers.map (fun x => partialSign S x.secNonce x.keys.seckey pubkeys R message) =
      partials.map some) :
    (∀ σ ∈ partials, ∃ k < C.order, σ = scalar k) ∧
      (partials.map fun σ => leNat σ • C.base).sum =
        (signers.map fun x => noncePoint C x.pubNonce).sum +
          ((keyList signers).map (keyShare C pubkeys (R.take 32) message)).sum := by
  induction signers generalizing partials with
  | nil =>
      obtain rfl : partials = [] := List.map_eq_nil_iff.mp h.symm
      exact ⟨nofun, by simp [keyList]⟩
  | cons x signers ih =>
      obtain ⟨σ, rest, rfl, hσ, hrest⟩ := List.map_eq_cons_iff.mp h.symm
      obtain ⟨k, hk, rfl, hworth⟩ := x.share C hσ.symm
      obtain ⟨hscalars, hsum⟩ := ih hrest.symm
      constructor
      · intro τ hτ
        rcases List.mem_cons.mp hτ with rfl | hτ
        · exact ⟨k, hk, rfl⟩
        · exact hscalars τ hτ
      · simp only [keyList, List.map_cons, List.sum_cons] at hsum ⊢
        rw [C.leNat_scalar hk, hworth, hsum]
        abel

/-- The sum of reduced scalars is worth the sum of their points. -/
theorem aggregateSigs_sum {partials : List (List UInt8)} {s : List UInt8}
    (hscalars : ∀ σ ∈ partials, ∃ k < C.order, σ = scalar k)
    (h : aggregateSigs S partials = some s) :
    ∃ k < C.order, s = scalar k ∧
      k • C.base = (partials.map fun σ => leNat σ • C.base).sum := by
  cases partials with
  | nil => cases h
  | cons σ rest =>
      obtain ⟨⟨k, hk, rfl⟩, hrest⟩ := List.forall_mem_cons.mp hscalars
      rw [aggregateSigs_eq C hk] at h
      obtain rfl := Option.some.inj h
      have hreduced : ∀ τ ∈ rest, leNat τ < C.order := fun τ hτ => by
        obtain ⟨j, hj, rfl⟩ := hrest τ hτ
        rw [C.leNat_scalar hj]
        exact hj
      refine ⟨_, addShares_lt C hk rest, rfl, ?_⟩
      rw [addShares_smul C hk hreduced, List.map_cons, List.sum_cons, C.leNat_scalar hk]

include C in
/-- The signature of any number of honest signers is accepted for their key list and
message, unless one of the multiplications of the verification returns an error. -/
theorem musig2_complete (run : MusigRun S)
    (hbase : S.scalarmultBase run.sigHalf ≠ none)
    (hkey : S.scalarmult (challenge S run.aggPubkey (run.aggNonce.take 32) run.message)
      run.aggPubkey ≠ none) :
    verify S run.message run.aggPubkey run.signature = true := by
  obtain ⟨horder, hP⟩ := aggregatePubkeys_some C run.aggPubkey_eq
  have hR := aggregateNonces_signers C run.nonces_eq
  obtain ⟨hscalars, hsum⟩ := partials_sum C run.partials_eq
  obtain ⟨k, hk, hs, hworth⟩ := aggregateSigs_sum C hscalars run.sigHalf_eq
  have hlength : (run.aggNonce.take 32).length = 32 := by rw [hR, C.length_encode]
  have hmain := order_aggregatePoint C horder
  have hhalf : run.sigHalf.take 32 = run.sigHalf :=
    List.take_of_length_le (by rw [hs, length_scalar])
  have hmultiplier : multiplier run.sigHalf = k := by rw [hs, C.multiplier_scalar hk]
  rw [hP, verify_iff C hmain, MusigRun.signature, List.take_left' hlength,
    List.drop_left' hlength, hhalf]
  refine ⟨_, by rw [hR, C.decode_encode], ?_, ?_, ?_⟩
  · exact fun hzero => hbase (C.scalarmultBase_zero _ hzero)
  · intro hzero
    rw [hP] at hkey
    rcases C.scalarmult_encode (challenge S _ (run.aggNonce.take 32) run.message) hmain with
      ⟨hnone, -⟩ | ⟨-, hne⟩
    · exact hkey hnone
    · rw [multiplier_challenge C] at hne
      exact hne hzero
  · rw [hmultiplier, hworth, hsum, challenge_smul_aggregatePoint]

end Sums

/-- Two signers on residues. -/
def twoSigners : List (Signer residues) :=
  [{ keys :=
      { pubkey := scalar 237
        seckey := List.replicate 32 2 ++ scalar 237
        seed := List.replicate 32 2
        length_seed := List.length_replicate
        length_pubkey := length_scalar 237
        pubkey_eq := by decide
        seckey_eq := rfl }
     random := List.replicate 32 5
     secNonce := scalar 16 ++ scalar 16
     pubNonce := scalar 16 ++ zeros 32
     nonce_eq := by decide },
   { keys :=
      { pubkey := scalar 197
        seckey := List.replicate 32 3 ++ scalar 197
        seed := List.replicate 32 3
        length_seed := List.length_replicate
        length_pubkey := length_scalar 197
        pubkey_eq := by decide
        seckey_eq := rfl }
     random := List.replicate 32 6
     secNonce := scalar 220 ++ scalar 220
     pubNonce := scalar 220 ++ zeros 32
     nonce_eq := by decide }]

/-- Their run on a message of three bytes. -/
def twoSignersRun : MusigRun residues where
  signers := twoSigners
  message := [1, 2, 3]
  aggNonce := scalar 236 ++ zeros 32
  nonces_eq := by decide
  partials := [scalar 224, scalar 71]
  partials_eq := by decide +kernel
  sigHalf := scalar 44
  sigHalf_eq := by decide
  aggPubkey := scalar 26
  aggPubkey_eq := by decide +kernel

theorem musig2_complete_twoSigners :
    verify residues twoSignersRun.message twoSignersRun.aggPubkey twoSignersRun.signature = true :=
  musig2_complete residuesCurve twoSignersRun (by decide +kernel) (by decide +kernel)

end Crypto
end JppDos
