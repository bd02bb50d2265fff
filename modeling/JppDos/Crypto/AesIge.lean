import JppDos.Lib.Chaining
import Mathlib.Data.Fintype.EquivFin
import Mathlib.Data.Finite.Prod
import Mathlib.Tactic.Common

/-!
# AES-256-IGE

`aes256_ige` of `jpp_crypto_core.c` on a byte memory, with the input and the output buffer
at the same address or apart.  The block cipher is a library behind it.
-/

namespace JppDos
namespace Crypto
namespace Ige

open Chaining

/-- `jpp_crypto_status_t`, as far as this mode returns it. -/
inductive CryptoStatus
  | ok
  | errInvalidArg
  | errInternal
  deriving DecidableEq

/-- A block of `JPP_CRYPTO_AES_BLOCK_BYTES`. -/
abbrev Block := Fin 16 → UInt8

/-- A key of `JPP_CRYPTO_AES256_KEY_BYTES`. -/
abbrev Key := Fin 32 → UInt8

/-- The two blocks of `JPP_CRYPTO_AES_IGE_IV_BYTES`. -/
structure Iv where
  ciphertext : Block
  plaintext : Block

/-- The bytes of the memory. -/
abbrev Mem := Nat → UInt8

/-- The block at an address. -/
def Mem.block (m : Mem) (p : Nat) : Block := fun i => m (p + i)

/-- A block stored at an address. -/
def Mem.put (m : Mem) (p : Nat) (b : Block) : Mem :=
  fun x => if h : p ≤ x ∧ x - p < 16 then b ⟨x - p, h.2⟩ else m x

/-- The blocks from an address on. -/
def Mem.blocks (m : Mem) (p : Nat) : Nat → List Block
  | 0 => []
  | n + 1 => m.block p :: m.blocks (p + 16) n

/-- `MBEDTLS_AES_ENCRYPT` and `MBEDTLS_AES_DECRYPT`. -/
inductive AesMode
  | encrypt
  | decrypt
  deriving DecidableEq

/-- The calls of mbedtls: the return value beside the context set up, or the block left in the
output. -/
structure Mbedtls (σ : Type) where
  setkeyEnc : Key → Int × σ
  setkeyDec : Key → Int × σ
  cryptEcb : AesMode → σ → Block → Int × Block

section Code

variable {σ : Type} (lib : Mbedtls σ)

/-- `xor16`. -/
def xor16 (a b : Block) : Block := fun i => a i ^^^ b i

/-- The loop of `aes256_ige` over the blocks left, the first one at `off`. -/
def igeLoop (ctx : σ) (encrypt : Bool) (input out : Nat) :
    Nat → Nat → Mem → Block → Block → CryptoStatus × Mem
  | 0, _, m, _, _ => (.ok, m)
  | left + 1, off, m, chainC, chainM =>
      let curIn := m.block (input + off)
      if encrypt then
        let (rc, ob) := lib.cryptEcb .encrypt ctx (xor16 curIn chainC)
        let m := m.put (out + off) ob
        if rc ≠ 0 then (.errInternal, m)
        else
          let ob := xor16 ob chainM
          igeLoop ctx encrypt input out left (off + 16) (m.put (out + off) ob) ob curIn
      else
        let (rc, ob) := lib.cryptEcb .decrypt ctx (xor16 curIn chainM)
        let m := m.put (out + off) ob
        if rc ≠ 0 then (.errInternal, m)
        else
          let ob := xor16 ob chainC
          igeLoop ctx encrypt input out left (off + 16) (m.put (out + off) ob) curIn ob

/-- `aes256_ige`; address 0 and `none` are NULL. -/
def aes256Ige (m : Mem) (input length : Nat) (key : Option Key) (iv : Option Iv) (out : Nat)
    (encrypt : Bool) : CryptoStatus × Mem :=
  match key, iv with
  | some key, some iv =>
      if input = 0 ∨ out = 0 then (.errInvalidArg, m)
      else if length = 0 ∨ length % 16 ≠ 0 then (.errInvalidArg, m)
      else
        let (rc, ctx) := if encrypt then lib.setkeyEnc key else lib.setkeyDec key
        if rc ≠ 0 then (.errInternal, m)
        else igeLoop lib ctx encrypt input out (length / 16) 0 m iv.ciphertext iv.plaintext
  | _, _ => (.errInvalidArg, m)

/-- `jpp_crypto_aes256_ige_encrypt`. -/
def aes256IgeEncrypt (m : Mem) (input length : Nat) (key : Option Key) (iv : Option Iv)
    (out : Nat) : CryptoStatus × Mem :=
  aes256Ige lib m input length key iv out true

/-- `jpp_crypto_aes256_ige_decrypt`. -/
def aes256IgeDecrypt (m : Mem) (input length : Nat) (key : Option Key) (iv : Option Iv)
    (out : Nat) : CryptoStatus × Mem :=
  aes256Ige lib m input length key iv out false

end Code

theorem block_put_self (m : Mem) (p : Nat) (b : Block) : (m.put p b).block p = b := by
  funext i
  have hi : p ≤ p + i ∧ p + i - p < 16 := by omega
  rw [Mem.block, Mem.put, dif_pos hi]
  congr 1
  exact Fin.ext (Nat.add_sub_cancel_left p i)

theorem put_put (m : Mem) (p : Nat) (b b' : Block) : (m.put p b).put p b' = m.put p b' := by
  funext x
  unfold Mem.put
  split_ifs <;> rfl

theorem put_of_outside {m : Mem} {p x : Nat} {b : Block} (h : x < p ∨ p + 16 ≤ x) :
    m.put p b x = m x := dif_neg (by omega)

theorem block_congr {m m' : Mem} {p : Nat} (h : ∀ x, p ≤ x → x < p + 16 → m x = m' x) :
    m.block p = m'.block p := by
  funext i
  exact h (p + i) (by omega) (by omega)

theorem blocks_congr {m m' : Mem} {n p : Nat}
    (h : ∀ x, p ≤ x → x < p + 16 * n → m x = m' x) : m.blocks p n = m'.blocks p n := by
  induction n generalizing p with
  | zero => rfl
  | succ n ih =>
      rw [Mem.blocks, Mem.blocks, block_congr fun x hlow hhigh => h x hlow (by omega),
        ih fun x hlow hhigh => h x (by omega) (by omega)]

theorem byte_eq_of_blocks {m m' : Mem} {n p q : Nat} (h : m.blocks p n = m'.blocks q n) {x : Nat}
    (hx : x < 16 * n) : m (p + x) = m' (q + x) := by
  induction n generalizing p q x with
  | zero => omega
  | succ n ih =>
      obtain ⟨hblock, hrest⟩ := List.cons.inj h
      by_cases hfirst : x < 16
      · exact congrFun hblock ⟨x, hfirst⟩
      · have hnext := ih hrest (x := x - 16) (by omega)
        rwa [show p + 16 + (x - 16) = p + x by omega,
          show q + 16 + (x - 16) = q + x by omega] at hnext

theorem xor16_xor16 (a b : Block) : xor16 (xor16 a b) b = a := by
  funext i
  simp [xor16, UInt8.xor_assoc]

/-- Two buffers of a length that are the same one or lie apart. -/
def Apart (input out length : Nat) : Prop :=
  input = out ∨ input + length ≤ out ∨ out + length ≤ input

/-- What a turn of the loop does when the cipher works. -/
theorem igeLoop_succ {σ : Type} {lib : Mbedtls σ} {ctx : σ} {encrypt : Bool} {f : Block → Block}
    (hf : ∀ b, lib.cryptEcb (if encrypt then .encrypt else .decrypt) ctx b = (0, f b))
    (input out left off : Nat) (m : Mem) (chainC chainM : Block) :
    igeLoop lib ctx encrypt input out (left + 1) off m chainC chainM =
      let curIn := m.block (input + off)
      let ob := xor16 (f (xor16 curIn (if encrypt then chainC else chainM)))
        (if encrypt then chainM else chainC)
      igeLoop lib ctx encrypt input out left (off + 16) (m.put (out + off) ob)
        (if encrypt then ob else curIn) (if encrypt then curIn else ob) := by
  cases encrypt with
  | true =>
      have hrun := hf (xor16 (m.block (input + off)) chainC)
      simp only [if_true] at hrun
      simp only [igeLoop, if_true, hrun, ne_eq, not_true_eq_false, if_false, put_put]
  | false =>
      have hrun := hf (xor16 (m.block (input + off)) chainM)
      simp only [Bool.false_eq_true, if_false] at hrun
      simp only [igeLoop, Bool.false_eq_true, hrun, ne_eq, not_true_eq_false, if_false, put_put]

/-- The loop leaves the chained blocks in the output, and the rest of the memory alone. -/
theorem igeLoop_spec {σ : Type} {lib : Mbedtls σ} {ctx : σ} {encrypt : Bool} {f : Block → Block}
    (hf : ∀ b, lib.cryptEcb (if encrypt then .encrypt else .decrypt) ctx b = (0, f b))
    {input out : Nat} (left off : Nat) (m : Mem) (chainC chainM : Block)
    (hbuf : Apart input out (off + 16 * left)) :
    ∃ m', igeLoop lib ctx encrypt input out left off m chainC chainM = (.ok, m') ∧
      m'.blocks (out + off) left =
        chain xor16 f (if encrypt then chainC else chainM) (if encrypt then chainM else chainC)
          (m.blocks (input + off) left) ∧
      ∀ x, x < out + off ∨ out + off + 16 * left ≤ x → m' x = m x := by
  induction left generalizing off m chainC chainM with
  | zero => exact ⟨m, rfl, rfl, fun _ _ => rfl⟩
  | succ left ih =>
      rw [igeLoop_succ hf]
      set ob := xor16 (f (xor16 (m.block (input + off)) (if encrypt then chainC else chainM)))
        (if encrypt then chainM else chainC) with hob
      have hbuf' : Apart input out (off + 16 + 16 * left) := by
        unfold Apart at *
        omega
      obtain ⟨m', hrun, hblocks, hsame⟩ := ih (off + 16) (m.put (out + off) ob)
        (if encrypt then ob else m.block (input + off))
        (if encrypt then m.block (input + off) else ob) hbuf'
      refine ⟨m', hrun, ?_, fun x hx => ?_⟩
      · -- the block just written is not touched again, and the next ones to read are as before
        have hfirst : m'.block (out + off) = ob := by
          rw [block_congr fun x _ hx => hsame x (Or.inl (by omega)), block_put_self]
        have hrest : (m.put (out + off) ob).blocks (input + (off + 16)) left =
            m.blocks (input + (off + 16)) left := by
          refine blocks_congr fun x hlow hhigh => put_of_outside ?_
          unfold Apart at hbuf
          omega
        rw [Mem.blocks, Mem.blocks, chain_cons, hfirst, ← hob, Nat.add_assoc out off 16, hblocks,
          hrest, Nat.add_assoc input off 16]
        cases encrypt <;> rfl
      · rw [hsame x (by omega), put_of_outside (by omega)]

/-- The library works: a key of 32 bytes is taken, every block goes through, and with the same
key decrypting a block inverts encrypting it. -/
def Mbedtls.Works {σ : Type} (lib : Mbedtls σ) : Prop :=
  ∀ key, ∃ (enc dec : σ) (f g : Block → Block),
    lib.setkeyEnc key = (0, enc) ∧ lib.setkeyDec key = (0, dec) ∧
    (∀ b, lib.cryptEcb .encrypt enc b = (0, f b)) ∧
    (∀ b, lib.cryptEcb .decrypt dec b = (0, g b)) ∧ ∀ b : Block, g (f b) = b

/-- The buffers of a call. -/
structure Buffers (input out length : Nat) : Prop where
  inputNe : input ≠ 0
  outNe : out ≠ 0
  apart : Apart input out length

section RoundTrip

variable {σ : Type} {lib : Mbedtls σ}

/-- A function of blocks that is inverted on one side is inverted on the other one. -/
theorem inverse_of_leftInverse {f g : Block → Block} (h : ∀ b, g (f b) = b) (b : Block) :
    f (g b) = b := by
  have hbyte : Finite UInt8 := Finite.of_injective UInt8.toFin fun _ _ => UInt8.toFin_inj.mp
  have hblock : Finite Block := Pi.finite
  obtain ⟨a, rfl⟩ := Finite.injective_iff_surjective.mp (Function.LeftInverse.injective h) b
  rw [h]

/-- What a call returns and leaves in the output, for the block function of its direction. -/
theorem aes256Ige_spec {key : Key} {ctx : σ} {f : Block → Block} {encrypt : Bool}
    (hkey : (if encrypt then lib.setkeyEnc key else lib.setkeyDec key) = (0, ctx))
    (hf : ∀ b, lib.cryptEcb (if encrypt then .encrypt else .decrypt) ctx b = (0, f b))
    {input out length : Nat} (hbuf : Buffers input out length) (hpos : length ≠ 0)
    (hmul : length % 16 = 0) (m : Mem) (iv : Iv) :
    ∃ m', aes256Ige lib m input length (some key) (some iv) out encrypt = (.ok, m') ∧
      m'.blocks out (length / 16) =
        chain xor16 f (if encrypt then iv.ciphertext else iv.plaintext)
          (if encrypt then iv.plaintext else iv.ciphertext) (m.blocks input (length / 16)) := by
  have hapart : Apart input out (0 + 16 * (length / 16)) := by
    rw [Nat.zero_add, Nat.mul_div_cancel' (Nat.dvd_of_mod_eq_zero hmul)]
    exact hbuf.apart
  obtain ⟨m', hrun, hblocks, -⟩ := igeLoop_spec hf (length / 16) 0 m iv.ciphertext iv.plaintext
    hapart
  refine ⟨m', ?_, hblocks⟩
  simp only [aes256Ige, hbuf.inputNe, hbuf.outNe, hpos, hmul, hkey, ne_eq, not_true_eq_false,
    or_self, if_false]
  exact hrun

/-- Both calls succeed, and the input is back in the last buffer. -/
def Returns (first second : Mem → CryptoStatus × Mem) (m : Mem) (input out length : Nat) : Prop :=
  (first m).1 = .ok ∧ (second (first m).2).1 = .ok ∧
    ∀ x < length, (second (first m).2).2 (out + x) = m (input + x)

/-- The mode with the inverse block function takes a call back. -/
theorem returns_of_inverse (encrypt : Bool) {key : Key} {ctx ctx' : σ} {f g : Block → Block}
    (hkey : (if encrypt then lib.setkeyEnc key else lib.setkeyDec key) = (0, ctx))
    (hf : ∀ b, lib.cryptEcb (if encrypt then .encrypt else .decrypt) ctx b = (0, f b))
    (hkey' : (if !encrypt then lib.setkeyEnc key else lib.setkeyDec key) = (0, ctx'))
    (hg : ∀ b, lib.cryptEcb (if !encrypt then .encrypt else .decrypt) ctx' b = (0, g b))
    (hinv : ∀ b, g (f b) = b) {input mid out length : Nat} (hfirst : Buffers input mid length)
    (hsecond : Buffers mid out length) (hpos : length ≠ 0) (hmul : length % 16 = 0) (m : Mem)
    (iv : Iv) :
    Returns (fun m => aes256Ige lib m input length (some key) (some iv) mid encrypt)
      (fun m => aes256Ige lib m mid length (some key) (some iv) out !encrypt) m input out
      length := by
  obtain ⟨m₁, hrun₁, hblocks₁⟩ := aes256Ige_spec hkey hf hfirst hpos hmul m iv
  obtain ⟨m₂, hrun₂, hblocks₂⟩ := aes256Ige_spec hkey' hg hsecond hpos hmul m₁ iv
  have hback : m₂.blocks out (length / 16) = m.blocks input (length / 16) := by
    rw [hblocks₂, hblocks₁]
    cases encrypt <;> exact chain_chain xor16 xor16_xor16 hinv _ _ _
  refine ⟨?_, ?_, fun x hx => ?_⟩
  · simp only [hrun₁]
  · simp only [hrun₁, hrun₂]
  · simp only [hrun₁, hrun₂]
    exact byte_eq_of_blocks hback (by omega)

/-- Either direction takes the other one back, in place or not; a length that is zero or no
multiple of the block is rejected, and nothing is written. -/
theorem ige_round_trip (hlib : lib.Works) (m : Mem) (key : Key) (iv : Iv)
    {input mid out length : Nat} (hfirst : Buffers input mid length)
    (hsecond : Buffers mid out length) :
    (length ≠ 0 ∧ length % 16 = 0 →
      Returns (fun m => aes256IgeEncrypt lib m input length (some key) (some iv) mid)
          (fun m => aes256IgeDecrypt lib m mid length (some key) (some iv) out) m input out
          length ∧
        Returns (fun m => aes256IgeDecrypt lib m input length (some key) (some iv) mid)
          (fun m => aes256IgeEncrypt lib m mid length (some key) (some iv) out) m input out
          length) ∧
    (¬ (length ≠ 0 ∧ length % 16 = 0) →
      aes256IgeEncrypt lib m input length (some key) (some iv) mid = (.errInvalidArg, m) ∧
        aes256IgeDecrypt lib m input length (some key) (some iv) mid = (.errInvalidArg, m)) := by
  obtain ⟨enc, dec, f, g, henc, hdec, hf, hg, hinv⟩ := hlib key
  constructor
  · rintro ⟨hpos, hmul⟩
    exact ⟨returns_of_inverse true henc hf hdec hg hinv hfirst hsecond hpos hmul m iv,
      returns_of_inverse false hdec hg henc hf (inverse_of_leftInverse hinv) hfirst hsecond hpos
        hmul m iv⟩
  · intro hbad
    have hreject : ∀ encrypt, aes256Ige lib m input length (some key) (some iv) mid encrypt =
        (.errInvalidArg, m) := by
      intro encrypt
      have hlength : length = 0 ∨ length % 16 ≠ 0 := by omega
      simp only [aes256Ige, hfirst.inputNe, hfirst.outNe, or_self, if_false, if_pos hlength]
    exact ⟨hreject true, hreject false⟩

end RoundTrip

/-- A cipher that turns every byte by its key. -/
def turning : Mbedtls Key where
  setkeyEnc key := (0, key)
  setkeyDec key := (0, key)
  cryptEcb
    | .encrypt, key, b => (0, fun i => b i + key (Fin.castLE (by decide) i))
    | .decrypt, key, b => (0, fun i => b i - key (Fin.castLE (by decide) i))

theorem turning_works : turning.Works :=
  fun key => ⟨key, key, _, _, rfl, rfl, fun _ => rfl, fun _ => rfl, fun b => by
    funext i
    simp⟩

theorem buffers_inPlace : Buffers 64 64 32 := ⟨by decide, by decide, Or.inl rfl⟩

/-- Two blocks in place. -/
theorem ige_round_trip_inPlace :
    Returns (fun m => aes256IgeEncrypt turning m 64 32 (some fun i => .ofNat i)
        (some ⟨fun _ => 0, fun _ => 1⟩) 64)
      (fun m => aes256IgeDecrypt turning m 64 32 (some fun i => .ofNat i)
        (some ⟨fun _ => 0, fun _ => 1⟩) 64)
      (fun x => .ofNat x) 64 64 32 :=
  ((ige_round_trip turning_works (fun x => .ofNat x) (fun i => .ofNat i) ⟨fun _ => 0, fun _ => 1⟩
    buffers_inPlace
    buffers_inPlace).1 ⟨Nat.succ_ne_zero 31, rfl⟩).1

/-- Of no bytes at all, which are a multiple of the block as well, nothing is encrypted. -/
theorem not_round_trip_of_empty :
    ¬ ∀ (m : Mem) (key : Key) (iv : Iv) (input mid out length : Nat), Buffers input mid length →
      Buffers mid out length → length % 16 = 0 →
      Returns (fun m => aes256IgeEncrypt turning m input length (some key) (some iv) mid)
        (fun m => aes256IgeDecrypt turning m mid length (some key) (some iv) out) m input out
        length := by
  intro h
  have hreturns := h (fun _ => 0) (fun _ => 0) ⟨0, 0⟩ 64 64 64 0 ⟨by decide, by decide, Or.inl rfl⟩
    ⟨by decide, by decide, Or.inl rfl⟩ rfl
  have hstatus : (aes256IgeEncrypt turning (fun _ => 0) 64 0 (some fun _ => 0) (some ⟨0, 0⟩) 64).1 =
      .errInvalidArg := rfl
  exact absurd (hstatus.symm.trans hreturns.1) (by decide)

end Ige
end Crypto
end JppDos
