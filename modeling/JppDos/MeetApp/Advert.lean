import JppDos.MeetApp.Proof

/-!
# Advertisements of a meetup

`meetapp_ble_build_ad` and `parse_meetapp_ad`: the record with a session's nonce and a nickname,
among the other structures of an advertisement.  What the parser is given is a pointer and a
length, so that the memory behind the advertisement can be read as well; the bytes that it
reads are noted, each with the structure that it is read for.

Main fact:
* `adCodec_iff`: what was built is read back, and which advertisements are read within bounds.
-/

namespace JppDos
namespace MeetApp
namespace Advert

open CText

/-- `MEETAPP_COMPANY_ID_LO`. -/
def companyIdLo : UInt8 := 0x50

/-- `MEETAPP_COMPANY_ID_HI`. -/
def companyIdHi : UInt8 := 0x4A

/-- The nonce of a session. -/
abbrev Nonce := { bytes : List UInt8 // bytes.length = 8 }

/-- `meetapp_ble_build_ad`. -/
def buildAd (type : UInt8) (sessionNonce : Nonce) (nickname : CStr) : List UInt8 :=
  let nkLen := UInt8.ofNat (min nickname.strlen nicknameMax)
  let adDataLen := 2 + 1 + 8 + 1 + nkLen
  [1 + adDataLen, 0xFF, companyIdLo, companyIdHi, type] ++ sessionNonce.val ++
    nkLen :: nickname.val.take nkLen.toNat

/-- What `parse_meetapp_ad` stores for its caller; the nickname is what stands in front of the
terminator that is stored behind it. -/
structure Found where
  type : UInt8
  nonce : List UInt8
  nickname : List UInt8
  deriving DecidableEq

/-- A byte that is read, and where the structure begins that it is read for. -/
structure Read where
  start : Nat
  index : Nat
  deriving DecidableEq

/-- What a call stores, if it returns true, and what it has read. -/
structure Outcome where
  found : Option Found
  reads : List Read
  deriving DecidableEq

/-- The bytes from an index on. -/
def bytesAt (ad : Nat → UInt8) (start n : Nat) : List UInt8 :=
  (List.range n).map fun k => ad (start + k)

/-- The first bytes of a structure are read. -/
def readsAt (start n : Nat) : List Read := (List.range n).map fun k => ⟨start, start + k⟩

/-- The record of a meetup, as the parser tells it. -/
def Ours (ad : Nat → UInt8) (i : Nat) : Prop :=
  ad (i + 1) = 0xFF ∧ 12 ≤ (ad i).toNat ∧ ad (i + 2) = companyIdLo ∧ ad (i + 3) = companyIdHi

instance (ad : Nat → UInt8) (i : Nat) : Decidable (Ours ad i) := inferInstanceAs (Decidable (_ ∧ _))

/-- How many bytes are read of a structure that is passed over. -/
def looksAt (ad : Nat → UInt8) (i : Nat) : Nat :=
  if ad (i + 1) = 0xFF ∧ 12 ≤ (ad i).toNat then
    if ad (i + 2) = companyIdLo then 4 else 3
  else 2

/-- The length of the nickname that is copied. -/
def nkLen (ad : Nat → UInt8) (i : Nat) : Nat := min (ad (i + 13)).toNat nicknameMax

/-- `parse_meetapp_ad` from a structure on. -/
def parseFrom (ad : Nat → UInt8) (adLen i : Nat) : Outcome :=
  if adLen ≤ i then ⟨none, []⟩
  else if (ad i).toNat = 0 ∨ adLen < i + 1 + (ad i).toNat then ⟨none, readsAt i 1⟩
  else if Ours ad i then
    ⟨some ⟨ad (i + 4), bytesAt ad (i + 5) 8, bytesAt ad (i + 14) (nkLen ad i)⟩,
      readsAt i (14 + nkLen ad i)⟩
  else
    let rest := parseFrom ad adLen (i + 1 + (ad i).toNat)
    ⟨rest.found, readsAt i (looksAt ad i) ++ rest.reads⟩
  termination_by adLen - i

/-- `parse_meetapp_ad`, with a place for the nickname. -/
def parseMeetappAd (ad : Nat → UInt8) (adLen : Nat) : Outcome := parseFrom ad adLen 0

/-- The byte is one of the advertisement, and of the structure that it is read for. -/
def Within (ad : Nat → UInt8) (adLen : Nat) (r : Read) : Prop :=
  r.index < adLen ∧ r.start ≤ r.index ∧ r.index < r.start + 1 + (ad r.start).toNat

/-- A structure that ends inside the advertisement. -/
def Complete (ad : Nat → UInt8) (adLen i : Nat) : Prop :=
  i < adLen ∧ (ad i).toNat ≠ 0 ∧ i + 1 + (ad i).toNat ≤ adLen

/-- The structures from the one at `i` on, as long as they are complete and none is the record of
a meetup. -/
inductive Comes (ad : Nat → UInt8) (adLen : Nat) : Nat → Nat → Prop
  | here (i : Nat) : Comes ad adLen i i
  | next {i j : Nat} (hcomplete : Complete ad adLen i) (hother : ¬ Ours ad i)
      (hrest : Comes ad adLen (i + 1 + (ad i).toNat) j) : Comes ad adLen i j

/-- The first record of a meetup, if there is one, has room for the nickname that it
announces. -/
def Roomy (ad : Nat → UInt8) (adLen i : Nat) : Prop :=
  ∀ j, Comes ad adLen i j → Complete ad adLen j → Ours ad j → 13 + nkLen ad j ≤ (ad j).toNat

section Reads

variable {ad : Nat → UInt8} {adLen i : Nat}

theorem forall_mem_readsAt {P : Read → Prop} {n : Nat} :
    (∀ r ∈ readsAt i n, P r) ↔ ∀ k < n, P ⟨i, i + k⟩ := by
  simp [readsAt]

/-- A structure that is passed over is not read beyond its end. -/
theorem looksAt_le (hcomplete : Complete ad adLen i) : looksAt ad i ≤ 1 + (ad i).toNat := by
  have hlen := hcomplete.2.1
  rw [looksAt]
  split_ifs with hrecord hlo
  · omega
  · omega
  · omega

theorem within_readsAt (hcomplete : Complete ad adLen i) {n : Nat} :
    (∀ r ∈ readsAt i n, Within ad adLen r) ↔ n ≤ 1 + (ad i).toNat := by
  obtain ⟨hi, hlen, hend⟩ := hcomplete
  rw [forall_mem_readsAt]
  constructor
  · intro h
    by_contra hn
    obtain ⟨-, -, hlast⟩ := h (1 + (ad i).toNat) (by omega)
    simp only at hlast
    omega
  · intro hn k hk
    refine ⟨?_, Nat.le_add_right i k, ?_⟩
    · change i + k < adLen
      omega
    · change i + k < i + 1 + (ad i).toNat
      omega

theorem roomy_of_ours (hcomplete : Complete ad adLen i) (hours : Ours ad i) :
    Roomy ad adLen i ↔ 13 + nkLen ad i ≤ (ad i).toNat := by
  constructor
  · exact fun h => h i (.here i) hcomplete hours
  · intro h j hj _ _
    cases hj with
    | here => exact h
    | next _ hother _ => exact absurd hours hother

theorem roomy_of_other (hcomplete : Complete ad adLen i) (hother : ¬ Ours ad i) :
    Roomy ad adLen i ↔ Roomy ad adLen (i + 1 + (ad i).toNat) := by
  constructor
  · exact fun h j hj => h j (.next hcomplete hother hj)
  · intro h j hj hcomplete' hours
    cases hj with
    | here => exact absurd hours hother
    | next _ _ hrest => exact h j hrest hcomplete' hours

theorem roomy_of_not_complete (h : ¬ Complete ad adLen i) : Roomy ad adLen i := by
  intro j hj hcomplete _
  cases hj with
  | here => exact absurd hcomplete h
  | next hcomplete' _ _ => exact absurd hcomplete' h

/-- What is read is inside the advertisement and the structure at hand, as long as the first
record of a meetup has room for its nickname. -/
theorem within_iff (ad : Nat → UInt8) (adLen i : Nat) :
    (∀ r ∈ (parseFrom ad adLen i).reads, Within ad adLen r) ↔ Roomy ad adLen i := by
  fun_induction parseFrom ad adLen i with
  | case1 i hend =>
      have hnone : ¬ Complete ad adLen i := fun h => absurd h.1 (by omega)
      simpa using roomy_of_not_complete hnone
  | case2 i hi hbroken =>
      have hnone : ¬ Complete ad adLen i := by
        rintro ⟨-, hlen, hend⟩
        rcases hbroken with hzero | hlong
        · exact hlen hzero
        · omega
      refine iff_of_true ?_ (roomy_of_not_complete hnone)
      rw [forall_mem_readsAt]
      intro k hk
      obtain rfl : k = 0 := by omega
      refine ⟨?_, Nat.le_refl _, ?_⟩
      · change i + 0 < adLen
        omega
      · change i + 0 < i + 1 + (ad i).toNat
        omega
  | case3 i hi hbroken hours =>
      have hcomplete : Complete ad adLen i := ⟨by omega, by omega, by omega⟩
      rw [within_readsAt hcomplete, roomy_of_ours hcomplete hours]
      omega
  | case4 i hi hbroken hother rest ih =>
      have hcomplete : Complete ad adLen i := ⟨by omega, by omega, by omega⟩
      simp only [List.mem_append, or_imp, forall_and]
      rw [within_readsAt hcomplete, roomy_of_other hcomplete hother, ih]
      exact and_iff_right (looksAt_le hcomplete)

end Reads

/-- A structure that is not of the company: at most 254 bytes behind its type, and where it is a
manufacturer's record it begins with another identifier. -/
structure Other where
  type : UInt8
  data : List UInt8
  length_data : data.length < 255
  foreign : ¬ (type = 0xFF ∧ data.take 2 = [companyIdLo, companyIdHi])

/-- A structure in an advertisement. -/
def Other.bytes (s : Other) : List UInt8 := UInt8.ofNat (1 + s.data.length) :: s.type :: s.data

/-- The memory that begins with an advertisement. -/
def memory (bytes : List UInt8) (beyond : Nat → UInt8) (k : Nat) : UInt8 :=
  bytes.getD k (beyond k)

/-- The memory has the bytes from an index on. -/
def Holds (ad : Nat → UInt8) (i : Nat) (bytes : List UInt8) : Prop :=
  ∀ k b, bytes[k]? = some b → ad (i + k) = b

section Codec

variable {ad : Nat → UInt8} {adLen i : Nat}

theorem holds_memory (bytes : List UInt8) (beyond : Nat → UInt8) :
    Holds (memory bytes beyond) 0 bytes := by
  intro k b hb
  rw [Nat.zero_add, memory, List.getD_eq_getElem?_getD, hb, Option.getD_some]

theorem Holds.left {xs ys : List UInt8} (h : Holds ad i (xs ++ ys)) : Holds ad i xs := by
  intro k b hb
  refine h k b ?_
  rw [List.getElem?_append_left (List.getElem?_eq_some_iff.mp hb).1, hb]

theorem Holds.right {xs ys : List UInt8} (h : Holds ad i (xs ++ ys)) :
    Holds ad (i + xs.length) ys := by
  intro k b hb
  rw [Nat.add_assoc]
  refine h _ b ?_
  rw [List.getElem?_append_right (Nat.le_add_right _ _), Nat.add_sub_cancel_left, hb]

theorem Holds.bytesAt {bytes : List UInt8} (h : Holds ad i bytes) :
    bytesAt ad i bytes.length = bytes := by
  refine List.ext_getElem (by simp [Advert.bytesAt]) fun k _ hk => ?_
  simp only [Advert.bytesAt, List.getElem_map, List.getElem_range]
  exact h k _ (List.getElem?_eq_getElem hk)

theorem parseFrom_other (s : Other) (hheld : Holds ad i s.bytes)
    (hend : i + s.bytes.length ≤ adLen) :
    (parseFrom ad adLen i).found = (parseFrom ad adLen (i + s.bytes.length)).found := by
  have hlength := s.length_data
  have hbytes : s.bytes.length = 1 + (1 + s.data.length) := by
    simp only [Other.bytes, List.length_cons]
    omega
  have hlen : (ad i).toNat = 1 + s.data.length := by
    rw [← Nat.add_zero i, hheld 0 _ rfl, UInt8.toNat_ofNat']
    omega
  have hours : ¬ Ours ad i := by
    rintro ⟨htype, hlong, hlo, hhi⟩
    have htype' : ad (i + 1) = s.type := hheld 1 _ rfl
    refine s.foreign ⟨htype'.symm.trans htype, ?_⟩
    rcases hdata : s.data with - | ⟨a, - | ⟨b, data⟩⟩
    · rw [hdata, List.length_nil] at hlen
      omega
    · rw [hdata, List.length_singleton] at hlen
      omega
    · have ha : ad (i + 2) = a := hheld 2 _ (by rw [Other.bytes, hdata]; rfl)
      have hb : ad (i + 3) = b := hheld 3 _ (by rw [Other.bytes, hdata]; rfl)
      rw [← hlo, ← hhi, ha, hb]
      rfl
  rw [parseFrom, if_neg (by omega), if_neg (by omega), if_neg hours]
  simp only
  rw [hlen, hbytes, Nat.add_assoc]

theorem parseFrom_front (front : List Other) (hheld : Holds ad i (front.flatMap Other.bytes))
    (hend : i + (front.flatMap Other.bytes).length ≤ adLen) :
    (parseFrom ad adLen i).found =
      (parseFrom ad adLen (i + (front.flatMap Other.bytes).length)).found := by
  induction front generalizing i with
  | nil => rfl
  | cons s front ih =>
      rw [List.flatMap_cons] at hheld hend ⊢
      rw [List.length_append, ← Nat.add_assoc] at hend ⊢
      rw [parseFrom_other s hheld.left (by omega)]
      exact ih hheld.right hend

theorem parseFrom_buildAd (type : UInt8) (sessionNonce : Nonce) (nickname : Text nicknameMax)
    (hheld : Holds ad i (buildAd type sessionNonce nickname.val))
    (hend : i + (buildAd type sessionNonce nickname.val).length ≤ adLen) :
    (parseFrom ad adLen i).found = some ⟨type, sessionNonce.val, nickname.bytes⟩ := by
  have hnick : nickname.val.strlen ≤ nicknameMax := nickname.property
  have hmax : nicknameMax = 16 := rfl
  have hnonce := sessionNonce.property
  have hmin : min nickname.val.strlen nicknameMax = nickname.val.strlen := Nat.min_eq_left hnick
  have hnk : (UInt8.ofNat nickname.val.strlen).toNat = nickname.val.strlen := by
    rw [UInt8.toNat_ofNat']
    omega
  have htake : nickname.val.val.take nickname.val.strlen = nickname.bytes := List.take_length
  rw [buildAd, hmin, hnk, htake, List.append_assoc] at hheld hend
  have hbytes : nickname.bytes.length = nickname.val.strlen := rfl
  simp only [List.length_append, List.length_cons, List.length_nil, hnonce, hbytes] at hend
  have hhead : ∀ k b, [1 + (2 + 1 + 8 + 1 + UInt8.ofNat nickname.val.strlen), 0xFF, companyIdLo,
      companyIdHi, type][k]? = some b → ad (i + k) = b := hheld.left
  have hlen : (ad i).toNat = 13 + nickname.val.strlen := by
    rw [← Nat.add_zero i, hhead 0 _ rfl]
    simp only [UInt8.toNat_add, hnk]
    change (1 + (12 + nickname.val.strlen) % 256) % 256 = _
    omega
  have hours : Ours ad i := ⟨hhead 1 _ rfl, by omega, hhead 2 _ rfl, hhead 3 _ rfl⟩
  have hrest := hheld.right.right
  rw [hnonce] at hrest
  have hcount : ad (i + 13) = UInt8.ofNat nickname.val.strlen := hrest 0 _ rfl
  have hread : bytesAt ad (i + 5) 8 = sessionNonce.val := by
    have h := hheld.right.left.bytesAt
    rwa [hnonce] at h
  have hname : bytesAt ad (i + 14) (nkLen ad i) = nickname.bytes := by
    have hcopied : nkLen ad i = nickname.bytes.length := by
      rw [nkLen, hcount, hnk, hbytes]
      omega
    rw [hcopied]
    refine Holds.bytesAt fun k b hb => ?_
    have := hrest (k + 1) b hb
    rwa [show i + 14 + k = i + [1 + (2 + 1 + 8 + 1 + UInt8.ofNat nickname.val.strlen), 0xFF,
      companyIdLo, companyIdHi, type].length + 8 + (k + 1) by
        simp only [List.length_cons, List.length_nil]; omega]
  rw [parseFrom, if_neg (by omega), if_neg (by omega), if_pos hours, hread, hname]
  exact congrArg (fun t => some (Found.mk t _ _)) (hhead 4 _ rfl)

end Codec

/-- What was built is read back, behind structures of other companies and in front of anything;
and what is read is within bounds for the advertisements whose first record of a meetup has room
for the nickname that it announces, and for no others. -/
theorem adCodec_iff (type : UInt8) (sessionNonce : Nonce) (nickname : Text nicknameMax)
    (front : List Other) (back : List UInt8) (beyond : Nat → UInt8) (ad : Nat → UInt8)
    (adLen : Nat) :
    (let bytes := front.flatMap Other.bytes ++
          (buildAd type sessionNonce nickname.val ++ back);
      (parseMeetappAd (memory bytes beyond) bytes.length).found =
        some ⟨type, sessionNonce.val, nickname.bytes⟩) ∧
      ((∀ r ∈ (parseMeetappAd ad adLen).reads, Within ad adLen r) ↔ Roomy ad adLen 0) := by
  refine ⟨?_, within_iff ad adLen 0⟩
  intro bytes
  have hheld : Holds (memory bytes beyond) 0 bytes := holds_memory bytes beyond
  have hlength : bytes.length = (front.flatMap Other.bytes).length +
      ((buildAd type sessionNonce nickname.val).length + back.length) := by
    simp only [bytes, List.length_append]
  rw [parseMeetappAd, parseFrom_front front hheld.left (by omega)]
  exact parseFrom_buildAd type sessionNonce nickname hheld.right.left (by omega)

/-- A record that ends behind the nonce. -/
def shortAd : List UInt8 :=
  [12, 0xFF, companyIdLo, companyIdHi, 2] ++ List.replicate 8 0

/-- The length of the nickname of a record that ends behind the nonce is read beyond it. -/
theorem not_adCodec :
    ¬ ∀ r ∈ (parseMeetappAd (memory shortAd fun _ => 0) shortAd.length).reads,
      Within (memory shortAd fun _ => 0) shortAd.length r := by
  intro h
  have hroomy := (within_iff _ _ 0).mp h 0 (.here 0) ⟨by decide, by decide, by decide⟩ (by decide)
  exact absurd hroomy (by decide)

end Advert
end MeetApp
end JppDos
