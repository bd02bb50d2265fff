import JppDos.App.Cron
import JppDos.Background.Schedule

/-!
# The language of cron expressions

Which texts `jpp_manifest_v2_is_valid_cron` accepts, and at which times the entry matches that
`jpp_bg_scheduler_sync_app` stores for them, against five fields of `*` or a decimal numeral.
-/

namespace JppDos
namespace Background

open CText Words App Clock Calendar Sdk

/-- A decimal numeral. -/
def Numeral (word : List UInt8) : Prop :=
  word ≠ [] ∧ (word.all fun c => 48 ≤ c && c ≤ 57) = true

/-- A field: `*`, or a numeral whose value is in the range. -/
def FieldOk (value : List UInt8 → Nat) (word : List UInt8) (range : Nat × Nat) : Prop :=
  word = [42] ∨ Numeral word ∧ range.1 ≤ value word ∧ value word ≤ range.2

/-- Five fields, spaces between them and possibly behind them. -/
structure FiveFields (value : List UInt8 → Nat) (text : List UInt8) : Prop where
  start : text.head? ≠ some 32
  fields : List.Forall₂ (FieldOk value) (words 32 text) cronRanges

/-- A cron expression. -/
abbrev CronText : List UInt8 → Prop := FiveFields (decimalPrefix 0)

/-- A cron expression whose numerals count modulo `2 ^ 32`. -/
abbrev WrappedText : List UInt8 → Prop := FiveFields fun word => decimalPrefix 0 word % 2 ^ 32

/-- A field is `*` or equals the value. -/
def FieldHolds (word : List UInt8) (value : Int) : Prop :=
  word = [42] ∨ value = decimalPrefix 0 word

/-- All fields hold, the last one of the day of the week in the calendar. -/
def Meets (text : List UInt8) (dt : RtcDatetime) (d : Date) : Prop :=
  List.Forall₂ FieldHolds (words 32 text) [dt.minute, dt.hour, dt.day, dt.month, d.weekday]

/-- The entry that is stored for the expression matches the times that it means. -/
def StoredMatches (cron : CStr) : Prop :=
  ∀ (appId : CStr) (prev : List BgEntry) (task : BgTask) (dt : RtcDatetime) (d : Date),
    task.cron = cron → datetimeValid dt = true → dt.year < 2 ^ 31 → ShowsDate dt d →
      (cronMatches (newEntry appId prev task).cron dt = true ↔ Meets cron.val dt d)

/-- The validator accepts the cron expressions, and matches what it accepts. -/
def SameLanguage (cron : CStr) : Prop :=
  (isValidCron cron = true ↔ CronText cron.val) ∧
    (isValidCron cron = true → StoredMatches cron)

/-- Some date of the calendar has this day and this month. -/
def NamesDate (day month : List UInt8) : Prop :=
  ∃ d : Date, FieldHolds day d.day ∧ FieldHolds month d.month

/-- The word at a place, or nothing. -/
def wordAt (text : List UInt8) (i : Nat) : List UInt8 := (words 32 text).getD i []

/-- What 23 characters must keep of an expression: all five fields of one that names a date,
which then leaves the day of the week open; of any other, no date. -/
structure Kept (text : List UInt8) : Prop where
  whole : NamesDate (wordAt text 2) (wordAt text 3) →
    wordAt text 4 = [42] ∧ (words 32 (text.take 23)).length = 5
  none : ¬ NamesDate (wordAt text 2) (wordAt text 3) →
    ¬ NamesDate (wordAt (text.take 23) 2) (wordAt (text.take 23) 3)

/-- A number in an `int` is within small bounds when its residue is. -/
theorem wrap32_within_iff {n low high : Nat} (h : high < 2 ^ 31) :
    ((low : Int) ≤ CInt.wrap32 n ∧ CInt.wrap32 n ≤ high) ↔
      low ≤ n % 2 ^ 32 ∧ n % 2 ^ 32 ≤ high := by
  unfold CInt.wrap32
  rw [Int.bmod_def]
  split_ifs <;> omega

theorem intWordOk_iff {low high : Nat} {word : List UInt8} (h : high < 2 ^ 31) :
    intWordOk low high word = true ↔
      FieldOk (fun word => decimalPrefix 0 word % 2 ^ 32) word (low, high) := by
  unfold intWordOk FieldOk Numeral
  rw [Bool.or_eq_true, beq_iff_eq]
  simp only [Bool.and_eq_true, bne_iff_ne, ne_eq, decide_eq_true_eq]
  refine or_congr_right ⟨fun ⟨⟨⟨hall, hne⟩, hlow⟩, hhigh⟩ => ?_, fun ⟨⟨hne, hall⟩, hrange⟩ => ?_⟩
  · rw [cronNumber_eq hall] at hlow hhigh
    exact ⟨⟨hne, hall⟩, (wrap32_within_iff h).mp ⟨hlow, hhigh⟩⟩
  · rw [cronNumber_eq hall]
    obtain ⟨hlow, hhigh⟩ := (wrap32_within_iff h).mpr hrange
    exact ⟨⟨⟨hall, hne⟩, hlow⟩, hhigh⟩

/-- The validator reads numerals modulo `2 ^ 32`. -/
theorem isValidCron_iff (cron : CStr) : isValidCron cron = true ↔ WrappedText cron.val := by
  have hranges : ∀ r ∈ cronRanges, r.2 < 2 ^ 31 := by decide
  rw [isValidCron_eq, Bool.and_eq_true]
  by_cases hhead : cron.val.head? = some 32
  · -- a space in front is no field
    obtain ⟨rest, hrest⟩ : ∃ rest, cron.val = 32 :: rest := by
      cases hval : cron.val with
      | nil => simp [hval] at hhead
      | cons c rest => exact ⟨rest, by simpa [hval] using hhead⟩
    refine ⟨fun h => absurd h.2 ?_, fun h => absurd hhead h.start⟩
    rw [hrest]
    simp [cronRanges, cronFrom, cronFieldOk]
  · rw [cronFrom_eq _ hhead, Bool.and_eq_true, beq_iff_eq, List.all_eq_true]
    constructor
    · rintro ⟨-, hlen, hall⟩
      refine ⟨hhead, List.forall₂_iff_zip.mpr ⟨hlen, fun {w r} hmem => ?_⟩⟩
      exact (intWordOk_iff (hranges r (List.of_mem_zip hmem).2)).mp (hall _ hmem)
    · rintro ⟨-, hfields⟩
      obtain ⟨hlen, hall⟩ := List.forall₂_iff_zip.mp hfields
      refine ⟨?_, hlen, ?_⟩
      · refine decide_eq_true fun hnil => ?_
        rw [hnil, words_nil] at hlen
        exact absurd hlen (by decide)
      · rintro ⟨w, r⟩ hmem
        exact (intWordOk_iff (hranges r (List.of_mem_zip hmem).2)).mpr (hall hmem)

/-- Without the wrapping around there is no difference. -/
theorem wrappedText_of_cronText {text : List UInt8} (h : CronText text) : WrappedText text := by
  have hranges : ∀ r ∈ cronRanges, r.2 < 2 ^ 31 := by decide
  refine ⟨h.start, ?_⟩
  obtain ⟨hlen, hall⟩ := List.forall₂_iff_zip.mp h.fields
  refine List.forall₂_iff_zip.mpr ⟨hlen, fun {w r} hmem => ?_⟩
  have hsmall := hranges r (List.of_mem_zip hmem).2
  rcases hall hmem with hstar | ⟨hnumeral, hlow, hhigh⟩
  · exact Or.inl hstar
  · have hvalue : decimalPrefix 0 w % 2 ^ 32 = decimalPrefix 0 w := Nat.mod_eq_of_lt (by omega)
    refine Or.inr ⟨hnumeral, ?_, ?_⟩ <;> dsimp only <;> rw [hvalue]
    · exact hlow
    · exact hhigh

/-- A cron expression is one that has no numeral from `2 ^ 32` on. -/
theorem cronText_iff_of_wrapped {text : List UInt8} (h : WrappedText text) :
    CronText text ↔ ∀ word ∈ words 32 text, decimalPrefix 0 word < 2 ^ 32 := by
  have hranges : ∀ r ∈ cronRanges, r.2 < 2 ^ 31 := by decide
  obtain ⟨hlen, hall⟩ := List.forall₂_iff_zip.mp h.fields
  constructor
  · intro htext word hword
    obtain ⟨-, hfields⟩ := List.forall₂_iff_zip.mp htext.fields
    obtain ⟨i, hi, rfl⟩ := List.mem_iff_getElem.mp hword
    have hmem : ((words 32 text)[i], cronRanges[i]) ∈ (words 32 text).zip cronRanges := by
      rw [← List.getElem_zip]
      exact List.getElem_mem (by rw [List.length_zip]; omega)
    rcases hfields hmem with hstar | ⟨-, -, hhigh⟩
    · rw [hstar]
      decide
    · have hsmall := hranges _ (List.of_mem_zip hmem).2
      omega
  · intro hsmall
    refine ⟨h.start, List.forall₂_iff_zip.mpr ⟨hlen, fun {w r} hmem => ?_⟩⟩
    have hlt := hsmall w (List.of_mem_zip hmem).1
    refine (hall hmem).imp_right fun ⟨hnumeral, hrange⟩ => ⟨hnumeral, ?_⟩
    dsimp only at hrange
    rwa [Nat.mod_eq_of_lt hlt] at hrange

/-- A word that both scanners read whole, with a number that an `int` holds. -/
def Plain (word : List UInt8) : Prop :=
  word = [42] ∨ (word.all fun c => 48 ≤ c && c ≤ 57) = true ∧ decimalPrefix 0 word < 2 ^ 31

/-- The matcher compares the first word, and goes on at the next one. -/
theorem cronFieldMatches_spec {cursor : List UInt8} (hhead : cursor.head? ≠ some 32)
    (hplain : ∀ word ∈ words 32 cursor, Plain word) (value : Int) :
    ((cronFieldMatches cursor value).1 = true ↔ FieldHolds ((words 32 cursor).getD 0 []) value) ∧
      words 32 (cronFieldMatches cursor value).2 = (words 32 cursor).tail ∧
      (cronFieldMatches cursor value).2.head? ≠ some 32 := by
  have hnospace : ∀ rest : List UInt8, (rest.dropWhile (· = 32)).head? ≠ some 32 := by
    intro rest hspace
    have hnot := List.head?_dropWhile_not (fun c : UInt8 => decide (c = 32)) rest
    rw [hspace] at hnot
    simp at hnot
  cases hcursor : cursor with
  | nil => simp [cronFieldMatches, cronNumber, FieldHolds, decimalPrefix, eq_comm]
  | cons c rest =>
      rw [hcursor] at hhead hplain
      have hwords := words_eq_cons (List.cons_ne_nil c rest) hhead
      have hc : c ≠ 32 := fun heq => hhead (congrArg some heq)
      have hword : (c :: rest).takeWhile (· ≠ 32) = c :: rest.takeWhile (· ≠ 32) :=
        List.takeWhile_cons_of_pos (by simpa using hc)
      rw [hwords] at hplain ⊢
      rw [List.tail_cons, List.getD_cons_zero]
      rcases hplain _ List.mem_cons_self with hstar | ⟨hdigits, hsmall⟩
      · rw [hword] at hstar
        obtain ⟨rfl, hnone⟩ := List.cons.inj hstar
        have hjoin : rest.takeWhile (· ≠ 32) ++ rest.dropWhile (· ≠ 32) = rest :=
          List.takeWhile_append_dropWhile
        rw [hnone, List.nil_append] at hjoin
        have hdrop : (42 :: rest).dropWhile (· ≠ (32 : UInt8)) = rest :=
          (List.dropWhile_cons_of_pos (by decide)).trans hjoin
        rw [hdrop, hword, hnone]
        exact ⟨by simp [cronFieldMatches, FieldHolds], words_dropWhile 32 rest, hnospace rest⟩
      · obtain ⟨htake, -⟩ := takeWhile_eq_word (p := fun c => 48 ≤ c && c ≤ 57) (by decide)
          hdigits
        have hstar : c ≠ 42 := by
          rintro rfl
          rw [hword, List.all_cons] at hdigits
          simp at hdigits
        have hscan : cronFieldMatches (c :: rest) value =
            (decide (cronNumber ((c :: rest).takeWhile (· ≠ 32)) = value),
              ((c :: rest).dropWhile (· ≠ 32)).dropWhile (· = 32)) := by
          unfold cronFieldMatches
          split
          · rename_i tail heq
            exact absurd (List.cons.inj heq).1 hstar
          · simp only [drop_takeWhile, htake]
        have hne : (c :: rest).takeWhile (· ≠ 32) ≠ [42] := by
          rw [hword]
          exact fun heq => hstar (List.cons.inj heq).1
        have hvalue : cronNumber ((c :: rest).takeWhile (· ≠ 32)) =
            decimalPrefix 0 ((c :: rest).takeWhile (· ≠ 32)) := by
          rw [cronNumber_eq hdigits, CInt.wrap32_of_nonneg (by omega) (by omega)]
        rw [hscan]
        refine ⟨?_, words_dropWhile 32 _, hnospace _⟩
        rw [hvalue, decide_eq_true_eq, FieldHolds]
        simp only [hne, false_or, eq_comm]

/-- The day of the week as `cron_matches` computes it. -/
def dowOf (dt : RtcDatetime) : Int :=
  ((daysFromCivil dt.year dt.month dt.day + 4) % 2 ^ 32) % 7

/-- The matcher compares five words, and reads zeros where there are fewer. -/
theorem cronMatches_iff {cron : CStr} (hhead : cron.val.head? ≠ some 32)
    (hplain : ∀ word ∈ words 32 cron.val, Plain word) (dt : RtcDatetime) :
    cronMatches cron dt = true ↔
      FieldHolds (wordAt cron.val 0) dt.minute ∧ FieldHolds (wordAt cron.val 1) dt.hour ∧
        FieldHolds (wordAt cron.val 2) dt.day ∧ FieldHolds (wordAt cron.val 3) dt.month ∧
          FieldHolds (wordAt cron.val 4) (dowOf dt) := by
  have hnext : ∀ {cursor rest : List UInt8}, (∀ word ∈ words 32 cursor, Plain word) →
      words 32 rest = (words 32 cursor).tail → ∀ word ∈ words 32 rest, Plain word :=
    fun hcursor heq word hword => hcursor word (List.mem_of_mem_tail (heq ▸ hword))
  obtain ⟨h0, hw0, hs0⟩ := cronFieldMatches_spec hhead hplain dt.minute
  have hp0 := hnext hplain hw0
  obtain ⟨h1, hw1, hs1⟩ := cronFieldMatches_spec hs0 hp0 dt.hour
  have hp1 := hnext hp0 hw1
  obtain ⟨h2, hw2, hs2⟩ := cronFieldMatches_spec hs1 hp1 dt.day
  have hp2 := hnext hp1 hw2
  obtain ⟨h3, hw3, hs3⟩ := cronFieldMatches_spec hs2 hp2 dt.month
  have hp3 := hnext hp2 hw3
  obtain ⟨h4, -, -⟩ := cronFieldMatches_spec hs3 hp3 (dowOf dt)
  have htail : ∀ (l : List (List UInt8)) (i : Nat), l.tail.getD i [] = l.getD (i + 1) [] :=
    fun l i => by simp [List.getD_eq_getElem?_getD]
  rw [hw0, htail] at h1
  rw [hw1, htail, hw0, htail] at h2
  rw [hw2, htail, hw1, htail, hw0, htail] at h3
  rw [hw3, htail, hw2, htail, hw1, htail, hw0, htail] at h4
  unfold cronMatches
  simp only [Bool.and_eq_true, wordAt]
  rw [h0, h1, h2, h3]
  unfold dowOf at h4 ⊢
  rw [h4]
  simp only [and_assoc]

/-- The day of the week is the calendar's while the day count has 32 bits. -/
theorem weekday_eq {dt : RtcDatetime} {d : Date} (hshow : ShowsDate dt d)
    (hlow : 719159 ≤ d.dayNumber) (hhigh : d.dayNumber < 719159 + 2 ^ 32) :
    dowOf dt = d.weekday := by
  unfold dowOf Date.weekday
  rw [hshow.year, hshow.month, hshow.day, daysFromCivil_eq]
  omega

/-- Day numbers of the first years that the clock shows. -/
theorem dayNumber_early {d : Date} (h : 2000 ≤ d.year ∧ d.year ≤ 2024) :
    730119 < d.dayNumber ∧ d.dayNumber < 740000 := by
  have hlow := d.daysBeforeYear_lt_dayNumber
  have hhigh := d.dayNumber_le_daysBeforeYear
  unfold daysBeforeYear at hlow hhigh
  omega

theorem weekday_early {dt : RtcDatetime} {d : Date} (hshow : ShowsDate dt d)
    (h : 2000 ≤ d.year ∧ d.year ≤ 2024) : dowOf dt = d.weekday := by
  have hnumber := dayNumber_early h
  exact weekday_eq hshow (by omega) (by omega)

/-- The same date 11759200 years later, when the day count has wrapped around. -/
theorem weekday_late {dt : RtcDatetime} {d : Date} (hshow : ShowsDate dt (d.addCycles 29398))
    (h : 2000 ≤ d.year ∧ d.year ≤ 2024) : dowOf dt = (d.weekday + 3) % 7 := by
  have hnumber := dayNumber_early h
  have hlate := d.dayNumber_addCycles 29398
  unfold dowOf Date.weekday
  rw [hshow.year, hshow.month, hshow.day, daysFromCivil_eq, hlate]
  omega

theorem FiveFields.elim {value : List UInt8 → Nat} {text : List UInt8}
    (h : FiveFields value text) :
    (words 32 text).length = 5 ∧ FieldOk value (wordAt text 0) (0, 59) ∧
      FieldOk value (wordAt text 1) (0, 23) ∧ FieldOk value (wordAt text 2) (1, 31) ∧
        FieldOk value (wordAt text 3) (1, 12) ∧ FieldOk value (wordAt text 4) (0, 6) := by
  have hfields := h.fields
  unfold wordAt
  generalize words 32 text = ws at hfields
  simp only [cronRanges, List.forall₂_cons_right_iff, List.forall₂_nil_right_iff] at hfields
  obtain ⟨w0, _, h0, ⟨w1, _, h1, ⟨w2, _, h2, ⟨w3, _, h3, ⟨w4, _, h4, rfl, rfl⟩, rfl⟩, rfl⟩, rfl⟩,
    rfl⟩ := hfields
  exact ⟨rfl, h0, h1, h2, h3, h4⟩

theorem meets_iff {text : List UInt8} (h : (words 32 text).length = 5) (dt : RtcDatetime)
    (d : Date) :
    Meets text dt d ↔
      FieldHolds (wordAt text 0) dt.minute ∧ FieldHolds (wordAt text 1) dt.hour ∧
        FieldHolds (wordAt text 2) dt.day ∧ FieldHolds (wordAt text 3) dt.month ∧
          FieldHolds (wordAt text 4) d.weekday := by
  unfold Meets wordAt
  generalize words 32 text = ws at h
  match ws, h with
  | [w0, w1, w2, w3, w4], _ => simp

/-- A field of the beginning is cut, or the field of the text. -/
theorem wordAt_take (text : List UInt8) (n i : Nat) :
    wordAt (text.take n) i <+: wordAt text i ∧
      (i + 1 < (words 32 (text.take n)).length → wordAt (text.take n) i = wordAt text i) := by
  unfold wordAt
  rw [List.getD_eq_getElem?_getD, List.getD_eq_getElem?_getD]
  cases hcut : (words 32 (text.take n))[i]? with
  | none =>
      have hlen := List.getElem?_eq_none_iff.mp hcut
      exact ⟨List.nil_prefix, fun hmore => absurd hmore (by omega)⟩
  | some p =>
      obtain ⟨w, hw, hpart, hwhole⟩ := words_take text n hcut
      rw [hw]
      exact ⟨hpart, hwhole⟩

theorem length_words_take (text : List UInt8) (n : Nat) :
    (words 32 (text.take n)).length ≤ (words 32 text).length := by
  by_contra hmore
  have hcut := List.getElem?_eq_getElem (Nat.lt_of_not_le hmore)
  obtain ⟨w, hw, -⟩ := words_take text n hcut
  exact absurd hw (by simp)

theorem le_decimalPrefix (acc : Nat) (text : List UInt8) : acc ≤ decimalPrefix acc text := by
  induction text generalizing acc with
  | nil => exact Nat.le_refl _
  | cons c text ih =>
      rw [decimalPrefix]
      split
      · exact Nat.le_trans (by omega) (ih _)
      · exact Nat.le_refl _

theorem decimalPrefix_le_append (acc : Nat) (p q : List UInt8) :
    decimalPrefix acc p ≤ decimalPrefix acc (p ++ q) := by
  induction p generalizing acc with
  | nil => exact le_decimalPrefix acc q
  | cons c p ih =>
      rw [List.cons_append, decimalPrefix, decimalPrefix]
      split
      · exact ih _
      · exact Nat.le_refl _

/-- What is left of a field that is no `*`. -/
theorem FieldOk.cut {word p : List UInt8} {range : Nat × Nat}
    (h : FieldOk (decimalPrefix 0) word range) (hpart : p <+: word) :
    p = [42] ∧ word = [42] ∨ p ≠ [42] ∧
      (p.all fun c => 48 ≤ c && c ≤ 57) = true ∧ decimalPrefix 0 p ≤ range.2 := by
  obtain ⟨q, rfl⟩ := hpart
  rcases h with hstar | ⟨⟨-, hdigits⟩, -, hhigh⟩
  · cases p with
    | nil => exact Or.inr ⟨by simp, rfl, Nat.zero_le _⟩
    | cons c p =>
        obtain ⟨rfl, hrest⟩ := List.cons.inj hstar
        obtain ⟨rfl, rfl⟩ := List.append_eq_nil_iff.mp hrest
        exact Or.inl ⟨rfl, rfl⟩
  · have hpart : (p.all fun c => 48 ≤ c && c ≤ 57) = true := by
      rw [List.all_append, Bool.and_eq_true] at hdigits
      exact hdigits.1
    refine Or.inr ⟨?_, hpart, (decimalPrefix_le_append 0 p q).trans hhigh⟩
    rintro rfl
    exact absurd hpart (by decide)

theorem FieldOk.plain {word p : List UInt8} {range : Nat × Nat}
    (h : FieldOk (decimalPrefix 0) word range) (hrange : range.2 < 2 ^ 31) (hcut : p <+: word) :
    Plain p := by
  rcases h.cut hcut with ⟨hstar, -⟩ | ⟨-, hdigits, hvalue⟩
  · exact Or.inl hstar
  · exact Or.inr ⟨hdigits, by omega⟩

/-- Within the range there is a value for which the field holds. -/
theorem FieldOk.exists_value {word : List UInt8} {low high : Nat}
    (h : FieldOk (decimalPrefix 0) word (low, high)) (hle : low ≤ high) :
    ∃ v : Int, (low ≤ v ∧ v ≤ high) ∧ FieldHolds word v := by
  rcases h with hstar | ⟨-, hlow, hhigh⟩
  · exact ⟨low, ⟨by omega, by omega⟩, Or.inl hstar⟩
  · exact ⟨decimalPrefix 0 word, ⟨by exact_mod_cast hlow, by exact_mod_cast hhigh⟩, Or.inr rfl⟩

theorem plain_take {text : List UInt8} (h : CronText text) (n : Nat) :
    ∀ word ∈ words 32 (text.take n), Plain word := by
  intro word hword
  obtain ⟨i, hi, rfl⟩ := List.mem_iff_getElem.mp hword
  obtain ⟨w, hw, hcut, -⟩ := words_take text n (List.getElem?_eq_getElem hi)
  obtain ⟨hlen, hall⟩ := List.forall₂_iff_zip.mp h.fields
  obtain ⟨hlt, rfl⟩ := List.getElem?_eq_some_iff.mp hw
  have hmem : ((words 32 text)[i], cronRanges[i]) ∈ (words 32 text).zip cronRanges := by
    rw [← List.getElem_zip]
    exact List.getElem_mem (by rw [List.length_zip]; omega)
  have hranges : ∀ r ∈ cronRanges, r.2 < 2 ^ 31 := by decide
  exact (hall hmem).plain (hranges _ (List.of_mem_zip hmem).2) hcut

/-- The time of a date. -/
def atTime (d : Date) (hour minute : Int) : RtcDatetime :=
  ⟨d.year, d.month, d.day, 0, hour, minute, 0, 0⟩

theorem atTime_valid {d : Date} {hour minute : Int} (hyear : 2000 ≤ d.year)
    (hhour : 0 ≤ hour ∧ hour ≤ 23) (hminute : 0 ≤ minute ∧ minute ≤ 59) :
    datetimeValid (atTime d hour minute) = true := by
  have hlen := monthLength_le d.year d.month
  have hday := d.day_mem
  refine datetimeValid_iff.mpr ⟨hyear, d.month_mem, ⟨hday.1, hday.2.trans hlen⟩, ?_,
    ⟨hhour, hminute, ?_⟩, Int.le_refl 0⟩
  · exact ⟨Int.le_refl 0, show (0 : Int) ≤ 6 by decide⟩
  · exact ⟨Int.le_refl 0, show (0 : Int) ≤ 59 by decide⟩

theorem stored_iff {cron : CStr} (h : CronText cron.val) {appId : CStr} {prev : List BgEntry}
    {task : BgTask} (htask : task.cron = cron) (dt : RtcDatetime) :
    cronMatches (newEntry appId prev task).cron dt = true ↔
      FieldHolds (wordAt (cron.val.take 23) 0) dt.minute ∧
        FieldHolds (wordAt (cron.val.take 23) 1) dt.hour ∧
          FieldHolds (wordAt (cron.val.take 23) 2) dt.day ∧
            FieldHolds (wordAt (cron.val.take 23) 3) dt.month ∧
              FieldHolds (wordAt (cron.val.take 23) 4) (dowOf dt) := by
  have hval : (newEntry appId prev task).cron.val = cron.val.take 23 := by
    rw [← htask]
    rfl
  have hhead : (newEntry appId prev task).cron.val.head? ≠ some 32 := by
    rw [hval, List.head?_take, if_neg (by decide)]
    exact h.start
  rw [cronMatches_iff hhead (by rw [hval]; exact plain_take h 23), hval]

section Kept

variable {cron : CStr} (h : CronText cron.val)

include h

/-- An expression that 23 characters keep is matched as it is. -/
theorem storedMatches_of_kept (hkept : Kept cron.val) : StoredMatches cron := by
  intro appId prev task dt d htask hvalid hfits hshow
  obtain ⟨hlen, hfields⟩ := h.elim
  rw [stored_iff h htask, meets_iff hlen]
  by_cases hnames : NamesDate (wordAt cron.val 2) (wordAt cron.val 3)
  · obtain ⟨hopen, hfive⟩ := hkept.whole hnames
    have hwhole : ∀ i < 4, wordAt (cron.val.take 23) i = wordAt cron.val i := fun i hi =>
      (wordAt_take cron.val 23 i).2 (by omega)
    have hlast : wordAt (cron.val.take 23) 4 = [42] := by
      have hpart := (wordAt_take cron.val 23 4).1
      have hmem : wordAt (cron.val.take 23) 4 ∈ words 32 (cron.val.take 23) := by
        have hlt : 4 < (words 32 (cron.val.take 23)).length := by omega
        rw [wordAt, List.getD_eq_getElem?_getD, List.getElem?_eq_getElem hlt, Option.getD_some]
        exact List.getElem_mem hlt
      rw [hopen] at hpart
      rcases List.prefix_cons_iff.mp hpart with hnil | ⟨t, ht, hrest⟩
      · exact absurd hnil (mem_words hmem).1
      · rw [ht, List.prefix_nil.mp hrest]
    rw [hwhole 0 (by decide), hwhole 1 (by decide), hwhole 2 (by decide), hwhole 3 (by decide),
      hlast, hopen]
    simp only [FieldHolds, true_or]
  · have hcut := hkept.none hnames
    constructor
    · rintro ⟨-, -, hday, hmonth, -⟩
      exact absurd ⟨d, hshow.day ▸ hday, hshow.month ▸ hmonth⟩ hcut
    · rintro ⟨-, -, hday, hmonth, -⟩
      exact absurd ⟨d, hshow.day ▸ hday, hshow.month ▸ hmonth⟩ hnames

/-- An expression that is matched as it is, at a time of every date. -/
theorem StoredMatches.at (hmatches : StoredMatches cron) : ∃ hour minute : Int,
    (FieldHolds (wordAt cron.val 0) minute ∧ FieldHolds (wordAt cron.val 1) hour) ∧
      ∀ d : Date, 2000 ≤ d.year → d.year < 2 ^ 31 →
        ((FieldHolds (wordAt (cron.val.take 23) 0) minute ∧
          FieldHolds (wordAt (cron.val.take 23) 1) hour ∧
            FieldHolds (wordAt (cron.val.take 23) 2) d.day ∧
              FieldHolds (wordAt (cron.val.take 23) 3) d.month ∧
                FieldHolds (wordAt (cron.val.take 23) 4) (dowOf (atTime d hour minute))) ↔
          FieldHolds (wordAt cron.val 2) d.day ∧ FieldHolds (wordAt cron.val 3) d.month ∧
            FieldHolds (wordAt cron.val 4) d.weekday) := by
  obtain ⟨hlen, h0, h1, -⟩ := h.elim
  obtain ⟨minute, hminute, hholds0⟩ := h0.exists_value (by decide)
  obtain ⟨hour, hhour, hholds1⟩ := h1.exists_value (by decide)
  refine ⟨hour, minute, ⟨hholds0, hholds1⟩, fun d hyear hfits => ?_⟩
  have hiff := hmatches cron [] ⟨cron, 0, cron⟩ (atTime d hour minute) d rfl
    (atTime_valid hyear (by simpa using hhour) (by simpa using hminute)) hfits ⟨rfl, rfl, rfl⟩
  rw [stored_iff h rfl, meets_iff hlen] at hiff
  exact hiff.trans ⟨fun hall => hall.2.2, fun hall => ⟨hholds0, hholds1, hall⟩⟩

theorem kept_of_storedMatches (hmatches : StoredMatches cron) : Kept cron.val := by
  obtain ⟨hlen, -, -, -, -, h4⟩ := h.elim
  obtain ⟨hour, minute, ⟨hholds0, hholds1⟩, hat⟩ := hmatches.at h
  have hdow : ∀ d : Date, 2000 ≤ d.year ∧ d.year ≤ 2024 →
      dowOf (atTime d hour minute) = d.weekday := fun d hyear =>
    weekday_early ⟨rfl, rfl, rfl⟩ hyear
  have hcut4 := h4.cut (wordAt_take cron.val 23 4).1
  constructor
  · rintro ⟨d0, hday, hmonth⟩
    -- where the last field of the text holds, the last field of its beginning does
    have hlast : ∀ w : Int, 0 ≤ w ∧ w ≤ 6 → FieldHolds (wordAt cron.val 4) w →
        ∃ d : Date, (d.month = d0.month ∧ d.day = d0.day) ∧ d.weekday = w ∧
          (2000 ≤ d.year ∧ d.year ≤ 2024) ∧ FieldHolds (wordAt (cron.val.take 23) 4) w := by
      intro w hw hholds
      obtain ⟨d, hsameMonth, hsameDay, hweekday, hyear⟩ := d0.exists_weekday hw
      have hfields := (hat d hyear.1 (by omega)).mpr
        ⟨hsameDay ▸ hday, hsameMonth ▸ hmonth, hweekday ▸ hholds⟩
      rw [hdow d hyear, hweekday] at hfields
      exact ⟨d, ⟨hsameMonth, hsameDay⟩, hweekday, hyear, hfields.2.2.2.2⟩
    have hopen : wordAt cron.val 4 = [42] := by
      by_contra hstar
      obtain ⟨v, hv, hholds⟩ := h4.exists_value (by decide)
      have hv' : 0 ≤ v ∧ v ≤ 6 := by simpa using hv
      obtain ⟨d, ⟨hsameMonth, hsameDay⟩, hweekday, hyear, hearly⟩ := hlast v hv' hholds
      -- far ahead the day of the week is another one
      have hlate := (hat (d.addCycles 29398) (by simp only [Date.addCycles]; omega)
        (by simp only [Date.addCycles]; omega)).mpr
        ⟨hsameDay ▸ hday, hsameMonth ▸ hmonth, by
          rw [Date.weekday_addCycles, hweekday]
          exact hholds⟩
      rw [weekday_late ⟨rfl, rfl, rfl⟩ hyear, hweekday] at hlate
      have hnot : wordAt (cron.val.take 23) 4 ≠ [42] :=
        (hcut4.resolve_left fun hboth => hstar hboth.2).1
      have hvalue := hearly.resolve_left hnot
      have hvalue' := hlate.2.2.2.2.resolve_left hnot
      omega
    refine ⟨hopen, ?_⟩
    by_contra hfew
    have hle := length_words_take cron.val 23
    have hnil : wordAt (cron.val.take 23) 4 = [] := by
      rw [wordAt, List.getD_eq_getElem?_getD, List.getElem?_eq_none (by omega), Option.getD_none]
    obtain ⟨d, -, -, -, hmonday⟩ := hlast 1 (by decide) (Or.inl hopen)
    rw [hnil] at hmonday
    simp [FieldHolds, decimalPrefix] at hmonday
  · rintro hnames ⟨d0, hday, hmonth⟩
    have hfour : 4 ≤ (words 32 (cron.val.take 23)).length := by
      by_contra hfew
      have hnil : wordAt (cron.val.take 23) 3 = [] := by
        rw [wordAt, List.getD_eq_getElem?_getD, List.getElem?_eq_none (by omega), Option.getD_none]
      have hpos := d0.month_mem
      rw [hnil] at hmonth
      simp only [FieldHolds, decimalPrefix] at hmonth
      rcases hmonth with habsurd | hzero
      · simp at habsurd
      · omega
    obtain ⟨w, hw, hholds⟩ : ∃ w : Int, (0 ≤ w ∧ w ≤ 6) ∧
        FieldHolds (wordAt (cron.val.take 23) 4) w := by
      rcases hcut4 with ⟨hstar, -⟩ | ⟨-, -, hvalue⟩
      · exact ⟨0, by decide, Or.inl hstar⟩
      · exact ⟨_, ⟨Int.natCast_nonneg _, by exact_mod_cast hvalue⟩, Or.inr rfl⟩
    obtain ⟨d, hsameMonth, hsameDay, hweekday, hyear⟩ := d0.exists_weekday hw
    have hwhole : ∀ i < 3, wordAt (cron.val.take 23) i = wordAt cron.val i := fun i hi =>
      (wordAt_take cron.val 23 i).2 (by omega)
    have hfields := (hat d hyear.1 (by omega)).mp
      ⟨hwhole 0 (by decide) ▸ hholds0, hwhole 1 (by decide) ▸ hholds1, hsameDay ▸ hday,
        hsameMonth ▸ hmonth, by rw [hdow d hyear, hweekday]; exact hholds⟩
    exact hnames ⟨d, hfields.1, hfields.2.1⟩

end Kept

/-- Validator and matcher have one language on the texts without a numeral that wraps around
into its range, as far as 23 characters keep them. -/
theorem sameLanguage_iff (cron : CStr) :
    SameLanguage cron ↔ (WrappedText cron.val →
      (∀ word ∈ words 32 cron.val, decimalPrefix 0 word < 2 ^ 32) ∧ Kept cron.val) := by
  unfold SameLanguage
  rw [isValidCron_iff]
  by_cases hwrapped : WrappedText cron.val
  swap
  · have hnot : ¬ CronText cron.val := fun h => hwrapped (wrappedText_of_cronText h)
    simp only [hwrapped, hnot, false_imp_iff, and_self]
  · have hiff := cronText_iff_of_wrapped hwrapped
    simp only [hwrapped, true_iff, forall_const]
    rw [← hiff]
    exact and_congr_right fun h => ⟨kept_of_storedMatches h, storedMatches_of_kept h⟩

/-- The minute `2 ^ 32` is accepted. -/
theorem not_sameLanguage : ¬ ∀ cron : CStr, SameLanguage cron := by
  intro hall
  have haccepted : isValidCron (lit "4294967296 * * * *") = true := by decide
  have htext := (hall (lit "4294967296 * * * *")).1.mp haccepted
  have hsmall := (cronText_iff_of_wrapped (wrappedText_of_cronText htext)).mp htext
    (ascii "4294967296") (by decide)
  exact absurd hsmall (by decide)

end Background
end JppDos
