import JppDos.Display.Ssd1306
import JppDos.Lib.Words
import Mathlib.Algebra.Order.Ring.Nat

/-!
# The lines of the dim clock

Below the clock of the dimmed screen stands a random line: one of a built-in table, or one
of `/sd/clocklines.txt`.  The file is split in place, a line is picked by a random number,
and it is centred with unsigned arithmetic that ends in a byte.
-/

namespace JppDos
namespace Ui

open CText Display Words

/-- `CLOCKLINES_MAX`. -/
def clocklinesMax : Nat := 64

/-- `CLOCKLINES_BUF_SIZE`. -/
def clocklinesBufSize : Nat := 2048

/-- `BIG_DIM_CLOCK_LINES`. -/
def bigDimClockLines : List (List UInt8) :=
  ["u r handsome <3", "time to shine", "hi (non-sexual)", "hi", "you're late", "don't use telega",
    "huh", "shit on a lamp post", "hamburger", "Burmalda", "1536 gang", "goshan wtf", "artyom wtf",
    "peter griffin", "xvvzxds", "[! BOMB ARMED !]", "WELCOME CAROL", "Big Dim Clock Line",
    "undefined", "(^._.^ )__ cat", "j++device, 2026", "okak", "bazinga", "chewsday innit",
    "eto puhosos", "smen zokril", "dali chivi B-)", "a da nuuuuu nafig", "(6)(7) Kitay-gorod",
    "poganie prudy", "privet ivan", "erik <3 coffee"].map ascii

/-- `s_clocklines` up to `s_clocklines_count`, and `s_clocklines_replace`. -/
structure Clocklines where
  lines : List (List UInt8)
  replace : Bool
  deriving DecidableEq

/-- The character ends a line. -/
def endsLine (b : UInt8) : Bool := b == 13 || b == 10

/-- The text `!r`. -/
def replaceMark : List UInt8 := ascii "!r"

/-- The loop of `load_clocklines` over the characters in front of the terminating zero. -/
def clockLoop : Nat → List UInt8 → Clocklines → Clocklines
  | 0, _, s => s
  | fuel + 1, p, s =>
      if p = [] ∨ clocklinesMax ≤ s.lines.length then s
      else
        let p := p.dropWhile endsLine
        if p = [] then s
        else
          let line := p.takeWhile (!endsLine ·)
          let p := (p.dropWhile (!endsLine ·)).drop 1
          if s.lines.length = 0 ∧ line = replaceMark then
            clockLoop fuel p { s with replace := true }
          else if line = [] then clockLoop fuel p s
          else clockLoop fuel p { s with lines := s.lines ++ [line] }

/-- `load_clocklines`, on the contents of the file. -/
def loadClocklines (file : List UInt8) : Clocklines :=
  if file = [] ∨ clocklinesBufSize ≤ file.length then ⟨[], false⟩
  else clockLoop (cString file).length (cString file) ⟨[], false⟩

/-- `pick_random_line`, with the number from `esp_random`. -/
def pickRandomLine (s : Clocklines) (random : UInt32) : List UInt8 :=
  let own := s.replace && decide (0 < s.lines.length)
  let total := if own then s.lines.length else bigDimClockLines.length + s.lines.length
  let total := if total = 0 then bigDimClockLines.length else total
  let index := (random % UInt32.ofNat total).toNat
  if own then s.lines.getD index []
  else if index < bigDimClockLines.length then bigDimClockLines.getD index []
  else s.lines.getD (index - bigDimClockLines.length) []

/-- The column at which `render_dim_clock` draws the line. -/
def randlineCol (line : List UInt8) : UInt8 :=
  ((128 - UInt32.ofNat line.length * 6) / 2).toUInt8

/-- The non-empty lines of a file whose lines end with CR, LF or both. -/
def fileLines (file : List UInt8) : List (List UInt8) :=
  words 10 (file.map fun b => if b = 13 then 10 else b)

/-- The lines and the mode that a file asks for. -/
def askedLines (file : List UInt8) : Clocklines :=
  match fileLines file with
  | [] => ⟨[], false⟩
  | first :: rest =>
      if first = replaceMark then ⟨rest.take clocklinesMax, true⟩
      else ⟨(first :: rest).take clocklinesMax, false⟩

/-- The pool from which a line is picked. -/
def pool (s : Clocklines) : List (List UInt8) :=
  if s.replace = true ∧ s.lines ≠ [] then s.lines else bigDimClockLines ++ s.lines

/-- The line begins on the display, with as many characters as fit. -/
def DrawnWell (line : List UInt8) : Prop :=
  ((stringCalls (randlineCol line) line).map Prod.snd).take (min line.length 21) =
    line.take (min line.length 21)

/-- The lines of a file are kept, picked and drawn. -/
structure ClockLinesKept (file : List UInt8) : Prop where
  loaded : loadClocklines file = askedLines file
  picked : ∀ random, pickRandomLine (loadClocklines file) random ∈ pool (loadClocklines file)
  drawn : ∀ random, DrawnWell (pickRandomLine (loadClocklines file) random)

/-- What is collected from lines. -/
def collect : List (List UInt8) → Clocklines → Clocklines
  | [], s => s
  | line :: lines, s =>
      if clocklinesMax ≤ s.lines.length then s
      else if s.lines.length = 0 ∧ line = replaceMark then collect lines { s with replace := true }
      else collect lines { s with lines := s.lines ++ [line] }

/-- A line end of either kind. -/
def newline (b : UInt8) : UInt8 := if b = 13 then 10 else b

theorem endsLine_iff (b : UInt8) : endsLine b = decide (newline b = 10) := by
  unfold endsLine newline
  by_cases h13 : b = 13
  · simp [h13]
  · by_cases h10 : b = 10
    · simp [h10]
    · simp [h13, h10]

theorem newline_of_not_endsLine {b : UInt8} (h : endsLine b = false) : newline b = b := by
  unfold newline
  rw [if_neg]
  rintro rfl
  exact absurd h (by decide)

theorem fileLines_dropWhile (p : List UInt8) : fileLines (p.dropWhile endsLine) = fileLines p := by
  have hmap : (p.dropWhile endsLine).map newline = (p.map newline).dropWhile (· = 10) := by
    rw [List.dropWhile_map]
    congr 2
    funext b
    exact endsLine_iff b
  unfold fileLines
  change words 10 ((p.dropWhile endsLine).map newline) = words 10 (p.map newline)
  rw [hmap, words_dropWhile]

theorem fileLines_eq_cons {p : List UInt8} (hne : p ≠ [])
    (hhead : ∀ b, p.head? = some b → endsLine b = false) :
    fileLines p =
      p.takeWhile (!endsLine ·) :: fileLines ((p.dropWhile (!endsLine ·)).drop 1) := by
  have hpred : (fun b => decide (b ≠ 10)) ∘ newline = fun b => !endsLine b := by
    funext b
    simp [endsLine_iff]
  have htake : (p.map newline).takeWhile (· ≠ 10) = p.takeWhile (!endsLine ·) := by
    rw [List.takeWhile_map, hpred]
    refine List.map_congr_left (fun b hb => ?_) |>.trans (List.map_id _)
    exact newline_of_not_endsLine (by simpa using List.mem_takeWhile_imp hb)
  have hdrop : (p.map newline).dropWhile (· ≠ 10) = (p.dropWhile (!endsLine ·)).map newline := by
    rw [List.dropWhile_map, hpred]
  have hskip : words 10 ((p.dropWhile (!endsLine ·)).map newline) =
      words 10 (((p.dropWhile (!endsLine ·)).drop 1).map newline) := by
    have hend := List.head?_dropWhile_not (!endsLine ·) p
    cases hrest : p.dropWhile (!endsLine ·) with
    | nil => rfl
    | cons b rest =>
        rw [hrest] at hend
        have hb : newline b = 10 := by simpa [endsLine_iff] using hend
        rw [List.map_cons, hb, words_cons_sep]
        rfl
  have hstart : (p.map newline).head? ≠ some 10 := by
    rw [List.head?_map]
    cases hp : p.head? with
    | none => simp
    | some b =>
        have hb := hhead b hp
        rw [endsLine_iff, decide_eq_false_iff_not] at hb
        simpa using hb
  change words 10 (p.map newline) = _ :: words 10 _
  rw [words_eq_cons (by simpa using hne) hstart, htake, hdrop, hskip]
  rfl

theorem clockLoop_eq {fuel : Nat} {p : List UInt8} (h : p.length ≤ fuel) (s : Clocklines) :
    clockLoop fuel p s = collect (fileLines p) s := by
  induction fuel generalizing p s with
  | zero =>
      rw [List.length_eq_zero_iff.mp (Nat.le_zero.mp h)]
      rfl
  | succ fuel ih =>
      rw [clockLoop]
      by_cases hfull : clocklinesMax ≤ s.lines.length
      · rw [if_pos (Or.inr hfull)]
        cases hlines : fileLines p with
        | nil => rfl
        | cons line lines => rw [collect, if_pos hfull]
      · by_cases hnil : p = []
        · rw [if_pos (Or.inl hnil), hnil]
          rfl
        · rw [if_neg (not_or.mpr ⟨hnil, hfull⟩), ← fileLines_dropWhile]
          dsimp only
          have hhead := List.head?_dropWhile_not endsLine p
          have hshort := (List.dropWhile_suffix (l := p) endsLine).length_le
          generalize p.dropWhile endsLine = q at hhead hshort
          by_cases hq : q = []
          · rw [if_pos hq, hq]
            rfl
          · have hfirst : ∀ b, q.head? = some b → endsLine b = false := by
              intro b hb
              rw [hb] at hhead
              simpa using hhead
            have hline : q.takeWhile (!endsLine ·) ≠ [] := by
              obtain ⟨b, rest, rfl⟩ := List.exists_cons_of_ne_nil hq
              rw [List.takeWhile_cons_of_pos (by simp [hfirst b rfl])]
              exact List.cons_ne_nil _ _
            have hrest : ((q.dropWhile (!endsLine ·)).drop 1).length ≤ fuel := by
              obtain ⟨b, rest, rfl⟩ := List.exists_cons_of_ne_nil hq
              rw [List.dropWhile_cons_of_pos (by simp [hfirst b rfl]), List.length_drop]
              have := (List.dropWhile_suffix (l := rest) (!endsLine ·)).length_le
              rw [List.length_cons] at hshort
              omega
            rw [if_neg hq, fileLines_eq_cons hq hfirst, collect, if_neg hfull, if_neg hline]
            split
            · exact ih hrest _
            · exact ih hrest _

theorem collect_started (lines : List (List UInt8)) {s : Clocklines} (hne : s.lines ≠ [])
    (hmax : s.lines.length ≤ clocklinesMax) :
    collect lines s =
      { s with lines := s.lines ++ lines.take (clocklinesMax - s.lines.length) } := by
  induction lines generalizing s with
  | nil => simp [collect]
  | cons line lines ih =>
      have hpos := List.length_pos_of_ne_nil hne
      rw [collect]
      split
      · rename_i hfull
        rw [Nat.sub_eq_zero_of_le hfull, List.take_zero, List.append_nil]
      · rename_i hroom
        rw [if_neg fun h => (Nat.ne_of_gt hpos) h.1, ih (by simp) (by simp; omega)]
        have hsub : clocklinesMax - s.lines.length =
            clocklinesMax - (s.lines ++ [line]).length + 1 := by
          rw [List.length_append, List.length_singleton]
          omega
        rw [hsub, List.take_succ_cons, List.append_assoc]
        rfl

/-- All marks in front of the first line are taken for the mode. -/
theorem collect_start (lines : List (List UInt8)) (replace : Bool) :
    collect lines ⟨[], replace⟩ =
      ⟨(lines.dropWhile (· = replaceMark)).take clocklinesMax,
        replace || decide (lines.head? = some replaceMark)⟩ := by
  induction lines generalizing replace with
  | nil => simp [collect]
  | cons line lines ih =>
      rw [collect, if_neg (by simp [clocklinesMax])]
      by_cases hmark : line = replaceMark
      · rw [if_pos ⟨rfl, hmark⟩]
        dsimp only
        rw [ih, List.dropWhile_cons_of_pos (by simpa using hmark), hmark]
        simp
      · rw [if_neg fun h => hmark h.2, collect_started lines (by simp) (by simp [clocklinesMax]),
          List.dropWhile_cons_of_neg (by simpa using hmark)]
        simp [clocklinesMax, hmark]

theorem loadClocklines_eq {file : List UInt8} (h : file.length < clocklinesBufSize) :
    loadClocklines file =
      ⟨((fileLines (cString file)).dropWhile (· = replaceMark)).take clocklinesMax,
        decide ((fileLines (cString file)).head? = some replaceMark)⟩ := by
  rw [loadClocklines]
  split
  · rename_i hempty
    rw [hempty.resolve_right (Nat.not_le_of_lt h)]
    rfl
  · rw [clockLoop_eq (Nat.le_refl _), collect_start, Bool.false_or]

theorem ne_zero_of_endsLine {b : UInt8} (h : endsLine b = true) : b ≠ 0 := by
  rintro rfl
  exact absurd h (by decide)

theorem cString_cons_of_ne {b : UInt8} (h : b ≠ 0) (file : List UInt8) :
    cString (b :: file) = b :: cString file := by
  rw [cString, List.takeWhile_cons_of_pos (by simpa using h)]
  rfl

theorem cString_dropWhile (file : List UInt8) :
    (cString file).dropWhile endsLine = cString (file.dropWhile endsLine) := by
  induction file with
  | nil => rfl
  | cons b file ih =>
      by_cases hb : endsLine b = true
      · rw [cString_cons_of_ne (ne_zero_of_endsLine hb), List.dropWhile_cons_of_pos hb,
          List.dropWhile_cons_of_pos hb, ih]
      · rw [List.dropWhile_cons_of_neg hb]
        by_cases hzero : b = 0
        · rw [cString, List.takeWhile_cons_of_neg (by simpa using hzero)]
          rfl
        · rw [cString_cons_of_ne hzero, List.dropWhile_cons_of_neg hb]

/-- A line without a zero is in front of the first zero, and what is behind it stays there. -/
theorem cString_line {q : List UInt8} (h : 0 ∉ q.takeWhile (!endsLine ·)) :
    (cString q).takeWhile (!endsLine ·) = q.takeWhile (!endsLine ·) ∧
      ((cString q).dropWhile (!endsLine ·)).drop 1 =
        cString ((q.dropWhile (!endsLine ·)).drop 1) := by
  have hjoin : cString q = q.takeWhile (!endsLine ·) ++ cString (q.dropWhile (!endsLine ·)) := by
    rw [← cString_append h, List.takeWhile_append_dropWhile]
  have hpass : ∀ b ∈ q.takeWhile (!endsLine ·), (!endsLine b) = true := fun b hb =>
    (List.mem_takeWhile_imp (p := fun b => !endsLine b) hb)
  rw [hjoin, List.takeWhile_append_of_pos hpass, List.dropWhile_append_of_pos hpass]
  have hend := List.head?_dropWhile_not (!endsLine ·) q
  cases hrest : q.dropWhile (!endsLine ·) with
  | nil => simp [cString]
  | cons b rest =>
      rw [hrest] at hend
      have hb : endsLine b = true := by simpa using hend
      rw [cString_cons_of_ne (ne_zero_of_endsLine hb),
        List.takeWhile_cons_of_neg (by simp [hb]), List.dropWhile_cons_of_neg (by simp [hb]),
        List.append_nil]
      exact ⟨rfl, rfl⟩

/-- Up to the first line with a zero the text has the lines of the file. -/
theorem take_fileLines_cString (n : Nat) {file : List UInt8}
    (h : ∀ line ∈ (fileLines file).take n, 0 ∉ line) :
    (fileLines (cString file)).take n = (fileLines file).take n := by
  induction n generalizing file with
  | zero => rw [List.take_zero, List.take_zero]
  | succ n ih =>
      rw [← fileLines_dropWhile (cString file), cString_dropWhile, ← fileLines_dropWhile file]
      rw [← fileLines_dropWhile file] at h
      have hhead := List.head?_dropWhile_not endsLine file
      cases hq : file.dropWhile endsLine with
      | nil => rfl
      | cons b q =>
          rw [hq] at h hhead
          have hb : endsLine b = false := by simpa using hhead
          have hfirst : ∀ c, (b :: q).head? = some c → endsLine c = false := by
            intro c hc
            rwa [← Option.some.inj hc]
          rw [fileLines_eq_cons (List.cons_ne_nil b q) hfirst, List.take_succ_cons] at h
          obtain ⟨hline, hrest⟩ := List.forall_mem_cons.mp h
          obtain ⟨htake, hdrop⟩ := cString_line hline
          have hzero : b ≠ 0 := by
            rintro rfl
            rw [List.takeWhile_cons_of_pos (by simp [hb])] at hline
            exact hline List.mem_cons_self
          have hcut : ∀ c, (cString (b :: q)).head? = some c → endsLine c = false := by
            intro c hc
            rw [cString_cons_of_ne hzero] at hc
            rwa [← Option.some.inj hc]
          have hne : cString (b :: q) ≠ [] := by
            rw [cString_cons_of_ne hzero]
            exact List.cons_ne_nil _ _
          rw [fileLines_eq_cons hne hcut, fileLines_eq_cons (List.cons_ne_nil b q) hfirst, htake,
            hdrop, List.take_succ_cons, List.take_succ_cons, ih hrest]

theorem zero_notMem_fileLines {file line : List UInt8} (h : line ∈ fileLines (cString file)) :
    0 ∉ line := by
  intro hzero
  have hmem := (mem_words h).2.subset hzero
  obtain ⟨b, hb, hnew⟩ := List.mem_map.mp hmem
  have hpass : b ≠ 0 := by simpa using List.mem_takeWhile_imp (p := fun b => decide (b ≠ 0)) hb
  split at hnew
  · exact absurd hnew (by decide)
  · exact hpass hnew

/-- The lines of the file are loaded exactly if none of them holds a zero, and the mark does not
stand twice at the front. -/
theorem loadClocklines_eq_iff {file : List UInt8} (h : file.length < clocklinesBufSize) :
    loadClocklines file = askedLines file ↔
      (∀ line ∈ (askedLines file).lines, 0 ∉ line) ∧
        ¬ [replaceMark, replaceMark] <+: fileLines file := by
  rw [loadClocklines_eq h]
  constructor
  · intro heq
    refine ⟨fun line hline => ?_, fun hmarks => ?_⟩
    · rw [← heq] at hline
      exact zero_notMem_fileLines ((List.dropWhile_suffix _).subset (List.mem_of_mem_take hline))
    · obtain ⟨rest, hrest⟩ := hmarks
      have hasked : (askedLines file).lines.head? = some replaceMark := by
        rw [askedLines, ← hrest]
        rfl
      rw [← heq, List.head?_take, if_neg (by decide)] at hasked
      have hnot := List.head?_dropWhile_not (fun x => decide (x = replaceMark))
        (fileLines (cString file))
      rw [hasked] at hnot
      exact absurd hnot (by simp)
  · rintro ⟨hzero, hmarks⟩
    rw [askedLines] at hzero ⊢
    cases hlines : fileLines file with
    | nil =>
        have hnone := @take_fileLines_cString 1 file (by simp [hlines])
        rw [hlines, List.take_nil, List.take_eq_nil_iff] at hnone
        rw [hnone.resolve_left (by decide)]
        rfl
    | cons first rest =>
        rw [hlines] at hzero
        dsimp only at hzero ⊢
        by_cases hfirst : first = replaceMark
        · rw [if_pos hfirst] at hzero ⊢
          have htake := @take_fileLines_cString (clocklinesMax + 1) file (by
            rw [hlines, List.take_succ_cons, List.forall_mem_cons, hfirst]
            exact ⟨by decide, hzero⟩)
          rw [hlines, List.take_succ_cons] at htake
          cases htext : fileLines (cString file) with
          | nil => simp [htext] at htake
          | cons first' rest' =>
              rw [htext, List.take_succ_cons] at htake
              obtain ⟨hfirst', hrest⟩ := List.cons.inj htake
              have hsecond : rest'.head? ≠ some replaceMark := by
                intro hsecond
                have hhead : (rest'.take clocklinesMax).head? = some replaceMark := by
                  rw [List.head?_take, if_neg (by decide), hsecond]
                rw [hrest, List.head?_take, if_neg (by decide)] at hhead
                obtain ⟨more, hmore⟩ := List.head?_eq_some_iff.mp hhead
                exact hmarks ⟨more, by rw [hlines, hfirst, hmore]; rfl⟩
              have hdrop : rest'.dropWhile (· = replaceMark) = rest' := by
                cases rest' with
                | nil => rfl
                | cons second more =>
                    rw [List.dropWhile_cons_of_neg]
                    simpa using hsecond
              rw [List.dropWhile_cons_of_pos (by simp [hfirst', hfirst]), hdrop, hrest]
              simp [hfirst', hfirst]
        · rw [if_neg hfirst] at hzero ⊢
          have htake := @take_fileLines_cString clocklinesMax file (by rwa [hlines])
          rw [hlines] at htake
          cases htext : fileLines (cString file) with
          | nil => simp [htext, clocklinesMax] at htake
          | cons first' rest' =>
              have hfirst' : first' = first := by
                have hhead := congrArg List.head? htake
                rw [htext, List.head?_take, List.head?_take, if_neg (by decide)] at hhead
                exact Option.some.inj hhead
              rw [List.dropWhile_cons_of_neg (by simpa [hfirst'] using hfirst), ← htext, htake]
              simp [htext, hfirst', hfirst]

theorem pickRandomLine_eq {s : Clocklines} (h : s.lines.length ≤ clocklinesMax) (random : UInt32) :
    pickRandomLine s random = (pool s).getD (random.toNat % (pool s).length) [] := by
  have hmax : clocklinesMax = 64 := rfl
  have hbuiltin : bigDimClockLines.length = 32 := rfl
  have hindex : ∀ total, total ≤ 96 → (random % UInt32.ofNat total).toNat = random.toNat % total := by
    intro total htotal
    rw [UInt32.toNat_mod, UInt32.toNat_ofNat_of_lt' (Nat.lt_of_le_of_lt htotal (by decide))]
  rw [pickRandomLine, pool]
  by_cases hown : s.replace = true ∧ s.lines ≠ []
  · have hpos := List.length_pos_of_ne_nil hown.2
    have hflag : (s.replace && decide (0 < s.lines.length)) = true := by
      rw [hown.1, decide_eq_true hpos, Bool.and_self]
    simp only [if_pos hown, hflag, if_true]
    rw [if_neg (Nat.ne_of_gt hpos), hindex _ (by omega)]
  · have hflag : (s.replace && decide (0 < s.lines.length)) = false := by
      rw [Bool.and_eq_false_iff, decide_eq_false_iff_not]
      rcases not_and_or.mp hown with hreplace | hlines
      · exact Or.inl (by simpa using hreplace)
      · exact Or.inr (by simp [not_not.mp hlines])
    have hpos : bigDimClockLines.length + s.lines.length ≠ 0 := by omega
    simp only [if_neg hown, hflag, Bool.false_eq_true, if_false, if_neg hpos]
    rw [hindex _ (by omega), List.length_append]
    split
    · rename_i hlt
      rw [List.getD_append _ _ _ _ hlt]
    · rename_i hge
      rw [List.getD_append_right _ _ _ _ (Nat.le_of_not_lt hge)]

theorem pool_ne_nil (s : Clocklines) : pool s ≠ [] := by
  unfold pool
  split
  · rename_i h
    exact h.2
  · exact List.append_ne_nil_of_left_ne_nil (by decide) _

theorem pickRandomLine_mem {s : Clocklines} (h : s.lines.length ≤ clocklinesMax)
    (random : UInt32) : pickRandomLine s random ∈ pool s := by
  have hlt := Nat.mod_lt random.toNat (List.length_pos_of_ne_nil (pool_ne_nil s))
  rw [pickRandomLine_eq h, List.getD_eq_getElem _ _ hlt]
  exact List.getElem_mem hlt

theorem exists_pickRandomLine {s : Clocklines} (h : s.lines.length ≤ clocklinesMax)
    {line : List UInt8} (hline : line ∈ pool s) : ∃ random, pickRandomLine s random = line := by
  obtain ⟨i, hi, rfl⟩ := List.mem_iff_getElem.mp hline
  have hsmall : (pool s).length ≤ 96 := by
    have hbuiltin : bigDimClockLines.length = 32 := rfl
    have hmax : clocklinesMax = 64 := rfl
    unfold pool
    split
    · omega
    · rw [List.length_append]
      omega
  refine ⟨UInt32.ofNat i, ?_⟩
  rw [pickRandomLine_eq h, UInt32.toNat_ofNat_of_lt' (Nat.lt_trans hi (by
      exact Nat.lt_of_le_of_lt hsmall (by decide))), Nat.mod_eq_of_lt hi, List.getD_eq_getElem _ _ hi]

theorem toNat_randlineCol {line : List UInt8} (h : line.length < clocklinesBufSize) :
    (randlineCol line).toNat = (2 ^ 32 + 128 - 6 * line.length) % 2 ^ 32 / 2 % 256 := by
  unfold clocklinesBufSize at h
  have hlen : (UInt32.ofNat line.length * 6).toNat = 6 * line.length := by
    rw [UInt32.toNat_mul, UInt32.toNat_ofNat_of_lt' (Nat.lt_trans h (by decide))]
    change line.length * 6 % 2 ^ 32 = _
    rw [Nat.mul_comm]
    exact Nat.mod_eq_of_lt (by omega)
  rw [randlineCol, UInt32.toNat_toUInt8, UInt32.toNat_div, UInt32.toNat_sub, hlen]
  change (2 ^ 32 - 6 * line.length + 128) % 2 ^ 32 / 2 % 2 ^ 8 = _
  congr 3
  omega

/-- A line is drawn from its beginning exactly if it fits, or is so long that the column comes
round to the left edge again. -/
theorem drawnWell_iff {line : List UInt8} (h : line.length < clocklinesBufSize) :
    DrawnWell line ↔ line.length ≤ 21 ∨ line.length % 256 ∈ [21, 106, 192] := by
  obtain ⟨more, hmore⟩ := map_stringCalls_prefix (randlineCol line) line
  have hcount := length_stringCalls (randlineCol line) line
  rw [toNat_randlineCol h] at hcount
  have hfits : DrawnWell line ↔
      min line.length 21 ≤ (stringCalls (randlineCol line) line).length := by
    constructor
    · intro hdrawn
      have hlen := congrArg List.length hdrawn
      rw [List.length_take, List.length_take, List.length_map] at hlen
      omega
    · intro hle
      have htake : (((stringCalls (randlineCol line) line).map Prod.snd) ++ more).take
            (min line.length 21) =
          ((stringCalls (randlineCol line) line).map Prod.snd).take (min line.length 21) :=
        List.take_append_of_le_length (by rwa [List.length_map])
      rw [hmore] at htake
      exact htake.symm
  rw [hfits, hcount]
  unfold clocklinesBufSize at h
  rw [show width = 128 from rfl]
  by_cases hshort : line.length ≤ 21
  · have hcol : (2 ^ 32 + 128 - 6 * line.length) % 2 ^ 32 / 2 % 256 = 64 - 3 * line.length := by
      omega
    refine iff_of_true ?_ (Or.inl hshort)
    rw [hcol]
    omega
  · -- The column is that of the remainder of the length by 256.
    have hcol : (2 ^ 32 + 128 - 6 * line.length) % 2 ^ 32 / 2 % 256 =
        (832 - 3 * (line.length % 256)) % 256 := by omega
    have hround : ∀ r < 256, 126 ≤ 128 - (832 - 3 * r) % 256 ↔ r ∈ [21, 106, 192] := by
      decide +kernel
    rw [hcol, or_iff_right hshort, ← hround _ (Nat.mod_lt _ (by decide))]
    omega

/-- The line can be drawn from its beginning. -/
def Centred (line : List UInt8) : Prop :=
  line.length ≤ 21 ∨ line.length % 256 ∈ [21, 106, 192]

theorem centred_bigDimClockLines : ∀ line ∈ bigDimClockLines, line.length ≤ 21 := by decide

theorem length_le_of_mem_fileLines {file line : List UInt8} (h : line ∈ fileLines file) :
    line.length ≤ file.length := by
  have hle := (mem_words h).2.length_le
  rwa [List.length_map] at hle

theorem mem_askedLines {file line : List UInt8} (h : line ∈ (askedLines file).lines) :
    line ∈ fileLines file := by
  rw [askedLines] at h
  cases hlines : fileLines file with
  | nil => simp [hlines] at h
  | cons first rest =>
      rw [hlines] at h
      dsimp only at h
      split at h
      · exact List.mem_cons_of_mem _ (List.mem_of_mem_take h)
      · exact List.mem_of_mem_take h

theorem length_askedLines (file : List UInt8) :
    (askedLines file).lines.length ≤ clocklinesMax := by
  rw [askedLines]
  cases fileLines file with
  | nil => exact Nat.zero_le _
  | cons first rest =>
      dsimp only
      split <;> exact List.length_take_le _ _

/-- A file that fits the buffer has its lines kept, picked and drawn exactly if none of them holds
a zero, the mark stands at most once at the front, and each of them can be drawn from its
beginning. -/
theorem clockLines_iff {file : List UInt8} (h : file.length < clocklinesBufSize) :
    ClockLinesKept file ↔
      (∀ line ∈ (askedLines file).lines, 0 ∉ line ∧ Centred line) ∧
        ¬ [replaceMark, replaceMark] <+: fileLines file := by
  have hshort : ∀ line ∈ (askedLines file).lines, line.length < clocklinesBufSize := fun line hline =>
    Nat.lt_of_le_of_lt (length_le_of_mem_fileLines (mem_askedLines hline)) h
  have hmem : ∀ line ∈ (askedLines file).lines, line ∈ pool (askedLines file) := by
    intro line hline
    unfold pool
    split
    · exact hline
    · exact List.mem_append_right _ hline
  constructor
  · rintro ⟨hloaded, -, hdrawn⟩
    obtain ⟨hzero, hmarks⟩ := (loadClocklines_eq_iff h).mp hloaded
    refine ⟨fun line hline => ⟨hzero line hline, ?_⟩, hmarks⟩
    obtain ⟨random, hrandom⟩ := exists_pickRandomLine (length_askedLines file) (hmem line hline)
    have hwell := hdrawn random
    rw [hloaded, hrandom] at hwell
    exact (drawnWell_iff (hshort line hline)).mp hwell
  · rintro ⟨hlines, hmarks⟩
    have hloaded := (loadClocklines_eq_iff h).mpr ⟨fun line hline => (hlines line hline).1, hmarks⟩
    refine ⟨hloaded, fun random => ?_, fun random => ?_⟩
    · rw [hloaded]
      exact pickRandomLine_mem (length_askedLines file) random
    · have hpick := pickRandomLine_mem (length_askedLines file) random
      rw [hloaded]
      generalize pickRandomLine (askedLines file) random = line at hpick
      have hbuiltin : ∀ line ∈ bigDimClockLines, DrawnWell line := fun line hline =>
        (drawnWell_iff (Nat.lt_of_le_of_lt (centred_bigDimClockLines line hline) (by decide))).mpr
          (Or.inl (centred_bigDimClockLines line hline))
      have hown : ∀ line ∈ (askedLines file).lines, DrawnWell line := fun line hline =>
        (drawnWell_iff (hshort line hline)).mpr (hlines line hline).2
      unfold pool at hpick
      split at hpick
      · exact hown line hpick
      · exact (List.mem_append.mp hpick).elim (hbuiltin line) (hown line)

/-- Two lines below a mark. -/
theorem clockLines_iff_twoLines : ClockLinesKept (ascii "!r\r\nhello\n\nworld") :=
  (clockLines_iff (by decide)).mpr (by
    simp only [Centred]
    decide)

/-- A line of 22 characters is not drawn at all. -/
theorem not_clockLines : ¬ ClockLinesKept (List.replicate 22 120) := by
  intro h
  have hlines := (((clockLines_iff (by decide)).mp h).1 (List.replicate 22 120) (by decide)).2
  exact absurd hlines (by unfold Centred; decide)

end Ui
end JppDos
