import Mathlib.Data.List.DropRight
import JppDos.Sdk.Grants
import JppDos.Sdk.Origin

/-!
# Saved origins

The files that keep which origins of https servers an app may contact, one origin a line:
how they are searched and how an origin is added.

Main fact:
* `Lists.persist`: what a file lists behind a grant.
-/

namespace JppDos
namespace Sdk

open CText Url

/-- `origin_grants_path`, in its buffer. -/
def originGrantsPath (appId : CStr) : List UInt8 :=
  (ascii "/data/grants/" ++ appId.val ++ ascii ".origins").take 95

/-- `ORIGIN_GRANTS_MAX_BYTES`. -/
def originGrantsMaxBytes : Nat := 1024

/-- What repeated calls of `fgets` with a buffer of the given size read, where a part of a
line has been read. -/
def fgetsLines (size : Nat) (line : List UInt8) : List UInt8 → List (List UInt8)
  | [] => if line = [] then [] else [line]
  | c :: rest =>
      if c = 10 ∨ line.length + 2 = size then (line ++ [c]) :: fgetsLines size [] rest
      else fgetsLines size (line ++ [c]) rest

/-- A line without what ends it. -/
def stripEol (line : List UInt8) : List UInt8 :=
  (cString line).rdropWhile fun c => c = 10 || c = 13

/-- `origin_is_persisted`. -/
def originIsPersisted (files : GrantFiles) (appId : CStr) (origin : List UInt8) : Bool :=
  match files (originGrantsPath appId) with
  | none => false
  | some text => (fgetsLines (originMax + 2) [] text).any fun line => stripEol line = origin

/-- The file of an app would grow beyond its bound. -/
def originGrantsFull (files : GrantFiles) (appId : CStr) (origin : List UInt8) : Bool :=
  match files (originGrantsPath appId) with
  | none => false
  | some text => originGrantsMaxBytes < text.length + origin.length + 1

/-- `origin_persist`; the flag says whether the file can be opened. -/
def originPersist (files : GrantFiles) (appId : CStr) (origin : List UInt8) (opens : Bool) :
    GrantFiles :=
  if originIsPersisted files appId origin then files
  else if originGrantsFull files appId origin then files
  else if !opens then files
  else
    Function.update files (originGrantsPath appId)
      (some ((files (originGrantsPath appId)).getD [] ++ origin ++ [10]))

/-- A text that is a line of a file. -/
structure IsLine (text : List UInt8) : Prop where
  length : text.length < originMax
  bytes : ∀ c ∈ text, c ≠ 0 ∧ c ≠ 10 ∧ c ≠ 13

/-- The lines one behind the other. -/
def linesText (lines : List (List UInt8)) : List UInt8 := (lines.map (· ++ [10])).flatten

theorem fgetsLines_line {size : Nat} {text : List UInt8} (h : 10 ∉ text) {line : List UInt8}
    (hlen : line.length + text.length + 2 ≤ size) (rest : List UInt8) :
    fgetsLines size line (text ++ 10 :: rest) =
      (line ++ text ++ [10]) :: fgetsLines size [] rest := by
  induction text generalizing line with
  | nil => simp [fgetsLines]
  | cons c text ih =>
      rw [List.mem_cons, not_or] at h
      rw [List.length_cons] at hlen
      rw [List.cons_append, fgetsLines, if_neg (not_or.mpr ⟨Ne.symm h.1, by omega⟩),
        ih h.2 (by rw [List.length_append, List.length_singleton]; omega)]
      simp

/-- Reading line by line gives back what was written line by line. -/
theorem fgetsLines_flatten {lines : List (List UInt8)} (h : ∀ text ∈ lines, IsLine text) :
    fgetsLines (originMax + 2) [] (linesText lines) = lines.map (· ++ [10]) := by
  induction lines with
  | nil => rfl
  | cons text lines ih =>
      obtain ⟨hline, hlines⟩ := List.forall_mem_cons.mp h
      have hlen := hline.length
      have hnone : (10 : UInt8) ∉ text := fun hmem => (hline.bytes 10 hmem).2.1 rfl
      have hcons : linesText (text :: lines) = text ++ 10 :: linesText lines := by
        simp [linesText]
      rw [hcons, fgetsLines_line hnone (by simp only [List.length_nil]; omega), ih hlines]
      rfl

theorem stripEol_line {text : List UInt8} (h : IsLine text) : stripEol (text ++ [10]) = text := by
  have hzero : cString (text ++ [10]) = text ++ [10] := by
    refine List.takeWhile_eq_self_iff.mpr fun c hc => decide_eq_true ?_
    rcases List.mem_append.mp hc with hc | hc
    · exact (h.bytes c hc).1
    · rw [List.mem_singleton.mp hc]
      decide
  rw [stripEol, hzero, List.rdropWhile_concat_pos _ _ _ (by decide), List.rdropWhile_eq_self_iff]
  intro hne hlast
  have hbytes := h.bytes _ (List.getLast_mem hne)
  simp [hbytes] at hlast

/-- The file of an app lists some origins. -/
structure Lists (files : GrantFiles) (appId : CStr) (origins : List (List UInt8)) : Prop where
  text : (files (originGrantsPath appId)).getD [] = linesText origins
  lines : ∀ origin ∈ origins, IsLine origin

theorem originIsPersisted_iff {files : GrantFiles} {appId : CStr} {origins : List (List UInt8)}
    (h : Lists files appId origins) (origin : List UInt8) :
    originIsPersisted files appId origin = true ↔ origin ∈ origins := by
  have htext := h.text
  rw [originIsPersisted]
  cases hfile : files (originGrantsPath appId) with
  | none =>
      rw [hfile, Option.getD_none] at htext
      cases origins with
      | nil => simp
      | cons first rest => exact absurd htext (by simp [linesText])
  | some text =>
      rw [hfile, Option.getD_some] at htext
      simp only [htext, fgetsLines_flatten h.lines, List.any_eq_true, List.mem_map,
        decide_eq_true_eq]
      constructor
      · rintro ⟨-, ⟨saved, hsaved, rfl⟩, heq⟩
        rw [stripEol_line (h.lines saved hsaved)] at heq
        rwa [← heq]
      · exact fun hmem => ⟨_, ⟨origin, hmem, rfl⟩, stripEol_line (h.lines origin hmem)⟩

theorem originGrantsPath_injective {id id' : CStr} (h : id.strlen < appIdMax)
    (h' : id'.strlen < appIdMax) (heq : originGrantsPath id = originGrantsPath id') : id = id' := by
  have hlen : ∀ id : CStr, id.strlen < appIdMax →
      originGrantsPath id = ascii "/data/grants/" ++ id.val ++ ascii ".origins" := by
    intro id hid
    refine List.take_of_length_le ?_
    have hfront : (ascii "/data/grants/").length = 13 := by decide
    have hend : (ascii ".origins").length = 8 := by decide
    simp only [CStr.strlen, appIdMax] at hid
    simp only [List.length_append, hfront, hend]
    omega
  rw [hlen id h, hlen id' h'] at heq
  exact Subtype.ext (List.append_cancel_left (List.append_cancel_right heq))

/-- A grant adds at most its own origin, and only to the file of its app. -/
theorem Lists.persist {files : GrantFiles} {appId id : CStr} {origins : List (List UInt8)}
    (h : Lists files id origins) (happ : appId.strlen < appIdMax) (hid : id.strlen < appIdMax)
    {origin : List UInt8} (hline : IsLine origin) (opens : Bool) :
    Lists (originPersist files appId origin opens) id origins ∨
      id = appId ∧ Lists (originPersist files appId origin opens) id (origins ++ [origin]) := by
  rw [originPersist]
  split_ifs
  · exact Or.inl h
  · exact Or.inl h
  · exact Or.inl h
  · by_cases hsame : id = appId
    · subst hsame
      refine Or.inr ⟨rfl, ?_, ?_⟩
      · rw [Function.update_self, Option.getD_some, h.text]
        simp [linesText]
      · intro o ho
        rcases List.mem_append.mp ho with ho | ho
        · exact h.lines o ho
        · rwa [List.mem_singleton.mp ho]
    · refine Or.inl ⟨?_, h.lines⟩
      rw [Function.update_of_ne fun heq => hsame (originGrantsPath_injective hid happ heq)]
      exact h.text

/-- Every origin in the files was approved for its app. -/
def Recorded (files : GrantFiles) (approved : List (CStr × List UInt8)) : Prop :=
  ∀ id : CStr, id.strlen < appIdMax →
    ∃ origins, Lists files id origins ∧ ∀ origin ∈ origins, (id, origin) ∈ approved

theorem recorded_empty (approved : List (CStr × List UInt8)) :
    Recorded (fun _ => none) approved :=
  fun _ _ => ⟨[], ⟨rfl, by simp⟩, by simp⟩

theorem Recorded.found {files : GrantFiles} {approved : List (CStr × List UInt8)}
    (h : Recorded files approved) {appId : CStr} (happ : appId.strlen < appIdMax)
    {origin : List UInt8} (hfound : originIsPersisted files appId origin = true) :
    (appId, origin) ∈ approved := by
  obtain ⟨origins, hlists, happroved⟩ := h appId happ
  exact happroved origin ((originIsPersisted_iff hlists origin).mp hfound)

theorem Recorded.mono {files : GrantFiles} {approved : List (CStr × List UInt8)}
    (h : Recorded files approved) (more : List (CStr × List UInt8)) :
    Recorded files (approved ++ more) := by
  intro id hid
  obtain ⟨origins, hlists, happroved⟩ := h id hid
  exact ⟨origins, hlists, fun origin ho => List.mem_append_left more (happroved origin ho)⟩

theorem Recorded.persist {files : GrantFiles} {approved : List (CStr × List UInt8)}
    (h : Recorded files approved) {appId : CStr} (happ : appId.strlen < appIdMax)
    {origin : List UInt8} (hline : IsLine origin) (happroved : (appId, origin) ∈ approved)
    (opens : Bool) : Recorded (originPersist files appId origin opens) approved := by
  intro id hid
  obtain ⟨origins, hlists, hall⟩ := h id hid
  rcases hlists.persist happ hid hline opens with hsame | ⟨rfl, hmore⟩
  · exact ⟨origins, hsame, hall⟩
  · refine ⟨origins ++ [origin], hmore, fun o ho => ?_⟩
    rcases List.mem_append.mp ho with ho | ho
    · exact hall o ho
    · rwa [List.mem_singleton.mp ho]

theorem isLine_of_httpsOrigin {url : CStr} {out : List UInt8} (h : httpsOrigin url = (.ok, out)) :
    IsLine out := by
  obtain ⟨host, port, hd, -, hall, hfits, rfl⟩ := httpsOrigin_ok_iff.mp h
  refine ⟨length_origin hd.port hfits, fun c hc => ?_⟩
  rw [origin, List.append_assoc, List.mem_append] at hc
  rcases hc with hc | hc
  · have hplain : ((ascii "https://").all fun b => b ≠ 0 ∧ b ≠ 10 ∧ b ≠ 13) = true := by decide
    simpa using List.all_eq_true.mp hplain c hc
  · rcases origin_bytes hall port hc with hchar | rfl
    · refine ⟨?_, ?_, ?_⟩
      · rintro rfl
        exact absurd hchar (by decide)
      · rintro rfl
        exact absurd hchar (by decide)
      · rintro rfl
        exact absurd hchar (by decide)
    · decide

end Sdk
end JppDos
