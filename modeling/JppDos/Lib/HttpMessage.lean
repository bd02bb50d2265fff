import JppDos.Lib.Numerals

/-!
# Reading a response off a byte stream

What a client of HTTP/1.1 makes of the bytes that come back: interim responses,
a header block, and the body, whose end is announced by a length or marked by
an empty chunk.

Main fact:
* `readResponse_message`, `readResponse_interim`: a whole response is read from
  its first line.
-/

namespace JppDos
namespace HttpMessage

open CText Numerals

/-- The lines up to the empty one, and what follows it. -/
def readHead : Nat → List UInt8 → Option (List (List UInt8) × List UInt8)
  | 0, _ => none
  | fuel + 1, bytes =>
      match readLine bytes with
      | none => none
      | some (line, rest) =>
          if line = [] then some ([], rest)
          else (readHead fuel rest).map fun (lines, rest) => (line :: lines, rest)

/-- The value of the first field of a name. -/
def fieldValue (name : List UInt8) : List (List UInt8) → Option (List UInt8)
  | [] => none
  | line :: lines =>
      match breakAt 58 line with
      | none => fieldValue name lines
      | some (field, value) =>
          if strcaseeq field name then some (value.dropWhile fun b => b == 32 || b == 9)
          else fieldValue name lines

/-- A chunked body up to its empty chunk, and what follows. -/
def readChunks : Nat → List UInt8 → Option (List UInt8 × List UInt8)
  | 0, _ => none
  | fuel + 1, bytes =>
      match readLine bytes with
      | none => none
      | some (size, rest) =>
          match readBase 16 size with
          | none => none
          | some n =>
              if (rest.drop n).take 2 ≠ crlf then none
              else if n = 0 then some ([], rest.drop 2)
              else
                (readChunks fuel (rest.drop (n + 2))).map fun (body, more) =>
                  (rest.take n ++ body, more)

/-- The body that the fields announce, and what follows. -/
def readBody (fields : List (List UInt8)) (bytes : List UInt8) :
    Option (List UInt8 × List UInt8) :=
  match fieldValue (ascii "Transfer-Encoding") fields,
      fieldValue (ascii "Content-Length") fields with
  | some coding, none =>
      if coding = ascii "chunked" then readChunks (bytes.length + 1) bytes else none
  | none, some len =>
      match readBase 10 len with
      | none => none
      | some n => if n ≤ bytes.length then some (bytes.take n, bytes.drop n) else none
  | _, _ => none

/-- The final response, behind any interim ones: its body and what follows.  A
response to HEAD has no body. -/
def readResponse (isHead : Bool) : Nat → List UInt8 → Option (List UInt8 × List UInt8)
  | 0, _ => none
  | fuel + 1, bytes =>
      match readHead (bytes.length + 1) bytes with
      | some (status :: fields, rest) =>
          if status.take 12 = ascii "HTTP/1.1 100" then readResponse isHead fuel rest
          else if status.take 9 ≠ ascii "HTTP/1.1 " then none
          else if isHead then some ([], rest)
          else readBody fields rest
      | _ => none

/-- The bytes are exactly one response. -/
def WellFormed (isHead : Bool) (bytes : List UInt8) : Prop :=
  (readResponse isHead (bytes.length + 1) bytes).map Prod.snd = some []

instance (isHead : Bool) (bytes : List UInt8) : Decidable (WellFormed isHead bytes) :=
  inferInstanceAs (Decidable (_ = _))

/-- Lines with their ends. -/
def joinLines (lines : List (List UInt8)) : List UInt8 := lines.flatMap (· ++ crlf)

@[simp] theorem joinLines_nil : joinLines [] = [] := rfl

@[simp] theorem joinLines_cons (line : List UInt8) (lines : List (List UInt8)) :
    joinLines (line :: lines) = line ++ crlf ++ joinLines lines := rfl

theorem joinLines_append (lines lines' : List (List UInt8)) :
    joinLines (lines ++ lines') = joinLines lines ++ joinLines lines' :=
  List.flatMap_append

/-- A line that a header block can hold. -/
def IsLine (line : List UInt8) : Prop := line ≠ [] ∧ 13 ∉ line

instance (line : List UInt8) : Decidable (IsLine line) := inferInstanceAs (Decidable (_ ∧ _))

theorem length_le_joinLines (lines : List (List UInt8)) :
    lines.length ≤ (joinLines lines).length := by
  induction lines with
  | nil => simp
  | cons line lines ih =>
      simp only [joinLines_cons, List.length_append, List.length_cons, crlf]
      omega

theorem readHead_joinLines {lines : List (List UInt8)} (h : ∀ line ∈ lines, IsLine line)
    (rest : List UInt8) {fuel : Nat} (hfuel : lines.length < fuel) :
    readHead fuel (joinLines lines ++ crlf ++ rest) = some (lines, rest) := by
  induction lines generalizing fuel with
  | nil =>
      cases fuel with
      | zero => simp at hfuel
      | succ fuel => rfl
  | cons line lines ih =>
      cases fuel with
      | zero => simp at hfuel
      | succ fuel =>
          obtain ⟨hne, h13⟩ := h line (by simp)
          have ih : readHead fuel (joinLines lines ++ crlf ++ rest) = some (lines, rest) :=
            ih (fun l hl => h l (List.mem_cons_of_mem _ hl)) (Nat.lt_of_succ_lt_succ hfuel)
          rw [joinLines_cons, List.append_assoc (line ++ crlf), List.append_assoc (line ++ crlf),
            readHead, readLine_append h13]
          simp only
          rw [if_neg hne, ih]
          rfl

theorem fieldValue_append (name : List UInt8) (lines lines' : List (List UInt8)) :
    fieldValue name (lines ++ lines') =
      (fieldValue name lines).or (fieldValue name lines') := by
  induction lines with
  | nil => rfl
  | cons line lines ih =>
      simp only [List.cons_append, fieldValue]
      split
      · exact ih
      · split_ifs
        · rfl
        · exact ih

/-- One chunk; without data it ends the body. -/
def chunk (data : List UInt8) : List UInt8 := showBase 16 data.length ++ crlf ++ data ++ crlf

theorem readChunks_cons {data : List UInt8} (hne : data ≠ []) (more : List UInt8) (fuel : Nat) :
    readChunks (fuel + 1) (chunk data ++ more) =
      (readChunks fuel more).map fun (body, rest) => (data ++ body, rest) := by
  have hsize : 13 ∉ showBase 16 data.length :=
    showBase_not_mem (by omega) (by omega) _ (by decide)
  have hlen : data.length ≠ 0 := fun h => hne (List.length_eq_zero_iff.mp h)
  rw [chunk, List.append_assoc, List.append_assoc, readChunks, readLine_append hsize]
  simp only [readBase_showBase (b := 16) (by omega) (by omega)]
  rw [List.drop_left, if_neg (by simp [crlf]), if_neg hlen, List.take_left, ← List.drop_drop,
    List.drop_left]
  rfl

theorem readChunks_nil (more : List UInt8) (fuel : Nat) :
    readChunks (fuel + 1) (chunk [] ++ more) = some ([], more) := rfl

theorem length_lt_chunks (pieces : List (List UInt8)) :
    pieces.length ≤ (pieces.flatMap chunk).length := by
  induction pieces with
  | nil => simp
  | cons data pieces ih =>
      simp only [List.flatMap_cons, List.length_append, List.length_cons, chunk, crlf]
      omega

/-- Chunks with data are read back up to the first empty one. -/
theorem readChunks_chunk {pieces : List (List UInt8)} (h : ∀ data ∈ pieces, data ≠ [])
    (more : List UInt8) {fuel : Nat} (hfuel : pieces.length < fuel) :
    readChunks fuel (pieces.flatMap chunk ++ (chunk [] ++ more)) =
      some (pieces.flatten, more) := by
  induction pieces generalizing fuel with
  | nil =>
      cases fuel with
      | zero => simp at hfuel
      | succ fuel => exact readChunks_nil more fuel
  | cons data pieces ih =>
      cases fuel with
      | zero => simp at hfuel
      | succ fuel =>
          rw [List.flatMap_cons, List.append_assoc, readChunks_cons (h data (by simp)),
            ih (fun d hd => h d (List.mem_cons_of_mem _ hd)) (Nat.lt_of_succ_lt_succ hfuel)]
          rfl

/-- The status line of a final response. -/
structure IsFinalStatus (status : List UInt8) : Prop where
  line : IsLine status
  version : status.take 9 = ascii "HTTP/1.1 "
  final : status.take 12 ≠ ascii "HTTP/1.1 100"

/-- A final response is read from its header block and its fields. -/
theorem readResponse_message {isHead : Bool} {status : List UInt8}
    {fields : List (List UInt8)} (hstatus : IsFinalStatus status)
    (hfields : ∀ line ∈ fields, IsLine line) (rest : List UInt8) (fuel : Nat) :
    readResponse isHead (fuel + 1) (joinLines (status :: fields) ++ crlf ++ rest) =
      if isHead then some ([], rest) else readBody fields rest := by
  have hhead : readHead ((joinLines (status :: fields) ++ crlf ++ rest).length + 1)
      (joinLines (status :: fields) ++ crlf ++ rest) = some (status :: fields, rest) := by
    refine readHead_joinLines ?_ rest ?_
    · rintro line (_ | ⟨_, hline⟩)
      exacts [hstatus.line, hfields line hline]
    · have := length_le_joinLines (status :: fields)
      simp only [List.length_append]
      omega
  rw [readResponse, hhead]
  simp only
  rw [if_neg hstatus.final, if_neg (by simp [hstatus.version])]

theorem readResponse_interim {isHead : Bool} {status : List UInt8} (hline : IsLine status)
    (hstatus : status.take 12 = ascii "HTTP/1.1 100") (rest : List UInt8) (fuel : Nat) :
    readResponse isHead (fuel + 1) (joinLines [status] ++ crlf ++ rest) =
      readResponse isHead fuel rest := by
  have hhead : readHead ((joinLines [status] ++ crlf ++ rest).length + 1)
      (joinLines [status] ++ crlf ++ rest) = some ([status], rest) := by
    refine readHead_joinLines (by simpa using hline) rest ?_
    simp only [List.length_append, crlf, List.length_cons]
    omega
  rw [readResponse, hhead]
  simp only
  rw [if_pos hstatus]

end HttpMessage
end JppDos
