import JppDos.Lib.CText
import Mathlib.Algebra.Order.Ring.Nat
import Mathlib.Data.List.Forall2
import Mathlib.Data.List.Infix

/-!
# XML documents

A reader of XML: elements with attributes, characters and the five named references.  What
it accepts is well formed; comments, CDATA sections and numbers of characters it does not
know.  The documents that a writer prints are trees whose characters are printed as they
are.

Main fact:
* `readDocument_iff`: what a reader makes of a printed document.
-/

namespace JppDos
namespace Xml

open CText

/-- An attribute: its name and its value. -/
abbrev Attribute := List UInt8 × List UInt8

/-- Characters, or an element with its attributes and its content. -/
inductive Node
  | text (chars : List UInt8)
  | element (name : List UInt8) (attributes : List Attribute) (children : List Node)

/-- A byte of a character of a document. -/
def isChar (c : UInt8) : Bool := c == 9 || c == 10 || c == 13 || 32 ≤ c

/-- A byte that a name may start with. -/
def isNameStart (c : UInt8) : Bool :=
  (65 ≤ c && c ≤ 90) || (97 ≤ c && c ≤ 122) || c == 95 || c == 58

/-- A byte of a name. -/
def isNameChar (c : UInt8) : Bool := isNameStart c || (48 ≤ c && c ≤ 57) || c == 45 || c == 46

/-- A name of an element or an attribute. -/
def isName : List UInt8 → Bool
  | [] => false
  | c :: rest => isNameStart c && rest.all isNameChar

/-- The named references. -/
def references : List (List UInt8 × UInt8) :=
  [(ascii "&amp;", 38), (ascii "&lt;", 60), (ascii "&gt;", 62), (ascii "&quot;", 34),
    (ascii "&apos;", 39)]

/-- Characters with their references resolved; the first bytes belong to a reference that
has been. -/
def decodeFrom : Nat → List UInt8 → Option (List UInt8)
  | _, [] => some []
  | skip + 1, _ :: rest => decodeFrom skip rest
  | 0, c :: rest =>
      if c = 38 then
        match references.find? fun r => r.1.isPrefixOf (c :: rest) with
        | none => none
        | some r => (decodeFrom (r.1.length - 1) rest).map (r.2 :: ·)
      else (decodeFrom 0 rest).map (c :: ·)

/-- What the characters between two tags stand for; they may not contain `]]>`. -/
def decodeText (raw : List UInt8) : Option (List UInt8) :=
  if [93, 93, 62] <:+: raw then none else decodeFrom 0 raw

/-- An attribute of a tag. -/
def readAttribute (part : List UInt8) : Option Attribute :=
  match breakAt 61 part with
  | some (name, 34 :: rest) =>
      if isName name = true ∧ rest.getLast? = some 34 ∧
          rest.dropLast.all (fun c => c ≠ 34 ∧ c ≠ 38 ∧ c ≠ 60) = true then
        some (name, rest.dropLast)
      else none
  | _ => none

/-- The name and the attributes of a tag. -/
def readTag (raw : List UInt8) : Option (List UInt8 × List Attribute) :=
  match raw.splitOn 32 with
  | [] => none
  | name :: parts =>
      if isName name then do
        let attributes ← parts.mapM readAttribute
        if (attributes.map Prod.fst).Nodup then some (name, attributes) else none
      else none

/-- Between tags, or in one. -/
inductive Mode
  | text
  | tag
  deriving DecidableEq

/-- An element that is not closed yet, and what stands before it in its parent. -/
structure Open where
  name : List UInt8
  attributes : List Attribute
  before : List Node

/-- The reader: the bytes since the last tag began or ended, the content of the innermost
open element so far, and the open elements. -/
structure Reader where
  mode : Mode
  raw : List UInt8
  here : List Node
  above : List Open

/-- The end of the characters between two tags. -/
def Reader.flush (s : Reader) : Option Reader :=
  if s.raw = [] then some s
  else if s.above = [] then none
  else (decodeText s.raw).map fun chars => { s with raw := [], here := s.here ++ [.text chars] }

/-- The end of a tag. -/
def Reader.applyTag (s : Reader) : Option Reader :=
  if s.raw.head? = some 47 then
    match s.above with
    | [] => none
    | o :: above =>
        if o.name = s.raw.drop 1 then
          some ⟨.text, [], o.before ++ [.element o.name o.attributes s.here], above⟩
        else none
  else if s.raw.getLast? = some 47 then
    (readTag s.raw.dropLast).map fun tag =>
      ⟨.text, [], s.here ++ [.element tag.1 tag.2 []], s.above⟩
  else (readTag s.raw).map fun tag => ⟨.text, [], [], ⟨tag.1, tag.2, s.here⟩ :: s.above⟩

/-- The next byte. -/
def Reader.step (s : Reader) (c : UInt8) : Option Reader :=
  if !isChar c then none
  else
    match s.mode with
    | .text =>
        if c = 60 then s.flush.map fun s => { s with mode := .tag }
        else some { s with raw := s.raw ++ [c] }
    | .tag =>
        if c = 60 then none
        else if c = 62 then s.applyTag
        else some { s with raw := s.raw ++ [c] }

/-- A text, byte by byte. -/
def Reader.run (s : Reader) (text : List UInt8) : Option Reader := text.foldlM Reader.step s

/-- The attributes of an XML declaration. -/
def isDeclaration (text : List UInt8) : Bool :=
  if ascii "<?xml " <+: text ∧ text.getLast? = some 63 then
    match ((text.drop 6).dropLast.splitOn 32).mapM readAttribute with
    | some [version] => version = (ascii "version", ascii "1.0")
    | some [version, encoding] =>
        version = (ascii "version", ascii "1.0") ∧ encoding.1 = ascii "encoding"
    | _ => false
  else false

/-- The root of a document with an XML declaration, if it is well formed. -/
def readDocument (text : List UInt8) : Option Node :=
  match breakAt 62 text with
  | none => none
  | some (declaration, rest) =>
      if isDeclaration declaration then
        match Reader.run ⟨.text, [], [], []⟩ rest with
        | some ⟨.text, [], [root], []⟩ => some root
        | _ => none
      else none

/-- The children of an element. -/
def Node.children : Node → List Node
  | .text _ => []
  | .element _ _ children => children

/-- The node is an element of this name. -/
def Node.named (name : List UInt8) : Node → Bool
  | .text _ => false
  | .element n _ _ => n = name

/-- The first element on the way down through elements of these names. -/
def Node.find (node : Node) : List (List UInt8) → Option Node
  | [] => some node
  | name :: path => do
      let child ← node.children.find? (Node.named name)
      child.find path

/-- The characters that are an element's whole content. -/
def Node.content (node : Node) : Option (List UInt8) :=
  match node.children with
  | [] => some []
  | [.text chars] => some chars
  | _ => none

/-- A start tag. -/
structure Tag where
  raw : List UInt8
  name : List UInt8
  attributes : List Attribute
  readTag_raw : readTag raw = some (name, attributes)
  plain : ∀ c ∈ raw, isChar c = true ∧ c ≠ 60 ∧ c ≠ 62
  name_plain : ∀ c ∈ name, isChar c = true ∧ c ≠ 60 ∧ c ≠ 62
  head_ne : raw.head? ≠ some 47
  last_ne : raw.getLast? ≠ some 47
  raw_ne : raw ≠ []

theorem isNameChar_plain {c : UInt8} (h : isNameChar c = true) :
    isChar c = true ∧ c ≠ 60 ∧ c ≠ 62 ∧ c ≠ 32 ∧ c ≠ 47 := by
  simp only [isNameChar, isNameStart, Bool.or_eq_true, Bool.and_eq_true, decide_eq_true_eq,
    beq_iff_eq, UInt8.le_iff_toNat_le, ← UInt8.toNat_inj, UInt8.reduceToNat] at h
  simp only [isChar, Bool.or_eq_true, decide_eq_true_eq, beq_iff_eq, UInt8.le_iff_toNat_le,
    ne_eq, ← UInt8.toNat_inj, UInt8.reduceToNat]
  omega

theorem isNameChar_of_isName {name : List UInt8} (h : isName name = true) :
    ∀ c ∈ name, isNameChar c = true := by
  cases name with
  | nil => cases h
  | cons c rest =>
      obtain ⟨hstart, hrest⟩ := Bool.and_eq_true_iff.mp h
      exact List.forall_mem_cons.mpr
        ⟨by rw [isNameChar, hstart]; rfl, List.all_eq_true.mp hrest⟩

/-- A start tag without attributes. -/
def Tag.ofName (name : List UInt8) (h : isName name = true) : Tag where
  raw := name
  name := name
  attributes := []
  readTag_raw := by
    have hspace : 32 ∉ name := fun hmem =>
      (isNameChar_plain (isNameChar_of_isName h 32 hmem)).2.2.2.1 rfl
    rw [readTag, List.splitOn_eq_singleton hspace]
    simp [h]
  plain := fun c hc =>
    have hplain := isNameChar_plain (isNameChar_of_isName h c hc)
    ⟨hplain.1, hplain.2.1, hplain.2.2.1⟩
  name_plain := fun c hc =>
    have hplain := isNameChar_plain (isNameChar_of_isName h c hc)
    ⟨hplain.1, hplain.2.1, hplain.2.2.1⟩
  head_ne := fun hhead =>
    (isNameChar_plain (isNameChar_of_isName h 47 (List.mem_of_head? hhead))).2.2.2.2 rfl
  last_ne := fun hlast =>
    (isNameChar_plain (isNameChar_of_isName h 47 (List.mem_of_getLast? hlast))).2.2.2.2 rfl
  raw_ne := by
    rintro rfl
    cases h

/-- A tree with characters at its leaves, as they are printed. -/
inductive Doc
  | leaf (tag : Tag) (raw : List UInt8)
  | void (tag : Tag)
  | branch (tag : Tag) (children : List Doc)

/-- A tag between its brackets. -/
def bracket (raw : List UInt8) : List UInt8 := 60 :: (raw ++ [62])

mutual

/-- The text of a tree. -/
def Doc.print : Doc → List UInt8
  | .leaf tag raw => bracket tag.raw ++ raw ++ bracket (47 :: tag.name)
  | .void tag => bracket (tag.raw ++ [47])
  | .branch tag children => bracket tag.raw ++ printAll children ++ bracket (47 :: tag.name)

def printAll : List Doc → List UInt8
  | [] => []
  | d :: ds => d.print ++ printAll ds

end

mutual

/-- The characters at the leaves. -/
def Doc.raws : Doc → List (List UInt8)
  | .leaf _ raw => [raw]
  | .void _ => []
  | .branch _ children => rawsAll children

def rawsAll : List Doc → List (List UInt8)
  | [] => []
  | d :: ds => d.raws ++ rawsAll ds

end

mutual

/-- The tree with the characters that its leaves stand for. -/
def Doc.decoded : Doc → Option Node
  | .leaf tag raw =>
      if raw = [] then some (.element tag.name tag.attributes [])
      else (decodeText raw).map fun chars => .element tag.name tag.attributes [.text chars]
  | .void tag => some (.element tag.name tag.attributes [])
  | .branch tag children =>
      (decodedAll children).map fun nodes => .element tag.name tag.attributes nodes

def decodedAll : List Doc → Option (List Node)
  | [] => some []
  | d :: ds => d.decoded.bind fun node => (decodedAll ds).map (node :: ·)

end

/-- A byte as it is escaped in characters. -/
def escapeByte (b : UInt8) : List UInt8 :=
  if b = 38 then ascii "&amp;"
  else if b = 60 then ascii "&lt;"
  else if b = 62 then ascii "&gt;"
  else if b = 34 then ascii "&quot;"
  else [b]

/-- Escaped characters. -/
def escaped (chars : List UInt8) : List UInt8 := chars.flatMap escapeByte

@[simp] theorem escaped_cons (b : UInt8) (chars : List UInt8) :
    escaped (b :: chars) = escapeByte b ++ escaped chars := rfl

theorem bracket_not_mem_escaped (chars : List UInt8) :
    60 ∉ escaped chars ∧ 62 ∉ escaped chars := by
  have hbyte : ∀ b, 60 ∉ escapeByte b ∧ 62 ∉ escapeByte b := by
    intro b
    unfold escapeByte
    split_ifs with hamp hlt hgt hquot
    · decide
    · decide
    · decide
    · decide
    · exact ⟨fun h => hlt (List.mem_singleton.mp h).symm,
        fun h => hgt (List.mem_singleton.mp h).symm⟩
  constructor
  · intro h
    obtain ⟨b, -, hb⟩ := List.mem_flatMap.mp h
    exact (hbyte b).1 hb
  · intro h
    obtain ⟨b, -, hb⟩ := List.mem_flatMap.mp h
    exact (hbyte b).2 hb

theorem decodeFrom_escapeByte (b : UInt8) (rest : List UInt8) :
    decodeFrom 0 (escapeByte b ++ rest) = (decodeFrom 0 rest).map (b :: ·) := by
  unfold escapeByte
  split_ifs with hamp hlt hgt hquot
  · subst hamp
    rfl
  · subst hlt
    rfl
  · subst hgt
    rfl
  · subst hquot
    rfl
  · rw [List.singleton_append, decodeFrom, if_neg hamp]

theorem decodeText_escaped (chars : List UInt8) : decodeText (escaped chars) = some chars := by
  have hend : ¬ [93, 93, 62] <:+: escaped chars := fun h =>
    (bracket_not_mem_escaped chars).2 (h.subset (by decide))
  rw [decodeText, if_neg hend]
  induction chars with
  | nil => rfl
  | cons b chars ih =>
      have hend' : ¬ [93, 93, 62] <:+: escaped chars := fun h =>
        (bracket_not_mem_escaped chars).2 (h.subset (by decide))
      rw [escaped_cons, decodeFrom_escapeByte, ih hend', Option.map_some]

/-- Characters without references stand for themselves. -/
theorem decodeText_plain {raw : List UInt8} (hamp : 38 ∉ raw) (hend : ¬ [93, 93, 62] <:+: raw) :
    decodeText raw = some raw := by
  rw [decodeText, if_neg hend]
  clear hend
  induction raw with
  | nil => rfl
  | cons c raw ih =>
      obtain ⟨hc, hrest⟩ := not_or.mp (fun hmem => hamp (List.mem_cons.mpr hmem))
      rw [decodeFrom, if_neg (Ne.symm hc), ih hrest, Option.map_some]

/-- Decoding makes characters no longer, and shorter where it resolves a reference. -/
theorem length_decodeFrom {raw : List UInt8} :
    ∀ {skip : Nat} {chars : List UInt8}, decodeFrom skip raw = some chars →
      chars.length + min skip raw.length ≤ raw.length ∧
        (skip = 0 → chars.length = raw.length → 38 ∉ raw ∧ chars = raw) := by
  induction raw with
  | nil =>
      intro skip chars h
      obtain rfl : chars = [] := by
        cases skip with
        | zero => exact (Option.some.inj h).symm
        | succ skip => exact (Option.some.inj h).symm
      exact ⟨by simp, fun _ _ => ⟨List.not_mem_nil, rfl⟩⟩
  | cons c rest ih =>
      intro skip chars h
      cases skip with
      | succ skip =>
          rw [decodeFrom] at h
          obtain ⟨hlen, -⟩ := ih h
          refine ⟨?_, fun hskip => absurd hskip (Nat.succ_ne_zero skip)⟩
          rw [List.length_cons]
          omega
      | zero =>
          rw [decodeFrom] at h
          by_cases hc : c = 38
          · rw [if_pos hc] at h
            cases hfind : references.find? fun r => r.1.isPrefixOf (c :: rest) with
            | none =>
                rw [hfind] at h
                cases h
            | some r =>
                rw [hfind] at h
                obtain ⟨tail, htail, rfl⟩ := Option.map_eq_some_iff.mp h
                obtain ⟨hlen, -⟩ := ih htail
                have hlong : 4 ≤ r.1.length :=
                  (by decide : ∀ r ∈ references, 4 ≤ r.1.length) r
                    (List.mem_of_find?_eq_some hfind)
                have hfits : r.1.length ≤ rest.length + 1 := by
                  have hbegin := List.find?_some hfind
                  simpa using (List.isPrefixOf_iff_prefix.mp hbegin).length_le
                simp only [List.length_cons]
                exact ⟨by omega, fun _ hsame => by omega⟩
          · rw [if_neg hc] at h
            obtain ⟨tail, htail, rfl⟩ := Option.map_eq_some_iff.mp h
            obtain ⟨hlen, hplain⟩ := ih htail
            simp only [List.length_cons]
            refine ⟨by omega, fun _ hsame => ?_⟩
            obtain ⟨hamp, rfl⟩ := hplain rfl (by omega)
            exact ⟨fun hmem => (List.mem_cons.mp hmem).elim (fun heq => hc heq.symm) hamp, rfl⟩

theorem length_decodeText_le {raw chars : List UInt8} (h : decodeText raw = some chars) :
    chars.length ≤ raw.length := by
  rw [decodeText] at h
  split_ifs at h
  have hlen := (length_decodeFrom h).1
  omega

/-- Characters stand for themselves exactly when they have no references and no `]]>`. -/
theorem decodeText_self_iff (raw : List UInt8) :
    decodeText raw = some raw ↔ 38 ∉ raw ∧ ¬ [93, 93, 62] <:+: raw := by
  refine ⟨fun h => ?_, fun h => decodeText_plain h.1 h.2⟩
  rw [decodeText] at h
  split_ifs at h with hend
  exact ⟨((length_decodeFrom h).2 rfl rfl).1, hend⟩

theorem run_append (s : Reader) (a b : List UInt8) :
    s.run (a ++ b) = (s.run a).bind fun s => s.run b := List.foldlM_append

theorem run_cons (s : Reader) (c : UInt8) (rest : List UInt8) :
    s.run (c :: rest) = (s.step c).bind fun s => s.run rest := List.foldlM_cons

@[simp] theorem run_nil (s : Reader) : s.run [] = some s := rfl

theorem isChar_of_run {text : List UInt8} :
    ∀ {s s' : Reader}, s.run text = some s' → ∀ c ∈ text, isChar c = true := by
  induction text with
  | nil => exact fun _ c hc => absurd hc List.not_mem_nil
  | cons c text ih =>
      intro s s' h
      rw [run_cons] at h
      obtain ⟨s1, hstep, hrest⟩ := Option.bind_eq_some_iff.mp h
      refine List.forall_mem_cons.mpr ⟨?_, ih hrest⟩
      by_contra hc
      rw [Reader.step, if_pos (by simpa using hc)] at hstep
      cases hstep

/-- Characters in which no tag begins. -/
def PlainText (raw : List UInt8) : Prop := ∀ c ∈ raw, isChar c = true ∧ c ≠ 60

instance (raw : List UInt8) : Decidable (PlainText raw) := List.decidableBAll _ raw

theorem run_text {raw : List UInt8} (h : PlainText raw) :
    ∀ (acc : List UInt8) (here : List Node) (above : List Open),
      Reader.run ⟨.text, acc, here, above⟩ raw = some ⟨.text, acc ++ raw, here, above⟩ := by
  induction raw with
  | nil => simp
  | cons c raw ih =>
      intro acc here above
      obtain ⟨⟨hc, hne⟩, hrest⟩ := List.forall_mem_cons.mp h
      have hstep : Reader.step ⟨.text, acc, here, above⟩ c =
          some ⟨.text, acc ++ [c], here, above⟩ := by
        simp [Reader.step, hc, hne]
      rw [run_cons, hstep, Option.bind_some, ih hrest, List.append_assoc, List.singleton_append]

theorem run_tag {raw : List UInt8} (h : ∀ c ∈ raw, isChar c = true ∧ c ≠ 60 ∧ c ≠ 62) :
    ∀ (acc : List UInt8) (here : List Node) (above : List Open),
      Reader.run ⟨.tag, acc, here, above⟩ raw = some ⟨.tag, acc ++ raw, here, above⟩ := by
  induction raw with
  | nil => simp
  | cons c raw ih =>
      intro acc here above
      obtain ⟨⟨hc, hlt, hgt⟩, hrest⟩ := List.forall_mem_cons.mp h
      have hstep : Reader.step ⟨.tag, acc, here, above⟩ c =
          some ⟨.tag, acc ++ [c], here, above⟩ := by
        simp [Reader.step, hc, hlt, hgt]
      rw [run_cons, hstep, Option.bind_some, ih hrest, List.append_assoc, List.singleton_append]

/-- A tag behind characters: they end, and the tag is applied. -/
theorem run_bracket {raw : List UInt8} (h : ∀ c ∈ raw, isChar c = true ∧ c ≠ 60 ∧ c ≠ 62)
    (s : Reader) (hs : s.mode = .text) :
    s.run (bracket raw) =
      (s.flush.bind fun s => ({ s with mode := .tag, raw := s.raw ++ raw } : Reader).applyTag) := by
  have hopen : s.step 60 = s.flush.map fun s => { s with mode := .tag } := by
    simp [Reader.step, hs, isChar]
  rw [bracket, run_cons, hopen]
  cases s.flush with
  | none => rfl
  | some s1 =>
      obtain ⟨mode, acc, here, above⟩ := s1
      have hclose : Reader.step ⟨.tag, acc ++ raw, here, above⟩ 62 =
          Reader.applyTag ⟨.tag, acc ++ raw, here, above⟩ := by
        simp [Reader.step, isChar]
      rw [Option.map_some, Option.bind_some, Option.bind_some, run_append, run_tag h,
        Option.bind_some, run_cons, hclose]
      cases Reader.applyTag ⟨.tag, acc ++ raw, here, above⟩ with
      | none => rfl
      | some s2 => rfl

theorem Tag.close_plain (t : Tag) : ∀ c ∈ 47 :: t.name, isChar c = true ∧ c ≠ 60 ∧ c ≠ 62 :=
  List.forall_mem_cons.mpr ⟨by decide, t.name_plain⟩

theorem Tag.void_plain (t : Tag) : ∀ c ∈ t.raw ++ [47], isChar c = true ∧ c ≠ 60 ∧ c ≠ 62 := by
  intro c hc
  rcases List.mem_append.mp hc with hc | hc
  · exact t.plain c hc
  · rw [List.mem_singleton.mp hc]
    decide

theorem Tag.void_head_ne (t : Tag) : (t.raw ++ [47]).head? ≠ some 47 := by
  cases hraw : t.raw with
  | nil => exact absurd hraw t.raw_ne
  | cons c rest =>
      have hhead := t.head_ne
      rwa [hraw] at hhead

theorem applyTag_open (t : Tag) (here : List Node) (above : List Open) :
    Reader.applyTag ⟨.tag, t.raw, here, above⟩ =
      some ⟨.text, [], [], ⟨t.name, t.attributes, here⟩ :: above⟩ := by
  rw [Reader.applyTag, if_neg t.head_ne, if_neg t.last_ne, t.readTag_raw]
  rfl

theorem applyTag_void (t : Tag) (here : List Node) (above : List Open) :
    Reader.applyTag ⟨.tag, t.raw ++ [47], here, above⟩ =
      some ⟨.text, [], here ++ [.element t.name t.attributes []], above⟩ := by
  rw [Reader.applyTag, if_neg t.void_head_ne, if_pos (by simp), List.dropLast_concat,
    t.readTag_raw]
  rfl

theorem applyTag_close (t : Tag) (here before : List Node) (above : List Open) :
    Reader.applyTag ⟨.tag, 47 :: t.name, here, ⟨t.name, t.attributes, before⟩ :: above⟩ =
      some ⟨.text, [], before ++ [.element t.name t.attributes here], above⟩ := by
  simp [Reader.applyTag]

theorem run_open (t : Tag) (here : List Node) (above : List Open) :
    Reader.run ⟨.text, [], here, above⟩ (bracket t.raw) =
      some ⟨.text, [], [], ⟨t.name, t.attributes, here⟩ :: above⟩ := by
  rw [run_bracket t.plain _ rfl]
  exact applyTag_open t here above

/-- An end tag closes the innermost element, behind its last characters. -/
theorem run_close (t : Tag) (raw : List UInt8) (here before : List Node) (above : List Open) :
    Reader.run ⟨.text, raw, here, ⟨t.name, t.attributes, before⟩ :: above⟩
        (bracket (47 :: t.name)) =
      if raw = [] then some ⟨.text, [], before ++ [.element t.name t.attributes here], above⟩
      else (decodeText raw).map fun chars =>
        ⟨.text, [], before ++ [.element t.name t.attributes (here ++ [.text chars])], above⟩ := by
  rw [run_bracket t.close_plain _ rfl, Reader.flush]
  by_cases hraw : raw = []
  · rw [if_pos hraw, if_pos hraw, hraw]
    exact applyTag_close t here before above
  · rw [if_neg hraw, if_neg hraw, if_neg (by simp)]
    cases decodeText raw with
    | none => rfl
    | some chars => exact applyTag_close t (here ++ [.text chars]) before above

mutual

/-- A printed tree whose characters bring no tag with them is read as the decoded tree. -/
theorem run_print : ∀ {d : Doc}, (∀ raw ∈ d.raws, PlainText raw) →
    ∀ (here : List Node) (above : List Open),
      Reader.run ⟨.text, [], here, above⟩ d.print =
        d.decoded.map fun node => ⟨.text, [], here ++ [node], above⟩
  | .leaf tag raw, h, here, above => by
      have hraw : PlainText raw := h raw (by simp [Doc.raws])
      rw [Doc.print, run_append, run_append, run_open, Option.bind_some, run_text hraw,
        Option.bind_some, List.nil_append, run_close, Doc.decoded]
      split
      · rfl
      · rw [Option.map_map]
        rfl
  | .void tag, _, here, above => by
      rw [Doc.print, run_bracket tag.void_plain _ rfl, Doc.decoded]
      exact applyTag_void tag here above
  | .branch tag children, h, here, above => by
      have hchildren : ∀ raw ∈ rawsAll children, PlainText raw := fun raw hraw =>
        h raw (by rwa [Doc.raws])
      rw [Doc.print, run_append, run_append, run_open, Option.bind_some, run_printAll hchildren,
        Doc.decoded]
      cases decodedAll children with
      | none => rfl
      | some nodes =>
          rw [Option.map_some, Option.bind_some, run_close, if_pos rfl]
          rfl

theorem run_printAll : ∀ {ds : List Doc}, (∀ raw ∈ rawsAll ds, PlainText raw) →
    ∀ (here : List Node) (above : List Open),
      Reader.run ⟨.text, [], here, above⟩ (printAll ds) =
        (decodedAll ds).map fun nodes => ⟨.text, [], here ++ nodes, above⟩
  | [], _, here, above => by
      rw [printAll, decodedAll, run_nil, Option.map_some, List.append_nil]
  | d :: ds, h, here, above => by
      have hd : ∀ raw ∈ d.raws, PlainText raw := fun raw hraw =>
        h raw (by rw [rawsAll]; exact List.mem_append_left _ hraw)
      have hds : ∀ raw ∈ rawsAll ds, PlainText raw := fun raw hraw =>
        h raw (by rw [rawsAll]; exact List.mem_append_right _ hraw)
      rw [printAll, run_append, run_print hd, decodedAll]
      cases d.decoded with
      | none => rfl
      | some node =>
          rw [Option.map_some, Option.bind_some, Option.bind_some, run_printAll hds,
            Option.map_map]
          congr 1
          funext nodes
          simp

end

/-- The tags that begin in the characters of a tree. -/
def strays (raws : List (List UInt8)) : Nat := (raws.map (List.count 60)).sum

/-- What the end of a tag does to the number of open elements. -/
theorem applyTag_depth {s s' : Reader} (h : s.applyTag = some s') :
    s'.mode = .text ∧ s'.raw = [] ∧
      (s.raw.head? = some 47 → s'.above.length + 1 = s.above.length) ∧
      (s.raw.head? ≠ some 47 → s.raw.getLast? = some 47 → s'.above.length = s.above.length) ∧
      (s.raw.head? ≠ some 47 → s.raw.getLast? ≠ some 47 →
        s'.above.length = s.above.length + 1) := by
  rw [Reader.applyTag] at h
  by_cases hhead : s.raw.head? = some 47
  · rw [if_pos hhead] at h
    cases habove : s.above with
    | nil =>
        rw [habove] at h
        cases h
    | cons o above =>
        simp only [habove] at h
        split_ifs at h
        obtain rfl := Option.some.inj h
        simp [hhead]
  · rw [if_neg hhead] at h
    by_cases hlast : s.raw.getLast? = some 47
    · rw [if_pos hlast] at h
      obtain ⟨tag, -, rfl⟩ := Option.map_eq_some_iff.mp h
      simp [hhead, hlast]
    · rw [if_neg hlast] at h
      obtain ⟨tag, -, rfl⟩ := Option.map_eq_some_iff.mp h
      simp [hhead, hlast]

theorem flush_some {s s' : Reader} (h : s.flush = some s') :
    s'.mode = s.mode ∧ s'.raw = [] ∧ s'.above = s.above := by
  rw [Reader.flush] at h
  split_ifs at h with hraw
  · obtain rfl := Option.some.inj h
    exact ⟨rfl, hraw, rfl⟩
  · obtain ⟨chars, -, rfl⟩ := Option.map_eq_some_iff.mp h
    exact ⟨rfl, rfl, rfl⟩

/-- A tag between characters: it is applied to as many open elements as there were. -/
theorem run_bracket_some {raw : List UInt8}
    (hraw : ∀ c ∈ raw, isChar c = true ∧ c ≠ 60 ∧ c ≠ 62) {s s' : Reader} (hs : s.mode = .text)
    (h : s.run (bracket raw) = some s') :
    ∃ s1 : Reader, s1.applyTag = some s' ∧ s1.raw = raw ∧ s1.above = s.above := by
  rw [run_bracket hraw s hs] at h
  obtain ⟨s1, hflush, hopen⟩ := Option.bind_eq_some_iff.mp h
  obtain ⟨-, hnil, habove⟩ := flush_some hflush
  exact ⟨_, hopen, by rw [hnil, List.nil_append], habove⟩

theorem run_open_depth (t : Tag) {s s' : Reader} (hs : s.mode = .text)
    (h : s.run (bracket t.raw) = some s') :
    s'.mode = .text ∧ s'.above.length = s.above.length + 1 := by
  obtain ⟨s1, htag, hraw, habove⟩ := run_bracket_some t.plain hs h
  obtain ⟨htext, -, -, -, hopen⟩ := applyTag_depth htag
  rw [hraw, habove] at hopen
  exact ⟨htext, hopen t.head_ne t.last_ne⟩

theorem run_close_depth (t : Tag) {s s' : Reader} (hs : s.mode = .text)
    (h : s.run (bracket (47 :: t.name)) = some s') :
    s'.mode = .text ∧ s'.above.length + 1 = s.above.length := by
  obtain ⟨s1, htag, hraw, habove⟩ := run_bracket_some t.close_plain hs h
  obtain ⟨htext, -, hclose, -, -⟩ := applyTag_depth htag
  rw [hraw, habove] at hclose
  exact ⟨htext, hclose rfl⟩

/-- The tag that is being read, if there is one. -/
def Reader.pending (s : Reader) : Nat := if s.mode = .tag then 1 else 0

/-- One byte that is no slash: a tag begins, or ends as a start tag, or goes on. -/
theorem step_pending {s s' : Reader} {c : UInt8} (hc : c ≠ 47) (hs : s.mode = .tag → 47 ∉ s.raw)
    (h : s.step c = some s') :
    (s'.mode = .tag → 47 ∉ s'.raw) ∧
      s'.above.length + s'.pending = s.above.length + s.pending + List.count 60 [c] := by
  rw [Reader.step] at h
  by_cases hchar : (!isChar c) = true
  · rw [if_pos hchar] at h
    cases h
  rw [if_neg hchar] at h
  cases hmode : s.mode with
  | text =>
      simp only [hmode] at h
      by_cases hlt : c = 60
      · rw [if_pos hlt] at h
        obtain ⟨s1, hflush, rfl⟩ := Option.map_eq_some_iff.mp h
        obtain ⟨-, hnil, habove⟩ := flush_some hflush
        exact ⟨fun _ => by rw [hnil]; exact List.not_mem_nil,
          by simp [Reader.pending, hmode, habove, hlt]⟩
      · rw [if_neg hlt] at h
        obtain rfl := Option.some.inj h
        exact ⟨fun htag => absurd htag (by simp), by simp [Reader.pending, hmode, hlt]⟩
  | tag =>
      simp only [hmode] at h
      split_ifs at h with hlt hgt
      · obtain ⟨htext, -, -, -, hopen⟩ := applyTag_depth h
        have hhead : s.raw.head? ≠ some 47 := fun hh => hs hmode (List.mem_of_head? hh)
        have hlast : s.raw.getLast? ≠ some 47 := fun hl => hs hmode (List.mem_of_getLast? hl)
        refine ⟨fun htag => absurd (htext.symm.trans htag) (by decide), ?_⟩
        simp [Reader.pending, hmode, htext, hopen hhead hlast, hlt]
      · obtain rfl := Option.some.inj h
        refine ⟨fun _ hmem => ?_, by simp [Reader.pending, hmode, hlt]⟩
        rcases List.mem_append.mp hmem with hmem | hmem
        · exact hs hmode hmem
        · exact hc (List.mem_singleton.mp hmem).symm

/-- Bytes without a slash: every tag that begins in them is, or will be, an open element. -/
theorem run_pending {raw : List UInt8} :
    ∀ {s s' : Reader}, 47 ∉ raw → (s.mode = .tag → 47 ∉ s.raw) → s.run raw = some s' →
      s'.above.length + s'.pending = s.above.length + s.pending + raw.count 60 := by
  induction raw with
  | nil =>
      intro s s' _ _ h
      obtain rfl := Option.some.inj h
      rfl
  | cons c raw ih =>
      intro s s' hraw hs h
      obtain ⟨hc, hrest⟩ := not_or.mp (fun hmem => hraw (List.mem_cons.mpr hmem))
      rw [run_cons] at h
      obtain ⟨s1, hstep, hrun⟩ := Option.bind_eq_some_iff.mp h
      obtain ⟨hs1, hcount⟩ := step_pending (Ne.symm hc) hs hstep
      have hsplit : (c :: raw).count 60 = List.count 60 [c] + raw.count 60 := by
        rw [← List.count_append, List.singleton_append]
      rw [ih hrest hs1 hrun, hcount, hsplit]
      omega

theorem run_raw_some {raw close : List UInt8} (hraw : 60 ∉ raw ∨ 47 ∉ raw) {s s' : Reader}
    (hs : s.mode = .text) (h : s.run (raw ++ bracket close) = some s') :
    ∃ s1 : Reader, s1.run (bracket close) = some s' ∧ s1.mode = .text ∧
      s1.above.length = s.above.length + raw.count 60 := by
  rw [run_append] at h
  obtain ⟨s1, hrun, hclose⟩ := Option.bind_eq_some_iff.mp h
  have htext : s1.mode = .text := by
    by_contra htag
    -- an end tag cannot begin in a tag
    rw [bracket, run_cons, Reader.step] at hclose
    cases hmode : s1.mode with
    | text => exact htag hmode
    | tag => simp [hmode, isChar] at hclose
  refine ⟨s1, hclose, htext, ?_⟩
  rcases hraw with hlt | hslash
  · have hplain : PlainText raw := fun c hc =>
      ⟨isChar_of_run hrun c hc, fun heq => hlt (heq ▸ hc)⟩
    obtain ⟨mode, acc, here, above⟩ := s
    obtain rfl : mode = .text := hs
    rw [run_text hplain] at hrun
    obtain rfl := Option.some.inj hrun
    rw [List.count_eq_zero.mpr hlt, Nat.add_zero]
  · have hcount := run_pending hslash (fun htag => absurd (hs.symm.trans htag) (by decide)) hrun
    simpa [Reader.pending, hs, htext] using hcount

mutual

/-- Reading a printed tree, of whose leaves none has both a slash and the beginning of a tag,
leaves as many elements open as tags begin in the leaves. -/
theorem run_depth : ∀ {d : Doc}, (∀ raw ∈ d.raws, 60 ∉ raw ∨ 47 ∉ raw) →
    ∀ {s s' : Reader}, s.mode = .text → s.run d.print = some s' →
      s'.mode = .text ∧ s'.above.length = s.above.length + strays d.raws
  | .leaf tag raw, hraws, s, s', hs, h => by
      rw [Doc.print, List.append_assoc, run_append] at h
      obtain ⟨s1, hopen, h⟩ := Option.bind_eq_some_iff.mp h
      obtain ⟨htext1, hdepth1⟩ := run_open_depth tag hs hopen
      obtain ⟨s2, hclose, htext2, hdepth2⟩ :=
        run_raw_some (hraws raw (by simp [Doc.raws])) htext1 h
      obtain ⟨htext, hdepth⟩ := run_close_depth tag htext2 hclose
      refine ⟨htext, ?_⟩
      simp only [Doc.raws, strays, List.map_cons, List.map_nil, List.sum_cons, List.sum_nil]
      omega
  | .void tag, _, s, s', hs, h => by
      rw [Doc.print] at h
      obtain ⟨s1, htag, hraw, habove⟩ := run_bracket_some tag.void_plain hs h
      obtain ⟨htext, -, -, hvoid, -⟩ := applyTag_depth htag
      rw [hraw, habove] at hvoid
      exact ⟨htext, hvoid tag.void_head_ne (by simp)⟩
  | .branch tag children, hraws, s, s', hs, h => by
      rw [Doc.print, List.append_assoc, run_append] at h
      obtain ⟨s1, hopen, h⟩ := Option.bind_eq_some_iff.mp h
      obtain ⟨htext1, hdepth1⟩ := run_open_depth tag hs hopen
      rw [run_append] at h
      obtain ⟨s2, hchildren, hclose⟩ := Option.bind_eq_some_iff.mp h
      obtain ⟨htext2, hdepth2⟩ := run_depthAll
        (fun raw hraw => hraws raw (by rwa [Doc.raws])) htext1 hchildren
      obtain ⟨htext, hdepth⟩ := run_close_depth tag htext2 hclose
      refine ⟨htext, ?_⟩
      rw [Doc.raws]
      omega

theorem run_depthAll : ∀ {ds : List Doc}, (∀ raw ∈ rawsAll ds, 60 ∉ raw ∨ 47 ∉ raw) →
    ∀ {s s' : Reader}, s.mode = .text → s.run (printAll ds) = some s' →
      s'.mode = .text ∧ s'.above.length = s.above.length + strays (rawsAll ds)
  | [], _, s, s', hs, h => by
      obtain rfl := Option.some.inj h
      exact ⟨hs, rfl⟩
  | d :: ds, hraws, s, s', hs, h => by
      rw [printAll, run_append] at h
      obtain ⟨s1, hd, hds⟩ := Option.bind_eq_some_iff.mp h
      obtain ⟨htext1, hdepth1⟩ := run_depth (fun raw hraw =>
        hraws raw (by rw [rawsAll]; exact List.mem_append_left _ hraw)) hs hd
      obtain ⟨htext, hdepth⟩ := run_depthAll (fun raw hraw =>
        hraws raw (by rw [rawsAll]; exact List.mem_append_right _ hraw)) htext1 hds
      refine ⟨htext, ?_⟩
      rw [rawsAll, strays, List.map_append, List.sum_append]
      unfold strays at hdepth1 hdepth
      omega

end

/-- The text of a document. -/
def printDocument (declaration : List UInt8) (d : Doc) : List UInt8 :=
  declaration ++ 62 :: d.print

theorem readDocument_print {declaration : List UInt8} (hdecl : isDeclaration declaration = true)
    (hgt : 62 ∉ declaration) (d : Doc) (root : Node) :
    readDocument (printDocument declaration d) = some root ↔
      Reader.run ⟨.text, [], [], []⟩ d.print = some ⟨.text, [], [root], []⟩ := by
  rw [readDocument, printDocument, breakAt_append hgt]
  simp only [hdecl, if_true]
  constructor
  · intro h
    split at h
    · obtain rfl := Option.some.inj h
      assumption
    · cases h
  · intro h
    rw [h]

theorem isChar_of_readDocument {declaration rest : List UInt8} (hgt : 62 ∉ declaration)
    {root : Node} (h : readDocument (declaration ++ 62 :: rest) = some root) :
    ∀ c ∈ rest, isChar c = true := by
  rw [readDocument, breakAt_append hgt] at h
  simp only at h
  split_ifs at h
  split at h
  · rename_i hrun
    exact isChar_of_run hrun
  · cases h

/-- A document whose characters bring no tag with them is read as the decoded tree. -/
theorem readDocument_eq {declaration : List UInt8} (hdecl : isDeclaration declaration = true)
    (hgt : 62 ∉ declaration) {d : Doc} (h : ∀ raw ∈ d.raws, PlainText raw) (root : Node) :
    readDocument (printDocument declaration d) = some root ↔ d.decoded = some root := by
  rw [readDocument_print hdecl hgt, run_print h]
  cases d.decoded with
  | none => simp
  | some node => simp

/-- A document that is read has no tag in the characters at its leaves. -/
theorem not_mem_of_readDocument {declaration : List UInt8}
    (hdecl : isDeclaration declaration = true) (hgt : 62 ∉ declaration) {d : Doc}
    (hraws : ∀ raw ∈ d.raws, 60 ∉ raw ∨ 47 ∉ raw) {root : Node}
    (h : readDocument (printDocument declaration d) = some root) :
    ∀ raw ∈ d.raws, 60 ∉ raw := by
  obtain ⟨-, hdepth⟩ := run_depth hraws rfl ((readDocument_print hdecl hgt d root).mp h)
  have hzero : (d.raws.map (List.count 60)).sum = 0 := by
    simpa [strays] using hdepth.symm
  intro raw hraw
  exact List.count_eq_zero.mp
    (List.sum_eq_zero_iff_forall_eq_nat.mp hzero _ (List.mem_map_of_mem hraw))

mutual

theorem subset_print : ∀ {d : Doc} {raw : List UInt8}, raw ∈ d.raws → raw ⊆ d.print
  | .leaf tag raw', raw, h => by
      obtain rfl : raw = raw' := by simpa [Doc.raws] using h
      rw [Doc.print]
      exact List.Subset.trans (List.subset_append_right _ _) (List.subset_append_left _ _)
  | .void tag, raw, h => by
      rw [Doc.raws] at h
      exact absurd h List.not_mem_nil
  | .branch tag children, raw, h => by
      rw [Doc.raws] at h
      rw [Doc.print]
      exact List.Subset.trans (subset_printAll h)
        (List.Subset.trans (List.subset_append_right _ _) (List.subset_append_left _ _))

theorem subset_printAll : ∀ {ds : List Doc} {raw : List UInt8}, raw ∈ rawsAll ds →
    raw ⊆ printAll ds
  | [], raw, h => by
      rw [rawsAll] at h
      exact absurd h List.not_mem_nil
  | d :: ds, raw, h => by
      rw [rawsAll] at h
      rw [printAll]
      rcases List.mem_append.mp h with h | h
      · exact List.Subset.trans (subset_print h) (List.subset_append_left _ _)
      · exact List.Subset.trans (subset_printAll h) (List.subset_append_right _ _)

end

/-- A printed document, of whose leaves none has both a slash and the beginning of a tag, is
read exactly when no tag begins in them and their characters are legal and can be decoded. -/
theorem readDocument_iff {declaration : List UInt8} (hdecl : isDeclaration declaration = true)
    (hgt : 62 ∉ declaration) {d : Doc} (hraws : ∀ raw ∈ d.raws, 60 ∉ raw ∨ 47 ∉ raw)
    (root : Node) :
    readDocument (printDocument declaration d) = some root ↔
      (∀ raw ∈ d.raws, PlainText raw) ∧ d.decoded = some root := by
  refine ⟨fun h => ?_, fun h => (readDocument_eq hdecl hgt h.1 root).mpr h.2⟩
  have hplain : ∀ raw ∈ d.raws, PlainText raw := by
    intro raw hraw c hc
    refine ⟨isChar_of_readDocument hgt h c (subset_print hraw hc), ?_⟩
    rintro rfl
    exact not_mem_of_readDocument hdecl hgt hraws h raw hraw hc
  exact ⟨hplain, (readDocument_eq hdecl hgt hplain root).mp h⟩

theorem decodeText_ne_nil {c : UInt8} {rest chars : List UInt8}
    (h : decodeText (c :: rest) = some chars) : chars ≠ [] := by
  rintro rfl
  rw [decodeText] at h
  split_ifs at h
  rw [decodeFrom] at h
  split_ifs at h
  · split at h
    · cases h
    · obtain ⟨tail, -, htail⟩ := Option.map_eq_some_iff.mp h
      cases htail
  · obtain ⟨tail, -, htail⟩ := Option.map_eq_some_iff.mp h
    cases htail

/-- An element with characters only. -/
def leafNode (tag : Tag) (chars : List UInt8) : Node :=
  .element tag.name tag.attributes (if chars = [] then [] else [.text chars])

@[simp] theorem content_leafNode (tag : Tag) (chars : List UInt8) :
    (leafNode tag chars).content = some chars := by
  unfold leafNode
  split_ifs with hchars
  · rw [hchars]
    rfl
  · rfl

theorem decoded_leaf (tag : Tag) (raw : List UInt8) :
    (Doc.leaf tag raw).decoded = (decodeText raw).map (leafNode tag) := by
  rw [Doc.decoded]
  cases raw with
  | nil => rfl
  | cons c rest =>
      rw [if_neg (List.cons_ne_nil c rest)]
      cases hchars : decodeText (c :: rest) with
      | none => rfl
      | some chars =>
          rw [Option.map_some, Option.map_some, leafNode, if_neg (decodeText_ne_nil hchars)]

theorem decoded_void (tag : Tag) :
    (Doc.void tag).decoded = some (.element tag.name tag.attributes []) := by rw [Doc.decoded]

theorem decoded_branch (tag : Tag) (children : List Doc) :
    (Doc.branch tag children).decoded =
      (decodedAll children).map fun nodes => .element tag.name tag.attributes nodes := by
  rw [Doc.decoded]

/-- Two relations, entry by entry, through a list between. -/
theorem forall₂_comp {α β γ : Type} {R : α → β → Prop} {S : β → γ → Prop} {xs : List α}
    {zs : List γ} :
    (∃ ys, List.Forall₂ R xs ys ∧ List.Forall₂ S ys zs) ↔
      List.Forall₂ (fun x z => ∃ y, R x y ∧ S y z) xs zs := by
  constructor
  · rintro ⟨ys, hxy, hyz⟩
    induction hxy generalizing zs with
    | nil => exact List.forall₂_nil_left_iff.mpr (List.forall₂_nil_left_iff.mp hyz)
    | cons hx _ ih =>
        obtain ⟨z, rest, hz, hrest, rfl⟩ := List.forall₂_cons_left_iff.mp hyz
        exact .cons ⟨_, hx, hz⟩ (ih hrest)
  · intro h
    induction h with
    | nil => exact ⟨[], .nil, .nil⟩
    | cons hx _ ih =>
        obtain ⟨y, hxy, hyz⟩ := hx
        obtain ⟨ys, hxs, hzs⟩ := ih
        exact ⟨y :: ys, .cons hxy hxs, .cons hyz hzs⟩

theorem exists_of_forall₂ {α β : Type} {R : α → β → Prop} {xs : List α} {ys : List β}
    (h : List.Forall₂ R xs ys) {y : β} (hy : y ∈ ys) : ∃ x ∈ xs, R x y := by
  induction h with
  | nil => exact absurd hy List.not_mem_nil
  | cons hxy _ ih =>
      rcases List.mem_cons.mp hy with rfl | hmem
      · exact ⟨_, List.mem_cons_self, hxy⟩
      · obtain ⟨x, hx, hrel⟩ := ih hmem
        exact ⟨x, List.mem_cons_of_mem _ hx, hrel⟩

theorem decodedAll_iff {ds : List Doc} {nodes : List Node} :
    decodedAll ds = some nodes ↔
      List.Forall₂ (fun d node => d.decoded = some node) ds nodes := by
  induction ds generalizing nodes with
  | nil =>
      rw [decodedAll, List.forall₂_nil_left_iff]
      exact ⟨fun h => (Option.some.inj h).symm, fun h => by rw [h]⟩
  | cons d ds ih =>
      rw [decodedAll, Option.bind_eq_some_iff, List.forall₂_cons_left_iff]
      constructor
      · rintro ⟨node, hnode, hmap⟩
        obtain ⟨rest, hrest, rfl⟩ := Option.map_eq_some_iff.mp hmap
        exact ⟨node, rest, hnode, ih.mp hrest, rfl⟩
      · rintro ⟨node, rest, hnode, hrest, rfl⟩
        exact ⟨node, hnode, by rw [ih.mpr hrest, Option.map_some]⟩

end Xml
end JppDos
