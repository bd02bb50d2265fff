import JppDos.Http.Listings
import JppDos.Lib.Xml

/-!
# The document of a listing

What a client gets that reads the answer to a PROPFIND as XML: for every entry the path to ask
for it with, and its name.  The path is escaped into a buffer that ends early, the name is not
escaped, and no path is percent-encoded or decoded.
-/

namespace JppDos
namespace Http

open CText Paths Xml

/-- `D:multistatus`, with the namespace. -/
def multistatusTag : Tag where
  raw := ascii "D:multistatus xmlns:D=\"DAV:\""
  name := ascii "D:multistatus"
  attributes := [(ascii "xmlns:D", ascii "DAV:")]
  readTag_raw := by decide
  plain := by decide +kernel
  name_plain := by decide +kernel
  head_ne := by decide
  last_ne := by decide
  raw_ne := by decide

/-- `D:response`. -/
def responseTag : Tag := .ofName (ascii "D:response") (by decide)

/-- `D:href`. -/
def hrefTag : Tag := .ofName (ascii "D:href") (by decide)

/-- `D:propstat`. -/
def propstatTag : Tag := .ofName (ascii "D:propstat") (by decide)

/-- `D:prop`. -/
def propTag : Tag := .ofName (ascii "D:prop") (by decide)

/-- `D:displayname`. -/
def displaynameTag : Tag := .ofName (ascii "D:displayname") (by decide)

/-- `D:resourcetype`. -/
def resourcetypeTag : Tag := .ofName (ascii "D:resourcetype") (by decide)

/-- `D:collection`. -/
def collectionTag : Tag := .ofName (ascii "D:collection") (by decide)

/-- `D:getcontentlength`. -/
def getcontentlengthTag : Tag := .ofName (ascii "D:getcontentlength") (by decide)

/-- `D:getcontenttype`. -/
def getcontenttypeTag : Tag := .ofName (ascii "D:getcontenttype") (by decide)

/-- `D:status`. -/
def statusTag : Tag := .ofName (ascii "D:status") (by decide)

/-- The `display` of `propfind_send_entry`. -/
def displayOf (href : List UInt8) : List UInt8 := (afterLast 47 href).getD href

/-- What an entry says of its kind. -/
def kindDocs (display : List UInt8) (isDir : Bool) (size : Nat) : List Doc :=
  if isDir then [.branch resourcetypeTag [.void collectionTag]]
  else
    [.void resourcetypeTag, .leaf getcontentlengthTag (showLong size),
      .leaf getcontenttypeTag (mimeFor display)]

/-- The tree that `propfind_send_entry` prints. -/
def entryDoc (entry : List UInt8 × Bool × Nat) : Doc :=
  .branch responseTag
    [.leaf hrefTag (xmlEscape 260 entry.1 []),
      .branch propstatTag
        [.branch propTag
          (.leaf displaynameTag (displayOf entry.1) ::
            kindDocs (displayOf entry.1) entry.2.1 entry.2.2),
          .leaf statusTag (ascii "HTTP/1.1 200 OK")]]

theorem propfindText_eq (entry : List UInt8 × Bool × Nat) :
    propfindText entry.1 entry.2.1 entry.2.2 = (entryDoc entry).print := by
  obtain ⟨href, isDir, size⟩ := entry
  have h1 : ascii "<D:response><D:href>" = bracket responseTag.raw ++ bracket hrefTag.raw := by
    decide
  have h2 : ascii "</D:href><D:propstat><D:prop><D:displayname>" =
      bracket (47 :: hrefTag.name) ++ bracket propstatTag.raw ++ bracket propTag.raw ++
        bracket displaynameTag.raw := by decide
  have h3 : ascii "</D:displayname>" = bracket (47 :: displaynameTag.name) := by decide
  have h4 : ascii "<D:resourcetype><D:collection/></D:resourcetype>" =
      bracket resourcetypeTag.raw ++ bracket (collectionTag.raw ++ [47]) ++
        bracket (47 :: resourcetypeTag.name) := by decide
  have h5 : ascii "<D:resourcetype/><D:getcontentlength>" =
      bracket (resourcetypeTag.raw ++ [47]) ++ bracket getcontentlengthTag.raw := by decide
  have h6 : ascii "</D:getcontentlength><D:getcontenttype>" =
      bracket (47 :: getcontentlengthTag.name) ++ bracket getcontenttypeTag.raw := by decide
  have h7 : ascii "</D:getcontenttype>" = bracket (47 :: getcontenttypeTag.name) := by decide
  have h8 : ascii "</D:prop><D:status>HTTP/1.1 200 OK</D:status></D:propstat></D:response>" =
      bracket (47 :: propTag.name) ++ bracket statusTag.raw ++ ascii "HTTP/1.1 200 OK" ++
        bracket (47 :: statusTag.name) ++ bracket (47 :: propstatTag.name) ++
        bracket (47 :: responseTag.name) := by decide
  unfold propfindText entryDoc kindDocs displayOf
  rw [h1, h2, h3, h4, h5, h6, h7, h8]
  cases isDir with
  | true =>
      simp only [if_true, Doc.print, printAll, List.append_assoc, List.append_nil]
  | false =>
      simp only [Bool.false_eq_true, if_false, Doc.print, printAll, List.append_assoc,
        List.append_nil]

/-- `XML_OPEN`. -/
def xmlOpen : List UInt8 :=
  ascii "<?xml version=\"1.0\" encoding=\"utf-8\"?><D:multistatus xmlns:D=\"DAV:\">"

/-- `XML_CLOSE`. -/
def xmlClose : List UInt8 := ascii "</D:multistatus>"

/-- The body of the answer, as its chunks are handed on. -/
def propfindBody (fs : Fs) (req : Request) : List UInt8 :=
  xmlOpen ++ ((propfindChunks fs req).map (Chunk.bytes fs)).flatten ++ xmlClose

/-- Of a resource that is there, `handle_propfind` sends the body, in chunks. -/
theorem handlePropfind_body {fs : Fs} {c : Conn} {fullPath : List UInt8} {isDir : Bool}
    {size : Nat} (hpath : buildPath fs c.req.uri = some fullPath)
    (hstat : fs.stat fullPath = some (isDir, size)) :
    ∃ pieces last, handlePropfind fs c = sendPage pieces last
        (jppHttpRespSetHdr (ascii "DAV") (ascii "1")
          (jppHttpRespSetType (ascii "application/xml; charset=utf-8")
            (jppHttpRespSetStatus http207 c))) ∧
      pieces.flatten ++ last = propfindBody fs c.req :=
  ⟨_, _, handlePropfind_listing fs hpath hstat, rfl⟩

/-- The XML declaration, up to its last bracket. -/
def declaration : List UInt8 := ascii "<?xml version=\"1.0\" encoding=\"utf-8\"?"

/-- The tree of a document. -/
def multistatusDoc (listing : List (List UInt8 × Bool × Nat)) : Doc :=
  .branch multistatusTag (listing.map entryDoc)

theorem printAll_map {α : Type} (doc : α → Doc) (xs : List α) :
    printAll (xs.map doc) = (xs.map fun x => (doc x).print).flatten := by
  induction xs with
  | nil => rfl
  | cons x xs ih => rw [List.map_cons, printAll, ih, List.map_cons, List.flatten_cons]

/-- Where every entry fits, the body is the text of its tree. -/
theorem propfindBody_eq {fs : Fs} {req : Request} {listing : List (List UInt8 × Bool × Nat)}
    (hchunks : propfindChunks fs req = listing.map fun entry =>
      ⟨640, propfindText entry.1 entry.2.1 entry.2.2⟩)
    (hfits : ∀ entry ∈ listing, EntryFits entry) :
    propfindBody fs req = printDocument declaration (multistatusDoc listing) := by
  have hopen : xmlOpen = declaration ++ 62 :: bracket multistatusTag.raw := by decide
  have hclose : xmlClose = bracket (47 :: multistatusTag.name) := by decide
  have hbytes : (propfindChunks fs req).map (Chunk.bytes fs) =
      listing.map fun entry => (entryDoc entry).print := by
    rw [hchunks, List.map_map]
    refine List.map_congr_left fun entry hentry => ?_
    rw [← propfindText_eq]
    exact if_pos ((length_propfindText ..).mpr (hfits entry hentry))
  rw [propfindBody, hbytes, hopen, hclose, printDocument, multistatusDoc, Doc.print,
    printAll_map]
  simp only [List.append_assoc, List.cons_append]

/-- A body that is read has no entry that does not fit. -/
theorem fits_of_readDocument {fs : Fs} {req : Request}
    {listing : List (List UInt8 × Bool × Nat)}
    (hchunks : propfindChunks fs req = listing.map fun entry =>
      ⟨640, propfindText entry.1 entry.2.1 entry.2.2⟩)
    {root : Node} (h : readDocument (propfindBody fs req) = some root) :
    ∀ entry ∈ listing, EntryFits entry := by
  have hopen : xmlOpen = declaration ++ 62 :: bracket multistatusTag.raw := by decide
  have hgt : 62 ∉ declaration := by decide
  intro entry hentry
  by_contra hlong
  rw [← length_propfindText] at hlong
  rw [propfindBody, hopen, List.append_assoc, List.append_assoc, List.cons_append] at h
  -- a text that does not fit is cut off by a zero byte
  have hzero : 0 ∈ Chunk.bytes fs ⟨640, propfindText entry.1 entry.2.1 entry.2.2⟩ := by
    rw [Chunk.bytes, formatted, if_neg hlong]
    simp
  have hmem : 0 ∈ ((propfindChunks fs req).map (Chunk.bytes fs)).flatten := by
    rw [hchunks, List.map_map]
    exact List.mem_flatten.mpr ⟨_, List.mem_map_of_mem hentry, hzero⟩
  have hlegal := isChar_of_readDocument hgt h 0
    (List.mem_append_right _ (List.mem_append_left _ hmem))
  exact absurd hlegal (by decide)

/-- The part of a text that `xml_escape` lets through, behind so many bytes of output. -/
def shownPart (bufSize : Nat) : List UInt8 → Nat → List UInt8
  | [], _ => []
  | b :: src, out =>
      if out + 8 < bufSize then b :: shownPart bufSize src (out + (escapeByte b).length) else []

theorem xmlEscape_eq (bufSize : Nat) (src : List UInt8) :
    ∀ out, xmlEscape bufSize src out = out ++ escaped (shownPart bufSize src out.length) := by
  induction src with
  | nil => simp [xmlEscape, shownPart, escaped]
  | cons b src ih =>
      intro out
      rw [xmlEscape, shownPart]
      split
      · have hbyte : (if b = 38 then ascii "&amp;" else if b = 60 then ascii "&lt;"
            else if b = 62 then ascii "&gt;" else if b = 34 then ascii "&quot;" else [b]) =
            escapeByte b := rfl
        rw [hbyte, ih, List.length_append, escaped_cons, List.append_assoc]
      · simp [escaped]

theorem shownPart_beginning (bufSize : Nat) (src : List UInt8) :
    ∀ out, shownPart bufSize src out <+: src := by
  induction src with
  | nil => exact fun _ => List.prefix_refl []
  | cons b src ih =>
      intro out
      rw [shownPart]
      split
      · exact List.cons_prefix_cons.mpr ⟨rfl, ih _⟩
      · exact List.nil_prefix

theorem escapeByte_length_pos (b : UInt8) : 0 < (escapeByte b).length := by
  unfold escapeByte
  split_ifs
  · decide
  · decide
  · decide
  · decide
  · exact Nat.one_pos

/-- All of a text is shown exactly when the text but for its last byte leaves room. -/
theorem shownPart_eq_iff (bufSize : Nat) (src : List UInt8) :
    ∀ out, shownPart bufSize src out = src ↔
      src = [] ∨ out + (escaped src.dropLast).length + 8 < bufSize := by
  induction src with
  | nil => simp [shownPart]
  | cons b src ih =>
      intro out
      have hlen := escapeByte_length_pos b
      rw [shownPart]
      by_cases hroom : out + 8 < bufSize
      · rw [if_pos hroom, List.cons_inj_right, ih]
        cases src with
        | nil => simp [escaped, hroom]
        | cons c rest =>
            rw [List.dropLast_cons_of_ne_nil (List.cons_ne_nil c rest), escaped_cons,
              List.length_append]
            simp only [reduceCtorEq, false_or]
            omega
      · rw [if_neg hroom]
        refine iff_of_false (fun h => absurd h.symm (List.cons_ne_nil b src)) ?_
        rintro (h | h)
        · exact absurd h (List.cons_ne_nil b src)
        · omega

theorem length_shownPart (bufSize : Nat) (src : List UInt8) :
    ∀ out, out + 8 ≤ bufSize → (shownPart bufSize src out).length + out + 8 ≤ bufSize := by
  induction src with
  | nil =>
      intro out h
      rw [shownPart, List.length_nil]
      omega
  | cons b src ih =>
      intro out h
      have hlen := escapeByte_length_pos b
      rw [shownPart]
      by_cases hroom : out + 8 < bufSize
      · rw [if_pos hroom, List.length_cons]
        by_cases hnext : out + (escapeByte b).length + 8 ≤ bufSize
        · have hrest := ih _ hnext
          omega
        · -- the last byte fills the buffer
          have hnil : shownPart bufSize src (out + (escapeByte b).length) = [] := by
            cases src with
            | nil => rfl
            | cons c rest => rw [shownPart, if_neg (by omega)]
          rw [hnil, List.length_nil]
          omega
      · rw [if_neg hroom, List.length_nil]
        omega

theorem slash_not_mem_displayOf (href : List UInt8) : slash ∉ displayOf href := by
  rcases exists_last_segment href with h | ⟨front, seg, rfl, hseg⟩
  · rwa [displayOf, show (47 : UInt8) = slash from rfl, afterLast_of_not_mem h]
  · rwa [displayOf, show (47 : UInt8) = slash from rfl, afterLast_append hseg,
      Option.getD_some]

theorem displayOf_append {seg : List UInt8} (h : slash ∉ seg) (front : List UInt8) :
    displayOf (front ++ slash :: seg) = seg := by
  rw [displayOf, show (47 : UInt8) = slash from rfl, afterLast_append h, Option.getD_some]

/-- Characters that are printed and read as they are. -/
def Bare (raw : List UInt8) : Prop := ∀ c ∈ raw, isChar c = true ∧ c ≠ 60 ∧ c ≠ 38 ∧ c ≠ 62

instance (raw : List UInt8) : Decidable (Bare raw) := List.decidableBAll _ raw

theorem Bare.plainText {raw : List UInt8} (h : Bare raw) : PlainText raw :=
  fun c hc => ⟨(h c hc).1, (h c hc).2.1⟩

theorem Bare.decodeText {raw : List UInt8} (h : Bare raw) : decodeText raw = some raw :=
  decodeText_plain (fun hmem => (h 38 hmem).2.2.1 rfl)
    fun hend => (h 62 (hend.subset (by decide))).2.2.2 rfl

theorem bare_showBase (n : Nat) : Bare (Numerals.showBase 10 n) := by
  intro c hc
  have hread := Numerals.readBase_showBase (by decide : 2 ≤ 10) (by decide) n
  rw [Numerals.readBase, if_neg (Numerals.showBase_ne_nil 10 n)] at hread
  obtain ⟨hge, hle⟩ := Numerals.digit_of_foldlM_readDigit hread hc
  simp only [isChar, Bool.or_eq_true, decide_eq_true_eq, beq_iff_eq, UInt8.le_iff_toNat_le,
    ne_eq, ← UInt8.toNat_inj, UInt8.reduceToNat]
  omega

theorem bare_showLong (n : Nat) : Bare (showLong n) := by
  rw [showLong]
  split_ifs
  · intro c hc
    rcases List.mem_append.mp hc with hc | hc
    · exact (by decide : Bare (ascii "-")) c hc
    · exact bare_showBase _ c hc
  · exact bare_showBase _

theorem bare_mimeFor (name : List UInt8) : Bare (mimeFor name) := by
  have htable : ∀ row ∈ mimeTable, Bare row.2 := by decide
  have hother : Bare (ascii "application/octet-stream") := by decide
  rw [mimeFor]
  split
  · exact hother
  · split
    · rename_i hfind
      exact htable _ (List.mem_of_find?_eq_some hfind)
    · exact hother

/-- The href of an entry as a client reads it. -/
def shownHref (href : List UInt8) : List UInt8 := shownPart 260 href 0

theorem xmlEscape_href (href : List UInt8) : xmlEscape 260 href [] = escaped (shownHref href) :=
  xmlEscape_eq 260 href []

/-- The tree of an entry as a client reads it. -/
def responseNode (entry : List UInt8 × Bool × Nat) (shown : List UInt8) : Node :=
  .element responseTag.name []
    [leafNode hrefTag (shownHref entry.1),
      .element propstatTag.name []
        [.element propTag.name []
          (leafNode displaynameTag shown ::
            if entry.2.1 then [.element resourcetypeTag.name []
              [.element collectionTag.name [] []]]
            else
              [.element resourcetypeTag.name [] [],
                leafNode getcontentlengthTag (showLong entry.2.2),
                leafNode getcontenttypeTag (mimeFor (displayOf entry.1))]),
          leafNode statusTag (ascii "HTTP/1.1 200 OK")]]

theorem entryDoc_decoded (entry : List UInt8 × Bool × Nat) :
    (entryDoc entry).decoded = (decodeText (displayOf entry.1)).map (responseNode entry) := by
  have hstatus : decodeText (ascii "HTTP/1.1 200 OK") = some (ascii "HTTP/1.1 200 OK") :=
    Bare.decodeText (by decide)
  obtain ⟨href, isDir, size⟩ := entry
  rw [entryDoc, xmlEscape_href]
  cases hshown : decodeText (displayOf href) with
  | none =>
      simp only [decoded_branch, decodedAll, decoded_leaf, decodeText_escaped, hshown,
        Option.map_some, Option.map_none, Option.bind_some, Option.bind_none]
  | some shown =>
      cases isDir with
      | true =>
          simp only [decoded_branch, decoded_void, decodedAll, decoded_leaf, decodeText_escaped,
            hshown, hstatus, kindDocs, if_true, Option.map_some, Option.bind_some]
          rfl
      | false =>
          simp only [decoded_branch, decoded_void, decodedAll, decoded_leaf, decodeText_escaped,
            hshown, hstatus, kindDocs, Bool.false_eq_true, if_false,
            (bare_showLong size).decodeText, (bare_mimeFor (displayOf href)).decodeText,
            Option.map_some, Option.bind_some]
          rfl

theorem mem_raws_entryDoc {entry : List UInt8 × Bool × Nat} {raw : List UInt8}
    (h : raw ∈ (entryDoc entry).raws) :
    raw = escaped (shownHref entry.1) ∨ raw = displayOf entry.1 ∨ Bare raw := by
  have hstatus : Bare (ascii "HTTP/1.1 200 OK") := by decide
  obtain ⟨href, isDir, size⟩ := entry
  rw [entryDoc, xmlEscape_href] at h
  cases isDir with
  | true =>
      simp only [Doc.raws, rawsAll, kindDocs, if_true, List.append_nil, List.nil_append,
        List.cons_append, List.mem_cons, List.not_mem_nil, or_false] at h
      rcases h with rfl | rfl | rfl
      · exact .inl rfl
      · exact .inr (.inl rfl)
      · exact .inr (.inr hstatus)
  | false =>
      simp only [Doc.raws, rawsAll, kindDocs, Bool.false_eq_true, if_false, List.append_nil,
        List.nil_append, List.cons_append, List.mem_cons, List.not_mem_nil, or_false] at h
      rcases h with rfl | rfl | rfl | rfl | rfl
      · exact .inl rfl
      · exact .inr (.inl rfl)
      · exact .inr (.inr (bare_showLong size))
      · exact .inr (.inr (bare_mimeFor (displayOf href)))
      · exact .inr (.inr hstatus)

theorem raws_entryDoc (entry : List UInt8 × Bool × Nat) :
    escaped (shownHref entry.1) ∈ (entryDoc entry).raws ∧
      displayOf entry.1 ∈ (entryDoc entry).raws := by
  rw [entryDoc, xmlEscape_href]
  simp [Doc.raws, rawsAll]

theorem rawsAll_map {α : Type} (doc : α → Doc) (xs : List α) :
    rawsAll (xs.map doc) = xs.flatMap fun x => (doc x).raws := by
  induction xs with
  | nil => rfl
  | cons x xs ih => rw [List.map_cons, rawsAll, ih, List.flatMap_cons]

/-- The texts of an entry have no tag and legal characters only. -/
def EntryPlain (entry : List UInt8 × Bool × Nat) : Prop :=
  PlainText (escaped (shownHref entry.1)) ∧ PlainText (displayOf entry.1)

/-- A listing is read exactly when its entries fit, their texts have no tag, and their names
can be decoded; it is read as their trees. -/
theorem readDocument_body_iff {fs : Fs} {req : Request}
    {listing : List (List UInt8 × Bool × Nat)}
    (hchunks : propfindChunks fs req = listing.map fun entry =>
      ⟨640, propfindText entry.1 entry.2.1 entry.2.2⟩) (root : Node) :
    readDocument (propfindBody fs req) = some root ↔
      (∀ entry ∈ listing, EntryFits entry ∧ EntryPlain entry) ∧
        ∃ nodes, root = .element multistatusTag.name multistatusTag.attributes nodes ∧
          List.Forall₂ (fun entry node => (entryDoc entry).decoded = some node) listing nodes := by
  have hdecl : isDeclaration declaration = true := by decide
  have hgt : 62 ∉ declaration := by decide
  have hraws : ∀ raw ∈ (multistatusDoc listing).raws, 60 ∉ raw ∨ 47 ∉ raw := by
    intro raw hraw
    rw [multistatusDoc, Doc.raws, rawsAll_map] at hraw
    obtain ⟨entry, -, hraw⟩ := List.mem_flatMap.mp hraw
    rcases mem_raws_entryDoc hraw with rfl | rfl | hbare
    · exact .inl (bracket_not_mem_escaped _).1
    · exact .inr (slash_not_mem_displayOf entry.1)
    · exact .inl fun hmem => (hbare 60 hmem).2.1 rfl
  have hplain : (∀ raw ∈ (multistatusDoc listing).raws, PlainText raw) ↔
      ∀ entry ∈ listing, EntryPlain entry := by
    rw [multistatusDoc, Doc.raws, rawsAll_map]
    constructor
    · intro h entry hentry
      have hentryRaws := raws_entryDoc entry
      exact ⟨h _ (List.mem_flatMap.mpr ⟨entry, hentry, hentryRaws.1⟩),
        h _ (List.mem_flatMap.mpr ⟨entry, hentry, hentryRaws.2⟩)⟩
    · intro h raw hraw
      obtain ⟨entry, hentry, hraw⟩ := List.mem_flatMap.mp hraw
      rcases mem_raws_entryDoc hraw with rfl | rfl | hbare
      · exact (h entry hentry).1
      · exact (h entry hentry).2
      · exact hbare.plainText
  have hdecoded : (multistatusDoc listing).decoded = some root ↔
      ∃ nodes, root = .element multistatusTag.name multistatusTag.attributes nodes ∧
        List.Forall₂ (fun entry node => (entryDoc entry).decoded = some node) listing nodes := by
    rw [multistatusDoc, Doc.decoded, Option.map_eq_some_iff]
    refine exists_congr fun nodes => ?_
    rw [decodedAll_iff, List.forall₂_map_left_iff, and_comm, eq_comm]
  constructor
  · intro h
    have hfits := fits_of_readDocument hchunks h
    rw [propfindBody_eq hchunks hfits, readDocument_iff hdecl hgt hraws] at h
    exact ⟨fun entry hentry => ⟨hfits entry hentry, hplain.mp h.1 entry hentry⟩,
      hdecoded.mp h.2⟩
  · rintro ⟨hentries, hnodes⟩
    rw [propfindBody_eq hchunks fun entry hentry => (hentries entry hentry).1,
      readDocument_iff hdecl hgt hraws]
    exact ⟨hplain.mpr fun entry hentry => (hentries entry hentry).2, hdecoded.mpr hnodes⟩

/-- A client: the characters that it puts into a request line as they are, and the header
lines of its requests.  A request line cannot carry control characters and spaces; it can
carry slashes, dots and percent signs. -/
structure Client where
  carries : UInt8 → Bool
  headers : List UInt8
  visible : ∀ c, carries c = true → 32 < c.toNat
  path : carries slash = true ∧ carries dot = true ∧ carries 37 = true

namespace Client

/-- A text, percent-encoded where a request line cannot carry it. -/
def encode (client : Client) (text : List UInt8) : List UInt8 :=
  text.flatMap fun c => if client.carries c then [c] else 37 :: Numerals.hexByte c

/-- The header block of a request for a path. -/
def requestBlock (client : Client) (text : List UInt8) : List UInt8 :=
  (ascii "GET" ++ 32 :: (client.encode text ++ 32 :: ascii "HTTP/1.1")) ++ crlf ++ client.headers

/-- The URI that the server finds in the request. -/
def requestUri (client : Client) (text : List UInt8) : List UInt8 :=
  (parseHeaderBlock (client.requestBlock text)).uri

variable (client : Client)

theorem encode_cons (c : UInt8) (text : List UInt8) :
    client.encode (c :: text) =
      (if client.carries c then [c] else 37 :: Numerals.hexByte c) ++ client.encode text := rfl

theorem encode_append (a b : List UInt8) :
    client.encode (a ++ b) = client.encode a ++ client.encode b := List.flatMap_append

theorem encode_of_carried {text : List UInt8} (h : ∀ c ∈ text, client.carries c = true) :
    client.encode text = text := by
  induction text with
  | nil => rfl
  | cons c text ih =>
      obtain ⟨hc, hrest⟩ := List.forall_mem_cons.mp h
      rw [encode_cons, if_pos hc, ih hrest, List.singleton_append]

/-- A request line is visible, and has no more slashes than the path. -/
theorem mem_encode {text : List UInt8} {c : UInt8} (h : c ∈ client.encode text) :
    32 < c.toNat ∧ (c = slash → slash ∈ text) := by
  obtain ⟨b, hb, hc⟩ := List.mem_flatMap.mp h
  split_ifs at hc with hcarried
  · obtain rfl := List.mem_singleton.mp hc
    exact ⟨client.visible c hcarried, fun heq => heq ▸ hb⟩
  · have hdigit : ∀ x ∈ Numerals.hexBytes [b], 48 ≤ x.toNat := fun x hx =>
      Numerals.hexBytes_ge hx
    rcases List.mem_cons.mp hc with rfl | hc
    · exact ⟨by decide, fun heq => absurd heq (by decide)⟩
    · have hge := hdigit c (by simpa [Numerals.hexBytes] using hc)
      refine ⟨by omega, fun heq => ?_⟩
      rw [heq] at hge
      exact absurd hge (by decide)

/-- A text that is encoded into something it is the beginning of is not encoded at all. -/
theorem eq_of_encode_prefix {x y : List UInt8} (hxy : x <+: y) (h : client.encode x = y) :
    x = y ∧ ∀ c ∈ x, client.carries c = true := by
  induction x generalizing y with
  | nil =>
      rw [← h]
      exact ⟨rfl, fun c hc => absurd hc List.not_mem_nil⟩
  | cons c x ih =>
      obtain ⟨rest, rfl⟩ := hxy
      rw [encode_cons] at h
      by_cases hc : client.carries c = true
      · rw [if_pos hc, List.singleton_append, List.cons_append] at h
        obtain ⟨heq, hcarried⟩ := ih (List.prefix_append x rest) (List.cons.inj h).2
        exact ⟨by rw [List.cons_append, ← heq], List.forall_mem_cons.mpr ⟨hc, hcarried⟩⟩
      · rw [if_neg hc, List.cons_append, List.cons_append] at h
        rw [← (List.cons.inj h).1] at hc
        exact absurd client.path.2.2 hc

end Client

theorem parseHeaderLine_uri (req : Request) (line : List UInt8) :
    (parseHeaderLine req line).uri = req.uri := by
  rw [parseHeaderLine]
  split
  · rfl
  · simp only
    split_ifs
    all_goals rfl

theorem foldl_parseHeaderLine_uri (lines : List (List UInt8)) (req : Request) :
    (lines.foldl parseHeaderLine req).uri = req.uri := by
  induction lines generalizing req with
  | nil => rfl
  | cons line lines ih => rw [List.foldl_cons, ih, parseHeaderLine_uri]

/-- The server finds the path as the client has encoded it. -/
theorem Client.requestUri_eq (client : Client) {text : List UInt8} (hne : text ≠ []) :
    client.requestUri text = client.encode text := by
  have hvisible : ∀ c ∈ client.encode text, 32 < c.toNat := fun c hc => (client.mem_encode hc).1
  have hnot : ∀ b : UInt8, b.toNat ≤ 32 → b ∉ client.encode text := fun b hb hmem =>
    absurd (hvisible b hmem) (Nat.not_lt_of_le hb)
  have hline : ∀ b ∈ ([0, 13] : List UInt8),
      b ∉ ascii "GET" ++ 32 :: (client.encode text ++ 32 :: ascii "HTTP/1.1") := by
    intro b hb hmem
    have hsmall : b.toNat ≤ 32 ∧ b ∉ ascii "GET" ∧ b ≠ 32 ∧ b ∉ ascii "HTTP/1.1" := by
      rcases List.mem_pair.mp hb with rfl | rfl
      · decide
      · decide
    simp only [List.mem_append, List.mem_cons, hsmall, hnot b hsmall.1, or_self] at hmem
  have hows : skipOws (client.encode text ++ 32 :: ascii "HTTP/1.1") =
      client.encode text ++ 32 :: ascii "HTTP/1.1" := by
    cases hencode : client.encode text with
    | nil =>
        cases text with
        | nil => exact absurd rfl hne
        | cons c rest =>
            rw [Client.encode_cons] at hencode
            split_ifs at hencode
            · cases hencode
            · cases hencode
    | cons c rest =>
        have hc : 32 < c.toNat := hvisible c (by rw [hencode]; exact List.mem_cons_self)
        refine List.dropWhile_cons_of_neg ?_
        simp only [Bool.or_eq_true, beq_iff_eq, ← UInt8.toNat_inj, UInt8.reduceToNat]
        omega
  rw [Client.requestUri, Client.requestBlock, List.append_assoc, parseHeaderBlock,
    cString_append (hline 0 (by decide)), crlf, List.cons_append, List.cons_append,
    List.nil_append, cString, List.takeWhile_cons_of_pos (by decide),
    List.takeWhile_cons_of_pos (by decide)]
  have hsplit := splitLines_append (hline 13 (by decide))
    (client.headers.takeWhile (· ≠ 0))
  rw [crlf, List.append_assoc] at hsplit
  rw [show ∀ x : List UInt8, (13 : UInt8) :: 10 :: x = [13, 10] ++ x from fun _ => rfl, hsplit]
  simp only
  rw [breakAt_append (by decide : (32 : UInt8) ∉ ascii "GET")]
  simp only
  rw [hows, breakAt_append (hnot 32 (by decide))]
  simp only
  rw [foldl_parseHeaderLine_uri]

theorem pathIsSafe_iff (path : List UInt8) :
    pathIsSafeFrom true path = true ↔ parent ∉ segments path := by
  rw [pathIsSafeFrom_eq, Bool.not_eq_true', ← (Sdk.hasParentFrom_eq_true path).2,
    Bool.not_eq_true]

/-- The requests that `build_path` accepts. -/
def Accepted (fs : Fs) (uri : List UInt8) : Prop :=
  uri.head? = some slash ∧ parent ∉ segments uri ∧ fs.sdRoot.length + uri.length < fullPathMax

theorem buildPath_isSome_iff {fs : Fs} {uri : List UInt8} :
    (buildPath fs uri).isSome = true ↔ Accepted fs uri := by
  rw [buildPath, Accepted, ← pathIsSafe_iff]
  by_cases hbad : uri.head? ≠ some 47 ∨ (!pathIsSafeFrom true uri) = true
  · rw [if_pos hbad]
    refine iff_of_false (by simp) fun h => ?_
    rcases hbad with hhead | hsafe
    · exact hhead h.1
    · rw [h.2.1] at hsafe
      cases hsafe
  · rw [if_neg hbad]
    obtain ⟨hhead, hsafe⟩ := not_or.mp hbad
    rw [not_not] at hhead
    have hsafe' : pathIsSafeFrom true uri = true := by simpa using hsafe
    by_cases hlong : fs.sdRoot.length + uri.length + 1 > fullPathMax
    · rw [if_pos hlong]
      exact iff_of_false (by simp) fun h => absurd h.2.2 (by omega)
    · rw [if_neg hlong]
      refine iff_of_true ?_ ⟨hhead, hsafe', by omega⟩
      simp only
      split_ifs
      · rfl
      · rfl

theorem resolve_of_buildPath {fs : Fs} {uri path : List UInt8}
    (h : buildPath fs uri = some path) : resolve path = resolve fs.sdRoot ++ resolve uri := by
  obtain ⟨rest, rfl, hparent, -⟩ := uri_of_buildPath h
  have hwhole : resolve (fs.sdRoot ++ slash :: rest) =
      resolve fs.sdRoot ++ resolve (slash :: rest) := by
    have hrest : resolve (slash :: rest) = (segments rest).filter fun seg => Spelt seg := by
      have hjoin := resolve_join [] rest
      rw [List.nil_append] at hjoin
      rw [hjoin, foldl_walk_eq hparent]
      rfl
    rw [resolve_join, foldl_walk_eq hparent, hrest]
  rcases (buildPath_below h).1 with heq | heq
  · rw [heq, hwhole]
  · rw [← resolve_slash path, heq, hwhole]

theorem resolve_eq_nil_iff {fs : Fs} {uri : List UInt8} (h : Accepted fs uri) :
    resolve uri = [] ↔ weight uri = 0 := by
  refine ⟨fun hroot => ?_, resolve_of_weight⟩
  rw [weight_of_resolve h.2.1, hroot]
  rfl

/-- A request for the text leads to the path. -/
def Reaches (fs : Fs) (client : Client) (text path : List UInt8) : Prop :=
  ∃ p, buildPath fs (client.requestUri text) = some p ∧ resolve p = resolve path

/-- What a client reaches with a text, given where the path lies below the root. -/
theorem reaches_iff {fs : Fs} {client : Client} {text path : List UInt8} {names : List Segment}
    (hne : text ≠ []) (hpath : resolve path = resolve fs.sdRoot ++ names) :
    Reaches fs client text path ↔
      Accepted fs (client.encode text) ∧ resolve (client.encode text) = names := by
  rw [Reaches, client.requestUri_eq hne, hpath, ← buildPath_isSome_iff,
    Option.isSome_iff_exists]
  constructor
  · rintro ⟨p, hp, hresolve⟩
    rw [resolve_of_buildPath hp] at hresolve
    exact ⟨⟨p, hp⟩, List.append_cancel_left hresolve⟩
  · rintro ⟨⟨p, hp⟩, hresolve⟩
    exact ⟨p, hp, by rw [resolve_of_buildPath hp, hresolve]⟩

theorem carried_of_weight (client : Client) {text : List UInt8} (h : weight text = 0) :
    ∀ c ∈ text, client.carries c = true := by
  intro c hc
  rcases slash_or_dot_of_weight h c hc with rfl | rfl
  · exact client.path.1
  · exact client.path.2.1

theorem encode_of_weight (client : Client) {text : List UInt8} (h : weight text = 0) :
    client.encode text = text := client.encode_of_carried (carried_of_weight client h)

/-- Behind slashes and dots, the beginning of a name leads to the name only if it is all of
it, and nothing of it is encoded. -/
theorem resolve_encode_child {client : Client} {front name text suffix : List UInt8}
    (hfront : weight front = 0) (hname : IsName name) (hsuffix : suffix = [] ∨ suffix = [slash])
    (htext : text <+: front ++ slash :: (name ++ suffix))
    (hsafe : parent ∉ segments (client.encode text))
    (hresolve : resolve (client.encode text) = [name]) :
    front ++ slash :: name <+: text ∧ ∀ c ∈ name, client.carries c = true := by
  have hfrontSlash : weight (front ++ [slash]) = 0 := by
    rw [weight_join, hfront]
    rfl
  by_cases hshort : text <+: front ++ [slash]
  · -- only slashes and dots are left
    have hzero : weight text = 0 := Nat.le_zero.mp (hfrontSlash ▸ weight_mono hshort)
    rw [encode_of_weight client hzero, resolve_of_weight hzero] at hresolve
    cases hresolve
  · have hsplit : front ++ slash :: (name ++ suffix) =
        (front ++ [slash]) ++ (name ++ suffix) := by simp
    rw [hsplit] at htext
    obtain ⟨shown, rfl, hshown⟩ : ∃ shown, text = (front ++ [slash]) ++ shown ∧
        shown <+: name ++ suffix := by
      rcases List.prefix_or_prefix_of_prefix htext (List.prefix_append _ (name ++ suffix)) with
        h | ⟨shown, rfl⟩
      · exact absurd h hshort
      · exact ⟨shown, rfl, (List.prefix_append_right_inj _).mp htext⟩
    have hencode : client.encode ((front ++ [slash]) ++ shown) =
        front ++ slash :: client.encode shown := by
      rw [client.encode_append, encode_of_weight client hfrontSlash, List.append_assoc,
        List.singleton_append]
    rw [hencode, segments_join, List.mem_append, not_or] at hsafe
    rw [hencode, resolve_join, resolve_of_weight hfront, foldl_walk_eq hsafe.2,
      List.nil_append] at hresolve
    -- what stands behind the slash is the name, or the name with a slash
    have hcut : shown <+: name ∨ shown = name ++ [slash] := by
      rcases hsuffix with rfl | rfl
      · rw [List.append_nil] at hshown
        exact .inl hshown
      · rcases List.prefix_concat_iff.mp hshown with h | h
        · exact .inr h
        · exact .inl h
    rcases hcut with hcut | rfl
    · have hnoslash : slash ∉ client.encode shown := fun hmem =>
        hname.2.2.2 (hcut.subset ((client.mem_encode hmem).2 rfl))
      rw [segments_name hnoslash] at hresolve
      have heq : client.encode shown = name := by
        have hmem : name ∈ [client.encode shown].filter fun seg => Spelt seg := by
          rw [hresolve]
          exact List.mem_singleton_self name
        exact (List.mem_singleton.mp (List.mem_filter.mp hmem).1).symm
      obtain ⟨rfl, hcarried⟩ := client.eq_of_encode_prefix hcut heq
      exact ⟨by simp, hcarried⟩
    · have hnoslash : slash ∉ client.encode name := fun hmem =>
        hname.2.2.2 ((client.mem_encode hmem).2 rfl)
      have hlast : client.encode [slash] = [slash] := client.encode_of_carried fun c hc => by
        rw [List.mem_singleton.mp hc]
        exact client.path.1
      rw [client.encode_append, hlast, segments_join, segments_name hnoslash] at hresolve
      have heq : client.encode name = name := by
        have hmem : name ∈ ([client.encode name] ++ segments []).filter fun seg => Spelt seg := by
          rw [hresolve]
          exact List.mem_singleton_self name
        rcases List.mem_append.mp (List.mem_filter.mp hmem).1 with h | h
        · exact (List.mem_singleton.mp h).symm
        · exact absurd (List.mem_singleton.mp h) hname.1
      exact ⟨⟨[slash], by simp⟩, (client.eq_of_encode_prefix (List.prefix_refl name) heq).2⟩

/-- The part that begins in front of a character reaches behind it. -/
theorem segments_around {front : List UInt8} {b : UInt8} (hfront : slash ∉ front) (hb : b ≠ slash)
    (rest : List UInt8) :
    ∃ tail more, segments (front ++ b :: rest) = (front ++ b :: tail) :: more := by
  obtain ⟨more, hmore⟩ := head_segments (front ++ b :: rest)
  have hpass : ∀ c ∈ front, decide (c ≠ slash) = true := fun c hc =>
    decide_eq_true fun heq => hfront (heq ▸ hc)
  refine ⟨rest.takeWhile (· ≠ slash), more, ?_⟩
  rw [hmore, List.takeWhile_append_of_pos hpass, List.takeWhile_cons_of_pos (by simpa using hb)]

theorem spelt_around {front tail : List UInt8} {b : UInt8} (hb : b ≠ dot) :
    Spelt (front ++ b :: tail) := by
  refine ⟨by simp, fun hdot => ?_⟩
  have hmem : b ∈ [dot] := hdot ▸ by simp
  exact hb (List.mem_singleton.mp hmem)

/-- The beginning of a path leads to where the path leads only if nothing of it is encoded. -/
theorem carried_of_resolve {client : Client} {text uri : List UInt8} (htext : text <+: uri)
    (hhead : uri.head? = some slash) (hsafe : parent ∉ segments uri)
    (hsafe' : parent ∉ segments (client.encode text))
    (hresolve : resolve (client.encode text) = resolve uri) :
    ∀ c ∈ text, client.carries c = true := by
  obtain ⟨rest, rfl⟩ := htext
  have hsplit := List.takeWhile_append_dropWhile (p := client.carries) (l := text)
  cases hdrop : text.dropWhile client.carries with
  | nil => exact fun c hc => List.dropWhile_eq_nil_iff.mp hdrop c hc
  | cons c after =>
      exfalso
      have hc : client.carries c ≠ true := by
        have hhd := List.head?_dropWhile_not client.carries text
        rw [hdrop] at hhd
        simpa using hhd
      have hslash : c ≠ slash := fun heq => hc (heq ▸ client.path.1)
      have hdot : c ≠ dot := fun heq => hc (heq ▸ client.path.2.1)
      have hpercent : c ≠ 37 := fun heq => hc (heq ▸ client.path.2.2)
      generalize hbefore : text.takeWhile client.carries = before at hsplit
      have hcarried : ∀ b ∈ before, client.carries b = true := fun b hb =>
        List.mem_takeWhile_imp (hbefore ▸ hb)
      rw [hdrop] at hsplit
      subst hsplit
      -- the first character that is encoded stands in the same part of both paths
      obtain ⟨front, seg, rfl, hseg⟩ : ∃ front seg, before = front ++ slash :: seg ∧
          slash ∉ seg := by
        rcases exists_last_segment before with hno | h
        · cases before with
          | nil => exact absurd (Option.some.inj hhead) hslash
          | cons b more =>
              exact absurd (List.mem_cons.mpr (.inl (Option.some.inj hhead).symm)) hno
        · exact h
      have hencode : client.encode (front ++ slash :: seg ++ c :: after) =
          front ++ slash :: (seg ++ 37 :: (Numerals.hexByte c ++ client.encode after)) := by
        rw [client.encode_append, client.encode_of_carried hcarried, client.encode_cons,
          if_neg hc]
        simp
      have huri : front ++ slash :: seg ++ c :: after ++ rest =
          front ++ slash :: (seg ++ c :: (after ++ rest)) := by simp
      rw [hencode] at hsafe' hresolve
      rw [huri] at hsafe hresolve
      obtain ⟨tail, more, hsegs⟩ := segments_around hseg (by decide : (37 : UInt8) ≠ slash)
        (Numerals.hexByte c ++ client.encode after)
      obtain ⟨tail', more', hsegs'⟩ := segments_around hseg hslash (after ++ rest)
      rw [resolve_eq_filter hsafe', resolve_eq_filter hsafe, segments_join, segments_join,
        List.filter_append, List.filter_append, hsegs, hsegs',
        List.filter_cons_of_pos (by simpa using spelt_around (by decide)),
        List.filter_cons_of_pos (by simpa using spelt_around hdot)] at hresolve
      have hsame := (List.cons.inj (List.append_cancel_left hresolve)).1
      exact hpercent (List.cons.inj (List.append_cancel_left hsame)).1.symm

/-- The card as it is served: at `/sd`, and `readdir` returns names. -/
structure SdCard where
  fs : Fs
  sdRoot_eq : fs.sdRoot = ascii "/sd"
  names : ∀ path names, fs.opendir path = some names → ∀ name ∈ names, PlainName name

/-- What a listing is about: the collection and its children, each with its path and its
name. -/
structure ListedEntry where
  path : List UInt8
  name : List UInt8
  deriving DecidableEq

/-- The name of a collection; the root has none. -/
def collectionName (uri : List UInt8) : List UInt8 := (resolve uri).getLast?.getD []

/-- Whether the request asks for the children as well. -/
def asksChildren (req : Request) : Bool :=
  (jppHttpHeader req (ascii "Depth")).bind List.head? != some 48

/-- The names in the directory. -/
def childNames (fs : Fs) (fullPath : List UInt8) : List (List UInt8) :=
  listed ((fs.opendir fullPath).getD [])

/-- The collection, and the children that can be stat-ed. -/
def listedEntries (fs : Fs) (req : Request) (fullPath : List UInt8) : List ListedEntry :=
  ⟨fullPath, collectionName req.uri⟩ ::
    if asksChildren req then
      ((childNames fs fullPath).filter fun name =>
        (fs.stat (fullPath ++ slash :: name)).isSome).map fun name =>
          ⟨fullPath ++ slash :: name, name⟩
    else []

/-- A response element that a client can use: its href leads to the entry, and its display
name is the entry's. -/
def Shows (fs : Fs) (client : Client) (node : Node) (e : ListedEntry) : Prop :=
  node.named (ascii "D:response") = true ∧
    (∃ href, (node.find [ascii "D:href"]).bind Node.content = some href ∧
      Reaches fs client href e.path) ∧
    (node.find [ascii "D:propstat", ascii "D:prop", ascii "D:displayname"]).bind Node.content =
      some e.name

/-- The body is a well-formed document with one response for each entry, in their order, which
leads to the entry under its name. -/
def ListingExact (fs : Fs) (client : Client) (req : Request) (fullPath : List UInt8) : Prop :=
  ∃ root, readDocument (propfindBody fs req) = some root ∧
    root.named (ascii "D:multistatus") = true ∧
    List.Forall₂ (Shows fs client) root.children (listedEntries fs req fullPath)

/-- A child whose response can be used: a file, whose name has no reference and no tag, can be
carried by a request line, and is short enough for the two buffers. -/
structure PlainChild (fs : Fs) (client : Client) (req : Request) (fullPath name : List UInt8) :
    Prop where
  file : ∃ size, fs.stat (fullPath ++ slash :: name) = some (false, size) ∧
    EntryFits (propfindHref req.uri true ++ name, false, size)
  carried : ∀ c ∈ name, client.carries c = true
  undecoded : 38 ∉ name ∧ 60 ∉ name ∧ ¬ [93, 93, 62] <:+: name
  short : (escaped (propfindHref req.uri true ++ name).dropLast).length + 8 < 260

/-- A listing of the root in which every child that is found, under its path or under what
its buffer holds of it, is plain. -/
structure PlainListing (fs : Fs) (client : Client) (req : Request) (fullPath : List UInt8) :
    Prop where
  root : resolve req.uri = []
  slash_end : (propfindHref req.uri true).getLast? = some slash
  children : asksChildren req = true → ∀ name ∈ childNames fs fullPath,
    (fs.stat (fullPath ++ slash :: name)).isSome = true ∨
      (fs.stat (childPath fullPath name)).isSome = true →
    PlainChild fs client req fullPath name

/-- What a client has of an entry that is shown. -/
def EntryShows (fs : Fs) (client : Client) (entry : List UInt8 × Bool × Nat)
    (e : ListedEntry) : Prop :=
  decodeText (displayOf entry.1) = some e.name ∧ Reaches fs client (shownHref entry.1) e.path

theorem shows_responseNode {fs : Fs} {client : Client} {entry : List UInt8 × Bool × Nat}
    {shown : List UInt8} {e : ListedEntry} :
    Shows fs client (responseNode entry shown) e ↔
      shown = e.name ∧ Reaches fs client (shownHref entry.1) e.path := by
  have hhref : ((responseNode entry shown).find [ascii "D:href"]).bind Node.content =
      some (shownHref entry.1) := content_leafNode hrefTag (shownHref entry.1)
  have hdisplay : ((responseNode entry shown).find
      [ascii "D:propstat", ascii "D:prop", ascii "D:displayname"]).bind Node.content =
      some shown := content_leafNode displaynameTag shown
  have hname : (responseNode entry shown).named (ascii "D:response") = true := by
    simp [responseNode, Node.named, responseTag, Tag.ofName]
  rw [Shows, hhref, hdisplay]
  constructor
  · rintro ⟨-, ⟨href, hsame, hreach⟩, hshown⟩
    obtain rfl := Option.some.inj hsame
    exact ⟨Option.some.inj hshown, hreach⟩
  · rintro ⟨rfl, hreach⟩
    exact ⟨hname, ⟨_, rfl, hreach⟩, rfl⟩

theorem propfindChunks_eq {fs : Fs} {req : Request} {fullPath : List UInt8} {isDir : Bool}
    {size : Nat} (hpath : buildPath fs req.uri = some fullPath)
    (hstat : fs.stat fullPath = some (isDir, size)) :
    propfindChunks fs req = (propfindListing fs req fullPath isDir size).map fun entry =>
      ⟨640, propfindText entry.1 entry.2.1 entry.2.2⟩ := by
  unfold propfindChunks
  simp only [hpath, hstat]

/-- A listing is exact when all its texts fit and are plain, and each of its entries is
shown. -/
theorem listingExact_iff {fs : Fs} {client : Client} {req : Request} {fullPath : List UInt8}
    {size : Nat} (hpath : buildPath fs req.uri = some fullPath)
    (hstat : fs.stat fullPath = some (true, size)) :
    ListingExact fs client req fullPath ↔
      (∀ entry ∈ propfindListing fs req fullPath true size, EntryFits entry ∧ EntryPlain entry) ∧
        List.Forall₂ (EntryShows fs client) (propfindListing fs req fullPath true size)
          (listedEntries fs req fullPath) := by
  have hnamed : ∀ nodes, (Node.element multistatusTag.name multistatusTag.attributes nodes).named
      (ascii "D:multistatus") = true := fun nodes => by simp [Node.named, multistatusTag]
  have hentry : ∀ entry e, (∃ node, (entryDoc entry).decoded = some node ∧
      Shows fs client node e) ↔ EntryShows fs client entry e := by
    intro entry e
    rw [EntryShows, entryDoc_decoded]
    cases decodeText (displayOf entry.1) with
    | none => simp
    | some shown => simp [shows_responseNode]
  have hall : List.Forall₂ (EntryShows fs client) (propfindListing fs req fullPath true size)
      (listedEntries fs req fullPath) ↔
      ∃ nodes, List.Forall₂ (fun entry node => (entryDoc entry).decoded = some node)
        (propfindListing fs req fullPath true size) nodes ∧
        List.Forall₂ (Shows fs client) nodes (listedEntries fs req fullPath) := by
    rw [forall₂_comp]
    simp only [hentry]
  rw [ListingExact, hall]
  simp only [readDocument_body_iff (propfindChunks_eq hpath hstat)]
  constructor
  · rintro ⟨root, ⟨hentries, nodes, rfl, hdecoded⟩, -, hshows⟩
    exact ⟨hentries, nodes, hdecoded, hshows⟩
  · rintro ⟨hentries, nodes, hdecoded, hshows⟩
    exact ⟨_, ⟨hentries, nodes, rfl, hdecoded⟩, hnamed nodes, hshows⟩

/-- The path of the collection with its slash, before it is cut. -/
def wholeHref (uri : List UInt8) : List UInt8 :=
  if uri.getLast? ≠ some slash then uri ++ [slash] else uri

theorem propfindHref_eq (uri : List UInt8) :
    propfindHref uri true = (wholeHref uri).take 279 := by
  rw [propfindHref, wholeHref]
  by_cases hslash : uri.getLast? = some slash
  · rw [if_neg (fun h => h.2 hslash), if_neg (not_not.mpr hslash)]
  · rw [if_pos ⟨rfl, hslash⟩, if_pos hslash]
    rfl

theorem weight_wholeHref (uri : List UInt8) : weight (wholeHref uri) = weight uri := by
  rw [wholeHref]
  split
  · rw [weight_join]
    rfl
  · rfl

theorem resolve_wholeHref (uri : List UInt8) : resolve (wholeHref uri) = resolve uri := by
  rw [wholeHref]
  split
  · exact resolve_slash uri
  · rfl

theorem parent_not_mem_wholeHref {uri : List UInt8} (h : parent ∉ segments uri) :
    parent ∉ segments (wholeHref uri) := by
  rw [wholeHref]
  split
  · rw [segments_join, List.mem_append, not_or]
    exact ⟨h, by decide⟩
  · exact h

theorem getLast?_wholeHref (uri : List UInt8) : (wholeHref uri).getLast? = some slash := by
  rw [wholeHref]
  split
  · exact List.getLast?_concat
  · rename_i h
    exact not_not.mp h

/-- What is shown of a path is at most 252 bytes of it. -/
theorem shownHref_beginning (href : List UInt8) :
    shownHref href <+: href ∧ (shownHref href).length ≤ 252 :=
  ⟨shownPart_beginning 260 href 0, by
    have hlen := length_shownPart 260 href 0 (by decide)
    rw [shownHref]
    omega⟩

theorem shownHref_ne_nil {href : List UInt8} (h : href ≠ []) : shownHref href ≠ [] := by
  cases href with
  | nil => exact absurd rfl h
  | cons c rest =>
      rw [shownHref, shownPart, if_pos (by decide)]
      exact List.cons_ne_nil _ _

theorem spelt_of_mem_resolve {path : List UInt8} (h : parent ∉ segments path) {seg : Segment}
    (hseg : seg ∈ resolve path) : Spelt seg := by
  rw [resolve_eq_filter h] at hseg
  simpa using (List.mem_filter.mp hseg).2

/-- The name of a collection is that of an entry, if it has one. -/
theorem collectionName_cases {uri : List UInt8} (h : parent ∉ segments uri) :
    resolve uri = [] ∧ collectionName uri = [] ∨ Spelt (collectionName uri) := by
  rw [collectionName]
  cases hlast : (resolve uri).getLast? with
  | none => exact .inl ⟨List.getLast?_eq_none_iff.mp hlast, rfl⟩
  | some seg => exact .inr (spelt_of_mem_resolve h (List.mem_of_getLast? hlast))

/-- A collection that is shown under its name, and to which its path leads, is the root. -/
theorem root_of_entryShows {fs : Fs} {client : Client} {uri fullPath : List UInt8} {size : Nat}
    (hpath : buildPath fs uri = some fullPath)
    (h : EntryShows fs client (propfindHref uri true, true, size)
      ⟨fullPath, collectionName uri⟩) :
    resolve uri = [] ∧ (propfindHref uri true).getLast? = some slash := by
  have haccepted : Accepted fs uri := buildPath_isSome_iff.mp (by rw [hpath]; rfl)
  obtain ⟨hhead, hsafe, -⟩ := haccepted
  obtain ⟨hdisplay, hreach⟩ := h
  simp only at hdisplay hreach
  obtain ⟨tail, hwhole⟩ : ∃ tail, wholeHref uri = slash :: tail := by
    cases uri with
    | nil => cases hhead
    | cons c rest =>
        obtain rfl := Option.some.inj hhead
        rw [wholeHref]
        split
        · exact ⟨rest ++ [slash], rfl⟩
        · exact ⟨rest, rfl⟩
  have hcut : propfindHref uri true <+: wholeHref uri := by
    rw [propfindHref_eq]
    exact List.take_prefix 279 _
  have hne : propfindHref uri true ≠ [] := by
    rw [propfindHref_eq, hwhole]
    exact List.cons_ne_nil _ _
  obtain ⟨front, display, hself, hslash⟩ : ∃ front display,
      propfindHref uri true = front ++ slash :: display ∧ slash ∉ display := by
    rcases exists_last_segment (propfindHref uri true) with hno | h
    · rw [propfindHref_eq, hwhole] at hno
      exact absurd List.mem_cons_self hno
    · exact h
  rw [hself, displayOf_append hslash] at hdisplay
  by_cases hnil : display = []
  · rw [hnil] at hdisplay
    have hroot : collectionName uri = [] := (Option.some.inj hdisplay).symm
    refine ⟨?_, by rw [hself, hnil]; exact List.getLast?_concat⟩
    rcases collectionName_cases hsafe with h | h
    · exact h.1
    · exact absurd hroot h.1
  · exfalso
    -- the path is cut within a name, which is then lost to the client
    have hspelt : Spelt display := by
      refine ⟨hnil, fun hdot => ?_⟩
      have hname : collectionName uri = [dot] := by
        rw [hdot, Bare.decodeText (by decide)] at hdisplay
        exact (Option.some.inj hdisplay).symm
      rcases collectionName_cases hsafe with h | h
      · rw [h.2] at hname
        cases hname
      · exact h.2 hname
    have hlen : (propfindHref uri true).length = 279 := by
      have hshort : (wholeHref uri).length ≥ 279 := by
        by_contra hlt
        rw [propfindHref_eq, List.take_of_length_le (by omega)] at hself
        have hlast := getLast?_wholeHref uri
        rw [hself, List.getLast?_append_of_ne_nil _ (List.cons_ne_nil _ _),
          List.getLast?_cons_of_ne_nil hnil] at hlast
        exact hslash (List.mem_of_getLast? hlast)
      rw [propfindHref_eq, List.length_take]
      omega
    have hroot : resolve fullPath = resolve fs.sdRoot ++ resolve uri := resolve_of_buildPath hpath
    obtain ⟨haccepted', hresolve⟩ := (reaches_iff (shownHref_ne_nil hne) hroot).mp hreach
    obtain ⟨hshown, hshownLen⟩ := shownHref_beginning (propfindHref uri true)
    have hcarried := carried_of_resolve (hshown.trans hcut) (by rw [hwhole]; rfl)
      (parent_not_mem_wholeHref hsafe) haccepted'.2.1 (by rw [hresolve, resolve_wholeHref])
    rw [client.encode_of_carried hcarried] at haccepted' hresolve
    have hsame : weight (shownHref (propfindHref uri true)) = weight uri := by
      rw [weight_of_resolve haccepted'.2.1, hresolve, weight_of_resolve hsafe]
    have hdrop : (propfindHref uri true).dropLast = front ++ slash :: display.dropLast := by
      rw [hself, List.dropLast_append_of_ne_nil (List.cons_ne_nil _ _),
        List.dropLast_cons_of_ne_nil hnil]
    have hfront : shownHref (propfindHref uri true) <+: front ++ slash :: display.dropLast := by
      rw [← hdrop]
      refine List.prefix_of_prefix_length_le hshown (List.dropLast_prefix _) ?_
      rw [List.length_dropLast]
      omega
    have hless := weight_mono hfront
    have hmore := weight_mono hcut
    have hnoslash : slash ∉ display.dropLast := fun h => hslash
      ((List.dropLast_prefix display).subset h)
    rw [weight_wholeHref, hself, weight_join, weight_name hslash, if_pos hspelt] at hmore
    rw [hsame, weight_join, weight_name hnoslash] at hless
    have hpos := List.length_pos_of_ne_nil hnil
    rw [List.length_dropLast] at hless
    split_ifs at hless
    · omega
    · omega

/-- The entry of a child, where `stat` finds it. -/
def childEntry (fs : Fs) (fullPath selfHref name : List UInt8) : List UInt8 × Bool × Nat :=
  let found := (fs.stat (childPath fullPath name)).getD (false, 0)
  ((selfHref ++ (if selfHref.getLast? = some 47 then [] else ascii "/") ++ name ++
    if found.1 then ascii "/" else []).take 279, found)

theorem propfindEntries_eq (fs : Fs) (fullPath selfHref : List UInt8) :
    propfindEntries fs fullPath selfHref =
      ((childNames fs fullPath).filter fun name =>
        (fs.stat (childPath fullPath name)).isSome).map (childEntry fs fullPath selfHref) := by
  rw [propfindEntries, childNames]
  induction listed ((fs.opendir fullPath).getD []) with
  | nil => rfl
  | cons name names ih =>
      have hpath : (fullPath ++ ascii "/" ++ name).take 299 = childPath fullPath name := by
        rw [childPath, List.append_assoc]
        rfl
      rw [List.filterMap_cons, ih]
      simp only [hpath]
      cases hstat : fs.stat (childPath fullPath name) with
      | none => rw [List.filter_cons_of_neg (by simp [hstat])]; rfl
      | some found =>
          rw [List.filter_cons_of_pos (by simp [hstat]), List.map_cons, childEntry, hstat]
          rfl

theorem isName_of_childNames {card : SdCard} {fullPath name : List UInt8}
    (h : name ∈ childNames card.fs fullPath) : IsName name := by
  obtain ⟨hmem, hdots⟩ := List.mem_filter.mp h
  cases hdir : card.fs.opendir fullPath with
  | none =>
      rw [hdir] at hmem
      exact absurd hmem List.not_mem_nil
  | some names =>
      rw [hdir] at hmem
      obtain ⟨hne, hslash⟩ := card.names fullPath names hdir name hmem
      have hdots' : name ≠ ascii "." ∧ name ≠ ascii ".." := by simpa using hdots
      exact ⟨hne, hdots'.1, hdots'.2, hslash⟩

theorem childPath_of_fits {path name : List UInt8} (h : path.length + name.length < 299) :
    childPath path name = path ++ slash :: name := by
  rw [childPath, List.take_of_length_le]
  rw [List.length_append, List.length_cons, fullPathMax]
  omega

/-- The href of a child of the root behind the collection's. -/
theorem childEntry_href {fs : Fs} {fullPath name : List UInt8} (front : List UInt8)
    (found : Bool × Nat) (hfound : fs.stat (childPath fullPath name) = some found) :
    childEntry fs fullPath (front ++ [slash]) name =
      ((front ++ slash :: (name ++ if found.1 then [slash] else [])).take 279, found) := by
  have hlast : (front ++ [slash]).getLast? = some 47 := List.getLast?_concat
  rw [childEntry, hfound, Option.getD_some, if_pos hlast]
  simp [slash, ascii]

theorem length_displayOf_le (front rest : List UInt8) :
    (displayOf (front ++ slash :: rest)).length ≤ rest.length := by
  rcases exists_last_segment rest with h | ⟨mid, seg, rfl, hseg⟩
  · rw [displayOf_append h]
  · rw [← List.cons_append, ← List.append_assoc, displayOf_append hseg, List.length_append,
      List.length_cons]
    omega

/-- A name that is shown fits behind the collection's path. -/
theorem length_of_entryShows {fs : Fs} {client : Client} {fullPath front name : List UInt8}
    {found : Bool × Nat} {e : ListedEntry} (hfront : front.length < 279)
    (hfound : fs.stat (childPath fullPath name) = some found)
    (h : EntryShows fs client (childEntry fs fullPath (front ++ [slash]) name) e) :
    front.length + 1 + e.name.length ≤ 279 := by
  obtain ⟨hdisplay, -⟩ := h
  rw [childEntry_href front found hfound] at hdisplay
  obtain ⟨room, hroom⟩ : ∃ room, 279 - front.length = room + 1 := ⟨278 - front.length, by omega⟩
  rw [List.take_append, List.take_of_length_le (by omega), hroom, List.take_succ_cons] at hdisplay
  have hdecoded : e.name.length ≤ _ := length_decodeText_le hdisplay
  have hlen := length_displayOf_le front
    ((name ++ if found.1 then [slash] else []).take room)
  have htake := List.length_take_le room (name ++ if found.1 then [slash] else [])
  simp only at hdecoded
  omega

/-- A child of the root that is shown under its name, and to which its path leads. -/
theorem plain_of_entryShows {fs : Fs} {client : Client} {fullPath front name : List UInt8}
    {found : Bool × Nat} (hfront : weight front = 0) (hname : IsName name)
    (hroot : resolve fullPath = resolve fs.sdRoot)
    (hfound : fs.stat (childPath fullPath name) = some found)
    (h : EntryShows fs client (childEntry fs fullPath (front ++ [slash]) name)
      ⟨fullPath ++ slash :: name, name⟩) :
    found.1 = false ∧
      childEntry fs fullPath (front ++ [slash]) name = (front ++ slash :: name, found) ∧
      (∀ c ∈ name, client.carries c = true) ∧ 38 ∉ name ∧ ¬ [93, 93, 62] <:+: name ∧
      (escaped (front ++ slash :: name).dropLast).length + 8 < 260 := by
  have hentry := childEntry_href front found hfound
  generalize hsuffix : (if found.1 then [slash] else []) = suffix at hentry
  have hshape : suffix = [] ∨ suffix = [slash] := by
    rw [← hsuffix]
    split
    · exact .inr rfl
    · exact .inl rfl
  rw [hentry] at h ⊢
  obtain ⟨hdisplay, hreach⟩ := h
  simp only at hdisplay hreach
  generalize hhref : (front ++ slash :: (name ++ suffix)).take 279 = href at hdisplay hreach ⊢
  have hcut : href <+: front ++ slash :: (name ++ suffix) := hhref ▸ List.take_prefix 279 _
  have hne : href ≠ [] := by
    rw [← hhref]
    cases front with
    | nil => exact List.cons_ne_nil _ _
    | cons c rest => exact List.cons_ne_nil _ _
  have hpath : resolve (fullPath ++ slash :: name) = resolve fs.sdRoot ++ [name] := by
    rw [resolve_join_name fullPath hname, hroot]
  obtain ⟨haccepted, hresolve⟩ := (reaches_iff (shownHref_ne_nil hne) hpath).mp hreach
  obtain ⟨hshown, hlen⟩ := shownHref_beginning href
  obtain ⟨hwhole, hcarried⟩ := resolve_encode_child hfront hname hshape (hshown.trans hcut)
    haccepted.2.1 hresolve
  -- the client reads all of the name, so nothing of the path is cut
  have hfits := hwhole.length_le
  rw [List.length_append, List.length_cons] at hfits
  have huncut : href = front ++ slash :: (name ++ suffix) := by
    rw [← hhref, List.take_of_length_le]
    rcases hshape with rfl | rfl
    · simp
      omega
    · simp
      omega
  have hfile : found.1 = false := by
    by_contra hdir
    rw [if_pos (by simpa using hdir)] at hsuffix
    have hsplit : href = (front ++ slash :: name) ++ slash :: [] := by
      rw [huncut, ← hsuffix]
      simp
    rw [hsplit, displayOf_append List.not_mem_nil] at hdisplay
    exact hname.1 (Option.some.inj hdisplay).symm
  rw [if_neg (by simp [hfile])] at hsuffix
  rw [← hsuffix, List.append_nil] at huncut
  subst huncut
  rw [displayOf_append hname.2.2.2] at hdisplay
  obtain ⟨hamp, hend⟩ := (decodeText_self_iff name).mp hdisplay
  have hall : shownHref (front ++ slash :: name) = front ++ slash :: name :=
    hshown.eq_of_length (Nat.le_antisymm hshown.length_le hwhole.length_le)
  have hroom := ((shownPart_eq_iff 260 _ 0).mp hall).resolve_left (by simp)
  exact ⟨hfile, rfl, hcarried, hamp, hend, by omega⟩

/-- The URI of the root, and the path that is shown for it. -/
structure RootHref (uri front : List UInt8) : Prop where
  shown : propfindHref uri true = front ++ [slash]
  weight_front : weight front = 0
  head : (front ++ [slash]).head? = some slash
  uncut : front.length < 278 → uri.length ≤ front.length + 1

theorem rootHref_of_resolve {fs : Fs} {uri : List UInt8} (haccepted : Accepted fs uri)
    (hroot : resolve uri = []) (hend : (propfindHref uri true).getLast? = some slash) :
    ∃ front, RootHref uri front := by
  have hshown := List.dropLast_append_getLast? slash hend
  have hcut : propfindHref uri true <+: wholeHref uri := by
    rw [propfindHref_eq]
    exact List.take_prefix 279 _
  have huri : uri <+: wholeHref uri := by
    rw [wholeHref]
    split
    · exact List.prefix_append uri _
    · exact List.prefix_refl uri
  refine ⟨(propfindHref uri true).dropLast, hshown.symm, Nat.le_zero.mp ?_, ?_, fun hshort => ?_⟩
  · have hzero := (resolve_eq_nil_iff haccepted).mp hroot
    rw [weight_wholeHref uri |>.symm] at hzero
    exact hzero ▸ weight_mono ((List.dropLast_prefix _).trans hcut)
  · have hne : propfindHref uri true ≠ [] := fun hnil => by
      rw [hnil] at hend
      cases hend
    have hhead : uri.head? = (wholeHref uri).head? := by
      obtain ⟨rest, hrest⟩ := huri
      cases uri with
      | nil => cases haccepted.1
      | cons c more => rw [← hrest]; rfl
    rw [hshown, ← haccepted.1, hhead]
    obtain ⟨rest, hrest⟩ := hcut
    rw [← hrest, List.head?_append_of_ne_nil _ hne]
  · have hlen := congrArg List.length (propfindHref_eq uri)
    have hpos := congrArg List.length hshown
    rw [List.length_append, List.length_singleton] at hpos
    rw [List.length_take] at hlen
    have hle := huri.length_le
    omega

/-- Behind the root's path, a name that is shown leaves the path of the child whole. -/
theorem RootHref.childPath_eq {fs : Fs} {uri front fullPath name : List UInt8}
    (h : RootHref uri front) (hsd : fs.sdRoot = ascii "/sd")
    (hpath : buildPath fs uri = some fullPath) (hname : name ≠ [])
    (hshort : front.length + 1 + name.length ≤ 279) :
    childPath fullPath name = fullPath ++ slash :: name := by
  have hpos := List.length_pos_of_ne_nil hname
  have huri := h.uncut (by omega)
  have hfull : fullPath.length ≤ 3 + uri.length := by
    have hwhole : (fs.sdRoot ++ uri).length = 3 + uri.length := by
      rw [List.length_append, hsd]
      rfl
    rcases (buildPath_below hpath).1 with heq | heq
    · rw [heq, hwhole]
    · rw [← hwhole, ← heq, List.length_append]
      omega
  exact childPath_of_fits (by omega)

/-- The children that are shown are those that are found. -/
theorem found_of_shown {card : SdCard} {client : Client} {uri front fullPath : List UInt8}
    (h : RootHref uri front) (hpath : buildPath card.fs uri = some fullPath)
    (hchildren : List.Forall₂ (EntryShows card.fs client)
      (((childNames card.fs fullPath).filter fun name =>
        (card.fs.stat (childPath fullPath name)).isSome).map
          (childEntry card.fs fullPath (front ++ [slash])))
      (((childNames card.fs fullPath).filter fun name =>
        (card.fs.stat (fullPath ++ slash :: name)).isSome).map fun name =>
          ⟨fullPath ++ slash :: name, name⟩)) :
    ((childNames card.fs fullPath).filter fun name =>
        (card.fs.stat (childPath fullPath name)).isSome) =
      (childNames card.fs fullPath).filter fun name =>
        (card.fs.stat (fullPath ++ slash :: name)).isSome := by
  generalize hshown : ((childNames card.fs fullPath).filter fun name =>
    (card.fs.stat (childPath fullPath name)).isSome) = shown at hchildren ⊢
  generalize hlisted : ((childNames card.fs fullPath).filter fun name =>
    (card.fs.stat (fullPath ++ slash :: name)).isSome) = found at hchildren ⊢
  rw [List.forall₂_map_left_iff, List.forall₂_map_right_iff] at hchildren
  -- every name that is found is short, so that its path is not cut
  have hpaths : ∀ name ∈ found, childPath fullPath name = fullPath ++ slash :: name := by
    intro name hname
    obtain ⟨other, hother, hshows⟩ := exists_of_forall₂ hchildren hname
    obtain ⟨hmem, hsome⟩ := List.mem_filter.mp (hshown ▸ hother)
    obtain ⟨what, hwhat⟩ := Option.isSome_iff_exists.mp hsome
    have hnames := isName_of_childNames (List.mem_filter.mp (hlisted ▸ hname)).1
    have hfront : front.length < 279 := by
      have hlen := congrArg List.length (propfindHref_eq uri)
      rw [h.shown, List.length_append, List.length_singleton, List.length_take] at hlen
      omega
    exact h.childPath_eq card.sdRoot_eq hpath hnames.1 (length_of_entryShows hfront hwhat hshows)
  have hsub : List.Sublist found shown := by
    have hinside : found.filter (fun name => (card.fs.stat (childPath fullPath name)).isSome) =
        found := by
      refine List.filter_eq_self.mpr fun name hname => ?_
      rw [hpaths name hname]
      rw [← hlisted] at hname
      exact (List.mem_filter.mp hname).2
    rw [← hinside, ← hlisted, List.filter_comm, hshown]
    exact List.filter_sublist
  exact (hsub.eq_of_length hchildren.length_eq.symm).symm

/-- What is escaped can be printed if it could be before. -/
theorem plainText_escaped {chars : List UInt8} (h : ∀ c ∈ chars, isChar c = true) :
    PlainText (escaped chars) := by
  refine fun c hc => ⟨?_, fun heq => (bracket_not_mem_escaped chars).1 (heq ▸ hc)⟩
  obtain ⟨b, hb, hbyte⟩ := List.mem_flatMap.mp hc
  unfold escapeByte at hbyte
  split_ifs at hbyte
  · exact List.all_eq_true.mp (by decide : (ascii "&amp;").all isChar = true) c hbyte
  · exact List.all_eq_true.mp (by decide : (ascii "&lt;").all isChar = true) c hbyte
  · exact List.all_eq_true.mp (by decide : (ascii "&gt;").all isChar = true) c hbyte
  · exact List.all_eq_true.mp (by decide : (ascii "&quot;").all isChar = true) c hbyte
  · rw [List.mem_singleton.mp hbyte]
    exact h b hb

theorem isChar_of_carried {client : Client} {c : UInt8} (h : client.carries c = true) :
    isChar c = true := by
  have hvisible := client.visible c h
  simp only [isChar, Bool.or_eq_true, decide_eq_true_eq, beq_iff_eq, UInt8.le_iff_toNat_le,
    UInt8.reduceToNat]
  omega

theorem RootHref.reaches {fs : Fs} {client : Client} {uri front fullPath : List UInt8}
    (h : RootHref uri front) (hsd : fs.sdRoot = ascii "/sd") (hroot : resolve uri = [])
    (hpath : buildPath fs uri = some fullPath) :
    Reaches fs client (shownHref (front ++ [slash])) fullPath := by
  have hne : front ++ [slash] ≠ [] := by simp
  obtain ⟨hshown, hlen⟩ := shownHref_beginning (front ++ [slash])
  have hweight : weight (shownHref (front ++ [slash])) = 0 := by
    refine Nat.le_zero.mp ((weight_mono hshown).trans_eq ?_)
    rw [weight_join, h.weight_front]
    rfl
  have hhead : (shownHref (front ++ [slash])).head? = some slash := by
    obtain ⟨rest, hrest⟩ := hshown
    rw [← h.head, ← List.head?_append_of_ne_nil _ (shownHref_ne_nil hne), hrest]
  refine (reaches_iff (shownHref_ne_nil hne) (resolve_of_buildPath hpath)).mpr ?_
  rw [encode_of_weight client hweight, hroot]
  refine ⟨⟨hhead, parent_not_mem_of_weight hweight, ?_⟩, resolve_of_weight hweight⟩
  have hsdLen : fs.sdRoot.length = 3 := by rw [hsd]; rfl
  rw [fullPathMax]
  omega

/-- The path that is shown for a plain child leads to it. -/
theorem RootHref.reaches_child {fs : Fs} {client : Client} {uri front fullPath name : List UInt8}
    (h : RootHref uri front) (hsd : fs.sdRoot = ascii "/sd") (hname : IsName name)
    (hroot : resolve uri = []) (hpath : buildPath fs uri = some fullPath)
    (hcarried : ∀ c ∈ name, client.carries c = true)
    (hshort : (front ++ slash :: name).length ≤ 253) :
    Reaches fs client (front ++ slash :: name) (fullPath ++ slash :: name) := by
  have hne : front ++ slash :: name ≠ [] := by simp
  have hsplit : front ++ slash :: name = (front ++ [slash]) ++ name := by simp
  have hencode : client.encode (front ++ slash :: name) = front ++ slash :: name := by
    refine client.encode_of_carried fun c hc => ?_
    rcases List.mem_append.mp hc with hc | hc
    · exact carried_of_weight client h.weight_front c hc
    · rcases List.mem_cons.mp hc with rfl | hc
      · exact client.path.1
      · exact hcarried c hc
  have hparent : parent ∉ segments (front ++ slash :: name) := by
    rw [segments_join, segments_name hname.2.2.2, List.mem_append, not_or]
    exact ⟨parent_not_mem_of_weight h.weight_front, fun hmem =>
      hname.2.2.1 (List.mem_singleton.mp hmem).symm⟩
  have hsdLen : fs.sdRoot.length = 3 := by rw [hsd]; rfl
  have hleads : resolve (fullPath ++ slash :: name) = resolve fs.sdRoot ++ [name] := by
    rw [resolve_join_name fullPath hname, resolve_of_buildPath hpath, hroot, List.append_nil]
  rw [reaches_iff hne hleads, hencode]
  refine ⟨⟨?_, hparent, ?_⟩, ?_⟩
  · rw [hsplit, List.head?_append_of_ne_nil _ (by simp), h.head]
  · rw [fullPathMax]
    omega
  · rw [resolve_join_name front hname, resolve_of_weight h.weight_front, List.nil_append]

theorem RootHref.entry {uri front : List UInt8} (h : RootHref uri front) (size : Nat) :
    EntryFits (front ++ [slash], true, size) ∧ EntryPlain (front ++ [slash], true, size) := by
  obtain ⟨hshown, hlen⟩ := shownHref_beginning (front ++ [slash])
  have hdisplay : displayOf (front ++ [slash]) = [] := displayOf_append List.not_mem_nil front
  have hweight : weight (front ++ [slash]) = 0 := by
    rw [weight_join, h.weight_front]
    rfl
  have hchars : ∀ c ∈ shownHref (front ++ [slash]), c = slash ∨ c = dot := fun c hc =>
    slash_or_dot_of_weight hweight c (hshown.subset hc)
  have hescaped : escaped (shownHref (front ++ [slash])) = shownHref (front ++ [slash]) := by
    generalize shownHref (front ++ [slash]) = text at hchars
    induction text with
    | nil => rfl
    | cons c text ih =>
        obtain ⟨hc, hrest⟩ := List.forall_mem_cons.mp hchars
        rw [escaped_cons, ih hrest]
        rcases hc with rfl | rfl
        · rfl
        · rfl
  constructor
  · have hlast : (afterLast 47 (front ++ [slash])).getD (front ++ [slash]) = [] := hdisplay
    rw [EntryFits]
    simp only [hlast, xmlEscape_href, hescaped, List.length_nil, if_true]
    omega
  · refine ⟨plainText_escaped fun c hc => ?_, ?_⟩
    · rcases hchars c hc with rfl | rfl
      · rfl
      · rfl
    · rw [hdisplay]
      exact fun c hc => absurd hc List.not_mem_nil

theorem childEntry_of_plain {fs : Fs} {fullPath front name : List UInt8} {size : Nat}
    (hfound : fs.stat (childPath fullPath name) = some (false, size))
    (hshort : (front ++ slash :: name).length ≤ 279) :
    childEntry fs fullPath (front ++ [slash]) name = (front ++ slash :: name, false, size) := by
  rw [childEntry_href front (false, size) hfound, if_neg Bool.false_ne_true, List.append_nil,
    List.take_of_length_le hshort]

theorem length_le_escaped (chars : List UInt8) : chars.length ≤ (escaped chars).length := by
  induction chars with
  | nil => exact Nat.le_refl 0
  | cons b chars ih =>
      have hbyte := escapeByte_length_pos b
      rw [escaped_cons, List.length_append, List.length_cons]
      omega

theorem PlainChild.length_le {fs : Fs} {client : Client} {req : Request}
    {fullPath front name : List UInt8} (h : PlainChild fs client req fullPath name)
    (hroot : RootHref req.uri front) : (front ++ slash :: name).length ≤ 252 := by
  have hshort := h.short
  have hle := length_le_escaped (propfindHref req.uri true ++ name).dropLast
  rw [List.length_dropLast, hroot.shown] at hle
  rw [hroot.shown] at hshort
  simp only [List.length_append, List.length_cons, List.length_nil] at hle ⊢
  omega

/-- The children of the root, as they are found and as they are listed. -/
def foundNames (fs : Fs) (fullPath : List UInt8) : List (List UInt8) :=
  (childNames fs fullPath).filter fun name => (fs.stat (fullPath ++ slash :: name)).isSome

/-- If the children of the root are shown, they are plain. -/
theorem plain_of_shown {card : SdCard} {client : Client} {req : Request}
    {front fullPath : List UInt8} (hroot : RootHref req.uri front)
    (hresolve : resolve req.uri = []) (hpath : buildPath card.fs req.uri = some fullPath)
    (hentries : ∀ entry ∈ propfindEntries card.fs fullPath (front ++ [slash]),
      EntryFits entry ∧ EntryPlain entry)
    (hchildren : List.Forall₂ (EntryShows card.fs client)
      (propfindEntries card.fs fullPath (front ++ [slash]))
      ((foundNames card.fs fullPath).map fun name => ⟨fullPath ++ slash :: name, name⟩))
    {name : List UInt8} (hname : name ∈ childNames card.fs fullPath)
    (hfound : (card.fs.stat (fullPath ++ slash :: name)).isSome = true ∨
      (card.fs.stat (childPath fullPath name)).isSome = true) :
    PlainChild card.fs client req fullPath name := by
  rw [propfindEntries_eq] at hentries hchildren
  have hsame := found_of_shown hroot hpath hchildren
  rw [foundNames, ← hsame, List.forall₂_map_left_iff, List.forall₂_map_right_iff,
    List.forall₂_same] at hchildren
  have hmem : name ∈ (childNames card.fs fullPath).filter fun name =>
      (card.fs.stat (childPath fullPath name)).isSome := by
    rcases hfound with h | h
    · rw [hsame]
      exact List.mem_filter.mpr ⟨hname, h⟩
    · exact List.mem_filter.mpr ⟨hname, h⟩
  obtain ⟨what, hwhat⟩ := Option.isSome_iff_exists.mp (List.mem_filter.mp hmem).2
  have hisName := isName_of_childNames hname
  have hleads : resolve fullPath = resolve card.fs.sdRoot := by
    rw [resolve_of_buildPath hpath, hresolve, List.append_nil]
  obtain ⟨hfile, hentry, hcarried, hamp, hend, hshort⟩ := plain_of_entryShows hroot.weight_front
    hisName hleads hwhat (hchildren name hmem)
  obtain ⟨hfits, -, hdisplay⟩ := hentries _ (List.mem_map_of_mem hmem)
  rw [hentry] at hfits hdisplay
  simp only at hdisplay
  rw [displayOf_append hisName.2.2.2] at hdisplay
  obtain ⟨isDir, size⟩ := what
  simp only at hfile
  subst hfile
  have hlen := length_le_escaped (front ++ slash :: name).dropLast
  rw [List.length_dropLast, List.length_append, List.length_cons] at hlen
  have hwhole := hroot.childPath_eq card.sdRoot_eq hpath hisName.1 (by omega)
  have hsplit : propfindHref req.uri true ++ name = front ++ slash :: name := by
    rw [hroot.shown, List.append_assoc, List.singleton_append]
  refine ⟨⟨size, hwhole ▸ hwhat, ?_⟩, hcarried, ⟨hamp, fun hlt => ?_, hend⟩, ?_⟩
  · rwa [hsplit]
  · exact (hdisplay 60 hlt).2 rfl
  · rwa [hsplit]

theorem shown_of_plain {card : SdCard} {client : Client} {req : Request}
    {front fullPath : List UInt8} (hroot : RootHref req.uri front)
    (hresolve : resolve req.uri = []) (hpath : buildPath card.fs req.uri = some fullPath)
    (hplain : ∀ name ∈ childNames card.fs fullPath,
      (card.fs.stat (fullPath ++ slash :: name)).isSome = true ∨
        (card.fs.stat (childPath fullPath name)).isSome = true →
      PlainChild card.fs client req fullPath name) :
    (∀ entry ∈ propfindEntries card.fs fullPath (front ++ [slash]),
      EntryFits entry ∧ EntryPlain entry) ∧
    List.Forall₂ (EntryShows card.fs client)
      (propfindEntries card.fs fullPath (front ++ [slash]))
      ((foundNames card.fs fullPath).map fun name => ⟨fullPath ++ slash :: name, name⟩) := by
  have hwhole : ∀ name ∈ childNames card.fs fullPath,
      PlainChild card.fs client req fullPath name →
      childPath fullPath name = fullPath ++ slash :: name := by
    intro name hname h
    have hlen := h.length_le hroot
    rw [List.length_append, List.length_cons] at hlen
    exact hroot.childPath_eq card.sdRoot_eq hpath (isName_of_childNames hname).1 (by omega)
  have hsame : foundNames card.fs fullPath = (childNames card.fs fullPath).filter fun name =>
      (card.fs.stat (childPath fullPath name)).isSome := by
    refine List.filter_congr fun name hname => ?_
    rw [Bool.eq_iff_iff]
    refine ⟨fun h => ?_, fun h => ?_⟩
    · rwa [hwhole name hname (hplain name hname (.inl h))]
    · rwa [← hwhole name hname (hplain name hname (.inr h))]
  -- what is listed, name by name
  have hentry : ∀ name ∈ foundNames card.fs fullPath,
      PlainChild card.fs client req fullPath name ∧ IsName name ∧
        ∃ size, childEntry card.fs fullPath (front ++ [slash]) name =
            (front ++ slash :: name, false, size) ∧
          EntryFits (front ++ slash :: name, false, size) := by
    intro name hmem
    obtain ⟨hname, hsome⟩ := List.mem_filter.mp hmem
    have h := hplain name hname (.inl hsome)
    obtain ⟨size, hstat, hfits⟩ := h.file
    rw [hroot.shown, List.append_assoc, List.singleton_append] at hfits
    rw [← hwhole name hname h] at hstat
    have hlen := h.length_le hroot
    exact ⟨h, isName_of_childNames hname, size, childEntry_of_plain hstat (by omega), hfits⟩
  have hcarried : ∀ name ∈ foundNames card.fs fullPath, ∀ c ∈ front ++ slash :: name,
      client.carries c = true := by
    intro name hmem c hc
    rcases List.mem_append.mp hc with hc | hc
    · exact carried_of_weight client hroot.weight_front c hc
    · rcases List.mem_cons.mp hc with rfl | hc
      · exact client.path.1
      · exact (hentry name hmem).1.carried c hc
  rw [propfindEntries_eq, ← hsame]
  constructor
  · intro entry hmem
    obtain ⟨name, hname, rfl⟩ := List.mem_map.mp hmem
    obtain ⟨h, hisName, size, heq, hfits⟩ := hentry name hname
    rw [heq]
    refine ⟨hfits, plainText_escaped fun c hc => ?_, fun c hc => ?_⟩
    · exact isChar_of_carried (hcarried name hname c ((shownHref_beginning _).1.subset hc))
    · rw [displayOf_append hisName.2.2.2] at hc
      exact ⟨isChar_of_carried (h.carried c hc), fun heq60 => h.undecoded.2.1 (heq60 ▸ hc)⟩
  · rw [List.forall₂_map_left_iff, List.forall₂_map_right_iff, List.forall₂_same]
    intro name hname
    obtain ⟨h, hisName, size, heq, -⟩ := hentry name hname
    have hlen := h.length_le hroot
    have hshort := h.short
    rw [hroot.shown, List.append_assoc, List.singleton_append] at hshort
    have hall : shownHref (front ++ slash :: name) = front ++ slash :: name :=
      (shownPart_eq_iff 260 _ 0).mpr (.inr (by omega))
    rw [heq]
    refine ⟨?_, ?_⟩
    · rw [displayOf_append hisName.2.2.2]
      exact (decodeText_self_iff name).mpr ⟨h.undecoded.1, h.undecoded.2.2⟩
    · rw [hall]
      exact hroot.reaches_child card.sdRoot_eq hisName hresolve hpath h.carried (by omega)

/-- Exactly when a listing is well formed, complete and addressable. -/
theorem multistatus_iff (card : SdCard) (client : Client) {req : Request} {fullPath : List UInt8}
    {size : Nat} (hpath : buildPath card.fs req.uri = some fullPath)
    (hstat : card.fs.stat fullPath = some (true, size)) :
    ListingExact card.fs client req fullPath ↔ PlainListing card.fs client req fullPath := by
  have haccepted : Accepted card.fs req.uri := buildPath_isSome_iff.mp (by rw [hpath]; rfl)
  have hlisting : propfindListing card.fs req fullPath true size =
      (propfindHref req.uri true, true, size) ::
        if asksChildren req then
          propfindEntries card.fs fullPath (propfindHref req.uri true) else [] := by
    rw [propfindListing, asksChildren, Bool.and_true]
  rw [listingExact_iff hpath hstat, hlisting, listedEntries, List.forall_mem_cons,
    List.forall₂_cons]
  constructor
  · rintro ⟨⟨-, hentries⟩, hself, hshows⟩
    obtain ⟨hresolve, hend⟩ := root_of_entryShows hpath hself
    obtain ⟨front, hroot⟩ := rootHref_of_resolve haccepted hresolve hend
    refine ⟨hresolve, hend, fun hasks name hname hfound => ?_⟩
    rw [if_pos hasks, hroot.shown] at hentries
    rw [if_pos hasks, if_pos hasks, hroot.shown] at hshows
    exact plain_of_shown hroot hresolve hpath hentries hshows hname hfound
  · intro h
    obtain ⟨front, hroot⟩ := rootHref_of_resolve haccepted h.root h.slash_end
    have hself : EntryShows card.fs client (propfindHref req.uri true, true, size)
        ⟨fullPath, collectionName req.uri⟩ := by
      rw [hroot.shown]
      refine ⟨?_, hroot.reaches card.sdRoot_eq h.root hpath⟩
      rw [displayOf_append List.not_mem_nil, collectionName, h.root]
      rfl
    cases hasks : asksChildren req with
    | false => exact ⟨⟨hroot.shown ▸ hroot.entry size, by simp⟩, hself, .nil⟩
    | true =>
        obtain ⟨hentries, hshows⟩ := shown_of_plain hroot h.root hpath (h.children hasks)
        rw [← hroot.shown] at hentries hshows
        exact ⟨⟨hroot.shown ▸ hroot.entry size, hentries⟩, hself, hshows⟩

/-- A card with one file at its root. -/
def oneFile (name : List UInt8) (hname : PlainName name) : SdCard where
  fs := { exampleFs with
    stat := fun path => some (path == ascii "/sd", 5)
    opendir := fun _ => some [name] }
  sdRoot_eq := rfl
  names := fun _ names hdir other hother => by
    cases Option.some.inj hdir
    rwa [List.mem_singleton.mp hother]

/-- A client that encodes control characters and spaces only. -/
def exampleClient : Client where
  carries := fun c => 33 ≤ c
  headers := crlf
  visible := fun c hc => by
    have hle := UInt8.le_iff_toNat_le.mp (of_decide_eq_true hc)
    exact hle
  path := by decide

/-- A file with a plain name is shown. -/
theorem multistatus_plain_file :
    ListingExact (oneFile (ascii "a.txt") ⟨by decide, by decide⟩).fs exampleClient
      (exampleRequest "PROPFIND" [47]) (ascii "/sd") := by
  refine (multistatus_iff _ exampleClient (by decide)
    (show _ = some (true, 5) by decide)).mpr ⟨by decide, by decide, ?_⟩
  intro _ name hname _
  have heq : childNames (oneFile (ascii "a.txt") ⟨by decide, by decide⟩).fs (ascii "/sd") =
      [ascii "a.txt"] := by decide
  rw [heq] at hname
  obtain rfl := List.mem_singleton.mp hname
  have hcarried : (ascii "a.txt").all exampleClient.carries = true := by decide
  exact ⟨⟨5, by decide, by unfold EntryFits; decide⟩,
    List.all_eq_true.mp hcarried, by decide, by decide⟩

/-- A listing with the file `R&B.txt` is not well formed. -/
theorem not_multistatus :
    ¬ ∀ (card : SdCard) (client : Client) (req : Request) (fullPath : List UInt8) (size : Nat),
      buildPath card.fs req.uri = some fullPath → card.fs.stat fullPath = some (true, size) →
        ListingExact card.fs client req fullPath := by
  intro h
  obtain ⟨root, hread, -⟩ := h (oneFile (ascii "R&B.txt") ⟨by decide, by decide⟩) exampleClient
    (exampleRequest "PROPFIND" [47]) (ascii "/sd") 5 (by decide) (by decide)
  have hnone : readDocument (propfindBody (oneFile (ascii "R&B.txt") ⟨by decide, by decide⟩).fs
      (exampleRequest "PROPFIND" [47])) = none := by decide +kernel
  rw [hnone] at hread
  cases hread

end Http
end JppDos
