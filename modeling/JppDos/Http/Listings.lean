import JppDos.Http.Confinement

/-!
# The chunks of listings

`handle_propfind` and `handle_get` format the pieces of a listing with `snprintf` into buffers of a
fixed size, and send as many bytes as it returns, which is the length of the whole text.

Main fact:
* `listing_formatted_iff`: no chunk is longer than its text in the buffer exactly when the request
  and the names are short enough.
-/

namespace JppDos
namespace Http

open CText

/-- A text that is formatted with `n = snprintf(buf, size, ..)`, of which `n` bytes are sent. -/
structure Chunk where
  size : Nat
  text : List UInt8
deriving Repr, DecidableEq

/-- The length that is passed to `jpp_http_resp_send_chunk`. -/
def Chunk.sent (chunk : Chunk) : Nat := chunk.text.length

/-- How many bytes of the text `snprintf` stores. -/
def Chunk.stored (chunk : Chunk) : Nat := min chunk.text.length (chunk.size - 1)

/-- The text that `propfind_send_entry` formats. -/
def propfindText (href : List UInt8) (isDir : Bool) (fileSize : Nat) : List UInt8 :=
  let display := (afterLast 47 href).getD href
  let esc := xmlEscape 260 href []
  ascii "<D:response><D:href>" ++ esc ++
    ascii "</D:href><D:propstat><D:prop><D:displayname>" ++ display ++
    ascii "</D:displayname>" ++
    (if isDir then ascii "<D:resourcetype><D:collection/></D:resourcetype>"
     else
      ascii "<D:resourcetype/><D:getcontentlength>" ++ showLong fileSize ++
        ascii "</D:getcontentlength><D:getcontenttype>" ++ mimeFor display ++
        ascii "</D:getcontenttype>") ++
    ascii "</D:prop><D:status>HTTP/1.1 200 OK</D:status></D:propstat></D:response>"

/-- The head of the page of `handle_get`. -/
def pageHead (uri : List UInt8) : List UInt8 :=
  ascii "<html><head><title>SD Card " ++ [0xe2, 0x80, 0x94] ++ ascii " " ++ uri ++
    ascii "</title></head><body><h2>" ++ uri ++ ascii "</h2><ul>"

/-- A line of the page of `handle_get`. -/
def pageLine (uri name : List UInt8) : List UInt8 :=
  ascii "<li><a href=\"" ++ uri ++ (if uri.getLast? = some 47 then [] else ascii "/") ++ name ++
    ascii "\">" ++ name ++ ascii "</a></li>"

section Listings

variable (fs : Fs)

/-- The children that a PROPFIND answer describes: their paths, and what they are. -/
def propfindEntries (fullPath selfHref : List UInt8) : List (List UInt8 × Bool × Nat) :=
  (listed ((fs.opendir fullPath).getD [])).filterMap fun name =>
    let sep := if selfHref.getLast? = some 47 then [] else ascii "/"
    (fs.stat ((fullPath ++ ascii "/" ++ name).take 299)).map fun (isDir, size) =>
      ((selfHref ++ sep ++ name ++ if isDir then ascii "/" else []).take 279, isDir, size)

/-- All that a PROPFIND answer describes: the resource, and its children unless the depth is 0. -/
def propfindListing (req : Request) (fullPath : List UInt8) (isDir : Bool) (size : Nat) :
    List (List UInt8 × Bool × Nat) :=
  let depth := jppHttpHeader req (ascii "Depth")
  let selfHref := propfindHref req.uri isDir
  (selfHref, isDir, size) ::
    if (depth.bind List.head? != some 48) && isDir then propfindEntries fs fullPath selfHref else []

/-- The chunks of `handle_propfind` that are formatted. -/
def propfindChunks (req : Request) : List Chunk :=
  match buildPath fs req.uri with
  | none => []
  | some fullPath =>
      match fs.stat fullPath with
      | none => []
      | some (isDir, size) => (propfindListing fs req fullPath isDir size).map fun entry =>
          ⟨640, propfindText entry.1 entry.2.1 entry.2.2⟩

/-- The chunks of `handle_get` that are formatted: those of a directory. -/
def getChunks (req : Request) : List Chunk :=
  match buildPath fs req.uri with
  | none => []
  | some fullPath =>
      match fs.stat fullPath with
      | some (true, _) => ⟨300, pageHead req.uri⟩ ::
          (listed ((fs.opendir fullPath).getD [])).map fun name => ⟨300, pageLine req.uri name⟩
      | _ => []

/-- The bytes that go to the sender for a chunk. -/
def Chunk.bytes (chunk : Chunk) : List UInt8 := formatted fs chunk.size chunk.text

theorem propfindPieces_eq (req : Request) (fullPath : List UInt8) (isDir : Bool) (size : Nat) :
    propfindPieces fs req fullPath isDir size =
      ascii "<?xml version=\"1.0\" encoding=\"utf-8\"?><D:multistatus xmlns:D=\"DAV:\">" ::
        (propfindListing fs req fullPath isDir size).map fun entry =>
          Chunk.bytes fs ⟨640, propfindText entry.1 entry.2.1 entry.2.2⟩ := by
  have hchildren : ∀ selfHref, propfindChildren fs fullPath selfHref =
      (propfindEntries fs fullPath selfHref).map fun entry =>
        Chunk.bytes fs ⟨640, propfindText entry.1 entry.2.1 entry.2.2⟩ := by
    intro selfHref
    rw [propfindChildren, propfindEntries, List.map_filterMap]
    refine List.filterMap_congr fun name _ => ?_
    rw [propfindChild]
    simp only [Option.map_map]
    rfl
  rw [propfindPieces, propfindListing]
  simp only [List.map_cons]
  split
  · rw [hchildren]
    rfl
  · rfl

/-- Of a resource that is there, `handle_propfind` sends these chunks between the two ends of the
document. -/
theorem handlePropfind_listing {c : Conn} {fullPath : List UInt8} {isDir : Bool} {size : Nat}
    (hpath : buildPath fs c.req.uri = some fullPath)
    (hstat : fs.stat fullPath = some (isDir, size)) :
    handlePropfind fs c = sendPage
      (ascii "<?xml version=\"1.0\" encoding=\"utf-8\"?><D:multistatus xmlns:D=\"DAV:\">" ::
        (propfindChunks fs c.req).map (Chunk.bytes fs)) (ascii "</D:multistatus>")
      (jppHttpRespSetHdr (ascii "DAV") (ascii "1")
        (jppHttpRespSetType (ascii "application/xml; charset=utf-8")
          (jppHttpRespSetStatus http207 c))) := by
  unfold handlePropfind propfindChunks
  simp only [hpath, hstat]
  rw [propfindPieces_eq, List.map_map]
  rfl

/-- Of a directory, `handle_get` sends these chunks and the end of the page. -/
theorem handleGet_listing {c : Conn} {fullPath : List UInt8} {size : Nat}
    (hpath : buildPath fs c.req.uri = some fullPath)
    (hstat : fs.stat fullPath = some (true, size)) :
    handleGet fs c = sendPage ((getChunks fs c.req).map (Chunk.bytes fs))
      (ascii "</ul></body></html>")
      (jppHttpRespSetType (ascii "text/html; charset=utf-8") c) := by
  unfold handleGet getChunks
  simp only [hpath, hstat]
  rw [directoryPage, List.map_cons, List.map_map]
  rfl

/-- Every chunk of the two handlers is as long as its text in the buffer, at most. -/
def SendsFormatted (req : Request) : Prop :=
  ∀ chunk ∈ propfindChunks fs req ++ getChunks fs req, chunk.sent ≤ chunk.stored

/-- The entry of a PROPFIND answer has room in its buffer. -/
def EntryFits (entry : List UInt8 × Bool × Nat) : Prop :=
  let display := (afterLast 47 entry.1).getD entry.1
  (xmlEscape 260 entry.1 []).length + display.length +
    (if entry.2.1 then 199 else 246 + (showLong entry.2.2).length + (mimeFor display).length) < 640

/-- The request and the names are short enough for the buffers. -/
structure ListingFits (req : Request) : Prop where
  entries : ∀ fullPath isDir size, buildPath fs req.uri = some fullPath →
    fs.stat fullPath = some (isDir, size) →
    ∀ entry ∈ propfindListing fs req fullPath isDir size, EntryFits entry
  head : ∀ fullPath size, buildPath fs req.uri = some fullPath →
    fs.stat fullPath = some (true, size) → 2 * req.uri.length + 65 < 300
  lines : ∀ fullPath size, buildPath fs req.uri = some fullPath →
    fs.stat fullPath = some (true, size) → ∀ name ∈ listed ((fs.opendir fullPath).getD []),
      req.uri.length + (if req.uri.getLast? = some 47 then 0 else 1) + 2 * name.length + 24 < 300

theorem sent_le_stored_iff {chunk : Chunk} (hsize : 0 < chunk.size) :
    chunk.sent ≤ chunk.stored ↔ chunk.text.length < chunk.size := by
  unfold Chunk.sent Chunk.stored
  omega

theorem length_ascii (s : String) : (ascii s).length = s.toList.length := List.length_map _

theorem length_propfindText (href : List UInt8) (isDir : Bool) (size : Nat) :
    (propfindText href isDir size).length < 640 ↔ EntryFits (href, isDir, size) := by
  unfold EntryFits propfindText
  cases isDir with
  | true =>
      simp only [if_true, List.length_append, length_ascii, String.reduceToList, List.length_cons,
        List.length_nil]
      omega
  | false =>
      simp only [Bool.false_eq_true, if_false, List.length_append, length_ascii,
        String.reduceToList, List.length_cons, List.length_nil]
      omega

theorem length_pageHead (uri : List UInt8) : (pageHead uri).length = 2 * uri.length + 65 := by
  simp only [pageHead, List.length_append, length_ascii, String.reduceToList, List.length_cons,
    List.length_nil]
  omega

theorem length_pageLine (uri name : List UInt8) : (pageLine uri name).length =
    uri.length + (if uri.getLast? = some 47 then 0 else 1) + 2 * name.length + 24 := by
  unfold pageLine
  split_ifs
  · simp only [List.length_append, length_ascii, String.reduceToList, List.length_cons,
      List.length_nil]
    omega
  · simp only [List.length_append, length_ascii, String.reduceToList, List.length_cons,
      List.length_nil]
    omega

theorem propfindChunks_formatted_iff (req : Request) :
    (∀ chunk ∈ propfindChunks fs req, chunk.sent ≤ chunk.stored) ↔
      ∀ fullPath isDir size, buildPath fs req.uri = some fullPath →
        fs.stat fullPath = some (isDir, size) →
        ∀ entry ∈ propfindListing fs req fullPath isDir size, EntryFits entry := by
  have hchunk : ∀ entry : List UInt8 × Bool × Nat,
      (⟨640, propfindText entry.1 entry.2.1 entry.2.2⟩ : Chunk).sent ≤
          (⟨640, propfindText entry.1 entry.2.1 entry.2.2⟩ : Chunk).stored ↔ EntryFits entry :=
    fun entry => (sent_le_stored_iff (Nat.succ_pos 639)).trans (length_propfindText ..)
  unfold propfindChunks
  cases hpath : buildPath fs req.uri with
  | none => simp
  | some fullPath =>
      simp only
      cases hstat : fs.stat fullPath with
      | none =>
          refine iff_of_true (fun _ hmem => absurd hmem List.not_mem_nil) ?_
          rintro _ _ _ hsame hfound
          cases hsame
          cases hstat.symm.trans hfound
      | some found =>
          obtain ⟨isDir, size⟩ := found
          simp only [List.forall_mem_map, hchunk]
          constructor
          · rintro h _ _ _ hsame hfound
            cases hsame
            cases hstat.symm.trans hfound
            exact h
          · exact fun h => h fullPath isDir size rfl hstat

theorem getChunks_formatted_iff (req : Request) :
    (∀ chunk ∈ getChunks fs req, chunk.sent ≤ chunk.stored) ↔
      ∀ fullPath size, buildPath fs req.uri = some fullPath →
        fs.stat fullPath = some (true, size) → 2 * req.uri.length + 65 < 300 ∧
          ∀ name ∈ listed ((fs.opendir fullPath).getD []),
            req.uri.length + (if req.uri.getLast? = some 47 then 0 else 1) + 2 * name.length +
              24 < 300 := by
  have hhead : (⟨300, pageHead req.uri⟩ : Chunk).sent ≤
      (⟨300, pageHead req.uri⟩ : Chunk).stored ↔ 2 * req.uri.length + 65 < 300 := by
    rw [sent_le_stored_iff (Nat.succ_pos 299), length_pageHead]
  have hline : ∀ name, (⟨300, pageLine req.uri name⟩ : Chunk).sent ≤
      (⟨300, pageLine req.uri name⟩ : Chunk).stored ↔
        req.uri.length + (if req.uri.getLast? = some 47 then 0 else 1) + 2 * name.length +
          24 < 300 := by
    intro name
    rw [sent_le_stored_iff (Nat.succ_pos 299), length_pageLine]
  unfold getChunks
  cases hpath : buildPath fs req.uri with
  | none => simp
  | some fullPath =>
      simp only
      cases hstat : fs.stat fullPath with
      | none =>
          refine iff_of_true (fun _ hmem => absurd hmem List.not_mem_nil) ?_
          rintro _ _ hsame hfound
          cases hsame
          cases hstat.symm.trans hfound
      | some found =>
          obtain ⟨isDir, size⟩ := found
          cases isDir with
          | false =>
              refine iff_of_true (fun _ hmem => absurd hmem List.not_mem_nil) ?_
              rintro _ _ hsame hfound
              cases hsame
              cases hstat.symm.trans hfound
          | true =>
              simp only [List.forall_mem_cons, List.forall_mem_map, hhead, hline]
              constructor
              · rintro h _ _ hsame hfound
                cases hsame
                exact h
              · exact fun h => h fullPath size rfl hstat

/-- No chunk is longer than its text in the buffer exactly when the request and the names are short
enough. -/
theorem listing_formatted_iff (req : Request) : SendsFormatted fs req ↔ ListingFits fs req := by
  rw [SendsFormatted, List.forall_mem_append, propfindChunks_formatted_iff,
    getChunks_formatted_iff]
  constructor
  · rintro ⟨hentries, hpage⟩
    exact ⟨hentries, fun fullPath size hpath hstat => (hpage fullPath size hpath hstat).1,
      fun fullPath size hpath hstat => (hpage fullPath size hpath hstat).2⟩
  · intro h
    exact ⟨h.entries, fun fullPath size hpath hstat =>
      ⟨h.head fullPath size hpath hstat, h.lines fullPath size hpath hstat⟩⟩

end Listings

/-- A card whose directories hold one file with a name of 255 bytes. -/
def longNamed : Fs :=
  { exampleFs with opendir := fun _ => some [List.replicate 255 97] }

/-- For a name of 255 bytes `handle_get` sends 535 bytes of a buffer of 300. -/
theorem not_listing_formatted :
    ¬ ∀ (fs : Fs) (req : Request),
      (∀ path names, fs.opendir path = some names → ∀ name ∈ names, name.length ≤ 255) →
        SendsFormatted fs req := by
  intro h
  have hnames : ∀ path names, longNamed.opendir path = some names →
      ∀ name ∈ names, name.length ≤ 255 := by
    intro path names hdir name hname
    cases Option.some.inj hdir
    rw [List.mem_singleton.mp hname, List.length_replicate]
  have hchunk : (⟨300, pageLine [47] (List.replicate 255 97)⟩ : Chunk) ∈
      propfindChunks longNamed (exampleRequest "GET" [47]) ++
        getChunks longNamed (exampleRequest "GET" [47]) := by
    decide +kernel
  exact absurd (h longNamed (exampleRequest "GET" [47]) hnames _ hchunk) (by decide +kernel)

end Http
end JppDos
