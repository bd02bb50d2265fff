import JppDos.Http.Serve

/-!
# The WebDAV handlers

The request handlers of `jpp_fileserver_core.c`.  The SD card is seen through
the results of the calls a handler makes; what a handler writes to the card is
not tracked, only what it answers.

Main facts:
* `webdavDispatch_api`: every handler reaches the connection through the server
  API, so `webdavHandler` is a handler of the connection loop.
-/

namespace JppDos
namespace Http

open CText Numerals

/-- `FULL_PATH_MAX`. -/
def fullPathMax : Nat := 300

/-- The results of the handlers' calls outside the server: `stat` (directory or
not, `st_size`), the names `readdir` returns, the blocks `read` returns after a
successful `open`, and the success of the others.  `stack` is the memory behind
a formatting buffer. -/
structure Fs where
  sdRoot : List UInt8
  password : List UInt8
  ioSize : Nat
  stat : List UInt8 → Option (Bool × Nat)
  opendir : List UInt8 → Option (List (List UInt8))
  openRead : List UInt8 → Option (List (List UInt8))
  create : List UInt8 → Bool
  write : Nat → Bool
  deleteRecursive : List UInt8 → Bool
  rename : List UInt8 → List UInt8 → Bool
  mkdir : List UInt8 → Bool
  stack : Nat → UInt8

/-- `jpp_http_header`. -/
def jppHttpHeader (req : Request) (name : List UInt8) : Option (List UInt8) :=
  (req.hdr.find? fun h => strcaseeq h.1 name).map Prod.snd

/-- `b64_val`. -/
def b64Val (c : UInt8) : Nat :=
  if 65 ≤ c ∧ c ≤ 90 then c.toNat - 65
  else if 97 ≤ c ∧ c ≤ 122 then c.toNat - 97 + 26
  else if 48 ≤ c ∧ c ≤ 57 then c.toNat - 48 + 52
  else if c = 43 then 62
  else if c = 47 then 63
  else 0

/-- The loop of `b64_decode`. -/
def b64Groups : List UInt8 → List UInt8
  | s0 :: s1 :: s2 :: s3 :: src =>
      let a := b64Val s0
      let b := b64Val s1
      let c := b64Val s2
      let d := b64Val s3
      [UInt8.ofNat (a <<< 2 ||| b >>> 4)] ++
        (if s2 ≠ 61 then [UInt8.ofNat ((b &&& 0xf) <<< 4 ||| c >>> 2)] else []) ++
        (if s3 ≠ 61 then [UInt8.ofNat ((c &&& 0x3) <<< 6 ||| d)] else []) ++ b64Groups src
  | _ => []

/-- `b64_decode`. -/
def b64Decode (src : List UInt8) (dstSize : Nat) : Option (List UInt8) :=
  if src.length % 4 ≠ 0 then none
  else if dstSize < src.length / 4 * 3 + 1 then none
  else some (b64Groups src)

/-- `check_auth`. -/
def checkAuth (fs : Fs) (req : Request) : Bool :=
  match jppHttpHeader req (ascii "Authorization") with
  | none => false
  | some hdr =>
      if hdr.take 6 ≠ ascii "Basic " then false
      else
        match b64Decode (hdr.drop 6) 32 with
        | none => false
        | some decoded =>
            let creds := cString decoded
            creds.take 5 == ascii "jppd:" && creds.drop 5 == fs.password

/-- `deny_auth`. -/
def denyAuth (c : Conn) : Conn :=
  let c := jppHttpRespSetStatus http401 c
  let c := jppHttpRespSetHdr (ascii "WWW-Authenticate") (ascii "Basic realm=\"WebDAV\"") c
  let c := jppHttpRespSetType (ascii "text/plain") c
  (jppHttpRespSend (ascii "Unauthorized") c).2

/-- The table of `mime_for`. -/
def mimeTable : List (List UInt8 × List UInt8) :=
  [(ascii "txt", ascii "text/plain"), (ascii "py", ascii "text/plain"),
    (ascii "log", ascii "text/plain"), (ascii "md", ascii "text/plain"),
    (ascii "html", ascii "text/html"), (ascii "htm", ascii "text/html"),
    (ascii "json", ascii "application/json"), (ascii "csv", ascii "text/csv"),
    (ascii "xml", ascii "application/xml"), (ascii "jpg", ascii "image/jpeg"),
    (ascii "jpeg", ascii "image/jpeg"), (ascii "png", ascii "image/png"),
    (ascii "gif", ascii "image/gif"), (ascii "bin", ascii "application/octet-stream")]

/-- `mime_for`. -/
def mimeFor (name : List UInt8) : List UInt8 :=
  match afterLast 46 name with
  | none => ascii "application/octet-stream"
  | some ext =>
      match mimeTable.find? fun row => strcaseeq row.1 ext with
      | some row => row.2
      | none => ascii "application/octet-stream"

/-- `path_is_safe`, from a place that is, or is not, the start of a segment. -/
def pathIsSafeFrom : Bool → List UInt8 → Bool
  | _, [] => true
  | atStart, b :: rest =>
      if b = 46 ∧ rest.head? = some 46 ∧ atStart ∧
          (rest.tail.head? = none ∨ rest.tail.head? = some 47) then false
      else pathIsSafeFrom (b == 47) rest

/-- `build_path`. -/
def buildPath (fs : Fs) (uri : List UInt8) : Option (List UInt8) :=
  if uri.head? ≠ some 47 ∨ !pathIsSafeFrom true uri then none
  else if fs.sdRoot.length + uri.length + 1 > fullPathMax then none
  else
    let full := fs.sdRoot ++ uri
    if full.length > 1 ∧ full.getLast? = some 47 then some full.dropLast else some full

/-- `xml_escape`. -/
def xmlEscape (bufSize : Nat) : List UInt8 → List UInt8 → List UInt8
  | [], out => out
  | b :: src, out =>
      if out.length + 8 < bufSize then
        xmlEscape bufSize src
          (out ++
            if b = 38 then ascii "&amp;"
            else if b = 60 then ascii "&lt;"
            else if b = 62 then ascii "&gt;"
            else if b = 34 then ascii "&quot;"
            else [b])
      else out

/-- What `n = snprintf(buf, size, ..)` and a send of `n` bytes of `buf` put on the
wire: behind a text that does not fit come the bytes behind the buffer. -/
def formatted (fs : Fs) (size : Nat) (text : List UInt8) : List UInt8 :=
  if text.length < size then text
  else text.take (size - 1) ++ [0] ++ (List.range (text.length - size)).map fs.stack

/-- `%ld` of a `long` with 32 bits. -/
def showLong (n : Nat) : List UInt8 :=
  if ssize n < 0 then ascii "-" ++ showBase 10 (ssize n).natAbs
  else showBase 10 (ssize n).toNat

/-- The directory entries that are listed. -/
def listed (names : List (List UInt8)) : List (List UInt8) :=
  names.filter fun name => name != ascii "." && name != ascii ".."

/-- Chunks sent one after the other while the sends succeed. -/
def sendChunks : List (List UInt8) → Conn → Bool × Conn
  | [], c => (true, c)
  | data :: more, c => andThen (jppHttpRespSendChunk data c) (sendChunks more)

/-- A page in chunks; its end goes out only when everything before it did. -/
def sendPage (pieces : List (List UInt8)) (last : List UInt8) (c : Conn) : Conn :=
  match sendChunks pieces c with
  | (false, c) => c
  | (true, c) => (jppHttpRespSendChunk [] (jppHttpRespSendChunk last c).2).2

section Handlers

variable (fs : Fs)

/-- `jpp_http_resp_send_err` as the last thing a handler does. -/
def answerErr (status : List UInt8) (msg : String) (c : Conn) : Conn :=
  (jppHttpRespSendErr status (ascii msg) c).2

def handleOptions (c : Conn) : Conn :=
  let c := jppHttpRespSetHdr (ascii "Allow")
    (ascii "OPTIONS, GET, HEAD, PUT, DELETE, MKCOL, MOVE, PROPFIND") c
  let c := jppHttpRespSetHdr (ascii "DAV") (ascii "1") c
  let c := jppHttpRespSetHdr (ascii "MS-Author-Via") (ascii "DAV") c
  (jppHttpRespSend [] c).2

/-- The text of `propfind_send_entry`. -/
def propfindEntry (href : List UInt8) (isDir : Bool) (fileSize : Nat) : List UInt8 :=
  let display := (afterLast 47 href).getD href
  let esc := xmlEscape 260 href []
  formatted fs 640 <|
    ascii "<D:response><D:href>" ++ esc ++
      ascii "</D:href><D:propstat><D:prop><D:displayname>" ++ display ++
      ascii "</D:displayname>" ++
      (if isDir then ascii "<D:resourcetype><D:collection/></D:resourcetype>"
       else
        ascii "<D:resourcetype/><D:getcontentlength>" ++ showLong fileSize ++
          ascii "</D:getcontentlength><D:getcontenttype>" ++ mimeFor display ++
          ascii "</D:getcontenttype>") ++
      ascii "</D:prop><D:status>HTTP/1.1 200 OK</D:status></D:propstat></D:response>"

/-- The entry of one child in a PROPFIND answer; a child without `stat` has none. -/
def propfindChild (fullPath selfHref name : List UInt8) : Option (List UInt8) :=
  let sep := if selfHref.getLast? = some 47 then [] else ascii "/"
  (fs.stat ((fullPath ++ ascii "/" ++ name).take 299)).map fun (isDir, size) =>
    let childHref := selfHref ++ sep ++ name ++ if isDir then ascii "/" else []
    propfindEntry fs (childHref.take 279) isDir size

/-- The entries of the children in a PROPFIND answer. -/
def propfindChildren (fullPath selfHref : List UInt8) : List (List UInt8) :=
  (listed ((fs.opendir fullPath).getD [])).filterMap (propfindChild fs fullPath selfHref)

/-- The path of the answered resource, with a slash behind a directory. -/
def propfindHref (uri : List UInt8) (isDir : Bool) : List UInt8 :=
  (if isDir ∧ uri.getLast? ≠ some 47 then uri ++ ascii "/" else uri).take 279

/-- The chunks of a PROPFIND answer, but for its end. -/
def propfindPieces (req : Request) (fullPath : List UInt8) (isDir : Bool) (size : Nat) :
    List (List UInt8) :=
  let depth := jppHttpHeader req (ascii "Depth")
  let listChildren := (depth.bind List.head? != some 48) && isDir
  let selfHref := propfindHref req.uri isDir
  [ascii "<?xml version=\"1.0\" encoding=\"utf-8\"?><D:multistatus xmlns:D=\"DAV:\">",
    propfindEntry fs selfHref isDir size] ++
  if listChildren then propfindChildren fs fullPath selfHref else []

def handlePropfind (c : Conn) : Conn :=
  match buildPath fs c.req.uri with
  | none => answerErr http400 "Bad path" c
  | some fullPath =>
      match fs.stat fullPath with
      | none => answerErr http404 "Not found" c
      | some (isDir, size) =>
          let pieces := propfindPieces fs c.req fullPath isDir size
          let c := jppHttpRespSetStatus http207 c
          let c := jppHttpRespSetType (ascii "application/xml; charset=utf-8") c
          let c := jppHttpRespSetHdr (ascii "DAV") (ascii "1") c
          sendPage pieces (ascii "</D:multistatus>") c

/-- The directory page of `handle_get`. -/
def directoryPage (uri : List UInt8) (names : Option (List (List UInt8))) :
    List (List UInt8) :=
  let dash : List UInt8 := [0xe2, 0x80, 0x94]
  let sep := if uri.getLast? = some 47 then [] else ascii "/"
  formatted fs 300
      (ascii "<html><head><title>SD Card " ++ dash ++ ascii " " ++ uri ++
        ascii "</title></head><body><h2>" ++ uri ++ ascii "</h2><ul>") ::
    (listed (names.getD [])).map fun name =>
      formatted fs 300
        (ascii "<li><a href=\"" ++ uri ++ sep ++ name ++ ascii "\">" ++ name ++ ascii "</a></li>")

/-- The copy loop of `handle_get`: `read` returns the blocks, then 0 or -1. -/
def streamFile : List (List UInt8) → Conn → Conn
  | [], c => c
  | block :: blocks, c =>
      if block.take fs.ioSize = [] then c
      else
        match jppHttpRespWrite (block.take fs.ioSize) c with
        | (false, c) => c
        | (true, c) => streamFile blocks c

def handleGet (c : Conn) : Conn :=
  match buildPath fs c.req.uri with
  | none => answerErr http400 "Bad path" c
  | some fullPath =>
      match fs.stat fullPath with
      | none => answerErr http404 "Not found" c
      | some (true, _) =>
          let pieces := directoryPage fs c.req.uri (fs.opendir fullPath)
          sendPage pieces (ascii "</ul></body></html>")
            (jppHttpRespSetType (ascii "text/html; charset=utf-8") c)
      | some (false, size) =>
          match fs.openRead fullPath with
          | none => answerErr http500 "Cannot open file" c
          | some blocks =>
              let c := jppHttpRespSetType (mimeFor fullPath) c
              match jppHttpRespBegin size c with
              | (false, c) => c
              | (true, c) => (jppHttpRespFinish (streamFile fs blocks c)).2

/-- How the copy loop of `handle_put` ends. -/
inductive PutResult where
  | done
  | recvErr
  | writeErr
deriving Repr, DecidableEq

/-- The copy loop of `handle_put`; a receive timeout is waited out.  `fuel`
bounds the receive calls still to come. -/
def receiveFile : Nat → Nat → Nat → Conn → PutResult × Conn
  | 0, _, _, c => (.recvErr, c)
  | fuel + 1, count, remaining, c =>
      if remaining = 0 then (.done, c)
      else
        match jppHttpRecv (min remaining fs.ioSize) c with
        | (.timeout, c) => receiveFile fuel count remaining c
        | (.error, c) => (.recvErr, c)
        | (.bytes data, c) =>
            if fs.write count then receiveFile fuel (count + 1) (remaining - data.length) c
            else (.writeErr, c)

/-- `handle_put` once the file is created. -/
def storeBody (c : Conn) : Conn :=
  match receiveFile fs (c.recvs.length + c.bodyPre.length + 2) 0 c.req.contentLen c with
  | (.recvErr, c) => answerErr http400 "Receive error" (jppHttpRespCloseConn c)
  | (.writeErr, c) => answerErr http500 "Write error" c
  | (.done, c) => (jppHttpRespSend [] (jppHttpRespSetStatus http201 c)).2

def handlePut (c : Conn) : Conn :=
  match buildPath fs c.req.uri with
  | none => answerErr http400 "Bad path" c
  | some fullPath =>
      if (fs.stat fullPath).map Prod.fst = some true then
        answerErr http400 "Cannot PUT to directory" c
      else
        let expects := (jppHttpHeader c.req (ascii "Expect")).map (strcaseeq (ascii "100-continue"))
        let c := if expects = some true then (jppHttpSendContinue c).2 else c
        if !fs.create fullPath then answerErr http500 "Cannot create file" c
        else storeBody fs c

def handleDelete (c : Conn) : Conn :=
  match buildPath fs c.req.uri with
  | none => answerErr http400 "Bad path" c
  | some fullPath =>
      match fs.stat fullPath with
      | none => answerErr http404 "Not found" c
      | some _ =>
          if !fs.deleteRecursive fullPath then answerErr http500 "Delete failed" c
          else (jppHttpRespSend [] (jppHttpRespSetStatus http204 c)).2

/-- The path of a Destination header, without `http[s]://host`. -/
def destinationPath (dest : List UInt8) : Option (List UInt8) :=
  let fromSlash := fun s => (breakAt 47 s).map fun (_, path) => 47 :: path
  if dest.take 8 = ascii "https://" then fromSlash (dest.drop 8)
  else if dest.take 7 = ascii "http://" then fromSlash (dest.drop 7)
  else some dest

def handleMove (c : Conn) : Conn :=
  match buildPath fs c.req.uri with
  | none => answerErr http400 "Bad source path" c
  | some fullSrc =>
      match jppHttpHeader c.req (ascii "Destination") with
      | none => answerErr http400 "Missing Destination" c
      | some dest =>
          match destinationPath dest with
          | none => answerErr http400 "Bad Destination" c
          | some destUri =>
              match buildPath fs destUri with
              | none => answerErr http400 "Bad destination path" c
              | some fullDst =>
                  if !fs.rename fullSrc fullDst then answerErr http500 "Move failed" c
                  else (jppHttpRespSend [] (jppHttpRespSetStatus http201 c)).2

def handleMkcol (c : Conn) : Conn :=
  match buildPath fs c.req.uri with
  | none => answerErr http400 "Bad path" c
  | some fullPath =>
      if !fs.mkdir fullPath then answerErr http500 "Cannot create directory" c
      else (jppHttpRespSend [] (jppHttpRespSetStatus http201 c)).2

def webdavDispatch (c : Conn) : Conn :=
  let method := c.req.method
  if method = ascii "OPTIONS" then handleOptions c
  else if !checkAuth fs c.req then denyAuth c
  else if method = ascii "PROPFIND" then handlePropfind fs c
  else if method = ascii "GET" then handleGet fs c
  else if method = ascii "HEAD" then handleGet fs c
  else if method = ascii "PUT" then handlePut fs c
  else if method = ascii "DELETE" then handleDelete fs c
  else if method = ascii "MOVE" then handleMove fs c
  else if method = ascii "MKCOL" then handleMkcol fs c
  else
    answerErr http405 "Method not allowed"
      (jppHttpRespSetHdr (ascii "Allow")
        (ascii "OPTIONS, GET, HEAD, PUT, DELETE, MKCOL, MOVE, PROPFIND") c)

theorem answerErr_api (status : List UInt8) (msg : String) (c : Conn) :
    ApiReach c (answerErr status msg c) := .single (.sendErr status _ c)

theorem sendChunks_api (pieces : List (List UInt8)) (c : Conn) :
    ApiReach c (sendChunks pieces c).2 := by
  induction pieces generalizing c with
  | nil => exact .refl
  | cons data more ih =>
      have hstep : ApiStep c (jppHttpRespSendChunk data c).2 := .sendChunk data c
      unfold sendChunks andThen
      split_ifs
      · exact .head hstep (ih _)
      · exact .single hstep

theorem sendPage_api (pieces : List (List UInt8)) (last : List UInt8) (c : Conn) :
    ApiReach c (sendPage pieces last c) := by
  have hreach := sendChunks_api pieces c
  unfold sendPage
  split
  · rename_i c' heq
    rwa [heq] at hreach
  · rename_i c' heq
    rw [heq] at hreach
    exact (hreach.tail (.sendChunk last c')).tail (.sendChunk [] _)

theorem streamFile_api (blocks : List (List UInt8)) (c : Conn) :
    ApiReach c (streamFile fs blocks c) := by
  induction blocks generalizing c with
  | nil => exact .refl
  | cons block blocks ih =>
      unfold streamFile
      split_ifs
      · exact .refl
      · have hstep : ApiStep c (jppHttpRespWrite (block.take fs.ioSize) c).2 := .write _ c
        split
        · rename_i c' heq
          rw [heq] at hstep
          exact .single hstep
        · rename_i c' heq
          rw [heq] at hstep
          exact .head hstep (ih c')

theorem receiveFile_api (fuel : Nat) :
    ∀ (count remaining : Nat) (c : Conn), ApiReach c (receiveFile fs fuel count remaining c).2 := by
  induction fuel with
  | zero => exact fun _ _ _ => .refl
  | succ fuel ih =>
      intro count remaining c
      unfold receiveFile
      split
      · exact .refl
      · have hstep : ApiStep c (jppHttpRecv (min remaining fs.ioSize) c).2 := .recv _ c
        split
        · rename_i c' heq
          rw [heq] at hstep
          exact .head hstep (ih count remaining c')
        · rename_i c' heq
          rw [heq] at hstep
          exact .single hstep
        · rename_i data c' heq
          rw [heq] at hstep
          split_ifs
          · exact .head hstep (ih _ _ c')
          · exact .single hstep

theorem denyAuth_api (c : Conn) : ApiReach c (denyAuth c) :=
  .head (.setStatus _ c) (.head (.setHdr _ _ _) (.head (.setHdr _ _ _) (.single (.send _ _))))

theorem handleOptions_api (c : Conn) : ApiReach c (handleOptions c) :=
  .head (.setHdr _ _ c) (.head (.setHdr _ _ _) (.head (.setHdr _ _ _) (.single (.send _ _))))

theorem handlePropfind_api (c : Conn) : ApiReach c (handlePropfind fs c) := by
  unfold handlePropfind
  split
  · exact answerErr_api _ _ c
  · split
    · exact answerErr_api _ _ c
    · exact .head (.setStatus _ c)
        (.head (.setHdr _ _ _) (.head (.setHdr _ _ _) (sendPage_api _ _ _)))

theorem handleGet_api (c : Conn) : ApiReach c (handleGet fs c) := by
  unfold handleGet
  split
  · exact answerErr_api _ _ c
  · split
    · exact answerErr_api _ _ c
    · exact .head (.setHdr _ _ c) (sendPage_api _ _ _)
    · rename_i fullPath _ _ size _
      split
      · exact answerErr_api _ _ c
      · rename_i blocks _
        refine .head (.setHdr (ascii "Content-Type") (mimeFor fullPath) c) ?_
        have hbegin := ApiStep.begin size (jppHttpRespSetType (mimeFor fullPath) c)
        simp only
        split
        · rename_i c' heq
          rw [heq] at hbegin
          exact .single hbegin
        · rename_i c' heq
          rw [heq] at hbegin
          exact .head hbegin ((streamFile_api fs blocks c').tail (.finish _))

theorem storeBody_api (c : Conn) : ApiReach c (storeBody fs c) := by
  have hreach := receiveFile_api fs (c.recvs.length + c.bodyPre.length + 2) 0 c.req.contentLen c
  unfold storeBody
  split
  · rename_i c' heq
    rw [heq] at hreach
    exact (hreach.tail (.closeConn c')).tail (.sendErr _ _ _)
  · rename_i c' heq
    rw [heq] at hreach
    exact hreach.tail (.sendErr _ _ c')
  · rename_i c' heq
    rw [heq] at hreach
    exact (hreach.tail (.setStatus _ c')).tail (.send _ _)

theorem handlePut_api (c : Conn) : ApiReach c (handlePut fs c) := by
  unfold handlePut
  split
  · exact answerErr_api _ _ c
  · split
    · exact answerErr_api _ _ c
    · have hcont : ∀ (p : Prop) [Decidable p],
          ApiReach c (if p then (jppHttpSendContinue c).2 else c) := by
        intro p _
        split_ifs
        exacts [.single (.sendContinue c), .refl]
      simp only
      split
      · exact (hcont _).trans (answerErr_api _ _ _)
      · exact (hcont _).trans (storeBody_api fs _)

theorem handleDelete_api (c : Conn) : ApiReach c (handleDelete fs c) := by
  unfold handleDelete
  split
  · exact answerErr_api _ _ c
  · split
    · exact answerErr_api _ _ c
    · split
      · exact answerErr_api _ _ c
      · exact .head (.setStatus _ c) (.single (.send _ _))

theorem handleMove_api (c : Conn) : ApiReach c (handleMove fs c) := by
  unfold handleMove
  split
  · exact answerErr_api _ _ c
  · split
    · exact answerErr_api _ _ c
    · split
      · exact answerErr_api _ _ c
      · split
        · exact answerErr_api _ _ c
        · split
          · exact answerErr_api _ _ c
          · exact .head (.setStatus _ c) (.single (.send _ _))

theorem handleMkcol_api (c : Conn) : ApiReach c (handleMkcol fs c) := by
  unfold handleMkcol
  split
  · exact answerErr_api _ _ c
  · split
    · exact answerErr_api _ _ c
    · exact .head (.setStatus _ c) (.single (.send _ _))

/-- Every handler reaches the connection through the server API. -/
theorem webdavDispatch_api (c : Conn) : ApiReach c (webdavDispatch fs c) := by
  unfold webdavDispatch
  simp only
  split_ifs
  exacts [handleOptions_api c, denyAuth_api c, handlePropfind_api fs c, handleGet_api fs c,
    handleGet_api fs c, handlePut_api fs c, handleDelete_api fs c, handleMove_api fs c,
    handleMkcol_api fs c, .head (.setHdr _ _ c) (answerErr_api _ _ _)]

/-- The file server as a handler of the connection loop. -/
def webdavHandler : Handler := ⟨webdavDispatch fs, webdavDispatch_api fs⟩

end Handlers

end Http
end JppDos
