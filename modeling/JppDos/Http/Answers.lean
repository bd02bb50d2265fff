import JppDos.Http.Framing

/-!
# One well-formed response for every request

The handlers of both servers, call by call: what each leaves on the socket when
the connection is kept.
-/

namespace JppDos
namespace Http

open CText Numerals HttpMessage

section Webdav

variable (fs : Fs)

theorem answerErr_framed {o : List UInt8} {isHead : Bool} {c : Conn} (h : Fresh o isHead c)
    {status : List UInt8} {msg : String} (hstatus : PlainStatus (status.take 39))
    (hmsg : (ascii msg).length < 2 ^ 31) : Framed o isHead True (answerErr status msg c) :=
  h.sendErr hstatus hmsg

theorem answerEmpty_framed {o : List UInt8} {isHead : Bool} {c : Conn} (h : Fresh o isHead c)
    {status : List UInt8} (hstatus : PlainStatus (status.take 39)) :
    Framed o isHead True (jppHttpRespSend [] (jppHttpRespSetStatus status c)).2 :=
  (h.setStatus hstatus).send (by decide)

theorem handleOptions_framed {o : List UInt8} {isHead : Bool} {c : Conn} (h : Fresh o isHead c) :
    Framed o isHead True (handleOptions c) :=
  (((h.setHdr (by decide)).setHdr (by decide)).setHdr (by decide)).send (by decide)

theorem denyAuth_framed {o : List UInt8} {isHead : Bool} {c : Conn} (h : Fresh o isHead c) :
    Framed o isHead True (denyAuth c) :=
  (((h.setStatus (by decide)).setHdr (by decide)).setType (by decide)).send (by decide)

theorem handleDelete_framed {o : List UInt8} {isHead : Bool} {c : Conn} (h : Fresh o isHead c) :
    Framed o isHead True (handleDelete fs c) := by
  unfold handleDelete
  split
  · exact answerErr_framed h (by decide) (by decide)
  · split
    · exact answerErr_framed h (by decide) (by decide)
    · split
      · exact answerErr_framed h (by decide) (by decide)
      · exact answerEmpty_framed h (by decide)

theorem handleMove_framed {o : List UInt8} {isHead : Bool} {c : Conn} (h : Fresh o isHead c) :
    Framed o isHead True (handleMove fs c) := by
  unfold handleMove
  split
  · exact answerErr_framed h (by decide) (by decide)
  · split
    · exact answerErr_framed h (by decide) (by decide)
    · split
      · exact answerErr_framed h (by decide) (by decide)
      · split
        · exact answerErr_framed h (by decide) (by decide)
        · split
          · exact answerErr_framed h (by decide) (by decide)
          · exact answerEmpty_framed h (by decide)

theorem handleMkcol_framed {o : List UInt8} {isHead : Bool} {c : Conn} (h : Fresh o isHead c) :
    Framed o isHead True (handleMkcol fs c) := by
  unfold handleMkcol
  split
  · exact answerErr_framed h (by decide) (by decide)
  · split
    · exact answerErr_framed h (by decide) (by decide)
    · exact answerEmpty_framed h (by decide)

theorem formatted_ne_nil {size : Nat} {text : List UInt8} (h : text ≠ []) :
    formatted fs size text ≠ [] := by
  unfold formatted
  split_ifs
  · exact h
  · simp

theorem propfindEntry_ne_nil (href : List UInt8) (isDir : Bool) (size : Nat) :
    propfindEntry fs href isDir size ≠ [] :=
  formatted_ne_nil fs (by simp [ascii])

theorem propfindPieces_ne_nil (req : Request) (fullPath : List UInt8) (isDir : Bool)
    (size : Nat) : ∀ data ∈ propfindPieces fs req fullPath isDir size, data ≠ [] := by
  intro data hdata
  rcases List.mem_append.mp hdata with hself | hchild
  · simp only [List.mem_cons, List.not_mem_nil, or_false] at hself
    rcases hself with rfl | rfl
    · simp [ascii]
    · exact propfindEntry_ne_nil fs _ _ _
  · split at hchild
    · obtain ⟨name, _, hentry⟩ := List.mem_filterMap.mp hchild
      obtain ⟨_, _, rfl⟩ := Option.map_eq_some_iff.mp hentry
      exact propfindEntry_ne_nil fs _ _ _
    · exact absurd hchild (by simp)

theorem handlePropfind_framed {o : List UInt8} {isHead : Bool} {c : Conn}
    (h : Fresh o isHead c) : Framed o isHead True (handlePropfind fs c) := by
  unfold handlePropfind
  split
  · exact answerErr_framed h (by decide) (by decide)
  · split
    · exact answerErr_framed h (by decide) (by decide)
    · exact (((h.setStatus (by decide)).setType (by decide)).setHdr (by decide)).page
        (propfindPieces_ne_nil fs _ _ _ _) (by decide)

theorem directoryPage_ne_nil (uri : List UInt8) (names : Option (List (List UInt8))) :
    ∀ data ∈ directoryPage fs uri names, data ≠ [] := by
  intro data hdata
  simp only [directoryPage, List.mem_cons, List.mem_map] at hdata
  rcases hdata with rfl | ⟨name, _, rfl⟩
  · exact formatted_ne_nil fs (by simp [ascii])
  · exact formatted_ne_nil fs (by simp [ascii])

/-- The bytes of a file that `read` returns. -/
def fileBytes (blocks : List (List UInt8)) : List UInt8 :=
  ((blocks.map (List.take fs.ioSize)).takeWhile (· ≠ [])).flatten

theorem jppHttpRespWrite_alive {data : List UInt8} {c : Conn}
    (h : (jppHttpRespWrite data c).2.peerGone = false) : c.peerGone = false := by
  unfold jppHttpRespWrite at h
  split_ifs at h
  exacts [h, h, (sendAll_alive h).1]

theorem streamFile_gone {blocks : List (List UInt8)} {c : Conn}
    (h : (streamFile fs blocks c).peerGone = false) : c.peerGone = false := by
  induction blocks generalizing c with
  | nil => exact h
  | cons block blocks ih =>
      unfold streamFile at h
      split at h
      · exact h
      · apply @jppHttpRespWrite_alive (block.take fs.ioSize) c
        split at h
        · rename_i heq
          rw [heq]
          exact h
        · rename_i heq
          rw [heq]
          exact ih h

/-- The copy loop writes what it reads; on a chunked response it stops at once. -/
theorem streamFile_alive {blocks : List (List UInt8)} {c : Conn} (hstarted : c.respStarted = true)
    (h : (streamFile fs blocks c).peerGone = false) :
    ∃ sends, streamFile fs blocks c =
      { c with
        out := c.out ++ if c.respChunked || c.suppressBody then [] else fileBytes fs blocks
        sends := sends } := by
  induction blocks generalizing c with
  | nil => exact ⟨c.sends, by simp [streamFile, fileBytes]⟩
  | cons block blocks ih =>
      unfold streamFile at h ⊢
      by_cases hnil : block.take fs.ioSize = []
      · rw [if_pos hnil]
        exact ⟨c.sends, by simp [fileBytes, hnil]⟩
      · rw [if_neg hnil] at h ⊢
        have hbytes : fileBytes fs (block :: blocks) =
            block.take fs.ioSize ++ fileBytes fs blocks := by
          simp [fileBytes, hnil]
        unfold jppHttpRespWrite at h ⊢
        by_cases hchunked : c.respChunked = true
        · have hno : (c.respChunked || c.suppressBody) = true := by simp [hchunked]
          rw [if_pos (by simp [hchunked])]
          exact ⟨c.sends, by rw [if_pos hno, List.append_nil]⟩
        · rw [if_neg (by simp [hstarted, hchunked])] at h ⊢
          by_cases hsup : c.suppressBody = true
          · rw [if_pos (Or.inr hsup)] at h ⊢
            obtain ⟨sends, heq⟩ := ih hstarted h
            have hno : (c.respChunked || c.suppressBody) = true := by simp [hsup]
            exact ⟨sends, by simp only [heq, if_pos hno]⟩
          · have hyes : ¬ (c.respChunked || c.suppressBody) = true := by simp [hsup, hchunked]
            rw [if_neg (by simp [hnil, hsup])] at h ⊢
            have hsend : (sendAll (block.take fs.ioSize) c).2.peerGone = false := by
              split at h
              · rename_i heq
                rw [heq]
                exact h
              · rename_i heq
                rw [heq]
                exact streamFile_gone fs h
            obtain ⟨_, sends₁, h₁⟩ := sendAll_alive hsend
            simp only [h₁] at h ⊢
            obtain ⟨sends, heq⟩ := @ih { c with
              out := c.out ++ block.take fs.ioSize, sends := sends₁ } hstarted h
            exact ⟨sends, by simp only [heq, if_neg hyes, hbytes, List.append_assoc]⟩

/-- The file whose bytes answer a request, with the size `stat` reports and the
blocks `read` returns. -/
def streamedFile (req : Request) : Option (Nat × List (List UInt8)) :=
  match buildPath fs req.uri with
  | none => none
  | some fullPath =>
      match fs.stat fullPath with
      | some (false, size) => (fs.openRead fullPath).map fun blocks => (size, blocks)
      | _ => none

/-- The announced length is the number of bytes the file gives. -/
def SizedRight (isHead : Bool) (file : Option (Nat × List (List UInt8))) : Prop :=
  ∀ size blocks, isHead = false → file = some (size, blocks) →
    ssize size = (fileBytes fs blocks).length

theorem mimeFor_plain (name : List UInt8) : 13 ∉ mimeFor name := by
  have htable : ∀ row ∈ mimeTable, 13 ∉ row.2 := by decide
  unfold mimeFor
  split
  · decide
  · split
    · rename_i heq
      exact htable _ (List.mem_of_find?_eq_some heq)
    · decide

theorem streamed_framed {o : List UInt8} {isHead : Bool} {c : Conn} (h : Fresh o isHead c)
    (size : Nat) (blocks : List (List UInt8)) :
    Framed o isHead (SizedRight fs isHead (some (size, blocks)))
      (match jppHttpRespBegin size c with
        | (false, c) => c
        | (true, c) => (jppHttpRespFinish (streamFile fs blocks c)).2) := by
  intro halive hdone hkeep
  unfold jppHttpRespBegin at halive hdone hkeep ⊢
  rw [if_neg (by simp [h.started])] at halive hdone hkeep ⊢
  have hstart : (startResponse (ssize size) c).2.peerGone = false := by
    split at halive
    · rename_i heq
      rw [heq]
      exact halive
    · rename_i heq
      rw [heq]
      exact streamFile_gone fs halive
  obtain ⟨hc, sends, heq⟩ := startResponse_alive hstart
  simp only [heq, jppHttpRespFinish] at halive hdone hkeep ⊢
  obtain ⟨sends', hstream⟩ :=
    @streamFile_alive fs blocks (startedConn (ssize size) c sends) rfl halive
  rw [hstream] at hkeep ⊢
  simp only [startedConn, h.suppress] at hkeep ⊢
  by_cases hneg : ssize size < 0
  · -- announced in chunks, and none is sent
    rw [keptAlive, h.suppress] at hkeep
    cases isHead with
    | true => simp [hneg] at hkeep
    | false =>
        obtain ⟨sent, hsent, hread⟩ := h.read hc (ssize size)
        refine ⟨sent, by simpa [hneg] using hsent, ?_⟩
        have hempty := hread []
        rw [List.append_nil, if_neg (by simp), if_pos hneg] at hempty
        have hnone : readResponse false (sent.length + 1) sent = none := hempty
        simp only [WellFormed, hnone, Option.map_none, reduceCtorEq, false_iff]
        intro hright
        have := hright size blocks rfl rfl
        omega
  · obtain ⟨bytes, hbytes, hwf⟩ := h.wellFormed_sized hc (not_lt.mp hneg) (fileBytes fs blocks)
    refine ⟨bytes, ?_, hwf.trans ?_⟩
    · rw [← hbytes]
      simp [hneg]
    · unfold SizedRight
      constructor
      · rintro hlen _ _ hHead heq
        obtain ⟨rfl, rfl⟩ := Prod.mk.inj (Option.some.inj heq)
        exact hlen hHead
      · exact fun hright hHead => hright size blocks hHead rfl

theorem handleGet_framed {o : List UInt8} {isHead : Bool} {c : Conn} (h : Fresh o isHead c) :
    Framed o isHead (SizedRight fs isHead (streamedFile fs c.req)) (handleGet fs c) := by
  have noFile : ∀ {c'}, Framed o isHead True c' →
      Framed o isHead (SizedRight fs isHead none) c' :=
    fun h' => h'.congr (by simp [SizedRight])
  unfold handleGet streamedFile
  cases buildPath fs c.req.uri with
  | none => exact noFile (answerErr_framed h (by decide) (by decide))
  | some fullPath =>
      simp only
      cases fs.stat fullPath with
      | none => exact noFile (answerErr_framed h (by decide) (by decide))
      | some st =>
          obtain ⟨isDir, size⟩ := st
          cases isDir with
          | true =>
              exact noFile
                ((h.setType (by decide)).page (directoryPage_ne_nil fs _ _) (by decide))
          | false =>
              simp only
              cases fs.openRead fullPath with
              | none => exact noFile (answerErr_framed h (by decide) (by decide))
              | some blocks =>
                  exact streamed_framed fs (h.setType (mimeFor_plain fullPath)) size blocks

/-- Nothing on the response side has moved. -/
structure SameResponse (c c' : Conn) : Prop where
  out : c'.out = c.out
  started : c'.respStarted = c.respStarted
  done : c'.respDone = c.respDone
  suppress : c'.suppressBody = c.suppressBody
  status : c'.status = c.status
  hdr : c'.respHdr = c.respHdr
  gone : c'.peerGone = c.peerGone

theorem Fresh.of_sameResponse {o : List UInt8} {isHead : Bool} {c c' : Conn}
    (h : Fresh o isHead c) (hs : SameResponse c c') : Fresh o isHead c' :=
  ⟨by rw [hs.gone, hs.out]; exact h.out, hs.started.trans h.started, hs.done.trans h.done,
    hs.suppress.trans h.suppress, by rw [hs.status]; exact h.status,
    by rw [hs.hdr]; exact h.hdr⟩

theorem jppHttpRecv_sameResponse (len : Nat) (c : Conn) :
    SameResponse c (jppHttpRecv len c).2 := by
  unfold jppHttpRecv
  split_ifs
  · exact ⟨rfl, rfl, rfl, rfl, rfl, rfl, rfl⟩
  · exact ⟨rfl, rfl, rfl, rfl, rfl, rfl, rfl⟩
  · cases hrecv : sockRecv (min len (c.req.contentLen - c.bodyRead)) c with
    | mk r c₁ =>
        simp only [hrecv]
        cases r with
        | bytes data =>
            rw [(sockRecv_bytes hrecv).2.2]
            exact ⟨rfl, rfl, rfl, rfl, rfl, rfl, rfl⟩
        | timeout =>
            rw [sockRecv_none hrecv (by simp)]
            exact ⟨rfl, rfl, rfl, rfl, rfl, rfl, rfl⟩
        | error =>
            rw [sockRecv_none hrecv (by simp)]
            exact ⟨rfl, rfl, rfl, rfl, rfl, rfl, rfl⟩

theorem receiveFile_fresh {o : List UInt8} {isHead : Bool} (fuel : Nat) :
    ∀ (count remaining : Nat) {c : Conn}, Fresh o isHead c →
      Fresh o isHead (receiveFile fs fuel count remaining c).2 := by
  induction fuel with
  | zero => exact fun _ _ _ h => h
  | succ fuel ih =>
      intro count remaining c h
      unfold receiveFile
      split
      · exact h
      · have hrecv := h.of_sameResponse (jppHttpRecv_sameResponse (min remaining fs.ioSize) c)
        split
        · rename_i heq
          rw [heq] at hrecv
          exact ih _ _ hrecv
        · rename_i heq
          rw [heq] at hrecv
          exact hrecv
        · rename_i heq
          rw [heq] at hrecv
          split_ifs
          exacts [ih _ _ hrecv, hrecv]

theorem storeBody_framed {o : List UInt8} {isHead : Bool} {c : Conn} (h : Fresh o isHead c) :
    Framed o isHead True (storeBody fs c) := by
  have hrecv := receiveFile_fresh fs (c.recvs.length + c.bodyPre.length + 2) 0 c.req.contentLen h
  unfold storeBody
  split
  · rename_i heq
    rw [heq] at hrecv
    have hclose : Fresh o isHead (jppHttpRespCloseConn _) :=
      ⟨hrecv.out, hrecv.started, hrecv.done, hrecv.suppress, hrecv.status, hrecv.hdr⟩
    exact answerErr_framed hclose (by decide) (by decide)
  · rename_i heq
    rw [heq] at hrecv
    exact answerErr_framed hrecv (by decide) (by decide)
  · rename_i heq
    rw [heq] at hrecv
    exact answerEmpty_framed hrecv (by decide)

/-- The interim response leaves the response itself open. -/
theorem Fresh.sendContinue {o : List UInt8} {isHead : Bool} {c : Conn} (h : Fresh o isHead c)
    (hout : c.out = o) : Fresh o isHead (jppHttpSendContinue c).2 := by
  have hout' : (jppHttpSendContinue c).2.peerGone = false →
      (jppHttpSendContinue c).2.out = o ++ continueText := by
    intro halive
    obtain ⟨_, sends, heq⟩ := sendAll_alive halive
    rw [jppHttpSendContinue, heq, hout]
    rfl
  refine ⟨fun halive => .inr (hout' halive), ?_, ?_, ?_, ?_, ?_⟩ <;>
    unfold jppHttpSendContinue sendAll <;> split_ifs
  all_goals first
    | exact h.started | exact h.done | exact h.suppress | exact h.status | exact h.hdr

theorem handlePut_framed {o : List UInt8} {isHead : Bool} {c : Conn} (h : Fresh o isHead c)
    (hout : c.out = o) : Framed o isHead True (handlePut fs c) := by
  unfold handlePut
  split
  · exact answerErr_framed h (by decide) (by decide)
  · split
    · exact answerErr_framed h (by decide) (by decide)
    · have hcont : ∀ (p : Prop) [Decidable p],
          Fresh o isHead (if p then (jppHttpSendContinue c).2 else c) := by
        intro p _
        split_ifs
        exacts [h.sendContinue hout, h]
      simp only
      split
      · exact answerErr_framed (hcont _) (by decide) (by decide)
      · exact storeBody_framed fs (hcont _)

/-- The file a request is answered with, when the request gets so far. -/
def answeredFile (req : Request) : Option (Nat × List (List UInt8)) :=
  if checkAuth fs req ∧ req.method = ascii "GET" then streamedFile fs req else none

/-- A WebDAV handler leaves one well-formed response, but for a file of another size
than announced. -/
theorem webdavDispatch_framed {o : List UInt8} {c : Conn}
    (h : Fresh o (c.req.method == ascii "HEAD") c) (hout : c.out = o) :
    Framed o (c.req.method == ascii "HEAD")
      (SizedRight fs false (answeredFile fs c.req)) (webdavDispatch fs c) := by
  have noFile : ∀ {c'}, (checkAuth fs c.req = false ∨ c.req.method ≠ ascii "GET") →
      Framed o (c.req.method == ascii "HEAD") True c' →
      Framed o (c.req.method == ascii "HEAD")
        (SizedRight fs false (answeredFile fs c.req)) c' := by
    intro c' hne h'
    refine h'.congr ?_
    have hnone : answeredFile fs c.req = none := by
      rw [answeredFile, if_neg]
      rintro ⟨hauth, hget⟩
      rcases hne with hne | hne
      · simp [hne] at hauth
      · exact hne hget
    simp [SizedRight, hnone]
  unfold webdavDispatch
  simp only
  by_cases hopt : c.req.method = ascii "OPTIONS"
  · rw [if_pos hopt]
    exact noFile (.inr (by rw [hopt]; decide)) (handleOptions_framed h)
  rw [if_neg hopt]
  by_cases hauth : checkAuth fs c.req = true
  case neg =>
    rw [if_pos (by simpa using hauth)]
    exact noFile (.inl (by simpa using hauth)) (denyAuth_framed h)
  rw [if_neg (by simp [hauth])]
  by_cases hget : c.req.method = ascii "GET"
  · rw [if_neg (by rw [hget]; decide), if_pos hget]
    have := handleGet_framed fs h
    rw [hget] at this ⊢
    rw [answeredFile, if_pos ⟨hauth, hget⟩]
    exact this
  · split_ifs
    · exact noFile (.inr hget) (handlePropfind_framed fs h)
    · rename_i _ hhead
      exact noFile (.inr hget) ((handleGet_framed fs h).congr (by simp [SizedRight, hhead]))
    · exact noFile (.inr hget) (handlePut_framed fs h hout)
    · exact noFile (.inr hget) (handleDelete_framed fs h)
    · exact noFile (.inr hget) (handleMove_framed fs h)
    · exact noFile (.inr hget) (handleMkcol_framed fs h)
    · exact noFile (.inr hget)
        (answerErr_framed (h.setHdr (by decide)) (by decide) (by decide))

end Webdav

/-- The verification page is well formed when none of its strings is empty. -/
theorem lrvDispatch_framed {page : Option LrvPage} {o : List UInt8} {c : Conn}
    (h : Fresh o (c.req.method == ascii "HEAD") c) :
    Framed o (c.req.method == ascii "HEAD")
      (c.req.method = ascii "GET" → ∀ d, page = some d → ∀ data ∈ d.pieces, data ≠ [])
      (lrvDispatch page c) := by
  unfold lrvDispatch
  split_ifs with hmethod
  · unfold sendVerificationPage
    cases page with
    | none => exact (h.sendErr (by decide) (by decide)).congr (by simp)
    | some d =>
        refine ((h.setType (by decide)).chunks d.pieces).congr ?_
        have hhead : ascii "GET" ≠ ascii "HEAD" := by decide
        rcases hmethod with hmethod | hmethod
        · simp [hmethod, hhead]
        · simp [hmethod, hhead.symm]
  · rw [not_or] at hmethod
    exact ((h.setHdr (by decide)).sendErr (by decide) (by decide)).congr (by simp [hmethod.1])

/-- The two servers that run on the connection loop. -/
inductive Server where
  | fileServer (fs : Fs)
  | lrvServer (page : Option LrvPage)

def Server.handler : Server → Handler
  | .fileServer fs => webdavHandler fs
  | .lrvServer page => lrvHandler page

/-- The requests whose response is malformed: a file gives another number of bytes
than `stat` announced, or a string of the page is empty. -/
def Server.Misframes : Server → Request → Prop
  | .fileServer fs, req =>
      ∃ size blocks, answeredFile fs req = some (size, blocks) ∧
        ssize size ≠ (fileBytes fs blocks).length
  | .lrvServer page, req => req.method = ascii "GET" ∧ ∃ d, page = some d ∧ [] ∈ d.pieces

/-- A handler run leaves one response, malformed for those requests only. -/
theorem Server.framed (s : Server) {o : List UInt8} {c : Conn}
    (h : Fresh o (c.req.method == ascii "HEAD") c) (hout : c.out = o) :
    Framed o (c.req.method == ascii "HEAD") (¬ s.Misframes c.req) (s.handler.run c) := by
  cases s with
  | fileServer fs =>
      refine (webdavDispatch_framed fs h hout).congr ?_
      simp [SizedRight, Server.Misframes]
  | lrvServer page =>
      refine (lrvDispatch_framed h).congr ?_
      constructor
      · rintro hpieces ⟨hget, d, hd, hnil⟩
        exact hpieces hget d hd [] hnil rfl
      · rintro hmis hget d hd data hdata rfl
        exact hmis ⟨hget, d, hd, hdata⟩

theorem readRequestLoop_out (fuel : Nat) :
    ∀ (buf : List UInt8) (c : Conn), (readRequestLoop fuel buf c).2.out = c.out := by
  induction fuel with
  | zero => exact fun _ _ => rfl
  | succ fuel ih =>
      intro buf c
      unfold readRequestLoop
      split
      · rfl
      · split
        · rfl
        · rcases hrecv : sockRecv (reqBufBytes - buf.length) c with ⟨r, c₁⟩
          cases r with
          | bytes data =>
              simp only
              rw [ih, (sockRecv_bytes hrecv).2.2]
          | timeout =>
              simp only
              rw [sockRecv_none hrecv (by simp)]
          | error =>
              simp only
              rw [sockRecv_none hrecv (by simp)]

theorem readRequest_out (c : Conn) : (readRequest c).2.out = c.out :=
  readRequestLoop_out _ _ _

theorem readyConn_fresh (c : Conn) :
    Fresh c.out (c.req.method == ascii "HEAD") (readyConn c) :=
  ⟨fun _ => .inl rfl, rfl, rfl, rfl, (by decide : PlainStatus http200), [], rfl,
    ⟨by simp, rfl, rfl⟩⟩

theorem serveOnce_framed (s : Server) {c c' : Conn} {e : Exchange}
    (h : serveOnce s.handler.run c = some (e, c')) (hloops : e.loops = true) :
    ∃ bytes, c'.out = c.out ++ bytes ∧
      (WellFormed (e.req.method == ascii "HEAD") bytes ↔ ¬ s.Misframes e.req) := by
  unfold serveOnce at h
  split at h
  · rename_i block surplus c₁ hread
    have hout : c₁.out = c.out := by
      rw [← readRequest_out c, hread]
    cases hafter : afterHandler (s.handler.run (readyConn c₁)) with
    | mk c₂ loops =>
        simp only [hafter, Option.some.injEq, Prod.mk.injEq] at h
        obtain ⟨rfl, rfl⟩ := h
        obtain rfl : loops = true := hloops
        obtain ⟨rfl, _, hkeep, hdone, halive⟩ := afterHandler_loops hafter
        rw [← hout]
        exact s.framed (readyConn_fresh c₁) rfl halive hdone hkeep
  · simp at h

/-- Turns of the loop, one after the other; after each the loop goes on. -/
inductive Turns (handler : Conn → Conn) : Conn → List Exchange → Conn → Prop
  | nil (c : Conn) : Turns handler c [] c
  | cons {c₁ c₂ c₃ : Conn} {e : Exchange} {es : List Exchange}
      (hs : serveOnce handler c₁ = some (e, c₂)) (hl : e.loops = true)
      (hr : Turns handler c₂ es c₃) : Turns handler c₁ (e :: es) c₃

/-- The bytes on the socket after a run of turns are one well-formed response for
each request. -/
theorem turns_framed (s : Server) {c c' : Conn} {es : List Exchange}
    (h : Turns s.handler.run c es c') (hok : ∀ e ∈ es, ¬ s.Misframes e.req) :
    ∃ responses, c'.out = c.out ++ responses.flatten ∧
      List.Forall₂ (fun e bytes => WellFormed (e.req.method == ascii "HEAD") bytes)
        es responses := by
  induction h with
  | nil c => exact ⟨[], by simp, .nil⟩
  | @cons c₁ c₂ c₃ e es hs hl hr ih =>
      obtain ⟨bytes, hout, hwf⟩ := serveOnce_framed s hs hl
      obtain ⟨responses, hout', hall⟩ := ih fun e' he' => hok e' (List.mem_cons_of_mem _ he')
      refine ⟨bytes :: responses, ?_, .cons (hwf.mpr (hok e (by simp))) hall⟩
      rw [hout', hout, List.flatten_cons, List.append_assoc]

/-- When the loop goes on after a request, the bytes sent for it are exactly one
well-formed response unless the request is misframed; so over any run of turns. -/
theorem served_framed_iff (s : Server) :
    (∀ (c c' : Conn) (e : Exchange), serveOnce s.handler.run c = some (e, c') →
      e.loops = true → ∃ bytes, c'.out = c.out ++ bytes ∧
        (WellFormed (e.req.method == ascii "HEAD") bytes ↔ ¬ s.Misframes e.req)) ∧
    ∀ (c c' : Conn) (es : List Exchange), Turns s.handler.run c es c' →
      (∀ e ∈ es, ¬ s.Misframes e.req) →
      ∃ responses, c'.out = c.out ++ responses.flatten ∧
        List.Forall₂ (fun e bytes => WellFormed (e.req.method == ascii "HEAD") bytes)
          es responses :=
  ⟨fun _ _ _ h hl => serveOnce_framed s h hl, fun _ _ _ h hok => turns_framed s h hok⟩

/-- A card with one file, of a size and with the blocks `read` returns. -/
def cardWith (size : Nat) (blocks : List (List UInt8)) : Fs where
  sdRoot := ascii "/sd"
  password := ascii "pw"
  ioSize := 4096
  stat path := if path = ascii "/sd/a" then some (false, size) else none
  opendir _ := none
  openRead _ := some blocks
  create _ := true
  write _ := true
  deleteRecursive _ := true
  rename _ _ := true
  mkdir _ := true
  stack _ := 0

/-- An authorized GET of that file. -/
def getFile : Conn :=
  acceptedConn (ascii "GET /a HTTP/1.1" ++ crlf ++
    headerLine (ascii "Authorization") (ascii "Basic anBwZDpwdw==") ++ crlf ++ crlf) [.ready 4096]

/-- `stat` reports five bytes and `read` returns three: the connection is kept and
the client waits for two more. -/
theorem served_shortRead :
    ∃ e c', serveOnce (Server.fileServer (cardWith 5 [ascii "abc"])).handler.run getFile =
        some (e, c') ∧ e.loops = true ∧
      ¬ ∃ bytes, c'.out = getFile.out ++ bytes ∧
        WellFormed (e.req.method == ascii "HEAD") bytes := by
  have heval : (serveOnce (Server.fileServer (cardWith 5 [ascii "abc"])).handler.run getFile).map
      (fun r => (r.1.loops, decide (WellFormed (r.1.req.method == ascii "HEAD") r.2.out))) =
      some (true, false) := by decide
  obtain ⟨⟨e, c'⟩, hserve, hr⟩ := Option.map_eq_some_iff.mp heval
  obtain ⟨hloops, hbad⟩ := Prod.mk.inj hr
  refine ⟨e, c', hserve, hloops, ?_⟩
  rintro ⟨bytes, hout, hwf⟩
  have hbytes : c'.out = bytes := hout
  rw [← hbytes] at hwf
  exact of_decide_eq_false hbad hwf

/-- With a file of three bytes the response is well formed. -/
theorem served_framed_iff_wholeFile :
    ∃ e c' bytes, serveOnce (Server.fileServer (cardWith 3 [ascii "abc"])).handler.run getFile =
        some (e, c') ∧ e.loops = true ∧ c'.out = getFile.out ++ bytes ∧
      WellFormed (e.req.method == ascii "HEAD") bytes := by
  have heval : (serveOnce (Server.fileServer (cardWith 3 [ascii "abc"])).handler.run getFile).map
      (fun r => (r.1.loops, answeredFile (cardWith 3 [ascii "abc"]) r.1.req)) =
      some (true, some (3, [ascii "abc"])) := by decide
  obtain ⟨⟨e, c'⟩, hserve, hr⟩ := Option.map_eq_some_iff.mp heval
  obtain ⟨hloops, hfile⟩ := Prod.mk.inj hr
  obtain ⟨bytes, hout, hwf⟩ := (served_framed_iff _).1 getFile c' e hserve hloops
  refine ⟨e, c', bytes, hserve, hloops, hout, hwf.mpr ?_⟩
  rintro ⟨size, blocks, hfile', hsize⟩
  obtain ⟨rfl, rfl⟩ := Prod.mk.inj (Option.some.inj (hfile.symm.trans hfile'))
  exact hsize (by decide)

end Http
end JppDos
