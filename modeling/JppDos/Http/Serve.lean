import JppDos.Http.Response
import Mathlib.Logic.Relation

/-!
# The connection loop

`serve_conn` of `jpp_http_server_core.c` for any handler that reaches the
connection through the calls of the header only.
-/

namespace JppDos
namespace Http

open CText

/-- One call of the server API from a handler. -/
inductive ApiStep : Conn → Conn → Prop where
  | recv (len : Nat) (c : Conn) : ApiStep c (jppHttpRecv len c).2
  | sendContinue (c : Conn) : ApiStep c (jppHttpSendContinue c).2
  | closeConn (c : Conn) : ApiStep c (jppHttpRespCloseConn c)
  | setStatus (status : List UInt8) (c : Conn) : ApiStep c (jppHttpRespSetStatus status c)
  | setHdr (name value : List UInt8) (c : Conn) : ApiStep c (jppHttpRespSetHdr name value c)
  | send (body : List UInt8) (c : Conn) : ApiStep c (jppHttpRespSend body c).2
  | begin (len : Nat) (c : Conn) : ApiStep c (jppHttpRespBegin len c).2
  | write (data : List UInt8) (c : Conn) : ApiStep c (jppHttpRespWrite data c).2
  | finish (c : Conn) : ApiStep c (jppHttpRespFinish c).2
  | sendChunk (data : List UInt8) (c : Conn) : ApiStep c (jppHttpRespSendChunk data c).2
  | sendErr (status msg : List UInt8) (c : Conn) : ApiStep c (jppHttpRespSendErr status msg c).2

/-- Any number of calls. -/
def ApiReach : Conn → Conn → Prop := Relation.ReflTransGen ApiStep

/-- A `jpp_http_handler_fn`: whatever it decides on, it gets there by calls. -/
structure Handler where
  run : Conn → Conn
  api : ∀ c, ApiReach c (run c)

/-- One request served: its header block, the bytes that came in behind its body
and were dropped, the request and the body the handler got, whether the loop
goes on, and the stream then. -/
structure Exchange where
  block : List UInt8
  surplus : List UInt8
  req : Request
  body : List UInt8
  loops : Bool
  rest : List UInt8
deriving Repr, DecidableEq

/-- The request in the stream. -/
def Exchange.raw (e : Exchange) : List UInt8 := e.block ++ crlf ++ crlf ++ e.body

/-- The end of one turn of `serve_conn`: what is still sent, and whether the loop
goes on. -/
def afterHandler (c : Conn) : Conn × Bool :=
  if !c.respDone then
    if c.peerGone then (c, false)
    else if !c.respStarted then
      ((jppHttpRespSendErr http500 (ascii "No response") { c with keepAlive := false }).2, false)
    else (c, false)
  else if c.peerGone || !c.keepAlive then (c, false)
  -- an unread body leaves the stream mid-message
  else if c.bodyRead < c.req.contentLen then (c, false)
  else (c, true)

section Serve

variable (handler : Conn → Conn)

/-- The connection as the handler gets it. -/
def readyConn (c : Conn) : Conn := resetResponse { c with peerGone := false }

/-- One turn of `serve_conn`. -/
def serveOnce (c : Conn) : Option (Exchange × Conn) :=
  match readRequest c with
  | (.request block surplus, c) =>
      let (c', loops) := afterHandler (handler (readyConn c))
      some (⟨block, surplus, c.req, c'.handed, loops, c'.rx⟩, c')
  | _ => none

/-- `serve_conn`; `fuel` is the number of turns until `stop_req` is seen. -/
def serveConn : Nat → Conn → List Exchange
  | 0, _ => []
  | fuel + 1, c =>
      match serveOnce handler c with
      | none => []
      | some (e, c) => if e.loops then e :: serveConn fuel c else [e]

end Serve

/-- Nothing on the request side has moved. -/
structure SameBody (c c' : Conn) : Prop where
  handed : c'.handed = c.handed
  bodyPre : c'.bodyPre = c.bodyPre
  rx : c'.rx = c.rx
  bodyRead : c'.bodyRead = c.bodyRead
  req : c'.req = c.req

theorem SameBody.refl (c : Conn) : SameBody c c := ⟨rfl, rfl, rfl, rfl, rfl⟩

theorem SameBody.trans {c₁ c₂ c₃ : Conn} (h : SameBody c₁ c₂) (h' : SameBody c₂ c₃) :
    SameBody c₁ c₃ :=
  ⟨h'.handed.trans h.handed, h'.bodyPre.trans h.bodyPre, h'.rx.trans h.rx,
    h'.bodyRead.trans h.bodyRead, h'.req.trans h.req⟩

theorem sendAll_sameBody (data : List UInt8) (c : Conn) : SameBody c (sendAll data c).2 := by
  unfold sendAll
  split_ifs
  exacts [.refl c, .refl c, ⟨rfl, rfl, rfl, rfl, rfl⟩]

theorem andThen_sameBody {c : Conn} {r : Bool × Conn} {next : Conn → Bool × Conn}
    (h : SameBody c r.2) (h' : ∀ c', SameBody c' (next c').2) :
    SameBody c (andThen r next).2 := by
  unfold andThen
  split_ifs
  exacts [h.trans (h' r.2), h]

theorem sendFraming_sameBody (contentLen : Int) (c : Conn) :
    SameBody c (sendFraming contentLen c).2 := by
  unfold sendFraming
  refine andThen_sameBody (sendAll_sameBody _ c) fun c => ?_
  exact andThen_sameBody (sendAll_sameBody _ c) fun c => ⟨rfl, rfl, rfl, rfl, rfl⟩

theorem startResponse_sameBody (contentLen : Int) (c : Conn) :
    SameBody c (startResponse contentLen c).2 := by
  unfold startResponse
  refine andThen_sameBody (sendAll_sameBody _ c) fun c => ?_
  refine andThen_sameBody (sendAll_sameBody _ c) fun c => ?_
  have hkeep : SameBody c { c with keepAlive := keptAlive contentLen c } :=
    ⟨rfl, rfl, rfl, rfl, rfl⟩
  exact hkeep.trans (sendFraming_sameBody contentLen _)

theorem jppHttpRespSend_sameBody (body : List UInt8) (c : Conn) :
    SameBody c (jppHttpRespSend body c).2 := by
  unfold jppHttpRespSend
  split_ifs
  · exact .refl c
  · have hstart := startResponse_sameBody (ssize body.length) c
    split
    · rename_i c' heq
      rw [heq] at hstart
      exact hstart.trans ⟨rfl, rfl, rfl, rfl, rfl⟩
    · rename_i c' heq
      rw [heq] at hstart
      refine hstart.trans ?_
      simp only
      split_ifs
      · exact ⟨rfl, rfl, rfl, rfl, rfl⟩
      · exact (sendAll_sameBody body c').trans ⟨rfl, rfl, rfl, rfl, rfl⟩

theorem jppHttpRespSetHdr_sameBody (name value : List UInt8) (c : Conn) :
    SameBody c (jppHttpRespSetHdr name value c) := by
  unfold jppHttpRespSetHdr
  split_ifs
  exacts [.refl c, .refl c, ⟨rfl, rfl, rfl, rfl, rfl⟩]

theorem jppHttpRespSendErr_sameBody (status msg : List UInt8) (c : Conn) :
    SameBody c (jppHttpRespSendErr status msg c).2 := by
  unfold jppHttpRespSendErr
  split_ifs
  · exact .refl c
  · have hstatus : SameBody c (jppHttpRespSetStatus status c) := ⟨rfl, rfl, rfl, rfl, rfl⟩
    have htype : SameBody c (jppHttpRespSetType (ascii "text/plain")
        (jppHttpRespSetStatus status c)) := hstatus.trans (jppHttpRespSetHdr_sameBody _ _ _)
    exact htype.trans (jppHttpRespSend_sameBody msg _)

theorem sendChunkBody_sameBody (data : List UInt8) (c : Conn) :
    SameBody c (sendChunkBody data c).2 := by
  unfold sendChunkBody
  split_ifs
  · exact ⟨rfl, rfl, rfl, rfl, rfl⟩
  · exact (sendAll_sameBody _ c).trans ⟨rfl, rfl, rfl, rfl, rfl⟩
  · exact .refl c
  · refine andThen_sameBody (sendAll_sameBody _ c) fun c => ?_
    exact andThen_sameBody (sendAll_sameBody _ c) fun c => sendAll_sameBody _ c

theorem jppHttpRespSendChunk_sameBody (data : List UInt8) (c : Conn) :
    SameBody c (jppHttpRespSendChunk data c).2 := by
  unfold jppHttpRespSendChunk
  split_ifs
  · exact sendChunkBody_sameBody data c
  · have hstart := startResponse_sameBody (-1) c
    split
    · rename_i c' heq
      rw [heq] at hstart
      exact hstart.trans ⟨rfl, rfl, rfl, rfl, rfl⟩
    · rename_i c' heq
      rw [heq] at hstart
      exact hstart.trans (sendChunkBody_sameBody data c')

theorem BodyInv.of_sameBody {body : List UInt8} {c c' : Conn} (h : BodyInv body c)
    (hs : SameBody c c') : BodyInv body c' :=
  ⟨by rw [hs.handed, hs.bodyPre, hs.rx]; exact h.stream,
    by rw [hs.bodyRead, hs.handed]; exact h.read,
    by rw [hs.bodyRead, hs.bodyPre, hs.req]; exact h.bound⟩

theorem jppHttpRecv_req (len : Nat) (c : Conn) : (jppHttpRecv len c).2.req = c.req := by
  unfold jppHttpRecv
  split_ifs
  · rfl
  · rfl
  · cases hrecv : sockRecv (min len (c.req.contentLen - c.bodyRead)) c with
    | mk r c₁ =>
        simp only [hrecv]
        cases r with
        | bytes data => rw [(sockRecv_bytes hrecv).2.2]
        | timeout => rw [sockRecv_none hrecv (by simp)]
        | error => rw [sockRecv_none hrecv (by simp)]

theorem BodyInv.api {body : List UInt8} {c c' : Conn} (h : BodyInv body c)
    (hstep : ApiStep c c') : BodyInv body c' ∧ c'.req = c.req := by
  have same : ∀ {c'}, SameBody c c' → BodyInv body c' ∧ c'.req = c.req :=
    fun hs => ⟨h.of_sameBody hs, hs.req⟩
  cases hstep with
  | recv len => exact ⟨h.recv len, jppHttpRecv_req len c⟩
  | sendContinue => exact same (sendAll_sameBody _ c)
  | closeConn => exact same ⟨rfl, rfl, rfl, rfl, rfl⟩
  | setStatus status => exact same ⟨rfl, rfl, rfl, rfl, rfl⟩
  | setHdr name value => exact same (jppHttpRespSetHdr_sameBody name value c)
  | send data => exact same (jppHttpRespSend_sameBody data c)
  | begin len =>
      refine same ?_
      unfold jppHttpRespBegin
      split_ifs
      exacts [.refl c, startResponse_sameBody _ c]
  | write data =>
      refine same ?_
      unfold jppHttpRespWrite
      split_ifs
      exacts [.refl c, .refl c, sendAll_sameBody data c]
  | finish => exact same ⟨rfl, rfl, rfl, rfl, rfl⟩
  | sendChunk data => exact same (jppHttpRespSendChunk_sameBody data c)
  | sendErr status msg => exact same (jppHttpRespSendErr_sameBody status msg c)

theorem BodyInv.reach {body : List UInt8} {c c' : Conn} (h : BodyInv body c)
    (hreach : ApiReach c c') : BodyInv body c' ∧ c'.req = c.req := by
  induction hreach with
  | refl => exact ⟨h, rfl⟩
  | tail _ hstep ih =>
      obtain ⟨hinv, hreq⟩ := ih
      obtain ⟨hinv', hreq'⟩ := hinv.api hstep
      exact ⟨hinv', hreq'.trans hreq⟩

section InStep

variable (handler : Handler)

theorem afterHandler_loops {c c' : Conn} (h : afterHandler c = (c', true)) :
    c' = c ∧ c.req.contentLen ≤ c.bodyRead ∧ c.keepAlive = true ∧ c.respDone = true ∧
      c.peerGone = false := by
  unfold afterHandler at h
  split_ifs at h with h1 h2 h3 h4 h5 <;>
    simp only [Prod.mk.injEq, Bool.false_eq_true, and_false] at h
  simp only [Bool.or_eq_true, Bool.not_eq_true', not_or] at h4
  simp only [Bool.not_eq_true', Bool.not_eq_false] at h1
  exact ⟨h.1.symm, by omega, by simpa using h4.2, h1, by simpa using h4.1⟩

/-- One turn of the loop takes the next request off the stream, and with it the
surplus behind its body. -/
theorem serveOnce_spec {c c' : Conn} {e : Exchange}
    (h : serveOnce handler.run c = some (e, c')) :
    findBlankLine c.rx = some e.block.length ∧ c.rx.take e.block.length = e.block ∧
      e.req = parseHeaderBlock e.block ∧
      (e.loops = true → e.rest = c'.rx ∧ e.body.length = e.req.contentLen ∧
        c.rx = e.raw ++ e.surplus ++ e.rest) := by
  unfold serveOnce at h
  split at h
  · rename_i block surplus c₁ hread
    obtain ⟨hnext, hdrop, hpre, hsurplus⟩ := readRequest_request hread
    have hinv : BodyInv (c₁.bodyPre ++ c₁.rx) (readyConn c₁) := by
      obtain ⟨hbody, hhanded⟩ := hnext.fresh
      refine ⟨?_, ?_, ?_⟩
      · simp [readyConn, resetResponse, hhanded]
      · simp [readyConn, resetResponse, hhanded, hbody]
      · simpa [readyConn, resetResponse, hbody] using hpre
    obtain ⟨hinv', hreq⟩ := hinv.reach (handler.api (readyConn c₁))
    cases hafter : afterHandler (handler.run (readyConn c₁)) with
    | mk c₂ loops =>
        simp only [hafter, Option.some.injEq, Prod.mk.injEq] at h
        obtain ⟨rfl, rfl⟩ := h
        refine ⟨hnext.first, hnext.prefix_eq, hnext.req, ?_⟩
        rintro rfl
        obtain ⟨rfl, hread', _⟩ := afterHandler_loops hafter
        obtain ⟨hlen, hbody⟩ := hinv'.complete hread'
        rw [hreq] at hlen
        refine ⟨rfl, hlen, ?_⟩
        -- the surplus came in with the header block, so behind the whole body
        have htail : c₁.bodyPre ++ surplus ++ c₁.rx =
            (handler.run (readyConn c₁)).handed ++ surplus ++ (handler.run (readyConn c₁)).rx := by
          by_cases hs : surplus = []
          · rw [hs, List.append_nil, List.append_nil, hbody]
          · obtain ⟨hpre', hrx⟩ := List.append_inj hbody ((hsurplus hs).trans hlen.symm)
            rw [hpre', hrx]
        obtain ⟨_, hcrlf⟩ := findBlankLine_le hnext.first
        calc c.rx = c.rx.take block.length ++
                ((c.rx.drop block.length).take 4 ++ (c.rx.drop block.length).drop 4) := by
              rw [List.take_append_drop, List.take_append_drop]
          _ = block ++ ([13, 10, 13, 10] ++ c.rx.drop (block.length + 4)) := by
              rw [hnext.prefix_eq, hcrlf, List.drop_drop]
          _ = _ := by
              rw [hdrop, htail]
              simp [Exchange.raw, crlf]
  · simp at h

/-- The stream is cut into the requests served so far and what follows them: at
every turn of the loop all bytes taken off it belong to served requests. -/
def InStep (stream : List UInt8) (es : List Exchange) : Prop :=
  ∀ es₁ e es₂, es = es₁ ++ e :: es₂ → e.loops = true →
    stream = (es₁ ++ [e]).flatMap Exchange.raw ++ e.rest

/-- The first requests of a stream. -/
def streamRequests : Nat → List UInt8 → List Request
  | 0, _ => []
  | n + 1, stream =>
      match findBlankLine stream with
      | none => []
      | some hdrEnd =>
          let req := parseHeaderBlock (stream.take hdrEnd)
          req :: streamRequests n (stream.drop (hdrEnd + 4 + req.contentLen))

attribute [local simp] serveConn

/-- With the surplus put back the stream is cut exactly. -/
theorem serveConn_stream :
    ∀ {fuel : Nat} {c : Conn} {es₁ es₂ : List Exchange} {e : Exchange},
      serveConn handler.run fuel c = es₁ ++ e :: es₂ → e.loops = true →
      c.rx = (es₁ ++ [e]).flatMap (fun e => e.raw ++ e.surplus) ++ e.rest
  | 0, _, es₁, _, _, h, _ => by cases es₁ <;> simp [serveConn] at h
  | fuel + 1, c, es₁, es₂, e, h, hloops => by
      unfold serveConn at h
      split at h
      · cases es₁ <;> simp at h
      · rename_i e' c' hserve
        obtain ⟨_, _, _, hspec⟩ := serveOnce_spec handler hserve
        cases es₁ with
        | nil =>
            have he : e' = e := by
              split_ifs at h <;> exact (List.cons.inj h).1
            subst he
            obtain ⟨_, _, hrx⟩ := hspec hloops
            simpa using hrx
        | cons e₁ es₁ =>
            split_ifs at h with hl
            · obtain ⟨rfl, htail⟩ := List.cons.inj h
              obtain ⟨hrest, _, hrx⟩ := hspec hl
              have ih := serveConn_stream htail hloops
              rw [hrx, hrest, ih]
              simp
            · simp at h

theorem serveConn_all_loop {fuel : Nat} {c : Conn} {es₁ es₂ : List Exchange} {e : Exchange}
    (h : serveConn handler.run fuel c = es₁ ++ e :: es₂) : ∀ e' ∈ es₁, e'.loops = true := by
  induction fuel generalizing c es₁ with
  | zero => cases es₁ <;> simp [serveConn] at h
  | succ fuel ih =>
      unfold serveConn at h
      split at h
      · cases es₁ <;> simp at h
      · cases es₁ with
        | nil => simp
        | cons e₁ es₁ =>
            split_ifs at h with hl
            · obtain ⟨rfl, htail⟩ := List.cons.inj h
              rintro e' (_ | ⟨_, hmem⟩)
              exacts [hl, ih htail e' hmem]
            · simp at h

/-- The requests handed to the handler, when nothing was dropped between them. -/
theorem serveConn_requests :
    ∀ {fuel : Nat} {c : Conn},
      (∀ e ∈ serveConn handler.run fuel c, e.loops = true → e.surplus = []) →
      (serveConn handler.run fuel c).map Exchange.req =
        streamRequests (serveConn handler.run fuel c).length c.rx
  | 0, _, _ => rfl
  | fuel + 1, c, hclean => by
      unfold serveConn at hclean ⊢
      cases hserve : serveOnce handler.run c with
      | none => rfl
      | some r =>
          obtain ⟨e, c'⟩ := r
          simp only [hserve] at hclean ⊢
          obtain ⟨hfind, htake, hreq, hspec⟩ := serveOnce_spec handler hserve
          by_cases hl : e.loops = true
          · rw [if_pos hl] at hclean ⊢
            obtain ⟨hrest, hlen, hrx⟩ := hspec hl
            have ih := @serveConn_requests fuel c'
              fun e' he' => hclean e' (List.mem_cons_of_mem _ he')
            rw [List.map_cons, List.length_cons, streamRequests, hfind]
            simp only [htake]
            rw [ih, hreq]
            congr 2
            rw [← hreq, ← hlen, hrx, hclean e (by simp) hl, List.append_nil, hrest]
            exact (List.drop_left' (by simp [Exchange.raw, crlf]; omega)).symm
          · rw [if_neg hl]
            simp [streamRequests, hfind, htake, hreq]

theorem length_flatMap_surplus (es : List Exchange) :
    (es.flatMap fun e => e.raw ++ e.surplus).length =
      (es.flatMap Exchange.raw).length + (es.flatMap Exchange.surplus).length := by
  induction es with
  | nil => rfl
  | cons e es ih =>
      simp only [List.flatMap_cons, List.length_append, ih]
      omega

/-- The loop stays in step with the stream exactly when no receive call that
completes a header block brings bytes from behind the request; the requests
handed to the handler are then the first ones of the stream. -/
theorem serveConn_in_step (fuel : Nat) (c : Conn) :
    let es := serveConn handler.run fuel c
    (InStep c.rx es ↔ ∀ e ∈ es, e.loops = true → e.surplus = []) ∧
      ((∀ e ∈ es, e.loops = true → e.surplus = []) →
        es.map Exchange.req = streamRequests es.length c.rx) := by
  intro es
  refine ⟨⟨?_, ?_⟩, serveConn_requests handler⟩
  · intro hstep e he hl
    obtain ⟨es₁, es₂, hes⟩ := List.append_of_mem he
    have hcut := hstep es₁ e es₂ hes hl
    rw [serveConn_stream handler hes hl, List.append_left_inj] at hcut
    have hlen := congrArg List.length hcut
    rw [length_flatMap_surplus] at hlen
    have hnil : (es₁ ++ [e]).flatMap Exchange.surplus = [] :=
      List.length_eq_zero_iff.mp (by omega)
    exact List.flatMap_eq_nil_iff.mp hnil e (by simp)
  · intro hclean es₁ e es₂ hes hl
    rw [serveConn_stream handler hes hl, List.append_left_inj]
    refine List.flatMap_congr fun e' he' => ?_
    have hmem : e' ∈ es ∧ e'.loops = true := by
      rcases List.mem_append.mp he' with he' | he'
      · exact ⟨by rw [hes]; exact List.mem_append_left _ he',
          serveConn_all_loop handler hes e' he'⟩
      · obtain rfl := List.mem_singleton.mp he'
        exact ⟨by rw [hes]; simp, hl⟩
    rw [hclean e' hmem.1 hmem.2, List.append_nil]

end InStep

/-- A connection just accepted. -/
def acceptedConn (rx : List UInt8) (recvs : List RecvAnswer) : Conn where
  rx := rx
  recvs := recvs
  out := []
  sends := []
  req := emptyRequest
  bodyRead := 0
  bodyPre := []
  keepAlive := true
  status := []
  respHdr := []
  respStarted := false
  respChunked := false
  respDone := false
  suppressBody := false
  peerGone := false
  handed := []

/-- Reads up to eight body bytes twice and answers 200 OK. -/
def shortBodyHandler : Handler where
  run c := (jppHttpRespSend [] (jppHttpRecv 8 (jppHttpRecv 8 c).2).2).2
  api c := .tail (.tail (.single (.recv 8 c)) (.recv 8 _)) (.send [] _)

/-- A PUT with a body of three bytes and a GET behind it. -/
def twoRequests : List UInt8 :=
  ascii "PUT /a HTTP/1.1" ++ crlf ++ ascii "Content-Length: 3" ++ crlf ++ crlf ++ ascii "abc" ++
    ascii "GET /b HTTP/1.1" ++ crlf ++ crlf

/-- Two requests in one packet: the second one is dropped with the header block
of the first, and the connection is kept. -/
theorem serveConn_pipelined :
    let c := acceptedConn twoRequests [.ready 4096]
    let es := serveConn shortBodyHandler.run 3 c
    ¬ InStep c.rx es ∧ es.map (fun e => e.req.uri) = [ascii "/a"] ∧
      (streamRequests 2 c.rx).map Request.uri = [ascii "/a", ascii "/b"] := by
  intro c es
  refine ⟨fun hstep => ?_, by decide, by decide⟩
  obtain ⟨e, hes⟩ : ∃ e, es = [] ++ e :: [] ∧ e.loops = true ∧
      c.rx ≠ ([] ++ [e]).flatMap Exchange.raw ++ e.rest :=
    ⟨⟨ascii "PUT /a HTTP/1.1" ++ crlf ++ ascii "Content-Length: 3",
      ascii "GET /b HTTP/1.1" ++ crlf ++ crlf,
      ⟨ascii "PUT", ascii "/a", ascii "HTTP/1.1", [(ascii "Content-Length", ascii "3")], 3, true⟩,
      ascii "abc", true, []⟩, by decide⟩
  exact hes.2.2 (hstep [] e [] hes.1 hes.2.1)

/-- The same stream in three packets, the first one cut inside the body. -/
theorem serveConn_in_step_twoRequests :
    let c := acceptedConn twoRequests [.ready 39, .ready 2, .ready 4096]
    let es := serveConn shortBodyHandler.run 3 c
    es.length = 2 ∧ InStep c.rx es ∧ es.map Exchange.req = streamRequests es.length c.rx := by
  intro c es
  have h := serveConn_in_step shortBodyHandler 3 c
  have hclean : ∀ e ∈ es, e.loops = true → e.surplus = [] := by decide
  exact ⟨by decide, h.1.mpr hclean, h.2 hclean⟩

end Http
end JppDos
