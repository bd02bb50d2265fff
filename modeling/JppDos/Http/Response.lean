import JppDos.Http.Conn
import JppDos.Lib.Numerals

/-!
# The response half of the HTTP server

`jpp_http_resp_*` of `jpp_http_server_core.c`: the header block goes out with
the first body call, and three families of calls send the body whole, of a
length announced up front, or in chunks.

A run after which the peer has not gone is one in which every send went out
whole, so each call is described by what it did when the peer is still there.

Main fact:
* `startResponse_alive`, `jppHttpRespSend_alive`: what a header block and a whole
  response have put on the wire.
-/

namespace JppDos
namespace Http

open CText Numerals

/-- `JPP_HTTP_RESP_HDR_BYTES`. -/
def respHdrBytes : Nat := 512

def http200 : List UInt8 := ascii "200 OK"
def http201 : List UInt8 := ascii "201 Created"
def http204 : List UInt8 := ascii "204 No Content"
def http207 : List UInt8 := ascii "207 Multi-Status"
def http400 : List UInt8 := ascii "400 Bad Request"
def http401 : List UInt8 := ascii "401 Unauthorized"
def http404 : List UInt8 := ascii "404 Not Found"
def http405 : List UInt8 := ascii "405 Method Not Allowed"
def http500 : List UInt8 := ascii "500 Internal Server Error"

/-- `reset_response`. -/
def resetResponse (c : Conn) : Conn :=
  { c with
    status := http200
    respHdr := []
    respStarted := false
    respChunked := false
    respDone := false
    suppressBody := c.req.method == ascii "HEAD" }

/-- `jpp_http_resp_close_conn`. -/
def jppHttpRespCloseConn (c : Conn) : Conn := { c with keepAlive := false }

/-- `jpp_http_resp_set_status`; the buffer holds 39 characters. -/
def jppHttpRespSetStatus (status : List UInt8) (c : Conn) : Conn :=
  { c with status := status.take 39 }

/-- One header line. -/
def headerLine (name value : List UInt8) : List UInt8 := name ++ ascii ": " ++ value

/-- `jpp_http_resp_set_hdr`; a header that does not fit is dropped. -/
def jppHttpRespSetHdr (name value : List UInt8) (c : Conn) : Conn :=
  if c.respStarted then c
  else if (headerLine name value ++ crlf).length ≥ respHdrBytes - c.respHdr.length then c
  else { c with respHdr := c.respHdr ++ (headerLine name value ++ crlf) }

/-- `jpp_http_resp_set_type`. -/
def jppHttpRespSetType (contentType : List UInt8) (c : Conn) : Conn :=
  jppHttpRespSetHdr (ascii "Content-Type") contentType c

/-- A call that goes on only when the one before succeeded. -/
def andThen (r : Bool × Conn) (next : Conn → Bool × Conn) : Bool × Conn :=
  if r.1 then next r.2 else (false, r.2)

/-- A `size_t` cast to `ssize_t`, with 32 bits each. -/
def ssize (n : Nat) : Int :=
  if n % 2 ^ 32 < 2 ^ 31 then (n % 2 ^ 32 : Nat) else (n % 2 ^ 32 : Nat) - 2 ^ 32

/-- The line that announces how the body ends. -/
def framingLine (contentLen : Int) : List UInt8 :=
  if contentLen ≥ 0 then ascii "Content-Length: " ++ showBase 10 contentLen.toNat
  else ascii "Transfer-Encoding: chunked"

/-- The line that announces what happens to the connection. -/
def connectionLine (keepAlive : Bool) : List UInt8 :=
  ascii "Connection: " ++ if keepAlive then ascii "keep-alive" else ascii "close"

/-- Whether the connection outlives a response; a HEAD response has no chunks to
delimit it. -/
def keptAlive (contentLen : Int) (c : Conn) : Bool :=
  if contentLen < 0 ∧ c.suppressBody then false else c.keepAlive

/-- The end of `start_response`, from the framing line on. -/
def sendFraming (contentLen : Int) (c : Conn) : Bool × Conn :=
  andThen (sendAll (framingLine contentLen ++ crlf) c) fun c =>
  andThen (sendAll (connectionLine c.keepAlive ++ crlf ++ crlf) c) fun c =>
  (true, { c with respStarted := true, respChunked := contentLen < 0 })

/-- `start_response`; a negative length selects chunks. -/
def startResponse (contentLen : Int) (c : Conn) : Bool × Conn :=
  andThen (sendAll (ascii "HTTP/1.1 " ++ c.status ++ crlf) c) fun c =>
  andThen (sendAll c.respHdr c) fun c =>
  sendFraming contentLen { c with keepAlive := keptAlive contentLen c }

/-- `jpp_http_resp_send`, its body already measured. -/
def jppHttpRespSend (body : List UInt8) (c : Conn) : Bool × Conn :=
  if c.respStarted then (false, c)
  else
    match startResponse (ssize body.length) c with
    | (false, c) => (false, { c with respDone := true })
    | (true, c) =>
        let (ok, c) := if c.suppressBody then (true, c) else sendAll body c
        (ok, { c with respDone := true })

/-- `jpp_http_resp_begin`. -/
def jppHttpRespBegin (contentLen : Nat) (c : Conn) : Bool × Conn :=
  if c.respStarted then (false, c) else startResponse (ssize contentLen) c

/-- `jpp_http_resp_write`. -/
def jppHttpRespWrite (data : List UInt8) (c : Conn) : Bool × Conn :=
  if !c.respStarted || c.respChunked then (false, c)
  else if data = [] ∨ c.suppressBody then (true, c)
  else sendAll data c

/-- `jpp_http_resp_finish`. -/
def jppHttpRespFinish (c : Conn) : Bool × Conn := (!c.peerGone, { c with respDone := true })

/-- The body of `jpp_http_resp_send_chunk` once the header block is out. -/
def sendChunkBody (data : List UInt8) (c : Conn) : Bool × Conn :=
  if data = [] then
    let (ok, c) := if c.suppressBody then (true, c) else sendAll (ascii "0" ++ crlf ++ crlf) c
    (ok, { c with respDone := true })
  else if c.suppressBody then (true, c)
  else
    andThen (sendAll (showBase 16 data.length ++ crlf) c) fun c =>
    andThen (sendAll data c) fun c =>
    sendAll crlf c

/-- `jpp_http_resp_send_chunk`; no data ends the body. -/
def jppHttpRespSendChunk (data : List UInt8) (c : Conn) : Bool × Conn :=
  if c.respStarted then sendChunkBody data c
  else
    match startResponse (-1) c with
    | (false, c) => (false, { c with respDone := true })
    | (true, c) => sendChunkBody data c

/-- `jpp_http_resp_send_err`. -/
def jppHttpRespSendErr (status msg : List UInt8) (c : Conn) : Bool × Conn :=
  if c.respStarted then (false, c)
  else jppHttpRespSend msg (jppHttpRespSetType (ascii "text/plain") (jppHttpRespSetStatus status c))

/-- `jpp_http_send_continue`. -/
def jppHttpSendContinue (c : Conn) : Bool × Conn :=
  sendAll (ascii "HTTP/1.1 100 Continue" ++ crlf ++ crlf) c

theorem sendLoop_ok {sends : List SendAnswer} {data went : List UInt8}
    {sends' : List SendAnswer} (h : sendLoop sends data = (went, true, sends')) :
    went = data := by
  fun_induction sendLoop sends data generalizing went with
  | case1 sends =>
      simp only [Prod.mk.injEq] at h
      exact h.1.symm
  | case2 data hne =>
      simp only [Prod.mk.injEq] at h
      exact h.1.symm
  | case3 data hne sends ih => exact ih h
  | case4 data hne n sends more ok sends'' heq ih =>
      simp only [Prod.mk.injEq] at h
      obtain ⟨rfl, rfl, rfl⟩ := h
      rw [ih heq, List.take_append_drop]
  | case5 => simp at h
  | case6 => simp at h

/-- A send after which the peer is there went out whole. -/
theorem sendAll_alive {data : List UInt8} {c : Conn}
    (h : (sendAll data c).2.peerGone = false) :
    c.peerGone = false ∧
      ∃ sends, sendAll data c = (true, { c with out := c.out ++ data, sends := sends }) := by
  unfold sendAll at h ⊢
  split_ifs at h ⊢ with hnil hgone
  · subst hnil
    exact ⟨h, c.sends, by simp⟩
  · exact absurd h (by simp [hgone])
  · refine ⟨by simpa using hgone, ?_⟩
    cases hloop : sendLoop c.sends data with
    | mk went r =>
        obtain ⟨ok, sends⟩ := r
        simp only [hloop] at h ⊢
        simp only [Bool.not_eq_false'] at h
        subst h
        obtain rfl := sendLoop_ok hloop
        exact ⟨sends, by simp [hgone]⟩

/-- A call that goes on after a send, to a peer that is there at the end. -/
theorem andThen_sendAll_alive {data : List UInt8} {c : Conn} {next : Conn → Bool × Conn}
    (hnext : ∀ c, (next c).2.peerGone = false → c.peerGone = false)
    (h : (andThen (sendAll data c) next).2.peerGone = false) :
    c.peerGone = false ∧
      ∃ sends, andThen (sendAll data c) next =
        next { c with out := c.out ++ data, sends := sends } := by
  have hsend : (sendAll data c).2.peerGone = false := by
    unfold andThen at h
    split_ifs at h
    exacts [hnext _ h, h]
  obtain ⟨halive, sends, heq⟩ := sendAll_alive hsend
  exact ⟨halive, sends, by rw [andThen, heq, if_pos rfl]⟩

theorem sendFraming_alive {contentLen : Int} {c : Conn}
    (h : (sendFraming contentLen c).2.peerGone = false) :
    c.peerGone = false ∧
      ∃ sends, sendFraming contentLen c =
        (true, { c with
          out := c.out ++ (framingLine contentLen ++ crlf) ++
            (connectionLine c.keepAlive ++ crlf ++ crlf)
          sends := sends
          respStarted := true
          respChunked := contentLen < 0 }) := by
  unfold sendFraming at h ⊢
  obtain ⟨halive, sends₁, h₁⟩ :=
    andThen_sendAll_alive (fun c hc => (andThen_sendAll_alive (fun _ h => h) hc).1) h
  rw [h₁] at h ⊢
  obtain ⟨_, sends₂, h₂⟩ := andThen_sendAll_alive (fun _ h => h) h
  exact ⟨halive, sends₂, h₂⟩

/-- The header block of a response of a length. -/
def responseHead (contentLen : Int) (c : Conn) : List UInt8 :=
  ascii "HTTP/1.1 " ++ c.status ++ crlf ++ c.respHdr ++ (framingLine contentLen ++ crlf) ++
    (connectionLine (keptAlive contentLen c) ++ crlf ++ crlf)

/-- The connection once the header block is out. -/
def startedConn (contentLen : Int) (c : Conn) (sends : List SendAnswer) : Conn :=
  { c with
    out := c.out ++ responseHead contentLen c
    sends := sends
    keepAlive := keptAlive contentLen c
    respStarted := true
    respChunked := contentLen < 0 }

theorem startResponse_alive {contentLen : Int} {c : Conn}
    (h : (startResponse contentLen c).2.peerGone = false) :
    c.peerGone = false ∧
      ∃ sends, startResponse contentLen c = (true, startedConn contentLen c sends) := by
  have hframing : ∀ c : Conn,
      (sendFraming contentLen { c with keepAlive := keptAlive contentLen c }).2.peerGone = false →
        c.peerGone = false := fun c hc => (sendFraming_alive hc).1
  unfold startResponse at h ⊢
  obtain ⟨halive, sends₁, h₁⟩ :=
    andThen_sendAll_alive (fun c hc => (andThen_sendAll_alive hframing hc).1) h
  rw [h₁] at h ⊢
  obtain ⟨_, sends₂, h₂⟩ := andThen_sendAll_alive hframing h
  rw [h₂] at h ⊢
  obtain ⟨_, sends₃, h₃⟩ := sendFraming_alive h
  rw [h₃]
  refine ⟨halive, sends₃, ?_⟩
  simp [startedConn, responseHead, keptAlive]

theorem jppHttpRespSend_alive {body : List UInt8} {c : Conn} (hstarted : c.respStarted = false)
    (h : (jppHttpRespSend body c).2.peerGone = false) :
    ∃ sends, jppHttpRespSend body c =
      (true, { startedConn (ssize body.length) c sends with
        out := c.out ++ responseHead (ssize body.length) c ++ if c.suppressBody then [] else body
        respDone := true }) := by
  unfold jppHttpRespSend at h ⊢
  rw [if_neg (by simp [hstarted])] at h ⊢
  have hstart : (startResponse (ssize body.length) c).2.peerGone = false := by
    rcases hr : startResponse (ssize body.length) c with ⟨ok, c'⟩
    cases ok with
    | false => simpa [hr] using h
    | true =>
        simp only [hr] at h
        split_ifs at h
        exacts [h, (sendAll_alive h).1]
  obtain ⟨_, sends, hr⟩ := startResponse_alive hstart
  simp only [hr] at h ⊢
  have hsuppress : (startedConn (ssize body.length) c sends).suppressBody = c.suppressBody := rfl
  rw [hsuppress] at h ⊢
  split_ifs at h ⊢
  · exact ⟨sends, by simp [startedConn]⟩
  · obtain ⟨_, sends', hsend⟩ := sendAll_alive h
    rw [hsend]
    exact ⟨sends', by simp [startedConn]⟩

end Http
end JppDos
