import JppDos.Lib.CText

/-!
# One HTTP connection: the socket and the request

The request half of `jpp_http_server_core.c`.  The socket is the bytes the
client still sends, the answers of the coming `recv` and `send` calls, and the
bytes already sent back; every segmentation, timeout and failure is a choice of
these answers.

Main fact:
* `BodyInv.recv`: `jpp_http_recv` hands out the body in order, never more.
-/

namespace JppDos
namespace Http

open CText

/-- `JPP_HTTP_MAX_REQ_HEADERS`. -/
def maxReqHeaders : Nat := 32

/-- `JPP_HTTP_REQ_BUF_BYTES`. -/
def reqBufBytes : Nat := 4096

/-- How one wait for data ends: `n` bytes are ready, or the time is over, or the
peer has gone, the socket failed or the server is stopping. -/
inductive RecvAnswer where
  | ready (n : Nat)
  | timeout
  | gone
deriving Repr, DecidableEq

/-- How one `send` call ends. -/
inductive SendAnswer where
  | sent (n : Nat)
  | intr
  | fail
deriving Repr, DecidableEq

/-- The request line and the headers, as `parse_header_block` leaves them. -/
structure Request where
  method : List UInt8
  uri : List UInt8
  version : List UInt8
  hdr : List (List UInt8 × List UInt8)
  contentLen : Nat
  keepAlive : Bool
deriving Repr, DecidableEq

/-- `struct jpp_http_conn`, and the socket behind it.  `handed` is an
observation: the body bytes the handler has been given. -/
structure Conn where
  rx : List UInt8
  recvs : List RecvAnswer
  out : List UInt8
  sends : List SendAnswer
  req : Request
  bodyRead : Nat
  bodyPre : List UInt8
  keepAlive : Bool
  status : List UInt8
  respHdr : List UInt8
  respStarted : Bool
  respChunked : Bool
  respDone : Bool
  suppressBody : Bool
  peerGone : Bool
  handed : List UInt8
deriving Repr, DecidableEq

/-- What a receive call returns: bytes, 0 or -1. -/
inductive RecvResult where
  | bytes (data : List UInt8)
  | timeout
  | error
deriving Repr, DecidableEq

/-- `sock_recv_to`, with its wait for data.  When no further answer is observed
the peer has gone. -/
def sockRecv (len : Nat) (c : Conn) : RecvResult × Conn :=
  match c.recvs with
  | [] => (.error, c)
  | .gone :: recvs => (.error, { c with recvs := recvs })
  | .timeout :: recvs => (.timeout, { c with recvs := recvs })
  | .ready n :: recvs =>
      match c.rx.take (min n len) with
      | [] => (.timeout, { c with recvs := recvs })
      | data => (.bytes data, { c with recvs := recvs, rx := c.rx.drop data.length })

/-- The loop of `send_all`; the rest of the answers and the bytes that went out. -/
def sendLoop : List SendAnswer → List UInt8 → List UInt8 × Bool × List SendAnswer
  | sends, [] => ([], true, sends)
  | [], data => (data, true, [])
  | .intr :: sends, data => sendLoop sends data
  | .sent (n + 1) :: sends, data =>
      let (more, ok, sends') := sendLoop sends (data.drop (n + 1))
      (data.take (n + 1) ++ more, ok, sends')
  | .sent 0 :: sends, _ => ([], false, sends)
  | .fail :: sends, _ => ([], false, sends)

/-- `send_all`. -/
def sendAll (data : List UInt8) (c : Conn) : Bool × Conn :=
  if data = [] then (true, c)
  else if c.peerGone then (false, c)
  else
    let (went, ok, sends) := sendLoop c.sends data
    (ok, { c with out := c.out ++ went, sends := sends, peerGone := !ok })

/-- `skip_ows`. -/
def skipOws (s : List UInt8) : List UInt8 := s.dropWhile fun b => b == 32 || b == 9

/-- One header line of `parse_header_block`. -/
def parseHeaderLine (req : Request) (line : List UInt8) : Request :=
  match breakAt 58 line with
  | none => req
  | some (name, rest) =>
      let value := skipOws rest
      let req :=
        if req.hdr.length < maxReqHeaders then { req with hdr := req.hdr ++ [(name, value)] }
        else req
      if strcaseeq name (ascii "Content-Length") then
        { req with contentLen := (strtol value).toNat }
      else if strcaseeq name (ascii "Connection") then
        if strcaseeq value (ascii "close") then { req with keepAlive := false }
        else if strcaseeq value (ascii "keep-alive") then { req with keepAlive := true }
        else req
      else req

/-- What `read_request` resets before it parses. -/
def emptyRequest : Request := ⟨[], [], [], [], 0, true⟩

/-- `parse_header_block`. -/
def parseHeaderBlock (block : List UInt8) : Request :=
  match splitLines (cString block) with
  | [] => emptyRequest
  | line :: lines =>
      match breakAt 32 line with
      | none => { emptyRequest with method := line }
      | some (method, rest) =>
          let (uri, version) :=
            match breakAt 32 (skipOws rest) with
            | some (uri, rest) => (uri, skipOws rest)
            | none => (skipOws rest, ascii "HTTP/1.0")
          lines.foldl parseHeaderLine
            ⟨method, uri, version, [], 0, version != ascii "HTTP/1.0"⟩

/-- What `read_request` returns: a request (with its header block and the bytes
it drops behind the body), a peer that closed between requests, or a bad
request. -/
inductive ReadResult where
  | request (block surplus : List UInt8)
  | closed
  | bad
deriving Repr, DecidableEq

/-- The loop of `read_request`; `buf` is the used part of `req_buf`, and `fuel`
bounds the receive calls still to come. -/
def readRequestLoop : Nat → List UInt8 → Conn → ReadResult × Conn
  | 0, _, c => (.bad, c)
  | fuel + 1, buf, c =>
      match findBlankLine buf with
      | some hdrEnd =>
          let block := buf.take hdrEnd
          let arrived := buf.drop (hdrEnd + 4)
          let req := parseHeaderBlock block
          -- pipelined extras are ignored
          (.request block (arrived.drop req.contentLen),
            { c with
              req := req
              keepAlive := req.keepAlive
              bodyRead := 0
              bodyPre := arrived.take req.contentLen
              handed := [] })
      | none =>
          if buf.length ≥ reqBufBytes then (.bad, c)
          else
            match sockRecv (reqBufBytes - buf.length) c with
            | (.bytes data, c) => readRequestLoop fuel (buf ++ data) c
            | (_, c) => (if buf = [] then .closed else .bad, c)

/-- `read_request`. -/
def readRequest (c : Conn) : ReadResult × Conn :=
  readRequestLoop (c.recvs.length + 2) []
    { c with
      req := emptyRequest, keepAlive := true, bodyRead := 0, bodyPre := [], handed := [] }

/-- `jpp_http_recv`. -/
def jppHttpRecv (len : Nat) (c : Conn) : RecvResult × Conn :=
  if len = 0 ∨ c.req.contentLen - c.bodyRead = 0 then (.error, c)
  else
    let len := min len (c.req.contentLen - c.bodyRead)
    if c.bodyPre ≠ [] then
      let data := c.bodyPre.take len
      (.bytes data,
        { c with
          bodyPre := c.bodyPre.drop len
          bodyRead := c.bodyRead + data.length
          handed := c.handed ++ data })
    else
      match sockRecv len c with
      | (.bytes data, c) =>
          (.bytes data, { c with
            bodyRead := c.bodyRead + data.length, handed := c.handed ++ data })
      | (r, c) => (r, c)

theorem sockRecv_bytes {len : Nat} {c c' : Conn} {data : List UInt8}
    (h : sockRecv len c = (.bytes data, c')) :
    c.rx = data ++ c'.rx ∧ data.length ≤ len ∧
      c' = { c with recvs := c.recvs.tail, rx := c.rx.drop data.length } := by
  unfold sockRecv at h
  split at h
  · simp at h
  · simp at h
  · simp at h
  · rename_i n recvs hrecvs
    split at h
    · simp at h
    · rename_i hne
      simp only [Prod.mk.injEq, RecvResult.bytes.injEq] at h
      obtain ⟨rfl, rfl⟩ := h
      refine ⟨?_, by rw [List.length_take]; omega, by rw [hrecvs]; rfl⟩
      rw [List.length_take]
      rcases Nat.le_total (min n len) c.rx.length with hle | hle
      · rw [Nat.min_eq_left hle, List.take_append_drop]
      · rw [Nat.min_eq_right hle, List.drop_length, List.append_nil, List.take_of_length_le hle]

/-- A receive call without bytes leaves the stream alone. -/
theorem sockRecv_none {len : Nat} {c c' : Conn} {r : RecvResult}
    (h : sockRecv len c = (r, c')) (hr : ∀ data, r ≠ .bytes data) :
    c' = { c with recvs := c.recvs.tail } := by
  unfold sockRecv at h
  split at h
  · rename_i hrecvs
    obtain ⟨_, rfl⟩ := Prod.mk.inj h
    rw [hrecvs, List.tail_nil, ← hrecvs]
  · rename_i hrecvs
    obtain ⟨_, rfl⟩ := Prod.mk.inj h
    rw [hrecvs, List.tail_cons]
  · rename_i hrecvs
    obtain ⟨_, rfl⟩ := Prod.mk.inj h
    rw [hrecvs, List.tail_cons]
  · rename_i n recvs hrecvs
    split at h
    · obtain ⟨_, rfl⟩ := Prod.mk.inj h
      rw [hrecvs, List.tail_cons]
    · exact absurd (Prod.mk.inj h).1.symm (hr _)

/-- The request at the front of a stream: its header block up to the first blank
line. -/
structure IsNextRequest (stream block : List UInt8) (c : Conn) : Prop where
  first : findBlankLine stream = some block.length
  prefix_eq : stream.take block.length = block
  req : c.req = parseHeaderBlock block
  keepAlive : c.keepAlive = c.req.keepAlive
  fresh : c.bodyRead = 0 ∧ c.handed = []

theorem readRequestLoop_request :
    ∀ {fuel : Nat} {buf : List UInt8} {c c' : Conn} {block surplus : List UInt8},
      readRequestLoop fuel buf c = (.request block surplus, c') →
      IsNextRequest (buf ++ c.rx) block c' ∧
        (buf ++ c.rx).drop (block.length + 4) = c'.bodyPre ++ surplus ++ c'.rx ∧
        c'.bodyPre.length ≤ c'.req.contentLen ∧
        (surplus ≠ [] → c'.bodyPre.length = c'.req.contentLen)
  | 0, _, _, _, _, _, h => by simp [readRequestLoop] at h
  | fuel + 1, buf, c, c', block, surplus, h => by
      unfold readRequestLoop at h
      split at h
      · rename_i hdrEnd hfind
        obtain ⟨hle, _⟩ := findBlankLine_le hfind
        simp only [Prod.mk.injEq, ReadResult.request.injEq] at h
        obtain ⟨⟨rfl, rfl⟩, rfl⟩ := h
        have hlen : (buf.take hdrEnd).length = hdrEnd := by
          rw [List.length_take]
          omega
        refine ⟨⟨?_, ?_, rfl, rfl, rfl, rfl⟩, ?_, ?_, ?_⟩
        · rw [hlen]
          exact findBlankLine_append hfind c.rx
        · rw [hlen, List.take_append_of_le_length (by omega)]
        · rw [hlen, List.drop_append_of_le_length (by omega), List.take_append_drop]
        · rw [List.length_take]
          exact Nat.min_le_left _ _
        · intro hsurplus
          have := List.length_pos_of_ne_nil hsurplus
          rw [List.length_drop] at this
          simp only [List.length_take]
          omega
      · split at h
        · simp at h
        · split at h
          · rename_i data c₁ hrecv
            obtain ⟨hrx, _, _⟩ := sockRecv_bytes hrecv
            have := readRequestLoop_request h
            rwa [List.append_assoc, ← hrx] at this
          · simp only [Prod.mk.injEq] at h
            split_ifs at h <;> exact absurd h.1 (by simp)

/-- `read_request` takes the next request off the stream; what came in with its
header block is the front of the body, and a surplus behind the body that is
dropped. -/
theorem readRequest_request {c c' : Conn} {block surplus : List UInt8}
    (h : readRequest c = (.request block surplus, c')) :
    IsNextRequest c.rx block c' ∧
      c.rx.drop (block.length + 4) = c'.bodyPre ++ surplus ++ c'.rx ∧
      c'.bodyPre.length ≤ c'.req.contentLen ∧
      (surplus ≠ [] → c'.bodyPre.length = c'.req.contentLen) :=
  readRequestLoop_request h

/-- The handler has had a front part of the request body; `body` is the stream
from the body on, without the surplus. -/
structure BodyInv (body : List UInt8) (c : Conn) : Prop where
  stream : c.handed ++ c.bodyPre ++ c.rx = body
  read : c.bodyRead = c.handed.length
  bound : c.bodyRead + c.bodyPre.length ≤ c.req.contentLen

/-- `jpp_http_recv` hands out the next bytes of the body, and none behind it. -/
theorem BodyInv.recv {body : List UInt8} {c : Conn} (h : BodyInv body c) (len : Nat) :
    BodyInv body (jppHttpRecv len c).2 := by
  have hbound := h.bound
  unfold jppHttpRecv
  split_ifs with hdone hpre
  · exact h
  · -- bytes that arrived with the header block
    refine ⟨?_, ?_, ?_⟩
    · simp only
      rw [List.append_assoc c.handed, List.take_append_drop]
      exact h.stream
    · simp only [List.length_append, h.read]
    · simp only [List.length_take, List.length_drop]
      omega
  · rw [not_not] at hpre
    cases hrecv : sockRecv (min len (c.req.contentLen - c.bodyRead)) c with
    | mk r c₁ =>
        simp only [hrecv]
        cases r with
        | bytes data =>
            obtain ⟨hrx, hlen, rfl⟩ := sockRecv_bytes hrecv
            have hstream := h.stream
            rw [hpre, List.append_nil, hrx] at hstream
            refine ⟨?_, ?_, ?_⟩
            · simp only at hstream
              simp only [hpre, List.append_nil, List.append_assoc]
              exact hstream
            · simp only [List.length_append, h.read]
            · simp only [hpre, List.length_nil]
              omega
        | timeout =>
            rw [sockRecv_none hrecv (by simp)]
            exact ⟨h.stream, h.read, h.bound⟩
        | error =>
            rw [sockRecv_none hrecv (by simp)]
            exact ⟨h.stream, h.read, h.bound⟩

/-- A body read to its end: what is left is the stream behind it. -/
theorem BodyInv.complete {body : List UInt8} {c : Conn} (h : BodyInv body c)
    (hdone : c.req.contentLen ≤ c.bodyRead) :
    c.handed.length = c.req.contentLen ∧ body = c.handed ++ c.rx := by
  have hbound := h.bound
  have hpre : c.bodyPre = [] := List.length_eq_zero_iff.mp (by omega)
  refine ⟨by have := h.read; omega, ?_⟩
  rw [← h.stream, hpre, List.append_nil]

end Http
end JppDos
