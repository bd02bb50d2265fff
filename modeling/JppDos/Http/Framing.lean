import JppDos.Http.FileServer
import JppDos.Http.LrvServer
import JppDos.Lib.HttpMessage

/-!
# What the client reads

The bytes a handler run leaves on the socket, read as a client reads them.  A
run after which the peer is there has sent every piece whole, so its bytes are
computed call by call; the header block then tells the client how much follows.

Main fact:
* `Fresh.chunks`, `Fresh.page`: a page in chunks is well formed when every one of
  them has data.
-/

namespace JppDos
namespace Http

open CText Numerals HttpMessage

/-- A header that does not change the framing, on a line of its own. -/
def PlainHeader (name value : List UInt8) : Prop :=
  13 ∉ name ∧ 58 ∉ name ∧ 13 ∉ value ∧ strcaseeq name (ascii "Transfer-Encoding") = false ∧
    strcaseeq name (ascii "Content-Length") = false

instance (name value : List UInt8) : Decidable (PlainHeader name value) :=
  inferInstanceAs (Decidable (_ ∧ _))

/-- A status on a line of its own, of a final response. -/
def PlainStatus (status : List UInt8) : Prop := 13 ∉ status ∧ status.take 3 ≠ ascii "100"

instance (status : List UInt8) : Decidable (PlainStatus status) :=
  inferInstanceAs (Decidable (_ ∧ _))

/-- The text of `jpp_http_send_continue`. -/
def continueText : List UInt8 := ascii "HTTP/1.1 100 Continue" ++ crlf ++ crlf

/-- Header lines that leave the framing open. -/
structure PlainFields (fields : List (List UInt8)) : Prop where
  lines : ∀ line ∈ fields, IsLine line
  coding : fieldValue (ascii "Transfer-Encoding") fields = none
  length : fieldValue (ascii "Content-Length") fields = none

/-- Nothing of the response has been sent but perhaps an interim one. -/
structure Fresh (o : List UInt8) (isHead : Bool) (c : Conn) : Prop where
  out : c.peerGone = false → c.out = o ∨ c.out = o ++ continueText
  started : c.respStarted = false
  done : c.respDone = false
  suppress : c.suppressBody = isHead
  status : PlainStatus c.status
  hdr : ∃ fields, c.respHdr = joinLines fields ∧ PlainFields fields

theorem breakAt_headerLine {name : List UInt8} (h : 58 ∉ name) (value : List UInt8) :
    breakAt 58 (headerLine name value) = some (name, 32 :: value) := by
  have : headerLine name value = name ++ 58 :: 32 :: value := by
    simp [headerLine, ascii]
  rw [this, breakAt_append h]

theorem PlainFields.snoc {fields : List (List UInt8)} (h : PlainFields fields)
    {name value : List UInt8} (hplain : PlainHeader name value) :
    PlainFields (fields ++ [headerLine name value]) := by
  obtain ⟨hname, hcolon, hvalue, hte, hcl⟩ := hplain
  refine ⟨?_, ?_, ?_⟩
  · intro line hline
    rcases List.mem_append.mp hline with hline | hline
    · exact h.lines line hline
    · obtain rfl := List.mem_singleton.mp hline
      refine ⟨by simp [headerLine, ascii], ?_⟩
      have hsep : (13 : UInt8) ∉ ascii ": " := by decide
      simp [headerLine, hname, hvalue, hsep]
  · rw [fieldValue_append, h.coding]
    simp [fieldValue, breakAt_headerLine hcolon, hte]
  · rw [fieldValue_append, h.length]
    simp [fieldValue, breakAt_headerLine hcolon, hcl]

theorem Fresh.setStatus {o : List UInt8} {isHead : Bool} {c : Conn} (h : Fresh o isHead c)
    {status : List UInt8} (hstatus : PlainStatus (status.take 39)) :
    Fresh o isHead (jppHttpRespSetStatus status c) :=
  ⟨h.out, h.started, h.done, h.suppress, hstatus, h.hdr⟩

theorem Fresh.setHdr {o : List UInt8} {isHead : Bool} {c : Conn} (h : Fresh o isHead c)
    {name value : List UInt8} (hplain : PlainHeader name value) :
    Fresh o isHead (jppHttpRespSetHdr name value c) := by
  unfold jppHttpRespSetHdr
  split_ifs
  · exact h
  · exact h
  · obtain ⟨fields, heq, hfields⟩ := h.hdr
    refine ⟨h.out, h.started, h.done, h.suppress, h.status, _, ?_, hfields.snoc hplain⟩
    simp only
    rw [joinLines_append, heq]
    simp

theorem plainHeader_type {contentType : List UInt8} (h : 13 ∉ contentType) :
    PlainHeader (ascii "Content-Type") contentType :=
  ⟨by decide, by decide, h, by decide, by decide⟩

theorem Fresh.setType {o : List UInt8} {isHead : Bool} {c : Conn} (h : Fresh o isHead c)
    {contentType : List UInt8} (htype : 13 ∉ contentType) :
    Fresh o isHead (jppHttpRespSetType contentType c) :=
  h.setHdr (plainHeader_type htype)

/-- The lines that end a header block. -/
def framingFields (contentLen : Int) (keepAlive : Bool) : List (List UInt8) :=
  [framingLine contentLen, connectionLine keepAlive]

theorem framingLine_isLine (contentLen : Int) : IsLine (framingLine contentLen) := by
  unfold framingLine
  split_ifs
  · refine ⟨by simp [ascii], ?_⟩
    have hdigits := showBase_not_mem (b := 10) (c := 13) (by omega) (by omega) contentLen.toNat
      (by decide)
    simp only [List.mem_append, not_or]
    exact ⟨by decide, hdigits⟩
  · decide

theorem framingFields_lines (contentLen : Int) (keepAlive : Bool) :
    ∀ line ∈ framingFields contentLen keepAlive, IsLine line := by
  intro line hline
  simp only [framingFields, List.mem_cons, List.not_mem_nil, or_false] at hline
  rcases hline with rfl | rfl
  · exact framingLine_isLine contentLen
  · cases keepAlive <;> decide

theorem dropWhile_showBase (n : Nat) :
    (showBase 10 n).dropWhile (fun b => b == 32 || b == 9) = showBase 10 n := by
  cases hs : showBase 10 n with
  | nil => rfl
  | cons d ds =>
      have hd := showBase_ge (b := 10) (by omega) (by omega) n d (by rw [hs]; simp)
      have hd32 : d ≠ 32 := by rintro rfl; simp at hd
      have hd9 : d ≠ 9 := by rintro rfl; simp at hd
      exact List.dropWhile_cons_of_neg (by simp [hd32, hd9])

theorem readBody_framing {fields : List (List UInt8)} (h : PlainFields fields)
    (contentLen : Int) (keepAlive : Bool) (rest : List UInt8) :
    readBody (fields ++ framingFields contentLen keepAlive) rest =
      if contentLen < 0 then readChunks (rest.length + 1) rest
      else if contentLen.toNat ≤ rest.length then
        some (rest.take contentLen.toNat, rest.drop contentLen.toNat)
      else none := by
  unfold readBody
  rw [fieldValue_append, fieldValue_append, h.coding, h.length, Option.none_or, Option.none_or]
  by_cases hneg : contentLen < 0
  · have hframing : framingLine contentLen = ascii "Transfer-Encoding: chunked" := by
      rw [framingLine, if_neg (by omega)]
    have hte : fieldValue (ascii "Transfer-Encoding") (framingFields contentLen keepAlive) =
        some (ascii "chunked") := by
      rw [framingFields, hframing]
      cases keepAlive <;> decide
    have hcl : fieldValue (ascii "Content-Length") (framingFields contentLen keepAlive) = none := by
      rw [framingFields, hframing]
      cases keepAlive <;> decide
    rw [hte, hcl, if_pos hneg]
    simp
  · have hframing : framingLine contentLen =
        headerLine (ascii "Content-Length") (showBase 10 contentLen.toNat) := by
      rw [framingLine, if_pos (by omega)]
      simp [headerLine, ascii]
    have hbreak : breakAt 58 (framingLine contentLen) =
        some (ascii "Content-Length", 32 :: showBase 10 contentLen.toNat) := by
      rw [hframing, breakAt_headerLine (by decide)]
    have hte : fieldValue (ascii "Transfer-Encoding") (framingFields contentLen keepAlive) =
        none := by
      rw [framingFields, fieldValue, hbreak]
      simp only
      rw [if_neg (by decide)]
      cases keepAlive <;> decide
    have hcl : fieldValue (ascii "Content-Length") (framingFields contentLen keepAlive) =
        some (showBase 10 contentLen.toNat) := by
      rw [framingFields, fieldValue, hbreak]
      simp only
      rw [if_pos (by decide), List.dropWhile_cons_of_pos (by decide), dropWhile_showBase]
    rw [hte, hcl, if_neg hneg]
    simp only [readBase_showBase (b := 10) (by omega) (by omega)]

/-- Whatever follows the header block of a response is read as it announces. -/
theorem Fresh.read {o : List UInt8} {isHead : Bool} {c : Conn} (h : Fresh o isHead c)
    (halive : c.peerGone = false) (contentLen : Int) :
    ∃ sent, c.out ++ responseHead contentLen c = o ++ sent ∧
      ∀ rest, readResponse isHead ((sent ++ rest).length + 1) (sent ++ rest) =
        if isHead then some ([], rest)
        else if contentLen < 0 then readChunks (rest.length + 1) rest
        else if contentLen.toNat ≤ rest.length then
          some (rest.take contentLen.toNat, rest.drop contentLen.toNat)
        else none := by
  obtain ⟨fields, hhdr, hfields⟩ := h.hdr
  obtain ⟨hstatus, hfinal⟩ := h.status
  have hhead : responseHead contentLen c =
      joinLines ((ascii "HTTP/1.1 " ++ c.status) ::
        (fields ++ framingFields contentLen (keptAlive contentLen c))) ++ crlf := by
    rw [responseHead, hhdr, joinLines_cons, joinLines_append]
    simp [framingFields]
  have hline : IsFinalStatus (ascii "HTTP/1.1 " ++ c.status) := by
    refine ⟨⟨by simp [ascii], ?_⟩, ?_, ?_⟩
    · simp only [List.mem_append, not_or]
      exact ⟨by decide, hstatus⟩
    · exact List.take_left' rfl
    · intro htake
      apply hfinal
      have := congrArg (List.drop 9) htake
      rw [List.drop_take, List.drop_left' (by rfl)] at this
      exact this
  have hlines : ∀ line ∈ fields ++ framingFields contentLen (keptAlive contentLen c),
      IsLine line := by
    intro line hl
    rcases List.mem_append.mp hl with hl | hl
    exacts [hfields.lines line hl, framingFields_lines _ _ line hl]
  have hread : ∀ fuel rest, readResponse isHead (fuel + 1) (responseHead contentLen c ++ rest) =
      if isHead then some ([], rest)
      else if contentLen < 0 then readChunks (rest.length + 1) rest
      else if contentLen.toNat ≤ rest.length then
        some (rest.take contentLen.toNat, rest.drop contentLen.toNat)
      else none := by
    intro fuel rest
    rw [hhead, readResponse_message hline hlines, readBody_framing hfields]
  rcases h.out halive with hout | hout
  · exact ⟨responseHead contentLen c, by rw [hout], fun rest => hread _ rest⟩
  · refine ⟨continueText ++ responseHead contentLen c, by rw [hout, List.append_assoc], ?_⟩
    intro rest
    have hcont : continueText = joinLines [ascii "HTTP/1.1 100 Continue"] ++ crlf := by decide
    rw [List.append_assoc, hcont, readResponse_interim (by decide) (by decide),
      List.length_append]
    exact hread _ rest

/-- What a handler run leaves when the loop goes on: one response behind `o`, well
formed exactly when `ok`. -/
def Framed (o : List UInt8) (isHead : Bool) (ok : Prop) (c : Conn) : Prop :=
  c.peerGone = false → c.respDone = true → c.keepAlive = true →
    ∃ bytes, c.out = o ++ bytes ∧ (WellFormed isHead bytes ↔ ok)

theorem Framed.congr {o : List UInt8} {isHead : Bool} {p q : Prop} {c : Conn}
    (h : Framed o isHead p c) (hpq : p ↔ q) : Framed o isHead q c := by
  intro halive hdone hkeep
  obtain ⟨bytes, hout, hwf⟩ := h halive hdone hkeep
  exact ⟨bytes, hout, hwf.trans hpq⟩

theorem ssize_of_lt {n : Nat} (h : n < 2 ^ 31) : ssize n = n := by
  unfold ssize
  rw [Nat.mod_eq_of_lt (by omega), if_pos h]

/-- A response of a length is well formed when the body has that length. -/
theorem Fresh.wellFormed_sized {o : List UInt8} {isHead : Bool} {c : Conn}
    (h : Fresh o isHead c) (halive : c.peerGone = false) {contentLen : Int}
    (hlen : 0 ≤ contentLen) (body : List UInt8) :
    ∃ bytes, c.out ++ responseHead contentLen c ++ (if isHead then [] else body) = o ++ bytes ∧
      (WellFormed isHead bytes ↔ (isHead = false → contentLen = body.length)) := by
  obtain ⟨sent, hsent, hread⟩ := h.read halive contentLen
  refine ⟨sent ++ if isHead then [] else body, by rw [hsent, List.append_assoc], ?_⟩
  unfold WellFormed
  rw [hread]
  cases isHead with
  | true => simp
  | false =>
      simp only [Bool.false_eq_true, if_false]
      rw [if_neg (by omega)]
      split_ifs with hle
      · simp only [Option.map_some, Option.some.injEq, List.drop_eq_nil_iff, forall_const]
        omega
      · simp only [Option.map_none, reduceCtorEq, forall_const, false_iff]
        omega

/-- `jpp_http_resp_send` with a body of less than 2 GiB. -/
theorem Fresh.send {o : List UInt8} {isHead : Bool} {c : Conn} (h : Fresh o isHead c)
    {body : List UInt8} (hlen : body.length < 2 ^ 31) :
    Framed o isHead True (jppHttpRespSend body c).2 := by
  intro halive _ _
  obtain ⟨sends, heq⟩ := jppHttpRespSend_alive h.started halive
  rw [heq] at halive ⊢
  have hsize : 0 ≤ ssize body.length := by
    rw [ssize_of_lt hlen]
    omega
  obtain ⟨bytes, hbytes, hwf⟩ := h.wellFormed_sized halive hsize body
  refine ⟨bytes, ?_, hwf.trans ?_⟩
  · simp only [h.suppress]
    exact hbytes
  · simp [ssize_of_lt hlen]

theorem Fresh.sendErr {o : List UInt8} {isHead : Bool} {c : Conn} (h : Fresh o isHead c)
    {status msg : List UInt8} (hstatus : PlainStatus (status.take 39))
    (hlen : msg.length < 2 ^ 31) :
    Framed o isHead True (jppHttpRespSendErr status msg c).2 := by
  unfold jppHttpRespSendErr
  rw [if_neg (by simp [h.started])]
  exact ((h.setStatus hstatus).setType (by decide)).send hlen

theorem sendChunkBody_alive {data : List UInt8} {c : Conn}
    (h : (sendChunkBody data c).2.peerGone = false) :
    c.peerGone = false ∧ ∃ sends, sendChunkBody data c =
      (true, { c with
        out := c.out ++ if c.suppressBody then [] else chunk data
        sends := sends
        respDone := c.respDone || data = [] }) := by
  unfold sendChunkBody at h ⊢
  split_ifs at h ⊢ with hnil hsup hsup
  · exact ⟨h, c.sends, by simp [hnil]⟩
  · obtain ⟨halive, sends, heq⟩ := sendAll_alive h
    refine ⟨halive, sends, ?_⟩
    rw [heq, hnil]
    simp [chunk, showBase, digits, digitChar, ascii]
  · exact ⟨h, c.sends, by simp [hnil]⟩
  · obtain ⟨halive, sends₁, h₁⟩ :=
      andThen_sendAll_alive (fun c hc => (andThen_sendAll_alive
        (fun c hc => (sendAll_alive hc).1) hc).1) h
    rw [h₁] at h ⊢
    obtain ⟨_, sends₂, h₂⟩ := andThen_sendAll_alive (fun c hc => (sendAll_alive hc).1) h
    rw [h₂] at h ⊢
    obtain ⟨_, sends₃, h₃⟩ := sendAll_alive h
    rw [h₃]
    exact ⟨halive, sends₃, by simp [chunk, hnil]⟩

/-- A run of chunk calls: once the header block is out, `sent` are the pieces. -/
structure Chunking (c₀ : Conn) (sent : List (List UInt8)) (c : Conn) : Prop where
  started : c.respStarted = true
  out : c.out = c₀.out ++ responseHead (-1) c₀ ++
    if c₀.suppressBody then [] else sent.flatMap chunk
  suppress : c.suppressBody = c₀.suppressBody
  keepAlive : c.keepAlive = keptAlive (-1) c₀

/-- A chunk call after which the peer is there has succeeded. -/
theorem jppHttpRespSendChunk_alive {data : List UInt8} {c : Conn}
    (h : (jppHttpRespSendChunk data c).2.peerGone = false) :
    c.peerGone = false ∧ (jppHttpRespSendChunk data c).1 = true := by
  unfold jppHttpRespSendChunk at h ⊢
  split_ifs at h ⊢
  · obtain ⟨hc, _, heq⟩ := sendChunkBody_alive h
    exact ⟨hc, by rw [heq]⟩
  · have hstart : (startResponse (-1) c).2.peerGone = false := by
      rcases hr : startResponse (-1) c with ⟨ok, c'⟩
      cases ok with
      | false => simpa [hr] using h
      | true =>
          simp only [hr] at h
          exact (sendChunkBody_alive h).1
    obtain ⟨hc, _, hr⟩ := startResponse_alive hstart
    simp only [hr] at h ⊢
    obtain ⟨_, _, heq⟩ := sendChunkBody_alive h
    exact ⟨hc, by rw [heq]⟩

theorem Chunking.snoc {c₀ c : Conn} {sent : List (List UInt8)} (h : Chunking c₀ sent c)
    {data : List UInt8} (halive : (jppHttpRespSendChunk data c).2.peerGone = false) :
    Chunking c₀ (sent ++ [data]) (jppHttpRespSendChunk data c).2 := by
  unfold jppHttpRespSendChunk at halive ⊢
  rw [if_pos h.started] at halive ⊢
  obtain ⟨_, sends, heq⟩ := sendChunkBody_alive halive
  rw [heq]
  refine ⟨h.started, ?_, h.suppress, h.keepAlive⟩
  simp only [h.out, h.suppress]
  split_ifs <;> simp

theorem Chunking.first {c : Conn} (hstarted : c.respStarted = false) {data : List UInt8}
    (halive : (jppHttpRespSendChunk data c).2.peerGone = false) :
    Chunking c [data] (jppHttpRespSendChunk data c).2 := by
  unfold jppHttpRespSendChunk at halive ⊢
  rw [if_neg (by simp [hstarted])] at halive ⊢
  have hstart : (startResponse (-1) c).2.peerGone = false := by
    rcases hr : startResponse (-1) c with ⟨ok, c'⟩
    cases ok with
    | false => simpa [hr] using halive
    | true =>
        simp only [hr] at halive
        exact (sendChunkBody_alive halive).1
  obtain ⟨_, sends, hr⟩ := startResponse_alive hstart
  simp only [hr] at halive ⊢
  obtain ⟨_, sends', heq⟩ := sendChunkBody_alive halive
  rw [heq]
  exact ⟨rfl, by simp [startedConn], rfl, rfl⟩

theorem sendStrings_alive {pieces : List (List UInt8)} {c : Conn}
    (h : (sendStrings pieces c).peerGone = false) : c.peerGone = false := by
  induction pieces generalizing c with
  | nil => exact h
  | cons data pieces ih => exact (jppHttpRespSendChunk_alive (ih h)).1

theorem Chunking.strings {c₀ c : Conn} {sent pieces : List (List UInt8)}
    (h : Chunking c₀ sent c) (halive : (sendStrings pieces c).peerGone = false) :
    Chunking c₀ (sent ++ pieces) (sendStrings pieces c) := by
  induction pieces generalizing c sent with
  | nil => simpa [sendStrings] using h
  | cons data pieces ih =>
      have := ih (h.snoc (sendStrings_alive halive)) halive
      rwa [List.append_assoc] at this

/-- A page sent whatever the results of its chunks: its first string without text
ends the body for the client. -/
theorem Fresh.chunks {o : List UInt8} {isHead : Bool} {c : Conn} (h : Fresh o isHead c)
    (pieces : List (List UInt8)) :
    Framed o isHead (isHead = false → ∀ data ∈ pieces, data ≠ [])
      (sendStrings (pieces ++ [[]]) c) := by
  intro halive _ hkeep
  have hchunking : Chunking c (pieces ++ [[]]) (sendStrings (pieces ++ [[]]) c) := by
    cases pieces with
    | nil => exact Chunking.first h.started halive
    | cons data pieces =>
        exact (Chunking.first h.started (sendStrings_alive halive)).strings halive
  rw [hchunking.keepAlive, keptAlive] at hkeep
  split_ifs at hkeep with hsup
  have hHead : isHead = false := by
    rw [← h.suppress]
    simpa using hsup
  subst hHead
  have hc : c.peerGone = false := sendStrings_alive halive
  obtain ⟨sent, hsent, hread⟩ := h.read hc (-1)
  refine ⟨sent ++ (pieces ++ [[]]).flatMap chunk, ?_, ?_⟩
  · rw [hchunking.out, h.suppress, hsent]
    simp
  unfold WellFormed
  rw [hread]
  simp only [Bool.false_eq_true, if_false]
  rw [if_pos (by decide)]
  constructor
  · intro hwf _ data hdata hnil
    -- the part behind the first empty chunk is never read
    subst hnil
    obtain ⟨before, behind, rfl, hbefore⟩ := List.eq_append_cons_of_mem hdata
    have hsplit : (before ++ [] :: behind ++ [[]]).flatMap chunk =
        before.flatMap chunk ++ (chunk [] ++ (behind ++ [[]]).flatMap chunk) := by simp
    rw [hsplit, readChunks_chunk (fun d hd hd' => hbefore (hd' ▸ hd))] at hwf
    · simp [chunk] at hwf
      exact absurd hwf.2.2 (by decide)
    · have := length_lt_chunks before
      simp only [List.length_append]
      omega
  · intro hdata
    have hsplit : (pieces ++ [[]]).flatMap chunk = pieces.flatMap chunk ++ (chunk [] ++ []) := by
      simp
    rw [hsplit, readChunks_chunk (hdata trivial)]
    · rfl
    · have := length_lt_chunks pieces
      simp only [List.length_append]
      omega

theorem sendChunks_alive {pieces : List (List UInt8)} {c : Conn}
    (h : (sendChunks pieces c).2.peerGone = false) :
    sendChunks pieces c = (true, sendStrings pieces c) := by
  induction pieces generalizing c with
  | nil => rfl
  | cons data pieces ih =>
      unfold sendChunks andThen at h ⊢
      have hfirst : (jppHttpRespSendChunk data c).2.peerGone = false := by
        split_ifs at h with hok
        · have := ih h
          rw [this] at h
          exact @sendStrings_alive pieces _ h
        · exact h
      rw [if_pos (jppHttpRespSendChunk_alive hfirst).2] at h ⊢
      exact ih h

theorem sendPage_alive {pieces : List (List UInt8)} {last : List UInt8} {c : Conn}
    (h : (sendPage pieces last c).peerGone = false) :
    sendPage pieces last c = sendStrings (pieces ++ [last] ++ [[]]) c := by
  unfold sendPage at h ⊢
  have hchunks : (sendChunks pieces c).2.peerGone = false := by
    split at h
    · rename_i heq
      rw [heq]
      exact h
    · rename_i heq
      rw [heq]
      exact (jppHttpRespSendChunk_alive (jppHttpRespSendChunk_alive h).1).1
  rw [sendChunks_alive hchunks]
  simp [sendStrings]

theorem Fresh.page {o : List UInt8} {isHead : Bool} {c : Conn} (h : Fresh o isHead c)
    {pieces : List (List UInt8)} (hpieces : ∀ data ∈ pieces, data ≠ []) {last : List UInt8}
    (hlast : last ≠ []) : Framed o isHead True (sendPage pieces last c) := by
  intro halive hdone hkeep
  have heq := sendPage_alive halive
  rw [heq] at halive hdone hkeep ⊢
  refine (h.chunks (pieces ++ [last])).congr ?_ halive hdone hkeep
  simp only [List.mem_append, List.mem_singleton, iff_true]
  rintro - data (hdata | rfl)
  exacts [hpieces data hdata, hlast]

end Http
end JppDos
