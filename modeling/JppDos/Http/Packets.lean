import JppDos.Http.Serve

/-!
# Packet boundaries

What a handler learns of a request whose bytes arrive in any number of `recv` calls: the request as
it is parsed, and the body as it is read.
-/

namespace JppDos
namespace Http

open CText

/-- The coming `recv` calls hand over at least `n` bytes without a timeout. -/
def Delivering (n : Nat) (recvs : List RecvAnswer) : Prop :=
  (∀ r ∈ recvs, ∃ k > 0, r = .ready k) ∧ n ≤ recvs.length

/-- A handler that reads the body into buffers of these sizes: the bytes it gets. -/
def handlerBody : List Nat → Conn → List UInt8
  | [], _ => []
  | len :: lens, c =>
      match jppHttpRecv len c with
      | (.bytes data, c) => data ++ handlerBody lens c
      | _ => []

/-- What a handler learns of a request. -/
inductive Outcome where
  | request (req : Request) (body : List UInt8)
  | closed
  | rejected
deriving Repr, DecidableEq

/-- A request is read, and its body by a handler with buffers of these sizes. -/
def outcome (lens : List Nat) (c : Conn) : Outcome :=
  match readRequest c with
  | (.request _ _, c) => .request c.req (handlerBody lens c)
  | (.closed, _) => .closed
  | (.bad, _) => .rejected

/-- The request of a stream, whatever way it arrives. -/
def streamOutcome (stream : List UInt8) : Outcome :=
  match findBlankLine (stream.take reqBufBytes) with
  | some hdrEnd =>
      let req := parseHeaderBlock (stream.take hdrEnd)
      .request req ((stream.drop (hdrEnd + 4)).take req.contentLen)
  | none => .rejected

theorem Delivering.tail {n : Nat} {r : RecvAnswer} {recvs : List RecvAnswer}
    (h : Delivering n (r :: recvs)) : Delivering (n - 1) recvs := by
  refine ⟨fun r hr => h.1 r (List.mem_cons_of_mem _ hr), ?_⟩
  have hlen := h.2
  rw [List.length_cons] at hlen
  omega

theorem Delivering.mono {n m : Nat} {recvs : List RecvAnswer} (h : Delivering n recvs)
    (hle : m ≤ n) : Delivering m recvs :=
  ⟨h.1, hle.trans h.2⟩

/-- While there is something to come, a call hands some of it over. -/
theorem sockRecv_delivering {len : Nat} {c : Conn} (h : Delivering c.rx.length c.recvs)
    (hlen : 0 < len) (hrx : c.rx ≠ []) :
    ∃ data c', sockRecv len c = (.bytes data, c') ∧ data ≠ [] ∧ data.length ≤ len ∧
      c.rx = data ++ c'.rx ∧ c' = { c with recvs := c'.recvs, rx := c'.rx } ∧
      Delivering c'.rx.length c'.recvs := by
  have hpos := List.length_pos_of_ne_nil hrx
  cases hrecvs : c.recvs with
  | nil =>
      have hle := h.2
      rw [hrecvs, List.length_nil] at hle
      omega
  | cons r recvs =>
      obtain ⟨k, hk, rfl⟩ := h.1 r (by rw [hrecvs]; exact List.mem_cons_self)
      have hne : c.rx.take (min k len) ≠ [] := by
        rw [ne_eq, List.take_eq_nil_iff, not_or]
        exact ⟨by omega, hrx⟩
      have hcall : sockRecv len c = (.bytes (c.rx.take (min k len)),
          { c with recvs := recvs, rx := c.rx.drop (c.rx.take (min k len)).length }) := by
        unfold sockRecv
        rw [hrecvs]
        simp only
      obtain ⟨happend, hle, -⟩ := sockRecv_bytes hcall
      refine ⟨_, _, hcall, hne, hle, happend, rfl, ?_⟩
      rw [hrecvs] at h
      refine h.tail.mono ?_
      have hlength := congrArg List.length happend
      have hdata := List.length_pos_of_ne_nil hne
      rw [List.length_append] at hlength
      omega

/-- A prefix of a buffer without a blank line has none. -/
theorem findBlankLine_take {bs : List UInt8} (n : Nat) (h : findBlankLine bs = none) :
    findBlankLine (bs.take n) = none := by
  cases hfind : findBlankLine (bs.take n) with
  | none => rfl
  | some i =>
      have hwhole := findBlankLine_append hfind (bs.drop n)
      rw [List.take_append_drop, h] at hwhole
      cases hwhole

/-- The header block is found where the stream has it, in whatever pieces it arrives. -/
theorem readRequestLoop_delivered (fuel : Nat) :
    ∀ {buf : List UInt8} {c : Conn}, Delivering c.rx.length c.recvs → c.rx.length < fuel →
      buf.length ≤ reqBufBytes →
      (∃ i, findBlankLine (buf ++ c.rx) = some i) →
      match findBlankLine ((buf ++ c.rx).take reqBufBytes) with
      | some _ => ∃ block surplus c', readRequestLoop fuel buf c = (.request block surplus, c') ∧
          Delivering c'.rx.length c'.recvs
      | none => ∃ c', readRequestLoop fuel buf c = (.bad, c') := by
  induction fuel with
  | zero => exact fun _ hfuel => absurd hfuel (Nat.not_lt_zero _)
  | succ fuel ih =>
      intro buf c hdeliver hfuel hbuf hstream
      rw [readRequestLoop]
      cases hfind : findBlankLine buf with
      | some hdrEnd =>
          have htake : (buf ++ c.rx).take reqBufBytes =
              buf ++ c.rx.take (reqBufBytes - buf.length) := by
            rw [List.take_append, List.take_of_length_le hbuf]
          rw [htake, findBlankLine_append hfind]
          exact ⟨_, _, _, rfl, hdeliver⟩
      | none =>
          simp only
          by_cases hfull : buf.length ≥ reqBufBytes
          · rw [if_pos hfull, List.take_append_of_le_length hfull, findBlankLine_take _ hfind]
            exact ⟨c, rfl⟩
          · rw [if_neg hfull]
            have hrx : c.rx ≠ [] := by
              intro hnil
              obtain ⟨i, hi⟩ := hstream
              rw [hnil, List.append_nil, hfind] at hi
              cases hi
            obtain ⟨data, c', hrecv, hne, hle, happend, -, hrest⟩ :=
              sockRecv_delivering hdeliver (Nat.sub_pos_of_lt (Nat.lt_of_not_le hfull)) hrx
            have hdata := List.length_pos_of_ne_nil hne
            have hlength := congrArg List.length happend
            rw [List.length_append] at hlength
            rw [happend, ← List.append_assoc] at hstream ⊢
            rw [hrecv]
            exact ih hrest (by omega) (by rw [List.length_append]; omega) hstream

/-- The body is read as the stream has it, in whatever pieces it arrives. -/
theorem handlerBody_delivered (lens : List Nat) :
    ∀ {body : List UInt8} {c : Conn}, BodyInv body c → Delivering c.rx.length c.recvs →
      (∀ len ∈ lens, 0 < len) → c.req.contentLen ≤ body.length →
      c.req.contentLen ≤ c.handed.length + lens.length →
      c.handed ++ handlerBody lens c = body.take c.req.contentLen := by
  induction lens with
  | nil =>
      intro body c hinv _ _ _ henough
      have hread := hinv.read
      have hbound := hinv.bound
      rw [List.length_nil] at henough
      obtain ⟨hlength, hbody⟩ := hinv.complete (by omega)
      rw [handlerBody, List.append_nil, hbody, ← hlength, List.take_left']
      rfl
  | cons len lens ih =>
      intro body c hinv hdeliver hlens hlong henough
      have hread := hinv.read
      have hbound := hinv.bound
      have hstream := hinv.stream
      rw [List.length_cons] at henough
      have hlen := hlens len List.mem_cons_self
      have hlens' := fun l hl => hlens l (List.mem_cons_of_mem len hl)
      by_cases hdone : c.req.contentLen - c.bodyRead = 0
      · obtain ⟨hlength, hbody⟩ := hinv.complete (by omega)
        have hnone : handlerBody (len :: lens) c = [] := by
          rw [handlerBody, jppHttpRecv, if_pos (Or.inr hdone)]
        rw [hnone, List.append_nil, hbody, ← hlength, List.take_left']
        rfl
      · -- a call hands over some bytes, whether they came with the header block or come now
        obtain ⟨data, c', hcall, hne, hrest, hhanded, hreq⟩ :
            ∃ data c', jppHttpRecv len c = (.bytes data, c') ∧ data ≠ [] ∧
              Delivering c'.rx.length c'.recvs ∧ c'.handed = c.handed ++ data ∧
              c'.req = c.req := by
          have hopen : ¬ (len = 0 ∨ c.req.contentLen - c.bodyRead = 0) :=
            not_or.mpr ⟨Nat.ne_of_gt hlen, hdone⟩
          unfold jppHttpRecv
          rw [if_neg hopen]
          simp only
          by_cases hpre : c.bodyPre ≠ []
          · rw [if_pos hpre]
            refine ⟨_, _, rfl, ?_, hdeliver, rfl, rfl⟩
            rw [ne_eq, List.take_eq_nil_iff, not_or]
            exact ⟨by omega, hpre⟩
          · rw [if_neg hpre]
            rw [not_not] at hpre
            have hrx : c.rx ≠ [] := by
              intro hnil
              rw [hpre, hnil, List.append_nil, List.append_nil] at hstream
              rw [← hstream] at hlong
              omega
            obtain ⟨data, c', hrecv, hne, -, -, hframe, hrest⟩ :=
              sockRecv_delivering hdeliver
                (show 0 < min len (c.req.contentLen - c.bodyRead) by omega) hrx
            rw [hrecv]
            refine ⟨data, _, rfl, hne, hrest, ?_, ?_⟩
            · simp only
              rw [hframe]
            · simp only
              rw [hframe]
        have hinv' := hinv.recv len
        rw [hcall] at hinv'
        have hdata := List.length_pos_of_ne_nil hne
        have hnext := ih hinv' hrest hlens' (by rw [hreq]; exact hlong) (by
          rw [hreq, hhanded, List.length_append]
          omega)
        rw [hreq, hhanded] at hnext
        have hbytes : handlerBody (len :: lens) c = data ++ handlerBody lens c' := by
          rw [handlerBody, hcall]
        rw [hbytes, ← List.append_assoc]
        exact hnext

/-- A stream that is a request: a header block, and a body of at least the declared length. -/
structure IsRequest (stream : List UInt8) (hdrEnd : Nat) : Prop where
  block : findBlankLine stream = some hdrEnd
  body : (parseHeaderBlock (stream.take hdrEnd)).contentLen ≤ stream.length - (hdrEnd + 4)

/-- The bytes of a stream are about to arrive on a connection. -/
def Conn.arriving (c : Conn) (stream : List UInt8) (recvs : List RecvAnswer) : Conn :=
  { c with rx := stream, recvs := recvs }

/-- A handler reads on until the body is complete. -/
def ReadsAll (n : Nat) (lens : List Nat) : Prop := (∀ len ∈ lens, 0 < len) ∧ n ≤ lens.length

theorem outcome_eq {stream : List UInt8} {hdrEnd : Nat} (h : IsRequest stream hdrEnd)
    {recvs : List RecvAnswer} (hrecvs : Delivering stream.length recvs) {lens : List Nat}
    (hlens : ReadsAll (parseHeaderBlock (stream.take hdrEnd)).contentLen lens) (c : Conn) :
    outcome lens (c.arriving stream recvs) = streamOutcome stream := by
  have hroom : stream.length < recvs.length + 2 := by
    have hlen := hrecvs.2
    omega
  have hloop := readRequestLoop_delivered (recvs.length + 2)
    (c := { c.arriving stream recvs with
      req := emptyRequest, keepAlive := true, bodyRead := 0, bodyPre := [], handed := [] })
    hrecvs hroom (show ([] : List UInt8).length ≤ reqBufBytes from Nat.zero_le _)
    ⟨hdrEnd, h.block⟩
  simp only [List.nil_append, Conn.arriving] at hloop
  unfold streamOutcome
  cases hfind : findBlankLine (stream.take reqBufBytes) with
  | none =>
      rw [hfind] at hloop
      obtain ⟨c', hread⟩ := hloop
      have hread' : readRequest (c.arriving stream recvs) = (.bad, c') := hread
      rw [outcome, hread']
  | some i =>
      -- the blank line that is found is the first one of the stream
      have hfirst := findBlankLine_append hfind (stream.drop reqBufBytes)
      rw [List.take_append_drop, h.block] at hfirst
      obtain rfl := Option.some.inj hfirst
      rw [hfind] at hloop
      obtain ⟨block, surplus, c', hread, hdeliver⟩ := hloop
      have hread' : readRequest (c.arriving stream recvs) = (.request block surplus, c') := hread
      obtain ⟨hnext, hrest, hpre, hsurplus⟩ := readRequest_request hread'
      have hblock : block.length = hdrEnd :=
        Option.some.inj (hnext.first.symm.trans h.block)
      have hreq : c'.req = parseHeaderBlock (stream.take hdrEnd) := by
        rw [hnext.req, ← hnext.prefix_eq, hblock]
        rfl
      have hrest' : stream.drop (hdrEnd + 4) = c'.bodyPre ++ surplus ++ c'.rx := hblock ▸ hrest
      have hinv : BodyInv (c'.bodyPre ++ c'.rx) c' := by
        refine ⟨?_, ?_, ?_⟩
        · rw [hnext.fresh.2, List.nil_append]
        · rw [hnext.fresh.1, hnext.fresh.2, List.length_nil]
        · rw [hnext.fresh.1, Nat.zero_add]
          exact hpre
      -- a surplus comes only behind a body that is complete
      have hfront : (c'.bodyPre ++ c'.rx).take c'.req.contentLen =
          (stream.drop (hdrEnd + 4)).take c'.req.contentLen := by
        rw [hrest']
        by_cases hempty : surplus = []
        · rw [hempty, List.append_nil]
        · rw [← hsurplus hempty, List.append_assoc, List.take_left' rfl, List.take_left' rfl]
      have henough : c'.req.contentLen ≤ (c'.bodyPre ++ c'.rx).length := by
        by_cases hempty : surplus = []
        · have hlong := h.body
          have hlength := congrArg List.length hrest'
          rw [hempty, List.append_nil, List.length_drop] at hlength
          rw [← hlength, hreq]
          exact hlong
        · rw [← hsurplus hempty, List.length_append]
          exact Nat.le_add_right _ _
      have hbody := handlerBody_delivered lens hinv hdeliver hlens.1 henough (by
        rw [hnext.fresh.2, List.length_nil, Nat.zero_add, hreq]
        exact hlens.2)
      rw [hnext.fresh.2, List.nil_append, hfront] at hbody
      rw [outcome, hread']
      simp only
      rw [hbody, hreq]

/-- What a handler learns of a request does not depend on how its bytes are split. -/
theorem packets_agree {stream : List UInt8} {hdrEnd : Nat} (h : IsRequest stream hdrEnd)
    {recvs recvs' : List RecvAnswer} (hrecvs : Delivering stream.length recvs)
    (hrecvs' : Delivering stream.length recvs') {lens lens' : List Nat}
    (hlens : ReadsAll (parseHeaderBlock (stream.take hdrEnd)).contentLen lens)
    (hlens' : ReadsAll (parseHeaderBlock (stream.take hdrEnd)).contentLen lens') (c c' : Conn) :
    outcome lens (c.arriving stream recvs) = outcome lens' (c'.arriving stream recvs') := by
  rw [outcome_eq h hrecvs hlens, outcome_eq h hrecvs' hlens']

/-- A request with a body of two bytes. -/
def putHi : List UInt8 := ascii "PUT /a HTTP/1.1" ++ crlf ++ ascii "Content-Length: 2" ++ crlf ++
  crlf ++ ascii "hi"

theorem isRequest_putHi : IsRequest putHi 34 := ⟨by decide, by decide⟩

theorem delivering_replicate (n : Nat) {k : Nat} (hk : 0 < k) :
    Delivering n (List.replicate n (.ready k)) :=
  ⟨fun _ hr => ⟨k, hk, List.eq_of_mem_replicate hr⟩, (List.length_replicate ..).ge⟩

/-- The request byte by byte, and in one piece. -/
theorem packets_agree_putHi :
    outcome [64, 64] ((acceptedConn [] []).arriving putHi (List.replicate 40 (.ready 1))) =
      outcome [64, 64] ((acceptedConn [] []).arriving putHi (List.replicate 40 (.ready 64))) :=
  packets_agree isRequest_putHi (delivering_replicate 40 (by decide))
    (delivering_replicate 40 (by decide)) ⟨by decide, by decide⟩ ⟨by decide, by decide⟩ _ _

end Http
end JppDos
