import JppDos.Http.FileServer

/-!
# Files put over WebDAV

`handle_put` with the file it leaves on the card, and what the connection loop does after it.
-/

namespace JppDos
namespace Http

open CText Numerals

/-- What the card makes of the calls of the copy: how much of its bytes a failing `write` has put
into the file, what is in the file after `close`, whose result is not looked at, and whether
`unlink` succeeds. -/
structure Media where
  short : Nat
  closed : List UInt8 → List UInt8
  unlinks : Bool

/-- Whether the file was opened. -/
inductive PutOutcome where
  | refused
  | opened (result : PutResult)
deriving Repr, DecidableEq

section Handler

variable (fs : Fs) (media : Media)

/-- The copy loop of `handle_put`, with what it has written. -/
def receiveContent : Nat → Nat → Nat → List UInt8 → Conn → PutResult × List UInt8 × Conn
  | 0, _, _, written, c => (.recvErr, written, c)
  | fuel + 1, count, remaining, written, c =>
      if remaining = 0 then (.done, written, c)
      else
        match jppHttpRecv (min remaining fs.ioSize) c with
        | (.timeout, c) => receiveContent fuel count remaining written c
        | (.error, c) => (.recvErr, written, c)
        | (.bytes data, c) =>
            if fs.write count then
              receiveContent fuel (count + 1) (remaining - data.length) (written ++ data) c
            else (.writeErr, written ++ data.take media.short, c)

/-- The file that stays at the path. -/
def fileAfter (result : PutResult) (written : List UInt8) : Option (List UInt8) :=
  if result ≠ .done ∧ media.unlinks then none else some (media.closed written)

/-- The answer to a copy that ended so. -/
def putAnswer (result : PutResult) (c : Conn) : Conn :=
  match result with
  | .recvErr => answerErr http400 "Receive error" (jppHttpRespCloseConn c)
  | .writeErr => answerErr http500 "Write error" c
  | .done => (jppHttpRespSend [] (jppHttpRespSetStatus http201 c)).2

/-- `handle_put` once the file is created. -/
def storeFile (c : Conn) : PutOutcome × Option (List UInt8) × Conn :=
  let (result, written, c) :=
    receiveContent fs media (c.recvs.length + c.bodyPre.length + 2) 0 c.req.contentLen [] c
  (.opened result, fileAfter media result written, putAnswer result c)

/-- `handle_put`: whether the file was opened, the file at the path, and the connection. -/
def handlePutFile (before : Option (List UInt8)) (c : Conn) :
    PutOutcome × Option (List UInt8) × Conn :=
  match buildPath fs c.req.uri with
  | none => (.refused, before, answerErr http400 "Bad path" c)
  | some fullPath =>
      if (fs.stat fullPath).map Prod.fst = some true then
        (.refused, before, answerErr http400 "Cannot PUT to directory" c)
      else
        let expects := (jppHttpHeader c.req (ascii "Expect")).map (strcaseeq (ascii "100-continue"))
        let c := if expects = some true then (jppHttpSendContinue c).2 else c
        if !fs.create fullPath then
          (.refused, before, answerErr http500 "Cannot create file" c)
        else storeFile fs media c

theorem receiveContent_conn (fuel : Nat) :
    ∀ (count remaining : Nat) (written : List UInt8) (c : Conn),
      receiveFile fs fuel count remaining c =
        ((receiveContent fs media fuel count remaining written c).1,
          (receiveContent fs media fuel count remaining written c).2.2) := by
  induction fuel with
  | zero => exact fun _ _ _ _ => rfl
  | succ fuel ih =>
      intro count remaining written c
      unfold receiveFile receiveContent
      by_cases hdone : remaining = 0
      · rw [if_pos hdone, if_pos hdone]
      · rw [if_neg hdone, if_neg hdone]
        cases jppHttpRecv (min remaining fs.ioSize) c with
        | mk r c' =>
            cases r with
            | timeout => exact ih _ _ _ _
            | error => rfl
            | bytes data =>
                by_cases hwrite : fs.write count = true
                · simp only [if_pos hwrite]
                  exact ih _ _ _ _
                · simp only [if_neg hwrite]

theorem receiveContent_error {fs : Fs} {fuel count remaining : Nat} {written : List UInt8}
    {c c' : Conn} (hremaining : remaining ≠ 0)
    (hrecv : jppHttpRecv (min remaining fs.ioSize) c = (.error, c')) :
    receiveContent fs media (fuel + 1) count remaining written c = (.recvErr, written, c') := by
  rw [receiveContent, if_neg hremaining, hrecv]

theorem receiveContent_bytes {fs : Fs} {fuel count remaining : Nat} {written data : List UInt8}
    {c c' : Conn} (hremaining : remaining ≠ 0)
    (hrecv : jppHttpRecv (min remaining fs.ioSize) c = (.bytes data, c'))
    (hwrite : fs.write count = true) :
    receiveContent fs media (fuel + 1) count remaining written c =
      receiveContent fs media fuel (count + 1) (remaining - data.length) (written ++ data) c' := by
  rw [receiveContent, if_neg hremaining, hrecv]
  exact if_pos hwrite

theorem storeFile_conn (c : Conn) : (storeFile fs media c).2.2 = storeBody fs c := by
  unfold storeFile storeBody
  rw [receiveContent_conn fs media _ _ _ []]
  simp only
  unfold putAnswer
  split <;> simp only [*]

/-- The handler with its file is the handler of the server. -/
theorem handlePutFile_conn (before : Option (List UInt8)) (c : Conn) :
    (handlePutFile fs media before c).2.2 = handlePut fs c := by
  unfold handlePutFile handlePut
  cases buildPath fs c.req.uri with
  | none => rfl
  | some fullPath =>
      simp only
      by_cases hdir : (fs.stat fullPath).map Prod.fst = some true
      · rw [if_pos hdir, if_pos hdir]
      · rw [if_neg hdir, if_neg hdir]
        by_cases hcreate : (!fs.create fullPath) = true
        · rw [if_pos hcreate, if_pos hcreate]
        · rw [if_neg hcreate, if_neg hcreate]
          exact storeFile_conn fs media _

end Handler

theorem decimalPrefix_map_digitChar {digits : List Nat} (h : ∀ d ∈ digits, d < 10) (acc : Nat) :
    decimalPrefix acc (digits.map digitChar) = digits.foldl (fun acc d => 10 * acc + d) acc := by
  induction digits generalizing acc with
  | nil => rfl
  | cons d digits ih =>
      have hd : d < 10 := h d (by simp)
      have hval := digitChar_toNat (show d < 16 by omega)
      rw [if_pos hd] at hval
      have hrange : 48 ≤ digitChar d ∧ digitChar d ≤ 57 := by
        rw [UInt8.le_iff_toNat_le, UInt8.le_iff_toNat_le, hval]
        change 48 ≤ 48 + d ∧ 48 + d ≤ 57
        omega
      rw [List.map_cons, decimalPrefix, if_pos hrange, hval, Nat.add_sub_cancel_left,
        ih fun d' hd' => h d' (List.mem_cons_of_mem _ hd'), List.foldl_cons]

theorem foldl_digits (fuel : Nat) :
    ∀ n, n < fuel → (digits 10 fuel n).foldl (fun acc d => 10 * acc + d) 0 = n := by
  induction fuel with
  | zero => intro n hn; omega
  | succ fuel ih =>
      intro n hn
      rw [digits]
      split_ifs with hlt
      · simp
      · rw [List.foldl_append, ih (n / 10) (by omega)]
        simp only [List.foldl_cons, List.foldl_nil]
        omega

/-- The first character of a printed number is a digit. -/
theorem showBase_ten_cons (n : Nat) : ∃ d < 10, ∃ bs, showBase 10 n = digitChar d :: bs := by
  cases hdigits : digits 10 (n + 1) n with
  | nil => exact absurd hdigits (digits_ne_nil 10 n n)
  | cons d ds =>
      have hd : d < 10 := digits_lt (by decide) (n + 1) n d (by rw [hdigits]; simp)
      exact ⟨d, hd, ds.map digitChar, by rw [showBase, hdigits]; rfl⟩

theorem digitChar_plain : ∀ d < 10, isSpace (digitChar d) = false ∧
    (digitChar d = 32 ∨ digitChar d = 9 ↔ False) ∧ digitChar d ≠ 43 ∧ digitChar d ≠ 45 := by
  decide

/-- `strtol` reads a printed number up to the largest `long`. -/
theorem strtol_showBase (n : Nat) : (strtol (showBase 10 n)).toNat = min n (2 ^ 31 - 1) := by
  have hread : decimalPrefix 0 (showBase 10 n) = n := by
    rw [showBase, decimalPrefix_map_digitChar (digits_lt (by decide) _ _)]
    exact foldl_digits (n + 1) n (Nat.lt_succ_self n)
  obtain ⟨d, hd, bs, htext⟩ := showBase_ten_cons n
  obtain ⟨hspace, -, hplus, hminus⟩ := digitChar_plain d hd
  have hval : strtol (showBase 10 n) = max (-2147483648) (min (n : Int) 2147483647) := by
    rw [strtol, htext, List.dropWhile_cons_of_neg (by simp [hspace]), ← htext]
    split
    · rename_i hcons
      exact absurd (List.cons.inj (htext.symm.trans hcons)).1 hplus
    · rename_i hcons
      exact absurd (List.cons.inj (htext.symm.trans hcons)).1 hminus
    · rw [hread]
  rw [hval]
  omega

/-- The length of a request whose header field declares `n` bytes. -/
theorem contentLen_of_numeral (req : Request) (n : Nat) :
    (parseHeaderLine req (ascii "Content-Length: " ++ showBase 10 n)).contentLen =
      min n (2 ^ 31 - 1) := by
  obtain ⟨d, hd, bs, htext⟩ := showBase_ten_cons n
  have hskip : skipOws (32 :: showBase 10 n) = showBase 10 n := by
    rw [skipOws, List.dropWhile_cons_of_pos (by decide), htext,
      List.dropWhile_cons_of_neg (by simpa using (digitChar_plain d hd).2.1)]
  have hbreak : breakAt 58 (ascii "Content-Length: " ++ showBase 10 n) =
      some (ascii "Content-Length", 32 :: showBase 10 n) := rfl
  have hname : strcaseeq (ascii "Content-Length") (ascii "Content-Length") = true := by
    decide
  simp only [parseHeaderLine, hbreak, hskip, hname, if_true]
  exact strtol_showBase n

/-- A connection whose request declares `n` bytes, as the handler gets it. -/
structure PutRequest (n : Nat) (c : Conn) : Prop where
  declared : c.req.contentLen = (strtol (showBase 10 n)).toNat
  read : c.bodyRead = 0
  handed : c.handed = []
  bound : c.bodyPre.length ≤ c.req.contentLen
  started : c.respStarted = false

/-- The stream from the body on, without what was dropped behind it. -/
def bodyStream (c : Conn) : List UInt8 := c.bodyPre ++ c.rx

theorem PutRequest.bodyInv {n : Nat} {c : Conn} (h : PutRequest n c) :
    BodyInv (bodyStream c) c where
  stream := by rw [h.handed]; rfl
  read := by rw [h.read, h.handed]; rfl
  bound := by
    rw [h.read, Nat.zero_add]
    exact h.bound

theorem jppHttpRecv_started (len : Nat) (c : Conn) :
    (jppHttpRecv len c).2.respStarted = c.respStarted := by
  unfold jppHttpRecv
  split_ifs
  · rfl
  · rfl
  · cases hrecv : sockRecv (min len (c.req.contentLen - c.bodyRead)) c with
    | mk r c₁ =>
        cases r with
        | bytes data =>
            simp only [hrecv]
            rw [(sockRecv_bytes hrecv).2.2]
        | timeout | error =>
            simp only [hrecv]
            rw [sockRecv_none hrecv (by simp)]

/-- What a receive call hands out is counted and noted. -/
theorem jppHttpRecv_bytes {len : Nat} {c c' : Conn} {data : List UInt8}
    (h : jppHttpRecv len c = (.bytes data, c')) :
    c'.bodyRead = c.bodyRead + data.length ∧ c'.handed = c.handed ++ data := by
  unfold jppHttpRecv at h
  split_ifs at h
  · exact absurd (Prod.mk.inj h).1 (by simp)
  · obtain ⟨hdata, rfl⟩ := Prod.mk.inj h
    obtain rfl := RecvResult.bytes.inj hdata
    exact ⟨rfl, rfl⟩
  · cases hrecv : sockRecv (min len (c.req.contentLen - c.bodyRead)) c with
    | mk r c₁ =>
        simp only [hrecv] at h
        cases r with
        | timeout => exact absurd (Prod.mk.inj h).1 (by simp)
        | error => exact absurd (Prod.mk.inj h).1 (by simp)
        | bytes data' =>
            obtain ⟨hdata, rfl⟩ := Prod.mk.inj h
            obtain rfl := RecvResult.bytes.inj hdata
            rw [(sockRecv_bytes hrecv).2.2]
            exact ⟨rfl, rfl⟩

/-- A receive call that hands nothing out leaves the count and the note alone. -/
theorem jppHttpRecv_none {len : Nat} {c c' : Conn} {r : RecvResult}
    (h : jppHttpRecv len c = (r, c')) (hr : ∀ data, r ≠ .bytes data) :
    c'.bodyRead = c.bodyRead ∧ c'.handed = c.handed := by
  unfold jppHttpRecv at h
  split_ifs at h
  · obtain ⟨-, rfl⟩ := Prod.mk.inj h
    exact ⟨rfl, rfl⟩
  · exact absurd (Prod.mk.inj h).1.symm (hr _)
  · cases hrecv : sockRecv (min len (c.req.contentLen - c.bodyRead)) c with
    | mk r' c₁ =>
        simp only [hrecv] at h
        cases r' with
        | bytes data => exact absurd (Prod.mk.inj h).1.symm (hr _)
        | timeout | error =>
            obtain ⟨-, rfl⟩ := Prod.mk.inj h
            rw [sockRecv_none hrecv (by simp)]
            exact ⟨rfl, rfl⟩

/-- The loop writes what it is handed, and is done once the whole body has been. -/
theorem receiveContent_done (fs : Fs) (media : Media) (fuel : Nat) :
    ∀ {count remaining : Nat} {written content : List UInt8} {c c' : Conn},
      written = c.handed → remaining = c.req.contentLen - c.bodyRead →
      receiveContent fs media fuel count remaining written c = (.done, content, c') →
      content = c'.handed ∧ c'.req.contentLen ≤ c'.bodyRead := by
  induction fuel with
  | zero =>
      intro count remaining written content c c' _ _ h
      exact absurd (Prod.mk.inj h).1 (by simp)
  | succ fuel ih =>
      intro count remaining written content c c' hwritten hremaining h
      unfold receiveContent at h
      by_cases hdone : remaining = 0
      · rw [if_pos hdone] at h
        obtain ⟨-, hrest⟩ := Prod.mk.inj h
        obtain ⟨rfl, rfl⟩ := Prod.mk.inj hrest
        exact ⟨hwritten, by omega⟩
      · rw [if_neg hdone] at h
        have hreq := jppHttpRecv_req (min remaining fs.ioSize) c
        cases hrecv : jppHttpRecv (min remaining fs.ioSize) c with
        | mk r c₁ =>
            rw [hrecv] at h hreq
            simp only at hreq
            cases r with
            | timeout =>
                obtain ⟨hread, hhanded⟩ := jppHttpRecv_none hrecv (by simp)
                exact ih (hwritten.trans hhanded.symm) (by rw [hreq, hread, hremaining]) h
            | error => exact absurd (Prod.mk.inj h).1 (by simp)
            | bytes data =>
                obtain ⟨hread, hhanded⟩ := jppHttpRecv_bytes hrecv
                simp only at h
                split_ifs at h
                · exact ih (by rw [hhanded, hwritten]) (by rw [hreq, hread, hremaining]; omega) h
                · exact absurd (Prod.mk.inj h).1 (by simp)

theorem receiveContent_started (fs : Fs) (media : Media) (fuel : Nat) :
    ∀ (count remaining : Nat) (written : List UInt8) (c : Conn),
      (receiveContent fs media fuel count remaining written c).2.2.respStarted = c.respStarted := by
  induction fuel with
  | zero => exact fun _ _ _ _ => rfl
  | succ fuel ih =>
      intro count remaining written c
      have hstarted := jppHttpRecv_started (min remaining fs.ioSize) c
      unfold receiveContent
      by_cases hdone : remaining = 0
      · rw [if_pos hdone]
      · rw [if_neg hdone]
        cases hrecv : jppHttpRecv (min remaining fs.ioSize) c with
        | mk r c₁ =>
            rw [hrecv] at hstarted
            cases r with
            | timeout => exact (ih _ _ _ c₁).trans hstarted
            | error => exact hstarted
            | bytes data =>
                simp only
                split_ifs
                · exact (ih _ _ _ c₁).trans hstarted
                · exact hstarted

/-- A call that leaves the status line alone. -/
def KeepsStatus (f : Conn → Bool × Conn) : Prop := ∀ c, (f c).2.status = c.status

theorem keepsStatus_sendAll (data : List UInt8) : KeepsStatus (sendAll data) := by
  intro c
  unfold sendAll
  split_ifs <;> rfl

theorem KeepsStatus.andThen {f next : Conn → Bool × Conn} (h : KeepsStatus f)
    (hnext : KeepsStatus next) : KeepsStatus fun c => andThen (f c) next := by
  intro c
  simp only [Http.andThen]
  split_ifs
  · exact (hnext _).trans (h c)
  · exact h c

theorem keepsStatus_startResponse (contentLen : Int) :
    KeepsStatus (startResponse contentLen) := by
  have hframing : KeepsStatus (sendFraming contentLen) := by
    intro c
    unfold sendFraming
    refine (keepsStatus_sendAll _).andThen (fun c => ?_) c
    exact (keepsStatus_sendAll _).andThen (fun c => rfl) c
  intro c
  unfold startResponse
  refine (keepsStatus_sendAll _).andThen (fun c' => ?_) c
  exact (keepsStatus_sendAll _).andThen
    (fun c'' => hframing { c'' with keepAlive := keptAlive contentLen c'' }) c'

theorem keepsStatus_jppHttpRespSend (body : List UInt8) : KeepsStatus (jppHttpRespSend body) := by
  intro c
  have hstart := keepsStatus_startResponse (ssize body.length) c
  unfold jppHttpRespSend
  split_ifs
  · rfl
  · cases hr : startResponse (ssize body.length) c with
    | mk ok c' =>
        rw [hr] at hstart
        cases ok with
        | false => exact hstart
        | true =>
            simp only
            split_ifs
            · exact hstart
            · exact (keepsStatus_sendAll body c').trans hstart

theorem answerErr_status {c : Conn} (hstarted : c.respStarted = false) (status : List UInt8)
    (msg : String) : (answerErr status msg c).status = status.take 39 := by
  have htype : ∀ c : Conn, (jppHttpRespSetType (ascii "text/plain") c).status = c.status := by
    intro c
    unfold jppHttpRespSetType jppHttpRespSetHdr
    split_ifs <;> rfl
  rw [answerErr, jppHttpRespSendErr, if_neg (by simp [hstarted]),
    keepsStatus_jppHttpRespSend, htype]
  rfl

theorem putAnswer_status {c : Conn} (hstarted : c.respStarted = false) (result : PutResult) :
    (putAnswer result c).status = http201 ↔ result = .done := by
  cases result with
  | done => exact iff_of_true (keepsStatus_jppHttpRespSend [] _) rfl
  | recvErr =>
      refine iff_of_false ?_ (by simp)
      rw [putAnswer, answerErr_status (c := jppHttpRespCloseConn c) hstarted]
      decide
  | writeErr =>
      refine iff_of_false ?_ (by simp)
      rw [putAnswer, answerErr_status hstarted]
      decide

/-- What a PUT of `n` bytes promises its client, where `body` is the stream from the body on: 201
is answered only for a file of exactly these bytes, every other answer after `open` leaves no
file, and a body that is not read to its end closes the connection. -/
structure AllOrNothing (n : Nat) (body : List UInt8)
    (r : PutOutcome × Option (List UInt8) × Conn) : Prop where
  created : r.2.2.status = http201 → n ≤ body.length ∧ r.2.1 = some (body.take n)
  nothing : ∀ result, r.1 = .opened result → r.2.2.status ≠ http201 → r.2.1 = none
  closes : r.2.2.bodyRead < n → (afterHandler r.2.2).2 = false

theorem PutRequest.contentLen {n : Nat} {c : Conn} (h : PutRequest n c) (hn : n < 2 ^ 31) :
    c.req.contentLen = n := by
  rw [h.declared, strtol_showBase]
  omega

theorem sendAll_started (data : List UInt8) (c : Conn) :
    (sendAll data c).2.respStarted = c.respStarted := by
  unfold sendAll
  split_ifs <;> rfl

theorem PutRequest.sendContinue {n : Nat} {c : Conn} (h : PutRequest n c) :
    PutRequest n (jppHttpSendContinue c).2 ∧
      bodyStream (jppHttpSendContinue c).2 = bodyStream c := by
  have hsame : SameBody c (jppHttpSendContinue c).2 := sendAll_sameBody _ c
  refine ⟨⟨?_, ?_, ?_, ?_, ?_⟩, by rw [bodyStream, hsame.bodyPre, hsame.rx]; rfl⟩
  · rw [hsame.req]
    exact h.declared
  · exact hsame.bodyRead.trans h.read
  · exact hsame.handed.trans h.handed
  · rw [hsame.req, hsame.bodyPre]
    exact h.bound
  · exact (sendAll_started _ c).trans h.started

section Promise

variable {fs : Fs} {media : Media} {n : Nat}

/-- What a handler leaves unread closes the connection, when the length fits. -/
theorem closes_of_reach {c c' : Conn} (h : PutRequest n c) (hn : n < 2 ^ 31)
    (hreach : ApiReach c c') : c'.bodyRead < n → (afterHandler c').2 = false := by
  intro hshort
  obtain ⟨-, hreq⟩ := h.bodyInv.reach hreach
  cases hafter : afterHandler c' with
  | mk c'' loops =>
      cases loops with
      | false => rfl
      | true =>
          have hread := (afterHandler_loops hafter).2.1
          rw [hreq, h.contentLen hn] at hread
          omega

theorem allOrNothing_refused {c : Conn} (h : PutRequest n c) (hn : n < 2 ^ 31)
    (before : Option (List UInt8)) {status : List UInt8} (hstatus : status.take 39 ≠ http201)
    (msg : String) :
    AllOrNothing n (bodyStream c) (.refused, before, answerErr status msg c) where
  created hcreated := absurd ((answerErr_status h.started status msg).symm.trans hcreated) hstatus
  nothing result hopened := (by cases hopened)
  closes := closes_of_reach h hn (answerErr_api status msg c)

theorem storeFile_allOrNothing {c : Conn} (h : PutRequest n c) (hn : n < 2 ^ 31)
    (hclosed : ∀ data, data.length = n → media.closed data = data)
    (hunlinks : n = 0 ∨ media.unlinks = true) :
    AllOrNothing n (bodyStream c) (storeFile fs media c) := by
  have hlen := h.contentLen hn
  have hcopy := receiveContent_conn fs media (c.recvs.length + c.bodyPre.length + 2) 0
    c.req.contentLen [] c
  have hreach := receiveFile_api fs (c.recvs.length + c.bodyPre.length + 2) 0 c.req.contentLen c
  have hstarted := receiveContent_started fs media (c.recvs.length + c.bodyPre.length + 2) 0
    c.req.contentLen [] c
  have hcloses : ApiReach c (storeFile fs media c).2.2 := by
    rw [storeFile_conn]
    exact storeBody_api fs c
  cases hrun : receiveContent fs media (c.recvs.length + c.bodyPre.length + 2) 0
      c.req.contentLen [] c with
  | mk result rest =>
      obtain ⟨written, c'⟩ := rest
      rw [hrun] at hcopy hstarted
      rw [hcopy] at hreach
      obtain ⟨hinv, hreq⟩ := h.bodyInv.reach hreach
      have hstore : storeFile fs media c =
          (.opened result, fileAfter media result written, putAnswer result c') := by
        rw [storeFile, hrun]
      have hstatus := putAnswer_status (hstarted.trans h.started) result
      rw [hstore] at hcloses ⊢
      refine ⟨fun hcreated => ?_, fun result' hopened hother => ?_,
        closes_of_reach h hn hcloses⟩
      · -- the whole body has been handed out and written
        obtain rfl := hstatus.mp hcreated
        obtain ⟨hwritten, hread⟩ := receiveContent_done fs media _ h.handed.symm
          (by rw [h.read, Nat.sub_zero]) hrun
        obtain ⟨hhanded, hbody⟩ := hinv.complete hread
        rw [hreq, hlen] at hhanded
        refine ⟨by rw [hbody, List.length_append]; omega, ?_⟩
        have hfile : fileAfter media .done written = some (media.closed written) := by
          rw [fileAfter, if_neg (by simp)]
        rw [hfile, hwritten, hclosed _ hhanded, hbody, List.take_left' hhanded]
      · have hfail : result ≠ .done := fun hdone => hother (hstatus.mpr hdone)
        rcases hunlinks with hzero | hunlinks
        · -- an empty body cannot fail
          refine absurd ?_ hfail
          rw [hlen, hzero, receiveContent, if_pos rfl] at hrun
          exact (Prod.mk.inj hrun).1.symm
        · exact if_pos ⟨hfail, hunlinks⟩

/-- Every PUT of a length that fits, on a card that does what it is asked. -/
theorem handlePutFile_allOrNothing {c : Conn} (h : PutRequest n c) (hn : n < 2 ^ 31)
    (hclosed : ∀ data, data.length = n → media.closed data = data)
    (hunlinks : n = 0 ∨ media.unlinks = true) (before : Option (List UInt8)) :
    AllOrNothing n (bodyStream c) (handlePutFile fs media before c) := by
  unfold handlePutFile
  cases buildPath fs c.req.uri with
  | none => exact allOrNothing_refused h hn before (by decide) _
  | some fullPath =>
      simp only
      by_cases hdir : (fs.stat fullPath).map Prod.fst = some true
      · rw [if_pos hdir]
        exact allOrNothing_refused h hn before (by decide) _
      · rw [if_neg hdir]
        -- the interim answer comes before the file is created
        split_ifs
        all_goals first
          | exact allOrNothing_refused h hn before (by decide) _
          | exact storeFile_allOrNothing h hn hclosed hunlinks
          | rw [← h.sendContinue.2]
        · exact allOrNothing_refused h.sendContinue.1 hn before (by decide) _
        · exact storeFile_allOrNothing h.sendContinue.1 hn hclosed hunlinks

end Promise

/-- A card that takes every file, read in blocks of `ioSize` bytes. -/
def plainFs (ioSize : Nat) : Fs where
  sdRoot := ascii "/sdcard"
  password := []
  ioSize := ioSize
  stat _ := none
  opendir _ := none
  openRead _ := none
  create _ := true
  write _ := true
  deleteRecursive _ := true
  rename _ _ := true
  mkdir _ := true
  stack _ := 0

/-- The request line `PUT /a HTTP/1.1`. -/
def putLine : Request := ⟨ascii "PUT", ascii "/a", ascii "HTTP/1.1", [], 0, true⟩

/-- A connection that has read the header block of a PUT of `n` bytes to `/a`, and no body. -/
def putConn (n : Nat) (rx : List UInt8) (recvs : List RecvAnswer) : Conn :=
  { acceptedConn rx recvs with
    req := parseHeaderLine putLine (ascii "Content-Length: " ++ showBase 10 n) }

theorem putConn_contentLen (n : Nat) (rx : List UInt8) (recvs : List RecvAnswer) :
    (putConn n rx recvs).req.contentLen = min n (2 ^ 31 - 1) :=
  contentLen_of_numeral putLine n

theorem putConn_request (n : Nat) (rx : List UInt8) (recvs : List RecvAnswer) :
    PutRequest n (putConn n rx recvs) where
  declared := (putConn_contentLen n rx recvs).trans (strtol_showBase n).symm
  read := rfl
  handed := rfl
  bound := Nat.zero_le _
  started := rfl

/-- The header line of the length sets one header field and leaves the path alone. -/
theorem parseHeaderLine_putLine (n : Nat) :
    (parseHeaderLine putLine (ascii "Content-Length: " ++ showBase 10 n)).uri = ascii "/a" ∧
      jppHttpHeader (parseHeaderLine putLine (ascii "Content-Length: " ++ showBase 10 n))
        (ascii "Expect") = none := by
  have hbreak : breakAt 58 (ascii "Content-Length: " ++ showBase 10 n) =
      some (ascii "Content-Length", 32 :: showBase 10 n) := rfl
  have hname : strcaseeq (ascii "Content-Length") (ascii "Content-Length") = true ∧
      strcaseeq (ascii "Content-Length") (ascii "Expect") = false := by
    decide
  simp only [parseHeaderLine, hbreak, hname.1, if_true]
  exact ⟨rfl, by simp [jppHttpHeader, putLine, maxReqHeaders, hname.2]⟩

theorem handlePutFile_putConn (ioSize : Nat) (media : Media) (before : Option (List UInt8))
    (n : Nat) (rx : List UInt8) (recvs : List RecvAnswer) :
    handlePutFile (plainFs ioSize) media before (putConn n rx recvs) =
      storeFile (plainFs ioSize) media (putConn n rx recvs) := by
  obtain ⟨huri, hexpect⟩ := parseHeaderLine_putLine n
  have hpath : buildPath (plainFs ioSize) (putConn n rx recvs).req.uri =
      some (ascii "/sdcard/a") := by
    change buildPath (plainFs ioSize) (parseHeaderLine putLine _).uri = _
    rw [huri]
    rfl
  have hnone : (jppHttpHeader (putConn n rx recvs).req (ascii "Expect")).map
      (strcaseeq (ascii "100-continue")) ≠ some true := by
    change (jppHttpHeader (parseHeaderLine putLine _) _).map _ ≠ some true
    rw [hexpect]
    simp
  simp only [handlePutFile, hpath, if_neg hnone]
  rfl

theorem sockRecv_ready {l n : Nat} {c : Conn} {recvs : List RecvAnswer}
    (hrecvs : c.recvs = .ready n :: recvs) (hdata : c.rx.take (min n l) ≠ []) :
    sockRecv l c = (.bytes (c.rx.take (min n l)),
      { c with recvs := recvs, rx := c.rx.drop (c.rx.take (min n l)).length }) := by
  unfold sockRecv
  rw [hrecvs]
  simp only

theorem jppHttpRecv_socket {l : Nat} {c c' : Conn} {data : List UInt8} (hl : l ≠ 0)
    (hleft : c.req.contentLen - c.bodyRead ≠ 0) (hpre : c.bodyPre = [])
    (hsock : sockRecv (min l (c.req.contentLen - c.bodyRead)) c = (.bytes data, c')) :
    jppHttpRecv l c = (.bytes data,
      { c' with bodyRead := c'.bodyRead + data.length, handed := c'.handed ++ data }) := by
  unfold jppHttpRecv
  rw [if_neg (not_or.mpr ⟨hl, hleft⟩), if_neg (not_not.mpr hpre)]
  simp only [hsock]

theorem jppHttpRecv_putConn {n m : Nat} {rx : List UInt8}
    (hlast : min n (2 ^ 31 - 1) = m + 1) (hlen : m + 1 ≤ rx.length) :
    ∃ c, jppHttpRecv (min (m + 1) n) (putConn n rx [.ready n]) = (.bytes (rx.take (m + 1)), c) ∧
      c.respStarted = false := by
  have hcontent : (putConn n rx [.ready n]).req.contentLen -
      (putConn n rx [.ready n]).bodyRead = m + 1 :=
    (putConn_contentLen n rx [.ready n]).trans hlast
  have hmin : min n (m + 1) = m + 1 := by omega
  have htake : rx.take (min n (m + 1)) ≠ [] := by
    rw [← List.length_pos_iff, List.length_take]
    omega
  have hsock := sockRecv_ready (c := putConn n rx [.ready n]) (l := m + 1) rfl htake
  rw [hmin] at hsock
  have hcap : min (min (m + 1) n) (m + 1) = m + 1 := by omega
  have hpos : min (m + 1) n ≠ 0 := by omega
  exact ⟨_, jppHttpRecv_socket hpos (by rw [hcontent]; omega) rfl
    (by rw [hcontent, hcap]; exact hsock), rfl⟩

/-- A body that arrives in one piece is taken up to the length the server has read. -/
theorem storeFile_putConn (media : Media) (n : Nat) (rx : List UInt8)
    (hlen : min n (2 ^ 31 - 1) ≤ rx.length) :
    ∃ c, c.respStarted = false ∧
      storeFile (plainFs n) media (putConn n rx [.ready n]) =
        (.opened .done, some (media.closed (rx.take (min n (2 ^ 31 - 1)))), putAnswer .done c) := by
  have hcontent := putConn_contentLen n rx [.ready n]
  have hfile : ∀ written, fileAfter media .done written = some (media.closed written) :=
    fun written => if_neg (by simp)
  cases hlast : min n (2 ^ 31 - 1) with
  | zero =>
      rw [hlast] at hcontent
      refine ⟨putConn n rx [.ready n], rfl, ?_⟩
      rw [storeFile, hcontent, receiveContent, if_pos rfl]
      simp only [hfile, List.take_zero]
  | succ m =>
      rw [hlast] at hcontent hlen
      obtain ⟨c, hrecv, hstarted⟩ := jppHttpRecv_putConn hlast hlen
      refine ⟨c, hstarted, ?_⟩
      have hrest : m + 1 - (rx.take (m + 1)).length = 0 := by
        rw [List.length_take]
        omega
      have hcopy : receiveContent (plainFs n) media 3 0 (m + 1) [] (putConn n rx [.ready n]) =
          (.done, rx.take (m + 1), c) := by
        rw [receiveContent_bytes media (by omega) hrecv rfl, hrest]
        rfl
      have hfuel : (putConn n rx [.ready n]).recvs.length +
          (putConn n rx [.ready n]).bodyPre.length + 2 = 3 := rfl
      rw [storeFile, hcontent, hfuel, hcopy]
      simp only [hfile]

theorem storeFile_gone (media : Media) {n : Nat} (hn : n ≠ 0) :
    ∃ c, c.respStarted = false ∧
      storeFile (plainFs n) media (putConn n [] []) =
        (.opened .recvErr, fileAfter media .recvErr [], putAnswer .recvErr c) := by
  have hcontent := putConn_contentLen n [] []
  have hpos : min n (2 ^ 31 - 1) ≠ 0 := by omega
  have hrecv : jppHttpRecv (min (min n (2 ^ 31 - 1)) n) (putConn n [] []) =
      (.error, putConn n [] []) := by
    change (if min (min n (2 ^ 31 - 1)) n = 0 ∨ (putConn n [] []).req.contentLen - 0 = 0 then _
      else _) = _
    rw [hcontent, if_neg (by omega)]
    rfl
  refine ⟨putConn n [] [], rfl, ?_⟩
  rw [storeFile, hcontent, receiveContent_error media hpos hrecv]

/-- A PUT of `n` bytes is all or nothing on every connection and file system exactly when `n` is
no more than the largest `long`, `close` keeps what was written, and `unlink` succeeds where there
is a body to fail on. -/
theorem put_all_or_nothing_iff (media : Media) (n : Nat) :
    (∀ (fs : Fs) (before : Option (List UInt8)) (c : Conn), PutRequest n c →
      AllOrNothing n (bodyStream c) (handlePutFile fs media before c)) ↔
      n < 2 ^ 31 ∧ (∀ data, data.length = n → media.closed data = data) ∧
        (n = 0 ∨ media.unlinks = true) := by
  constructor
  · intro hall
    have hwhole : ∀ rx : List UInt8, rx.length = min n (2 ^ 31 - 1) →
        n ≤ rx.length ∧ media.closed rx = rx.take n := by
      intro rx hlen
      have hput := hall (plainFs n) none _ (putConn_request n rx [.ready n])
      obtain ⟨c, hstarted, hstore⟩ := storeFile_putConn media n rx (Nat.le_of_eq hlen.symm)
      rw [handlePutFile_putConn, hstore, ← hlen, List.take_length] at hput
      obtain ⟨hle, hfile⟩ := hput.created ((putAnswer_status hstarted .done).mpr rfl)
      exact ⟨hle, Option.some.inj hfile⟩
    have hn : n < 2 ^ 31 := by
      have hle := (hwhole (List.replicate (min n (2 ^ 31 - 1)) 0) List.length_replicate).1
      rw [List.length_replicate] at hle
      omega
    refine ⟨hn, fun data hdata => ?_, ?_⟩
    · have hclosed := (hwhole data (by omega)).2
      rwa [← hdata, List.take_length] at hclosed
    · by_cases hzero : n = 0
      · exact Or.inl hzero
      · have hput := hall (plainFs n) none _ (putConn_request n [] [])
        obtain ⟨c, hstarted, hstore⟩ := storeFile_gone media hzero
        rw [handlePutFile_putConn, hstore] at hput
        have hnothing := hput.nothing .recvErr rfl
          (fun hcreated => by cases (putAnswer_status hstarted .recvErr).mp hcreated)
        by_contra hkeeps
        rw [fileAfter, if_neg (fun h => hkeeps (Or.inr h.2))] at hnothing
        cases hnothing
  · rintro ⟨hn, hclosed, hunlinks⟩ fs before c hput
    exact handlePutFile_allOrNothing hput hn hclosed hunlinks before

/-- A card without faults. -/
def soundMedia : Media := ⟨0, id, true⟩

/-- A PUT of 2 GiB, sent in full: its last byte is missing in the file that 201 is answered for. -/
theorem not_put_all_or_nothing :
    ¬ ∀ (fs : Fs) (before : Option (List UInt8)) (c : Conn), PutRequest (2 ^ 31) c →
      AllOrNothing (2 ^ 31) (bodyStream c) (handlePutFile fs soundMedia before c) := by
  intro hall
  obtain ⟨c, hstarted, hstore⟩ := storeFile_putConn soundMedia (2 ^ 31)
    (List.replicate (2 ^ 31) 0) (by rw [List.length_replicate]; omega)
  have hput := hall (plainFs (2 ^ 31)) none _
    (putConn_request (2 ^ 31) (List.replicate (2 ^ 31) 0) [.ready (2 ^ 31)])
  rw [handlePutFile_putConn, hstore] at hput
  have hfile := (hput.created ((putAnswer_status hstarted .done).mpr rfl)).2
  have hlen := congrArg List.length (Option.some.inj hfile)
  have hbody : bodyStream (putConn (2 ^ 31) (List.replicate (2 ^ 31) 0) [.ready (2 ^ 31)]) =
      List.replicate (2 ^ 31) 0 := rfl
  rw [hbody, soundMedia] at hlen
  simp only [id_eq, List.length_take, List.length_replicate] at hlen
  omega

end Http
end JppDos
