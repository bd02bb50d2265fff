import JppDos.Lib.Machine
import JppDos.Serial.Device

/-!
# Stop-and-wait over the serial link

The host side of JPPD-SMP (`_SMPSession` of `jppd_upload.py`) and the device,
joined by two FIFO channels.  Whole frames may be lost on either channel, and
delayed for as long as one likes; what is delivered is delivered in order.

`_cmd` is modelled for any program that calls it: `Program.call` is the call
the program is at, `Program.resume` is where it goes with the reply.

Frames carry the number of the attempt they belong to.  No code looks at it; it
tells a reply to the current attempt from a stale one.

Main fact:
* `Link.Inv.accept`: an accepted reply answers the current attempt, and leaves
  both channels empty.
-/

namespace JppDos
namespace Serial

/-- The arguments of one `_cmd`; no caller asks for more than four retries. -/
structure Call where
  cmd : UInt8
  body : List UInt8
  retries : Nat
  retries_le : retries ≤ 4
deriving DecidableEq

/-- A host program, at its `_cmd` calls.  `call` is `none` where it makes no
further call: it has returned, or raised on its own. -/
structure Program (π : Type) where
  call : π → Option Call
  resume : π → UInt8 → List UInt8 → π

/-- Where `_cmd` stands. -/
inductive CmdMode where
  | sending
  | waiting (seq : UInt8)
  | raised
deriving Repr, DecidableEq

/-- A host program in a session; `seq` is `_seq`, and `attempt` counts the
frames the running `_cmd` has sent. -/
structure Host (π : Type) where
  seq : UInt8
  pc : π
  attempt : Nat
  mode : CmdMode

/-- The step of `_next_seq`. -/
def nextSeq (seq : UInt8) : UInt8 :=
  if seq + 1 = smpSeqEvent then 0 else seq + 1

section Host

variable {π : Type} (prog : Program π)

/-- The payload `_build_frame` wraps. -/
def Call.payload (c : Call) (seq : UInt8) : List UInt8 := [seq, c.cmd, 0x00] ++ c.body

/-- `_cmd` sends its next attempt. -/
def hostSend (h : Host π) : Option (List UInt8 × Host π) :=
  match h.mode, prog.call h.pc with
  | .sending, some c =>
      some (c.payload h.seq,
        { h with seq := nextSeq h.seq, attempt := h.attempt + 1, mode := .waiting h.seq })
  | _, _ => none

/-- A read fails or the waiting time is over. -/
def hostTimeout (h : Host π) : Host π :=
  match h.mode, prog.call h.pc with
  | .waiting _, some c =>
      if h.attempt ≤ c.retries then { h with mode := .sending } else { h with mode := .raised }
  | _, _ => h

/-- A response frame is read. -/
def hostRecv (h : Host π) (r : Reply) : Host π :=
  match h.mode with
  | .waiting seq =>
      if r.seq = smpSeqEvent then h
      else if r.seq = seq then
        { h with pc := prog.resume h.pc r.status r.body, attempt := 0, mode := .sending }
      else h
  | _ => h

end Host

/-- A frame in flight, and the attempt it belongs to. -/
structure InFlight (α : Type) where
  tag : Nat
  frame : α
deriving Repr, DecidableEq

/-- Both ends and the two channels, oldest frame first; `sent` counts the
attempts of the session. -/
structure Link (π : Type) where
  host : Host π
  sent : Nat
  req : List (InFlight (List UInt8))
  rep : List (InFlight Reply)
  dev : Device

/-- What can happen next. -/
inductive LinkIn where
  | send
  | hostTimeout
  | hostRecv
  | devRecv (io : Io)
  | devTimeout (io : Io)
  | devBack (io : Io)
  | loseReq (i : Nat)
  | loseRep (i : Nat)
deriving Repr, DecidableEq

/-- The host took a reply: the attempt it was waiting on, and the attempt the
reply answers. -/
structure Accepted where
  current : Nat
  answers : Nat
deriving Repr, DecidableEq

section Link

variable {π : Type} (prog : Program π) (other : OtherHandlers)

/-- The device takes the next frame; the receive task drops oversized ones. -/
def devRecv (io : Io) (l : Link π) : Link π :=
  match l.req with
  | [] => l
  | ⟨tag, payload⟩ :: req =>
      if payload.length > smpMaxPayloadBytes then { l with req := req }
      else
        let (dev, replies) := dispatchCommand other io payload l.dev
        { l with req := req, dev := dev, rep := l.rep ++ replies.map (⟨tag, ·⟩) }

/-- One step of the link.  A step that is not enabled changes nothing. -/
def linkStep (l : Link π) : LinkIn → Link π × List Accepted
  | .send =>
      match hostSend prog l.host with
      | none => (l, [])
      | some (payload, host) =>
          ({ l with
              host := host, sent := l.sent + 1, req := l.req ++ [⟨l.sent, payload⟩] }, [])
  | .hostTimeout => ({ l with host := hostTimeout prog l.host }, [])
  | .hostRecv =>
      match l.host.mode, l.rep with
      | .waiting seq, r :: rep =>
          ({ l with host := hostRecv prog l.host r.frame, rep := rep },
            if r.frame.seq ≠ smpSeqEvent ∧ r.frame.seq = seq then [⟨l.sent - 1, r.tag⟩]
            else [])
      | _, _ => (l, [])
  | .devRecv io => (devRecv other io l, [])
  | .devTimeout io => ({ l with dev := sessionTimeoutCb io l.dev }, [])
  | .devBack io =>
      let (dev, replies) := handleActionBack io l.dev
      ({ l with dev := dev, rep := l.rep ++ replies.map (⟨l.sent, ·⟩) }, [])
  | .loseReq i => ({ l with req := l.req.eraseIdx i }, [])
  | .loseRep i => ({ l with rep := l.rep.eraseIdx i }, [])

end Link

theorem nextSeq_toNat {seq : UInt8} {n : Nat} (h : seq.toNat = n % 255) :
    (nextSeq seq).toNat = (n + 1) % 255 := by
  have hlt := Nat.mod_lt n (by decide : 255 > 0)
  unfold nextSeq
  have hadd : (seq + 1).toNat = n % 255 + 1 := by
    rw [UInt8.toNat_add, h, UInt8.toNat_one]
    omega
  split_ifs with hev
  · have : (seq + 1).toNat = 255 := by rw [hev]; rfl
    rw [UInt8.toNat_zero]
    omega
  · have : (seq + 1).toNat ≠ 255 := fun h' => hev (UInt8.toNat_inj.mp h')
    omega

/-- The sequence number of attempt `n`. -/
def seqOf (n : Nat) : UInt8 := UInt8.ofNat (n % 255)

theorem seqOf_toNat (n : Nat) : (seqOf n).toNat = n % 255 := by
  have := Nat.mod_lt n (by decide : 255 > 0)
  rw [seqOf, UInt8.toNat_ofNat']
  omega

theorem seqOf_ne_event (n : Nat) : seqOf n ≠ smpSeqEvent := by
  intro h
  have hn := seqOf_toNat n
  have := Nat.mod_lt n (by decide : 255 > 0)
  rw [h] at hn
  have : smpSeqEvent.toNat = 255 := rfl
  omega

theorem nextSeq_seqOf (n : Nat) : nextSeq (seqOf n) = seqOf (n + 1) := by
  apply UInt8.toNat_inj.mp
  rw [nextSeq_toNat (seqOf_toNat n), seqOf_toNat]

/-- Two attempts less than a whole cycle apart have different numbers. -/
theorem seqOf_inj {m n : Nat} (h : seqOf m = seqOf n) (hmn : m ≤ n) (hn : n < m + 255) :
    m = n := by
  have h1 := seqOf_toNat m
  rw [h, seqOf_toNat] at h1
  omega

section Window

variable {π : Type} {prog : Program π} {other : OtherHandlers}

/-- Replies proper, as opposed to device events. -/
def isReply (r : InFlight Reply) : Bool := r.frame.seq != smpSeqEvent

theorem isReply_iff {r : InFlight Reply} : isReply r = true ↔ r.frame.seq ≠ smpSeqEvent := by
  simp [isReply]

/-- The attempts in flight, in the order in which the host would learn of
them. -/
def Link.tags (l : Link π) : List Nat :=
  (l.rep.filter isReply).map InFlight.tag ++ l.req.map InFlight.tag

/-- Everything in flight belongs to the running `_cmd`. -/
structure Link.Inv (prog : Program π) (l : Link π) : Prop where
  seq_eq : l.host.seq = seqOf l.sent
  attempt_le : ∀ c, prog.call l.host.pc = some c → l.host.attempt ≤ c.retries + 1
  attempt_zero : prog.call l.host.pc = none → l.host.attempt = 0
  req_call : ∀ q ∈ l.req, ∃ c, prog.call l.host.pc = some c ∧ q.frame = c.payload (seqOf q.tag)
  rep_seq : ∀ r ∈ l.rep, isReply r → r.frame.seq = seqOf r.tag
  window : ∀ t ∈ l.tags, l.sent ≤ t + l.host.attempt ∧ t < l.sent
  sorted : l.tags.Pairwise (· < ·)
  sending : l.host.mode = .sending → ∀ c, prog.call l.host.pc = some c →
    l.host.attempt ≤ c.retries
  waiting : ∀ s, l.host.mode = .waiting s → 0 < l.host.attempt ∧ s = seqOf (l.sent - 1)

theorem Link.Inv.of_sublist {l l' : Link π} (h : l.Inv prog) (hhost : l'.host = l.host)
    (hsent : l'.sent = l.sent) (hreq : l'.req.Sublist l.req) (hrep : l'.rep.Sublist l.rep) :
    l'.Inv prog := by
  have htags : l'.tags.Sublist l.tags :=
    ((hrep.filter _).map _).append (hreq.map _)
  exact
    { seq_eq := by rw [hhost, hsent]; exact h.seq_eq
      attempt_le := by rw [hhost]; exact h.attempt_le
      attempt_zero := by rw [hhost]; exact h.attempt_zero
      req_call := by rw [hhost]; exact fun q hq => h.req_call q (hreq.subset hq)
      rep_seq := fun r hr => h.rep_seq r (hrep.subset hr)
      window := by rw [hhost, hsent]; exact fun t ht => h.window t (htags.subset ht)
      sorted := h.sorted.sublist htags
      sending := by rw [hhost]; exact h.sending
      waiting := by rw [hhost, hsent]; exact h.waiting }

theorem Link.Inv.of_dev {l : Link π} (h : l.Inv prog) (dev : Device) :
    ({ l with dev := dev } : Link π).Inv prog :=
  ⟨h.seq_eq, h.attempt_le, h.attempt_zero, h.req_call, h.rep_seq, h.window, h.sorted,
    h.sending, h.waiting⟩

/-- Fewer attempts are in flight than there are sequence numbers. -/
theorem Link.Inv.attempt_le_five {l : Link π} (h : l.Inv prog) : l.host.attempt ≤ 5 := by
  cases hc : prog.call l.host.pc with
  | none => have := h.attempt_zero hc; omega
  | some c => have := h.attempt_le c hc; have := c.retries_le; omega

theorem Link.Inv.single {l : Link π} (h : l.Inv prog) {c : Call}
    (hc : prog.call l.host.pc = some c) (hretries : c.retries = 0)
    {q : InFlight (List UInt8)} {req : List (InFlight (List UInt8))} (hreq : l.req = q :: req) :
    req = [] ∧ l.rep.filter isReply = [] ∧ l.host.attempt = 1 := by
  have hle := h.attempt_le c hc
  have hq : q.tag ∈ l.tags := by simp [Link.tags, hreq]
  have hwin := h.window q.tag hq
  -- all tags are the last attempt, and they are strictly increasing
  have hall : ∀ t ∈ l.tags, t = q.tag := fun t ht => by have := h.window t ht; omega
  have hsorted := h.sorted
  unfold Link.tags at hsorted hall
  rw [hreq, List.map_cons] at hsorted hall
  rw [List.pairwise_append, List.pairwise_cons] at hsorted
  refine ⟨?_, ?_, by omega⟩
  · rw [List.eq_nil_iff_forall_not_mem]
    intro q' hq'
    have h1 := hsorted.2.1.1 q'.tag (List.mem_map_of_mem hq')
    have h2 := hall q'.tag (by simp [List.mem_map_of_mem hq'])
    omega
  · rw [List.eq_nil_iff_forall_not_mem]
    intro r hr
    have h1 := hsorted.2.2 r.tag (List.mem_map_of_mem hr) q.tag (by simp)
    have h2 := hall r.tag (List.mem_append_left _ (List.mem_map_of_mem hr))
    omega

theorem Link.Inv.send {l : Link π} (h : l.Inv prog) :
    (linkStep prog other l .send).1.Inv prog := by
  obtain ⟨⟨seq, pc, attempt, mode⟩, sent, req, rep, dev⟩ := l
  simp only [linkStep, hostSend]
  cases mode with
  | waiting s => exact h
  | raised => exact h
  | sending =>
      cases hc : prog.call pc with
      | none => exact h
      | some c =>
          obtain rfl : seq = seqOf sent := h.seq_eq
          have hretries : attempt ≤ c.retries := h.sending rfl c hc
          have htags : Link.tags (π := π) ⟨⟨nextSeq (seqOf sent), pc, attempt + 1,
              .waiting (seqOf sent)⟩, sent + 1, req ++ [⟨sent, c.payload (seqOf sent)⟩], rep,
              dev⟩ = Link.tags ⟨⟨seqOf sent, pc, attempt, .sending⟩, sent, req, rep, dev⟩ ++
                [sent] := by
            simp [Link.tags]
          refine
            { seq_eq := nextSeq_seqOf sent
              attempt_le := ?_
              attempt_zero := fun hnone => absurd (hc.symm.trans hnone) (by simp)
              req_call := ?_
              rep_seq := h.rep_seq
              window := ?_
              sorted := ?_
              sending := by simp
              waiting := by rintro s ⟨rfl⟩; exact ⟨by simp, rfl⟩ }
          · intro c' hc'
            obtain rfl := Option.some.inj (hc.symm.trans hc')
            simp only
            omega
          · intro q hq
            rcases List.mem_append.mp hq with hq | hq
            · exact h.req_call q hq
            · obtain rfl := List.mem_singleton.mp hq
              exact ⟨c, hc, rfl⟩
          · intro t ht
            rw [htags, List.mem_append, List.mem_singleton] at ht
            rcases ht with ht | rfl
            · have := h.window t ht
              simp only at this ⊢
              omega
            · simp
          · rw [htags, List.pairwise_append]
            refine ⟨h.sorted, by simp, ?_⟩
            intro t ht u hu
            obtain rfl := List.mem_singleton.mp hu
            exact (h.window t ht).2

theorem Link.Inv.hostTimeout {l : Link π} (h : l.Inv prog) :
    (linkStep prog other l .hostTimeout).1.Inv prog := by
  obtain ⟨⟨seq, pc, attempt, mode⟩, sent, req, rep, dev⟩ := l
  simp only [linkStep, Serial.hostTimeout]
  cases mode with
  | sending => exact h
  | raised => exact h
  | waiting s =>
      cases hc : prog.call pc with
      | none => exact h
      | some c =>
          simp only
          split_ifs with hle
          · exact ⟨h.seq_eq, h.attempt_le, h.attempt_zero, h.req_call, h.rep_seq, h.window,
              h.sorted,
              fun _ c' hc' => by obtain rfl := Option.some.inj (hc.symm.trans hc'); exact hle,
              by simp⟩
          · exact ⟨h.seq_eq, h.attempt_le, h.attempt_zero, h.req_call, h.rep_seq, h.window,
              h.sorted, by simp, by simp⟩

/-- A reply the host takes answers its current attempt, and nothing else is in
flight any more: the attempts before it were answered or lost, and it was the
last one sent. -/
theorem Link.Inv.accept {l : Link π} (h : l.Inv prog) {s : UInt8} {r : InFlight Reply}
    {rep : List (InFlight Reply)} (hmode : l.host.mode = .waiting s) (hrep : l.rep = r :: rep)
    (hev : r.frame.seq ≠ smpSeqEvent) (hseq : r.frame.seq = s) :
    r.tag = l.sent - 1 ∧ l.req = [] ∧ rep.filter isReply = [] := by
  have hreal : isReply r = true := isReply_iff.mpr hev
  have htags : l.tags = r.tag :: ((rep.filter isReply).map InFlight.tag ++
      l.req.map InFlight.tag) := by
    simp [Link.tags, hrep, hreal]
  obtain ⟨hpos, hs⟩ := h.waiting s hmode
  have hwin := h.window r.tag (by rw [htags]; simp)
  have hfive := h.attempt_le_five
  have htag : r.tag = l.sent - 1 := by
    refine seqOf_inj ?_ (by omega) (by omega)
    rw [← h.rep_seq r (by rw [hrep]; simp) hreal, hseq, hs]
  have hrest : (rep.filter isReply).map InFlight.tag ++ l.req.map InFlight.tag = [] := by
    rw [List.eq_nil_iff_forall_not_mem]
    intro t ht
    have hlt := (List.pairwise_cons.mp (htags ▸ h.sorted)).1 t ht
    have := h.window t (by rw [htags]; exact List.mem_cons_of_mem _ ht)
    omega
  rw [List.append_eq_nil_iff, List.map_eq_nil_iff, List.map_eq_nil_iff] at hrest
  exact ⟨htag, hrest.2, hrest.1⟩

theorem Link.Inv.hostRecv {l : Link π} (h : l.Inv prog) :
    (linkStep prog other l .hostRecv).1.Inv prog := by
  simp only [linkStep]
  split
  · rename_i s r rep hmode hrep
    have hsub : rep.Sublist l.rep := by rw [hrep]; exact List.sublist_cons_self r rep
    simp only [Serial.hostRecv, hmode]
    split_ifs with hev hseq
    · exact h.of_sublist rfl rfl (List.Sublist.refl _) hsub
    · obtain ⟨_, hreq, hrep'⟩ := h.accept hmode hrep hev hseq
      refine
        { seq_eq := h.seq_eq
          attempt_le := by simp
          attempt_zero := by simp
          req_call := by simp [hreq]
          rep_seq := fun r' hr' => h.rep_seq r' (hsub.subset hr')
          window := by simp [Link.tags, hreq, hrep']
          sorted := by simp [Link.tags, hreq, hrep']
          sending := by simp
          waiting := by simp }
    · exact h.of_sublist rfl rfl (List.Sublist.refl _) hsub
  · exact h

theorem Link.Inv.devRecv {l : Link π} (h : l.Inv prog) (io : Io) :
    (linkStep prog other l (.devRecv io)).1.Inv prog := by
  simp only [linkStep, Serial.devRecv]
  split
  · exact h
  · rename_i tag payload req hreq
    split_ifs with hbig
    · exact h.of_sublist rfl rfl (by rw [hreq]; exact List.sublist_cons_self _ _)
        (List.Sublist.refl _)
    · obtain ⟨c, hc, hpay⟩ := h.req_call ⟨tag, payload⟩ (by simp [hreq])
      obtain rfl : payload = c.payload (seqOf tag) := hpay
      obtain ⟨status, body, hans⟩ :=
        dispatchCommand_answers other io (seqOf tag) c.cmd 0x00 c.body l.dev
      have hne := seqOf_ne_event tag
      have hans' : (dispatchCommand other io (c.payload (seqOf tag)) l.dev).2 =
          [⟨seqOf tag, status, body⟩] := hans
      simp only [hans', List.map_cons, List.map_nil]
      -- the reply takes the place of its request
      have htags : ∀ dev, Link.tags (π := π) ⟨l.host, l.sent, req,
          l.rep ++ [⟨tag, ⟨seqOf tag, status, body⟩⟩], dev⟩ = l.tags := by
        intro dev
        have hreal : isReply ⟨tag, ⟨seqOf tag, status, body⟩⟩ = true := isReply_iff.mpr hne
        simp [Link.tags, hreal, hreq]
      refine
        { seq_eq := h.seq_eq
          attempt_le := h.attempt_le
          attempt_zero := h.attempt_zero
          req_call := fun q hq => h.req_call q (by rw [hreq]; exact List.mem_cons_of_mem _ hq)
          rep_seq := ?_
          window := by rw [htags]; exact h.window
          sorted := by rw [htags]; exact h.sorted
          sending := h.sending
          waiting := h.waiting }
      intro r hr hreal
      rcases List.mem_append.mp hr with hr | hr
      · exact h.rep_seq r hr hreal
      · obtain rfl := List.mem_singleton.mp hr
        rfl

theorem Link.Inv.devBack {l : Link π} (h : l.Inv prog) (io : Io) :
    (linkStep prog other l (.devBack io)).1.Inv prog := by
  simp only [linkStep, handleActionBack]
  split_ifs
  · have htags : ∀ dev, Link.tags (π := π) ⟨l.host, l.sent, l.req,
        l.rep ++ [⟨l.sent, ⟨smpSeqEvent, smpEvtSessionEnded, []⟩⟩], dev⟩ = l.tags := by
      intro dev
      simp [Link.tags, isReply]
    refine
      { seq_eq := h.seq_eq
        attempt_le := h.attempt_le
        attempt_zero := h.attempt_zero
        req_call := h.req_call
        rep_seq := ?_
        window := by simp only [sendEvent, List.map_cons, List.map_nil, htags]; exact h.window
        sorted := by simp only [sendEvent, List.map_cons, List.map_nil, htags]; exact h.sorted
        sending := h.sending
        waiting := h.waiting }
    intro r hr hreal
    rcases List.mem_append.mp hr with hr | hr
    · exact h.rep_seq r hr hreal
    · obtain rfl := List.mem_singleton.mp hr
      exact absurd rfl (isReply_iff.mp hreal)
  · simpa using h

theorem Link.Inv.step {l : Link π} (h : l.Inv prog) (a : LinkIn) :
    (linkStep prog other l a).1.Inv prog := by
  cases a with
  | send => exact h.send
  | hostTimeout => exact h.hostTimeout
  | hostRecv => exact h.hostRecv
  | devRecv io => exact h.devRecv io
  | devTimeout io => exact h.of_dev _
  | devBack io => exact h.devBack io
  | loseReq i => exact h.of_sublist rfl rfl (List.eraseIdx_sublist ..) (List.Sublist.refl _)
  | loseRep i => exact h.of_sublist rfl rfl (List.Sublist.refl _) (List.eraseIdx_sublist ..)

/-- In every run, a reply taken by the host answers its current attempt. -/
theorem linkStep_accepted {l : Link π} (h : l.Inv prog) (as : List LinkIn) :
    ∀ acc ∈ Machine.outputs (linkStep prog other) l as, acc.answers = acc.current := by
  have hrun := @Machine.Along.monitor _ _ _ (linkStep prog other) (fun _ _ => True)
    (fun l' out => l'.Inv prog ∧ ∀ acc ∈ out, acc.answers = acc.current) ?_ l as []
    (Machine.along_true l as) ⟨h, by simp⟩
  · simpa using hrun.2
  · intro l' a out hl _
    refine ⟨hl.1.step a, fun acc hacc => ?_⟩
    rcases List.mem_append.mp hacc with hacc | hacc
    · exact hl.2 acc hacc
    · cases a with
      | hostRecv =>
          simp only [linkStep] at hacc
          split at hacc
          · rename_i s r rep hmode hrep
            simp only at hacc
            split_ifs at hacc with hcond
            · obtain rfl := List.mem_singleton.mp hacc
              exact (hl.1.accept hmode hrep hcond.1 hcond.2).1
            · simp at hacc
          · simp at hacc
      | send =>
          simp only [linkStep] at hacc
          split at hacc <;> simp at hacc
      | _ => simp [linkStep] at hacc

end Window

end Serial
end JppDos
