import JppDos.Ble.Completion
import Mathlib.Data.List.Perm.Subperm

/-!
# The table of connections

`s_conns` against the links that the host really has, and the app's own table of connections
against `s_conns`.

Main fact:
* `lost_link`: a run with a loss, after which one address has two slots and a connect is
  refused although no link is up.
-/

namespace JppDos
namespace Ble

open CText Sdk

/-- The slot is active and holds this address and handle. -/
def ActiveAt (slots : List ConnSlot) (i : Nat) (address : CStr) (handle : Nat) : Prop :=
  ∃ e, slots[i]? = some e ∧ e.active = true ∧ e.address = address ∧ e.handle = handle

/-- The slot whose disconnect the host has accepted and the app's task not finished. -/
def ClientStage.releasing : ClientStage → Option Nat
  | .waiting (.terminate _ slot) _ | .woken (.terminate _ slot) | .timedOut _ slot => some slot
  | _ => none

/-- The slot and the address of a connect that the host has accepted. -/
def ClientStage.opening : ClientStage → Option (Nat × CStr)
  | .waiting (.connect _ slot text _) _ | .woken (.connect _ slot text _)
  | .calling (.exchangeMtu _ slot text) | .waiting (.exchangeMtu _ slot text) _
  | .woken (.exchangeMtu _ slot text) => some (slot, text)
  | _ => none

/-- Every active slot, but for one that is being released, refers to a link to its address
that is up, and no address has two of them. -/
structure TableTrue (s : Client) : Prop where
  up : ∀ i address handle, ActiveAt s.slots i address handle →
    s.stage.releasing = some i ∨
      ∃ l ∈ s.links, l.handle = handle ∧ strToAddr address = some l.peer
  distinct : ∀ i j address address' handle handle', ActiveAt s.slots i address handle →
    ActiveAt s.slots j address' handle' → strToAddr address = strToAddr address' → i = j

/-- A connect is refused only when as many links of the app are up as the table has slots. -/
def HonestLimit (e : ClientEvent) : Prop := ∀ n, e = .connLimit n → bleConnCapacity ≤ n

/-- The table refers to the link, or a connect has opened it and will enter it. -/
def Client.inUse (s : Client) (l : Link) : Bool :=
  (s.stage.releasing ≠ some l.slot &&
    (s.slots[l.slot]?).any fun e =>
      e.active && e.handle = l.handle && strToAddr e.address = some l.peer) ||
  s.stage.opening.any fun (slot, text) => slot = l.slot && strToAddr text = some l.peer

/-- The step is orderly; an address that is cut to the length of its slot still means the same
peer; a link that is lost is not in use; and an app is stopped without connections. -/
def Steady (s : Client) (step : ClientStep) : Prop :=
  Orderly s step ∧
    match step with
    | .connect (some text) => strToAddr (text.strncpy bleAddrLen) = strToAddr text
    | .linkDown handle =>
        s.callback = none → ∀ l ∈ s.links, l.handle = handle → s.inUse l = false
    | .restart => ∀ e ∈ s.slots, e.active = false
    | _ => True

/-- The slot is free. -/
def FreeAt (slots : List ConnSlot) (i : Nat) : Prop :=
  ∃ e, slots[i]? = some e ∧ e.active = false

theorem FreeAt.not_active {slots : List ConnSlot} {i : Nat} (h : FreeAt slots i) {address : CStr}
    {handle : Nat} : ¬ ActiveAt slots i address handle := by
  obtain ⟨e, he, hfree⟩ := h
  rintro ⟨e', he', hactive, -⟩
  obtain rfl := Option.some.inj (he.symm.trans he')
  exact nomatch hfree.symm.trans hactive

theorem ActiveAt.unique {slots : List ConnSlot} {i : Nat} {address address' : CStr}
    {handle handle' : Nat} (h : ActiveAt slots i address handle)
    (h' : ActiveAt slots i address' handle') : address = address' ∧ handle = handle' := by
  obtain ⟨e, he, -, rfl, rfl⟩ := h
  obtain ⟨e', he', -, rfl, rfl⟩ := h'
  obtain rfl := Option.some.inj (he.symm.trans he')
  exact ⟨rfl, rfl⟩

theorem SameConns.getElem? {slots slots' : List ConnSlot} (h : SameConns slots slots') (i : Nat) :
    (slots'[i]?).map ConnSlot.conn = (slots[i]?).map ConnSlot.conn := by
  rw [← List.getElem?_map, ← List.getElem?_map]
  exact congrArg (fun l => l[i]?) h

theorem SameConns.length_eq {slots slots' : List ConnSlot} (h : SameConns slots slots') :
    slots'.length = slots.length := by
  simpa using congrArg List.length h

theorem SameConns.symm {slots slots' : List ConnSlot} (h : SameConns slots slots') :
    SameConns slots' slots := Eq.symm h

theorem SameConns.activeAt {slots slots' : List ConnSlot} (h : SameConns slots slots') {i : Nat}
    {address : CStr} {handle : Nat} (hactive : ActiveAt slots i address handle) :
    ActiveAt slots' i address handle := by
  obtain ⟨e, he, hon, rfl, rfl⟩ := hactive
  have hconn := h.getElem? i
  rw [he] at hconn
  obtain ⟨e', he', heq⟩ := Option.map_eq_some_iff.mp hconn
  obtain ⟨haddress, hrest⟩ := Prod.mk.inj heq
  obtain ⟨hhandle, hactive⟩ := Prod.mk.inj hrest
  exact ⟨e', he', hactive.trans hon, haddress, hhandle⟩

/-- A free slot can be written without a change to the active ones. -/
theorem FreeAt.activeAt_modify {slots : List ConnSlot} {slot : Nat} (h : FreeAt slots slot)
    {f : ConnSlot → ConnSlot} (hf : ∀ e, (f e).active = e.active) {i : Nat} {address : CStr}
    {handle : Nat} :
    ActiveAt (slots.modify slot f) i address handle ↔ ActiveAt slots i address handle := by
  obtain ⟨e, he, hfree⟩ := h
  rw [ActiveAt, ActiveAt]
  by_cases hi : slot = i
  · subst hi
    rw [List.getElem?_modify_eq, he]
    constructor
    · rintro ⟨e', he', hon, -⟩
      obtain rfl := Option.some.inj he'
      exact nomatch ((hf e).trans hfree).symm.trans hon
    · rintro ⟨e', he', hon, -⟩
      obtain rfl := Option.some.inj he'
      exact nomatch hfree.symm.trans hon
  · rw [List.getElem?_modify_ne _ _ hi]

theorem activeAt_enter {slots : List ConnSlot} {slot : Nat} {e : ConnSlot}
    (he : slots[slot]? = some e) (entry : CStr) {i : Nat} {address : CStr} {handle : Nat} :
    ActiveAt (slots.modify slot fun e =>
        { e with address := entry, rxCharHandle := 0, txCharHandle := 0, active := true })
      i address handle ↔
      (i = slot ∧ address = entry ∧ handle = e.handle) ∨
        (i ≠ slot ∧ ActiveAt slots i address handle) := by
  rw [ActiveAt, ActiveAt]
  by_cases hi : slot = i
  · subst hi
    rw [List.getElem?_modify_eq, he]
    constructor
    · rintro ⟨e', he', -, rfl, rfl⟩
      obtain rfl := Option.some.inj he'
      exact .inl ⟨rfl, rfl, rfl⟩
    · rintro (⟨-, rfl, rfl⟩ | ⟨hne, -⟩)
      · exact ⟨_, rfl, rfl, rfl, rfl⟩
      · exact absurd rfl hne
  · rw [List.getElem?_modify_ne _ _ hi]
    simp [Ne.symm hi]

theorem activeAt_clear {slots : List ConnSlot} {slot i : Nat} {address : CStr} {handle : Nat} :
    ActiveAt (slots.set slot .zero) i address handle ↔
      i ≠ slot ∧ ActiveAt slots i address handle := by
  rw [ActiveAt, ActiveAt, List.getElem?_set]
  by_cases hi : slot = i
  · subst hi
    rw [if_pos rfl]
    constructor
    · rintro ⟨e', he', hon, -⟩
      split at he'
      · obtain rfl := Option.some.inj he'
        exact nomatch hon
      · exact nomatch he'
    · rintro ⟨hne, -⟩
      exact absurd rfl hne
  · rw [if_neg hi]
    simp [Ne.symm hi]

theorem getElem?_clear {conns : List (Option CStr)} {conn k : Nat} {text : CStr} :
    (conns.set conn none)[k]? = some (some text) ↔
      k ≠ conn ∧ conns[k]? = some (some text) := by
  rw [List.getElem?_set]
  split_ifs with hk hlt
  · exact iff_of_false nofun fun h => h.1 hk.symm
  · exact iff_of_false nofun fun h => h.1 hk.symm
  · exact (and_iff_right (Ne.symm hk)).symm

theorem getElem?_enter {conns : List (Option CStr)} {conn k : Nat} {entry text : CStr}
    (hconn : conns[conn]? = some none) :
    (conns.set conn (some entry))[k]? = some (some text) ↔
      (k = conn ∧ text = entry) ∨ (k ≠ conn ∧ conns[k]? = some (some text)) := by
  have hlt : conn < conns.length := (List.getElem?_eq_some_iff.mp hconn).1
  rw [List.getElem?_set]
  split_ifs with hk
  · subst hk
    simp [eq_comm]
  · simp [Ne.symm hk]

/-- The app's link from this slot to this peer is up. -/
def Opened (s : Client) (slot : Nat) (handle : Nat) (peer : BdAddr) : Prop :=
  ∃ l ∈ s.links, l.slot = slot ∧ l.handle = handle ∧ l.peer = peer ∧ l.session = s.session

/-- The address means the peer, also when it is cut. -/
def Names (text : CStr) (peer : BdAddr) : Prop :=
  strToAddr text = some peer ∧ strToAddr (text.strncpy bleAddrLen) = some peer

/-- The slot and the entry are free. -/
def Vacant (s : Client) (conn slot : Nat) : Prop :=
  FreeAt s.slots slot ∧ s.conns[conn]? = some none

/-- The slot is that of the entry. -/
def Registered (s : Client) (conn slot : Nat) : Prop :=
  ∃ text handle, s.conns[conn]? = some (some text) ∧ ActiveAt s.slots slot text handle

/-- What holds of a connect or a disconnect that is under way. -/
def StageTable (s : Client) : ClientStage → Prop
  | .calling (.connect conn slot text peer) => Vacant s conn slot ∧ Names text peer
  | .waiting (.connect conn slot text peer) _ =>
      Vacant s conn slot ∧ Names text peer ∧
        (s.done ≠ none ∨ s.callback ≠ none → s.status = 0 →
          Opened s slot (s.handleOf slot) peer)
  | .woken (.connect conn slot text peer) =>
      Vacant s conn slot ∧ Names text peer ∧
        (s.status = 0 → Opened s slot (s.handleOf slot) peer)
  | .calling (.exchangeMtu conn slot text) | .waiting (.exchangeMtu conn slot text) _
  | .woken (.exchangeMtu conn slot text) =>
      Vacant s conn slot ∧ ∃ peer, Names text peer ∧ Opened s slot (s.handleOf slot) peer
  | .calling (.terminate conn slot) | .waiting (.terminate conn slot) _
  | .woken (.terminate conn slot) | .timedOut conn slot => Registered s conn slot
  | _ => True

/-- What every steady step keeps. -/
structure Table (s : Client) : Prop where
  slots_len : s.slots.length = bleConnCapacity
  conns_len : s.conns.length = bleConnCapacity
  up : ∀ i address handle, ActiveAt s.slots i address handle →
    s.stage.releasing = some i ∨ ∃ peer, strToAddr address = some peer ∧ Opened s i handle peer
  distinct : ∀ i j address address' handle handle', ActiveAt s.slots i address handle →
    ActiveAt s.slots j address' handle' → strToAddr address = strToAddr address' → i = j
  peers : ∀ l ∈ s.links, ∀ l' ∈ s.links, l.peer = l'.peer → l = l'
  entries : ∀ (k : Nat) text, s.conns[k]? = some (some text) →
    ∃ i handle, ActiveAt s.slots i text handle
  entries_distinct : ∀ (k k' : Nat) text, s.conns[k]? = some (some text) →
    s.conns[k']? = some (some text) → k = k'
  sessions : ∀ r ∈ s.requests, r.session = s.session
  stage : StageTable s s.stage

theorem Table.holds {s : Client} (h : Table s) : TableTrue s where
  up := by
    intro i address handle hactive
    rcases h.up i address handle hactive with hreleasing | ⟨peer, hpeer, l, hl, -, hlink, rfl, -⟩
    · exact .inl hreleasing
    · exact .inr ⟨l, hl, hlink, hpeer⟩
  distinct := h.distinct

theorem not_activeAt_boot {i : Nat} {address : CStr} {handle : Nat} :
    ¬ ActiveAt Client.boot.slots i address handle := by
  rintro ⟨e, he, hon, -⟩
  rw [List.eq_of_mem_replicate (List.mem_of_getElem? he)] at hon
  exact nomatch hon

theorem conns_boot {k : Nat} {text : CStr} :
    (List.replicate bleConnCapacity (none : Option CStr))[k]? ≠ some (some text) := fun h =>
  nomatch List.eq_of_mem_replicate (List.mem_of_getElem? h)

theorem table_reboot (s : Client) : Table s.reboot where
  slots_len := List.length_replicate
  conns_len := List.length_replicate
  up := fun _ _ _ h => absurd h not_activeAt_boot
  distinct := fun _ _ _ _ _ _ h => absurd h not_activeAt_boot
  peers := nofun
  entries := fun _ _ h => absurd h conns_boot
  entries_distinct := fun _ _ _ h => absurd h conns_boot
  sessions := nofun
  stage := trivial

theorem table_boot : Table .boot where
  slots_len := List.length_replicate
  conns_len := List.length_replicate
  up := fun _ _ _ h => absurd h not_activeAt_boot
  distinct := fun _ _ _ _ _ _ h => absurd h not_activeAt_boot
  peers := nofun
  entries := fun _ _ h => absurd h conns_boot
  entries_distinct := fun _ _ _ h => absurd h conns_boot
  sessions := nofun
  stage := trivial

/-- Nothing changes but the stage and the characteristics. -/
theorem Table.of_same {s s' : Client} (h : Table s) (hslots : SameConns s.slots s'.slots)
    (hconns : s'.conns = s.conns) (hlinks : s'.links = s.links) (hsession : s'.session = s.session)
    (hrequests : ∀ r ∈ s'.requests, r.session = s.session)
    (hreleasing : s.stage.releasing = none ∨ s'.stage.releasing = s.stage.releasing)
    (hstage : StageTable s' s'.stage) : Table s' where
  slots_len := hslots.length_eq.trans h.slots_len
  conns_len := hconns ▸ h.conns_len
  up := by
    intro i address handle hactive
    rcases h.up i address handle (hslots.symm.activeAt hactive) with hold | hopened
    · rcases hreleasing with hnone | hsame
      · exact nomatch hnone.symm.trans hold
      · exact .inl (hsame.trans hold)
    · obtain ⟨peer, hpeer, l, hl, hslot, hhandle, hlpeer, hlsession⟩ := hopened
      exact .inr ⟨peer, hpeer, l, hlinks ▸ hl, hslot, hhandle, hlpeer,
        hlsession.trans hsession.symm⟩
  distinct := fun i j address address' handle handle' hi hj =>
    h.distinct i j address address' handle handle' (hslots.symm.activeAt hi)
      (hslots.symm.activeAt hj)
  peers := hlinks ▸ h.peers
  entries := by
    intro k text hk
    obtain ⟨i, handle, hactive⟩ := h.entries k text (hconns ▸ hk)
    exact ⟨i, handle, hslots.activeAt hactive⟩
  entries_distinct := hconns ▸ h.entries_distinct
  sessions := fun r hr => (hrequests r hr).trans hsession.symm
  stage := hstage

theorem honestLimit_of_onlyResults {events : List ClientEvent} (h : OnlyResults events) :
    ∀ e ∈ events, HonestLimit e := by
  rintro e he n rfl
  obtain ⟨_, hresult⟩ | ⟨_, hresult⟩ := h _ he <;> cases hresult

/-- A step after which the invariant holds and whose refusals are honest. -/
def KeepsTable (p : Client × List ClientEvent) : Prop :=
  Table p.1 ∧ ∀ e ∈ p.2, HonestLimit e

theorem Table.keeps_nil {s : Client} (h : Table s) : KeepsTable (s, []) := ⟨h, nofun⟩

theorem PlainEffect.keepsTable {s : Client} {p : Client × List ClientEvent} (h : PlainEffect s p)
    (hs : Table s) (hreleasing : s.stage.releasing = none) : KeepsTable p := by
  cases h with
  | mk slots status io opInProgress clientLocked radioLocked stage events hslots hstage hevents =>
      refine ⟨hs.of_same hslots rfl rfl rfl hs.sessions (.inl hreleasing) ?_,
        honestLimit_of_onlyResults hevents⟩
      obtain rfl | ⟨call, hplain, rfl⟩ := hstage
      · trivial
      · cases call with
        | connect => exact hplain.elim
        | exchangeMtu => exact hplain.elim
        | terminate => exact hplain.elim
        | _ => trivial

theorem Table.two_links {s : Client} (h : Table s) (hreleasing : s.stage.releasing = none)
    {i j : Nat} (hne : i ≠ j) {address address' : CStr} {handle handle' : Nat}
    (hi : ActiveAt s.slots i address handle) (hj : ActiveAt s.slots j address' handle') :
    2 ≤ s.ownLinks.length := by
  have hopened : ∀ {k a n}, ActiveAt s.slots k a n → ∃ l ∈ s.ownLinks, l.slot = k := by
    intro k a n hk
    rcases h.up k a n hk with hold | ⟨peer, -, l, hl, hslot, -, -, hsession⟩
    · exact nomatch hreleasing.symm.trans hold
    · exact ⟨l, List.mem_filter.mpr ⟨hl, decide_eq_true hsession⟩, hslot⟩
  obtain ⟨l, hl, hslot⟩ := hopened hi
  obtain ⟨l', hl', hslot'⟩ := hopened hj
  have hdiff : l ≠ l' := fun heq => hne (hslot.symm.trans (heq ▸ hslot'))
  have hnodup : [l, l'].Nodup := by simpa using hdiff
  refine (hnodup.subperm ?_).length_le
  intro x hx
  rcases List.mem_cons.mp hx with rfl | hx
  · exact hl
  · exact List.mem_singleton.mp hx ▸ hl'

/-- When the app's table or the slots are full, the links are there. -/
theorem Table.limit {s : Client} (h : Table s) (hreleasing : s.stage.releasing = none)
    (hfull : (∀ c ∈ s.conns, c ≠ none) ∨ ∀ e ∈ s.slots, e.active = true) :
    bleConnCapacity ≤ s.ownLinks.length := by
  rcases hfull with hconns | hslots
  · obtain ⟨c, c', hpair⟩ := List.length_eq_two.mp h.conns_len
    have hsome : ∀ c ∈ s.conns, ∃ text, c = some text := fun c hc =>
      Option.ne_none_iff_exists'.mp (hconns c hc)
    obtain ⟨text, rfl⟩ := hsome c (by rw [hpair]; exact List.mem_cons_self)
    obtain ⟨text', rfl⟩ := hsome c' (by rw [hpair]; simp)
    have hfirst : s.conns[0]? = some (some text) := by rw [hpair]; rfl
    have hsecond : s.conns[1]? = some (some text') := by rw [hpair]; rfl
    obtain ⟨i, handle, hi⟩ := h.entries 0 text hfirst
    obtain ⟨j, handle', hj⟩ := h.entries 1 text' hsecond
    have hne : i ≠ j := by
      rintro rfl
      obtain ⟨rfl, -⟩ := hi.unique hj
      exact absurd (h.entries_distinct 0 1 text hfirst hsecond) (by decide)
    exact h.two_links hreleasing hne hi hj
  · obtain ⟨e, e', hpair⟩ := List.length_eq_two.mp h.slots_len
    have hon : e.active = true := hslots e (by rw [hpair]; exact List.mem_cons_self)
    have hon' : e'.active = true := hslots e' (by rw [hpair]; simp)
    have hi : ActiveAt s.slots 0 e.address e.handle := ⟨e, by rw [hpair]; rfl, hon, rfl, rfl⟩
    have hj : ActiveAt s.slots 1 e'.address e'.handle := ⟨e', by rw [hpair]; rfl, hon', rfl, rfl⟩
    exact h.two_links hreleasing (by decide) hi hj

theorem Table.clear {s : Client} (h : Table s) (conn : Nat) (hstage : s.stage = .idle) :
    Table { s with conns := s.conns.set conn none } where
  slots_len := h.slots_len
  conns_len := by rw [List.length_set, h.conns_len]
  up := h.up
  distinct := h.distinct
  peers := h.peers
  entries := by
    exact fun k text hk => h.entries k text (getElem?_clear.mp hk).2
  entries_distinct := by
    intro k k' text hk hk'
    exact h.entries_distinct k k' text (getElem?_clear.mp hk).2 (getElem?_clear.mp hk').2
  sessions := h.sessions
  stage := by
    change StageTable _ s.stage
    rw [hstage]
    trivial

theorem BeginEffect.keepsTable {s : Client} {address : Option CStr}
    {p : Client × List ClientEvent} (h : BeginEffect s address p) (hs : Table s)
    (hstage : s.stage = .idle)
    (haddress : ∀ text, address = some text →
      strToAddr (text.strncpy bleAddrLen) = strToAddr text) : KeepsTable p := by
  have hreleasing : s.stage.releasing = none := by rw [hstage]; rfl
  cases h with
  | plain h => exact h.keepsTable hs hreleasing
  | limit hfull =>
      refine ⟨hs, fun e he n heq => ?_⟩
      obtain rfl := ClientEvent.connLimit.inj (heq.symm.trans (List.mem_singleton.mp he))
      exact hs.limit hreleasing hfull
  | clears conn result =>
      exact ⟨hs.clear conn hstage, honestLimit_of_onlyResults (onlyResults_returned _)⟩
  | reboots => exact (table_reboot s).keeps_nil
  | connects conn slot text peer htext hpeer hconn hslot =>
      refine Table.keeps_nil (hs.of_same (.refl _) rfl rfl rfl hs.sessions (.inl hreleasing) ?_)
      exact ⟨⟨hslot, hconn⟩, hpeer, (haddress text htext).trans hpeer⟩
  | terminates conn slot text hconn hslot =>
      refine Table.keeps_nil (hs.of_same (.refl _) rfl rfl rfl hs.sessions (.inl hreleasing) ?_)
      obtain ⟨e, he, hon, hname⟩ := hslot
      exact ⟨text, e.handle, hconn, e, he, hon, hname, rfl⟩

/-- The links after the host has accepted to terminate some of them. -/
theorem Table.markLinks {s s' : Client} (h : Table s) (f : Link → Link)
    (hf : ∀ l, (f l).slot = l.slot ∧ (f l).handle = l.handle ∧ (f l).peer = l.peer ∧
      (f l).session = l.session)
    (hslots : s'.slots = s.slots) (hconns : s'.conns = s.conns)
    (hlinks : s'.links = s.links.map f) (hsession : s'.session = s.session)
    (hrequests : s'.requests = s.requests) (hreleasing : s.stage.releasing = none)
    (hstage : StageTable s' s'.stage) : Table s' where
  slots_len := hslots ▸ h.slots_len
  conns_len := hconns ▸ h.conns_len
  up := by
    intro i address handle hactive
    rw [hslots] at hactive
    rcases h.up i address handle hactive with hold | hopened
    · exact nomatch hreleasing.symm.trans hold
    · obtain ⟨peer, hpeer, l, hl, hslot, hhandle, hlpeer, hlsession⟩ := hopened
      obtain ⟨fslot, fhandle, fpeer, fsession⟩ := hf l
      refine .inr ⟨peer, hpeer, f l, hlinks ▸ List.mem_map_of_mem hl, fslot.trans hslot,
        fhandle.trans hhandle, fpeer.trans hlpeer, ?_⟩
      rw [fsession, hlsession, hsession]
  distinct := hslots ▸ h.distinct
  peers := by
    rw [hlinks]
    intro x hx x' hx' hpeer
    obtain ⟨l, hl, rfl⟩ := List.mem_map.mp hx
    obtain ⟨l', hl', rfl⟩ := List.mem_map.mp hx'
    rw [(hf l).2.2.1, (hf l').2.2.1] at hpeer
    rw [h.peers l hl l' hl' hpeer]
  entries := by
    rw [hslots, hconns]
    exact h.entries
  entries_distinct := hconns ▸ h.entries_distinct
  sessions := by
    rw [hrequests, hsession]
    exact h.sessions
  stage := hstage

theorem Table.accept {s : Client} (h : Table s) (hquiet : Quiet s) {call : HostCall}
    (hstage : s.stage = .calling call) : Table (accept call s) := by
  have hold : StageTable s (.calling call) := hstage ▸ h.stage
  have hreleasing : s.stage.releasing = none := by rw [hstage]; rfl
  have hsessions : ∀ r ∈ s.requests ++ [⟨s.nextOp, call, s.session⟩], r.session = s.session := by
    intro r hr
    rcases List.mem_append.mp hr with hr | hr
    · exact h.sessions r hr
    · obtain rfl := List.mem_singleton.mp hr
      rfl
  cases call with
  | terminate conn slot =>
      refine h.markLinks _ (fun l => ?_) rfl rfl rfl rfl rfl hreleasing hold
      split_ifs <;> exact ⟨rfl, rfl, rfl, rfl⟩
  | connect conn slot text peer =>
      refine h.of_same (.refl _) rfl rfl rfl hsessions (.inl hreleasing) ?_
      refine ⟨hold.1, hold.2, fun htoken => ?_⟩
      rcases htoken with hdone | hcallback
      · exact absurd hquiet.done hdone
      · exact absurd hquiet.callback hcallback
  | exchangeMtu conn slot text =>
      exact h.of_same (.refl _) rfl rfl rfl hsessions (.inl hreleasing) hold
  | _ => exact h.of_same (.refl _) rfl rfl rfl hsessions (.inl hreleasing) trivial

/-- The new connection is entered in the slot and in the app's table. -/
theorem Table.endConnect {s : Client} (h : Table s) (hreleasing : s.stage.releasing = none)
    {conn slot : Nat} {text : CStr} (hvacant : Vacant s conn slot) {peer : BdAddr}
    (hnames : Names text peer) (hopened : Opened s slot (s.handleOf slot) peer) :
    KeepsTable (endConnect conn slot text s) := by
  obtain ⟨⟨e, he, hfree⟩, hconn⟩ := hvacant
  have hhandle : s.handleOf slot = e.handle := by
    rw [Client.handleOf, List.getD_eq_getElem?_getD, he]
    rfl
  rw [hhandle] at hopened
  have hslot : FreeAt s.slots slot := ⟨e, he, hfree⟩
  -- another slot with the same address would have the same link
  have hother : ∀ {i a n}, ActiveAt s.slots i a n → strToAddr a ≠ some peer := by
    intro i a n hi hsame
    rcases h.up i a n hi with hold | ⟨peer', hpeer', l, hl, hlslot, -, hlpeer, -⟩
    · exact nomatch hreleasing.symm.trans hold
    · obtain rfl := Option.some.inj (hpeer'.symm.trans hsame)
      obtain ⟨l', hl', hlslot', -, hlpeer', -⟩ := hopened
      have heq := h.peers l hl l' hl' (hlpeer.trans hlpeer'.symm)
      have hi' : i = slot := hlslot.symm.trans (heq ▸ hlslot')
      exact hslot.not_active (hi' ▸ hi)
  refine ⟨?_, honestLimit_of_onlyResults (onlyResults_returned _)⟩
  constructor
  case slots_len => exact (List.length_modify _ _ _).trans h.slots_len
  case conns_len => exact (List.length_set).trans h.conns_len
  case up =>
    intro i address handle hactive
    rcases (activeAt_enter he _).mp hactive with ⟨rfl, rfl, rfl⟩ | ⟨-, hold⟩
    · exact .inr ⟨peer, hnames.2, hopened⟩
    · rcases h.up i address handle hold with hrel | hup
      · exact nomatch hreleasing.symm.trans hrel
      · exact .inr hup
  case distinct =>
    intro i j address address' handle handle' hi hj hsame
    rcases (activeAt_enter he _).mp hi with ⟨rfl, rfl, rfl⟩ | ⟨-, hiold⟩ <;>
      rcases (activeAt_enter he _).mp hj with ⟨rfl, rfl, rfl⟩ | ⟨-, hjold⟩
    · rfl
    · exact absurd (hsame.symm.trans hnames.2) (hother hjold)
    · exact absurd (hsame.trans hnames.2) (hother hiold)
    · exact h.distinct i j address address' handle handle' hiold hjold hsame
  case peers => exact h.peers
  case entries =>
    intro k entry hk
    rcases (getElem?_enter hconn).mp hk with ⟨-, rfl⟩ | ⟨-, hold⟩
    · exact ⟨slot, e.handle, (activeAt_enter he _).mpr (.inl ⟨rfl, rfl, rfl⟩)⟩
    · obtain ⟨i, handle, hi⟩ := h.entries k entry hold
      refine ⟨i, handle, (activeAt_enter he _).mpr (.inr ⟨?_, hi⟩)⟩
      rintro rfl
      exact hslot.not_active hi
  case entries_distinct =>
    intro k k' entry hk hk'
    have hfresh : ∀ {k : Nat}, s.conns[k]? ≠ some (some (text.strncpy bleAddrLen)) := by
      intro k hk
      obtain ⟨i, handle, hi⟩ := h.entries k _ hk
      exact hother hi hnames.2
    rcases (getElem?_enter hconn).mp hk with ⟨rfl, rfl⟩ | ⟨-, hold⟩ <;>
      rcases (getElem?_enter hconn).mp hk' with ⟨rfl, hentry⟩ | ⟨-, hold'⟩
    · rfl
    · exact absurd hold' hfresh
    · exact absurd (hentry ▸ hold) hfresh
    · exact h.entries_distinct k k' entry hold hold'
  case sessions => exact h.sessions
  case stage => trivial

theorem Table.endDisconnect {s : Client} (h : Table s) {conn slot : Nat}
    (hregistered : Registered s conn slot)
    (hreleasing : s.stage.releasing = none ∨ s.stage.releasing = some slot) :
    KeepsTable (endDisconnect conn slot s) := by
  obtain ⟨text, handle, hconn, hactive⟩ := hregistered
  refine ⟨?_, honestLimit_of_onlyResults (onlyResults_returned _)⟩
  constructor
  case slots_len => exact (List.length_set).trans h.slots_len
  case conns_len => exact (List.length_set).trans h.conns_len
  case up =>
    intro i address handle hi
    obtain ⟨hne, hi⟩ := activeAt_clear.mp hi
    rcases h.up i address handle hi with hrel | hup
    · rcases hreleasing with hnone | hsome
      · exact nomatch hnone.symm.trans hrel
      · exact absurd (Option.some.inj (hrel.symm.trans hsome)) hne
    · exact .inr hup
  case distinct =>
    intro i j address address' handle handle' hi hj
    exact h.distinct i j address address' handle handle' (activeAt_clear.mp hi).2
      (activeAt_clear.mp hj).2
  case peers => exact h.peers
  case entries =>
    intro k entry hk
    obtain ⟨hne, hold⟩ := getElem?_clear.mp hk
    obtain ⟨i, handle', hi⟩ := h.entries k entry hold
    refine ⟨i, handle', activeAt_clear.mpr ⟨?_, hi⟩⟩
    rintro rfl
    obtain ⟨rfl, -⟩ := hactive.unique hi
    exact hne (h.entries_distinct k conn text hold hconn)
  case entries_distinct =>
    intro k k' entry hk hk'
    exact h.entries_distinct k k' entry (getElem?_clear.mp hk).2 (getElem?_clear.mp hk').2
  case sessions => exact h.sessions
  case stage => trivial

theorem Table.hostReturn {s : Client} (h : Table s) (hquiet : Quiet s) {call : HostCall}
    (hstage : s.stage = .calling call) (rc : Int) (mtu : Nat) (hasMemory : Bool) :
    KeepsTable (hostReturn rc mtu hasMemory call s) := by
  have hold : StageTable s (.calling call) := hstage ▸ h.stage
  have hreleasing : s.stage.releasing = none := by rw [hstage]; rfl
  rw [Ble.hostReturn]
  split_ifs with hmemory hrc
  · exact (endClient_effect s _).keepsTable h hreleasing
  · exact (h.accept hquiet hstage).keeps_nil
  · cases call with
    | connect => exact (endClient_effect s _).keepsTable h hreleasing
    | exchangeMtu conn slot text =>
        obtain ⟨hvacant, peer, hnames, hopened⟩ := hold
        exact h.endConnect hreleasing hvacant hnames hopened
    | terminate conn slot =>
        have hcleared : Table { s with awaitingDisc := false } :=
          h.of_same (.refl _) rfl rfl rfl h.sessions (.inl hreleasing) h.stage
        exact hcleared.endDisconnect hold (.inl hreleasing)
    | _ => exact PlainEffect.keepsTable (decline_plain trivial) h hreleasing

/-- The wait ends with a token, or that of a disconnect without one. -/
theorem Table.endWait {s : Client} (h : Table s) {call : HostCall} {op : Nat}
    (hstage : s.stage = .waiting call op) : KeepsTable (endWait call op s) := by
  have hold : StageTable s (.waiting call op) := hstage ▸ h.stage
  unfold Ble.endWait
  cases hdone : s.done with
  | some token =>
      have hevents : ∀ e ∈ [ClientEvent.took op token], HonestLimit e := by
        intro e he n heq
        exact nomatch heq.symm.trans (List.mem_singleton.mp he)
      refine ⟨h.of_same (.refl _) rfl rfl rfl h.sessions (.inr ?_) ?_, hevents⟩
      · rw [hstage]
        cases call <;> rfl
      · cases call with
        | connect =>
            exact ⟨hold.1, hold.2.1, hold.2.2 (.inl (hdone ▸ Option.some_ne_none token))⟩
        | exchangeMtu => exact hold
        | terminate => exact hold
        | _ => trivial
  | none =>
      cases call with
      | terminate conn slot =>
          refine Table.keeps_nil (h.of_same (.refl _) rfl rfl rfl h.sessions (.inr ?_) hold)
          rw [hstage]
          rfl
      | _ => exact h.keeps_nil

theorem Table.resume {s : Client} (h : Table s) {call : HostCall}
    (hstage : s.stage = .woken call) : KeepsTable (resume call s) := by
  have hold : StageTable s (.woken call) := hstage ▸ h.stage
  cases call with
  | connect conn slot text peer =>
      have hreleasing : s.stage.releasing = none := by rw [hstage]; rfl
      obtain ⟨hvacant, hnames, hopened⟩ := hold
      rw [Ble.resume]
      split_ifs with hstatus
      · exact (endClient_effect s _).keepsTable h hreleasing
      · refine Table.keeps_nil
          (h.of_same (.refl _) rfl rfl rfl h.sessions (.inl hreleasing) ?_)
        exact ⟨hvacant, peer, hnames, hopened (not_not.mp hstatus)⟩
  | exchangeMtu conn slot text =>
      obtain ⟨hvacant, peer, hnames, hopened⟩ := hold
      exact h.endConnect (by rw [hstage]; rfl) hvacant hnames hopened
  | terminate conn slot => exact h.endDisconnect hold (.inr (by rw [hstage]; rfl))
  | _ => exact PlainEffect.keepsTable (resume_plain trivial) h (by rw [hstage]; rfl)

/-- A new link is entered in the slot of its connect, which is free. -/
theorem Table.link {s : Client} (h : Table s) {conn slot : Nat} {text : CStr} {peer : BdAddr}
    {op handle : Nat} (hstage : s.stage = .waiting (.connect conn slot text peer) op)
    (hfresh : ∀ l ∈ s.links, l.peer ≠ peer) {s' : Client}
    (hslots : s'.slots = s.slots.modify slot fun e => { e with handle := handle })
    (hlinks : s'.links = s.links ++ [⟨handle, peer, slot, s.session, none⟩])
    (hconns : s'.conns = s.conns) (hsession : s'.session = s.session)
    (hrequests : ∀ r ∈ s'.requests, r ∈ s.requests) (hstage' : s'.stage = s.stage) :
    Table s' := by
  have hold : StageTable s (.waiting (.connect conn slot text peer) op) := hstage ▸ h.stage
  obtain ⟨⟨hslot, hconn⟩, hnames, -⟩ := hold
  have hactive : ∀ {i a n}, ActiveAt s'.slots i a n ↔ ActiveAt s.slots i a n := by
    intro i a n
    rw [hslots]
    refine hslot.activeAt_modify fun e => ?_
    rfl
  have hhandle : s'.handleOf slot = handle := by
    obtain ⟨e, he, -⟩ := hslot
    rw [Client.handleOf, List.getD_eq_getElem?_getD, hslots, List.getElem?_modify_eq, he]
    rfl
  constructor
  case slots_len => rw [hslots, List.length_modify, h.slots_len]
  case conns_len => rw [hconns, h.conns_len]
  case up =>
    intro i address n hi
    rcases h.up i address n (hactive.mp hi) with hrel | ⟨p, hp, l, hl, hlslot, hln, hlp, hls⟩
    · rw [hstage] at hrel
      exact nomatch hrel
    · refine .inr ⟨p, hp, l, ?_, hlslot, hln, hlp, hls.trans hsession.symm⟩
      rw [hlinks]
      exact List.mem_append_left _ hl
  case distinct =>
    intro i j a b n m hi hj
    exact h.distinct i j a b n m (hactive.mp hi) (hactive.mp hj)
  case peers =>
    rw [hlinks]
    intro l hl l' hl' hpeer
    rcases List.mem_append.mp hl with hl | hl <;> rcases List.mem_append.mp hl' with hl' | hl'
    · exact h.peers l hl l' hl' hpeer
    · obtain rfl := List.mem_singleton.mp hl'
      exact absurd hpeer (hfresh l hl)
    · obtain rfl := List.mem_singleton.mp hl
      exact absurd hpeer.symm (hfresh l' hl')
    · rw [List.mem_singleton.mp hl, List.mem_singleton.mp hl']
  case entries =>
    intro k entry hk
    rw [hconns] at hk
    obtain ⟨i, n, hi⟩ := h.entries k entry hk
    exact ⟨i, n, hactive.mpr hi⟩
  case entries_distinct =>
    rw [hconns]
    exact h.entries_distinct
  case sessions => exact fun r hr => (h.sessions r (hrequests r hr)).trans hsession.symm
  case stage =>
    rw [hstage', hstage]
    refine ⟨⟨?_, hconns ▸ hconn⟩, hnames, fun _ _ => ?_⟩
    · obtain ⟨e, he, hfree⟩ := hslot
      refine ⟨{ e with handle := handle }, ?_, hfree⟩
      rw [hslots, List.getElem?_modify_eq, he]
      rfl
    · rw [hhandle]
      exact ⟨_, hlinks ▸ List.mem_append_right _ List.mem_cons_self, rfl, rfl, rfl,
        hsession.symm⟩

theorem Table.complete {s : Client} (h : Table s) (hmatched : Matched s) {r : Request}
    (hr : r ∈ s.requests) {status : Int} {handle : Nat}
    (hcan : s.completable status handle r.call = true) :
    Table (complete r status handle s) := by
  obtain ⟨-, -, hstage, hcall⟩ := hmatched.requests r hr
  have hsession := h.sessions r hr
  obtain ⟨op, call, session⟩ := r
  obtain rfl : session = s.session := hsession
  have hold : StageTable s (.waiting call op) := hstage ▸ h.stage
  have hrest : ∀ r' ∈ s.requests.filter (fun r' => r'.op ≠ op), r'.session = s.session :=
    fun r' hr' => h.sessions r' (List.mem_of_mem_filter hr')
  cases call with
  | connect conn slot text peer =>
      unfold Ble.complete
      dsimp only
      split_ifs with hstatus
      · refine h.link hstage ?_ rfl rfl rfl rfl (fun r' hr' => List.mem_of_mem_filter hr') rfl
        have hall : s.links.all (fun l => l.handle ≠ handle && l.peer ≠ peer) = true := by
          simpa [Client.completable, hstatus] using hcan
        intro l hl
        have hl' := List.all_eq_true.mp hall l hl
        simp only [Bool.and_eq_true, decide_eq_true_eq] at hl'
        exact hl'.2
      · refine h.of_same (.refl _) rfl rfl rfl hrest (.inr rfl) ?_
        change StageTable _ s.stage
        rw [hstage]
        exact ⟨hold.1, hold.2.1, fun _ hzero => absurd hzero hstatus⟩
  | exchangeMtu conn slot text =>
      refine h.of_same (.refl _) rfl rfl rfl hrest (.inr rfl) ?_
      change StageTable _ s.stage
      rw [hstage]
      exact hold
  | terminate conn slot => exact absurd rfl (hcall conn slot)
  | _ =>
      refine h.of_same (.refl _) rfl rfl rfl hrest (.inr rfl) ?_
      change StageTable _ s.stage
      rw [hstage]
      trivial

theorem Table.unlink {s s' : Client} (h : Table s) {handle : Nat}
    (hunused : ∀ l ∈ s.links, l.handle = handle → s.inUse l = false)
    (hslots : s'.slots = s.slots) (hconns : s'.conns = s.conns)
    (hlinks : s'.links = s.links.filter fun l => l.handle ≠ handle)
    (hsession : s'.session = s.session) (hrequests : s'.requests = s.requests)
    (hstage' : s'.stage = s.stage) (hstatus : s'.status = s.status)
    (htokens : (s'.done = s.done ∧ s'.callback = s.callback) ∨
      ∃ conn slot op, s.stage = .waiting (.terminate conn slot) op) : Table s' := by
  have hkeep : ∀ l ∈ s.links, s.inUse l = true → l ∈ s'.links := by
    intro l hl huse
    rw [hlinks, List.mem_filter]
    refine ⟨hl, decide_eq_true fun heq => ?_⟩
    exact nomatch (hunused l hl heq).symm.trans huse
  have hopening : ∀ {slot text peer}, s.stage.opening = some (slot, text) →
      strToAddr text = some peer → Opened s slot (s.handleOf slot) peer →
        Opened s' slot (s'.handleOf slot) peer := by
    rintro slot text peer hopening hname ⟨l, hl, rfl, hhandle, rfl, hlsession⟩
    have huse : s.inUse l = true := by
      simp [Client.inUse, hopening, hname]
    refine ⟨l, hkeep l hl huse, rfl, ?_, rfl, hlsession.trans hsession.symm⟩
    rw [hhandle, Client.handleOf, Client.handleOf, hslots]
  constructor
  case slots_len => rw [hslots, h.slots_len]
  case conns_len => rw [hconns, h.conns_len]
  case up =>
    rw [hslots, hstage']
    intro i address n hi
    rcases h.up i address n hi with hrel | ⟨p, hp, l, hl, rfl, rfl, rfl, hls⟩
    · exact .inl hrel
    · by_cases hrel : s.stage.releasing = some l.slot
      · exact .inl hrel
      · have huse : s.inUse l = true := by
          obtain ⟨e, he, hon, rfl, hhandle⟩ := hi
          simp [Client.inUse, hrel, he, hon, hhandle, hp]
        exact .inr ⟨l.peer, hp, l, hkeep l hl huse, rfl, rfl, rfl, hls.trans hsession.symm⟩
  case distinct =>
    rw [hslots]
    exact h.distinct
  case peers =>
    rw [hlinks]
    exact fun l hl l' hl' =>
      h.peers l (List.mem_of_mem_filter hl) l' (List.mem_of_mem_filter hl')
  case entries =>
    rw [hconns, hslots]
    exact h.entries
  case entries_distinct =>
    rw [hconns]
    exact h.entries_distinct
  case sessions =>
    rw [hrequests, hsession]
    exact h.sessions
  case stage =>
    rw [hstage']
    have hold := h.stage
    cases hs : s.stage with
    | idle => trivial
    | timedOut conn slot =>
        rw [hs] at hold
        obtain ⟨text, n, hconn, hactive⟩ := hold
        exact ⟨text, n, hconns ▸ hconn, hslots ▸ hactive⟩
    | calling call =>
        rw [hs] at hold
        cases call with
        | connect conn slot text peer =>
            exact ⟨⟨hslots ▸ hold.1.1, hconns ▸ hold.1.2⟩, hold.2⟩
        | exchangeMtu conn slot text =>
            obtain ⟨hvacant, peer, hnames, hopened⟩ := hold
            exact ⟨⟨hslots ▸ hvacant.1, hconns ▸ hvacant.2⟩, peer, hnames,
              hopening (by rw [hs]; rfl) hnames.1 hopened⟩
        | terminate conn slot =>
            obtain ⟨text, n, hconn, hactive⟩ := hold
            exact ⟨text, n, hconns ▸ hconn, hslots ▸ hactive⟩
        | _ => trivial
    | waiting call op =>
        rw [hs] at hold
        cases call with
        | connect conn slot text peer =>
            obtain ⟨hvacant, hnames, hopened⟩ := hold
            refine ⟨⟨hslots ▸ hvacant.1, hconns ▸ hvacant.2⟩, hnames, fun htoken hzero => ?_⟩
            rcases htokens with ⟨hdone, hcallback⟩ | ⟨_, _, _, hother⟩
            · rw [hdone, hcallback] at htoken
              exact hopening (by rw [hs]; rfl) hnames.1 (hopened htoken (hstatus ▸ hzero))
            · exact nomatch hs.symm.trans hother
        | exchangeMtu conn slot text =>
            obtain ⟨hvacant, peer, hnames, hopened⟩ := hold
            exact ⟨⟨hslots ▸ hvacant.1, hconns ▸ hvacant.2⟩, peer, hnames,
              hopening (by rw [hs]; rfl) hnames.1 hopened⟩
        | terminate conn slot =>
            obtain ⟨text, n, hconn, hactive⟩ := hold
            exact ⟨text, n, hconns ▸ hconn, hslots ▸ hactive⟩
        | _ => trivial
    | woken call =>
        rw [hs] at hold
        cases call with
        | connect conn slot text peer =>
            obtain ⟨hvacant, hnames, hopened⟩ := hold
            refine ⟨⟨hslots ▸ hvacant.1, hconns ▸ hvacant.2⟩, hnames, fun hzero => ?_⟩
            exact hopening (by rw [hs]; rfl) hnames.1 (hopened (hstatus ▸ hzero))
        | exchangeMtu conn slot text =>
            obtain ⟨hvacant, peer, hnames, hopened⟩ := hold
            exact ⟨⟨hslots ▸ hvacant.1, hconns ▸ hvacant.2⟩, peer, hnames,
              hopening (by rw [hs]; rfl) hnames.1 hopened⟩
        | terminate conn slot =>
            obtain ⟨text, n, hconn, hactive⟩ := hold
            exact ⟨text, n, hconns ▸ hconn, hslots ▸ hactive⟩
        | _ => trivial

theorem Table.linkDown {s : Client} (h : Table s) {l : Link} (hl : l ∈ s.links)
    (hcallback : s.callback = none) (hsteady : Steady s (.linkDown l.handle)) :
    Table (linkDown l s) := by
  obtain ⟨horderly, hunused⟩ := hsteady
  cases hset : s.awaitingDisc with
  | false =>
      rw [Ble.linkDown, if_neg (by simp [hset])]
      exact h.unlink (hunused hcallback) rfl rfl rfl rfl rfl rfl rfl (.inl ⟨rfl, rfl⟩)
  | true =>
      obtain ⟨hdisc, hterminating⟩ := horderly hcallback hset l hl rfl
      obtain ⟨op, hop⟩ := Option.ne_none_iff_exists'.mp hdisc
      have hstage : ∃ conn slot op, s.stage = .waiting (.terminate conn slot) op := by
        cases hs : s.stage with
        | waiting call op' =>
            rw [hs] at hop
            cases call with
            | terminate conn slot => exact ⟨conn, slot, op', rfl⟩
            | _ => cases hop
        | _ =>
            rw [hs] at hop
            cases hop
      rw [Ble.linkDown, if_pos hset, hterminating, hop]
      exact h.unlink (hunused hcallback) rfl rfl rfl rfl rfl rfl rfl (.inr hstage)

theorem Table.give {s : Client} (h : Table s) {op : Nat} (hop : s.callback = some op) :
    Table { s with done := some (s.done.getD op), callback := none } := by
  refine h.of_same (.refl _) rfl rfl rfl h.sessions (.inr rfl) ?_
  have hold := h.stage
  change StageTable _ s.stage
  cases hs : s.stage with
  | waiting call op' =>
      rw [hs] at hold
      cases call with
      | connect conn slot text peer =>
          exact ⟨hold.1, hold.2.1, fun _ => hold.2.2 (.inr (hop ▸ Option.some_ne_none op))⟩
      | _ => exact hold
  | calling call =>
      rw [hs] at hold
      cases call <;> exact hold
  | woken call =>
      rw [hs] at hold
      cases call <;> exact hold
  | idle => trivial
  | timedOut conn slot =>
      rw [hs] at hold
      exact hold

/-- The app is stopped without connections, and the next one starts. -/
theorem Table.restart {s : Client} (h : Table s) (hquiet : Quiet s)
    (hfree : ∀ e ∈ s.slots, e.active = false) : Table (clientStep s .restart).1 := by
  have hnone : ∀ {i a n}, ¬ ActiveAt s.slots i a n := by
    rintro i a n ⟨e, he, hon, -⟩
    exact nomatch (hfree e (List.mem_of_getElem? he)).symm.trans hon
  constructor
  case slots_len => exact h.slots_len
  case conns_len => exact List.length_replicate
  case up => exact fun _ _ _ hi => absurd hi hnone
  case distinct => exact fun _ _ _ _ _ _ hi => absurd hi hnone
  case peers => exact h.peers
  case entries => exact fun _ _ hk => absurd hk conns_boot
  case entries_distinct => exact fun _ _ _ hk => absurd hk conns_boot
  case sessions => exact fun r hr => absurd (hquiet.requests ▸ hr) List.not_mem_nil
  case stage => trivial

theorem Table.step {s : Client} (h : Table s) (hmatched : Matched s) {step : ClientStep}
    (hsteady : Steady s step) : KeepsTable (clientStep s step) := by
  cases step with
  | scan durationMs maxResults =>
      rw [clientStep]
      split_ifs with hidle
      · exact (beginScan_effect hidle durationMs maxResults).keepsTable h hidle fun _ hnone => by
          cases hnone
      · exact h.keeps_nil
  | connect address =>
      rw [clientStep]
      split_ifs with hidle
      · refine (beginConnect_effect hidle address).keepsTable h hidle ?_
        rintro text rfl
        exact hsteady.2
      · exact h.keeps_nil
  | readChar conn charUuid =>
      rw [clientStep]
      split_ifs with hidle
      · exact (beginRead_effect hidle conn charUuid).keepsTable h hidle fun _ hnone => by
          cases hnone
      · exact h.keeps_nil
  | writeChar conn charUuid text =>
      rw [clientStep]
      split_ifs with hidle
      · exact (beginWrite_effect hidle conn charUuid text).keepsTable h hidle fun _ hnone => by
          cases hnone
      · exact h.keeps_nil
  | disconnect conn =>
      rw [clientStep]
      split_ifs with hidle
      · exact (beginDisconnect_effect hidle conn).keepsTable h hidle fun _ hnone => by cases hnone
      · exact h.keeps_nil
  | hostReturn rc mtu hasMemory =>
      rw [clientStep]
      split
      · rename_i call hstage
        have hquiet : Quiet s := hmatched.quiet (by rw [hstage]; rfl)
        exact h.hostReturn hquiet hstage rc mtu hasMemory
      · exact h.keeps_nil
  | endWait =>
      rw [clientStep]
      split
      · exact h.endWait ‹_›
      · exact h.keeps_nil
  | resume =>
      rw [clientStep]
      split
      · exact h.resume ‹_›
      · rename_i conn slot hstage
        have hregistered : Registered s conn slot := by
          have hold := h.stage
          rwa [hstage] at hold
        have hcleared : Table { s with awaitingDisc := false } :=
          h.of_same (.refl _) rfl rfl rfl h.sessions (.inr rfl) h.stage
        have hreleasing : s.stage.releasing = some slot := by rw [hstage]; rfl
        exact hcleared.endDisconnect hregistered (.inr hreleasing)
      · exact h.keeps_nil
  | scanEvent addr rssi name data =>
      rw [clientStep]
      split_ifs
      · exact Table.keeps_nil (h.of_same (.refl _) rfl rfl rfl h.sessions (.inr rfl) h.stage)
      · exact h.keeps_nil
  | readFragment off frag =>
      rw [clientStep]
      split_ifs
      · exact Table.keeps_nil (h.of_same (.refl _) rfl rfl rfl h.sessions (.inr rfl) h.stage)
      · exact h.keeps_nil
  | charFound handle =>
      rw [clientStep]
      split_ifs
      · exact Table.keeps_nil (h.of_same (.refl _) rfl rfl rfl h.sessions (.inr rfl) h.stage)
      · exact h.keeps_nil
  | complete op status handle =>
      rw [clientStep]
      split
      · rename_i r hfind
        split_ifs with hcan
        · exact (h.complete hmatched (List.mem_of_find?_eq_some hfind) hcan.2).keeps_nil
        · exact h.keeps_nil
      · exact h.keeps_nil
  | linkDown handle =>
      rw [clientStep]
      split
      · rename_i l hfind
        have hhandle : l.handle = handle := by simpa using List.find?_some hfind
        subst hhandle
        split_ifs with hcallback
        · exact (h.linkDown (List.mem_of_find?_eq_some hfind) hcallback hsteady).keeps_nil
        · exact h.keeps_nil
      · exact h.keeps_nil
  | give =>
      rw [clientStep]
      split
      · exact (h.give ‹_›).keeps_nil
      · exact h.keeps_nil
  | restart => exact (h.restart (hmatched.quiet hsteady.1.2) hsteady.2).keeps_nil

/-- In every steady run of the app's and the host's steps, the table of connections is true,
and a connect is refused for lack of room only when the app's links are all up. -/
theorem table_true (steps : List ClientStep)
    (hsteady : Machine.Along clientStep Steady .boot steps) :
    (∀ n, TableTrue (Machine.run clientStep .boot (steps.take n))) ∧
      ∀ e ∈ Machine.outputs clientStep .boot steps, HonestLimit e := by
  constructor
  · intro n
    have hcut : steps.take n ++ steps.drop n = steps := List.take_append_drop n steps
    rw [← hcut, Machine.along_append] at hsteady
    have hkeep : ∀ s step, Matched s ∧ Table s → Steady s step →
        Matched (clientStep s step).1 ∧ Table (clientStep s step).1 :=
      fun s step h hstep => ⟨(h.1.step hstep.1).1, (h.2.step h.1 hstep).1⟩
    have hall := Machine.Along.invariant hkeep hsteady.1 ⟨matched_boot, table_boot⟩
    exact hall.2.holds
  · let I : Client → List ClientEvent → Prop := fun s events =>
      (Matched s ∧ Table s) ∧ ∀ e ∈ events, HonestLimit e
    have hstart : I .boot [] := ⟨⟨matched_boot, table_boot⟩, nofun⟩
    have hkeep : ∀ s step events, I s events → Steady s step →
        I (clientStep s step).1 (events ++ (clientStep s step).2) := by
      rintro s step events ⟨⟨hmatched, htable⟩, hevents⟩ hstep
      obtain ⟨htable', hhonest⟩ := htable.step hmatched hstep
      refine ⟨⟨(hmatched.step hstep.1).1, htable'⟩, fun e he => ?_⟩
      rcases List.mem_append.mp he with hold | hnew
      · exact hevents e hold
      · exact hhonest e hnew
    exact (Machine.Along.monitor hkeep hsteady hstart).2

instance decidableSteady (s : Client) (step : ClientStep) : Decidable (Steady s step) := by
  unfold Steady
  refine @instDecidableAnd _ _ inferInstance ?_
  split <;> infer_instance

/-- Two connections, a refusal of the third, and a disconnect. -/
def fullTable : List ClientStep :=
  connectRun "AA:BB:CC:DD:EE:01" 0 1 ++ connectRun "AA:BB:CC:DD:EE:02" 2 2 ++
    [.connect (some (lit "AA:BB:CC:DD:EE:03")), .disconnect 0, .hostReturn 0 23 true,
      .linkDown 1, .give, .endWait, .resume]

/-- The third connect is refused while two links are up. -/
theorem table_true_fullTable :
    (∀ n, TableTrue (Machine.run clientStep .boot (fullTable.take n))) ∧
      ∀ e ∈ Machine.outputs clientStep .boot fullTable, HonestLimit e :=
  table_true fullTable (by decide)

/-- The peer's link is lost, the app connects again, and that link is lost too. -/
def lostTwice : List ClientStep :=
  connectRun "AA:BB:CC:DD:EE:01" 0 1 ++ [.linkDown 1] ++
    connectRun "AA:BB:CC:DD:EE:01" 2 2 ++ [.linkDown 2]

/-- No link is up; the address has two active slots, and every connect is refused. -/
theorem lost_link :
    ¬ TableTrue (Machine.run clientStep .boot lostTwice) ∧
      (Machine.run clientStep .boot lostTwice).links = [] ∧
      (Machine.run clientStep .boot lostTwice).slots.map (fun e => (e.address, e.active)) =
        [(lit "AA:BB:CC:DD:EE:01", true), (lit "AA:BB:CC:DD:EE:01", true)] ∧
      (clientStep (Machine.run clientStep .boot lostTwice)
        (.connect (some (lit "AA:BB:CC:DD:EE:03")))).2 = [.connLimit 0] := by
  refine ⟨fun htrue => ?_, by decide, by decide, by decide⟩
  have hfirst : ActiveAt (Machine.run clientStep .boot lostTwice).slots 0
      (lit "AA:BB:CC:DD:EE:01") 1 :=
    ⟨⟨lit "AA:BB:CC:DD:EE:01", 1, 0, 0, true⟩, by decide⟩
  have hsecond : ActiveAt (Machine.run clientStep .boot lostTwice).slots 1
      (lit "AA:BB:CC:DD:EE:01") 2 :=
    ⟨⟨lit "AA:BB:CC:DD:EE:01", 2, 0, 0, true⟩, by decide⟩
  exact absurd (htrue.distinct 0 1 _ _ _ _ hfirst hsecond rfl) (by decide)

end Ble
end JppDos
