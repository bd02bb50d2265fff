import JppDos.Http.Confinement
import JppDos.Storage.Card

/-!
# Deleting a directory

`delete_recursive` on a card, with the calls that fail and what is left behind: it deletes
what it finds below a path, and it puts the path of every entry together in a buffer of a
fixed size.  The recursion has fuel, and one that never returns uses up any.
-/

namespace JppDos
namespace Http

open CText Paths Storage

/-- The card, and the calls so far with whether they succeeded. -/
structure Disk where
  tree : FileTree Segment Nat
  calls : List (FsCall × Bool)

/-- Which calls fail for reasons of their own. -/
abbrev Faults := List (FsCall × Bool) → FsCall → Bool

/-- A call that may succeed, if it does not fail for reasons of its own. -/
def attempt (faults : Faults) (call : FsCall) (works : Bool) (d : Disk) : Bool × Disk :=
  let ok := works && !faults d.calls call
  (ok, { d with calls := d.calls ++ [(call, ok)] })

/-- The tree without what stands at a path, if nothing stands below it. -/
def takeOut (t : FileTree Segment Nat) (p : List Segment) : FileTree Segment Nat :=
  if h : t.list p = [] then t.erase p h else t

/-- `unlink` and `rmdir`: what has entries stays, and so does the root. -/
def remove (faults : Faults) (call : FsCall) (p : List Segment) (d : Disk) : Bool × Disk :=
  let (ok, d) := attempt faults call (decide (d.tree.list p = [] ∧ p ≠ [])) d
  (ok, if ok then { d with tree := takeOut d.tree p } else d)

/-- The loop of `delete_recursive` over the entries of a directory; `readdir` passes over
those that have been deleted since. -/
def deleteLoop (recurse : List UInt8 → Disk → Option (Bool × Disk)) (path : List UInt8) :
    List Segment → Bool → Disk → Option (Bool × Disk)
  | [], ok, d => some (ok, d)
  | name :: rest, ok, d =>
      if d.tree.lookup (resolve path ++ [name]) = none ∨ name = ascii "." ∨ name = ascii ".." then
        deleteLoop recurse path rest ok d
      else
        match recurse (childPath path name) d with
        | none => none
        | some (gone, d) => deleteLoop recurse path rest (ok && gone) d

/-- The names in a directory. -/
def namesIn (t : FileTree Segment Nat) (p : List Segment) : List Segment :=
  (t.list p).map TreeEntry.name

/-- `delete_recursive`. -/
def deleteRec (faults : Faults) : Nat → List UInt8 → Disk → Option (Bool × Disk)
  | 0, _, _ => none
  | fuel + 1, path, d =>
      let p := resolve path
      let (found, d) := attempt faults (.stat path) (d.tree.lookup p).isSome d
      if !found then some (false, d)
      else if d.tree.lookup p ≠ some .dir then some (remove faults (.unlink path) p d)
      else
        let (opened, d) := attempt faults (.opendir path) true d
        if !opened then some (false, d)
        else
          match deleteLoop (deleteRec faults fuel) path (namesIn d.tree p) true d with
          | none => none
          | some (ok, d) => if ok then some (remove faults (.rmdir path) p d) else some (false, d)

/-- Deleting ends whatever fails, takes out only what stands at the path or below it, and if
every call succeeds it returns true and leaves nothing there. -/
def DeletesInside (c : Card) (path : List UInt8) : Prop :=
  ∀ faults, ∃ fuel ok d, deleteRec faults fuel path ⟨c.tree, []⟩ = some (ok, d) ∧
    (∀ e ∈ c.tree.entries, e ∉ d.tree.entries → resolve path <+: e.path) ∧
    ((∀ call ∈ d.calls, call.2 = true) →
      ok = true ∧ ∀ p, resolve path <+: p → d.tree.lookup p = none)

/-- The path of what stands below a path by the given names. -/
def joinNames (path : List UInt8) (names : List Segment) : List UInt8 :=
  names.foldl (fun p name => p ++ slash :: name) path

/-- No path that does not fit its buffer leads, when it is cut, to a directory with entries. -/
def CutsToLeaves (c : Card) (path : List UInt8) : Prop :=
  ∀ names, ∀ e ∈ c.tree.list (resolve path ++ names),
    (joinNames path names).length < fullPathMax →
    fullPathMax ≤ (joinNames path names).length + 1 + e.name.length →
    c.tree.list (resolve (childPath (joinNames path names) e.name)) = []

theorem joinNames_concat (path : List UInt8) (names : List Segment) (name : Segment) :
    joinNames path (names ++ [name]) = joinNames path names ++ slash :: name := by
  rw [joinNames, List.foldl_append]
  rfl

theorem resolve_joinNames (path : List UInt8) {names : List Segment}
    (h : ∀ name ∈ names, IsName name) :
    resolve (joinNames path names) = resolve path ++ names := by
  induction names using List.reverseRecOn with
  | nil => exact (List.append_nil _).symm
  | append_singleton names name ih =>
      rw [joinNames_concat, resolve_join_name _ (h name (by simp)),
        ih fun n hn => h n (List.mem_append_left _ hn), List.append_assoc]

theorem isName_of_lookup {c : Card} {p names : List Segment} {k : FileKind Nat}
    (h : c.tree.lookup (p ++ names) = some k) : ∀ name ∈ names, IsName name := by
  induction names using List.reverseRecOn generalizing k with
  | nil => exact fun name hname => absurd hname List.not_mem_nil
  | append_singleton names name ih =>
      rw [← List.append_assoc] at h
      intro n hn
      rcases List.mem_append.mp hn with hn | hn
      · exact ih (FileTree.lookup_parent h) n hn
      · obtain ⟨e, he, hpath, -⟩ := FileTree.mem_of_lookup (by simp) h
        obtain ⟨-, hname⟩ := List.append_inj' hpath rfl
        rw [List.mem_singleton.mp hn, ← (List.singleton_inj.mp hname)]
        exact (c.names e he).1

theorem childPath_joinNames {path : List UInt8} {names : List Segment} {name : Segment}
    (h : (joinNames path names).length + 1 + name.length < fullPathMax) :
    childPath (joinNames path names) name = joinNames path (names ++ [name]) := by
  rw [joinNames_concat, childPath, List.take_of_length_le]
  rw [List.length_append, List.length_cons]
  omega

/-- A path that does not fit is cut to the size of the buffer. -/
theorem length_childPath_cut {path : List UInt8} {name : Segment}
    (h : fullPathMax ≤ path.length + 1 + name.length) :
    (childPath path name).length = fullPathMax - 1 := by
  rw [childPath, List.length_take, List.length_append, List.length_cons]
  omega

/-- What a part of the deletion leaves: fewer entries, all others as they were outside of the
target, and its success if its calls have all succeeded. -/
structure Deletes (target : List Segment) (gone : Bool × Disk → Prop) (d : Disk)
    (r : Bool × Disk) : Prop where
  within : r.2.tree.Within d.tree
  inside : ∀ e ∈ d.tree.entries, e ∉ r.2.tree.entries → target <+: e.path
  calls : ∃ new, r.2.calls = d.calls ++ new ∧ ((∀ call ∈ new, call.2 = true) → gone r)

section Ends

variable {faults : Faults} {target : List Segment} {d : Disk} {gone : Bool × Disk → Prop}

/-- A call that fails makes any promise for the case that all succeed. -/
theorem attempt_failed {call : FsCall} {works ok : Bool}
    (h : (attempt faults call works d).1 = false) :
    Deletes target gone d (ok, (attempt faults call works d).2) := by
  refine ⟨FileTree.Within.refl _, fun e he hout => absurd he hout, [(call, false)], ?_, ?_⟩
  · have hok : (works && !faults d.calls call) = false := h
    simp only [attempt, hok]
  · intro hall
    cases hall (call, false) (by simp)

theorem takeOut_within (t : FileTree Segment Nat) (p : List Segment) :
    (takeOut t p).Within t := by
  rw [takeOut]
  split
  · exact FileTree.erase_within _
  · exact FileTree.Within.refl t

/-- What is taken out stood at the path, and then nothing stands there. -/
theorem takeOut_cases {t : FileTree Segment Nat} {p : List Segment} (h : t.list p = [])
    (hp : p ≠ []) :
    (takeOut t p).lookup p = none ∧
      ∀ e ∈ t.entries, e ∉ (takeOut t p).entries → e.path = p := by
  rw [takeOut, dif_pos h]
  refine ⟨by rw [FileTree.lookup_erase h hp, if_pos rfl], fun e he hout => ?_⟩
  by_contra hne
  exact hout ((FileTree.mem_erase h).mpr ⟨he, hne⟩)

/-- `unlink` and `rmdir` take out the entry at their path, or they fail. -/
theorem remove_deletes {call : FsCall} {p : List Segment} (hinside : target <+: p) :
    Deletes target (fun r => r.1 = true ∧ r.2.tree.lookup p = none) d
      (remove faults call p d) := by
  let called := attempt faults call (decide (d.tree.list p = [] ∧ p ≠ [])) d
  have hremove : remove faults call p d =
      (called.1, if called.1 then { called.2 with tree := takeOut d.tree p } else called.2) := rfl
  rw [hremove]
  cases hok : called.1 with
  | false =>
      rw [if_neg Bool.false_ne_true]
      exact attempt_failed hok
  | true =>
      have hworks : d.tree.list p = [] ∧ p ≠ [] :=
        of_decide_eq_true (Bool.and_eq_true_iff.mp hok).1
      obtain ⟨hnone, hat⟩ := takeOut_cases hworks.1 hworks.2
      rw [if_pos rfl]
      refine ⟨takeOut_within _ _, fun e he hout => ?_, _, rfl, fun _ => ⟨rfl, hnone⟩⟩
      rw [hat e he hout]
      exact hinside

theorem Deletes.trans {gone' gone'' : Bool × Disk → Prop} {r r' : Bool × Disk}
    (h : Deletes target gone d r) (h' : Deletes target gone' r.2 r')
    (hgone : gone r → gone' r' → gone'' r') : Deletes target gone'' d r' := by
  obtain ⟨new, hnew, hg⟩ := h.calls
  obtain ⟨new', hnew', hg'⟩ := h'.calls
  refine ⟨h'.within.trans h.within, fun e he hout => ?_, new ++ new', ?_, fun hall => ?_⟩
  · by_cases hmid : e ∈ r.2.tree.entries
    · exact h'.inside e hmid hout
    · exact h.inside e he hmid
  · rw [hnew', hnew, List.append_assoc]
  · exact hgone (hg fun c hc => hall c (List.mem_append_left _ hc))
      (hg' fun c hc => hall c (List.mem_append_right _ hc))

theorem Deletes.after_attempt {call : FsCall} {works : Bool} {r : Bool × Disk}
    (h : Deletes target gone (attempt faults call works d).2 r) : Deletes target gone d r := by
  obtain ⟨new, hnew, hg⟩ := h.calls
  refine ⟨h.within, h.inside, (call, works && !faults d.calls call) :: new, ?_,
    fun hall => hg fun c hc => ?_⟩
  · rw [hnew]
    exact (List.append_assoc _ _ _)
  · exact hall c (List.mem_cons_of_mem _ hc)

/-- The loop, where every entry that it meets is deleted as promised. -/
theorem deleteLoop_deletes {recurse : List UInt8 → Disk → Option (Bool × Disk)}
    {path : List UInt8} (names : List Segment) (ok : Bool)
    (hrec : ∀ name ∈ names, ∀ d' : Disk, d'.tree.Within d.tree →
      d'.tree.lookup (resolve path ++ [name]) ≠ none →
      ∃ r, recurse (childPath path name) d' = some r ∧ Deletes target (fun r => r.1 = true) d' r) :
    ∃ r, deleteLoop recurse path names ok d = some r ∧ Deletes target (fun r => r.1 = ok) d r := by
  induction names generalizing ok d with
  | nil =>
      refine ⟨(ok, d), rfl, FileTree.Within.refl _, fun e he hout => absurd he hout, [], ?_⟩
      exact ⟨(List.append_nil _).symm, fun _ => rfl⟩
  | cons name rest ih =>
      rw [deleteLoop]
      split
      · exact ih ok fun n hn => hrec n (List.mem_cons_of_mem _ hn)
      · rename_i hfound
        have hlookup : d.tree.lookup (resolve path ++ [name]) ≠ none := fun h => hfound (Or.inl h)
        obtain ⟨⟨gone, d'⟩, hr, hdel⟩ :=
          hrec name List.mem_cons_self d (FileTree.Within.refl _) hlookup
        obtain ⟨r, hloop, hrest⟩ := ih (d := d') (ok && gone) fun n hn d'' hwithin =>
          hrec n (List.mem_cons_of_mem _ hn) d'' (hwithin.trans hdel.within)
        rw [hr]
        refine ⟨r, hloop, hdel.trans hrest ?_⟩
        rintro (hgone : gone = true) hok
        rw [hok, hgone, Bool.and_true]

/-- `delete_recursive`, where its loop deletes as promised. -/
theorem deleteRec_step {fuel : Nat} {path : List UInt8} (hinside : target <+: resolve path)
    (hloop : ∀ d' : Disk, d'.tree = d.tree →
      ∃ r, deleteLoop (deleteRec faults fuel) path (namesIn d.tree (resolve path)) true d' =
        some r ∧ Deletes target (fun r => r.1 = true) d' r) :
    ∃ r, deleteRec faults (fuel + 1) path d = some r ∧
      Deletes target (fun r => r.1 = true ∧ r.2.tree.lookup (resolve path) = none) d r := by
  rw [deleteRec]
  dsimp only
  split
  · rename_i hstat
    exact ⟨_, rfl, attempt_failed (by simpa using hstat)⟩
  split
  · exact ⟨_, rfl, Deletes.after_attempt (remove_deletes hinside)⟩
  split
  · rename_i hopen
    exact ⟨_, rfl, Deletes.after_attempt (attempt_failed (by simpa using hopen))⟩
  · generalize hd' : (attempt faults (.opendir path) true
      (attempt faults (.stat path) (d.tree.lookup (resolve path)).isSome d).2).2 = d'
    have htree : d'.tree = d.tree := by rw [← hd']; rfl
    obtain ⟨⟨ok, last⟩, hrun, hdel⟩ := hloop d' htree
    rw [htree, hrun]
    dsimp only
    have hafter : ∀ {gone r}, Deletes target gone d' r → Deletes target gone d r := by
      intro gone r hr
      rw [← hd'] at hr
      exact hr.after_attempt.after_attempt
    cases ok with
    | true =>
        refine ⟨_, rfl, hafter (hdel.trans (remove_deletes hinside) fun _ hr => hr)⟩
    | false =>
        refine ⟨_, rfl, hafter ⟨hdel.within, hdel.inside, ?_⟩⟩
        obtain ⟨new, hnew, hgone⟩ := hdel.calls
        exact ⟨new, hnew, fun hall => absurd (hgone hall) Bool.false_ne_true⟩

theorem deleteRec_leaf (fuel : Nat) {path : List UInt8} (hinside : target <+: resolve path)
    (hleaf : d.tree.list (resolve path) = []) :
    ∃ r, deleteRec faults (fuel + 1) path d = some r ∧
      Deletes target (fun r => r.1 = true ∧ r.2.tree.lookup (resolve path) = none) d r := by
  refine deleteRec_step hinside fun d' htree => ?_
  rw [namesIn, hleaf]
  exact deleteLoop_deletes [] true fun name hname => absurd hname List.not_mem_nil

end Ends

/-- The cut path of an entry stays below its directory if it leads to no directory with
entries. -/
theorem cut_inside {c : Card} {path : List UInt8} {e : TreeEntry Segment Nat}
    (he : e ∈ c.tree.list (resolve path)) (hlen : path.length < fullPathMax)
    (hleaf : c.tree.list (resolve (childPath path e.name)) = []) :
    resolve path <+: resolve (childPath path e.name) := by
  have hname := (c.names e (FileTree.mem_list.mp he).1).1
  have hfull : ∀ {p}, resolve (childPath path e.name) = p → c.tree.list p ≠ [] → False :=
    fun hp hne => hne (hp ▸ hleaf)
  have hhere : c.tree.list (resolve path) ≠ [] := List.ne_nil_of_mem he
  rcases childPath_cases ⟨hname.1, hname.2.2.2⟩ hname.2.1 hname.2.2.1 hlen with
    ⟨seg, hseg⟩ | ⟨-, hsame | ⟨-, -, hup⟩⟩
  · rw [hseg]
    exact List.prefix_append _ _
  · exact (hfull hsame hhere).elim
  · -- the directory itself stands in the one above it
    refine (hfull hup ?_).elim
    rcases List.eq_nil_or_concat' (resolve path) with hroot | ⟨above, name, hpath⟩
    · rw [hroot] at hhere ⊢
      exact hhere
    · have hdir := FileTree.lookup_of_list hhere
      rw [hpath] at hdir ⊢
      obtain ⟨e', he', hpath', -⟩ := FileTree.mem_of_lookup (by simp) hdir
      obtain ⟨habove, -⟩ := List.append_inj' hpath' rfl
      rw [List.dropLast_concat]
      exact List.ne_nil_of_mem (FileTree.mem_list.mpr ⟨he', habove⟩)

/-- Where no cut path leads to a directory with entries, deleting ends and stays inside, from
every card that has only entries of the given one. -/
theorem deleteRec_safe {c : Card} {path : List UInt8} (hcuts : CutsToLeaves c path)
    (faults : Faults) {depth : Nat} (hdepth : ∀ p k, c.tree.lookup p = some k → p.length ≤ depth)
    (height : Nat) {names : List Segment} (hnames : ∀ name ∈ names, IsName name)
    (hheight : depth < (resolve path ++ names).length + height)
    (hlen : (joinNames path names).length < fullPathMax) {d : Disk}
    (hwithin : d.tree.Within c.tree) :
    ∃ r, deleteRec faults (height + 1) (joinNames path names) d = some r ∧
      Deletes (resolve path)
        (fun r => r.1 = true ∧ r.2.tree.lookup (resolve path ++ names) = none) d r := by
  have hresolve := resolve_joinNames path hnames
  have hinside : resolve path <+: resolve (joinNames path names) :=
    hresolve ▸ List.prefix_append _ _
  induction height generalizing names d with
  | zero =>
      -- nothing stands as deep as this
      have hnone : c.tree.list (resolve (joinNames path names)) = [] := by
        by_contra hne
        have hlookup := FileTree.lookup_of_list hne
        have := hdepth _ _ hlookup
        rw [hresolve] at this
        omega
      rw [← hresolve]
      exact deleteRec_leaf 0 hinside (hwithin.list_nil hnone)
  | succ height ih =>
      rw [← hresolve]
      refine deleteRec_step hinside fun d' htree => ?_
      refine deleteLoop_deletes _ true fun name hname d'' hd'' hlookup => ?_
      obtain ⟨e, he, rfl⟩ := List.mem_map.mp hname
      have hcard : d''.tree.Within c.tree := (hd''.trans (htree ▸ FileTree.Within.refl _)).trans
        hwithin
      have hentry : e ∈ c.tree.list (resolve (joinNames path names)) := by
        obtain ⟨hmem, hdir⟩ := FileTree.mem_list.mp he
        exact FileTree.mem_list.mpr ⟨hwithin e hmem, hdir⟩
      by_cases hfit : (joinNames path names).length + 1 + e.name.length < fullPathMax
      · rw [childPath_joinNames hfit]
        have hname' : ∀ n ∈ names ++ [e.name], IsName n := by
          intro n hn
          rcases List.mem_append.mp hn with hn | hn
          · exact hnames n hn
          · rw [List.mem_singleton.mp hn]
            exact (c.names e (FileTree.mem_list.mp hentry).1).1
        have hlen' : (joinNames path (names ++ [e.name])).length < fullPathMax := by
          rw [joinNames_concat, List.length_append, List.length_cons]
          omega
        have hresolve' := resolve_joinNames path hname'
        obtain ⟨r, hrun, hdel⟩ := ih hname' (by simp at hheight ⊢; omega) hlen' hcard hresolve'
          (hresolve' ▸ List.prefix_append _ _)
        exact ⟨r, hrun, hdel.within, hdel.inside, hdel.calls.imp fun new h =>
          ⟨h.1, fun hall => (h.2 hall).1⟩⟩
      · have hleaf := hcuts names e (hresolve ▸ hentry) hlen (Nat.not_lt.mp hfit)
        have hcut := cut_inside hentry hlen hleaf
        have hends : ∃ r, deleteRec faults (height + 1) _ _ = some r ∧ _ :=
          deleteRec_leaf height (hinside.trans hcut) (hcard.list_nil hleaf)
        obtain ⟨r, hrun, hdel⟩ := hends
        exact ⟨r, hrun, hdel.within, hdel.inside, hdel.calls.imp fun new h =>
          ⟨h.1, fun hall => (h.2 hall).1⟩⟩

/-- Nothing can be taken out. -/
def stuck : Faults := fun _ call =>
  match call with
  | .unlink _ | .rmdir _ => true
  | _ => false

theorem remove_stuck {call : FsCall} (hcall : ∀ calls, stuck calls call = true) (p : List Segment)
    (d : Disk) : (remove stuck call p d).2.tree = d.tree := by
  simp [remove, attempt, hcall]

theorem deleteLoop_tree {recurse : List UInt8 → Disk → Option (Bool × Disk)} {path : List UInt8}
    (hrec : ∀ q d r, recurse q d = some r → r.2.tree = d.tree) (names : List Segment) (ok : Bool)
    (d : Disk) {r : Bool × Disk} (h : deleteLoop recurse path names ok d = some r) :
    r.2.tree = d.tree := by
  induction names generalizing ok d with
  | nil =>
      cases h
      rfl
  | cons name rest ih =>
      rw [deleteLoop] at h
      split at h
      · exact ih ok d h
      · cases hr : recurse (childPath path name) d with
        | none =>
            rw [hr] at h
            cases h
        | some r' =>
            rw [hr] at h
            rw [ih _ _ h, hrec _ _ _ hr]

theorem deleteRec_tree (fuel : Nat) (path : List UInt8) (d : Disk) {r : Bool × Disk}
    (h : deleteRec stuck fuel path d = some r) : r.2.tree = d.tree := by
  induction fuel generalizing path d r with
  | zero => cases h
  | succ fuel ih =>
      rw [deleteRec] at h
      dsimp only at h
      split at h
      · cases h
        rfl
      split at h
      · cases h
        exact remove_stuck (fun _ => rfl) _ _
      split at h
      · cases h
        rfl
      split at h
      · cases h
      · rename_i ok d' hloop
        have htree : d'.tree = d.tree :=
          deleteLoop_tree (fun q d r hr => ih q d hr) _ _ _ hloop
        split at h
        · cases h
          rw [remove_stuck (fun _ => rfl), htree]
        · cases h
          exact htree

/-- A directory with an entry whose deletion does not end is not deleted either. -/
theorem deleteRec_loops {t : FileTree Segment Nat} {path : List UInt8} {name : Segment}
    (hname : name ∈ namesIn t (resolve path)) (hdots : name ≠ ascii "." ∧ name ≠ ascii "..")
    {fuel : Nat}
    (hchild : ∀ d : Disk, d.tree = t → deleteRec stuck fuel (childPath path name) d = none)
    {d : Disk} (hd : d.tree = t) : deleteRec stuck (fuel + 1) path d = none := by
  have hloop : ∀ (names : List Segment), name ∈ names → ∀ (ok : Bool) (d : Disk), d.tree = t →
      deleteLoop (deleteRec stuck fuel) path names ok d = none := by
    intro names
    induction names with
    | nil => exact fun h => absurd h List.not_mem_nil
    | cons first rest ih =>
        intro hmem ok d hd
        rw [deleteLoop]
        by_cases hfirst : name = first
        · subst hfirst
          obtain ⟨e, he, rfl⟩ := List.mem_map.mp hname
          have hhere : d.tree.lookup (resolve path ++ [e.name]) ≠ none := by
            rw [hd, (FileTree.mem_list_iff.mp he).2]
            exact Option.some_ne_none _
          rw [if_neg (by simp [hhere, hdots]), hchild d hd]
        · have hrest : name ∈ rest := (List.mem_cons.mp hmem).resolve_left hfirst
          split
          · exact ih hrest ok d hd
          · cases hr : deleteRec stuck fuel (childPath path first) d with
            | none => rfl
            | some r => exact ih hrest _ _ ((deleteRec_tree fuel _ _ hr).trans hd)
  have hlist : t.list (resolve path) ≠ [] := by
    obtain ⟨e, he, -⟩ := List.mem_map.mp hname
    exact List.ne_nil_of_mem he
  have hdir : d.tree.lookup (resolve path) = some .dir := by
    rw [hd]
    exact FileTree.lookup_of_list hlist
  have hnames : namesIn d.tree (resolve path) = namesIn t (resolve path) := by rw [hd]
  rw [deleteRec]
  simp only [attempt, hdir, stuck, Option.isSome_some, Bool.not_false, Bool.and_true,
    Bool.not_true, Bool.false_eq_true, if_false, ne_eq, not_true_eq_false, hnames]
  have hnone := fun calls => hloop _ hname true ⟨d.tree, calls⟩ hd
  rw [hnone]

/-- A path that fills the buffer is its own child: if it leads to a directory with entries,
deleting does not end, unless a directory cannot be looked at any more. -/
theorem deleteRec_full {c : Card} {path : List UInt8} {faults : Faults}
    (hlooks : ∀ calls p, faults calls (.stat p) = false ∧ faults calls (.opendir p) = false)
    (hfull : path.length = fullPathMax - 1) (hlist : c.tree.list (resolve path) ≠ [])
    (fuel : Nat) {d : Disk} (hd : d.tree = c.tree) : deleteRec faults fuel path d = none := by
  have hdir : d.tree.lookup (resolve path) = some .dir := by
    rw [hd]
    exact FileTree.lookup_of_list hlist
  induction fuel generalizing d with
  | zero => rfl
  | succ fuel ih =>
      obtain ⟨e, rest, hentries⟩ := List.exists_cons_of_ne_nil hlist
      have he : e ∈ c.tree.list (resolve path) := hentries ▸ List.mem_cons_self
      have hname := (c.names e (FileTree.mem_list.mp he).1).1
      have hhere : d.tree.lookup (resolve path ++ [e.name]) ≠ none := by
        rw [hd, (FileTree.mem_list_iff.mp he).2]
        exact Option.some_ne_none _
      have hnames : namesIn d.tree (resolve path) = e.name :: rest.map TreeEntry.name := by
        rw [hd, namesIn, hentries, List.map_cons]
      have hchild : ∀ calls, deleteRec faults fuel (childPath path e.name) ⟨d.tree, calls⟩ =
          none := by
        intro calls
        rw [childPath_of_eq hfull]
        exact ih (d := ⟨d.tree, calls⟩) hd hdir
      rw [deleteRec]
      simp only [attempt, hdir, hlooks, Option.isSome_some, Bool.not_false, Bool.and_true,
        Bool.not_true, Bool.false_eq_true, if_false, ne_eq, not_true_eq_false, hnames]
      have hdots : e.name ≠ ascii "." ∧ e.name ≠ ascii ".." := ⟨hname.2.1, hname.2.2.1⟩
      rw [deleteLoop, if_neg (by simp [hhere, hdots]), hchild]

/-- What does not end below a path does not end at the path. -/
theorem deleteRec_below {c : Card} {path : List UInt8} {names : List Segment}
    {k : FileKind Nat} (hlookup : c.tree.lookup (resolve path ++ names) = some k)
    (hlen : (joinNames path names).length < fullPathMax)
    (hends : ∀ fuel, ∀ d : Disk, d.tree = c.tree →
      deleteRec stuck fuel (joinNames path names) d = none)
    (fuel : Nat) {d : Disk} (hd : d.tree = c.tree) : deleteRec stuck fuel path d = none := by
  induction names using List.reverseRecOn generalizing k with
  | nil => exact hends fuel d hd
  | append_singleton names name ih =>
      have hnames := isName_of_lookup hlookup
      have hinit : ∀ n ∈ names, IsName n := fun n hn => hnames n (List.mem_append_left _ hn)
      rw [joinNames_concat, List.length_append, List.length_cons] at hlen
      rw [← List.append_assoc] at hlookup
      refine ih (FileTree.lookup_parent hlookup) (by omega) fun fuel d hd => ?_
      cases fuel with
      | zero => rfl
      | succ fuel =>
          obtain ⟨e, he, hpath, -⟩ := FileTree.mem_of_lookup (by simp) hlookup
          obtain ⟨hdir, hname⟩ := List.append_inj' hpath rfl
          have hmem : name ∈ namesIn c.tree (resolve (joinNames path names)) := by
            rw [resolve_joinNames path hinit, ← List.singleton_inj.mp hname]
            exact List.mem_map_of_mem (FileTree.mem_list.mpr ⟨he, hdir⟩)
          have hplain := hnames name (by simp)
          refine deleteRec_loops hmem ⟨hplain.2.1, hplain.2.2.1⟩ (fun d' hd' => ?_) hd
          rw [childPath_joinNames (by omega)]
          exact hends fuel d' hd'

/-- For every card and every path that is accepted: deleting ends, takes out only what stands
at the path or below it, and leaves nothing there and returns true if every call succeeds, if
and only if no path that does not fit its buffer leads, when it is cut, to a directory with
entries. -/
theorem delete_ends_iff (c : Card) {fs : Fs} {uri path : List UInt8}
    (h : buildPath fs uri = some path) : DeletesInside c path ↔ CutsToLeaves c path := by
  have hlen : path.length < fullPathMax := (buildPath_below h).2.1
  constructor
  · intro hdeletes names e he hfits hcut
    by_contra hlist
    obtain ⟨fuel, ok, d, hrun, -⟩ := hdeletes stuck
    have hlookup := FileTree.lookup_of_list (List.ne_nil_of_mem he)
    have hresolve := resolve_joinNames path (isName_of_lookup hlookup)
    have hplain := (c.names e (FileTree.mem_list.mp he).1).1
    have hnone := deleteRec_below hlookup hfits (fun fuel d hd => by
      cases fuel with
      | zero => rfl
      | succ fuel =>
          have hdots : e.name ≠ ascii "." ∧ e.name ≠ ascii ".." := ⟨hplain.2.1, hplain.2.2.1⟩
          refine deleteRec_loops (t := c.tree) ?_ hdots (fun d' hd' => ?_) hd
          · rw [hresolve]
            exact List.mem_map_of_mem he
          · exact deleteRec_full (fun _ _ => ⟨rfl, rfl⟩) (length_childPath_cut hcut) hlist fuel
              hd') fuel
        (d := ⟨c.tree, []⟩) rfl
    rw [hrun] at hnone
    cases hnone
  · intro hcuts faults
    obtain ⟨depth, hdepth⟩ := c.tree.exists_depth
    have hnil : ∀ name ∈ ([] : List Segment), IsName name := fun name hname =>
      absurd hname List.not_mem_nil
    obtain ⟨⟨ok, d⟩, hrun, hdel⟩ := deleteRec_safe hcuts faults hdepth (depth + 1) hnil
      (by omega) hlen
      (d := ⟨c.tree, []⟩) (FileTree.Within.refl _)
    refine ⟨depth + 2, ok, d, hrun, hdel.inside, fun hall => ?_⟩
    obtain ⟨new, hnew, hgone⟩ := hdel.calls
    rw [List.nil_append] at hnew
    obtain ⟨hok, hnone⟩ := hgone fun call hcall => hall call (hnew ▸ hcall)
    rw [List.append_nil] at hnone
    exact ⟨hok, fun p hp => FileTree.lookup_none_below hnone hp⟩

/-- The calls of a run, from some state of the card on. -/
def Disk.since (d d' : Disk) (calls : List FsCall) : Prop :=
  ∃ new, d'.calls = d.calls ++ new ∧ new.map Prod.fst = calls

theorem Disk.since_attempt (faults : Faults) (call : FsCall) (works : Bool) (d : Disk) :
    d.since (attempt faults call works d).2 [call] := ⟨[(call, _)], rfl, rfl⟩

theorem Disk.since_remove (faults : Faults) (call : FsCall) (p : List Segment) (d : Disk) :
    d.since (remove faults call p d).2 [call] := by
  refine ⟨[(call, (attempt faults call (decide (d.tree.list p = [] ∧ p ≠ [])) d).1)], ?_, rfl⟩
  rw [remove]
  dsimp only
  split
  · rfl
  · rfl

theorem Disk.since.trans {d d' d'' : Disk} {calls calls' : List FsCall} (h : d.since d' calls)
    (h' : d'.since d'' calls') : d.since d'' (calls ++ calls') := by
  obtain ⟨new, hnew, rfl⟩ := h
  obtain ⟨new', hnew', rfl⟩ := h'
  exact ⟨new ++ new', by rw [hnew', hnew, List.append_assoc], List.map_append⟩

/-- The loop over the entries, where every recursion meets what it finds. -/
theorem deleteLoop_found {recurse : List UInt8 → Disk → Option (Bool × Disk)} {path : List UInt8}
    (hrec : ∀ q d r, recurse q d = some r →
      ∃ found, (deleteRecursive q found).1 = r.1 ∧ d.since r.2 (deleteRecursive q found).2)
    (names : List Segment) (ok : Bool) (d : Disk) {r : Bool × Disk}
    (h : deleteLoop recurse path names ok d = some r) :
    ∃ entries, r.1 = (ok && (deleteEntries path entries).1) ∧
      d.since r.2 (deleteEntries path entries).2 := by
  induction names generalizing ok d with
  | nil =>
      cases h
      exact ⟨.nil, (Bool.and_true ok).symm, [], (List.append_nil _).symm, rfl⟩
  | cons name rest ih =>
      rw [deleteLoop] at h
      split at h
      · exact ih ok d h
      · rename_i hmet
        cases hr : recurse (childPath path name) d with
        | none =>
            rw [hr] at h
            cases h
        | some r' =>
            rw [hr] at h
            obtain ⟨found, hgone, hcalls⟩ := hrec _ _ _ hr
            obtain ⟨entries, hok, hmore⟩ := ih _ _ h
            have hname : ¬ (name = ascii "." ∨ name = ascii "..") := fun hdots =>
              hmet (Or.inr hdots)
            refine ⟨.cons name found entries, ?_, ?_⟩
            · rw [deleteEntries, if_neg hname, hok]
              dsimp only
              rw [hgone, Bool.and_assoc]
            · rw [deleteEntries, if_neg hname]
              exact hcalls.trans hmore

/-- A run on a card makes the calls that `deleteRecursive` makes of what the run finds. -/
theorem deleteRec_found (faults : Faults) (fuel : Nat) (path : List UInt8) (d : Disk)
    {r : Bool × Disk} (h : deleteRec faults fuel path d = some r) :
    ∃ found, (deleteRecursive path found).1 = r.1 ∧
      d.since r.2 (deleteRecursive path found).2 := by
  induction fuel generalizing path d r with
  | zero => cases h
  | succ fuel ih =>
      have hstat := Disk.since_attempt faults (.stat path) (d.tree.lookup (resolve path)).isSome d
      rw [deleteRec] at h
      dsimp only at h
      split at h
      · cases h
        exact ⟨.missing, rfl, hstat⟩
      split at h
      · cases h
        exact ⟨.file _, rfl, hstat.trans (Disk.since_remove _ _ _ _)⟩
      have hopen := hstat.trans (Disk.since_attempt faults (.opendir path) true
        (attempt faults (.stat path) (d.tree.lookup (resolve path)).isSome d).2)
      split at h
      · cases h
        exact ⟨.shut, rfl, hopen⟩
      split at h
      · cases h
      · rename_i ok d' hloop
        obtain ⟨entries, hok, hcalls⟩ := deleteLoop_found (fun q d r hr => ih q d hr) _ _ _ hloop
        rw [Bool.true_and] at hok
        have hbelow := hopen.trans hcalls
        split at h
        · rename_i htrue
          cases h
          refine ⟨.dir entries (remove faults (.rmdir path) (resolve path) d').1, ?_, ?_⟩
          · simp only [deleteRecursive, ← hok, htrue, if_true]
          · simp only [deleteRecursive, ← hok, htrue, if_true]
            exact hbelow.trans (Disk.since_remove _ _ _ _)
        · rename_i hfalse
          cases h
          refine ⟨.dir entries false, ?_, ?_⟩
          · simp [deleteRecursive, ← hok, hfalse]
          · simpa [deleteRecursive, ← hok, hfalse] using hbelow

/-- A card with a directory of one picture. -/
def photosCard : Card where
  tree :=
    { entries :=
        [⟨[], ascii "sd", .dir⟩, ⟨[ascii "sd"], ascii "photos", .dir⟩,
          ⟨[ascii "sd", ascii "photos"], ascii "cat.jpg", .file 9⟩]
      distinct := by decide
      closed := by decide }
  names := by decide
  sizes := by
    intro e he size hsize
    simp only [List.mem_cons, List.not_mem_nil, or_false] at he
    rcases he with rfl | rfl | rfl <;> cases hsize
    decide
  counts := fun p => Nat.lt_of_le_of_lt (List.length_filter_le _ _) (by decide)

theorem deleteRec_found_photos :
    ∃ found, (deleteRecursive (ascii "/sd/photos") found).1 = true ∧
      ∃ d, Disk.since ⟨photosCard.tree, []⟩ d (deleteRecursive (ascii "/sd/photos") found).2 := by
  have hrun : (deleteRec (fun _ _ => false) 3 (ascii "/sd/photos") ⟨photosCard.tree, []⟩).map
      Prod.fst = some true := by decide
  obtain ⟨⟨ok, d⟩, hrun, rfl⟩ := Option.map_eq_some_iff.mp hrun
  obtain ⟨found, hok, hcalls⟩ := deleteRec_found _ 3 _ _ hrun
  exact ⟨found, hok, d, hcalls⟩

theorem delete_ends_photos : DeletesInside photosCard (ascii "/sd/photos") := by
  have hpath : buildPath exampleFs (ascii "/photos/") = some (ascii "/sd/photos") := by decide
  refine (delete_ends_iff photosCard hpath).mpr fun names e he _ hlong => ?_
  obtain ⟨hmem, hdir⟩ := FileTree.mem_list.mp he
  have hresolve : resolve (ascii "/sd/photos") = [ascii "sd", ascii "photos"] := by decide
  have hnames : names = [] ∧ e.name = ascii "cat.jpg" := by
    rw [hresolve] at hdir
    simp only [photosCard, List.mem_cons, List.not_mem_nil, or_false] at hmem
    rcases hmem with rfl | rfl | rfl
    · simp at hdir
    · simp at hdir
    · exact ⟨by simpa using hdir, rfl⟩
  obtain ⟨rfl, hname⟩ := hnames
  rw [hname] at hlong
  exact absurd hlong (by decide)

/-- A name of 147 characters. -/
def halfName : Segment := List.replicate 147 97

/-- A card where a directory whose path fills the buffer has an entry. -/
def fullCard : Card where
  tree :=
    { entries :=
        [⟨[], ascii "sd", .dir⟩, ⟨[ascii "sd"], halfName, .dir⟩,
          ⟨[ascii "sd", halfName], halfName, .dir⟩,
          ⟨[ascii "sd", halfName, halfName], ascii "f", .file 0⟩]
      distinct := by decide
      closed := by decide }
  names := by decide
  sizes := by
    intro e he size hsize
    simp only [List.mem_cons, List.not_mem_nil, or_false] at he
    rcases he with rfl | rfl | rfl | rfl <;> cases hsize
    decide
  counts := fun p => Nat.lt_of_le_of_lt (List.length_filter_le _ _) (by decide)

/-- The request for the inner directory. -/
def fullUri : List UInt8 := slash :: halfName ++ slash :: halfName

/-- Deleting a directory whose path has 299 characters does not end if it has an entry, though
no call fails. -/
theorem not_delete_ends :
    ¬ ∀ (c : Card) (fs : Fs) (uri path : List UInt8),
      buildPath fs uri = some path → DeletesInside c path := by
  intro h
  have hpath : buildPath exampleFs fullUri = some (ascii "/sd" ++ fullUri) := by decide +kernel
  obtain ⟨fuel, ok, d, hrun, -⟩ := h fullCard exampleFs fullUri _ hpath fun _ _ => false
  have hfull : (ascii "/sd" ++ fullUri).length = fullPathMax - 1 := by decide +kernel
  rw [deleteRec_full (c := fullCard) (fun _ _ => ⟨rfl, rfl⟩) hfull (by decide) fuel
    rfl] at hrun
  cases hrun

end Http
end JppDos
