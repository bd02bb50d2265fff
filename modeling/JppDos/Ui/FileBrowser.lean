import JppDos.Lib.Machine
import JppDos.Storage.Card
import Mathlib.Data.List.DropRight

/-!
# The file browser

`jpp_file_browser_core.c` over the listings of `sd_dir_list_cb`, as `jpp_sdk_file_pick` runs it:
the names of a directory go through a text of 2048 bytes into rows of 64 characters, are sorted,
and a key moves the cursor, climbs, opens a directory or returns a path.
-/

namespace JppDos
namespace Ui

open CText Paths Storage Machine

/-- A card as `readdir` shows it: names of at most 255 bytes without control characters, and for
each entry whether `d_type` tells what it is. -/
structure Volume extends Card where
  short : ∀ e ∈ tree.entries, e.name.length ≤ 255
  lineless : ∀ e ∈ tree.entries, 10 ∉ e.name
  typed : TreeEntry Segment Nat → Bool

/-- An entry with what it is. -/
abbrev Volume.Entry := TreeEntry Segment Nat

/-- The directory test of `sd_dir_list_cb`, by `d_type` or by `stat` on a path of at most 511
bytes. -/
def Volume.isDirEntry (v : Volume) (absPath : List UInt8) (e : Volume.Entry) : Bool :=
  if v.typed e then decide (e.kind = .dir)
  else decide (v.stat ((absPath ++ slash :: e.name).take 511) = some .dir)

/-- The line of an entry. -/
def Volume.dirLine (v : Volume) (absPath : List UInt8) (e : Volume.Entry) : List UInt8 :=
  e.name ++ (if v.isDirEntry absPath e then [slash] else []) ++ [10]

/-- The loop of `sd_dir_list_cb` over a buffer of 2048 bytes, of which `text` is filled. -/
def Volume.dirText (v : Volume) (absPath text : List UInt8) : List Volume.Entry → List UInt8
  | [] => text
  | e :: es =>
      if e.name.head? = some dot then v.dirText absPath text es
      else if 2048 - text.length ≤ (v.dirLine absPath e).length then text
      else v.dirText absPath (text ++ v.dirLine absPath e) es

/-- `sd_dir_list_cb`. -/
def Volume.sdDirListCb (v : Volume) (absPath : List UInt8) : List UInt8 :=
  if v.stat absPath = some .dir then v.dirText absPath [] (v.tree.list (resolve absPath)) else []

/-- An element of `names` and `is_dir`. -/
structure FbRow where
  name : List UInt8
  isDir : Bool
  deriving DecidableEq

/-- The row of a line: `JPP_FB_NAME_MAX` leaves room for 64 characters. -/
def fbRow (line : List UInt8) : FbRow := ⟨line.take 64, decide (line.getLast? = some slash)⟩

/-- The loop of `sdk_fp_list_dir`, for as many rows as there is room for. -/
def fpRows (room : Nat) (p : List UInt8) : List FbRow :=
  match p with
  | [] => []
  | c :: rest =>
      if room = 0 then []
      else if c = 10 then fpRows room rest
      else
        fbRow ((c :: rest).takeWhile (· ≠ 10)) ::
          fpRows (room - 1) (((c :: rest).dropWhile (· ≠ 10)).drop 1)
  termination_by p.length
  decreasing_by
    · exact Nat.lt_succ_self _
    · rename_i hc
      rw [List.dropWhile_cons_of_pos (by simpa using hc), List.length_drop, List.length_cons]
      have hle := (List.dropWhile_suffix (· ≠ 10) (l := rest)).length_le
      omega

/-- `sdk_fp_list_dir`, with `JPP_FB_ENTRY_MAX`. -/
def sdkFpListDir (v : Volume) (absDir : List UInt8) : List FbRow := fpRows 32 (v.sdDirListCb absDir)

/-- The inner loop of the sort, for the first `n` pairs of neighbours. -/
def bubblePass : Nat → List FbRow → List FbRow
  | n + 1, a :: b :: rows =>
      if b.name < a.name then b :: bubblePass n (a :: rows) else a :: bubblePass n (b :: rows)
  | _, rows => rows

/-- The sort of `fb_load`. -/
def fbSort (rows : List FbRow) : List FbRow :=
  (List.range (rows.length - 1)).foldl (fun rows i => bubblePass (rows.length - 1 - i) rows) rows

/-- `fb_state_t`. -/
structure FbState where
  dir : List UInt8
  rows : List FbRow
  hasParent : Bool
  cursor : Nat
  scroll : Nat
  deriving DecidableEq

/-- `jpp_fb_key_t`. -/
inductive FbKey where
  | none
  | up
  | down
  | ok
  | back
  deriving DecidableEq

/-- The browser in its loop, or what it has returned. -/
inductive Browser where
  | browsing (s : FbState)
  | returned (path : Option (List UInt8))
  deriving DecidableEq

/-- The root that `jpp_sdk_file_pick` gives. -/
def fbRoot : List UInt8 := ascii "/sd"

/-- `fb_total`. -/
def FbState.total (s : FbState) : Nat := s.rows.length + if s.hasParent then 1 else 0

/-- `fb_load`. -/
def fbLoad (v : Volume) (dir : List UInt8) : FbState where
  dir := dir
  rows := fbSort (sdkFpListDir v dir)
  hasParent := decide (dir ≠ fbRoot)
  cursor := 0
  scroll := 0

/-- The path that `fb_go_up` leaves: what stands in front of the last slash, unless that is the
first character. -/
def fbGoUp (dir : List UInt8) : List UInt8 :=
  let front := dir.rdropWhile (· ≠ slash)
  if front.length ≤ 1 then dir else front.dropLast

/-- `jpp_ui_scroll_clamp`. -/
def scrollClamp (cursor total visible scroll : Nat) : Nat :=
  let scroll :=
    if cursor < scroll then cursor
    else if scroll + visible ≤ cursor then cursor - visible + 1
    else scroll
  if total ≤ visible then 0
  else if total < scroll + visible then total - visible
  else scroll

/-- The top of the loop, with `JPP_FB_VISIBLE`. -/
def FbState.settle (s : FbState) : FbState :=
  { s with scroll := scrollClamp s.cursor s.total 6 s.scroll }

/-- The row under the cursor, below the one for the parent. -/
def FbState.row (s : FbState) : FbRow :=
  (s.rows[s.cursor - if s.hasParent then 1 else 0]?).getD ⟨[], false⟩

/-- The name of a directory without the slash behind it. -/
def stripSlash (name : List UInt8) : List UInt8 :=
  if name.getLast? = some slash then name.dropLast else name

/-- What a key does, before the loop goes on. -/
def onKey (v : Volume) (outLen : Nat) (s : FbState) : FbKey → Browser
  | .none => .browsing s
  | .up => .browsing { s with cursor := s.cursor - 1 }
  | .down => .browsing (if s.cursor + 1 < s.total then { s with cursor := s.cursor + 1 } else s)
  | .ok =>
      if s.total = 0 then .browsing s
      else if s.hasParent ∧ s.cursor = 0 then .browsing (fbLoad v (fbGoUp s.dir))
      else if s.row.isDir then
        let newdir := (s.dir ++ slash :: stripSlash s.row.name).take 511
        .browsing (fbLoad v (newdir.take 255))
      else .returned (some ((s.dir ++ slash :: s.row.name).take (outLen - 1)))
  | .back => if s.hasParent then .browsing (fbLoad v (fbGoUp s.dir)) else .returned none

/-- A key in the browser. -/
def fbStep (v : Volume) (outLen : Nat) (b : Browser) (key : FbKey) : Browser × List Unit :=
  match b with
  | .returned path => (.returned path, [])
  | .browsing s =>
      match onKey v outLen s key with
      | .browsing s' => (.browsing s'.settle, [])
      | .returned path => (.returned path, [])

/-- `jpp_file_browser_run` at its first key. -/
def fbStart (v : Volume) : Browser := .browsing (fbLoad v fbRoot).settle

/-- The row that an entry should have, as far as its name fits. -/
def rowOf (e : Volume.Entry) : FbRow := fbRow (e.name ++ if e.kind = .dir then [slash] else [])

section Rows

variable {v : Volume} {dir : List UInt8}

theorem bubblePass_perm (n : Nat) (rows : List FbRow) : (bubblePass n rows).Perm rows := by
  fun_induction bubblePass n rows with
  | case1 n a b rows hswap ih => exact (ih.cons b).trans (List.Perm.swap a b rows)
  | case2 n a b rows hkeep ih => exact ih.cons a
  | case3 => exact List.Perm.refl _

theorem fbSort_perm (rows : List FbRow) : (fbSort rows).Perm rows := by
  have hfold : ∀ (is : List Nat) (sorted : List FbRow), sorted.Perm rows →
      (is.foldl (fun sorted i => bubblePass (sorted.length - 1 - i) sorted) sorted).Perm rows := by
    intro is
    induction is with
    | nil => exact fun _ h => h
    | cons i is ih => exact fun sorted h => ih _ ((bubblePass_perm _ _).trans h)
  exact hfold _ _ (List.Perm.refl _)

theorem dirText_eq (v : Volume) (dir text : List UInt8) (es : List Volume.Entry) :
    ∃ shown ⊆ es, v.dirText dir text es = text ++ shown.flatMap (v.dirLine dir) := by
  induction es generalizing text with
  | nil => exact ⟨[], List.Subset.refl _, by simp [Volume.dirText]⟩
  | cons e es ih =>
      rw [Volume.dirText]
      split_ifs with hhidden hfull
      · obtain ⟨shown, hsub, htext⟩ := ih text
        exact ⟨shown, fun _ h => List.mem_cons_of_mem _ (hsub h), htext⟩
      · exact ⟨[], List.nil_subset _, by simp⟩
      · obtain ⟨shown, hsub, htext⟩ := ih (text ++ v.dirLine dir e)
        refine ⟨e :: shown, ?_, ?_⟩
        · exact List.cons_subset_cons e hsub
        · rw [htext, List.flatMap_cons, List.append_assoc]

/-- Lines are read back, up to the number of rows that there is room for. -/
theorem fpRows_lines (room : Nat) {lines : List (List UInt8)}
    (hlines : ∀ line ∈ lines, line ≠ [] ∧ 10 ∉ line) :
    fpRows room (lines.flatMap (· ++ [10])) = (lines.map fbRow).take room := by
  induction lines generalizing room with
  | nil => simp [fpRows]
  | cons line lines ih =>
      obtain ⟨hne, hline⟩ := hlines line List.mem_cons_self
      have hrest := fun room => ih room fun l hl => hlines l (List.mem_cons_of_mem _ hl)
      have htext : (line :: lines).flatMap (· ++ [10])
          = line ++ 10 :: lines.flatMap (· ++ [10]) := by simp
      have hpass : ∀ b ∈ line, decide (b ≠ 10) = true := fun b hb =>
        decide_eq_true fun h => hline (h ▸ hb)
      have htake : (line ++ 10 :: lines.flatMap (· ++ [10])).takeWhile (· ≠ 10) = line := by
        rw [List.takeWhile_append_of_pos hpass, List.takeWhile_cons_of_neg (by simp),
          List.append_nil]
      have hdrop : (line ++ 10 :: lines.flatMap (· ++ [10])).dropWhile (· ≠ 10)
          = 10 :: lines.flatMap (· ++ [10]) := by
        rw [List.dropWhile_append_of_pos hpass, List.dropWhile_cons_of_neg (by simp)]
      obtain ⟨c, cs, rfl⟩ := List.exists_cons_of_ne_nil hne
      have hc : c ≠ 10 := fun h => hline (h ▸ List.mem_cons_self)
      rw [htext, List.cons_append, fpRows, ← List.cons_append, htake, hdrop, List.map_cons]
      cases room with
      | zero => rfl
      | succ room =>
          rw [if_neg (Nat.succ_ne_zero room), if_neg hc, List.take_succ_cons, List.drop_one,
            List.tail_cons, Nat.add_sub_cancel, hrest]

theorem Volume.isDirEntry_eq (hdir : dir.length ≤ 255) {e : Volume.Entry}
    (he : e ∈ v.tree.list (resolve dir)) : v.isDirEntry dir e = decide (e.kind = .dir) := by
  have hname := v.short e (FileTree.mem_list.mp he).1
  have hlen : (dir ++ slash :: e.name).length ≤ 511 := by
    rw [List.length_append, List.length_cons]
    omega
  rw [Volume.isDirEntry, List.take_of_length_le hlen, v.stat_child he]
  simp

theorem line_ok {e : Volume.Entry} (he : e ∈ v.tree.entries) (kind : Bool) :
    (e.name ++ if kind then [slash] else []) ≠ [] ∧
      10 ∉ e.name ++ if kind then [slash] else [] := by
  obtain ⟨⟨hne, -⟩, -⟩ := v.names e he
  refine ⟨fun h => hne (List.append_eq_nil_iff.mp h).1, ?_⟩
  have hten := v.lineless e he
  cases kind with
  | false => simpa using hten
  | true => simpa [slash] using hten

/-- Each row is the name of an entry, as far as it fits. -/
theorem exists_entry_of_mem_rows (hdir : dir.length ≤ 255) {row : FbRow}
    (hrow : row ∈ fbSort (sdkFpListDir v dir)) :
    ∃ e ∈ v.tree.list (resolve dir), row = rowOf e := by
  have hmem := (fbSort_perm _).mem_iff.mp hrow
  rw [sdkFpListDir, Volume.sdDirListCb] at hmem
  split_ifs at hmem with hopen
  · obtain ⟨shown, hsub, htext⟩ := dirText_eq v dir [] (v.tree.list (resolve dir))
    have hlines : shown.flatMap (v.dirLine dir) =
        (shown.map fun e => e.name ++ if v.isDirEntry dir e then [slash] else []).flatMap
          (· ++ [10]) := by
      rw [List.flatMap_map]
      rfl
    rw [htext, List.nil_append, hlines, fpRows_lines] at hmem
    · rw [List.map_map] at hmem
      obtain ⟨e, he, rfl⟩ := List.mem_map.mp (List.mem_of_mem_take hmem)
      refine ⟨e, hsub he, ?_⟩
      rw [Function.comp_apply, v.isDirEntry_eq hdir (hsub he), rowOf]
      simp
    · intro line hline
      obtain ⟨e, he, rfl⟩ := List.mem_map.mp hline
      exact line_ok (FileTree.mem_list.mp (hsub he)).1 _
  · simp [fpRows] at hmem

end Rows

/-- The path of a directory below the root, by the names that lead to it. -/
def dirPath (names : List Segment) : List UInt8 := fbRoot ++ names.flatMap (slash :: ·)

/-- The browser stands in a directory below the root, with its rows and the cursor in them. -/
structure Placed (v : Volume) (s : FbState) : Prop where
  below : ∃ names, (∀ n ∈ names, IsName n) ∧ s.dir = dirPath names ∧
    (names = [] ∨ v.stat s.dir = some .dir)
  short : s.dir.length ≤ 255
  rows : s.rows = fbSort (sdkFpListDir v s.dir)
  parent : s.hasParent = decide (s.dir ≠ fbRoot)
  cursor : s.cursor < s.total ∨ s.cursor = 0 ∧ s.total = 0

/-- And the window shows the cursor, and no lines behind the end. -/
structure Sound (v : Volume) (s : FbState) : Prop extends Placed v s where
  window : s.scroll ≤ s.cursor ∧ s.cursor < s.scroll + 6
  filled : s.scroll = 0 ∨ s.scroll + 6 ≤ s.total

/-- The browser is sound, or it has returned nothing or the path of a file below the root. -/
def Proper (v : Volume) : Browser → Prop
  | .browsing s => Sound v s
  | .returned none => True
  | .returned (some path) =>
      ∃ names, (∀ n ∈ names, IsName n) ∧ path = dirPath names ∧
        ∃ size, v.stat path = some (.file size)

/-- The directory that the browser stands in. -/
def Browser.dir? : Browser → Option (List UInt8)
  | .browsing s => some s.dir
  | .returned _ => none

/-- One level up, and out of the root with nothing. -/
def Climbs (s : FbState) (next : Browser) : Prop :=
  if s.dir = fbRoot then next = .returned none
  else ∃ names n, IsName n ∧ s.dir = dirPath (names ++ [n]) ∧ next.dir? = some (dirPath names)

/-- Into an entry, or out with its path. -/
def Opens (s : FbState) (e : Volume.Entry) (next : Browser) : Prop :=
  if e.kind = .dir then next.dir? = some (s.dir ++ slash :: e.name)
  else next = .returned (some (s.dir ++ slash :: e.name))

/-- What a key should do: the row under the cursor is that of an entry, and OK opens it. -/
def Follows (v : Volume) (outLen : Nat) : Browser → FbKey → Prop
  | .returned path, key => (fbStep v outLen (.returned path) key).1 = .returned path
  | .browsing s, key =>
      let next := (fbStep v outLen (.browsing s) key).1
      match key with
      | .none | .up | .down => next.dir? = some s.dir
      | .back => Climbs s next
      | .ok =>
          if s.total = 0 then next.dir? = some s.dir
          else if s.hasParent ∧ s.cursor = 0 then Climbs s next
          else (∃ e ∈ v.tree.list (resolve s.dir), s.row = rowOf e) ∧
            ∀ e ∈ v.tree.list (resolve s.dir), s.row = rowOf e → Opens s e next

/-- An entry whose name fits into a row, and its path into what holds it. -/
def NameFits (outLen : Nat) (s : FbState) (e : Volume.Entry) : Prop :=
  e.name.length ≤ 64 ∧
    if e.kind = .dir then (s.dir ++ slash :: e.name).length ≤ 255
    else (s.dir ++ slash :: e.name).length < outLen

/-- OK on the row of an entry finds a name that fits. -/
def RowFits (v : Volume) (outLen : Nat) : Browser → FbKey → Prop
  | .browsing s, .ok =>
      ¬ (s.total = 0 ∨ s.hasParent ∧ s.cursor = 0) →
        ∀ e ∈ v.tree.list (resolve s.dir), s.row = rowOf e → NameFits outLen s e
  | _, _ => True

theorem dirPath_concat (names : List Segment) (n : Segment) :
    dirPath (names ++ [n]) = dirPath names ++ slash :: n := by
  simp [dirPath]

theorem length_root_le (names : List Segment) : 3 ≤ (dirPath names).length := by
  rw [dirPath, List.length_append, show fbRoot.length = 3 from rfl]
  exact Nat.le_add_right _ _

theorem goUp_dirPath (names : List Segment) {n : Segment} (hn : IsName n) :
    fbGoUp (dirPath (names ++ [n])) = dirPath names := by
  have hlast : (dirPath (names ++ [n])).rdropWhile (· ≠ slash) = dirPath names ++ [slash] := by
    rw [dirPath_concat, List.append_cons, List.rdropWhile, List.reverse_append,
      List.dropWhile_append_of_pos, ← List.rdropWhile]
    · exact List.rdropWhile_concat_neg _ _ slash (by simp)
    · intro b hb
      exact decide_eq_true fun h => hn.2.2.2 (h ▸ List.mem_reverse.mp hb)
  have hlen := length_root_le names
  rw [fbGoUp, hlast]
  have hlong : ¬ (dirPath names ++ [slash]).length ≤ 1 := by
    rw [List.length_append]
    omega
  rw [if_neg hlong, List.dropLast_concat]

section Sound

variable {v : Volume} {outLen : Nat} {s : FbState}

theorem scrollClamp_spec {cursor total : Nat} (h : cursor < total ∨ cursor = 0 ∧ total = 0)
    (scroll : Nat) :
    (scrollClamp cursor total 6 scroll ≤ cursor ∧ cursor < scrollClamp cursor total 6 scroll + 6) ∧
      (scrollClamp cursor total 6 scroll = 0 ∨ scrollClamp cursor total 6 scroll + 6 ≤ total) := by
  unfold scrollClamp
  dsimp only
  split_ifs <;> omega

theorem sound_settle (h : Placed v s) : Sound v s.settle :=
  have hclamp := scrollClamp_spec h.cursor s.scroll
  ⟨⟨h.below, h.short, h.rows, h.parent, h.cursor⟩, hclamp.1, hclamp.2⟩

theorem placed_load {names : List Segment} (hnames : ∀ n ∈ names, IsName n)
    (hdir : names = [] ∨ v.stat (dirPath names) = some .dir)
    (hshort : (dirPath names).length ≤ 255) : Placed v (fbLoad v (dirPath names)) :=
  ⟨⟨names, hnames, rfl, hdir⟩, hshort, rfl, rfl, (Nat.eq_zero_or_pos _).symm.imp_right
    fun h => ⟨rfl, h⟩⟩

theorem placed_goUp (h : Placed v s) (hroot : s.dir ≠ fbRoot) :
    ∃ names n, IsName n ∧ s.dir = dirPath (names ++ [n]) ∧ fbGoUp s.dir = dirPath names ∧
      Placed v (fbLoad v (fbGoUp s.dir)) := by
  obtain ⟨path, hpath, hdir, hstat⟩ := h.below
  obtain rfl | ⟨names, n, rfl⟩ := List.eq_nil_or_concat' path
  · exact absurd hdir hroot
  · have hn := hpath n (by simp)
    have hnames : ∀ m ∈ names, IsName m := fun m hm => hpath m (by simp [hm])
    have hup : fbGoUp s.dir = dirPath names := by rw [hdir, goUp_dirPath names hn]
    refine ⟨names, n, hn, hdir, hup, ?_⟩
    rw [hup]
    refine placed_load hnames (.inr ?_) ?_
    · have hfound := hstat.resolve_left (by simp)
      rw [hdir, Card.stat, dirPath_concat, resolve_join_name _ hn] at hfound
      exact FileTree.lookup_parent hfound
    · have hshort := h.short
      rw [hdir, dirPath_concat, List.length_append] at hshort
      omega

theorem row_mem (h : Placed v s) (hon : ¬ (s.total = 0 ∨ s.hasParent ∧ s.cursor = 0)) :
    s.row ∈ s.rows := by
  obtain ⟨htotal, hparent⟩ := not_or.mp hon
  have hcursor := h.cursor.resolve_right fun hempty => htotal hempty.2
  have hlt : s.cursor - (if s.hasParent then 1 else 0) < s.rows.length := by
    rw [FbState.total] at hcursor
    by_cases hup : s.hasParent
    · have hpos : s.cursor ≠ 0 := fun hzero => hparent ⟨hup, hzero⟩
      rw [if_pos hup] at hcursor ⊢
      omega
    · rw [if_neg hup] at hcursor ⊢
      omega
  rw [FbState.row, List.getElem?_eq_getElem hlt, Option.getD_some]
  exact List.getElem_mem hlt

end Sound

section Names

variable {v : Volume} {outLen : Nat} {s : FbState} {e : Volume.Entry}

theorem rowOf_isDir (he : IsName e.name) : (rowOf e).isDir = decide (e.kind = .dir) := by
  have hlast : e.name.getLast? ≠ some slash := fun h => he.2.2.2 (List.mem_of_getLast? h)
  by_cases hkind : e.kind = .dir
  · simp [rowOf, fbRow, hkind]
  · simp [rowOf, fbRow, hkind, hlast]

theorem rowOf_name_of_file (hkind : e.kind ≠ .dir) : (rowOf e).name = e.name.take 64 := by
  simp [rowOf, fbRow, hkind]

theorem stripSlash_rowOf (he : IsName e.name) (hkind : e.kind = .dir) :
    stripSlash (rowOf e).name = e.name.take 64 := by
  have hname : (rowOf e).name = (e.name ++ [slash]).take 64 := by simp [rowOf, fbRow, hkind]
  rw [hname]
  by_cases hlen : e.name.length < 64
  · have hslash : (e.name ++ [slash]).length ≤ 64 := by
      rw [List.length_append, List.length_singleton]
      omega
    rw [List.take_of_length_le hslash,
      List.take_of_length_le (Nat.le_of_lt hlen), stripSlash,
      if_pos (by simp), List.dropLast_concat]
  · rw [List.take_append_of_le_length (Nat.le_of_not_lt hlen), stripSlash, if_neg]
    exact fun h => he.2.2.2 (List.mem_of_mem_take (List.mem_of_getLast? h))

theorem onKey_entry (he : IsName e.name) (hrow : s.row = rowOf e)
    (hon : ¬ (s.total = 0 ∨ s.hasParent ∧ s.cursor = 0)) :
    onKey v outLen s .ok =
      if e.kind = .dir then .browsing (fbLoad v ((s.dir ++ slash :: e.name.take 64).take 255))
      else .returned (some ((s.dir ++ slash :: e.name.take 64).take (outLen - 1))) := by
  obtain ⟨htotal, hparent⟩ := not_or.mp hon
  rw [onKey, if_neg htotal, if_neg hparent, hrow, rowOf_isDir he]
  by_cases hkind : e.kind = .dir
  · rw [if_pos (decide_eq_true hkind), if_pos hkind, stripSlash_rowOf he hkind]
    dsimp only
    rw [List.take_take]
    rfl
  · rw [if_neg (by simpa using hkind), if_neg hkind, rowOf_name_of_file hkind]

/-- What is cut off a name and then off the path leaves the path where both fit. -/
theorem take_path_iff {dir name : List UInt8} {k m : Nat} :
    (dir ++ slash :: name.take k).take m = dir ++ slash :: name ↔
      name.length ≤ k ∧ (dir ++ slash :: name).length ≤ m := by
  constructor
  · intro h
    have hlen := congrArg List.length h
    simp only [List.length_take, List.length_append, List.length_cons] at hlen ⊢
    omega
  · rintro ⟨hname, hpath⟩
    rw [List.take_of_length_le hname, List.take_of_length_le hpath]

theorem opens_iff (he : IsName e.name) (hrow : s.row = rowOf e)
    (hon : ¬ (s.total = 0 ∨ s.hasParent ∧ s.cursor = 0)) :
    Opens s e (fbStep v outLen (.browsing s) .ok).1 ↔ NameFits outLen s e := by
  have hkey := @onKey_entry v outLen _ _ he hrow hon
  by_cases hkind : e.kind = .dir
  · rw [if_pos hkind] at hkey
    rw [Opens, if_pos hkind, NameFits, if_pos hkind, ← take_path_iff, fbStep, hkey]
    exact Option.some_inj
  · rw [if_neg hkind] at hkey
    rw [Opens, if_neg hkind, NameFits, if_neg hkind, fbStep, hkey, Browser.returned.injEq,
      Option.some_inj, take_path_iff]
    have hpos : 0 < (s.dir ++ slash :: e.name).length := by simp
    refine and_congr_right fun _ => ?_
    omega

end Names

section Runs

variable {v : Volume} {outLen : Nat} {s : FbState}

@[simp] theorem settle_dir (s : FbState) : s.settle.dir = s.dir := rfl

@[simp] theorem load_dir (v : Volume) (dir : List UInt8) : (fbLoad v dir).dir = dir := rfl

theorem climbs_goUp (h : Placed v s) (hroot : s.dir ≠ fbRoot) :
    Climbs s (.browsing (fbLoad v (fbGoUp s.dir)).settle) := by
  obtain ⟨names, n, hn, hdir, hup, -⟩ := placed_goUp h hroot
  rw [Climbs, if_neg hroot]
  exact ⟨names, n, hn, hdir, congrArg some hup⟩

theorem hasParent_iff (h : Placed v s) : s.hasParent = true ↔ s.dir ≠ fbRoot := by
  rw [h.parent, decide_eq_true_iff]

/-- A key does what it should exactly where the names and paths at hand fit. -/
theorem follows_iff (h : Placed v s) (key : FbKey) :
    Follows v outLen (.browsing s) key ↔ RowFits v outLen (.browsing s) key := by
  cases key with
  | none => exact iff_of_true rfl trivial
  | up => exact iff_of_true rfl trivial
  | down =>
      refine iff_of_true ?_ trivial
      by_cases hlt : s.cursor + 1 < s.total
      · rw [Follows, fbStep, onKey, if_pos hlt]
        rfl
      · rw [Follows, fbStep, onKey, if_neg hlt]
        rfl
  | back =>
      refine iff_of_true ?_ trivial
      by_cases hroot : s.dir = fbRoot
      · have hparent : ¬ s.hasParent = true := fun hp => (hasParent_iff h).mp hp hroot
        rw [Follows, fbStep, onKey, if_neg hparent, Climbs, if_pos hroot]
      · rw [Follows, fbStep, onKey, if_pos ((hasParent_iff h).mpr hroot)]
        exact climbs_goUp h hroot
  | ok =>
      by_cases hempty : s.total = 0
      · refine iff_of_true ?_ fun hon => absurd (.inl hempty) hon
        rw [Follows, if_pos hempty, fbStep, onKey, if_pos hempty]
        rfl
      by_cases hup : s.hasParent ∧ s.cursor = 0
      · refine iff_of_true ?_ fun hon => absurd (.inr hup) hon
        rw [Follows, if_neg hempty, if_pos hup, fbStep, onKey, if_neg hempty, if_pos hup]
        exact climbs_goUp h ((hasParent_iff h).mp hup.1)
      have hon : ¬ (s.total = 0 ∨ s.hasParent ∧ s.cursor = 0) := not_or.mpr ⟨hempty, hup⟩
      rw [Follows, if_neg hempty, if_neg hup, RowFits]
      have hrow := exists_entry_of_mem_rows h.short (h.rows ▸ row_mem h hon)
      have hopens : ∀ e ∈ v.tree.list (resolve s.dir), s.row = rowOf e →
          (Opens s e (fbStep v outLen (.browsing s) .ok).1 ↔ NameFits outLen s e) :=
        fun e he heq => opens_iff (v.names e (FileTree.mem_list.mp he).1).1 heq hon
      constructor
      · exact fun hall _ e he heq => (hopens e he heq).mp (hall.2 e he heq)
      · exact fun hfit => ⟨hrow, fun e he heq => (hopens e he heq).mpr (hfit hon e he heq)⟩

/-- Where an entry opens, its path stands below the root. -/
theorem opened_proper (h : Placed v s) {e : Volume.Entry} (he : e ∈ v.tree.list (resolve s.dir)) :
    ∃ names, (∀ n ∈ names, IsName n) ∧ s.dir ++ slash :: e.name = dirPath names ∧
      v.stat (s.dir ++ slash :: e.name) = some e.kind := by
  obtain ⟨names, hnames, hdir, -⟩ := h.below
  refine ⟨names ++ [e.name], ?_, by rw [dirPath_concat, hdir], v.stat_child he⟩
  intro n hn
  rcases List.mem_append.mp hn with hn | hn
  · exact hnames n hn
  · rw [List.mem_singleton.mp hn]
    exact (v.names e (FileTree.mem_list.mp he).1).1

theorem placed_up (h : Placed v s) : Placed v { s with cursor := s.cursor - 1 } := by
  refine ⟨h.below, h.short, h.rows, h.parent, ?_⟩
  have hcursor := h.cursor
  change s.cursor - 1 < s.total ∨ s.cursor - 1 = 0 ∧ s.total = 0
  omega

theorem placed_down (h : Placed v s) (hlt : s.cursor + 1 < s.total) :
    Placed v { s with cursor := s.cursor + 1 } :=
  ⟨h.below, h.short, h.rows, h.parent, .inl hlt⟩

/-- A key keeps the browser sound, and what it returns proper, where the names and paths fit. -/
theorem proper_step (b : Browser) (key : FbKey) (h : Proper v b) (hfit : RowFits v outLen b key) :
    Proper v (fbStep v outLen b key).1 := by
  cases b with
  | returned path => exact h
  | browsing s =>
      have hs : Placed v s := h.toPlaced
      cases key with
      | none => exact sound_settle hs
      | up => exact sound_settle (placed_up hs)
      | down =>
          rw [fbStep, onKey]
          split_ifs with hlt
          · exact sound_settle (placed_down hs hlt)
          · exact sound_settle hs
      | back =>
          rw [fbStep, onKey]
          split_ifs with hparent
          · obtain ⟨-, -, -, -, -, hup⟩ := placed_goUp hs ((hasParent_iff hs).mp hparent)
            exact sound_settle hup
          · trivial
      | ok =>
          by_cases hempty : s.total = 0
          · rw [fbStep, onKey, if_pos hempty]
            exact sound_settle hs
          by_cases hup : s.hasParent ∧ s.cursor = 0
          · rw [fbStep, onKey, if_neg hempty, if_pos hup]
            obtain ⟨-, -, -, -, -, hplaced⟩ := placed_goUp hs ((hasParent_iff hs).mp hup.1)
            exact sound_settle hplaced
          have hon : ¬ (s.total = 0 ∨ s.hasParent ∧ s.cursor = 0) := not_or.mpr ⟨hempty, hup⟩
          obtain ⟨e, he, hrow⟩ := exists_entry_of_mem_rows hs.short (hs.rows ▸ row_mem hs hon)
          obtain ⟨hname, hpath⟩ := hfit hon e he hrow
          obtain ⟨names, hnames, hdir, hstat⟩ := opened_proper hs he
          rw [fbStep, onKey_entry (v.names e (FileTree.mem_list.mp he).1).1 hrow hon]
          by_cases hkind : e.kind = .dir
          · rw [if_pos hkind] at hpath ⊢
            rw [take_path_iff.mpr ⟨hname, hpath⟩, hdir]
            exact sound_settle (placed_load hnames (.inr (by rw [← hdir, hstat, hkind]))
              (hdir ▸ hpath))
          · rw [if_neg hkind] at hpath ⊢
            rw [take_path_iff.mpr ⟨hname, by omega⟩]
            obtain ⟨size, hsize⟩ : ∃ size, e.kind = .file size := by
              cases hk : e.kind with
              | file size => exact ⟨size, rfl⟩
              | dir => exact absurd hk hkind
            exact ⟨names, hnames, hdir, size, by rw [hstat, hsize]⟩

theorem proper_start (v : Volume) : Proper v (fbStart v) :=
  sound_settle (@placed_load v [] (by simp) (.inl rfl) (by decide))

/-- Every run of keys stays in proper states, and each key does what it should, exactly when
every name that OK is pressed on fits, with its path. -/
theorem fileBrowser_iff (v : Volume) (outLen : Nat) (keys : List FbKey) :
    (Throughout (fbStep v outLen) (Proper v) (fbStart v) keys ∧
        Along (fbStep v outLen) (Follows v outLen) (fbStart v) keys) ↔
      Along (fbStep v outLen) (RowFits v outLen) (fbStart v) keys := by
  have hagree : ∀ b key, Proper v b → (RowFits v outLen b key ↔ Follows v outLen b key) := by
    intro b key hb
    cases b with
    | returned path => exact iff_of_true trivial rfl
    | browsing s => exact (follows_iff hb.toPlaced key).symm
  have hcongr : Along (fbStep v outLen) (RowFits v outLen) (fbStart v) keys ↔
      Along (fbStep v outLen) (Follows v outLen) (fbStart v) keys :=
    along_congr_of_admitted proper_step hagree keys (proper_start v)
  constructor
  · exact fun h => hcongr.mpr h.2
  · exact fun h => ⟨h.throughout proper_step (proper_start v), hcongr.mp h⟩

/-- A file whose name is one character longer than a row. -/
def longFile : Volume.Entry := ⟨[ascii "sd"], List.replicate 65 97, .file 1⟩

/-- A card with that file. -/
def longVolume : Volume where
  tree :=
    { entries := [⟨[], ascii "sd", .dir⟩, longFile]
      distinct := by decide
      closed := by decide }
  names := by decide
  sizes := by
    intro e he size hsize
    simp only [List.mem_cons, List.not_mem_nil, or_false] at he
    rcases he with rfl | rfl <;> cases hsize
    decide
  counts := fun p => Nat.lt_of_le_of_lt (List.length_filter_le _ _) (by decide)
  short := by decide
  lineless := by decide
  typed := fun _ => true

theorem longVolume_rows : sdkFpListDir longVolume fbRoot = [fbRow longFile.name] := by
  have htext : longVolume.sdDirListCb fbRoot = [longFile.name].flatMap (· ++ [10]) := by rfl
  rw [sdkFpListDir, htext, fpRows_lines 32 (by decide)]
  rfl

theorem longVolume_start : fbStart longVolume =
    .browsing ⟨fbRoot, [fbRow longFile.name], false, 0, 0⟩ := by
  rw [fbStart, fbLoad, longVolume_rows]
  decide

/-- OK on the row of that file returns another path. -/
theorem not_fileBrowser : ¬ ∀ (v : Volume) (outLen : Nat) (keys : List FbKey),
    Throughout (fbStep v outLen) (Proper v) (fbStart v) keys ∧
      Along (fbStep v outLen) (Follows v outLen) (fbStart v) keys := by
  intro h
  have hok : Follows longVolume 256 (fbStart longVolume) .ok := (h longVolume 256 [.ok]).2.1
  rw [longVolume_start] at hok
  have hopens : Opens _ longFile _ := hok.2 longFile (by decide) (by decide)
  have hreturned : (fbStep longVolume 256
      (.browsing ⟨fbRoot, [fbRow longFile.name], false, 0, 0⟩) .ok).1 =
        .returned (some (fbRoot ++ slash :: longFile.name)) := hopens
  exact absurd hreturned (by decide)

end Runs

end Ui
end JppDos
