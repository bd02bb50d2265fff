import JppDos.Lib.FileTree
import JppDos.Lib.Paths

/-!
# The card

A card with a FAT file system, as the calls with a path see it: the path is resolved, and
what stands there is a file with its size or a directory.

Main facts:
* `Card.stat_child`: the path of a directory with a name behind it leads to the entry.
-/

namespace JppDos
namespace Storage

open Paths

/-- A card: its names are names and no strings with a zero byte, its files are smaller than
4 GiB, and so are the numbers of entries in its directories. -/
structure Card where
  tree : FileTree Segment Nat
  names : ∀ e ∈ tree.entries, IsName e.name ∧ 0 ∉ e.name
  sizes : ∀ e ∈ tree.entries, ∀ size, e.kind = .file size → size < 2 ^ 32
  counts : ∀ p, (tree.list p).length < 2 ^ 32

/-- What `stat` finds at a path. -/
def Card.stat (c : Card) (path : List UInt8) : Option (FileKind Nat) :=
  c.tree.lookup (resolve path)

/-- The path of a directory with a name behind it leads to the entry of that name. -/
theorem Card.stat_child (c : Card) {path : List UInt8} {e : TreeEntry Segment Nat}
    (h : e ∈ c.tree.list (resolve path)) : c.stat (path ++ slash :: e.name) = some e.kind := by
  obtain ⟨he, -⟩ := FileTree.mem_list.mp h
  rw [stat, resolve_join_name path (c.names e he).1]
  exact (FileTree.mem_list_iff.mp h).2

end Storage
end JppDos
