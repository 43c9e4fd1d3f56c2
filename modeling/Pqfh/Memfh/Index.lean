import Pqfh.Core.Bytes
import Pqfh.Foundation.SearchGraphPath

/-! # The index of an in-memory file

An index of an in-memory file is a graph of pages of 4096 bytes. Leaf pages hold
keys with record pointers; branch pages hold keys with page pointers, and a last
pointer `next`. When a branch page is split, the left half's `next` leads to the
right half, so pages are reached along several routes.

Each index keeps the path of its last search or walk: pages from the root down,
each with a position, held here deepest first. The source has room for
`MEMFH_MAX_DEPTH` of them and does not check it; here the path is a list of any length.
-/

namespace Pqfh.Memfh

open SearchGraph

export SearchGraph (Graph)

/-- Keys of one index have one length and are compared by `memcmp`. -/
abbrev Key := List Byte

/-- `MEMFH_MAX_ITEMS`, with pointers of four bytes. -/
def maxItems (keylen : ℕ) : ℕ := (4096 - 12) / (keylen + 4) - 1

/-- An index `hdr->idx[k]` with its search path `hdr->path[k]`, `hdr->pos[k]`. -/
structure Idx where
  keylen : ℕ
  graph : Graph Key ℕ
  path : List (ℕ × ℕ)

/-- An index of one empty leaf page. -/
def Idx.empty (keylen : ℕ) : Idx where
  keylen := keylen
  graph := { root := 0, size := 1, page := fun _ => .leaf [] }
  path := []

/-! ## Searching -/

/-- The loop of `memfh_idx_search_page` over the items of a leaf page: the position
it stops at, and how the key compares there. -/
def searchLeaf (key : Key) : List (Key × ℕ) → ℕ → Ordering × ℕ
  | [], i => (.gt, i)
  | (k, _) :: rest, i =>
      if key = k then (.eq, i)
      else if key < k then (.lt, i)
      else searchLeaf key rest (i + 1)

/-- `memfh_idx_search_page`. `none` when the pages run in a circle. -/
def idxSearchPage (g : Graph Key ℕ) (key : Key) :
    ℕ → ℕ → List (ℕ × ℕ) → Option (Ordering × List (ℕ × ℕ))
  | 0, _, _ => none
  | fuel + 1, idx, path =>
      match g.page idx with
      | .leaf items => some ((searchLeaf key items 0).1, (idx, (searchLeaf key items 0).2) :: path)
      | .branch items next =>
          idxSearchPage g key fuel (route key next items 0).2
            ((idx, (route key next items 0).1) :: path)

/-- `memfh_idx_search`: the comparison found, and the path to it. -/
def idxSearch (idx : Idx) (key : Key) : Option (Ordering × List (ℕ × ℕ)) :=
  idxSearchPage idx.graph key idx.graph.size idx.graph.root []

/-! ## Writing -/

/-- The first key of a page's buffer. -/
def firstKey : Page Key ℕ → Option Key
  | .leaf items => items.head?.map Prod.fst
  | .branch items _ => items.head?.map Prod.fst

/-- `memfh_idx_insert_parent`: insert a pointer to `idx2`, split off `idx1`, into the
page above, and split that page in turn when it is full. The path starts at the page
above. `none` when the page above does not point to `idx1`. -/
def idxInsertParent (keylen : ℕ) (g : Graph Key ℕ) :
    List (ℕ × ℕ) → ℕ → ℕ → Option (Graph Key ℕ)
  | [], _, _ => none
  | (parent, _) :: above, idx1, idx2 =>
      match g.page parent, firstKey (g.page idx2) with
      | .branch items next, some sep =>
          match link sep idx1 idx2 items next with
          | none => none
          | some (items, next) =>
              if items.length < maxItems keylen then some (g.setPage parent (.branch items next))
              else
                -- the left half's `next` leads to the right half
                let n1 := items.length / 2
                let split := g.splitBranch parent (items.take n1) (items.drop n1) next
                match above, firstKey (split.page g.size) with
                | [], some first => some (split.newRoot first parent g.size)
                | [], none => none
                | _ :: _, _ => idxInsertParent keylen split above parent g.size
      | _, _ => none

/-- The part of `memfh_idx_write` after the search: insert the entry at the position
found, and split the leaf page when it is full. -/
def idxInsertLeaf (idx : Idx) (key : Key) (record leaf pos : ℕ) (above : List (ℕ × ℕ)) :
    Option (Graph Key ℕ) :=
  match idx.graph.page leaf with
  | .leaf items =>
      let items := items.insertIdx pos (key, record)
      if items.length < maxItems idx.keylen then some (idx.graph.setPage leaf (.leaf items))
      else
        let n1 := items.length / 2
        let split := idx.graph.splitLeaf leaf (items.take n1) (items.drop n1)
        match above, firstKey (split.page idx.graph.size) with
        | [], some first => some (split.newRoot first leaf idx.graph.size)
        | [], none => none
        | _ :: _, _ => idxInsertParent idx.keylen split above leaf idx.graph.size
  | .branch _ _ => none

/-- `memfh_idx_write`. `none` when the key is there already and the process exits. -/
def idxWrite (idx : Idx) (key : Key) (record : ℕ) : Option Idx :=
  match idxSearch idx key with
  | some (order, (leaf, pos) :: above) =>
      if order = .eq then none
      else (idxInsertLeaf idx key record leaf pos above).map fun graph =>
        { idx with graph := graph, path := (leaf, pos) :: above }
  | _ => none

/-! ## Walking -/

/-- The loop down to a leaf that `memfh_idx_first` and `memfh_idx_next` share: pages
are entered at position 0, branch pages left through their first item. -/
def firstLeaf (g : Graph Key ℕ) : ℕ → ℕ → List (ℕ × ℕ) → Option (List (ℕ × ℕ))
  | 0, _, _ => none
  | fuel + 1, idx, path =>
      match g.page idx with
      | .leaf _ => some ((idx, 0) :: path)
      | .branch [] _ => none
      | .branch ((_, c) :: _) _ => firstLeaf g fuel c ((idx, 0) :: path)

/-- The number of items of a page, `idx->n`. -/
def pageCount : Page Key ℕ → ℕ
  | .leaf items => items.length
  | .branch items _ => items.length

/-- `memfh_idx_first`. -/
def idxFirst (idx : Idx) : Option (Bool × Idx) :=
  if pageCount (idx.graph.page idx.graph.root) = 0 then some (false, idx)
  else (firstLeaf idx.graph idx.graph.size idx.graph.root []).map fun path =>
    (true, { idx with path := path })

/-- `memfh_idx_next`: advance in the leaf page, else in the page above it. The page
above is left for good once it is exhausted; no page further up is looked at. -/
def idxNext (idx : Idx) : Option (Bool × Idx) :=
  match idx.path with
  | [] => none
  | (leaf, pos) :: above =>
      if pos + 1 < pageCount (idx.graph.page leaf) then
        some (true, { idx with path := (leaf, pos + 1) :: above })
      else
        match above with
        | [] => some (false, idx)
        | (parent, ppos) :: rest =>
            match idx.graph.page parent with
            | .leaf _ => none
            | .branch items next =>
                if ppos < items.length then
                  (firstLeaf idx.graph idx.graph.size (pointerAfter next items ppos)
                    ((parent, ppos + 1) :: rest)).map fun path => (true, { idx with path := path })
                else some (false, { idx with path := above })

/-- The entry at the position of an index. -/
def idxCurrent (idx : Idx) : Option (Key × ℕ) :=
  match idx.path with
  | [] => none
  | (leaf, pos) :: _ =>
      match idx.graph.page leaf with
      | .leaf items => items[pos]?
      | .branch _ _ => none

end Pqfh.Memfh
