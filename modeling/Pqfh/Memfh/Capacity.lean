import Mathlib.Data.List.Induction
import Pqfh.Memfh.Walk

/-! # What a page holds

A page has room for one item more than it keeps: an item is inserted first, and a page that is then
full is split. The bytes of a page are enough while a write is under way, and between writes every
page but the root is at least half full (`Pqfh.Memfh.idxWrite_kept`). None of this depends on where
a page is pointed to.
-/

namespace Pqfh.Memfh

open SearchGraph

/-! ## A write, state by state -/

/-- The states that `memfh_idx_insert_parent` goes through: the item inserted, the page split, and
the page above, or a new root. -/
def idxInsertParentStates (keylen : ℕ) (g : Graph Key ℕ) :
    List (ℕ × ℕ) → ℕ → ℕ → List (Graph Key ℕ)
  | [], _, _ => []
  | (parent, _) :: above, idx1, idx2 =>
      match g.page parent, firstKey (g.page idx2) with
      | .branch items next, some sep =>
          match link sep idx1 idx2 items next with
          | none => []
          | some (items, next) =>
              let grown := g.setPage parent (.branch items next)
              if items.length < maxItems keylen then [grown]
              else
                let n1 := items.length / 2
                let split := g.splitBranch parent (items.take n1) (items.drop n1) next
                match above, firstKey (split.page g.size) with
                | [], some first => [grown, split, split.newRoot first parent g.size]
                | [], none => [grown, split]
                | _ :: _, _ =>
                    grown :: split :: idxInsertParentStates keylen split above parent g.size
      | _, _ => []

/-- The states of the part of `memfh_idx_write` after the search. -/
def idxInsertLeafStates (idx : Idx) (key : Key) (record leaf pos : ℕ) (above : List (ℕ × ℕ)) :
    List (Graph Key ℕ) :=
  match idx.graph.page leaf with
  | .leaf items =>
      let items := items.insertIdx pos (key, record)
      let grown := idx.graph.setPage leaf (.leaf items)
      if items.length < maxItems idx.keylen then [grown]
      else
        let n1 := items.length / 2
        let split := idx.graph.splitLeaf leaf (items.take n1) (items.drop n1)
        match above, firstKey (split.page idx.graph.size) with
        | [], some first => [grown, split, split.newRoot first leaf idx.graph.size]
        | [], none => [grown, split]
        | _ :: _, _ =>
            grown :: split :: idxInsertParentStates idx.keylen split above leaf idx.graph.size
  | .branch _ _ => []

/-- The states of `memfh_idx_write`. -/
def idxWriteStates (idx : Idx) (key : Key) (record : ℕ) : List (Graph Key ℕ) :=
  match idxSearch idx key with
  | some (order, (leaf, pos) :: above) =>
      if order = .eq then [] else idxInsertLeafStates idx key record leaf pos above
  | _ => []

/-! ## Room -/

/-- The items of every page fit in its bytes. -/
def Fits (keylen : ℕ) (g : Graph Key ℕ) : Prop :=
  ∀ p < g.size, pageCount (g.page p) * (keylen + 4) ≤ 4096 - 12

/-- Every page has room for another item, and all but the root are at least half full. -/
structure Filled (keylen : ℕ) (g : Graph Key ℕ) : Prop where
  below : ∀ p < g.size, pageCount (g.page p) < maxItems keylen
  half : ∀ p < g.size, p ≠ g.root → maxItems keylen / 2 ≤ pageCount (g.page p)

/-- Some states in which the items of every page fit, the last of them filled. -/
structure KeptFilled (keylen : ℕ) (states : List (Graph Key ℕ)) (final : Graph Key ℕ) : Prop where
  last : states.getLast? = some final
  fits : ∀ g ∈ states, Fits keylen g
  filled : Filled keylen final

section Room

variable {keylen : ℕ} {g : Graph Key ℕ}

theorem fits_of_le (bounded : ∀ p < g.size, pageCount (g.page p) ≤ maxItems keylen) :
    Fits keylen g := by
  intro p inside
  have room : maxItems keylen ≤ (4096 - 12) / (keylen + 4) := Nat.sub_le _ _
  calc pageCount (g.page p) * (keylen + 4)
      ≤ (4096 - 12) / (keylen + 4) * (keylen + 4) :=
        Nat.mul_le_mul_right _ ((bounded p inside).trans room)
    _ ≤ 4096 - 12 := Nat.div_mul_le_self _ _

theorem Filled.fits (filled : Filled keylen g) : Fits keylen g :=
  fits_of_le fun p inside => (filled.below p inside).le

/-- A page is written that may be full. -/
theorem Filled.fits_setPage (filled : Filled keylen g) {page : Page Key ℕ}
    (room : pageCount page ≤ maxItems keylen) (p : ℕ) : Fits keylen (g.setPage p page) := by
  refine fits_of_le fun q inside => ?_
  by_cases same : q = p
  · rw [same, g.setPage_page_self]
    exact room
  · rw [g.setPage_page_of_ne _ same]
    exact (filled.below q inside).le

theorem Filled.setPage (filled : Filled keylen g) {p : ℕ} {page : Page Key ℕ}
    (below : pageCount page < maxItems keylen)
    (half : p ≠ g.root → maxItems keylen / 2 ≤ pageCount page) :
    Filled keylen (g.setPage p page) := by
  constructor
  · intro q inside
    by_cases same : q = p
    · rw [same, g.setPage_page_self]
      exact below
    · rw [g.setPage_page_of_ne _ same]
      exact filled.below q inside
  · intro q inside other
    by_cases same : q = p
    · subst same
      rw [g.setPage_page_self]
      exact half other
    · rw [g.setPage_page_of_ne _ same]
      exact filled.half q inside other

theorem Filled.alloc (filled : Filled keylen g) {page : Page Key ℕ}
    (below : pageCount page < maxItems keylen) (half : maxItems keylen / 2 ≤ pageCount page) :
    Filled keylen (g.alloc page) := by
  constructor
  · intro q inside
    rcases Nat.lt_succ_iff_lt_or_eq.mp inside with old | rfl
    · rw [g.alloc_page_of_lt _ old]
      exact filled.below q old
    · rw [g.alloc_page_size]
      exact below
  · intro q inside other
    rcases Nat.lt_succ_iff_lt_or_eq.mp inside with old | rfl
    · rw [g.alloc_page_of_lt _ old]
      exact filled.half q old other
    · rw [g.alloc_page_size]
      exact half

/-- Above two halves, all other pages are at least half full. -/
theorem Filled.newRoot (filled : Filled keylen g) (capacity : 2 ≤ maxItems keylen)
    (half : maxItems keylen / 2 ≤ pageCount (g.page g.root)) (sep : Key) (first second : ℕ) :
    Filled keylen (g.newRoot sep first second) := by
  have new : pageCount (.branch [(sep, first)] second) = 1 := rfl
  constructor
  · intro q inside
    rcases Nat.lt_succ_iff_lt_or_eq.mp inside with old | rfl
    · change pageCount ((g.alloc _).page q) < _
      rw [g.alloc_page_of_lt _ old]
      exact filled.below q old
    · change pageCount ((g.alloc _).page g.size) < _
      rw [g.alloc_page_size, new]
      omega
  · intro q inside other
    rcases Nat.lt_succ_iff_lt_or_eq.mp inside with old | rfl
    · change _ ≤ pageCount ((g.alloc _).page q)
      rw [g.alloc_page_of_lt _ old]
      by_cases root : q = g.root
      · rw [root]
        exact half
      · exact filled.half q old root
    · exact (other rfl).elim

end Room

/-! ## Paths end at the root -/

/-- The last page of a path is the root. -/
def EndsAt (root : ℕ) (path : List (ℕ × ℕ)) : Prop := path.getLast?.map Prod.fst = some root

theorem EndsAt.tail {root : ℕ} {step next : ℕ × ℕ} {path : List (ℕ × ℕ)}
    (ends : EndsAt root (step :: next :: path)) : EndsAt root (next :: path) := by
  unfold EndsAt at ends ⊢
  rw [List.getLast?_cons_cons] at ends
  exact ends

theorem idxSearchPage_endsAt {g : Graph Key ℕ} {key : Key} {root : ℕ} :
    ∀ {fuel p : ℕ} {above path : List (ℕ × ℕ)} {order : Ordering},
      idxSearchPage g key fuel p above = some (order, path) →
      (∀ i, EndsAt root ((p, i) :: above)) → EndsAt root path := by
  intro fuel
  induction fuel with
  | zero =>
      intro p above path order found _
      cases found
  | succ fuel ih =>
      intro p above path order found ends
      rw [idxSearchPage] at found
      cases page : g.page p with
      | leaf items =>
          rw [page] at found
          cases found
          exact ends _
      | branch items next =>
          rw [page] at found
          refine ih found fun i => ?_
          unfold EndsAt
          rw [List.getLast?_cons_cons]
          exact ends _

theorem idxSearch_endsAt {idx : Idx} {key : Key} {order : Ordering} {path : List (ℕ × ℕ)}
    (found : idxSearch idx key = some (order, path)) : EndsAt idx.graph.root path :=
  idxSearchPage_endsAt found fun _ => rfl

/-! ## Writing -/

theorem link_length {sep : Key} {first second next next' : ℕ} {items items' : List (Key × ℕ)}
    (linked : link sep first second items next = some (items', next')) :
    items'.length = items.length + 1 := by
  rcases link_eq_some linked with ⟨rfl, rfl, rfl⟩ | ⟨rfl, front, k, back, rfl, rfl⟩
  · exact List.length_append
  · simp only [List.length_append, List.length_cons]
    omega

/-- The halves of a full page. -/
theorem halves_length {α : Type*} {items : List α} {capacity : ℕ} (enough : 2 ≤ capacity)
    (room : items.length ≤ capacity) (full : ¬ items.length < capacity) :
    ((items.take (items.length / 2)).length < capacity ∧
        capacity / 2 ≤ (items.take (items.length / 2)).length) ∧
      (items.drop (items.length / 2)).length < capacity ∧
        capacity / 2 ≤ (items.drop (items.length / 2)).length := by
  rw [List.length_take, List.length_drop]
  omega

section Split

variable {keylen : ℕ} {g : Graph Key ℕ} (filled : Filled keylen g)
  (capacity : 2 ≤ maxItems keylen)

include filled capacity

/-- A full routing page is split. -/
theorem Filled.splitBranch {items : List (Key × ℕ)} (room : items.length ≤ maxItems keylen)
    (full : ¬ items.length < maxItems keylen) (p next : ℕ) :
    Filled keylen (g.splitBranch p (items.take (items.length / 2))
      (items.drop (items.length / 2)) next) := by
  obtain ⟨⟨below, half⟩, ⟨below', half'⟩⟩ := halves_length capacity room full
  have left : Filled keylen (g.setPage p (.branch (items.take (items.length / 2)) g.size)) :=
    filled.setPage below fun _ => half
  exact left.alloc below' half'

/-- A full entry page is split. -/
theorem Filled.splitLeaf {items : List (Key × ℕ)} (room : items.length ≤ maxItems keylen)
    (full : ¬ items.length < maxItems keylen) (p : ℕ) :
    Filled keylen (g.splitLeaf p (items.take (items.length / 2))
      (items.drop (items.length / 2))) := by
  obtain ⟨⟨below, half⟩, ⟨below', half'⟩⟩ := halves_length capacity room full
  have left : Filled keylen (g.setPage p (.leaf (items.take (items.length / 2)))) :=
    filled.setPage below fun _ => half
  exact left.alloc below' half'

end Split

/-- States that fit, before others. -/
theorem KeptFilled.cons {keylen : ℕ} {first final : Graph Key ℕ} {states : List (Graph Key ℕ)}
    (kept : KeptFilled keylen states final) (fits : Fits keylen first) :
    KeptFilled keylen (first :: states) final := by
  refine ⟨?_, ?_, kept.filled⟩
  · rw [List.getLast?_cons, kept.last]
    rfl
  · intro g member
    rcases List.mem_cons.mp member with rfl | later
    · exact fits
    · exact kept.fits g later

theorem Filled.kept {keylen : ℕ} {g : Graph Key ℕ} (filled : Filled keylen g) :
    KeptFilled keylen [g] g := by
  refine ⟨rfl, ?_, filled⟩
  intro other member
  rw [List.mem_singleton.mp member]
  exact filled.fits

/-- `memfh_idx_insert_parent` keeps the pages filled. -/
theorem idxInsertParent_kept {keylen : ℕ} (capacity : 2 ≤ maxItems keylen) :
    ∀ {path : List (ℕ × ℕ)} {g final : Graph Key ℕ} {idx1 idx2 : ℕ}, Filled keylen g →
      (∀ step ∈ path, step.1 < g.size) → EndsAt g.root path →
      idxInsertParent keylen g path idx1 idx2 = some final →
      KeptFilled keylen (idxInsertParentStates keylen g path idx1 idx2) final := by
  intro path
  induction path with
  | nil =>
      intro g final idx1 idx2 _ _ _ written
      cases written
  | cons step above ih =>
      obtain ⟨parent, i⟩ := step
      intro g final idx1 idx2 filled inside ends written
      have here : parent < g.size := inside (parent, i) List.mem_cons_self
      rw [idxInsertParent] at written
      rw [idxInsertParentStates]
      cases page : g.page parent with
      | leaf _ =>
          rw [page] at written
          cases written
      | branch items next =>
        cases first : firstKey (g.page idx2) with
        | none =>
            rw [page, first] at written
            cases written
        | some sep =>
            have count : items.length < maxItems keylen := by
              have below := filled.below parent here
              rw [page] at below
              exact below
            have half : parent ≠ g.root → maxItems keylen / 2 ≤ items.length := by
              intro other
              have enough := filled.half parent here other
              rw [page] at enough
              exact enough
            rw [page, first] at written
            dsimp only at written ⊢
            cases linked : link sep idx1 idx2 items next with
            | none =>
                rw [linked] at written
                cases written
            | some pair =>
                obtain ⟨items', next'⟩ := pair
                have length := link_length linked
                rw [linked] at written
                dsimp only at written ⊢
                have grown : Fits keylen (g.setPage parent (.branch items' next')) :=
                  filled.fits_setPage (show items'.length ≤ _ by omega) parent
                by_cases room : items'.length < maxItems keylen
                · rw [if_pos room] at written ⊢
                  cases written
                  have more : parent ≠ g.root → maxItems keylen / 2 ≤ items'.length := by
                    intro other
                    have enough := half other
                    omega
                  have after : Filled keylen (g.setPage parent (.branch items' next')) :=
                    filled.setPage room more
                  exact after.kept
                · rw [if_neg room] at written ⊢
                  have split := filled.splitBranch capacity (by omega) room parent next'
                  cases above with
                  | nil =>
                      cases cut : firstKey ((g.splitBranch parent (items'.take (items'.length / 2))
                          (items'.drop (items'.length / 2)) next').page g.size) with
                      | none =>
                          rw [cut] at written
                          cases written
                      | some key =>
                          rw [cut] at written
                          cases written
                          have root : g.root = parent := (Option.some.inj ends).symm
                          have left := (halves_length capacity (by omega) room).1.2
                          refine KeptFilled.cons
                            (KeptFilled.cons (split.newRoot capacity ?_ _ _ _).kept split.fits)
                            grown
                          change _ ≤ pageCount (Graph.page _ g.root)
                          rw [root, Graph.splitBranch_page_first here]
                          exact left
                  | cons next above =>
                      refine KeptFilled.cons
                        (KeptFilled.cons (ih split ?_ ends.tail written) split.fits) grown
                      intro step member
                      exact (inside step (List.mem_cons_of_mem _ member)).trans (Nat.lt_succ_self _)

/-- `memfh_idx_write` keeps the pages filled. -/
theorem idxInsertLeaf_kept {idx : Idx} {key : Key} {record leaf pos : ℕ} {above : List (ℕ × ℕ)}
    {final : Graph Key ℕ} (capacity : 2 ≤ maxItems idx.keylen)
    (filled : Filled idx.keylen idx.graph)
    (inside : ∀ step ∈ (leaf, pos) :: above, step.1 < idx.graph.size)
    (ends : EndsAt idx.graph.root ((leaf, pos) :: above))
    (written : idxInsertLeaf idx key record leaf pos above = some final) :
    KeptFilled idx.keylen (idxInsertLeafStates idx key record leaf pos above) final := by
  have here : leaf < idx.graph.size := inside (leaf, pos) List.mem_cons_self
  rw [idxInsertLeaf] at written
  rw [idxInsertLeafStates]
  cases page : idx.graph.page leaf with
  | branch items next =>
      rw [page] at written
      cases written
  | leaf items =>
      rw [page] at written
      dsimp only at written ⊢
      have count : items.length < maxItems idx.keylen := by
        have below := filled.below leaf here
        rw [page] at below
        exact below
      have half : leaf ≠ idx.graph.root → maxItems idx.keylen / 2 ≤ items.length := by
        intro other
        have enough := filled.half leaf here other
        rw [page] at enough
        exact enough
      have most : items.length ≤ (items.insertIdx pos (key, record)).length ∧
          (items.insertIdx pos (key, record)).length ≤ items.length + 1 := by
        rw [List.length_insertIdx]
        split
        · omega
        · omega
      generalize items.insertIdx pos (key, record) = items' at most written ⊢
      have grown : Fits idx.keylen (idx.graph.setPage leaf (.leaf items')) :=
        filled.fits_setPage (show items'.length ≤ _ by omega) leaf
      by_cases room : items'.length < maxItems idx.keylen
      · rw [if_pos room] at written ⊢
        cases written
        have more : leaf ≠ idx.graph.root → maxItems idx.keylen / 2 ≤ items'.length :=
          fun other => by
            have enough := half other
            omega
        have after : Filled idx.keylen (idx.graph.setPage leaf (.leaf items')) :=
          filled.setPage room more
        exact after.kept
      · rw [if_neg room] at written ⊢
        have split := filled.splitLeaf capacity (by omega) room leaf
        cases above with
        | nil =>
            cases cut : firstKey ((idx.graph.splitLeaf leaf (items'.take (items'.length / 2))
                (items'.drop (items'.length / 2))).page idx.graph.size) with
            | none =>
                rw [cut] at written
                cases written
            | some key =>
                rw [cut] at written
                cases written
                have root : idx.graph.root = leaf := (Option.some.inj ends).symm
                have left := (halves_length capacity (by omega) room).1.2
                refine KeptFilled.cons
                  (KeptFilled.cons (split.newRoot capacity ?_ _ _ _).kept split.fits) grown
                change _ ≤ pageCount (Graph.page _ idx.graph.root)
                rw [root, Graph.splitLeaf_page_first here]
                exact left
        | cons next above =>
            refine KeptFilled.cons (KeptFilled.cons
              (idxInsertParent_kept capacity split ?_ ends.tail written) split.fits) grown
            intro step member
            exact (inside step (List.mem_cons_of_mem _ member)).trans (Nat.lt_succ_self _)

/-- A write to a sound index, state by state. -/
theorem idxWrite_kept {idx later : Idx} {labels : Labels Key} (sound : Sound idx.graph labels)
    (capacity : 2 ≤ maxItems idx.keylen) (filled : Filled idx.keylen idx.graph) {key : Key}
    {record : ℕ} (wrote : idxWrite idx key record = some later) :
    KeptFilled idx.keylen (idxWriteStates idx key record) later.graph := by
  obtain ⟨order, leaf, pos, above, items, searched, found⟩ := idxSearch_spec sound key
  rw [idxWrite, searched] at wrote
  rw [idxWriteStates, searched]
  dsimp only at wrote ⊢
  by_cases there : order = .eq
  · rw [if_pos there] at wrote
    cases wrote
  · rw [if_neg there] at wrote ⊢
    obtain ⟨graph, written, rfl⟩ := Option.map_eq_some_iff.mp wrote
    refine idxInsertLeaf_kept capacity filled ?_ (idxSearch_endsAt searched) written
    intro step member
    rcases List.mem_cons.mp member with rfl | member
    · exact found.inside
    · exact found.path.inside step member

/-! ## Sequences of writes -/

theorem filled_empty (keylen : ℕ) (short : keylen ≤ 256) :
    Filled keylen (Idx.empty keylen).graph := by
  have capacity := two_le_maxItems short
  constructor
  · intro p _
    change 0 < maxItems keylen
    omega
  · intro p inside other
    exact (other (Nat.lt_one_iff.mp inside)).elim

/-- What has been written so far: a sound index with filled pages. -/
structure Written (keylen : ℕ) (entries : List (Key × ℕ)) (idx : Idx) : Prop where
  wrote : idxWrites (Idx.empty keylen) entries = some idx
  keylen_eq : idx.keylen = keylen
  filled : Filled keylen idx.graph
  sound : ∃ labels, Sound idx.graph labels
  held : ∀ entry, idx.graph.Holds entry ↔ entry ∈ entries

theorem idxWrites_concat (idx : Idx) (entries : List (Key × ℕ)) (entry : Key × ℕ) :
    idxWrites idx (entries ++ [entry]) =
      (idxWrites idx entries).bind fun now => idxWrite now entry.1 entry.2 := by
  unfold idxWrites
  rw [List.foldlM_append]
  cases entries.foldlM (fun idx entry => idxWrite idx entry.1 entry.2) idx with
  | none => rfl
  | some now =>
      change (idxWrite now entry.1 entry.2).bind some = idxWrite now entry.1 entry.2
      exact Option.bind_fun_some _

/-- One more write. -/
theorem Written.write {keylen : ℕ} (short : keylen ≤ 256) {entries : List (Key × ℕ)} {idx : Idx}
    (written : Written keylen entries idx) {entry : Key × ℕ}
    (new : entry.1 ∉ entries.map Prod.fst) :
    ∃ later, idxWrite idx entry.1 entry.2 = some later ∧
      KeptFilled keylen (idxWriteStates idx entry.1 entry.2) later.graph ∧
      Written keylen (entries ++ [entry]) later := by
  obtain ⟨wrote, same, filled, ⟨labels, sound⟩, held⟩ := written
  have capacity : 2 ≤ maxItems idx.keylen := by
    rw [same]
    exact two_le_maxItems short
  have absent : ∀ other, ¬ idx.graph.Holds (entry.1, other) := fun other present =>
    new (List.mem_map.mpr ⟨(entry.1, other), (held _).mp present, rfl⟩)
  obtain ⟨later, labels', goes, same', sound', held'⟩ :=
    idxWrite_sound sound capacity entry.2 absent
  have kept := idxWrite_kept sound capacity (by rw [same]; exact filled) goes
  rw [same] at kept
  refine ⟨later, goes, kept, ?_, same'.trans same, kept.filled, ⟨labels', sound'⟩, ?_⟩
  · rw [idxWrites_concat, wrote]
    exact goes
  · intro other
    rw [held', held, List.mem_append, List.mem_singleton]

/-- Writes of distinct keys. -/
theorem exists_written {keylen : ℕ} (short : keylen ≤ 256) {entries : List (Key × ℕ)}
    (distinct : (entries.map Prod.fst).Nodup) : ∃ idx, Written keylen entries idx := by
  induction entries using List.reverseRecOn with
  | nil =>
      refine ⟨Idx.empty keylen, rfl, rfl, filled_empty keylen short,
        ⟨rootLabels, Idx.empty_sound keylen⟩, fun entry => ?_⟩
      exact ⟨fun present => (Idx.empty_holds keylen entry present).elim,
        fun member => (List.not_mem_nil member).elim⟩
  | append_singleton entries entry ih =>
      rw [List.map_append] at distinct
      obtain ⟨before, _, apart⟩ := List.nodup_append.mp distinct
      obtain ⟨idx, written⟩ := ih before
      obtain ⟨later, _, _, written'⟩ := written.write short fun member =>
        apart _ member _ List.mem_cons_self rfl
      exact ⟨later, written'⟩

/-- During each write of a sequence with distinct keys the items of every page fit, and after it
every page has room for another item and all but the root are at least half full. -/
theorem pages_filled {keylen : ℕ} (short : keylen ≤ 256) {entries : List (Key × ℕ)}
    (distinct : (entries.map Prod.fst).Nodup) :
    ∀ before entry after, entries = before ++ entry :: after → ∃ now later,
      idxWrites (Idx.empty keylen) before = some now ∧
      idxWrite now entry.1 entry.2 = some later ∧
      (idxWriteStates now entry.1 entry.2).getLast? = some later.graph ∧
      (∀ g ∈ idxWriteStates now entry.1 entry.2, Fits keylen g) ∧
      Fits keylen later.graph ∧ Filled keylen later.graph := by
  rintro before entry after rfl
  rw [List.map_append] at distinct
  obtain ⟨first, _, apart⟩ := List.nodup_append.mp distinct
  obtain ⟨now, written⟩ := exists_written short first
  obtain ⟨later, goes, kept, _⟩ := written.write short fun member =>
    apart _ member _ List.mem_cons_self rfl
  exact ⟨now, later, written.wrote, goes, kept.last, kept.fits, kept.filled.fits, kept.filled⟩

/-- The third of three keys of one byte. -/
theorem pages_filled_three : ∃ now later,
    idxWrites (Idx.empty 1) [([2], 0), ([3], 1)] = some now ∧
    idxWrite now [1] 2 = some later ∧
    (idxWriteStates now [1] 2).getLast? = some later.graph ∧
    (∀ g ∈ idxWriteStates now [1] 2, Fits 1 g) ∧
    Fits 1 later.graph ∧ Filled 1 later.graph :=
  pages_filled (by decide)
    (show (([([2], 0), ([3], 1), ([1], 2)] : List (Key × ℕ)).map Prod.fst).Nodup by decide)
    [([2], 0), ([3], 1)] ([1], 2) [] rfl

end Pqfh.Memfh
