import Pqfh.Memfh.StartSpec

/-! # WRITE during a scan

A scan of the primary index and `memfh_write` use the same path. The search of `memfh_idx_write`
moves it to the place of the new key, and the next READ NEXT goes on from there, wherever the scan
was (`Pqfh.Memfh.idxNext_after_write`). It goes on from the new record itself, unless the leaf page
was split and the position is no more before the last item of the left half; then it goes on behind
the left half, or ends. So the scan goes on from its last record just when that is the last of the
left half, or when there is nothing more to be read and the scan ends (`Pqfh.Memfh.readsOn_iff`).
-/

namespace Pqfh.Memfh

open SearchGraph

/-! ## Pages after an insertion -/

/-- What `memfh_idx_insert_parent` does to the page above. -/
theorem idxInsertParent_cases {keylen parent i first second : ℕ} {g g' : Graph Key ℕ}
    {above : List (ℕ × ℕ)}
    (wrote : idxInsertParent keylen g ((parent, i) :: above) first second = some g') :
    ∃ items next sep items' next', g.page parent = .branch items next ∧
      link sep first second items next = some (items', next') ∧
      ((items'.length < maxItems keylen ∧ g' = g.setPage parent (.branch items' next')) ∨
        (maxItems keylen ≤ items'.length ∧ ∃ split,
          split = g.splitBranch parent (items'.take (items'.length / 2))
            (items'.drop (items'.length / 2)) next' ∧
          ((above = [] ∧ ∃ cut, g' = split.newRoot cut parent g.size) ∨
            (above ≠ [] ∧ idxInsertParent keylen split above parent g.size = some g')))) := by
  rw [idxInsertParent] at wrote
  split at wrote
  · rename_i items next sep page _
    split at wrote
    · cases wrote
    · rename_i items' next' linked
      refine ⟨items, next, sep, items', next', page, linked, ?_⟩
      dsimp only at wrote
      split at wrote
      · rename_i room
        cases wrote
        exact Or.inl ⟨room, rfl⟩
      · rename_i full
        refine Or.inr ⟨not_lt.mp full, _, rfl, ?_⟩
        split at wrote
        · cases wrote
          exact Or.inl ⟨rfl, _, rfl⟩
        · cases wrote
        · exact Or.inr ⟨List.cons_ne_nil _ _, wrote⟩
  · cases wrote

/-- Inserting above rewrites no page off the path. -/
theorem idxInsertParent_others {keylen : ℕ} :
    ∀ {above : List (ℕ × ℕ)} {g g' : Graph Key ℕ} {first second : ℕ},
      idxInsertParent keylen g above first second = some g' →
      (∀ step ∈ above, step.1 < g.size) →
      ∀ p < g.size, (∀ step ∈ above, p ≠ step.1) → p < g'.size ∧ g'.page p = g.page p := by
  intro above
  induction above with
  | nil =>
      intro g g' first second wrote
      cases wrote
  | cons step above ih =>
      intro g g' first second wrote allocated p inside off
      obtain ⟨parent, i⟩ := step
      have other : p ≠ parent := off (parent, i) (List.mem_cons_self ..)
      obtain ⟨items, next, sep, items', next', page, linked, outcome⟩ :=
        idxInsertParent_cases wrote
      have later : p < g.size + 1 := inside.trans (Nat.lt_succ_self _)
      rcases outcome with ⟨_, rfl⟩ | ⟨_, split, rfl, ⟨_, cut, rfl⟩ | ⟨_, wrote⟩⟩
      · exact ⟨inside, g.setPage_page_of_ne _ other⟩
      · exact ⟨later.trans (Nat.lt_succ_self _), (Graph.alloc_page_of_lt _ _ later).trans
          (Graph.splitBranch_page_of_ne inside other)⟩
      · obtain ⟨still, kept⟩ := ih wrote
          (fun step member => (allocated step (List.mem_cons_of_mem _ member)).trans
            (Nat.lt_succ_self _))
          p later (fun step member => off step (List.mem_cons_of_mem _ member))
        exact ⟨still, kept.trans (Graph.splitBranch_page_of_ne inside other)⟩

/-- The page above after the insertion: it has the new pointer, or its left half is left. -/
theorem idxInsertParent_page {keylen parent i first second : ℕ} {g g' : Graph Key ℕ}
    {above : List (ℕ × ℕ)}
    (wrote : idxInsertParent keylen g ((parent, i) :: above) first second = some g')
    (allocated : ∀ step ∈ (parent, i) :: above, step.1 < g.size)
    (off : ∀ step ∈ above, parent ≠ step.1) :
    ∃ items next sep items' next', g.page parent = .branch items next ∧
      link sep first second items next = some (items', next') ∧ parent < g'.size ∧
      ((items'.length < maxItems keylen ∧ g'.page parent = .branch items' next') ∨
        (maxItems keylen ≤ items'.length ∧
          g'.page parent = .branch (items'.take (items'.length / 2)) g.size)) := by
  have inside : parent < g.size := allocated (parent, i) (List.mem_cons_self ..)
  have later : parent < g.size + 1 := inside.trans (Nat.lt_succ_self _)
  obtain ⟨items, next, sep, items', next', page, linked, outcome⟩ := idxInsertParent_cases wrote
  refine ⟨items, next, sep, items', next', page, linked, ?_⟩
  rcases outcome with ⟨room, rfl⟩ | ⟨full, split, rfl, ⟨_, cut, rfl⟩ | ⟨_, wrote⟩⟩
  · exact ⟨inside, Or.inl ⟨room, g.setPage_page_self ..⟩⟩
  · exact ⟨later.trans (Nat.lt_succ_self _), Or.inr ⟨full, (Graph.alloc_page_of_lt _ _ later).trans
      (Graph.splitBranch_page_first inside)⟩⟩
  · obtain ⟨still, kept⟩ := idxInsertParent_others wrote
      (fun step member => (allocated step (List.mem_cons_of_mem _ member)).trans
        (Nat.lt_succ_self _))
      parent later off
    exact ⟨still, Or.inr ⟨full, kept.trans (Graph.splitBranch_page_first inside)⟩⟩

/-- What `memfh_idx_write` does to the leaf page. -/
theorem idxInsertLeaf_cases {idx : Idx} {key : Key} {record leaf pos : ℕ} {above : List (ℕ × ℕ)}
    {items : List (Key × ℕ)} {g' : Graph Key ℕ} (page : idx.graph.page leaf = .leaf items)
    (wrote : idxInsertLeaf idx key record leaf pos above = some g') :
    ∃ items', items' = items.insertIdx pos (key, record) ∧
      ((items'.length < maxItems idx.keylen ∧ g' = idx.graph.setPage leaf (.leaf items')) ∨
        (maxItems idx.keylen ≤ items'.length ∧ ∃ split,
          split = idx.graph.splitLeaf leaf (items'.take (items'.length / 2))
            (items'.drop (items'.length / 2)) ∧
          ((above = [] ∧ ∃ cut, g' = split.newRoot cut leaf idx.graph.size) ∨
            (above ≠ [] ∧
              idxInsertParent idx.keylen split above leaf idx.graph.size = some g')))) := by
  refine ⟨_, rfl, ?_⟩
  simp only [idxInsertLeaf, page] at wrote
  split at wrote
  · rename_i room
    cases wrote
    exact Or.inl ⟨room, rfl⟩
  · rename_i full
    refine Or.inr ⟨not_lt.mp full, _, rfl, ?_⟩
    split at wrote
    · cases wrote
      exact Or.inl ⟨rfl, _, rfl⟩
    · cases wrote
    · exact Or.inr ⟨List.cons_ne_nil _ _, wrote⟩

/-! ## The next step after a write -/

/-- The next step goes from an entry: to the entry after it in key order, or to the end when there
is none. -/
def StepsFrom (idx : Idx) (entry : Key × ℕ) : Prop :=
  idx.graph.Holds entry ∧
    ((∃ idx' entry', idxNext idx = some (true, idx') ∧ idxCurrent idx' = some entry' ∧
        Successor idx.graph entry entry') ∨
      ∃ idx', idxNext idx = some (false, idx') ∧
        ∀ other, idx.graph.Holds other → ¬ entry.1 < other.1)

/-- From the position of a walk, the next step goes from the entry there. -/
theorem At.stepsFrom {idx : Idx} {labels : Labels Key} (sound : Sound idx.graph labels)
    {leaf pos : ℕ} {items : List (Key × ℕ)} {entry : Key × ℕ} {above : List (ℕ × ℕ)}
    (here : At idx leaf pos items entry above) : StepsFrom idx entry := by
  refine ⟨here.held, ?_⟩
  rcases idxNext_spec sound here with
    ⟨idx', leaf', pos', items', entry', above', moved, _, there, successor⟩ | ended
  · exact Or.inl ⟨idx', entry', moved, there.current, successor⟩
  · exact Or.inr ended

/-- Behind the last item of a leaf page the next step is the one from its last item, below a page
that is left for good or goes on. -/
theorem idxNext_past (idx : Idx) {leaf pos pos' : ℕ} {items : List (Key × ℕ)}
    (step : ℕ × ℕ) (above : List (ℕ × ℕ)) (page : idx.graph.page leaf = .leaf items)
    (past : items.length ≤ pos + 1) (past' : items.length ≤ pos' + 1) :
    idxNext { idx with path := (leaf, pos) :: step :: above } =
      idxNext { idx with path := (leaf, pos') :: step :: above } := by
  simp only [idxNext, page, pageCount, not_lt.mpr past, not_lt.mpr past', ↓reduceIte]

/-- The write fills the leaf page up, and does not leave the position before the last item of the
left half. -/
def Crosses (keylen count pos : ℕ) : Prop :=
  maxItems keylen ≤ count + 1 ∧ (count + 1) / 2 ≤ pos + 1

/-- There is a page above, and it still has an item at the position noted there when one more
pointer is inserted. -/
def PointsOn (keylen : ℕ) (g : Graph Key ℕ) : List (ℕ × ℕ) → Prop
  | [] => False
  | (parent, i) :: _ => pageCount (g.page parent) + 1 < maxItems keylen ∨
      i < (pageCount (g.page parent) + 1) / 2

section Write

variable {idx : Idx} {labels : Labels Key} {key : Key} {order : Ordering} {leaf pos : ℕ}
  {above : List (ℕ × ℕ)} {items : List (Key × ℕ)}
  (found : Found idx.graph labels key order leaf pos above items)

include found

/-- The pages above the leaf that a search ends in are other pages. -/
theorem Found.off_path : ∀ step ∈ above, leaf ≠ step.1 := by
  intro step member same
  exact (found.path.rank_lt step member).ne (congrArg labels.rank same.symm)

/-- The leaf page after a write: it has the new entry, or its left half is left. -/
theorem Found.leaf_after {record : ℕ} {g' : Graph Key ℕ}
    (wrote : idxInsertLeaf idx key record leaf pos above = some g') :
    leaf < g'.size ∧ ∃ items', items' = items.insertIdx pos (key, record) ∧
      ((items'.length < maxItems idx.keylen ∧ g' = idx.graph.setPage leaf (.leaf items')) ∨
        (maxItems idx.keylen ≤ items'.length ∧
          g'.page leaf = .leaf (items'.take (items'.length / 2)))) := by
  have later : leaf < idx.graph.size + 1 := found.inside.trans (Nat.lt_succ_self _)
  obtain ⟨items', inserted, outcome⟩ := idxInsertLeaf_cases found.page wrote
  rcases outcome with ⟨room, rfl⟩ | ⟨full, split, rfl, ⟨_, cut, rfl⟩ | ⟨_, wrote⟩⟩
  · exact ⟨found.inside, items', inserted, Or.inl ⟨room, rfl⟩⟩
  · exact ⟨later.trans (Nat.lt_succ_self _), items', inserted, Or.inr ⟨full,
      (Graph.alloc_page_of_lt _ _ later).trans (Graph.splitLeaf_page_first found.inside)⟩⟩
  · obtain ⟨still, kept⟩ := idxInsertParent_others wrote
      (fun step member => (found.path.inside step member).trans (Nat.lt_succ_self _))
      leaf later found.off_path
    exact ⟨still, items', inserted, Or.inr ⟨full,
      kept.trans (Graph.splitLeaf_page_first found.inside)⟩⟩

/-- The page above after the leaf page was split: the position noted there points to the left half
when there is still an item at it. -/
theorem Found.above_after (sound : Sound idx.graph labels) {record parent i : ℕ}
    {rest : List (ℕ × ℕ)} (climbs : above = (parent, i) :: rest) {g' : Graph Key ℕ}
    (full : maxItems idx.keylen ≤ (items.insertIdx pos (key, record)).length)
    (wrote : idxInsertLeaf idx key record leaf pos above = some g') :
    parent < g'.size ∧ ∃ pitems next, g'.page parent = .branch pitems next ∧
      (PointsOn idx.keylen idx.graph above → ∃ k, pitems[i]? = some (k, leaf)) ∧
      (¬ PointsOn idx.keylen idx.graph above → ¬ i < pitems.length) := by
  subst climbs
  obtain ⟨items', rfl, outcome⟩ := idxInsertLeaf_cases found.page wrote
  rcases outcome with ⟨room, _⟩ | ⟨_, split, rfl, ⟨empty, _⟩ | ⟨_, wrote⟩⟩
  · exact (not_lt.mpr full room).elim
  · cases empty
  · have inside := found.path.inside (parent, i) (List.mem_cons_self ..)
    have other : parent ≠ leaf := (found.off_path (parent, i) (List.mem_cons_self ..)).symm
    obtain ⟨pitems, next, page, pointed⟩ := found.path.pointed
    obtain ⟨olds, last, sep, pitems', next', page', linked, still, after⟩ := idxInsertParent_page
      wrote (fun step member => (found.path.inside step member).trans (Nat.lt_succ_self _))
      found.path.off_path
    cases page.symm.trans ((Graph.splitLeaf_page_of_ne inside other).symm.trans page')
    obtain ⟨present, length⟩ := link_position linked
      (sound.branch parent inside pitems next page).nodup pointed
    have position : i ≤ pitems.length := by
      have reached := (List.getElem?_eq_some_iff.mp present).1
      omega
    refine ⟨still, ?_⟩
    simp only [PointsOn, page, pageCount]
    rcases after with ⟨room, page''⟩ | ⟨full', page''⟩
    · refine ⟨pitems', next', page'', fun _ => ⟨sep, present⟩, fun ends => ?_⟩
      exact (ends (Or.inl (by omega))).elim
    · refine ⟨_, _, page'', fun points => ⟨sep, ?_⟩, fun ends => ?_⟩
      · rw [List.getElem?_take, if_pos (by omega)]
        exact present
      · rw [List.length_take]
        omega

/-- The position is one of the page, or its end. -/
theorem Found.pos_le : pos ≤ items.length := by
  obtain ⟨before, after, split, _, stopped, _⟩ := searchLeaf_spec key items 0
  rw [found.result] at stopped
  replace stopped : pos = 0 + before.length := stopped
  rw [split, List.length_append]
  omega

theorem Found.length_insert (record : ℕ) :
    (items.insertIdx pos (key, record)).length = items.length + 1 :=
  List.length_insertIdx_of_le_length found.pos_le _

theorem Found.getElem?_insert (record : ℕ) :
    (items.insertIdx pos (key, record))[pos]? = some (key, record) := by
  rw [List.getElem?_insertIdx_self, if_pos found.pos_le]

variable {record : ℕ} {g' : Graph Key ℕ} {labels' : Labels Key}
  (wrote : idxInsertLeaf idx key record leaf pos above = some g') (sound' : Sound g' labels')

include wrote sound'

/-- While the leaf page has room, the next step goes from the new entry. -/
theorem Found.steps_room (room : items.length + 1 < maxItems idx.keylen) :
    StepsFrom { idx with graph := g', path := (leaf, pos) :: above } (key, record) := by
  obtain ⟨inside, items', rfl, ⟨_, rfl⟩ | ⟨full, _⟩⟩ := found.leaf_after wrote
  · refine At.stepsFrom sound'
      ⟨rfl, inside, idx.graph.setPage_page_self .., found.getElem?_insert record, ?_⟩
    cases above with
    | nil => exact Or.inl ⟨rfl, found.path⟩
    | cons step rest =>
        obtain ⟨parent, i⟩ := step
        have other := found.off_path (parent, i) (List.mem_cons_self ..)
        obtain ⟨pitems, next, page, pointed⟩ := found.path.pointed
        exact Or.inr ⟨parent, i, rest, pitems, next, rfl,
          found.path.inside (parent, i) (List.mem_cons_self ..),
          (idx.graph.setPage_page_of_ne _ other.symm).trans page, pointed⟩
  · rw [found.length_insert] at full
    omega

omit sound' in
/-- The left half is left of a leaf page that is full. -/
theorem Found.left_half (full : maxItems idx.keylen ≤ items.length + 1) :
    ∃ left, g'.page leaf = .leaf left ∧ left.length = (items.length + 1) / 2 ∧
      ∀ j < (items.length + 1) / 2, left[j]? = (items.insertIdx pos (key, record))[j]? := by
  obtain ⟨_, items', rfl, ⟨room, _⟩ | ⟨_, page⟩⟩ := found.leaf_after wrote
  · rw [found.length_insert] at room
    omega
  · rw [found.length_insert] at page
    refine ⟨_, page, ?_, fun j smaller => ?_⟩
    · rw [List.length_take, found.length_insert]
      omega
    · rw [List.getElem?_take, if_pos smaller]

/-- Before the last item of the left half the next step goes from the new entry. -/
theorem Found.steps_before (full : maxItems idx.keylen ≤ items.length + 1)
    (before : pos + 1 < (items.length + 1) / 2) :
    StepsFrom { idx with graph := g', path := (leaf, pos) :: above } (key, record) := by
  obtain ⟨left, page, length, same⟩ := found.left_half wrote full
  have present : left[pos]? = some (key, record) :=
    (same pos (by omega)).trans (found.getElem?_insert record)
  have next := List.getElem?_eq_getElem (before.trans_eq length.symm)
  have sound'' :
      Sound ({ idx with graph := g', path := (leaf, pos) :: above } : Idx).graph labels' :=
    sound'
  obtain ⟨moved, successor⟩ :=
    idxNext_within sound'' rfl (found.leaf_after wrote).1 page present next
  refine ⟨⟨leaf, (found.leaf_after wrote).1, left, page, List.mem_of_getElem? present⟩,
    Or.inl ⟨_, _, moved, ?_, successor⟩⟩
  simp only [idxCurrent, page]
  exact next

/-- Behind it the next step goes from that item, when the page above points on. -/
theorem Found.steps_across (sound : Sound idx.graph labels) (capacity : 2 ≤ maxItems idx.keylen)
    (crosses : Crosses idx.keylen items.length pos)
    (points : PointsOn idx.keylen idx.graph above) :
    ∃ entry, (items.insertIdx pos (key, record))[(items.length + 1) / 2 - 1]? = some entry ∧
      StepsFrom { idx with graph := g', path := (leaf, pos) :: above } entry := by
  have full := crosses.1
  obtain ⟨left, page, length, same⟩ := found.left_half wrote full
  have inLeft : (items.length + 1) / 2 - 1 < left.length := by omega
  have last := List.getElem?_eq_getElem inLeft
  refine ⟨_, (same _ (by omega)).symm.trans last, ?_⟩
  cases above with
  | nil => exact points.elim
  | cons step rest =>
      obtain ⟨parent, i⟩ := step
      obtain ⟨below, pitems, next, ppage, pointed, _⟩ :=
        found.above_after sound rfl (by rw [found.length_insert]; exact full) wrote
      obtain ⟨k, pointed⟩ := pointed points
      have stays : At { idx with
          graph := g', path := (leaf, (items.length + 1) / 2 - 1) :: (parent, i) :: rest }
          leaf ((items.length + 1) / 2 - 1) left left[(items.length + 1) / 2 - 1]
          ((parent, i) :: rest) :=
        ⟨rfl, (found.leaf_after wrote).1, page, last,
          Or.inr ⟨parent, i, rest, pitems, next, rfl, below, ppage, Or.inl ⟨k, pointed⟩⟩⟩
      have steps := stays.stepsFrom (show Sound g' labels' from sound')
      rw [StepsFrom] at steps ⊢
      rw [idxNext_past { idx with graph := g' } (parent, i) rest page
        (length.trans_le crosses.2) (show left.length ≤ (items.length + 1) / 2 - 1 + 1 by omega)]
      exact steps

omit sound' in
/-- And the scan ends otherwise. -/
theorem Found.steps_end (sound : Sound idx.graph labels)
    (crosses : Crosses idx.keylen items.length pos)
    (points : ¬ PointsOn idx.keylen idx.graph above) :
    ∃ last, idxNext { idx with graph := g', path := (leaf, pos) :: above } =
        some (false, last) := by
  obtain ⟨left, page, length, _⟩ := found.left_half wrote crosses.1
  have past : ¬ pos + 1 < left.length := not_lt.mpr (length.trans_le crosses.2)
  cases above with
  | nil =>
      refine ⟨{ idx with graph := g', path := [(leaf, pos)] }, ?_⟩
      simp only [idxNext, page, pageCount, past, ↓reduceIte]
  | cons step rest =>
      obtain ⟨parent, i⟩ := step
      obtain ⟨_, pitems, next, ppage, _, ends⟩ :=
        found.above_after sound rfl (by rw [found.length_insert]; exact crosses.1) wrote
      refine ⟨{ idx with graph := g', path := (parent, i) :: rest }, ?_⟩
      simp only [idxNext, page, pageCount, past, ↓reduceIte, ppage, ends points]

end Write

/-- After a write the next step goes from the new entry; or, when the leaf page was split and the
position is no more before the last item of the left half, from that item, if the page above points
on, and ends otherwise. -/
theorem idxNext_after_write {idx idx' : Idx} {labels labels' : Labels Key} {key : Key} {record : ℕ}
    (sound : Sound idx.graph labels) (capacity : 2 ≤ maxItems idx.keylen)
    (wrote : idxWrite idx key record = some idx') (sound' : Sound idx'.graph labels') :
    ∃ order leaf pos above items, idxSearch idx key = some (order, (leaf, pos) :: above) ∧
      idx.graph.page leaf = .leaf items ∧ pos ≤ items.length ∧
      ((¬ Crosses idx.keylen items.length pos ∧ StepsFrom idx' (key, record)) ∨
        (Crosses idx.keylen items.length pos ∧ PointsOn idx.keylen idx.graph above ∧
          ∃ entry, (items.insertIdx pos (key, record))[(items.length + 1) / 2 - 1]? = some entry ∧
            StepsFrom idx' entry) ∨
        (Crosses idx.keylen items.length pos ∧ ¬ PointsOn idx.keylen idx.graph above ∧
          ∃ last, idxNext idx' = some (false, last))) := by
  obtain ⟨order, leaf, pos, above, items, searched, found⟩ := idxSearch_spec sound key
  have inserted : ∃ g', idxInsertLeaf idx key record leaf pos above = some g' ∧
      idx' = { idx with graph := g', path := (leaf, pos) :: above } := by
    rw [idxWrite, searched] at wrote
    dsimp only at wrote
    split at wrote
    · cases wrote
    · obtain ⟨g', inserted, rfl⟩ := Option.map_eq_some_iff.mp wrote
      exact ⟨g', inserted, rfl⟩
  obtain ⟨g', inserted, rfl⟩ := inserted
  refine ⟨order, leaf, pos, above, items, searched, found.page, found.pos_le, ?_⟩
  by_cases crosses : Crosses idx.keylen items.length pos
  · by_cases points : PointsOn idx.keylen idx.graph above
    · exact Or.inr (Or.inl ⟨crosses, points,
        found.steps_across inserted sound' sound capacity crosses points⟩)
    · exact Or.inr (Or.inr ⟨crosses, points, found.steps_end inserted sound crosses points⟩)
  · refine Or.inl ⟨crosses, ?_⟩
    by_cases full : maxItems idx.keylen ≤ items.length + 1
    · have before : pos + 1 < (items.length + 1) / 2 := by
        by_contra beyond
        exact crosses ⟨full, not_lt.mp beyond⟩
      exact found.steps_before inserted sound' full before
    · exact found.steps_room inserted sound' (not_le.mp full)

/-! ## Scans -/

/-- A scan of the primary index of a file: START, then READ NEXT any number of times, with the file
and the last record returned. -/
inductive FileScan (filename : String) (reclen : ℕ) (keys : List (List (ℕ × ℕ))) :
    Hdr → List Byte → Prop where
  | started {hdr hdr' : Hdr} {probe area : List Byte} :
      FileRun filename reclen keys (fun _ _ => True) hdr → probe.length = reclen →
      memfhStart hdr probe 0 = some (true, hdr', area) → FileScan filename reclen keys hdr' area
  | next {hdr hdr' : Hdr} {last record area : List Byte} : FileScan filename reclen keys hdr last →
      record.length = reclen → memfhNext hdr record 0 = some (true, hdr', area) →
      FileScan filename reclen keys hdr' area

/-- The record with the smallest primary key greater than that of another. -/
structure RecordAfter (hdr : Hdr) (last next : List Byte) : Prop where
  stored : next ∈ hdr.data
  larger : mountKey (hdr.comps 0) last < mountKey (hdr.comps 0) next
  least : ∀ other ∈ hdr.data, mountKey (hdr.comps 0) last < mountKey (hdr.comps 0) other →
    mountKey (hdr.comps 0) next ≤ mountKey (hdr.comps 0) other

/-- The next READ NEXT goes on from a record: it returns the one after it, or false just when there
is none. -/
def ReadsNext (hdr : Hdr) (last : List Byte) : Prop :=
  ∀ record : List Byte, record.length = hdr.reclen → ∃ returned hdr' area,
    memfhNext hdr record 0 = some (returned, hdr', area) ∧
    (returned = true → RecordAfter hdr last area) ∧
    (returned = false ↔ ∀ other ∈ hdr.data,
      ¬ mountKey (hdr.comps 0) last < mountKey (hdr.comps 0) other)

/-- A WRITE whose search ended at a position of a leaf page leaves the scan where it was. The record
fills the page, and the position is no more before the last item of the left half. If the page above
points on, that item is the last record read, and the new record follows it; if not, the last record
read is the last of the file, and stays so. -/
def StaysAt (hdr : Hdr) (g : Graph Key ℕ) (pos : ℕ) (above : List (ℕ × ℕ))
    (items : List (Key × ℕ)) (record last : List Byte) : Prop :=
  Crosses (keyLength (hdr.comps 0)) items.length pos ∧
    ((PointsOn (keyLength (hdr.comps 0)) g above ∧ (items.length + 1) / 2 ≤ pos ∧
        (items[(items.length + 1) / 2 - 1]?).map Prod.fst = some (mountKey (hdr.comps 0) last)) ∨
      (¬ PointsOn (keyLength (hdr.comps 0)) g above ∧
        mountKey (hdr.comps 0) record < mountKey (hdr.comps 0) last ∧
        ∀ other ∈ hdr.data, ¬ mountKey (hdr.comps 0) last < mountKey (hdr.comps 0) other))

/-- The WRITE leaves the scan where it was, from the state before. -/
def LeavesScan (hdr : Hdr) (record last : List Byte) : Prop :=
  ∃ idx order leaf pos above items, hdr.idx 0 = some idx ∧
    idxSearch idx (mountKey (hdr.comps 0) record) = some (order, (leaf, pos) :: above) ∧
    idx.graph.page leaf = .leaf items ∧ StaysAt hdr idx.graph pos above items record last

theorem leavesScan_iff {hdr : Hdr} {record last : List Byte} {idx : Idx} {order : Ordering}
    {leaf pos : ℕ} {above : List (ℕ × ℕ)} {items : List (Key × ℕ)} (there : hdr.idx 0 = some idx)
    (searched : idxSearch idx (mountKey (hdr.comps 0) record) = some (order, (leaf, pos) :: above))
    (page : idx.graph.page leaf = .leaf items) :
    LeavesScan hdr record last ↔ StaysAt hdr idx.graph pos above items record last := by
  constructor
  · rintro ⟨_, _, _, _, _, _, there', searched', page', stays⟩
    cases there.symm.trans there'
    cases searched.symm.trans searched'
    cases page.symm.trans page'
    exact stays
  · intro stays
    exact ⟨idx, order, leaf, pos, above, items, there, searched, page, stays⟩

/-! ## Where a scan stands -/

section Primary

variable {hdr : Hdr} {idx : Idx} {labels : Labels Key} (primary : PrimarySound hdr idx labels)

include primary

theorem PrimarySound.stored {entry : Key × ℕ} (held : idx.graph.Holds entry) :
    ∃ stored, hdr.data[entry.2]? = some stored ∧ entry.1 = mountKey (hdr.comps 0) stored :=
  (primary.holds_iff entry.1 entry.2).mp held

theorem PrimarySound.held {record : List Byte} (member : record ∈ hdr.data) :
    ∃ pointer, idx.graph.Holds (mountKey (hdr.comps 0) record, pointer) := by
  obtain ⟨pointer, present⟩ := List.getElem?_of_mem member
  exact ⟨pointer, (primary.holds_iff _ _).mpr ⟨record, present, rfl⟩⟩

/-- The record copied for an entry is the record of that key. -/
theorem PrimarySound.copied (ok : FileOk hdr) {entry : Key × ℕ} (held : idx.graph.Holds entry)
    {record : List Byte} (whole : record.length = hdr.reclen) :
    hdr.copied entry.2 record ∈ hdr.data ∧
      mountKey (hdr.comps 0) (hdr.copied entry.2 record) = entry.1 := by
  obtain ⟨stored, present, key⟩ := primary.stored held
  have member := List.mem_of_getElem? present
  rw [Hdr.copied_eq present (ok.whole stored member) whole]
  exact ⟨member, key.symm⟩

end Primary

/-- A search that does not run to the end of its page stops at an entry. -/
theorem Found.exists_entry {g : Graph Key ℕ} {labels : Labels Key} {key : Key} {order : Ordering}
    {leaf pos : ℕ} {above : List (ℕ × ℕ)} {items : List (Key × ℕ)}
    (found : Found g labels key order leaf pos above items) (stopped : order ≠ .gt) :
    ∃ entry, items[pos]? = some entry := by
  obtain ⟨before, after, split, smaller, position, _⟩ := searchLeaf_spec key items 0
  rw [found.result] at position
  replace position : pos = 0 + before.length := position
  cases after with
  | nil =>
      rw [List.append_nil] at split
      have ran := (searchLeaf_gt key items 0).mpr (split ▸ smaller)
      rw [found.result] at ran
      exact (stopped ran).elim
  | cons entry rest => exact ⟨entry, by rw [position, split]; simp⟩

/-- During a scan the position is one of a walk, and the last record returned is in the file. -/
theorem FileScan.stands {filename : String} {reclen : ℕ} {keys : List (List (ℕ × ℕ))}
    (short : ∀ comps ∈ keys, keyLength comps ≤ 256) {hdr : Hdr} {last : List Byte}
    (scan : FileScan filename reclen keys hdr last) :
    FileRun filename reclen keys (fun _ _ => True) hdr ∧ last ∈ hdr.data ∧
      ∃ idx leaf pos items entry above, hdr.idx 0 = some idx ∧
        At idx leaf pos items entry above := by
  induction scan with
  | @started hdr hdr' probe area run whole started =>
      obtain ⟨ok, _, sameReclen⟩ := run.ok short
      obtain ⟨idx, labels, primary⟩ := ok.primary
      have applied : (FileOp.start probe 0).apply hdr = some hdr' := by
        simp only [FileOp.apply, started, Option.map_some]
      have run' :=
        run.called (show (FileOp.start probe 0).record.length = reclen from whole) trivial
        applied
      obtain ⟨indexed, idx', order, path, made, there, searched, rfl, outcome⟩ :=
        memfhStart_cases started
      obtain rfl : hdr = indexed := Option.some.inj made
      obtain rfl : idx = idx' := Option.some.inj (primary.idx_eq.symm.trans there)
      obtain ⟨order', leaf, pos, above, items, searched', found⟩ :=
        idxSearch_spec primary.sound (mountKey (hdr.comps 0) probe)
      cases searched.symm.trans searched'
      rcases outcome with ⟨_, refused, _⟩ | ⟨stopped, _, first, start, rfl⟩
      · cases refused
      · obtain ⟨entry, present⟩ := found.exists_entry stopped
        have held : idx.graph.Holds first := by
          simp only [List.head?_cons, Option.bind_some, found.page, firstEntry] at start
          exact ⟨leaf, found.inside, items, found.page, List.mem_of_head? start⟩
        exact ⟨run', (primary.copied ok held (whole.trans sameReclen.symm)).1, _, leaf, pos, items,
          entry, above, hdr.setIdx_self 0 _, found.place present⟩
  | @next hdr hdr' last record area scan whole moved ih =>
      obtain ⟨run, _, idx, leaf, pos, items, entry, above, there, here⟩ := ih
      obtain ⟨ok, _, sameReclen⟩ := run.ok short
      obtain ⟨idx', labels, primary⟩ := ok.primary
      obtain rfl : idx = idx' := Option.some.inj (there.symm.trans primary.idx_eq)
      have applied : (FileOp.next record 0).apply hdr = some hdr' := by
        simp only [FileOp.apply, moved, Option.map_some]
      have run' :=
        run.called (show (FileOp.next record 0).record.length = reclen from whole) trivial
        applied
      rcases idxNext_spec primary.sound here with
        ⟨idx', leaf', pos', items', entry', above', stepped, _, there', successor⟩ | ⟨_, ended, _⟩
      · simp only [memfhNext, there, stepped, there'.current, Option.map_some] at moved
        cases moved
        exact ⟨run', (primary.copied ok successor.held (whole.trans sameReclen.symm)).1, idx',
          leaf',
          pos', items', entry', above', hdr.setIdx_self 0 _, there'⟩
      · simp only [memfhNext, there, ended] at moved
        cases moved

/-! ## What a scan goes on with -/

section Goes

variable {hdr : Hdr} {idx : Idx} {labels : Labels Key} (primary : PrimarySound hdr idx labels)
  {last : List Byte}

include primary

/-- A scan that ends was to end when its last record is the last of the file. -/
theorem readsNext_of_ended {idx' : Idx} (ended : idxNext idx = some (false, idx')) :
    ReadsNext hdr last ↔ ∀ other ∈ hdr.data,
      ¬ mountKey (hdr.comps 0) last < mountKey (hdr.comps 0) other := by
  have next : ∀ record, memfhNext hdr record 0 = some (false, hdr.setIdx 0 idx', record) := by
    intro record
    simp only [memfhNext, primary.idx_eq, ended]
  constructor
  · intro reads
    obtain ⟨returned, hdr', area, stepped, _, ends⟩ :=
      reads (List.replicate hdr.reclen 0) List.length_replicate
    rw [next] at stepped
    cases stepped
    exact ends.mp rfl
  · intro none record _
    refine ⟨false, _, _, next record, fun returned => ?_, fun _ => none, fun _ => rfl⟩
    cases returned

/-- A scan whose next step goes from an entry goes on from the record with its key. -/
theorem readsNext_of_stepsFrom (ok : FileOk hdr) {entry : Key × ℕ} (steps : StepsFrom idx entry)
    (member : last ∈ hdr.data) :
    ReadsNext hdr last ↔ entry.1 = mountKey (hdr.comps 0) last := by
  obtain ⟨held, steps⟩ := steps
  obtain ⟨pointer, heldLast⟩ := primary.held member
  obtain ⟨stored, present, key⟩ := primary.stored held
  have storedMember := List.mem_of_getElem? present
  rcases steps with ⟨idx', entry', moved, current, successor⟩ | ⟨idx', ended, none⟩
  · have next : ∀ record, memfhNext hdr record 0 =
        some (true, hdr.setIdx 0 idx', hdr.copied entry'.2 record) := by
      intro record
      simp only [memfhNext, primary.idx_eq, moved, current, Option.map_some]
    constructor
    · intro reads
      obtain ⟨returned, hdr', area, stepped, after, _⟩ :=
        reads (List.replicate hdr.reclen 0) List.length_replicate
      rw [next] at stepped
      cases stepped
      obtain ⟨_, larger, least⟩ := after rfl
      rw [(primary.copied ok successor.held List.length_replicate).2] at larger least
      rcases lt_trichotomy entry.1 (mountKey (hdr.comps 0) last) with smaller | same | above
      · exact (successor.least _ heldLast smaller larger).elim
      · exact same
      · have notAbove := least stored storedMember (key ▸ above)
        exact (not_lt.mpr (key ▸ notAbove) successor.larger).elim
    · intro same record whole
      obtain ⟨copied, key'⟩ := primary.copied ok successor.held whole
      refine ⟨true, _, _, next record, fun _ => ⟨copied, ?_, ?_⟩, fun returned => ?_,
        fun none => ?_⟩
      · rw [key', ← same]
        exact successor.larger
      · intro other otherMember above
        obtain ⟨pointer', heldOther⟩ := primary.held otherMember
        rw [key']
        exact not_lt.mp (successor.least _ heldOther (same ▸ above))
      · cases returned
      · have larger := successor.larger
        rw [same, ← key'] at larger
        exact (none _ copied larger).elim
  · rw [readsNext_of_ended primary ended]
    constructor
    · intro last
      have noneStored := last stored storedMember
      rw [← key] at noneStored
      exact le_antisymm (not_lt.mp noneStored) (not_lt.mp (none _ heldLast))
    · intro same other otherMember above
      obtain ⟨pointer', heldOther⟩ := primary.held otherMember
      exact none _ heldOther (same ▸ above)

end Goes

/-- Of the list with the new entry, the place before or at the new entry. -/
theorem getElem?_insert_before {items : List (Key × ℕ)} {entry : Key × ℕ} {pos j : ℕ}
    (position : pos ≤ items.length) (before : j ≤ pos) :
    (items.insertIdx pos entry)[j]? = if j < pos then items[j]? else some entry := by
  rcases Nat.lt_or_eq_of_le before with smaller | rfl
  · rw [if_pos smaller, List.getElem?_insertIdx_of_lt smaller]
  · rw [if_neg (lt_irrefl _), List.getElem?_insertIdx_self, if_pos position]

/-- After a WRITE of a new primary key during a scan, the next READ NEXT returns the record with the
smallest primary key greater than that of the last record returned, or the end of the file just when
there is none, if and only if the write leaves the scan where it was. -/
theorem readsNext_iff {filename : String} {reclen : ℕ} {keys : List (List (ℕ × ℕ))}
    (short : ∀ comps ∈ keys, keyLength comps ≤ 256) {hdr hdr' : Hdr} {last record : List Byte}
    (scan : FileScan filename reclen keys hdr last) (whole : record.length = reclen)
    (wrote : memfhWrite hdr record = some hdr') :
    ReadsNext hdr' last ↔ LeavesScan hdr record last := by
  obtain ⟨run, member, _⟩ := scan.stands short
  obtain ⟨ok, _, sameReclen⟩ := run.ok short
  obtain ⟨idx, labels, primary⟩ := ok.primary
  have fresh := memfhWrite_fresh primary wrote
  obtain ⟨made, idx', labels', written, primary', _, keys', data⟩ :=
    memfhWrite_sound primary (ok.short 0) (whole.trans sameReclen.symm) fresh
  obtain rfl : hdr' = made := Option.some.inj (wrote.symm.trans written)
  have run' :=
    run.called (show (FileOp.write record).record.length = reclen from whole) trivial wrote
  have ok' := (run'.ok short).1
  have comps : hdr'.comps 0 = hdr.comps 0 := by simp only [Hdr.comps, keys']
  have member' : last ∈ hdr'.data := by rw [data]; exact List.mem_append_left _ member
  have other := fresh last member
  have inserted : idxWrite { idx with keylen := keyLength (hdr.comps 0) }
      (mountKey (hdr.comps 0) record) hdr.data.length = some idx' := by
    simp only [memfhWrite, primary.idx_eq] at wrote
    obtain ⟨stored, inserted, rfl⟩ := Option.map_eq_some_iff.mp wrote
    rw [inserted, ← primary'.idx_eq, Hdr.setIdx_self]
  have sound : Sound ({ idx with keylen := keyLength (hdr.comps 0) } : Idx).graph labels :=
    primary.sound
  have capacity := two_le_maxItems (ok.short 0)
  obtain ⟨order, leaf, pos, above, items, searched, page, position, outcome⟩ :=
    idxNext_after_write sound capacity inserted primary'.sound
  rw [leavesScan_iff primary.idx_eq searched page, StaysAt]
  rcases outcome with ⟨crosses, steps⟩ | ⟨crosses, points, entry, present, steps⟩ |
    ⟨crosses, points, last', ended⟩
  · rw [readsNext_of_stepsFrom primary' ok' steps member', comps]
    exact ⟨fun same => (other same.symm).elim, fun leaves => (crosses leaves.1).elim⟩
  · rw [readsNext_of_stepsFrom primary' ok' steps member', comps]
    have full : maxItems (keyLength (hdr.comps 0)) ≤ items.length + 1 := crosses.1
    have reached : (items.length + 1) / 2 - 1 ≤ pos := by
      have crossed := crosses.2
      omega
    rw [getElem?_insert_before position reached] at present
    constructor
    · intro same
      split at present
      · exact ⟨crosses, Or.inl ⟨points, by omega, by rw [present, ← same]; rfl⟩⟩
      · cases present
        exact (other same.symm).elim
    · rintro ⟨_, ⟨_, beyond, stays⟩ | ⟨none, _⟩⟩
      · rw [if_pos (by omega)] at present
        rw [present] at stays
        exact Option.some.inj stays
      · exact (none points).elim
  · rw [readsNext_of_ended primary' ended, comps, data]
    constructor
    · intro none
      have notAbove := none record (List.mem_append_right _ (List.mem_singleton_self _))
      refine ⟨crosses, Or.inr ⟨points, lt_of_le_of_ne (not_lt.mp notAbove) (Ne.symm other), ?_⟩⟩
      exact fun stored inFile => none stored (List.mem_append_left _ inFile)
    · rintro ⟨_, ⟨goes, _⟩ | ⟨_, below, none⟩⟩
      · exact (points goes).elim
      · intro stored inFile
        rcases List.mem_append.mp inFile with old | new
        · exact none stored old
        · rw [List.mem_singleton.mp new]
          exact lt_asymm below

/-- A file of records of one byte with the records 1, 2 and 4: a scan has read 1 and 2 when 3 is
written, and READ NEXT returns 4. -/
theorem exists_scan_passing :
    ∃ hdr hdr', FileScan "f" 1 [[(0, 1)]] hdr [2] ∧ memfhWrite hdr [3] = some hdr' ∧
      (memfhNext hdr' [0] 0).map (fun result => (result.1, result.2.2)) = some (true, [4]) := by
  obtain ⟨opened, applied, rest⟩ := Option.bind_eq_some_iff.mp (by decide +kernel :
    ((FileOp.applyAll (memfhOpen "f" 1 [[(0, 1)]]) [.write [1], .write [2], .write [4]]).bind
      fun hdr => (memfhStart hdr [1] 0).bind fun started =>
        (memfhNext started.2.1 [0] 0).bind fun moved => (memfhWrite moved.2.1 [3]).bind
          fun written => (memfhNext written [0] 0).map fun result =>
            (started.1, moved.1, moved.2.2, result.1, result.2.2)) =
      some (true, true, [2], true, [4]))
  obtain ⟨⟨found, hdr, first⟩, started, rest⟩ := Option.bind_eq_some_iff.mp rest
  obtain ⟨⟨moved, hdr', second⟩, next, rest⟩ := Option.bind_eq_some_iff.mp rest
  obtain ⟨written, wrote, rest⟩ := Option.bind_eq_some_iff.mp rest
  obtain ⟨⟨returned, hdr'', area⟩, last, same⟩ := Option.map_eq_some_iff.mp rest
  cases same
  have run : FileRun "f" 1 [[(0, 1)]] (fun _ _ => True) opened :=
    FileRun.applyAll _ .opened (by decide) applied
  have scan : FileScan "f" 1 [[(0, 1)]] hdr' [2] :=
    .next (.started run (by decide : ([1] : List Byte).length = 1) started)
      (by decide : ([0] : List Byte).length = 1) next
  exact ⟨hdr', written, scan, wrote, by rw [last]; rfl⟩

/-- A scan that stands on a record goes on to the record written behind it. -/
theorem readsNext_iff_passing : ∃ hdr hdr', FileScan "f" 1 [[(0, 1)]] hdr [2] ∧
    memfhWrite hdr [3] = some hdr' ∧ (ReadsNext hdr' [2] ↔ LeavesScan hdr [3] [2]) := by
  obtain ⟨hdr, hdr', scan, wrote, _⟩ := exists_scan_passing
  exact ⟨hdr, hdr', scan, wrote, readsNext_iff (by decide) scan rfl wrote⟩

/-- The scan passes over the record written. -/
theorem readsNext_passes :
    ¬ ∀ (filename : String) (reclen : ℕ) (keys : List (List (ℕ × ℕ))),
      (∀ comps ∈ keys, keyLength comps ≤ 256) → ∀ (hdr hdr' : Hdr) (last record : List Byte),
        FileScan filename reclen keys hdr last → record.length = reclen →
        memfhWrite hdr record = some hdr' → ReadsNext hdr' last := by
  intro claimed
  obtain ⟨hdr, hdr', scan, wrote, next⟩ := exists_scan_passing
  obtain ⟨run, _⟩ := scan.stands (by decide)
  obtain ⟨ok, keys, reclen⟩ := run.ok (by decide)
  have run' := run.called (show (FileOp.write [3]).record.length = 1 from rfl) trivial wrote
  obtain ⟨_, keys', reclen'⟩ := run'.ok (by decide)
  obtain ⟨returned, hdr'', area, stepped, after, _⟩ :=
    claimed "f" 1 [[(0, 1)]] (by decide) hdr hdr' [2] [3] scan rfl wrote [0] reclen'.symm
  rw [stepped] at next
  cases next
  obtain ⟨idx, labels, primary⟩ := ok.primary
  obtain ⟨made, idx', labels', written, _, _, _, data⟩ := memfhWrite_sound primary (ok.short 0)
    (show ([3] : List Byte).length = hdr.reclen from reclen.symm) (memfhWrite_fresh primary wrote)
  obtain rfl : hdr' = made := Option.some.inj (wrote.symm.trans written)
  have comps : hdr'.comps 0 = [(0, 1)] := by rw [Hdr.comps, keys']; rfl
  have least := (after rfl).least [3] (by rw [data]; simp)
  rw [comps] at least
  exact absurd (least (by decide)) (by decide)

end Pqfh.Memfh
