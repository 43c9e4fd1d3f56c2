import Pqfh.Memfh.Runs

/-! # Records that an in-memory file delivers

The indexes of a file hold pointers to records of the file, whether they are current or not, and the
records have the length of the file. So a call that finds a record leaves one of the file in the
record area: `memfh_read`, `memfh_start` and `memfh_next` by copying it there, `memfh_write` and a
rewrite by taking it from there.
-/

namespace Pqfh.Memfh

open SearchGraph

/-! ## Pointers of an index -/

/-- The pointers of all pages are below a bound. -/
abbrev PointersBelow (n : ℕ) (g : Graph Key ℕ) : Prop := g.Every fun entry => entry.2 < n

/-- Pointers below a bound are below a greater one. -/
theorem pointersBelow_mono {few many : ℕ} {g : Graph Key ℕ} (below : PointersBelow few g)
    (more : few ≤ many) : PointersBelow many g :=
  below.weaken fun _ bound => bound.trans_le more

/-- The entry on which an index stands points below the bound. -/
theorem idxCurrent_below {n : ℕ} {idx : Idx} (below : PointersBelow n idx.graph)
    {entry : Key × ℕ} (current : idxCurrent idx = some entry) : entry.2 < n := by
  unfold idxCurrent at current
  split at current
  · cases current
  · split at current
    · exact below _ _ ‹_› _ (List.mem_of_getElem? current)
    · cases current

/-- The first entry of a page points below the bound. -/
theorem firstEntry_below {n : ℕ} {g : Graph Key ℕ} (below : PointersBelow n g) {p : ℕ}
    {entry : Key × ℕ} (first : firstEntry (g.page p) = some entry) : entry.2 < n := by
  cases page : g.page p with
  | leaf items =>
      rw [page] at first
      exact below p items page entry (List.mem_of_mem_head? first)
  | branch items next =>
      rw [page] at first
      cases first

/-- Splitting pages up to the root brings no pointer beyond the bound. -/
theorem idxInsertParent_below {n keylen : ℕ} :
    ∀ (path : List (ℕ × ℕ)) {g g' : Graph Key ℕ} {first second : ℕ}, PointersBelow n g →
      idxInsertParent keylen g path first second = some g' → PointersBelow n g' := by
  intro path
  induction path with
  | nil =>
      intro g g' first second _ inserted
      cases inserted
  | cons step above ih =>
      intro g g' first second below inserted
      obtain ⟨parent, pos⟩ := step
      simp only [idxInsertParent] at inserted
      split at inserted
      · split at inserted
        · cases inserted
        · split at inserted
          · cases inserted
            exact below.setPage (fun _ same => by cases same) parent
          · split at inserted
            · cases inserted
              exact (below.splitBranch parent _ _ _).newRoot _ _ _
            · cases inserted
            · exact ih (below.splitBranch parent _ _ _) inserted
      · cases inserted

/-- An entry put into a leaf brings its own pointer alone. -/
theorem idxInsertLeaf_below {n : ℕ} {idx : Idx} {key : Key} {record leaf pos : ℕ}
    {above : List (ℕ × ℕ)} {g : Graph Key ℕ} (below : PointersBelow n idx.graph)
    (inside : record < n) (inserted : idxInsertLeaf idx key record leaf pos above = some g) :
    PointersBelow n g := by
  unfold idxInsertLeaf at inserted
  split at inserted
  · rename_i items page
    have fits : ∀ entry ∈ items.insertIdx pos (key, record), entry.2 < n := by
      intro entry member
      rcases List.eq_or_mem_of_mem_insertIdx member with rfl | old
      · exact inside
      · exact below leaf items page entry old
    dsimp only at inserted
    split at inserted
    · cases inserted
      refine below.setPage ?_ leaf
      intro all same
      cases same
      exact fits
    · have halves : PointersBelow n (idx.graph.splitLeaf leaf
          ((items.insertIdx pos (key, record)).take
          ((items.insertIdx pos (key, record)).length / 2))
          ((items.insertIdx pos (key, record)).drop
          ((items.insertIdx pos (key, record)).length / 2))) :=
        below.splitLeaf (by rw [List.take_append_drop]; exact fits) leaf
      split at inserted
      · cases inserted
        exact halves.newRoot _ _ _
      · cases inserted
      · exact idxInsertParent_below _ halves inserted
  · cases inserted

/-- A write brings its own pointer alone. -/
theorem idxWrite_below {n : ℕ} {idx idx' : Idx} {key : Key} {record : ℕ}
    (below : PointersBelow n idx.graph) (inside : record < n)
    (wrote : idxWrite idx key record = some idx') : PointersBelow n idx'.graph := by
  unfold idxWrite at wrote
  split at wrote
  · split at wrote
    · cases wrote
    · obtain ⟨g, inserted, rfl⟩ := Option.map_eq_some_iff.mp wrote
      exact idxInsertLeaf_below below inside inserted
  · cases wrote

/-- An index that is made points where the primary one does. -/
theorem createLoop_below {n k : ℕ} {hdr : Hdr} :
    ∀ (fuel : ℕ) {idx0 idx : Idx} {pair : Idx × Idx}, PointersBelow n idx0.graph →
      PointersBelow n idx.graph → createLoop hdr k fuel idx0 idx = some pair →
      PointersBelow n pair.1.graph ∧ PointersBelow n pair.2.graph := by
  intro fuel
  induction fuel with
  | zero =>
      intro idx0 idx pair _ _ looped
      cases looped
  | succ fuel ih =>
      intro idx0 idx pair below0 below looped
      simp only [createLoop] at looped
      split at looped
      · cases looped
      · rename_i key pointer current
        split at looped
        · cases looped
        · rename_i wrote
          have written := idxWrite_below below (idxCurrent_below below0 current) wrote
          split at looped
          · cases looped
          · rename_i ended
            cases looped
            rw [idxNext_graph ended]
            exact ⟨below0, written⟩
          · rename_i moved
            exact ih (by rw [idxNext_graph moved]; exact below0) written looped

/-! ## Files -/

/-- The records have the length of the file, and the indexes point to them. -/
structure Filed (hdr : Hdr) : Prop where
  whole : ∀ record ∈ hdr.data, record.length = hdr.reclen
  within : ∀ k idx, hdr.idx k = some idx → PointersBelow hdr.data.length idx.graph

/-- A file that was opened is in order. -/
theorem memfhOpen_filed (filename : String) (reclen : ℕ) (keys : List (List (ℕ × ℕ))) :
    Filed (memfhOpen filename reclen keys) := by
  refine ⟨by simp [memfhOpen], ?_⟩
  intro k idx there p items page entry member
  simp only [memfhOpen] at there
  split at there
  · cases there
    cases page
    cases member
  · cases there

/-- A file stays in order when an index points to its records. -/
theorem Filed.setIdx {hdr : Hdr} (filed : Filed hdr) {k : ℕ} {idx : Idx}
    (below : PointersBelow hdr.data.length idx.graph) : Filed (hdr.setIdx k idx) := by
  refine ⟨filed.whole, ?_⟩
  intro j other there
  by_cases same : j = k
  · subst same
    simp only [Hdr.setIdx, Function.update_self, Option.some.injEq] at there
    subst there
    exact below
  · simp only [Hdr.setIdx, Function.update_of_ne same] at there
    exact filed.within j other there

/-- A record that was copied to a record area of its length. -/
theorem Filed.copied {hdr : Hdr} (filed : Filed hdr) {pointer : ℕ}
    (inside : pointer < hdr.data.length)
    {record : List Byte} (size : record.length = hdr.reclen) :
    hdr.copied pointer record ∈ hdr.data := by
  have stored : hdr.data.getD pointer [] = hdr.data[pointer] := by
    rw [List.getD_eq_getElem?_getD, List.getElem?_eq_getElem inside, Option.getD_some]
  have whole := filed.whole _ (List.getElem_mem inside)
  rw [Hdr.copied, stored, ← size, List.drop_length, List.append_nil, size, ← whole,
    List.take_length]
  exact List.getElem_mem inside

/-- What a call leaves: a file with the records' length as before, and in the record area, when the
call found a record, one of its records. -/
structure Delivered (hdr hdr' : Hdr) (found : Bool) (area : List Byte) : Prop where
  filed : Filed hdr'
  reclen : hdr'.reclen = hdr.reclen
  size : area.length = hdr.reclen
  record : found = true → area ∈ hdr'.data

/-- WRITE delivers, and leaves the file in order. -/
theorem memfhWrite_delivered {hdr hdr' : Hdr} (filed : Filed hdr) {record : List Byte}
    (size : record.length = hdr.reclen) (wrote : memfhWrite hdr record = some hdr') :
    Delivered hdr hdr' true record := by
  unfold memfhWrite at wrote
  split at wrote
  · cases wrote
  · rename_i idx there
    obtain ⟨idx', written, rfl⟩ := Option.map_eq_some_iff.mp wrote
    have full : record.take hdr.reclen = record := by rw [← size, List.take_length]
    rw [full]
    have longer : hdr.data.length < (hdr.data ++ [record]).length := by simp
    have appended : Filed { hdr with data := hdr.data ++ [record] } := by
      refine ⟨?_,
        fun k other present => pointersBelow_mono (filed.within k other present) longer.le⟩
      intro other member
      rcases List.mem_append.mp member with old | new
      · exact filed.whole other old
      · rw [List.mem_singleton.mp new]
        exact size
    refine ⟨appended.setIdx ?_, rfl, size, fun _ => by simp⟩
    exact idxWrite_below (by exact pointersBelow_mono (filed.within 0 idx there) longer.le) longer
      written

/-- READ delivers, and leaves the file in order. -/
theorem memfhRead_delivered {hdr hdr' : Hdr} (filed : Filed hdr) {record area : List Byte}
    {update found : Bool} (size : record.length = hdr.reclen)
    (read : memfhRead hdr record update = some (found, hdr', area)) :
    Delivered hdr hdr' found area := by
  unfold memfhRead at read
  split at read
  · cases read
  · rename_i idx there
    have below := filed.within 0 idx there
    split at read
    · cases read
    · rename_i order path searched
      have moved : Filed (hdr.setIdx 0 { idx with path := path }) := filed.setIdx below
      dsimp only at read
      split at read
      · cases read
        exact ⟨moved, rfl, size, nofun⟩
      · split at read
        · cases read
        · rename_i key pointer current
          have inside : pointer < hdr.data.length :=
            idxCurrent_below (by exact below) current
          split at read
          · split at read
            · cases read
            · cases read
              have full : record.take hdr.reclen = record := by rw [← size, List.take_length]
              rw [Hdr.setIdx_reclen, Hdr.setIdx_data, full]
              refine ⟨⟨?_, ?_⟩, rfl, size, fun _ => List.mem_set inside record⟩
              · intro other member
                rcases List.mem_or_eq_of_mem_set member with old | rfl
                · exact filed.whole other old
                · exact size
              · intro k other present
                rw [List.length_set]
                exact moved.within k other present
          · cases read
            have copied := moved.copied inside size
            exact ⟨moved, rfl, moved.whole _ copied, fun _ => copied⟩

/-- A file stays in order when an index is made. -/
theorem withIndex_filed {hdr indexed : Hdr} (filed : Filed hdr) {k : ℕ}
    (made : withIndex hdr k = some indexed) : Filed indexed ∧ indexed.reclen = hdr.reclen := by
  unfold withIndex at made
  split at made
  · have empty : PointersBelow hdr.data.length (Idx.empty (keyLength (hdr.comps k))).graph := by
      intro p items page entry member
      cases page
      cases member
    unfold memfhIdxCreate at made
    split at made
    · cases made
    · rename_i idx0 there
      have below := filed.within 0 idx0 there
      split at made
      · cases made
      · rename_i ended
        cases made
        exact ⟨(filed.setIdx (by rw [idxFirst_graph ended]; exact below)).setIdx empty, rfl⟩
      · rename_i moved
        obtain ⟨pair, looped, rfl⟩ := Option.map_eq_some_iff.mp made
        obtain ⟨walked, built⟩ := createLoop_below _ (by rw [idxFirst_graph moved]; exact below)
          empty looped
        exact ⟨(filed.setIdx walked).setIdx built, rfl⟩
  · cases made
    exact ⟨filed, rfl⟩

/-- START delivers, and leaves the file in order. -/
theorem memfhStart_delivered {hdr hdr' : Hdr} (filed : Filed hdr) {record area : List Byte} {k : ℕ}
    {returned : Bool} (size : record.length = hdr.reclen)
    (started : memfhStart hdr record k = some (returned, hdr', area)) :
    Delivered hdr hdr' returned area := by
  obtain ⟨indexed, idx, order, path, made, there, _, rfl, outcome⟩ := memfhStart_cases started
  obtain ⟨filed', reclen⟩ := withIndex_filed filed made
  have below := filed'.within k idx there
  have moved : Filed (indexed.setIdx k { idx with path := path }) := filed'.setIdx below
  rcases outcome with ⟨_, rfl, rfl⟩ | ⟨_, rfl, entry, first, rfl⟩
  · exact ⟨moved, reclen, size, nofun⟩
  · obtain ⟨step, _, first⟩ := Option.bind_eq_some_iff.mp first
    have copied := filed'.copied (firstEntry_below below first) (size.trans reclen.symm)
    exact ⟨moved, reclen, (filed'.whole _ copied).trans reclen, fun _ => copied⟩

/-- READ NEXT delivers, and leaves the file in order. -/
theorem memfhNext_delivered {hdr hdr' : Hdr} (filed : Filed hdr) {record area : List Byte} {k : ℕ}
    {moved : Bool} (size : record.length = hdr.reclen)
    (next : memfhNext hdr record k = some (moved, hdr', area)) : Delivered hdr hdr' moved area := by
  unfold memfhNext at next
  split at next
  · cases next
  · rename_i idx there
    have below := filed.within k idx there
    split at next
    · cases next
    · rename_i ended
      cases next
      exact ⟨filed.setIdx (by rw [idxNext_graph ended]; exact below), rfl, size, nofun⟩
    · rename_i stepped
      obtain ⟨entry, current, result⟩ := Option.map_eq_some_iff.mp next
      cases result
      rw [← idxNext_graph stepped] at below
      have copied := filed.copied (idxCurrent_below below current) size
      exact ⟨filed.setIdx below, rfl, filed.whole _ copied, fun _ => copied⟩

/-- Every file that calls can reach is one of these. -/
theorem FileRun.filed {filename : String} {reclen : ℕ} {keys : List (List (ℕ × ℕ))}
    {allowed : Hdr → FileOp → Prop} {hdr : Hdr} (run : FileRun filename reclen keys allowed hdr) :
    Filed hdr ∧ hdr.reclen = reclen := by
  induction run with
  | opened => exact ⟨memfhOpen_filed filename reclen keys, rfl⟩
  | @called hdr hdr' op _ whole _ applied ih =>
      obtain ⟨filed, same⟩ := ih
      rw [← same] at whole
      have delivered : ∃ found area, Delivered hdr hdr' found area := by
        cases op with
        | write record => exact ⟨_, _, memfhWrite_delivered filed whole applied⟩
        | rewrite record | read record =>
            obtain ⟨⟨found, _, area⟩, read, rfl⟩ := Option.map_eq_some_iff.mp applied
            exact ⟨found, area, memfhRead_delivered filed whole read⟩
        | start record k =>
            obtain ⟨⟨returned, _, area⟩, started, rfl⟩ := Option.map_eq_some_iff.mp applied
            exact ⟨returned, area, memfhStart_delivered filed whole started⟩
        | next record k =>
            obtain ⟨⟨moved, _, area⟩, stepped, rfl⟩ := Option.map_eq_some_iff.mp applied
            exact ⟨moved, area, memfhNext_delivered filed whole stepped⟩
      obtain ⟨_, _, delivered⟩ := delivered
      exact ⟨delivered.filed, delivered.reclen.trans same⟩

end Pqfh.Memfh
