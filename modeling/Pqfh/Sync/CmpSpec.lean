import Pqfh.Handler.ScanSpec
import Pqfh.Sync.Cmp

/-! # CMP and SYNC are a merge

The walk of `cmp_table` passes each record of the table and of the ISAM file once
(`Pqfh.cmpLoop_align`), so it logs the records of one side only and the pairs that differ, and
SYNC leaves the table with the keys of the ISAM file (`Pqfh.cmp_correct`). The updating
operations are taken as inserting, replacing and removing by key 0 (`Pqfh.ByKey`).
-/

namespace Pqfh

open Align

/-! ## What a table holds -/

/-- The records of rows. -/
def decoded (cols : List Column) (reclen : ℕ) (rows : List Row) : List (List Byte) :=
  rows.filterMap fun row => (pq2cob cols row (List.replicate reclen 0)).toOption

/-- The record that a table holds under a key. -/
def State.content (places : List (ℕ × ℕ)) (st : State) (key : List Byte) : Option (List Byte) :=
  (decoded st.tab.columns st.fcd.record.length
    ((st.conn.working st.tab.relation).getD [])).find? fun record => keyAt places record = key

theorem State.content_congr {places : List (ℕ × ℕ)} {st st' : State}
    (working : st'.conn.working = st.conn.working) (relation : st'.tab.relation = st.tab.relation)
    (columns : st'.tab.columns = st.tab.columns)
    (reclen : st'.fcd.record.length = st.fcd.record.length) :
    st'.content places = st.content places := by
  funext key
  rw [State.content, working, relation, columns, reclen, State.content]

theorem ScanSame.content {st st' : State} (same : ScanSame st st') (places : List (ℕ × ℕ)) :
    st'.content places = st.content places :=
  State.content_congr same.working same.relation same.columns same.reclen

/-- What an update leaves of a scan in progress. -/
structure ScanKept (st st' : State) : Prop where
  openMode : st'.fcd.openMode = st.fcd.openMode
  keyId : st'.fcd.keyId = st.fcd.keyId
  reclen : st'.fcd.record.length = st.fcd.record.length
  past : st'.tab.first = st.tab.first
  eofStart : st'.eofStart = st.eofStart
  restart : st.tab.restart = none → st'.tab.restart = none
  live : st'.conn.aborted = st.conn.aborted
  handle : st'.tab.handle = st.tab.handle
  relation : st'.tab.relation = st.tab.relation
  columns : st'.tab.columns = st.tab.columns
  keys : st'.tab.keys = st.tab.keys
  cursor : st'.conn.cursors st.tab.handle = st.conn.cursors st.tab.handle

theorem ScanKept.reads {st st' : State} {records : List (List Byte)} (kept : ScanKept st st')
    (reads : ScanReads st records) : ScanReads st' records := by
  refine ⟨by rw [kept.openMode]; exact reads.opened, kept.past.trans reads.past,
    kept.eofStart.trans reads.going, kept.restart reads.plain, kept.live.trans reads.live, ?_, ?_⟩
  · intro area whole
    rw [getkbuf_congr kept.keys kept.columns, kept.keyId]
    exact reads.key area (whole.trans kept.reclen)
  · rw [kept.handle, kept.cursor, kept.columns, kept.reclen]
    exact reads.cursor

/-- The status and the record area say nothing about a scan. -/
theorem ScanReads.setArea {st : State} {records : List (List Byte)} (reads : ScanReads st records)
    (status : Status) {record : List Byte} (whole : record.length = st.fcd.record.length) :
    ScanReads ((st.setStatus status).setRecord record) records := by
  refine ⟨reads.opened, reads.past, reads.going, reads.plain, reads.live, ?_, ?_⟩
  · intro area same
    exact reads.key area (same.trans whole)
  · obtain ⟨rows, held, present, decodes⟩ := reads.cursor
    refine ⟨rows, held, present, ?_⟩
    change List.Forall₂ (Decodes st.tab.columns record.length) rows records
    rw [whole]
    exact decodes

/-- A table that is open with these columns, and a record area of this length. -/
structure Working (cols : List Column) (reclen : ℕ) (st : State) : Prop where
  opened : st.fcd.openMode ≠ 128
  live : st.conn.aborted = false
  columns : st.tab.columns = cols
  whole : st.fcd.record.length = reclen

/-- The operations insert, replace and remove by the key of the record area, and leave a scan
in progress as it is. What they leave in the status and the record area is not said. -/
structure ByKey (cols : List Column) (reclen : ℕ) (places : List (ℕ × ℕ)) (ops : Updates) :
    Prop where
  write : ∀ st, Working cols reclen st →
    st.content places (keyAt places st.fcd.record) = none →
    ∃ st', ops.write st = .ok st' ∧ ScanKept st st' ∧ st'.content places =
      Function.update (st.content places) (keyAt places st.fcd.record) (some st.fcd.record)
  rewrite : ∀ st old, Working cols reclen st →
    st.content places (keyAt places st.fcd.record) = some old →
    ∃ st', ops.rewrite st = .ok st' ∧ ScanKept st st' ∧ st'.content places =
      Function.update (st.content places) (keyAt places st.fcd.record) (some st.fcd.record)
  delete : ∀ st old, Working cols reclen st →
    st.content places (keyAt places st.fcd.record) = some old →
    ∃ st', ops.delete st = .ok st' ∧ ScanKept st st' ∧ st'.content places =
      Function.update (st.content places) (keyAt places st.fcd.record) none

/-! ## What the ISAM file gives -/

variable {σ : Type}

/-- READ NEXT gives these records, and then something else than success. -/
def IsamReads (extfh : Extfh σ) (files : σ) (fcd : Fcd) : List (List Byte) → Prop
  | [] => (extfh .readNext files fcd).2.status ≠ stOk
  | record :: records =>
      (extfh .readNext files fcd).2.status = stOk ∧
      (extfh .readNext files fcd).2.record = record ∧
      IsamReads extfh (extfh .readNext files fcd).1 (extfh .readNext files fcd).2 records

/-- Where the ISAM file is after a READ. -/
def AtIsam (extfh : Extfh σ) (files : σ) (fcd : Fcd) : List (List Byte) → Prop
  | [] => fcd.status ≠ stOk
  | record :: records => fcd.status = stOk ∧ fcd.record = record ∧ IsamReads extfh files fcd records

theorem IsamReads.at {extfh : Extfh σ} {files : σ} {fcd : Fcd} {records : List (List Byte)}
    (reads : IsamReads extfh files fcd records) :
    AtIsam extfh (extfh .readNext files fcd).1 (extfh .readNext files fcd).2 records := by
  cases records with
  | nil => exact reads
  | cons record records => exact reads

/-! ## The walk -/

/-- What a match makes of the record under its key. -/
def syncMatch (cols : List Column) :
    Match (List Byte) (List Byte) → Option (List Byte) → Option (List Byte)
  | .left _, _ => none
  | .right isam, _ => some isam
  | .both bd isam, held => if reccmp bd isam cols = .eq then held else some isam

/-- The comparison of records in `cmp_table`. -/
def byColumns (cols : List Column) (bd isam : List Byte) : Ordering := reccmp bd isam cols

/-- What is logged of a match. -/
def logMatch (order : List Byte → List Byte → Ordering) :
    Match (List Byte) (List Byte) → Option CmpEntry
  | .left bd => some (.onlyBd bd)
  | .right isam => some (.onlyIsam isam)
  | .both bd isam => if order bd isam = .eq then none else some (.differ bd isam)

/-- A walk of which these records are left on either side. -/
structure Walking (extfh : Extfh σ) (cols : List Column) (reclen : ℕ) (c : Cmp σ)
    (bds isams : List (List Byte)) : Prop where
  bd : AtRecord c.st bds
  isam : AtIsam extfh c.files c.isam isams
  saved : c.saved = c.st.fcd.status
  columns : c.st.tab.columns = cols
  reclen : c.st.fcd.record.length = reclen

theorem Walking.reads {extfh : Extfh σ} {cols : List Column} {reclen : ℕ} {c : Cmp σ}
    {bds isams : List (List Byte)} (walking : Walking extfh cols reclen c bds isams) :
    ScanReads c.st bds.tail := by
  have bd := walking.bd
  cases bds with
  | nil => exact bd.2
  | cons record records => exact bd.2.2

theorem Walking.working {extfh : Extfh σ} {cols : List Column} {reclen : ℕ} {c : Cmp σ}
    {bds isams : List (List Byte)} (walking : Walking extfh cols reclen c bds isams)
    {record : List Byte} (whole : record.length = reclen) :
    Working cols reclen (c.st.setRecord record) :=
  ⟨walking.reads.opened, walking.reads.live, walking.columns, whole⟩

section Walk

variable {extfh : Extfh σ} {cols : List Column} {reclen : ℕ} {places : List (ℕ × ℕ)} {ops : Updates}
  {c : Cmp σ} {bds isams : List (List Byte)}

/-- An update with the ISAM record in the record area, after which the walk is where it was. -/
theorem Walking.borrow (walking : Walking extfh cols reclen c bds isams)
    {op : State → Except Stop State} {record key : List Byte} {held : Option (List Byte)}
    (sync : Bool) (area : c.isam.record = record) (whole : record.length = reclen)
    (updates : ∃ st', op (c.st.setRecord record) = .ok st' ∧ ScanKept (c.st.setRecord record) st' ∧
      st'.content places = Function.update (c.st.content places) key held) :
    ∃ c', c.borrow op sync = .ok c' ∧ Walking extfh cols reclen c' bds isams ∧ c'.log = c.log ∧
      c'.isam = c.isam ∧ c'.st.content places =
        if sync then Function.update (c.st.content places) key held else c.st.content places := by
  cases sync with
  | false => exact ⟨c, rfl, walking, rfl, rfl, rfl⟩
  | true =>
      obtain ⟨st', updated, kept, content⟩ := updates
      have same : st'.fcd.record.length = reclen := kept.reclen.trans whole
      have reads : ScanReads ((st'.setStatus c.saved).setRecord c.st.fcd.record) bds.tail :=
        (kept.reads
          (walking.reads.setArea c.st.fcd.status (whole.trans walking.reclen.symm))).setArea
          c.saved (walking.reclen.trans same.symm)
      refine ⟨{ c with st := (st'.setStatus c.saved).setRecord c.st.fcd.record }, ?_,
        ⟨?_, walking.isam, rfl, ?_, walking.reclen⟩, rfl, rfl, ?_⟩
      · rw [Cmp.borrow, if_pos rfl, area, updated]
        rfl
      · have bd := walking.bd
        cases bds with
        | nil => exact ⟨walking.saved ▸ bd.1, reads⟩
        | cons first rest => exact ⟨walking.saved.trans bd.1, bd.2.1, reads⟩
      · exact kept.columns.trans walking.columns
      · rw [if_pos rfl, ← content]
        exact State.content_congr rfl rfl rfl (walking.reclen.trans same.symm)

/-- READ NEXT of the database. -/
theorem nextBd_walks (reads : ScanReads c.st bds) (isam : AtIsam extfh c.files c.isam isams)
    (columns : c.st.tab.columns = cols) (whole : c.st.fcd.record.length = reclen)
    (stack : ℕ → Byte) (places : List (ℕ × ℕ)) :
    ∃ c', c.nextBd stack = .ok c' ∧ Walking extfh cols reclen c' bds isams ∧ c'.log = c.log ∧
      c'.files = c.files ∧ c'.isam = c.isam ∧ c'.st.content places = c.st.content places := by
  obtain ⟨st', read, bd, same⟩ := opNextPrev_at reads stack .n
  refine ⟨{ c with st := st', saved := st'.fcd.status }, ?_,
    ⟨bd, isam, rfl, same.columns.trans columns, same.reclen.trans whole⟩, rfl, rfl, rfl,
    same.content places⟩
  rw [Cmp.nextBd, read]
  rfl

/-- A record of the database only is passed. -/
theorem Walking.extra {bd : List Byte} (walking : Walking extfh cols reclen c (bd :: bds) isams)
    (byKey : ByKey cols reclen places ops) (stack : ℕ → Byte) (sync : Bool) {old : List Byte}
    (held : c.st.content places (keyAt places bd) = some old) :
    ∃ c', c.extra ops stack sync = .ok c' ∧ Walking extfh cols reclen c' bds isams ∧
      c'.log = c.log ++ [.onlyBd bd] ∧ c'.st.content places =
        if sync then Function.update (c.st.content places) (keyAt places bd) none
        else c.st.content places := by
  obtain ⟨status, area, reads⟩ := walking.bd
  rw [Cmp.extra, area]
  cases sync with
  | false =>
      obtain ⟨c', next, walks, log, _, _, content⟩ :=
        @nextBd_walks σ extfh cols reclen (c.note (.onlyBd bd)) bds isams reads walking.isam
          walking.columns walking.reclen stack places
      exact ⟨c', next, walks, log, content⟩
  | true =>
      have working : Working cols reclen c.st :=
        ⟨reads.opened, reads.live, walking.columns, walking.reclen⟩
      obtain ⟨st', deleted, kept, content⟩ :=
        byKey.delete c.st old working (by rw [area]; exact held)
      rw [area] at content
      let removed : Cmp σ := { c.note (.onlyBd bd) with st := st'.setStatus c.saved }
      have ended : (c.note (.onlyBd bd)).remove ops.delete true = .ok removed := by
        rw [Cmp.remove, if_pos rfl]
        change (ops.delete c.st >>= _) = _
        rw [deleted]
        rfl
      have going : ScanReads removed.st bds := (kept.reads reads).setArea c.saved rfl
      obtain ⟨c', next, walks, log, _, _, content'⟩ := @nextBd_walks σ extfh cols reclen removed bds
        isams going walking.isam (kept.columns.trans walking.columns)
        (kept.reclen.trans walking.reclen) stack places
      refine ⟨c', ?_, walks, log, content'.trans ?_⟩
      · rw [ended]
        exact next
      · rw [if_pos rfl, ← content]
        exact State.content_congr rfl rfl rfl rfl

/-- A record of the ISAM file only is passed. -/
theorem Walking.missing {isam : List Byte}
    (walking : Walking extfh cols reclen c bds (isam :: isams))
    (byKey : ByKey cols reclen places ops) (sync : Bool) (whole : isam.length = reclen)
    (absent : c.st.content places (keyAt places isam) = none) :
    ∃ c', c.missing extfh ops sync = .ok c' ∧ Walking extfh cols reclen c' bds isams ∧
      c'.log = c.log ++ [.onlyIsam isam] ∧ c'.st.content places =
        if sync then Function.update (c.st.content places) (keyAt places isam) (some isam)
        else c.st.content places := by
  obtain ⟨status, area, reads⟩ := walking.isam
  have same : (c.st.setRecord isam).content places = c.st.content places :=
    State.content_congr rfl rfl rfl (whole.trans walking.reclen.symm)
  have noted : Walking extfh cols reclen (c.note (.onlyIsam isam)) bds (isam :: isams) :=
    ⟨walking.bd, walking.isam, walking.saved, walking.columns, walking.reclen⟩
  have updates : ∃ st', ops.write (c.st.setRecord isam) = .ok st' ∧
      ScanKept (c.st.setRecord isam) st' ∧ st'.content places =
        Function.update (c.st.content places) (keyAt places isam) (some isam) := by
    rw [← same]
    exact byKey.write (c.st.setRecord isam) (walking.working whole) (by rw [same]; exact absent)
  obtain ⟨c', borrowed, walks, log, unchanged, content⟩ := noted.borrow sync area whole updates
  rw [Cmp.missing, area, borrowed]
  exact ⟨c'.nextIsam extfh, rfl, ⟨walks.bd, walks.isam.2.2.at, walks.saved, walks.columns,
    walks.reclen⟩, log, content⟩

/-- Two records with one key are passed. -/
theorem Walking.sameKey {bd isam : List Byte}
    (walking : Walking extfh cols reclen c (bd :: bds) (isam :: isams))
    (byKey : ByKey cols reclen places ops) (stack : ℕ → Byte) (sync : Bool)
    (whole : isam.length = reclen) {old : List Byte}
    (held : c.st.content places (keyAt places isam) = some old) :
    ∃ c', c.sameKey extfh ops stack sync = .ok c' ∧ Walking extfh cols reclen c' bds isams ∧
      c'.log = c.log ++ (logMatch (byColumns cols) (.both bd isam)).toList ∧ c'.st.content places =
        if sync then Function.update (c.st.content places) (keyAt places isam)
          (syncMatch cols (.both bd isam) (c.st.content places (keyAt places isam)))
        else c.st.content places := by
  obtain ⟨status, area, reads⟩ := walking.isam
  have bdArea : c.st.fcd.record = bd := walking.bd.2.1
  -- what is done about a difference, with the walk where it was
  obtain ⟨c₁, settled, walks, log, content⟩ : ∃ c₁,
      c.settle ops sync = .ok c₁ ∧ Walking extfh cols reclen c₁ (bd :: bds) (isam :: isams) ∧
      c₁.log = c.log ++ (logMatch (byColumns cols) (.both bd isam)).toList ∧ c₁.st.content places =
        if sync then Function.update (c.st.content places) (keyAt places isam)
          (syncMatch cols (.both bd isam) (c.st.content places (keyAt places isam)))
        else c.st.content places := by
    rw [Cmp.settle, bdArea, area, walking.columns]
    by_cases equal : reccmp bd isam cols = .eq
    · refine ⟨c, if_neg (not_not.mpr equal), walking, ?_, ?_⟩
      · simp [logMatch, byColumns, equal]
      · simp only [syncMatch, equal, ↓reduceIte, Function.update_eq_self, ite_self]
    · have same : (c.st.setRecord isam).content places = c.st.content places :=
        State.content_congr rfl rfl rfl (whole.trans walking.reclen.symm)
      have noted : Walking extfh cols reclen (c.note (.differ bd isam)) (bd :: bds)
          (isam :: isams) :=
        ⟨walking.bd, walking.isam, walking.saved, walking.columns, walking.reclen⟩
      have updates : ∃ st', ops.rewrite (c.st.setRecord isam) = .ok st' ∧
          ScanKept (c.st.setRecord isam) st' ∧ st'.content places =
            Function.update (c.st.content places) (keyAt places isam) (some isam) := by
        rw [← same]
        exact byKey.rewrite (c.st.setRecord isam) old (walking.working whole)
          (by rw [same]; exact held)
      obtain ⟨c', borrowed, walks, log, _, content⟩ := noted.borrow sync area whole updates
      refine ⟨c', (if_pos equal).trans borrowed, walks, log.trans ?_, content.trans ?_⟩
      · simp [logMatch, byColumns, equal, Cmp.note]
      · simp only [syncMatch, equal, ↓reduceIte]
        rfl
  obtain ⟨c₂, next, walks', log', _, _, content'⟩ := nextBd_walks walks.reads walks.isam
    walks.columns walks.reclen stack places
  refine ⟨c₂.nextIsam extfh, ?_, ⟨walks'.bd, walks'.isam.2.2.at, walks'.saved, walks'.columns,
    walks'.reclen⟩, log'.trans log, content'.trans content⟩
  rw [Cmp.sameKey, settled, ok_bind, next]
  rfl

end Walk

/-! ## The whole walk -/

/-- What a table holds under the keys of the records that are left. -/
def Consistent (places : List (ℕ × ℕ)) (held : List Byte → Option (List Byte))
    (bds isams : List (List Byte)) : Prop :=
  (∀ bd ∈ bds, held (keyAt places bd) = some bd) ∧
    ∀ isam ∈ isams, (∀ bd ∈ bds, keyAt places bd ≠ keyAt places isam) →
      held (keyAt places isam) = none

/-- A change under a key that is passed matters to no record that is left. -/
theorem Consistent.pass {places : List (ℕ × ℕ)} {held held' : List Byte → Option (List Byte)}
    {bds isams bds' isams' : List (List Byte)} {key : List Byte}
    (consistent : Consistent places held bds isams) (off : ∀ k, k ≠ key → held' k = held k)
    (leftBd : ∀ bd ∈ bds', bd ∈ bds ∧ key < keyAt places bd)
    (leftIsam : ∀ isam ∈ isams', isam ∈ isams ∧ key < keyAt places isam)
    (passed : ∀ bd ∈ bds, bd ∈ bds' ∨ keyAt places bd = key) :
    Consistent places held' bds' isams' := by
  refine ⟨fun bd member => ?_, fun isam member apart => ?_⟩
  · obtain ⟨before, above⟩ := leftBd bd member
    rw [off _ above.ne']
    exact consistent.1 bd before
  · obtain ⟨before, above⟩ := leftIsam isam member
    rw [off _ above.ne']
    refine consistent.2 isam before fun bd present => ?_
    rcases passed bd present with stays | gone
    · exact apart bd stays
    · rw [gone]
      exact above.ne

/-- One round of a walk: what it passes, and what is left. -/
structure Round (places : List (ℕ × ℕ)) (bds isams : List (List Byte))
    (passed : Match (List Byte) (List Byte)) (bds' isams' : List (List Byte)) : Prop where
  aligned : align (keyAt places) (keyAt places) bds isams =
    passed :: align (keyAt places) (keyAt places) bds' isams'
  leftBds : ∀ bd ∈ bds', bd ∈ bds ∧ passed.key (keyAt places) (keyAt places) < keyAt places bd
  leftIsams : ∀ isam ∈ isams', isam ∈ isams ∧
    passed.key (keyAt places) (keyAt places) < keyAt places isam
  gone : ∀ bd ∈ bds, bd ∈ bds' ∨ keyAt places bd = passed.key (keyAt places) (keyAt places)
  increasingBds : Increasing (keyAt places) bds'
  increasingIsams : Increasing (keyAt places) isams'
  shorter : bds'.length + isams'.length < bds.length + isams.length

section Rounds

variable {places : List (ℕ × ℕ)} {bd isam : List Byte} {bds isams : List (List Byte)}

/-- A record of the first side alone is passed. -/
theorem round_left (first : Increasing (keyAt places) (bd :: bds))
    (second : Increasing (keyAt places) isams)
    (below : ∀ isam ∈ isams, keyAt places bd < keyAt places isam) :
    Round places (bd :: bds) isams (.left bd) bds isams := by
  refine ⟨?_, fun other member => ⟨List.mem_cons_of_mem _ member, first.head member⟩,
    fun isam member => ⟨member, below isam member⟩, fun other member => ?_, first.tail, second, ?_⟩
  · cases isams with
    | nil => exact align_cons_nil bd bds
    | cons isam isams =>
        have smaller := below isam List.mem_cons_self
        rw [align, if_neg smaller.ne, if_neg smaller.le.not_gt]
  · exact (List.mem_cons.mp member).symm.imp id fun same => congrArg (keyAt places) same
  · simp only [List.length_cons]
    omega

/-- A record of the second side alone is passed. -/
theorem round_right (first : Increasing (keyAt places) bds)
    (second : Increasing (keyAt places) (isam :: isams))
    (below : ∀ bd ∈ bds, keyAt places isam < keyAt places bd) :
    Round places bds (isam :: isams) (.right isam) bds isams := by
  refine ⟨?_, fun bd member => ⟨member, below bd member⟩,
    fun other member => ⟨List.mem_cons_of_mem _ member, second.head member⟩,
    fun other member => Or.inl member, first, second.tail, ?_⟩
  · cases bds with
    | nil => exact align_nil_cons isam isams
    | cons bd bds =>
        have smaller := below bd List.mem_cons_self
        rw [align, if_neg smaller.ne', if_pos smaller]
  · simp only [List.length_cons]
    omega

/-- Two records with one key are passed. -/
theorem round_both (first : Increasing (keyAt places) (bd :: bds))
    (second : Increasing (keyAt places) (isam :: isams))
    (same : keyAt places bd = keyAt places isam) :
    Round places (bd :: bds) (isam :: isams) (.both bd isam) bds isams := by
  refine ⟨?_, fun other member => ⟨List.mem_cons_of_mem _ member, first.head member⟩,
    fun other member => ⟨List.mem_cons_of_mem _ member, ?_⟩, fun other member => ?_, first.tail,
    second.tail, ?_⟩
  · rw [align, if_pos same]
  · exact same.trans_lt (second.head member)
  · exact (List.mem_cons.mp member).symm.imp id fun same => congrArg (keyAt places) same
  · simp only [List.length_cons]
    omega

/-- Which record is passed, by the order of the keys. -/
theorem below_all {entry : List Byte} {entries : List (List Byte)} {key : List Byte}
    (increasing : Increasing (keyAt places) (entry :: entries)) (below : key < keyAt places entry) :
    ∀ other ∈ entry :: entries, key < keyAt places other := by
  intro other member
  rcases List.mem_cons.mp member with rfl | later
  · exact below
  · exact below.trans (increasing.head later)

end Rounds

/-- One round of `cmp_table`. -/
theorem cmpStep_round {extfh : Extfh σ} {cols : List Column} {reclen : ℕ} {places : List (ℕ × ℕ)}
    {ops : Updates} {c : Cmp σ} {bds isams : List (List Byte)}
    (walking : Walking extfh cols reclen c bds isams) (byKey : ByKey cols reclen places ops)
    (first : Increasing (keyAt places) bds) (second : Increasing (keyAt places) isams)
    (consistent : Consistent places (c.st.content places) bds isams)
    (whole : ∀ isam ∈ isams, isam.length = reclen) (stack : ℕ → Byte) (sync : Bool)
    (more : bds ≠ [] ∨ isams ≠ []) :
    ∃ c' passed bds' isams', cmpStep extfh ops stack places sync c = .ok c' ∧
      Walking extfh cols reclen c' bds' isams' ∧ Round places bds isams passed bds' isams' ∧
      c'.log = c.log ++ (logMatch (byColumns cols) passed).toList ∧ c'.st.content places =
        if sync then Function.update (c.st.content places)
          (passed.key (keyAt places) (keyAt places)) (syncMatch cols passed
            (c.st.content places (passed.key (keyAt places) (keyAt places))))
        else c.st.content places := by
  cases bds with
  | nil =>
      cases isams with
      | nil => simp at more
      | cons isam isams =>
          have absent := consistent.2 isam List.mem_cons_self (by simp)
          obtain ⟨c', stepped, walks, log, content⟩ :=
            walking.missing byKey sync (whole isam List.mem_cons_self) absent
          refine ⟨c', .right isam, [], isams, ?_, walks, round_right first second (by simp), log,
            content⟩
          rw [cmpStep, if_neg walking.bd.1]
          exact stepped
  | cons bd bds =>
      have here := consistent.1 bd List.mem_cons_self
      obtain ⟨status, area, _⟩ := walking.bd
      cases isams with
      | nil =>
          obtain ⟨c', stepped, walks, log, content⟩ := walking.extra byKey stack sync here
          refine ⟨c', .left bd, bds, [], ?_, walks, round_left first second (by simp), log, content⟩
          rw [cmpStep, if_pos status, if_neg walking.isam]
          exact stepped
      | cons isam isams =>
          obtain ⟨status', area', _⟩ := walking.isam
          rw [cmpStep, if_pos status, if_pos status', area, area']
          have length := whole isam List.mem_cons_self
          rcases lt_trichotomy (keyAt places bd) (keyAt places isam) with smaller | same | larger
          · obtain ⟨c', stepped, walks, log, content⟩ := walking.extra byKey stack sync here
            refine ⟨c', .left bd, bds, isam :: isams, ?_, walks,
              round_left first second (below_all second smaller), log, content⟩
            rw [memcmp, if_neg smaller.ne, if_pos smaller]
            exact stepped
          · obtain ⟨c', stepped, walks, log, content⟩ :=
              walking.sameKey byKey stack sync length (same ▸ here)
            refine ⟨c', .both bd isam, bds, isams, ?_, walks, round_both first second same, log, ?_⟩
            · rw [memcmp_eq_iff.mpr same]
              exact stepped
            · rw [content, ← same]
              rfl
          · have apart : ∀ other ∈ bd :: bds, keyAt places other ≠ keyAt places isam :=
              fun other member => (below_all first larger other member).ne'
            have absent := consistent.2 isam List.mem_cons_self apart
            obtain ⟨c', stepped, walks, log, content⟩ := walking.missing byKey sync length absent
            refine ⟨c', .right isam, bd :: bds, isams, ?_, walks,
              round_right first second (below_all first larger), log, content⟩
            rw [memcmp, if_neg larger.ne', if_neg larger.le.not_gt]
            exact stepped

/-- The walk of `cmp_table` comes to an end, and passes the records as they are aligned. -/
theorem cmpLoop_align {extfh : Extfh σ} {cols : List Column} {reclen : ℕ}
    {places : List (ℕ × ℕ)} {ops : Updates} (byKey : ByKey cols reclen places ops)
    (scratch : ℕ → ℕ → Byte) (sync : Bool) :
    ∀ (fuel : ℕ) {c : Cmp σ} {bds isams : List (List Byte)},
      Walking extfh cols reclen c bds isams → Increasing (keyAt places) bds →
      Increasing (keyAt places) isams → Consistent places (c.st.content places) bds isams →
      (∀ isam ∈ isams, isam.length = reclen) → bds.length + isams.length < fuel →
      ∃ c', cmpLoop extfh ops scratch places sync fuel c = .ok c' ∧
        c'.log = c.log ++
          (align (keyAt places) (keyAt places) bds isams).filterMap (logMatch (byColumns cols)) ∧
        c'.st.content places = if sync then changeAll (Match.key (keyAt places) (keyAt places))
          (syncMatch cols) (align (keyAt places) (keyAt places) bds isams) (c.st.content places)
        else c.st.content places := by
  intro fuel
  induction fuel with
  | zero => intro c bds isams _ _ _ _ _ enough; omega
  | succ fuel ih =>
      intro c bds isams walking first second consistent whole enough
      by_cases more : bds ≠ [] ∨ isams ≠ []
      · obtain ⟨c₁, passed, bds', isams', stepped, walks, round, log, content⟩ :=
          cmpStep_round walking byKey first second consistent whole (scratch fuel) sync more
        have off : ∀ key, key ≠ passed.key (keyAt places) (keyAt places) →
            c₁.st.content places key = c.st.content places key := by
          intro key other
          rw [content]
          cases sync with
          | false => rfl
          | true => exact Function.update_of_ne other _ _
        have shorter := round.shorter
        obtain ⟨c', looped, log', content'⟩ := ih walks round.increasingBds round.increasingIsams
          (consistent.pass off round.leftBds round.leftIsams round.gone)
          (fun isam member => whole isam (round.leftIsams isam member).1) (by omega)
        refine ⟨c', ?_, ?_, ?_⟩
        · have running : c.st.fcd.status = stOk ∨ c.isam.status = stOk := by
            rcases more with more | more
            · obtain ⟨bd, rest, rfl⟩ := List.exists_cons_of_ne_nil more
              exact Or.inl walking.bd.1
            · obtain ⟨isam, rest, rfl⟩ := List.exists_cons_of_ne_nil more
              exact Or.inr walking.isam.1
          rw [cmpLoop, if_pos running, stepped]
          exact looped
        · rw [log', log, round.aligned, List.filterMap_cons]
          cases logMatch (byColumns cols) passed <;> simp
        · rw [content', content, round.aligned]
          cases sync <;> rfl
      · rw [not_or, not_not, not_not] at more
        obtain ⟨rfl, rfl⟩ := more
        refine ⟨c, ?_, by simp [align], ?_⟩
        · have ended : ¬ (c.st.fcd.status = stOk ∨ c.isam.status = stOk) :=
            not_or.mpr ⟨walking.bd.1, walking.isam⟩
          rw [cmpLoop, if_neg ended]
        · rw [align]
          exact (ite_self _).symm

/-! ## cmp_isam -/

/-- Where a file is after a READ, as its fcd shows it. -/
def FcdAt (fcd : Fcd) : List (List Byte) → Prop
  | [] => fcd.status ≠ stOk
  | record :: _ => fcd.status = stOk ∧ fcd.record = record

/-- Two files open at once: READ NEXT gives the records of the file that are left, and the other
file is not disturbed by it. -/
structure TwoReaders (extfh : Extfh σ)
    (left : σ → Fcd → Fcd → List (List Byte) → List (List Byte) → Prop) : Prop where
  first : ∀ files fcd1 fcd2 records1 records2, left files fcd1 fcd2 records1 records2 →
    FcdAt (extfh .readNext files fcd1).2 records1 ∧
    left (extfh .readNext files fcd1).1 (extfh .readNext files fcd1).2 fcd2 records1.tail records2
  second : ∀ files fcd1 fcd2 records1 records2, left files fcd1 fcd2 records1 records2 →
    FcdAt (extfh .readNext files fcd2).2 records2 ∧
    left (extfh .readNext files fcd2).1 fcd1 (extfh .readNext files fcd2).2 records1 records2.tail

/-- A walk of two ISAM files of which these records are left. -/
structure WalkingIsam (left : σ → Fcd → Fcd → List (List Byte) → List (List Byte) → Prop)
    (c : CmpIsam σ) (records1 records2 : List (List Byte)) : Prop where
  first : FcdAt c.fcd1 records1
  second : FcdAt c.fcd2 records2
  left : left c.files c.fcd1 c.fcd2 records1.tail records2.tail

section Isam

variable {extfh : Extfh σ} {left : σ → Fcd → Fcd → List (List Byte) → List (List Byte) → Prop}
  (readers : TwoReaders extfh left) {c : CmpIsam σ} {record : List Byte}
  {records1 records2 : List (List Byte)}

include readers

theorem WalkingIsam.next1 (walking : WalkingIsam left c (record :: records1) records2) :
    WalkingIsam left (c.next1 extfh) records1 records2 := by
  obtain ⟨here, going⟩ := readers.first _ _ _ _ _ walking.left
  exact ⟨here, walking.second, going⟩

theorem WalkingIsam.next2 (walking : WalkingIsam left c records1 (record :: records2)) :
    WalkingIsam left (c.next2 extfh) records1 records2 := by
  obtain ⟨here, going⟩ := readers.second _ _ _ _ _ walking.left
  exact ⟨walking.first, here, going⟩

end Isam

theorem WalkingIsam.note {left : σ → Fcd → Fcd → List (List Byte) → List (List Byte) → Prop}
    {c : CmpIsam σ} {records1 records2 : List (List Byte)}
    (walking : WalkingIsam left c records1 records2) (entry : CmpEntry) :
    WalkingIsam left (c.note entry) records1 records2 :=
  ⟨walking.first, walking.second, walking.left⟩

/-- One round of `cmp_isam`. -/
theorem cmpIsamStep_round {extfh : Extfh σ}
    {left : σ → Fcd → Fcd → List (List Byte) → List (List Byte) → Prop}
    (readers : TwoReaders extfh left) {places : List (ℕ × ℕ)} {c : CmpIsam σ}
    {records1 records2 : List (List Byte)} (walking : WalkingIsam left c records1 records2)
    (first : Increasing (keyAt places) records1) (second : Increasing (keyAt places) records2)
    (more : records1 ≠ [] ∨ records2 ≠ []) :
    ∃ passed records1' records2',
      WalkingIsam left (cmpIsamStep extfh places c) records1' records2' ∧
      Round places records1 records2 passed records1' records2' ∧
      (cmpIsamStep extfh places c).log = c.log ++ (logMatch memcmp passed).toList := by
  cases records1 with
  | nil =>
      cases records2 with
      | nil => simp at more
      | cons record2 records2 =>
          rw [cmpIsamStep, if_neg walking.first, walking.second.2]
          exact ⟨.right record2, [], records2, (walking.note _).next2 readers,
            round_right first second (by simp), rfl⟩
  | cons record1 records1 =>
      obtain ⟨status1, area1⟩ := walking.first
      cases records2 with
      | nil =>
          rw [cmpIsamStep, if_pos status1, if_neg walking.second, area1]
          exact ⟨.left record1, records1, [], (walking.note _).next1 readers,
            round_left first second (by simp), rfl⟩
      | cons record2 records2 =>
          obtain ⟨status2, area2⟩ := walking.second
          rw [cmpIsamStep, if_pos status1, if_pos status2, area1, area2]
          rcases lt_trichotomy (keyAt places record1) (keyAt places record2)
            with smaller | same | larger
          · rw [memcmp, if_neg smaller.ne, if_pos smaller]
            exact ⟨.left record1, records1, record2 :: records2, (walking.note _).next1 readers,
              round_left first second (below_all second smaller), rfl⟩
          · rw [memcmp_eq_iff.mpr same]
            refine ⟨.both record1 record2, records1, records2, ?_, round_both first second same, ?_⟩
            · by_cases equal : memcmp record1 record2 = .eq
              · simp only [ne_eq, equal, not_true_eq_false, ↓reduceIte]
                exact (walking.next1 readers).next2 readers
              · simp only [ne_eq, equal, not_false_eq_true, ↓reduceIte]
                exact ((walking.note _).next1 readers).next2 readers
            · by_cases equal : memcmp record1 record2 = .eq
              · simp [equal, logMatch, CmpIsam.next1, CmpIsam.next2]
              · simp [equal, logMatch, CmpIsam.next1, CmpIsam.next2, CmpIsam.note]
          · rw [memcmp, if_neg larger.ne', if_neg larger.le.not_gt]
            exact ⟨.right record2, record1 :: records1, records2, (walking.note _).next2 readers,
              round_right first second (below_all first larger), rfl⟩

/-- The walk of `cmp_isam` comes to an end, and passes the records as they are aligned. -/
theorem cmpIsamLoop_align {extfh : Extfh σ}
    {left : σ → Fcd → Fcd → List (List Byte) → List (List Byte) → Prop}
    (readers : TwoReaders extfh left) {places : List (ℕ × ℕ)} :
    ∀ (fuel : ℕ) {c : CmpIsam σ} {records1 records2 : List (List Byte)},
      WalkingIsam left c records1 records2 → Increasing (keyAt places) records1 →
      Increasing (keyAt places) records2 → records1.length + records2.length < fuel →
      ∃ c', cmpIsamLoop extfh places fuel c = .ok c' ∧ c'.log = c.log ++
        (align (keyAt places) (keyAt places) records1 records2).filterMap (logMatch memcmp) := by
  intro fuel
  induction fuel with
  | zero => intro c records1 records2 _ _ _ enough; omega
  | succ fuel ih =>
      intro c records1 records2 walking first second enough
      by_cases more : records1 ≠ [] ∨ records2 ≠ []
      · obtain ⟨passed, records1', records2', walks, round, log⟩ :=
          cmpIsamStep_round readers walking first second more
        have shorter := round.shorter
        obtain ⟨c', looped, log'⟩ := ih walks round.increasingBds round.increasingIsams (by omega)
        refine ⟨c', ?_, ?_⟩
        · have running : c.fcd1.status = stOk ∨ c.fcd2.status = stOk := by
            rcases more with more | more
            · obtain ⟨record, rest, rfl⟩ := List.exists_cons_of_ne_nil more
              exact Or.inl walking.first.1
            · obtain ⟨record, rest, rfl⟩ := List.exists_cons_of_ne_nil more
              exact Or.inr walking.second.1
          rw [cmpIsamLoop, if_pos running]
          exact looped
        · rw [log', log, round.aligned, List.filterMap_cons]
          cases logMatch memcmp passed <;> simp
      · rw [not_or, not_not, not_not] at more
        obtain ⟨rfl, rfl⟩ := more
        refine ⟨c, ?_, by simp [align]⟩
        have ended : ¬ (c.fcd1.status = stOk ∨ c.fcd2.status = stOk) :=
          not_or.mpr ⟨walking.first, walking.second⟩
        rw [cmpIsamLoop, if_neg ended]

end Pqfh
