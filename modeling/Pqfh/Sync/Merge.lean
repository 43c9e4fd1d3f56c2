import Pqfh.Handler.Commits
import Pqfh.Sync.CmpSpec

/-! # What CMP logs and what SYNC leaves

`Pqfh.cmp_correct` puts the walks of `cmp_table` and `cmp_isam` together with what is aligned:
each record is classified by whether its key is on the other side, and SYNC leaves the table
with the keys of the ISAM file.
-/

namespace Pqfh

open Align

/-! ## The log -/

/-- The log says of each record whether its key is on one side only, and of two records with
one key whether they differ. -/
structure Classified (places : List (ℕ × ℕ)) (order : List Byte → List Byte → Ordering)
    (bds isams : List (List Byte)) (log : List CmpEntry) : Prop where
  onlyBd : ∀ bd, .onlyBd bd ∈ log ↔ bd ∈ bds ∧ ∀ isam ∈ isams, keyAt places isam ≠ keyAt places bd
  onlyIsam : ∀ isam, .onlyIsam isam ∈ log ↔
    isam ∈ isams ∧ ∀ bd ∈ bds, keyAt places bd ≠ keyAt places isam
  differ : ∀ bd isam, .differ bd isam ∈ log ↔
    bd ∈ bds ∧ isam ∈ isams ∧ keyAt places bd = keyAt places isam ∧ order bd isam ≠ .eq
  once : log.Nodup

theorem logMatch_onlyBd {order : List Byte → List Byte → Ordering} {bd : List Byte}
    {passed : Match (List Byte) (List Byte)} :
    logMatch order passed = some (.onlyBd bd) ↔ passed = .left bd := by
  cases passed <;> simp [logMatch]

theorem logMatch_onlyIsam {order : List Byte → List Byte → Ordering} {isam : List Byte}
    {passed : Match (List Byte) (List Byte)} :
    logMatch order passed = some (.onlyIsam isam) ↔ passed = .right isam := by
  cases passed <;> simp [logMatch]

theorem logMatch_differ {order : List Byte → List Byte → Ordering} {bd isam : List Byte}
    {passed : Match (List Byte) (List Byte)} :
    logMatch order passed = some (.differ bd isam) ↔
      passed = .both bd isam ∧ order bd isam ≠ .eq := by
  cases passed with
  | left a => simp [logMatch]
  | right b => simp [logMatch]
  | both a b =>
      simp only [logMatch, Option.ite_none_left_eq_some, Option.some.injEq, CmpEntry.differ.injEq,
        Match.both.injEq]
      constructor
      · rintro ⟨different, rfl, rfl⟩
        exact ⟨⟨rfl, rfl⟩, different⟩
      · rintro ⟨⟨rfl, rfl⟩, different⟩
        exact ⟨different, rfl, rfl⟩

/-- What is logged of an entry tells what was passed. -/
theorem logMatch_inj {order : List Byte → List Byte → Ordering} {entry : CmpEntry}
    {first second : Match (List Byte) (List Byte)} (one : logMatch order first = some entry)
    (two : logMatch order second = some entry) : first = second := by
  cases entry with
  | onlyBd bd => rw [logMatch_onlyBd.mp one, logMatch_onlyBd.mp two]
  | onlyIsam isam => rw [logMatch_onlyIsam.mp one, logMatch_onlyIsam.mp two]
  | differ bd isam => rw [(logMatch_differ.mp one).1, (logMatch_differ.mp two).1]

/-- The log of aligned records classifies them. -/
theorem classified_align {places : List (ℕ × ℕ)} (order : List Byte → List Byte → Ordering)
    {bds isams : List (List Byte)} (first : Increasing (keyAt places) bds)
    (second : Increasing (keyAt places) isams) :
    Classified places order bds isams
      ((align (keyAt places) (keyAt places) bds isams).filterMap (logMatch order)) := by
  obtain ⟨lefts, rights, boths⟩ := mem_align bds isams first second
  refine ⟨fun bd => ?_, fun isam => ?_, fun bd isam => ?_, ?_⟩
  · simp only [List.mem_filterMap, logMatch_onlyBd, exists_eq_right]
    exact lefts bd
  · simp only [List.mem_filterMap, logMatch_onlyIsam, exists_eq_right]
    exact rights isam
  · simp only [List.mem_filterMap, logMatch_differ]
    constructor
    · rintro ⟨_, member, rfl, different⟩
      obtain ⟨one, two, same⟩ := (boths bd isam).mp member
      exact ⟨one, two, same, different⟩
    · rintro ⟨one, two, same, different⟩
      exact ⟨_, (boths bd isam).mpr ⟨one, two, same⟩, rfl, different⟩
  · refine (align_increasing first second).filterMap _ ?_
    intro one two smaller entry noted entry' noted' equal
    subst equal
    rw [logMatch_inj noted noted'] at smaller
    exact lt_irrefl _ smaller

/-! ## The table -/

/-- What SYNC makes of what a table holds: the keys of the ISAM file, with its records but for
those that do not differ from the ones there. -/
structure Synced (places : List (ℕ × ℕ)) (order : List Byte → List Byte → Ordering)
    (bds isams : List (List Byte)) (held : List Byte → Option (List Byte)) : Prop where
  kept : ∀ bd ∈ bds, ∀ isam ∈ isams, keyAt places bd = keyAt places isam → order bd isam = .eq →
    held (keyAt places isam) = some bd
  replaced : ∀ bd ∈ bds, ∀ isam ∈ isams, keyAt places bd = keyAt places isam →
    order bd isam ≠ .eq → held (keyAt places isam) = some isam
  inserted : ∀ isam ∈ isams, (∀ bd ∈ bds, keyAt places bd ≠ keyAt places isam) →
    held (keyAt places isam) = some isam
  removed : ∀ key, (∀ isam ∈ isams, keyAt places isam ≠ key) → held key = none

/-- The changes of a walk bring a table into line. -/
theorem synced_align {places : List (ℕ × ℕ)} {cols : List Column} {bds isams : List (List Byte)}
    {held : List Byte → Option (List Byte)} (first : Increasing (keyAt places) bds)
    (second : Increasing (keyAt places) isams)
    (present : ∀ bd ∈ bds, held (keyAt places bd) = some bd)
    (absent : ∀ key, (∀ bd ∈ bds, keyAt places bd ≠ key) → held key = none) :
    Synced places (byColumns cols) bds isams
      (changeAll (Match.key (keyAt places) (keyAt places)) (syncMatch cols)
        (align (keyAt places) (keyAt places) bds isams) held) := by
  obtain ⟨lefts, rights, boths⟩ := mem_align bds isams first second
  have increasing := align_increasing first second
  have both : ∀ bd ∈ bds, ∀ isam ∈ isams, keyAt places bd = keyAt places isam →
      changeAll (Match.key (keyAt places) (keyAt places)) (syncMatch cols)
        (align (keyAt places) (keyAt places) bds isams) held (keyAt places isam) =
      if reccmp bd isam cols = .eq then some bd else some isam := by
    intro bd one isam two same
    have changed := @changeAll_of_mem _ _ _ _ _ (Match.key (keyAt places) (keyAt places))
      (syncMatch cols) _ _ held increasing ((boths bd isam).mpr ⟨one, two, same⟩)
    rw [← same]
    refine changed.trans ?_
    change (if reccmp bd isam cols = .eq then held (keyAt places bd) else some isam) = _
    rw [present bd one]
  refine ⟨fun bd one isam two same equal => ?_, fun bd one isam two same different => ?_,
    fun isam member apart => ?_, fun key apart => ?_⟩
  · exact (both bd one isam two same).trans (if_pos equal)
  · exact (both bd one isam two same).trans (if_neg different)
  · exact changeAll_of_mem held increasing ((rights isam).mpr ⟨member, apart⟩)
  · by_cases there : ∃ bd ∈ bds, keyAt places bd = key
    · obtain ⟨bd, member, rfl⟩ := there
      exact changeAll_of_mem held increasing ((lefts bd).mpr ⟨member, apart⟩)
    · have none : ∀ bd ∈ bds, keyAt places bd ≠ key :=
        fun bd member same => there ⟨bd, member, same⟩
      rw [changeAll_of_notMem held fun passed member same => ?_]
      · exact absent key none
      · cases passed with
        | left bd => exact none bd ((lefts bd).mp member).1 same
        | right isam => exact apart isam ((rights isam).mp member).1 same
        | both bd isam => exact none bd ((boths bd isam).mp member).1 same

/-- What a table holds whose records have different keys. -/
theorem content_of_perm {places : List (ℕ × ℕ)} {st : State} {rows : List Row}
    {bds : List (List Byte)} (relation : st.conn.working st.tab.relation = some rows)
    (delivered : (decoded st.tab.columns st.fcd.record.length rows).Perm bds)
    (increasing : Increasing (keyAt places) bds) :
    (∀ bd ∈ bds, st.content places (keyAt places bd) = some bd) ∧
      ∀ key, (∀ bd ∈ bds, keyAt places bd ≠ key) → st.content places key = none := by
  constructor
  · intro bd member
    cases found : st.content places (keyAt places bd) with
    | none =>
        rw [State.content, relation, Option.getD_some, List.find?_eq_none] at found
        exact (found bd (delivered.mem_iff.mpr member) (decide_eq_true rfl)).elim
    | some other =>
        rw [State.content, relation, Option.getD_some] at found
        have same : keyAt places other = keyAt places bd := by simpa using List.find?_some found
        have present := delivered.mem_iff.mp (List.mem_of_find?_eq_some found)
        rw [increasing.eq_of_key present member same]
  · intro key apart
    rw [State.content, relation, Option.getD_some, List.find?_eq_none]
    intro record member same
    exact apart record (delivered.mem_iff.mp member) (of_decide_eq_true same)

/-! ## The programs -/

/-- A call of `cmp_table`: the table opened last holds rows that a START from low values
delivers as the records `bds`, the ISAM file gives the records `isams`, both in increasing order
of key 0, no scan is in progress, and the operations insert, replace and remove by key 0. -/
structure TableCmp (σ : Type) where
  extfh : Extfh σ
  env : Env
  ops : Updates
  garbage : Garbage
  scratch : ℕ → ℕ → Byte
  area : List Byte
  files : σ
  st : State
  places : List (ℕ × ℕ)
  rows : List Row
  bds : List (List Byte)
  isams : List (List Byte)
  database : st.fcd.isam = false
  placed : checkedPlaces st.fcd.kdb st.fcd.record.length = .ok places
  scannable : Scannable env .ge (st.setRecord (List.replicate st.fcd.record.length 0)) bds
  relation : st.conn.working st.tab.relation = some rows
  delivered : (decoded st.tab.columns st.fcd.record.length rows).Perm bds
  increasingBds : Increasing (keyAt places) bds
  increasingIsams : Increasing (keyAt places) isams
  wholeIsams : ∀ isam ∈ isams, isam.length = st.fcd.record.length
  reads :
    let opened := extfh (.openFile .input) files (isamFcd st.fcd area)
    let started := extfh (.start .gt) opened.1
      { opened.2 with record := List.replicate st.fcd.record.length 0 }
    IsamReads extfh started.1 started.2 isams
  byKey : ByKey st.tab.columns st.fcd.record.length places ops

/-- The call. -/
def TableCmp.run {σ : Type} (call : TableCmp σ) (sync : Bool) (fuel : ℕ) :
    Except Stop (Option (Cmp σ)) :=
  cmpTable call.extfh call.env call.ops false call.garbage call.scratch sync call.area fuel
    call.files call.st

/-- A call of `cmp_isam` on two files that give their records in increasing order of key 0. -/
structure IsamCmp (σ : Type) where
  extfh : Extfh σ
  env : Env
  area1 : List Byte
  area2 : List Byte
  files : σ
  fcd : Fcd
  filename2 : List Byte
  places : List (ℕ × ℕ)
  records1 : List (List Byte)
  records2 : List (List Byte)
  left : σ → Fcd → Fcd → List (List Byte) → List (List Byte) → Prop
  isam : fcd.isam = true ∨ env.mode = .I
  placed : checkedPlaces fcd.kdb fcd.record.length = .ok places
  increasing1 : Increasing (keyAt places) records1
  increasing2 : Increasing (keyAt places) records2
  readers : TwoReaders extfh left
  reads :
    let blank := List.replicate fcd.record.length 0
    let opened := extfh (.openFile .input) files { fcd with
      openMode := 128
      ignoreLock := true
      fileName := filename2
      record := area2 }
    let started1 := extfh (.start .gt) opened.1 { fcd with ignoreLock := true, record := blank }
    let started2 := extfh (.start .gt) started1.1 { opened.2 with record := blank }
    left started2.1 started1.2 started2.2 records1 records2

/-- The call. -/
def IsamCmp.run {σ : Type} (call : IsamCmp σ) (fuel : ℕ) : Except Stop (Option (CmpIsam σ)) :=
  cmpIsam call.extfh call.env call.area1 call.area2 fuel call.files call.fcd call.filename2

/-- The walk of `cmp_table` up to its loop. -/
theorem TableCmp.run_loop {σ : Type} (call : TableCmp σ) (sync : Bool) (fuel : ℕ) :
    ∃ c, call.run sync fuel = some <$> cmpLoop call.extfh call.ops call.scratch call.places sync
        fuel c ∧
      Walking call.extfh call.st.tab.columns call.st.fcd.record.length c call.bds call.isams ∧
      c.log = [] ∧ c.st.content call.places = call.st.content call.places := by
  obtain ⟨started, st', start, read, here, same⟩ := opStart_fresh call.scannable
    call.garbage.stack call.garbage.inner call.garbage.stack
  let opened := call.extfh (.openFile .input) call.files (isamFcd call.st.fcd call.area)
  let isam := call.extfh (.start .gt) opened.1
    { opened.2 with record := List.replicate call.st.fcd.record.length 0 }
  let next := call.extfh .readNext isam.1 isam.2
  have reclen : st'.fcd.record.length = call.st.fcd.record.length :=
    same.reclen.trans List.length_replicate
  refine ⟨⟨st', next.1, next.2, st'.fcd.status, []⟩, ?_,
    ⟨here, IsamReads.at call.reads, rfl, same.columns, reclen⟩, rfl,
    State.content_congr same.working same.relation same.columns reclen⟩
  rw [TableCmp.run, cmpTable, if_neg (by rw [call.database]; exact Bool.false_ne_true), call.placed]
  change (opStart call.env false call.garbage.stack call.garbage.inner .ge
    (call.st.setRecord (List.replicate call.st.fcd.record.length 0)) >>= _) = _
  rw [start]
  change (opNextPrev call.garbage.stack .n started >>= _) = _
  rw [show opNextPrev call.garbage.stack .n started = .ok st' from read]
  rfl

/-- The walk of `cmp_isam` up to its loop. -/
theorem IsamCmp.run_loop {σ : Type} (call : IsamCmp σ) (fuel : ℕ) :
    ∃ c, call.run fuel = some <$> cmpIsamLoop call.extfh call.places fuel c ∧
      WalkingIsam call.left c call.records1 call.records2 ∧ c.log = [] := by
  obtain ⟨here1, going1⟩ := call.readers.first _ _ _ _ _ call.reads
  obtain ⟨here2, going2⟩ := call.readers.second _ _ _ _ _ going1
  refine ⟨⟨_, _, _, []⟩, ?_, ⟨here1, here2, going2⟩, rfl⟩
  have isam : ¬ (!call.fcd.isam && decide (call.env.mode ≠ .I)) = true := by
    rcases call.isam with isam | mode
    · simp [isam]
    · simp [mode]
  rw [IsamCmp.run, cmpIsam, if_neg isam, call.placed]
  rfl

/-- CMP and SYNC are a merge: `cmp_table` comes to an end, logs the records whose key is on one
side only and the pairs with one key that `reccmp` tells apart, each once, and with SYNC the
table holds the keys of the ISAM file after it, with the records that differed or were missing
taken from there, and otherwise what it held. `cmp_isam` classifies the records of two files in
the same way, comparing whole records. -/
theorem cmp_correct {σ : Type} (table : TableCmp σ) (isam : IsamCmp σ) :
    (∀ sync fuel, table.bds.length + table.isams.length < fuel →
      ∃ c, table.run sync fuel = .ok (some c) ∧
        Classified table.places (byColumns table.st.tab.columns) table.bds table.isams c.log ∧
        (sync = false → c.st.content table.places = table.st.content table.places) ∧
        (sync = true → Synced table.places (byColumns table.st.tab.columns) table.bds table.isams
          (c.st.content table.places))) ∧
      ∀ fuel, isam.records1.length + isam.records2.length < fuel →
        ∃ c, isam.run fuel = .ok (some c) ∧
          Classified isam.places memcmp isam.records1 isam.records2 c.log := by
  constructor
  · intro sync fuel enough
    obtain ⟨c, run, walking, log, content⟩ := table.run_loop sync fuel
    obtain ⟨present, absent⟩ :=
      content_of_perm table.relation table.delivered table.increasingBds
    have consistent :
        Consistent table.places (c.st.content table.places) table.bds table.isams := by
      rw [content]
      exact ⟨present, fun isam _ apart => absent _ apart⟩
    obtain ⟨c', looped, log', content'⟩ := cmpLoop_align table.byKey table.scratch sync fuel
      walking table.increasingBds table.increasingIsams consistent table.wholeIsams enough
    rw [content] at content'
    refine ⟨c', by rw [run, looped]; rfl, ?_, ?_, ?_⟩
    · rw [log', log, List.nil_append]
      exact classified_align _ table.increasingBds table.increasingIsams
    · rintro rfl
      exact content'
    · rintro rfl
      rw [content']
      exact synced_align table.increasingBds table.increasingIsams present absent
  · intro fuel enough
    obtain ⟨c, run, walking, log⟩ := isam.run_loop fuel
    obtain ⟨c', looped, log'⟩ := cmpIsamLoop_align isam.readers fuel walking isam.increasing1
      isam.increasing2 enough
    refine ⟨c', by rw [run, looped]; rfl, ?_⟩
    rw [log', log, List.nil_append]
    exact classified_align _ isam.increasing1 isam.increasing2

/-! ## Two small files -/

/-- A code and a letter. -/
def noteColumns : List Column :=
  [⟨"codigo", .character, 1, 0, 0, true, one_digit, no_decimals_of_one⟩,
    ⟨"letra", .character, 1, 0, 1, false, one_digit, no_decimals_of_one⟩]

/-- The row of a record. -/
def noteRow (record : List Byte) : Row := [.chr (record.take 1), .chr (record.drop 1)]

theorem noteRow_decodes {record area : List Byte} (whole : record.length = 2)
    (room : area.length = 2) : pq2cob noteColumns (noteRow record) area = .ok record := by
  match record, area, whole, room with
  | [code, letter], [_, _], _, _ => rfl

/-- The rows of a table without those under a key. -/
def dropKey (key : List Byte) (rows : List Row) : List Row :=
  rows.filter fun row =>
    (pq2cob noteColumns row [0, 0]).toOption.map (keyAt [(0, 1)]) ≠ some key

theorem find?_dropKey (key other : List Byte) (rows : List Row) :
    (decoded noteColumns 2 (dropKey key rows)).find? (fun record => keyAt [(0, 1)] record = other) =
      if other = key then none
      else (decoded noteColumns 2 rows).find? fun record => keyAt [(0, 1)] record = other := by
  induction rows with
  | nil => exact (ite_self none).symm
  | cons row rows ih =>
      have area : List.replicate 2 (0 : Byte) = [0, 0] := rfl
      unfold dropKey decoded at ih ⊢
      rw [area] at ih ⊢
      cases read : (pq2cob noteColumns row [0, 0]).toOption with
      | none => simpa [List.filter_cons, List.filterMap_cons, read] using ih
      | some record =>
          by_cases here : keyAt [(0, 1)] record = key
          · by_cases same : other = key
            · simpa [List.filter_cons, List.filterMap_cons, read, here, same] using ih
            · have apart : ¬ key = other := fun equal => same equal.symm
              simpa [List.filter_cons, List.filterMap_cons, read, here, same, apart] using ih
          · by_cases same : other = key
            · subst same
              simpa [List.filter_cons, List.filterMap_cons, read, here] using ih
            · by_cases found : keyAt [(0, 1)] record = other
              · simp [read, same, found]
              · simpa [List.filter_cons, List.filterMap_cons, read, here, same, found] using ih

/-- Put rows in the place of those under the key of the record area. -/
def putRows (rows : List Row) (st : State) : Except Stop State :=
  let others := dropKey (keyAt [(0, 1)] st.fcd.record) ((st.conn.working st.tab.relation).getD [])
  let working := Function.update st.conn.working st.tab.relation (some (others ++ rows))
  .ok (st.setConn { st.conn with working := working })

/-- The updates of a table of notes. -/
def noteUpdates : Updates where
  write := fun st => putRows [noteRow st.fcd.record] st
  rewrite := fun st => putRows [noteRow st.fcd.record] st
  delete := putRows []

theorem putRows_spec {rows : List Row} {st : State} (working : Working noteColumns 2 st)
    (held : Option (List Byte)) (read : decoded noteColumns 2 rows = held.toList)
    (keyed : ∀ record ∈ held, keyAt [(0, 1)] record = keyAt [(0, 1)] st.fcd.record) :
    ∃ st', putRows rows st = .ok st' ∧ ScanKept st st' ∧ st'.content [(0, 1)] =
      Function.update (st.content [(0, 1)]) (keyAt [(0, 1)] st.fcd.record) held := by
  refine ⟨_, rfl, ⟨rfl, rfl, rfl, rfl, rfl, id, rfl, rfl, rfl, rfl, rfl, rfl⟩, ?_⟩
  funext key
  simp only [State.content, State.setConn, working.columns, working.whole, Function.update_self,
    Option.getD_some]
  have split : ∀ front : List Row, decoded noteColumns 2 (front ++ rows) =
      decoded noteColumns 2 front ++ held.toList := by
    intro front
    rw [← read]
    exact List.filterMap_append
  rw [split, List.find?_append, find?_dropKey]
  by_cases same : key = keyAt [(0, 1)] st.fcd.record
  · subst same
    rw [if_pos rfl, Option.none_or, Function.update_self]
    cases held with
    | none => rfl
    | some record => simp [keyed record rfl]
  · rw [if_neg same, Function.update_of_ne same]
    cases held with
    | none => simp [State.content, working.columns, working.whole]
    | some record =>
        have apart : ¬ keyAt [(0, 1)] record = key := by
          rw [keyed record rfl]
          exact fun equal => same equal.symm
        simp [apart, State.content, working.columns, working.whole]

theorem noteUpdates_byKey : ByKey noteColumns 2 [(0, 1)] noteUpdates := by
  have row : ∀ st, Working noteColumns 2 st →
      decoded noteColumns 2 [noteRow st.fcd.record] = (some st.fcd.record).toList := by
    intro st working
    have area : (List.replicate 2 0 : List Byte).length = 2 := rfl
    simp only [decoded, List.filterMap_cons, List.filterMap_nil,
      noteRow_decodes working.whole area]
    rfl
  refine ⟨fun st working _ => ?_, fun st _ working _ => ?_, fun st _ working _ => ?_⟩
  · exact putRows_spec working (some st.fcd.record) (row st working) (by simp)
  · exact putRows_spec working (some st.fcd.record) (row st working) (by simp)
  · exact putRows_spec working none rfl (by simp)

/-- Files by name, each with the records that are left to read. -/
def namedFiles (data : List Byte → List (List Byte)) : Extfh (List Byte → List (List Byte)) :=
  fun opcode files fcd =>
    match opcode with
    | .start _ => (Function.update files fcd.fileName (data fcd.fileName),
        { fcd with status := stOk })
    | .readNext =>
        match files fcd.fileName with
        | [] => (files, { fcd with status := stEof })
        | record :: rest => (Function.update files fcd.fileName rest,
            { fcd with status := stOk, record := record })
    | _ => (files, { fcd with status := stOk })

/-- The files `a` and `b`. -/
def twoFiles : List Byte → List (List Byte)
  | [97] => [[65, 88], [66, 81], [68, 87]]
  | [98] => [[65, 88], [66, 89], [67, 90]]
  | _ => []

/-- The fcd of the file `a`. -/
def noteFcd (isam : Bool) : Fcd :=
  { openedFcd 0 [0, 0] with isam := isam, fileName := [97], kdb := singleKey 0 1 }

/-- The table of notes, just opened. -/
def notes : State where
  conn := ⟨fun _ => none, fun _ => some [noteRow [67, 90], noteRow [65, 88], noteRow [66, 89]],
    false, fun _ => none⟩
  pendingCommits := 0
  eofStart := false
  tab := Table.opened 1 1 0 [] noteColumns [[0]] 0 (clearBuffers 2)
  fcd := noteFcd false

theorem notes_scannable :
    Scannable plainServer .ge (notes.setRecord [0, 0]) [[65, 88], [66, 89], [67, 90]] := by
  refine ⟨by decide, rfl, rfl, rfl, rfl, rfl, fun area whole => ?_,
    [.column 0, .compare .ge, .quoted []], [(0, false)], _,
    [noteRow [65, 88], noteRow [66, 89], noteRow [67, 90]], rfl, rfl, by decide +kernel, ?_⟩
  · match area, whole with
    | [_, _], _ => exact ⟨_, rfl⟩
  · have reads : ∀ record : List Byte, record.length = 2 →
        Decodes noteColumns 2 (noteRow record) record :=
      fun record whole => ⟨whole, fun area room => noteRow_decodes whole room⟩
    exact .cons (reads _ rfl) (.cons (reads _ rfl) (.cons (reads _ rfl) .nil))

/-- CMP of the table of notes and the file `a`. -/
def notesCmp : TableCmp (List Byte → List (List Byte)) where
  extfh := namedFiles twoFiles
  env := plainServer
  ops := noteUpdates
  garbage := ⟨fun _ => 0, fun _ => 0, clearBuffers 2⟩
  scratch := fun _ _ => 0
  area := [0, 0]
  files := fun _ => []
  st := notes
  places := [(0, 1)]
  rows := [noteRow [67, 90], noteRow [65, 88], noteRow [66, 89]]
  bds := [[65, 88], [66, 89], [67, 90]]
  isams := [[65, 88], [66, 81], [68, 87]]
  database := rfl
  placed := by decide +kernel
  scannable := notes_scannable
  relation := rfl
  delivered := by decide +kernel
  increasingBds := by simp only [Increasing]; decide +kernel
  increasingIsams := by simp only [Increasing]; decide +kernel
  wholeIsams := by decide
  reads := ⟨rfl, rfl, rfl, rfl, rfl, rfl, (by decide : stEof ≠ stOk)⟩
  byKey := noteUpdates_byKey

/-- CMPISAM of the files `a` and `b`. -/
def filesCmp : IsamCmp (List Byte → List (List Byte)) where
  extfh := namedFiles twoFiles
  env := plainServer
  area1 := [0, 0]
  area2 := [0, 0]
  files := fun _ => []
  fcd := noteFcd true
  filename2 := [98]
  places := [(0, 1)]
  records1 := [[65, 88], [66, 81], [68, 87]]
  records2 := [[65, 88], [66, 89], [67, 90]]
  left := fun files fcd1 fcd2 records1 records2 => fcd1.fileName ≠ fcd2.fileName ∧
    files fcd1.fileName = records1 ∧ files fcd2.fileName = records2
  isam := Or.inl rfl
  placed := by decide +kernel
  increasing1 := by simp only [Increasing]; decide +kernel
  increasing2 := by simp only [Increasing]; decide +kernel
  readers := by
    refine ⟨?_, ?_⟩
    · rintro files fcd1 fcd2 _ _ ⟨apart, rfl, rfl⟩
      cases left : files fcd1.fileName with
      | nil => simp [namedFiles, left, FcdAt, apart, stEof, stOk]
      | cons record rest => simp [namedFiles, left, FcdAt, apart, Ne.symm apart]
    · rintro files fcd1 fcd2 _ _ ⟨apart, rfl, rfl⟩
      cases left : files fcd2.fileName with
      | nil => simp [namedFiles, left, FcdAt, apart, stEof, stOk]
      | cons record rest => simp [namedFiles, left, FcdAt, apart]
  reads := ⟨by decide, rfl, rfl⟩

/-- SYNC of the table of notes: the letter of B is replaced, C is removed and D is inserted.
CMPISAM of the files finds the same three differences. -/
theorem cmp_notes :
    (∃ c, notesCmp.run true 7 = .ok (some c) ∧ .differ [66, 89] [66, 81] ∈ c.log ∧
      .onlyBd [67, 90] ∈ c.log ∧ .onlyIsam [68, 87] ∈ c.log ∧
      c.st.content [(0, 1)] [66] = some [66, 81] ∧ c.st.content [(0, 1)] [67] = none) ∧
    ∃ c, filesCmp.run 7 = .ok (some c) ∧ .onlyBd [68, 87] ∈ c.log := by
  obtain ⟨table, files⟩ := cmp_correct notesCmp filesCmp
  obtain ⟨c, run, classified, _, synced⟩ := table true 7 (by decide)
  obtain ⟨c', run', classified'⟩ := files 7 (by decide)
  refine ⟨⟨c, run, (classified.differ _ _).mpr ?_, (classified.onlyBd _).mpr ?_,
    (classified.onlyIsam _).mpr ?_, ?_, ?_⟩, c', run', (classified'.onlyBd _).mpr ?_⟩
  · exact ⟨by decide, by decide, by decide, by decide +kernel⟩
  · exact ⟨by decide, by decide +kernel⟩
  · exact ⟨by decide, by decide +kernel⟩
  · exact (synced rfl).replaced [66, 89] (by decide) [66, 81] (by decide) rfl (by decide +kernel)
  · exact (synced rfl).removed [67] (by decide +kernel)
  · exact ⟨by decide, by decide +kernel⟩

end Pqfh
