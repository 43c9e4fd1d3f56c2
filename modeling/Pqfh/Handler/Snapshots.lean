import Pqfh.Handler.Browse
import Pqfh.Handler.Commits

/-! # Scans see snapshots

In mode B a program works on several open files, reads some of them in order and commits when it
likes. A START takes a snapshot of the records that it selects, and the READs after it give out the
records of the snapshot one by one, whatever is written, rewritten or deleted meanwhile, in the same
file or in others (`Pqfh.scans_see_snapshots`). The calls by the primary key see the records as they
are.
-/

namespace Pqfh

open KeyedStore

variable {σ : Type}

/-! ## Calls -/

/-- A call of a program that also reads files in order, with the fcd as the program leaves it and
what the memory happens to hold. -/
inductive BrowseCall where
  | file (call : FileCall)
  | start (op : Comparison) (fcd : Fcd) (garbage : Garbage)
  | read (dir : Dir) (fcd : Fcd) (garbage : Garbage)

def BrowseCall.opcode : BrowseCall → Opcode
  | .file call => call.op.opcode
  | .start op _ _ => .start op
  | .read .n _ _ => .readNext
  | .read .p _ _ => .readPrevious

def BrowseCall.fcd : BrowseCall → Fcd
  | .file call => call.fcd
  | .start _ fcd _ => fcd
  | .read _ fcd _ => fcd

def BrowseCall.garbage : BrowseCall → Garbage
  | .file call => call.garbage
  | .start _ _ garbage => garbage
  | .read _ _ garbage => garbage

/-- A call of `pqfh`, with the fcd that it gives back. -/
def callBrowse (extfh : Extfh σ) (env : Env) (call : BrowseCall) (sys : Sys σ) :
    Except Stop (Fcd × Sys σ) := do
  let sys ← pqfh extfh env call.garbage call.opcode { sys with fcd := call.fcd }
  return (sys.fcd, sys)

/-! ## What a program sees -/

/-- The records of the tables, and the scans of the open files. -/
structure Scene where
  stores : ℕ → Records (List Byte) (List Byte)
  browses : ℕ → Browse

/-- What a call may return and leave. Only a START leaves a choice: the order of records whose keys
are equal. -/
inductive FileSet.Serves (files : FileSet) (pg : Postgres) :
    BrowseCall → Scene → Fcd → Scene → Prop
  | file (call : FileCall) (scene : Scene) :
      files.Serves pg (.file call) scene
        (files.answer call (files.serve call scene.stores).1)
        { scene with stores := (files.serve call scene.stores).2 }
  | start {op : Comparison} {fcd : Fcd} {garbage : Garbage} {relation : ℕ}
      {key : List (ℕ × Value)} {left : List (List Byte)} (scene : Scene)
      (here : files.relation fcd.fileId = some relation)
      (stands : (files.layout relation).startKey fcd.record
        (whereColumns (files.layout relation).keys fcd.keyId) = some key)
      (snapshot : Snapshot pg (files.layout relation) op fcd.keyId key (scene.stores relation)
        left) :
      files.Serves pg (.start op fcd garbage) scene
        (fcd.answered (totalLen (files.layout relation).columns) (foundFirst left))
        { scene with
          browses := Function.update scene.browses fcd.fileId
            ((scene.browses fcd.fileId).started (files.layout relation) op fcd.keyId garbage.inner
              left) }
  | first {dir : Dir} {fcd : Fcd} {garbage : Garbage} {left : List (List Byte)} (scene : Scene)
      (scanned : (scene.browses fcd.fileId).place = some ⟨true, left⟩) :
      files.Serves pg (.read dir fcd garbage) scene { fcd with status := stOk }
        { scene with
          browses := Function.update scene.browses fcd.fileId
            ((scene.browses fcd.fileId).taken left) }
  | next {dir : Dir} {fcd : Fcd} {garbage : Garbage} {relation : ℕ} {record : List Byte}
      {left : List (List Byte)} (scene : Scene) (here : files.relation fcd.fileId = some relation)
      (scanned : (scene.browses fcd.fileId).place = some ⟨false, record :: left⟩) :
      files.Serves pg (.read dir fcd garbage) scene
        (fcd.answered (totalLen (files.layout relation).columns) (.found record))
        { scene with
          browses := Function.update scene.browses fcd.fileId
            ((scene.browses fcd.fileId).passed (files.layout relation) dir fcd.keyId garbage.stack
              record left) }
  | ended {dir : Dir} {fcd : Fcd} {garbage : Garbage} (scene : Scene)
      (scanned : (scene.browses fcd.fileId).place = some ⟨false, []⟩) :
      files.Serves pg (.read dir fcd garbage) scene { fcd with status := stEof } scene

/-- An open file that is read in order by one of its keys. -/
structure FileSet.Reads (files : FileSet) (relation : ℕ) (fcd : Fcd) : Prop where
  here : files.relation fcd.fileId = some relation
  opened : fcd.openMode ≠ 128
  kept : fcd.isam = false
  known : fcd.keyId < (files.layout relation).keys.length
  room : totalLen (files.layout relation).columns ≤ fcd.record.length

/-- What is asked of a call. A READ in order comes after a START, and the first one finds the record
area as START has left it. -/
def FileSet.Permits (files : FileSet) (env : Env) (call : BrowseCall) (scene : Scene) : Prop :=
  match call with
  | .file call => files.Admits call
  | .start op fcd garbage => ∃ relation key, files.Reads relation fcd ∧
      Asks env (files.layout relation) op fcd.keyId fcd.record key ∧
      (scene.browses fcd.fileId).Fresh (files.layout relation) op fcd.keyId garbage.stack
        fcd.record
  | .read _ fcd _ => ∃ relation place, files.Reads relation fcd ∧
      (scene.browses fcd.fileId).place = some place ∧
      (place.waiting = true → ∃ record ∈ place.left.head?,
        fcd.record.take (totalLen (files.layout relation).columns) = record)

/-- A process stands for the records of the tables and the scans of the open files. No table is
accessed as a weak entity. -/
structure FileSet.Browsing (files : FileSet) (proc : Process) (scene : Scene) : Prop where
  stands : files.Stands proc scene.stores
  named : proc.Named
  going : proc.eofStart = false
  strong : proc.weak = []
  browses : ∀ file relation tab, files.relation file = some relation →
    proc.tables file = some tab →
      tab.name = (files.layout relation).name ∧
      tab.partialKey = (files.layout relation).partialKey ∧
      tab.Stays (proc.conn.rowsAt file) (scene.browses file)

/-! ## Steps -/

section Steps

variable {extfh : Extfh σ} {env : Env} {files : FileSet} {sys : Sys σ} {scene : Scene}

/-- What a START asks for depends on the columns and the keys alone. -/
theorem Asks.congr {tab tab' : Table} {op : Comparison} {k : ℕ} {record : List Byte}
    {key : List (ℕ × Value)} (asks : Asks env tab op k record key)
    (columns : tab'.columns = tab.columns) (keys : tab'.keys = tab.keys)
    (name : tab'.name = tab.name) (partialKey : tab'.partialKey = tab.partialKey) :
    Asks env tab' op k record key where
  known := by rw [keys]; exact asks.known
  whole := by
    unfold partialColumns
    rw [name, partialKey]
    exact asks.whole
  decimals := by
    rw [keys, Table.column_congr columns]
    exact asks.decimals
  stands := by
    unfold Table.startKey
    rw [keys, Table.column_congr columns]
    exact asks.stands
  written := by
    rw [getwhere_congr columns keys name partialKey]
    exact asks.written

/-- What a START finds depends on the columns and the keys alone. -/
theorem Snapshot.congr {pg : Postgres} {tab tab' : Table} {op : Comparison} {k : ℕ}
    {key : List (ℕ × Value)} {store : Records (List Byte) (List Byte)} {left : List (List Byte)}
    (snapshot : Snapshot pg tab op k key store left) (columns : tab'.columns = tab.columns)
    (keys : tab'.keys = tab.keys) : Snapshot pg tab' op k key store left where
  distinct := by
    rw [keyOf_congr columns keys 0]
    exact snapshot.distinct
  selected := by
    rw [keyOf_congr columns keys 0, columns]
    exact snapshot.selected
  sorted := by
    rw [keys, columns]
    exact snapshot.sorted

/-- The key that is copied depends on the columns and the keys alone. -/
theorem copiedKey_congr {tab tab' : Table} (columns : tab'.columns = tab.columns)
    (keys : tab'.keys = tab.keys) : tab'.copiedKey = tab.copiedKey := by
  funext k
  unfold Table.copiedKey
  rw [keyOf_congr columns keys k]

/-- The rows stay when the table of an open file is read in order. -/
theorem FileSet.Browsing.put (browsing : files.Browsing sys.proc scene) {relation : ℕ}
    (here : files.relation sys.fcd.fileId = some relation) {tab : Table}
    (live : sys.proc.tables sys.fcd.fileId = some tab) (isOpen : files.Open relation tab)
    {st' : State} (browses : Browses (sys.state tab) st') {browse : Browse}
    (stays : st'.tab.Stays (st'.conn.rowsAt tab.handle) browse) :
    files.Browsing (sys.put st').proc
      { scene with browses := Function.update scene.browses sys.fcd.fileId browse } where
  stands := by
    refine ⟨browses.running.trans browsing.stands.running, ?_, ?_⟩
    · intro file other there
      change files.kept other ∧ ∃ tab', Function.update sys.proc.tables sys.fcd.fileId
        (some st'.tab) file = some tab' ∧ _
      by_cases same : file = sys.fcd.fileId
      · subst same
        rw [here, Option.some_inj] at there
        subst there
        rw [Function.update_self]
        exact ⟨(browsing.stands.tables _ _ here).1, _, rfl, browses.table isOpen.table,
          browses.relation.trans isOpen.named, browses.columns.trans isOpen.columns,
          browses.keys.trans isOpen.keys⟩
      · rw [Function.update_of_ne same]
        exact browsing.stands.tables file other there
    · change ∀ other, files.kept other → ∃ records, st'.conn.working other = _ ∧ _
      rw [browses.working]
      exact browsing.stands.rows
  named := by
    intro file tab' there
    change Function.update sys.proc.tables sys.fcd.fileId (some st'.tab) file = some tab' at there
    by_cases same : file = sys.fcd.fileId
    · rw [same, Function.update_self, Option.some_inj] at there
      rw [← there, same]
      exact browses.handle.trans (browsing.named _ tab live)
    · rw [Function.update_of_ne same] at there
      exact browsing.named file tab' there
  going := browses.eofStart.trans browsing.going
  strong := browsing.strong
  browses := by
    intro file other tab' known there
    change Function.update sys.proc.tables sys.fcd.fileId (some st'.tab) file = some tab' at there
    change _ ∧ _ ∧ tab'.Stays (st'.conn.rowsAt file) (Function.update scene.browses _ _ file)
    by_cases same : file = sys.fcd.fileId
    · subst same
      rw [Function.update_self, Option.some_inj] at there
      rw [Function.update_self, ← there, browses.name, browses.partialKey]
      obtain ⟨name, partialKey, _⟩ := browsing.browses _ other tab known live
      rw [browsing.named _ tab live] at stays
      exact ⟨name, partialKey, stays⟩
    · rw [Function.update_of_ne same] at there ⊢
      obtain ⟨name, partialKey, before⟩ := browsing.browses file other tab' known there
      refine ⟨name, partialKey, ?_⟩
      unfold Conn.rowsAt
      rw [browses.others file (by
        change file ≠ tab.handle
        rw [browsing.named _ tab live]
        exact same)]
      exact before

/-- A call by the primary key leaves the scans. -/
theorem FileSet.Browsing.file (mode : env.mode = .B)
    (server : ∀ file relation, files.relation file = some relation →
      KeyedServer env.pg relation (files.layout relation).keys)
    (browsing : files.Browsing sys.proc scene) {call : FileCall} (admits : files.Admits call) :
    ∃ sys', callBrowse extfh env (.file call) sys =
        .ok (files.answer call (files.serve call scene.stores).1, sys') ∧
      files.Browsing sys'.proc { scene with stores := (files.serve call scene.stores).2 } := by
  obtain ⟨sys', called, stands, _, scans⟩ :=
    @callFile_refines σ extfh env files mode server call sys scene.stores admits browsing.stands
  refine ⟨sys', called, stands, ?_, scans.eofStart.trans browsing.going,
    scans.weak.trans browsing.strong, ?_⟩
  · intro file tab' there
    obtain ⟨tab, live, scan⟩ := scans.tables file tab' there
    exact scan.handle.trans (browsing.named file tab live)
  · intro file relation tab' known there
    obtain ⟨tab, live, scan⟩ := scans.tables file tab' there
    obtain ⟨name, partialKey, stays⟩ := browsing.browses file relation tab known live
    obtain ⟨_, before, live₁, isOpen⟩ := browsing.stands.tables file relation known
    obtain ⟨_, after, live₂, isOpen'⟩ := stands.tables file relation known
    obtain rfl := Option.some.inj (live₁.symm.trans live)
    obtain rfl := Option.some.inj (live₂.symm.trans there)
    refine ⟨scan.name.trans name, scan.partialKey.trans partialKey, ?_⟩
    unfold Conn.rowsAt at stays ⊢
    rw [scans.cursors]
    exact stays.scansOn scan (isOpen'.columns.trans isOpen.columns.symm)

/-- An operation that the switch of `pqfh` makes on the table of an open file. -/
theorem pqfh_of {garbage : Garbage} {opcode : Opcode} {op : State → Except Stop State}
    {tab : Table} {st' : State} (mode : env.mode = .B) (kept : sys.fcd.isam = false)
    (opened : sys.fcd.openMode ≠ 128) (live : sys.proc.tables sys.fcd.fileId = some tab)
    (other : opcode ≠ .commit)
    (switch : databaseOp extfh env garbage [] opcode sys =
      unlessShadow env sys (sys.run stNotOpenedRead op))
    (operated : op (sys.state tab) = .ok st') :
    pqfh extfh env garbage opcode sys = .ok (sys.put st') := by
  rw [pqfh_database mode kept other, switch, Sys.run_of opened live operated]
  unfold unlessShadow
  rw [mode, if_neg (by decide)]

/-- START does what the browser does. -/
theorem FileSet.Browsing.start (mode : env.mode = .B) (browsing : files.Browsing sys.proc scene)
    {op : Comparison} {garbage : Garbage}
    (permits : files.Permits env (.start op sys.fcd garbage) scene) :
    ∃ sys' scene', pqfh extfh env garbage (.start op) sys = .ok sys' ∧
      files.Serves env.pg (.start op sys.fcd garbage) scene sys'.fcd scene' ∧
      files.Browsing sys'.proc scene' := by
  obtain ⟨relation, key, reads, asks, fresh⟩ := permits
  obtain ⟨tab, records, live, isOpen, keyed, store⟩ :=
    browsing.stands.keyed reads.here reads.opened reads.room
  obtain ⟨name, partialKey, stays⟩ := browsing.browses _ relation tab reads.here live
  have copied := copiedKey_congr isOpen.columns isOpen.keys
  have handle : tab.handle = sys.fcd.fileId := browsing.named _ tab live
  obtain ⟨left, st', started, browses, snapshot, answer, stays'⟩ :=
    @opStart_browses env op (sys.state tab) records
      (scene.browses sys.fcd.fileId) keyed browsing.going key
      (asks.congr isOpen.columns isOpen.keys name partialKey)
      (by change tab.Stays (sys.proc.conn.rowsAt tab.handle) _; rw [handle]; exact stays)
      garbage.stack garbage.inner
      (by
        change (scene.browses sys.fcd.fileId).Fresh tab op sys.fcd.keyId garbage.stack _
        unfold Browse.Fresh
        rw [copied]
        exact fresh)
  have called : pqfh extfh env garbage (.start op) sys = .ok (sys.put st') := by
    refine pqfh_of mode reads.kept reads.opened live (by exact nofun) rfl ?_
    rw [browsing.strong]
    exact started
  refine ⟨sys.put st', _, called, ?_, browsing.put reads.here live isOpen browses stays'⟩
  have snapshot' : Snapshot env.pg (files.layout relation) op sys.fcd.keyId key
      (scene.stores relation) left := by
    rw [store]
    exact snapshot.congr isOpen.columns.symm isOpen.keys.symm
  have place : (scene.browses sys.fcd.fileId).started tab op sys.fcd.keyId garbage.inner left =
      (scene.browses sys.fcd.fileId).started (files.layout relation) op sys.fcd.keyId garbage.inner
        left := by
    unfold Browse.started
    rw [copied]
  have reply : st'.fcd = sys.fcd.answered (totalLen tab.columns) (foundFirst left) := answer
  have served : files.Serves env.pg (.start op sys.fcd garbage) scene _ _ :=
    .start scene reads.here asks.stands snapshot'
  rw [← place, ← isOpen.columns, ← reply] at served
  exact served

/-- READ NEXT and READ PREVIOUS do what the browser does. -/
theorem FileSet.Browsing.read (mode : env.mode = .B) (browsing : files.Browsing sys.proc scene)
    {dir : Dir} {garbage : Garbage}
    (permits : files.Permits env (.read dir sys.fcd garbage) scene) :
    ∃ sys' scene', pqfh extfh env garbage (BrowseCall.read dir sys.fcd garbage).opcode sys =
        .ok sys' ∧
      files.Serves env.pg (.read dir sys.fcd garbage) scene sys'.fcd scene' ∧
      files.Browsing sys'.proc scene' := by
  obtain ⟨relation, place, reads, scanned, _⟩ := permits
  obtain ⟨tab, records, live, isOpen, keyed, _⟩ :=
    browsing.stands.keyed reads.here reads.opened reads.room
  have handle : tab.handle = sys.fcd.fileId := browsing.named _ tab live
  have stays : (sys.state tab).tab.Stays
      ((sys.state tab).conn.rowsAt (sys.state tab).tab.handle) (scene.browses sys.fcd.fileId) := by
    change tab.Stays (sys.proc.conn.rowsAt tab.handle) _
    rw [handle]
    exact (browsing.browses _ relation tab reads.here live).2.2
  have called : ∀ {st' : State}, opNextPrev garbage.stack dir (sys.state tab) = .ok st' →
      pqfh extfh env garbage (BrowseCall.read dir sys.fcd garbage).opcode sys =
        .ok (sys.put st') := by
    intro st' read
    cases dir with
    | n => exact pqfh_of mode reads.kept reads.opened live (by exact nofun) rfl read
    | p => exact pqfh_of mode reads.kept reads.opened live (by exact nofun) rfl read
  obtain ⟨waiting, left⟩ := place
  cases waiting with
  | true =>
      obtain ⟨st', read, browses, fcd, stays'⟩ :=
        opNextPrev_takes keyed.opened scanned stays garbage.stack dir
      refine ⟨sys.put st', _, called read, ?_, browsing.put reads.here live isOpen browses stays'⟩
      change files.Serves env.pg _ scene st'.fcd _
      rw [fcd]
      exact .first scene scanned
  | false =>
      have known : sys.fcd.keyId < tab.keys.length := by
        rw [isOpen.keys]
        exact reads.known
      obtain ⟨st', read, browses, outcome⟩ :=
        opNextPrev_browses keyed browsing.going known scanned rfl stays garbage.stack dir
      cases left with
      | nil =>
          obtain ⟨fcd, stays'⟩ := outcome
          refine ⟨sys.put st', scene, called read, ?_, ?_⟩
          · change files.Serves env.pg _ scene st'.fcd _
            rw [fcd]
            exact .ended scene scanned
          · have after := browsing.put reads.here live isOpen browses stays'
            rw [Function.update_eq_self] at after
            exact after
      | cons record rest =>
          obtain ⟨fcd, stays'⟩ := outcome
          refine ⟨sys.put st', _, called read, ?_,
            browsing.put reads.here live isOpen browses stays'⟩
          have reply : st'.fcd = sys.fcd.answered (totalLen tab.columns) (.found record) := fcd
          have passed : (scene.browses sys.fcd.fileId).passed tab dir sys.fcd.keyId garbage.stack
              record rest = (scene.browses sys.fcd.fileId).passed (files.layout relation) dir
                sys.fcd.keyId garbage.stack record rest := by
            unfold Browse.passed
            rw [copiedKey_congr isOpen.columns isOpen.keys]
          have served : files.Serves env.pg (.read dir sys.fcd garbage) scene _ _ :=
            .next scene reads.here scanned
          rw [← passed, ← isOpen.columns, ← reply] at served
          exact served

/-- A call does one of the things that it may do on indexed files. -/
theorem callBrowse_simulates (mode : env.mode = .B)
    (server : ∀ file relation, files.relation file = some relation →
      KeyedServer env.pg relation (files.layout relation).keys)
    (call : BrowseCall) (sys : Sys σ) (scene : Scene) (permits : files.Permits env call scene)
    (browsing : files.Browsing sys.proc scene) :
    ∃ reply sys' scene', callBrowse extfh env call sys = .ok (reply, sys') ∧
      files.Serves env.pg call scene reply scene' ∧ files.Browsing sys'.proc scene' := by
  have answered : ∀ {sys' : Sys σ},
      pqfh extfh env call.garbage call.opcode { sys with fcd := call.fcd } = .ok sys' →
      callBrowse extfh env call sys = .ok (sys'.fcd, sys') := by
    intro sys' called
    unfold callBrowse
    rw [called]
    rfl
  cases call with
  | file call =>
      obtain ⟨sys', called, after⟩ := browsing.file mode server permits
      exact ⟨_, sys', _, called, .file call scene, after⟩
  | start op fcd garbage =>
      obtain ⟨sys', scene', called, served, after⟩ :=
        @FileSet.Browsing.start σ extfh env files { sys with fcd := fcd } scene mode browsing op
          garbage permits
      exact ⟨_, sys', scene', answered called, served, after⟩
  | read dir fcd garbage =>
      obtain ⟨sys', scene', called, served, after⟩ :=
        @FileSet.Browsing.read σ extfh env files { sys with fcd := fcd } scene mode browsing dir
          garbage permits
      exact ⟨_, sys', scene', answered called, served, after⟩

end Steps

/-- **Mode B.** In every run of STARTs, of READs in order and of calls by the primary key on open
files, and of COMMITs, the program sees what it would see of indexed files that take a snapshot at
each START. Afterwards the tables hold the records of these files, and each open file is where its
scan is. -/
theorem scans_see_snapshots (extfh : Extfh σ) (env : Env) (mode : env.mode = .B)
    (files : FileSet) (server : ∀ file relation, files.relation file = some relation →
      KeyedServer env.pg relation (files.layout relation).keys)
    (calls : List BrowseCall) (sys : Sys σ) (scene : Scene)
    (admitted : AlwaysAdmitted (files.Serves env.pg) (files.Permits env) calls scene)
    (browsing : files.Browsing sys.proc scene) :
    ∃ replies sys' scene', run (callBrowse extfh env) calls sys = .ok (replies, sys') ∧
      Outcome (files.Serves env.pg) calls scene replies scene' ∧
      files.Browsing sys'.proc scene' := by
  exact run_simulates (@callBrowse_simulates σ extfh env files mode server) calls sys scene admitted
    browsing

/-! ## What a scan gives out -/

/-- A call is a START of a file. -/
def BrowseCall.Starts (file : ℕ) : BrowseCall → Prop
  | .start _ fcd _ => fcd.fileId = file
  | _ => False

/-- A call is a READ of a file. -/
def BrowseCall.Reads (file : ℕ) : BrowseCall → Prop
  | .read _ fcd _ => fcd.fileId = file
  | _ => False

/-- The record that a READ of a file gives out, unless the file is at its end. -/
def BrowseCall.givesOut (size file : ℕ) : BrowseCall × Fcd → Option (List Byte)
  | (.read _ fcd _, reply) =>
      if fcd.fileId = file ∧ reply.status = stOk then some (reply.record.take size) else none
  | _ => none

/-- A READ with status 00 gives out its record. -/
theorem givesOut_read {size : ℕ} {dir : Dir} {fcd reply : Fcd} {garbage : Garbage}
    (fine : reply.status = stOk) :
    BrowseCall.givesOut size fcd.fileId (.read dir fcd garbage, reply) =
      some (reply.record.take size) := if_pos ⟨rfl, fine⟩

/-- What the READs of a file have given out, and what is left then, is what was left before; a READ
finds the end only when nothing is left. -/
structure GivesOut (size file : ℕ) (calls : List BrowseCall) (replies : List Fcd)
    (left left' : List (List Byte)) : Prop where
  records : left = (calls.zip replies).filterMap (BrowseCall.givesOut size file) ++ left'
  ended : ∀ answered ∈ calls.zip replies, answered.1.Reads file → answered.2.status = stEof →
    left' = []

/-- The records that are given out follow one another. -/
theorem GivesOut.cons {size file : ℕ} {call : BrowseCall} {reply : Fcd} {calls : List BrowseCall}
    {replies : List Fcd} {left left₁ left' : List (List Byte)}
    (first : GivesOut size file [call] [reply] left left₁)
    (rest : GivesOut size file calls replies left₁ left') :
    GivesOut size file (call :: calls) (reply :: replies) left left' where
  records := by
    rw [first.records, rest.records, ← List.append_assoc, ← List.filterMap_append]
    rfl
  ended := by
    intro answered member reads atEnd
    rcases List.mem_cons.mp member with same | later
    · have none_left : left₁ = [] :=
        first.ended answered (List.mem_singleton.mpr same) reads atEnd
      exact (List.append_eq_nil_iff.mp (rest.records.symm.trans none_left)).2
    · exact rest.ended answered later reads atEnd

/-- A call that gives out no record leaves what is left. -/
theorem GivesOut.none {size file : ℕ} {call : BrowseCall} {reply : Fcd} {left : List (List Byte)}
    (silent : BrowseCall.givesOut size file (call, reply) = Option.none)
    (ended : call.Reads file → reply.status = stEof → left = []) :
    GivesOut size file [call] [reply] left left where
  records := by
    rw [List.zip_cons_cons, List.filterMap_cons_none silent]
    rfl
  ended := by
    intro answered member
    rw [List.mem_singleton.mp member]
    exact ended

/-- The record at the head is given out. -/
theorem GivesOut.head {size file : ℕ} {call : BrowseCall} {reply : Fcd} {record : List Byte}
    {left : List (List Byte)}
    (given : BrowseCall.givesOut size file (call, reply) = some record)
    (fine : reply.status = stOk) : GivesOut size file [call] [reply] (record :: left) left where
  records := by
    rw [List.zip_cons_cons, List.filterMap_cons_some given]
    rfl
  ended := by
    intro answered member _ atEnd
    rw [List.mem_singleton.mp member, fine] at atEnd
    exact absurd atEnd.symm (by decide)

/-- The file that was moved stands where it was moved to. -/
theorem place_here {browses : ℕ → Browse} {browse : Browse} {file : ℕ} :
    (Function.update browses file browse file).place = browse.place :=
  congrArg Browse.place (Function.update_self ..)

/-- The scans of other files are where they were. -/
theorem place_elsewhere {browses : ℕ → Browse} {browse : Browse} {file other : ℕ}
    (elsewhere : file ≠ other) :
    (Function.update browses other browse file).place = (browses file).place :=
  congrArg Browse.place (Function.update_of_ne elsewhere ..)

/-- The end is no success. -/
theorem stEof_ne_stOk : stEof ≠ stOk := by decide

section Scans

variable {pg : Postgres} {env : Env} {files : FileSet} {file relation : ℕ}

/-- A READ of the file gives out the record at the head, any other call none. -/
theorem FileSet.Serves.givesOut {call : BrowseCall} {scene scene' : Scene} {reply : Fcd}
    (served : files.Serves pg call scene reply scene') (permits : files.Permits env call scene)
    (here : files.relation file = some relation) {place : Place}
    (scanned : (scene.browses file).place = some place)
    (full : ∀ record ∈ place.left, record.length = totalLen (files.layout relation).columns)
    (unstarted : ¬ call.Starts file) :
    ∃ place', (scene'.browses file).place = some place' ∧
      GivesOut (totalLen (files.layout relation).columns) file [call] [reply] place.left
        place'.left := by
  cases served with
  | file call => exact ⟨place, scanned, .none rfl fun reads => reads.elim⟩
  | @start _ fcd _ _ _ _ _ _ _ _ =>
      have elsewhere : file ≠ fcd.fileId := fun same => unstarted same.symm
      exact ⟨place, (place_elsewhere elsewhere).trans scanned, .none rfl fun reads => reads.elim⟩
  | @first dir fcd garbage left _ waiting =>
      by_cases same : fcd.fileId = file
      · subst same
        obtain ⟨relation', place', reads, known, area⟩ := permits
        obtain rfl := Option.some.inj (known.symm.trans scanned)
        obtain rfl := Option.some.inj (scanned.symm.trans waiting)
        obtain rfl := Option.some.inj (here.symm.trans reads.here)
        obtain ⟨record, head, filled⟩ := area rfl
        obtain ⟨rest, rfl⟩ : ∃ rest, left = record :: rest :=
          ⟨left.tail, (List.cons_head?_tail head).symm⟩
        refine ⟨⟨false, rest⟩, place_here, ?_⟩
        exact .head ((givesOut_read rfl).trans (congrArg some filled)) rfl
      · exact ⟨place, (place_elsewhere (Ne.symm same)).trans scanned,
          .none (if_neg fun both => same both.1) fun reads => absurd reads same⟩
  | @next dir fcd garbage relation' record left _ there past =>
      by_cases same : fcd.fileId = file
      · subst same
        obtain rfl := Option.some.inj (here.symm.trans there)
        obtain rfl := Option.some.inj (scanned.symm.trans past)
        refine ⟨⟨false, left⟩, place_here, ?_⟩
        refine .head ((givesOut_read rfl).trans (congrArg some ?_)) rfl
        exact List.take_left' (full record List.mem_cons_self)
      · exact ⟨place, (place_elsewhere (Ne.symm same)).trans scanned,
          .none (if_neg fun both => same both.1) fun reads => absurd reads same⟩
  | @ended dir fcd garbage _ past =>
      refine ⟨place, scanned, .none (if_neg fun both => absurd both.2 stEof_ne_stOk) ?_⟩
      intro same _
      change fcd.fileId = file at same
      rw [same] at past
      obtain rfl := Option.some.inj (scanned.symm.trans past)
      rfl

/-- The READs of a file give out its scan, whatever the calls between them do. -/
theorem outcome_givesOut {calls : List BrowseCall} {scene scene' : Scene} {replies : List Fcd}
    (outcome : Outcome (files.Serves pg) calls scene replies scene')
    (admitted : AlwaysAdmitted (files.Serves pg) (files.Permits env) calls scene)
    (here : files.relation file = some relation) {place : Place}
    (scanned : (scene.browses file).place = some place)
    (full : ∀ record ∈ place.left, record.length = totalLen (files.layout relation).columns)
    (unstarted : ∀ call ∈ calls, ¬ call.Starts file) :
    ∃ left', GivesOut (totalLen (files.layout relation).columns) file calls replies place.left
      left' := by
  induction outcome generalizing place with
  | nil scene => exact ⟨place.left, rfl, fun _ member => by cases member⟩
  | @cons call calls scene scene₁ scene' reply replies served _ ih =>
      obtain ⟨now, later⟩ := List.forall_mem_cons.mp unstarted
      obtain ⟨place₁, scanned₁, first⟩ := served.givesOut admitted.1 here scanned full now
      have full₁ : ∀ record ∈ place₁.left,
          record.length = totalLen (files.layout relation).columns := by
        intro record member
        apply full
        rw [first.records]
        exact List.mem_append_right _ member
      obtain ⟨left', rest⟩ := ih (admitted.2 reply scene₁ served) scanned₁ full₁ later
      exact ⟨left', first.cons rest⟩

/-- The records that a START selects fill the record area. -/
theorem FileSet.Stands.full {proc : Process} {stores : ℕ → Records (List Byte) (List Byte)}
    (stands : files.Stands proc stores) (here : files.relation file = some relation)
    {op : Comparison} {k : ℕ} {key : List (ℕ × Value)} {left : List (List Byte)}
    (snapshot : Snapshot pg (files.layout relation) op k key (stores relation) left) :
    ∀ record ∈ left, record.length = totalLen (files.layout relation).columns := by
  intro record member
  obtain ⟨records, _, recordOf, _, store⟩ := stands.rows relation (stands.tables _ _ here).1
  have stored := ((snapshot.selected record).mp member).1
  rw [store] at stored
  exact (recordOf record (mem_of_ofList stored).1).full

end Scans

/-- **Mode B.** The READs of a file after a START give out the records that the START has selected,
each once and in the order of their keys, and the end comes after the last of them, whatever calls
are made between: they may write the file, and START and READ others. -/
theorem reads_give_snapshot (extfh : Extfh σ) (env : Env) (mode : env.mode = .B)
    (files : FileSet) (server : ∀ file relation, files.relation file = some relation →
      KeyedServer env.pg relation (files.layout relation).keys)
    (op : Comparison) (fcd : Fcd) (garbage : Garbage) (calls : List BrowseCall) (sys : Sys σ)
    (scene : Scene)
    (admitted : AlwaysAdmitted (files.Serves env.pg) (files.Permits env)
      (.start op fcd garbage :: calls) scene)
    (browsing : files.Browsing sys.proc scene)
    (unstarted : ∀ call ∈ calls, ¬ call.Starts fcd.fileId) :
    ∃ replies sys' relation key left left',
      run (callBrowse extfh env) (.start op fcd garbage :: calls) sys =
        .ok (fcd.answered (totalLen (files.layout relation).columns) (foundFirst left) :: replies,
          sys') ∧
      files.relation fcd.fileId = some relation ∧
      (files.layout relation).startKey fcd.record
        (whereColumns (files.layout relation).keys fcd.keyId) = some key ∧
      Snapshot env.pg (files.layout relation) op fcd.keyId key (scene.stores relation) left ∧
      GivesOut (totalLen (files.layout relation).columns) fcd.fileId calls replies left left' := by
  obtain ⟨replies, sys', scene', ran, outcome, _⟩ :=
    run_simulates (@callBrowse_simulates σ extfh env files mode server) _ sys scene admitted
      browsing
  cases outcome with
  | @cons _ _ _ scene₁ _ reply replies served rest =>
  have later := admitted.2 reply scene₁ served
  cases served with
  | @start _ _ _ relation key left _ here stands snapshot =>
  obtain ⟨left', gives⟩ := outcome_givesOut rest later here
    place_here (browsing.stands.full here snapshot) unstarted
  exact ⟨replies, sys', relation, key, left, left', ran, here, stands, snapshot, gives⟩

/-! ## A scan of a file of people -/

/-- The file of people, open as file 1. -/
def browsedFiles : FileSet where
  relation := fun file => if file = 1 then some 1 else none
  kept := fun relation => relation = 1
  layout := fun _ => peopleTable

/-- The fcd of the file, with a record in its area. -/
def browsedFcd (record : List Byte) : Fcd := { openedFcd 0 record with fileId := 1 }

/-- The process that has the file open. -/
def browsedOpen : Sys Unit where
  files := ()
  proc := { peopleOpen.proc with tables := fun file => if file = 1 then some peopleTable else none }
  fcd := browsedFcd [50, 65]

/-- Two people, and no scan. -/
def browsedScene : Scene where
  stores := fun _ => ofList (peopleTable.keyOf 0) [[49, 65], [50, 65]]
  browses := fun _ => ⟨none, fun _ => (none, [])⟩

/-- A START from the second person on, a third one written, and two READs. -/
def browsedCalls : List BrowseCall :=
  [.start .ge (browsedFcd [50, 65]) noGarbage,
    .file ⟨.write, browsedFcd [51, 66], noGarbage⟩,
    .read .n (browsedFcd [50, 65]) noGarbage, .read .n (browsedFcd [50, 65]) noGarbage]

/-- The file is read into any record area with room. -/
theorem browsedFiles_reads (record : List Byte) (room : 2 ≤ record.length) :
    browsedFiles.Reads 1 (browsedFcd record) :=
  ⟨rfl, (by decide : (openedFcd 0 []).openMode ≠ 128), rfl,
    (by decide : 0 < peopleTable.keys.length), room⟩

/-- The open file is browsed from its start. -/
theorem browsedOpen_browsing : browsedFiles.Browsing browsedOpen.proc browsedScene where
  stands := by
    refine ⟨rfl, ?_, peopleOpen_stands.rows⟩
    intro file relation there
    obtain ⟨rfl, there⟩ := Option.ite_none_right_eq_some.mp there
    cases there
    exact ⟨rfl, peopleTable, rfl, peopleTable_keyed, rfl, rfl, rfl⟩
  named := by
    intro file tab there
    obtain ⟨rfl, there⟩ := Option.ite_none_right_eq_some.mp there
    cases there
    rfl
  going := rfl
  strong := rfl
  browses := by
    intro file relation tab known there
    obtain ⟨rfl, there⟩ := Option.ite_none_right_eq_some.mp there
    cases there
    refine ⟨rfl, rfl, rfl, ?_, ?_, fun _ => ⟨rfl, rfl⟩, ?_⟩
    · intro dir k mark
      cases dir <;> cases mark
    · intro dir
      exact List.nil_prefix
    · intro place there
      cases there

/-- The second person alone is selected. -/
theorem browsed_selected {left : List (List Byte)}
    (snapshot : Snapshot plainServer.pg peopleTable .ge 0 [(0, .num 2)] (browsedScene.stores 1)
      left) : left = [[50, 65]] := by
  have distinct : ([[49, 65], [50, 65]].map (peopleTable.keyOf 0)).Nodup := by decide
  have perm : left.Perm [[50, 65]] := by
    rw [List.perm_ext_iff_of_nodup (snapshot.distinct.of_map _) (List.nodup_singleton _)]
    intro record
    rw [snapshot.selected, List.mem_singleton]
    refine ⟨?_, ?_⟩
    · intro ⟨stored, selected⟩
      obtain rfl | rfl : record = [49, 65] ∨ record = [50, 65] := by
        simpa using (mem_of_ofList stored).1
      · exact absurd selected (by decide +kernel)
      · rfl
    · intro same
      rw [same]
      have stored : ofList (peopleTable.keyOf 0) [[49, 65], [50, 65]]
          (peopleTable.keyOf 0 [50, 65]) = some [50, 65] :=
        (ofList_eq_some_iff distinct).mpr ⟨by decide, rfl⟩
      exact ⟨stored, by decide +kernel⟩
  exact List.perm_singleton.mp perm

/-- The calls of the example are admitted. -/
theorem browsedCalls_admitted :
    AlwaysAdmitted (browsedFiles.Serves plainServer.pg) (browsedFiles.Permits plainServer)
      browsedCalls browsedScene := by
  have key : peopleTable.startKey [50, 65] [0] = some [(0, .num 2)] := by decide +kernel
  obtain ⟨query, written, _⟩ := map_eq_ok.mp (by decide +kernel :
    (fun _ => ()) <$> getwhere plainServer peopleTable [50, 65] 0 .ge false = .ok ())
  have asks : Asks plainServer peopleTable .ge 0 [50, 65] [(0, .num 2)] :=
    ⟨by decide, rfl, by decide, key, query, written⟩
  refine ⟨⟨1, _, browsedFiles_reads _ le_rfl, asks, by intro marked; cases marked⟩, ?_⟩
  intro _ _ served
  cases served with
  | start _ here stands snapshot =>
  cases here
  obtain rfl := Option.some.inj (key.symm.trans stands)
  obtain rfl := browsed_selected snapshot
  refine ⟨⟨rfl, by decide, rfl, rfl, ?_, ?_, ?_⟩, ?_⟩
  · exact fun _ _ => (by decide : totalLen peopleTable.columns ≤ 2)
  · exact fun _ _ => (by decide +kernel : KeyOk peopleTable 0 [51, 66])
  · exact fun _ _ _ => (by decide +kernel : Storable peopleTable [51, 66])
  intro _ _ served
  cases served
  refine ⟨⟨1, _, browsedFiles_reads _ le_rfl, rfl, fun _ => ⟨[50, 65], rfl, rfl⟩⟩, ?_⟩
  intro _ _ served
  cases served with
  | first _ scanned =>
    refine ⟨⟨1, _, browsedFiles_reads _ le_rfl, rfl, ?_⟩, fun _ _ _ => trivial⟩
    intro waiting
    cases waiting
  | next _ _ scanned => cases scanned
  | ended _ scanned => cases scanned

/-- A scan of a file of people that other calls change meanwhile. -/
theorem scans_see_snapshots_people : ∃ replies sys' scene',
    run (callBrowse noFiles plainServer) browsedCalls browsedOpen = .ok (replies, sys') ∧
      Outcome (browsedFiles.Serves plainServer.pg) browsedCalls browsedScene replies scene' ∧
      browsedFiles.Browsing sys'.proc scene' :=
  scans_see_snapshots noFiles plainServer rfl browsedFiles
    (fun _ relation _ => plainServer_keyed relation _) browsedCalls browsedOpen browsedScene
    browsedCalls_admitted browsedOpen_browsing

/-- START finds the second person, and the READs give out no other. -/
theorem reads_give_snapshot_people : ∃ replies sys' left',
    run (callBrowse noFiles plainServer) browsedCalls browsedOpen =
        .ok (browsedFcd [50, 65] :: replies, sys') ∧
      GivesOut 2 1 browsedCalls.tail replies [[50, 65]] left' := by
  have unstarted : ∀ call ∈ browsedCalls.tail, ¬ call.Starts 1 := by
    unfold browsedCalls
    simp only [List.tail_cons, List.forall_mem_cons]
    exact ⟨id, id, id, fun _ member => (List.not_mem_nil member).elim⟩
  obtain ⟨replies, sys', relation, key, left, left', ran, here, stands, snapshot, gives⟩ :=
    reads_give_snapshot noFiles plainServer rfl browsedFiles
      (fun _ relation _ => plainServer_keyed relation _) .ge (browsedFcd [50, 65]) noGarbage
      browsedCalls.tail browsedOpen browsedScene browsedCalls_admitted browsedOpen_browsing
      unstarted
  cases here
  obtain rfl := Option.some.inj ((by decide +kernel : peopleTable.startKey [50, 65] [0] =
    some [(0, .num 2)]).symm.trans stands)
  rw [browsed_selected snapshot] at ran gives
  exact ⟨replies, sys', left', ran, gives⟩

end Pqfh
