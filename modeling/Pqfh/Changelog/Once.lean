import Pqfh.Changelog.Dispatch

/-! # Whether an entry is executed once

An entry of the changelog is executed on the ISAM file at once and for good; its mark is part of
the transaction of the whole pass. A mark that is refused aborts the transaction, and with it go
the marks of all entries before it: the next pass executes them again. So does a mark that misses
its row because the entry was taken for one of another table.

`Pqfh.executed_once`: as long as every mark fits (`Pqfh.MarkFits`), no entry is executed twice.
-/

namespace Pqfh

open Linked

/-! ## Marks -/

/-- The mark of an entry fits: a status that is no success has a second byte of two digits, its
first byte does not end the literal, and the entry is of the table registered first. -/
structure MarkFits (refuses : List Byte → Bool) (files : List (Fcd × Table)) (entry : Entry)
    (status : Status) : Prop where
  short : status.1 = 48 ∨ status.1 = 0 ∨ status.2.val < 100
  unquoted : status.1 ≠ 39
  taken : refuses (newStatus status) = false
  named : ∀ first ∈ files.head?, first.2.name = entry.tableName

/-- The text of an error starts with the word, whatever the first byte is. -/
theorem newStatus_error {status : Status} (failed : status.1 ≠ 48) :
    newStatus status = ascii "ERROR_" ++
      cstr (status.1 :: 95 :: (Decimal.canonical status.2.val).map digitByte) := by
  unfold newStatus
  rw [if_neg failed, cstr_append, if_neg (by decide)]

/-- The text of a status fits its column for success and for short second bytes. -/
theorem length_newStatus {status : Status}
    (short : status.1 = 48 ∨ status.1 = 0 ∨ status.2.val < 100) :
    (newStatus status).length ≤ statusSize := by
  by_cases success : status.1 = 48
  · unfold newStatus
    rw [if_pos success]
    decide
  rw [newStatus_error success, List.length_append]
  have six : (ascii "ERROR_").length = 6 := rfl
  rcases short with success' | nul | two
  · exact absurd success' success
  · rw [nul]
    change 6 + (cstr (0 :: _)).length ≤ 10
    rw [show cstr (0 :: 95 :: (Decimal.canonical status.2.val).map digitByte) = [] from rfl]
    decide
  · have cut := length_cstr_le (status.1 :: 95 :: (Decimal.canonical status.2.val).map digitByte)
    have digits := @Decimal.length_canonical_le 2 status.2.val (by decide) two
    rw [List.length_cons, List.length_cons, List.length_map] at cut
    unfold statusSize
    omega

/-- The text of a status has no quote in it, unless its first byte is one. -/
theorem quote_notMem_newStatus {status : Status} (unquoted : status.1 ≠ 39) :
    39 ∉ newStatus status := by
  by_cases success : status.1 = 48
  · unfold newStatus
    rw [if_pos success]
    decide
  rw [newStatus_error success]
  intro member
  rcases List.mem_append.mp member with word | tail
  · revert word
    decide
  · have whole := (List.takeWhile_sublist _).subset tail
    rcases List.mem_cons.mp whole with equal | rest
    · exact unquoted equal.symm
    rcases List.mem_cons.mp rest with equal | digits
    · cases equal
    obtain ⟨digit, canonical, equal⟩ := List.mem_map.mp digits
    have value := digitByte_val (Decimal.canonical_lt _ digit canonical)
    rw [equal] at value
    change 39 = 48 + digit at value
    omega

/-- The text of a status is not that of an entry still to do. -/
theorem newStatus_ne_pending (status : Status) : newStatus status ≠ pending := by
  by_cases success : status.1 = 48
  · unfold newStatus
    rw [if_pos success]
    decide
  · rw [newStatus_error success]
    intro equal
    have heads : (69 : Byte) = 80 := Option.some.inj (congrArg List.head? equal)
    revert heads
    decide

/-- No row of an id is pending. -/
def Marked (rows : List Entry) (id : ℕ) : Prop := ∀ row ∈ rows, row.id = id → row.status ≠ pending

/-- What a mark leaves of a row. -/
def Entry.ident (entry : Entry) : ℕ × List Byte := (entry.id, entry.tableName)

/-- A changelog in an open transaction, and the same with more marks. -/
structure Log.Marks (log log' : Log) : Prop where
  open_ : log'.aborted = false
  committed : log'.committed = log.committed
  next : log'.next = log.next
  rows : log'.working.map Entry.ident = log.working.map Entry.ident
  kept : ∀ id, Marked log.working id → Marked log'.working id

/-- Marks that are set one after the other are set. -/
theorem Log.Marks.trans {first second third : Log} (marks : first.Marks second)
    (further : second.Marks third) : first.Marks third where
  open_ := further.open_
  committed := further.committed.trans marks.committed
  next := further.next.trans marks.next
  rows := further.rows.trans marks.rows
  kept id marked := further.kept id (marks.kept id marked)

/-- Every row of the id of an entry has the name of its table. -/
def Entry.OneTable (log : Log) (entry : Entry) : Prop :=
  ∀ ident ∈ log.working.map Entry.ident, ident.1 = entry.id → ident.2 = entry.tableName

/-- An entry that was applied is marked. -/
theorem Log.mark_marks {refuses : List Byte → Bool} {files : List (Fcd × Table)} {entry : Entry}
    {status : Status} {log : Log} (fits : MarkFits refuses files entry status)
    (ready : log.aborted = false) (known : entry.OneTable log) :
    log.Marks (log.mark refuses entry.tableName entry.id (newStatus status)) ∧
    Marked (log.mark refuses entry.tableName entry.id (newStatus status)).working entry.id := by
  have accepted : ¬ (statusSize < (newStatus status).length ∨ 39 ∈ newStatus status ∨
      refuses (newStatus status) = true) := by
    rintro (long | quoted | refused)
    · exact absurd (length_newStatus fits.short) (not_le.mpr long)
    · exact quote_notMem_newStatus fits.unquoted quoted
    · rw [fits.taken] at refused
      cases refused
  unfold Log.mark
  rw [if_neg (by rw [ready]; exact Bool.false_ne_true), if_neg accepted]
  refine ⟨⟨ready, rfl, rfl, ?_, ?_⟩, ?_⟩
  · rw [List.map_map]
    apply List.map_congr_left
    intro row _
    change Entry.ident (ite _ _ _) = _
    split
    · rfl
    · rfl
  · intro id marked row member same
    obtain ⟨before, old, rfl⟩ := List.mem_map.mp member
    by_cases hit : before.status = pending ∧ before.tableName = entry.tableName ∧
      before.id = entry.id
    · rw [if_pos hit]
      exact newStatus_ne_pending status
    · rw [if_neg hit] at same ⊢
      exact marked before old same
  · intro row member same
    obtain ⟨before, old, rfl⟩ := List.mem_map.mp member
    by_cases hit : before.status = pending ∧ before.tableName = entry.tableName ∧
      before.id = entry.id
    · rw [if_pos hit]
      exact newStatus_ne_pending status
    · rw [if_neg hit] at same ⊢
      intro waiting
      exact hit ⟨waiting, known _ (List.mem_map_of_mem old) same, same⟩

/-! ## A pass -/

section Run

variable {σ : Type} {extfh : Extfh σ} {refuses : List Byte → Bool}
variable (names : ∀ opcode files fcd, (extfh opcode files fcd).2.fileName = fcd.fileName)
variable {files : List (Fcd × Table)}

/-- An entry that is executed is marked under the name of the table registered first. -/
theorem Sync.entry_marks {s s' : Sync σ} {entry : Entry} {applied : Option Applied}
    (standing : Standing files s.reg) (ready : s.log.aborted = false) (known : entry.OneTable s.log)
    (fetched : s.entry extfh refuses entry = .ok (s', applied))
    (fits : ∀ one ∈ applied, MarkFits refuses files one.entry one.status) :
    s.log.Marks s'.log ∧ ∀ one ∈ applied, one.entry = entry ∧ Marked s'.log.working entry.id := by
  rcases Sync.entry_cases fetched with ⟨rfl, rfl⟩ | ⟨i, fcd, tab, cols, record, aimed, rfl, rfl⟩
  · exact ⟨⟨ready, rfl, rfl, rfl, fun _ marked => marked⟩, nofun⟩
  · have fits' := fits _ rfl
    have first := (standing.target_iff.mp aimed).2.2.2.1
    obtain ⟨file, head, rfl⟩ : ∃ file, files.head? = some file ∧ file.2 = tab := by
      rw [List.head?_map] at first
      exact Option.map_eq_some_iff.mp first
    obtain ⟨marks, marked⟩ := Log.mark_marks fits' ready known
    rw [← fits'.named file head] at marks marked
    refine ⟨marks, ?_⟩
    rintro one ⟨⟩
    exact ⟨rfl, marked⟩

include names

/-- A batch marks the entries that it applied. -/
theorem Sync.batch_marks :
    ∀ {entries : List Entry} {s s' : Sync σ} {applied : List Applied}, Standing files s.reg →
      s.log.aborted = false → (∀ entry ∈ entries, entry.OneTable s.log) →
      Sync.batch extfh refuses entries s = .ok (s', applied) →
      (∀ one ∈ applied, MarkFits refuses files one.entry one.status) →
      s.log.Marks s'.log ∧ (∀ one ∈ applied, Marked s'.log.working one.entry.id) ∧
        (applied.map Applied.entry).Sublist entries := by
  intro entries
  induction entries with
  | nil =>
      intro s s' applied _ ready _ fetched _
      cases fetched
      exact ⟨⟨ready, rfl, rfl, rfl, fun _ marked => marked⟩, nofun, List.Sublist.refl _⟩
  | cons entry entries ih =>
      intro s s' applied standing ready known fetched fits
      unfold Sync.batch at fetched
      rw [if_neg (by rw [ready]; exact Bool.false_ne_true)] at fetched
      obtain ⟨⟨s₁, first⟩, here, fetched⟩ := bind_eq_ok.mp fetched
      obtain ⟨⟨s₂, later⟩, rest, result⟩ := bind_eq_ok.mp fetched
      cases result
      obtain ⟨marks, one⟩ := Sync.entry_marks standing ready (known entry List.mem_cons_self) here
        fun one member => fits one (List.mem_append_left _ (Option.mem_toList.mpr member))
      have known' : ∀ entry ∈ entries, entry.OneTable s₁.log := by
        intro other member
        unfold Entry.OneTable
        rw [marks.rows]
        exact known other (List.mem_cons_of_mem _ member)
      obtain ⟨further, marked, sublist⟩ :=
        ih (Sync.entry_standing names standing here).1 marks.open_
        known' rest fun one member => fits one (List.mem_append_right _ member)
      refine ⟨marks.trans further, ?_, ?_⟩
      · intro applied member
        rcases List.mem_append.mp member with now | later
        · obtain ⟨same, marked⟩ := one applied (Option.mem_toList.mp now)
          rw [same]
          exact further.kept entry.id marked
        · exact marked applied later
      · cases first with
        | none => exact sublist.cons entry
        | some applied =>
            rw [Option.toList_some, List.map_append, List.map_singleton, (one applied rfl).1]
            exact sublist.cons_cons entry

end Run

/-! ## Runs -/

/-- The changelog between two passes: nothing is left to commit, and the ids come from the
sequence. -/
structure Log.Clear (log : Log) : Prop where
  open_ : log.aborted = false
  committed : log.working = log.committed
  distinct : (log.committed.map Entry.id).Nodup
  drawn : ∀ row ∈ log.committed, row.id < log.next

/-- The identity of an entry begins with its number. -/
theorem map_ident_fst (rows : List Entry) :
    (rows.map Entry.ident).map Prod.fst = rows.map Entry.id := by
  rw [List.map_map]
  rfl

/-- A new entry keeps the log clear. -/
theorem Log.Clear.insert {log : Log} (clear : log.Clear) (tableName : List Byte) (action : Action)
    (oldData newData : List Byte) : (log.insert tableName action oldData newData).Clear where
  open_ := clear.open_
  committed := by
    change log.working ++ _ = log.committed ++ _
    rw [clear.committed]
  distinct := by
    change ((log.committed ++ [_]).map Entry.id).Nodup
    rw [List.map_append, List.nodup_append]
    refine ⟨clear.distinct, List.nodup_singleton _, ?_⟩
    intro id member other new
    obtain ⟨row, old, rfl⟩ := List.mem_map.mp member
    rw [List.mem_singleton.mp new]
    exact (clear.drawn row old).ne
  drawn := by
    intro row member
    change row.id < log.next + 1
    rcases List.mem_append.mp member with old | new
    · exact (clear.drawn row old).trans (Nat.lt_succ_self _)
    · rw [List.mem_singleton.mp new]
      exact Nat.lt_succ_self _

/-- A commit keeps the log clear, and what was marked. -/
theorem Log.Clear.commit {log log' : Log} (clear : log.Clear) (marks : log.Marks log') :
    log'.commit.Clear ∧ log'.commit.committed = log'.working ∧ log'.commit.next = log.next := by
  have shape : log'.commit = { log' with committed := log'.working } := by
    unfold Log.commit
    rw [if_neg (by rw [marks.open_]; exact Bool.false_ne_true)]
  have ids : log'.working.map Entry.id = log.committed.map Entry.id := by
    rw [← map_ident_fst, marks.rows, map_ident_fst, clear.committed]
  rw [shape]
  refine ⟨⟨marks.open_, rfl, ?_, ?_⟩, rfl, marks.next⟩
  · change (log'.working.map Entry.id).Nodup
    rw [ids]
    exact clear.distinct
  · intro row member
    change row.id < log'.next
    have member' := @List.mem_map_of_mem _ _ _ _ Entry.id member
    rw [ids] at member'
    obtain ⟨before, old, same⟩ := List.mem_map.mp member'
    rw [marks.next, ← same]
    exact clear.drawn before old

/-- The rows that a pass fetches are those that are pending. -/
theorem Log.mem_pendings {log : Log} {entry : Entry} :
    entry ∈ log.pendings ↔ entry ∈ log.working ∧ entry.status = pending := by
  unfold Log.pendings
  rw [List.mem_mergeSort, List.mem_filter, decide_eq_true_iff]

/-- The entries still to do are distinct. -/
theorem Log.Clear.pendings_distinct {log : Log} (clear : log.Clear) :
    (log.pendings.map Entry.id).Nodup := by
  have order := ((List.mergeSort_perm (log.working.filter fun entry => entry.status = pending)
    fun a b => a.id ≤ b.id).map Entry.id).nodup_iff
  refine order.mpr ?_
  have rows := clear.distinct
  rw [← clear.committed] at rows
  exact rows.sublist (List.filter_sublist.map _)

/-- An entry of a clear log is of one table. -/
theorem Log.Clear.oneTable {log : Log} (clear : log.Clear) {entry : Entry}
    (member : entry ∈ log.working) : entry.OneTable log := by
  intro ident named same
  obtain ⟨row, member', rfl⟩ := List.mem_map.mp named
  have rows := clear.distinct
  rw [← clear.committed] at rows
  rw [List.inj_on_of_nodup_map rows member' member same]
  rfl

/-- What the passes have executed so far: no id twice, and no row of such an id is pending. -/
structure ExecutedOnce {σ : Type} (s : Sync σ) (done : List Applied) : Prop where
  clear : s.log.Clear
  drawn : ∀ one ∈ done, one.entry.id < s.log.next
  marked : ∀ one ∈ done, Marked s.log.committed one.entry.id
  once : (done.map fun one => one.entry.id).Nodup

/-- A new entry was not executed yet. -/
theorem ExecutedOnce.insert {σ : Type} {s : Sync σ} {done : List Applied}
    (so_far : ExecutedOnce s done) (tableName : List Byte) (action : Action)
    (oldData newData : List Byte) :
    ExecutedOnce { s with log := s.log.insert tableName action oldData newData } done where
  clear := so_far.clear.insert tableName action oldData newData
  drawn one member := (so_far.drawn one member).trans (Nat.lt_succ_self _)
  marked := by
    intro one member row inside same
    rcases List.mem_append.mp inside with old | new
    · exact so_far.marked one member row old same
    · have drawn := so_far.drawn one member
      rw [← same, List.mem_singleton.mp new] at drawn
      exact absurd drawn (lt_irrefl _)
  once := so_far.once

section Run

variable {σ : Type} {extfh : Extfh σ} {refuses : List Byte → Bool} {files : List (Fcd × Table)}

/-- A pass executes only what is pending, and leaves nothing pending of what it executed. -/
theorem ExecutedOnce.pass
    (names : ∀ opcode files fcd, (extfh opcode files fcd).2.fileName = fcd.fileName)
    {s s' : Sync σ} {done applied : List Applied} (so_far : ExecutedOnce s done)
    (standing : Standing files s.reg) (passed : s.pass extfh refuses = .ok (some (s', applied)))
    (fits : ∀ one ∈ applied, MarkFits refuses files one.entry one.status) :
    ExecutedOnce s' (done ++ applied) := by
  have clear := so_far.clear
  unfold Sync.pass at passed
  rw [if_neg (by rw [clear.open_]; exact Bool.false_ne_true)] at passed
  obtain ⟨⟨s₁, applied'⟩, fetched, result⟩ := bind_eq_ok.mp passed
  cases result
  have known : ∀ entry ∈ s.log.pendings, entry.OneTable s.log := fun entry member =>
    clear.oneTable (Log.mem_pendings.mp member).1
  obtain ⟨marks, marked, sublist⟩ :=
    Sync.batch_marks names standing clear.open_ known fetched fits
  obtain ⟨clear', committed, next⟩ := clear.commit marks
  have waiting : ∀ one ∈ applied, one.entry ∈ s.log.committed ∧ one.entry.status = pending := by
    intro one member
    rw [← clear.committed]
    exact Log.mem_pendings.mp (sublist.subset (List.mem_map_of_mem member))
  refine ⟨clear', ?_, ?_, ?_⟩
  · intro one member
    change one.entry.id < s₁.log.commit.next
    rw [next]
    rcases List.mem_append.mp member with old | new
    · exact so_far.drawn one old
    · exact clear.drawn one.entry (waiting one new).1
  · intro one member
    change Marked s₁.log.commit.committed one.entry.id
    rw [committed]
    rcases List.mem_append.mp member with old | new
    · apply marks.kept
      rw [clear.committed]
      exact so_far.marked one old
    · exact marked one new
  · rw [List.map_append, List.nodup_append]
    refine ⟨so_far.once, ?_, ?_⟩
    · have ids := (sublist.map Entry.id).nodup clear.pendings_distinct
      rwa [List.map_map] at ids
    · intro id before other now
      obtain ⟨one, old, rfl⟩ := List.mem_map.mp before
      obtain ⟨another, new, rfl⟩ := List.mem_map.mp now
      intro same
      obtain ⟨inside, status⟩ := waiting another new
      exact so_far.marked one old another.entry inside same.symm status

/-- In a run in which every mark fits no entry is executed twice, and no entry that was executed is
pending after the pass. -/
theorem executed_once
    (names : ∀ opcode files fcd, (extfh opcode files fcd).2.fileName = fcd.fileName)
    {start s : Sync σ} {done : List Applied} (begun : start.reg = (registered files).rewound)
    (clear : start.log.Clear) (run : SyncRun extfh refuses start s done)
    (fits : ∀ one ∈ done, MarkFits refuses files one.entry one.status) :
    (done.map fun one => one.entry.id).Nodup ∧
    ∀ one ∈ done, Marked s.log.committed one.entry.id := by
  suffices so_far : ExecutedOnce s done from ⟨so_far.once, so_far.marked⟩
  induction run with
  | start => exact ⟨clear, nofun, nofun, List.nodup_nil⟩
  | insert tableName action oldData newData _ ih =>
      exact (ih fits).insert tableName action oldData newData
  | pass run passed ih =>
      have so_far := ih fun one member => fits one (List.mem_append_left _ member)
      have standing := (run.standing names (begun ▸ registered_standing files)).1
      exact so_far.pass names standing passed fun one member =>
        fits one (List.mem_append_right _ member)

end Run

/-- A log that was just made is clear. -/
theorem syncing_clear (files : List (Fcd × Table)) : (syncing files).log.Clear :=
  ⟨rfl, rfl, List.nodup_nil, nofun⟩

/-- The sale is executed, and not pending any more. -/
theorem executed_once_sale :
    ∃ s, SyncRun (answering stOk) (fun _ => false) (syncing [salesFile]) s
        [⟨saleEntry, ascii "sales", stOk⟩] ∧
      Marked s.log.committed saleEntry.id := by
  obtain ⟨s, run⟩ := sale_executed
  refine ⟨s, run, (executed_once (fun _ _ _ => rfl) rfl (syncing_clear [salesFile]) run ?_).2 _
    List.mem_cons_self⟩
  intro one member
  rw [List.mem_singleton.mp member]
  exact ⟨.inl rfl, by decide, rfl, by rintro _ ⟨⟩; rfl⟩

/-- The mark of a status 9 with a second byte of 200 is too long for the column: the transaction is
aborted, and the next pass executes the entry again. -/
theorem executed_twice :
    (syncing [salesFile]).log.Clear ∧
    ∃ s, SyncRun (answering (57, 200)) (fun _ => false) (syncing [salesFile]) s
        [⟨saleEntry, ascii "sales", (57, 200)⟩, ⟨saleEntry, ascii "sales", (57, 200)⟩] ∧
      saleEntry ∈ s.log.committed ∧ ¬ Marked s.log.committed saleEntry.id := by
  refine ⟨syncing_clear _, ?_⟩
  have twice : (saleMade.pass (answering (57, 200)) (fun _ => false) >>= fun first =>
      match first with
      | none => .ok none
      | some (s, applied) =>
          (fun passed : Option (Sync Unit × List Applied) => passed.map fun second =>
            (applied, second.2, second.1.log.committed)) <$>
          s.pass (answering (57, 200)) (fun _ => false)) =
      .ok (some ([⟨saleEntry, ascii "sales", (57, 200)⟩], [⟨saleEntry, ascii "sales", (57, 200)⟩],
        [saleEntry])) := by decide +kernel
  obtain ⟨first, pass, twice⟩ := bind_eq_ok.mp twice
  cases first with
  | none => cases twice
  | some first =>
      obtain ⟨passed, again, seen⟩ := map_eq_ok.mp twice
      obtain ⟨s₁, applied₁⟩ := first
      obtain ⟨⟨s₂, applied₂⟩, rfl, both⟩ := Option.map_eq_some_iff.mp seen
      obtain ⟨rfl, later⟩ := Prod.mk.inj both
      obtain ⟨rfl, committed⟩ := Prod.mk.inj later
      have inside : saleEntry ∈ s₂.log.committed := by
        rw [committed]
        exact List.mem_cons_self
      have run := (SyncRun.start.insert (ascii "sales") .insert [] (ascii "1|2.5|ABC")).pass pass
      exact ⟨s₂, run.pass again, inside, fun marked => marked saleEntry inside rfl rfl⟩

end Pqfh
