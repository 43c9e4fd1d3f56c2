import Pqfh.Handler.Ledger
import Pqfh.Handler.OpsTotal
import Pqfh.Handler.RoundTrip

/-! # Random reads and weak probes

`op_read_random` prepares one statement for each key of an open table and uses it for as long
as the table is open. A START on a table that is accessed as a weak entity probes it with the
same function, by all the columns of the key but the last. Whichever comes first decides by
which columns the key is read: a read finds the row with the whole key unless a probe of the
key came first, and a probe finds the prefix unless a read came first
(`Pqfh.random_read_whole_key`).
-/

namespace Pqfh

/-- A row has, in some columns, the values that the key fields of a record stand for. -/
def HasKey (pg : Postgres) (tab : Table) (record : List Byte) (cols : List ℕ) (row : Row) : Prop :=
  ∀ i ∈ cols, ∃ value, pg.denote (tab.column i) (keyTextOf tab record i) = some value ∧
    row[i]? = some value

/-- The rows of an open table. -/
def State.rows (st : State) : List Row := (st.conn.working st.tab.relation).getD []

/-- No other process has the advisory lock that a read asks for when it prepares. -/
def Unlocked (env : Env) (withLock : Bool) (st : State) : Prop :=
  st.tab.readPrepared st.fcd.keyId = none → ∀ kbuf,
    getkbuf st.tab st.fcd.keyId st.fcd.record = .ok kbuf →
    wantsLock env withLock (cstr kbuf) st = true →
    env.pg.tryLock st.tab.oid (atoi (cstr kbuf)) = true

/-! ## What a read finds -/

theorem KeyFits.sublist {tab : Table} {record : List Byte} {key cols : List ℕ}
    (fits : KeyFits tab record key) (part : cols.Sublist key) : KeyFits tab record cols :=
  ⟨fun i among => fits.inside i (part.subset among),
    ((part.map _).sum_le_sum fun _ _ => Nat.zero_le _).trans fits.short⟩

/-- The columns that a read prepares: those of the key, or all but the last. -/
theorem randomColumns_ok {tab : Table} {keyid : ℕ} {weak : Bool} {cols : List ℕ}
    (chosen : randomColumns tab keyid weak = .ok cols) :
    cols = if weak then (whereColumns tab.keys keyid).dropLast
        else whereColumns tab.keys keyid := by
  unfold randomColumns at chosen
  unfold whereColumns
  rw [List.getD_eq_getElem?_getD]
  split at chosen
  · rename_i here
    cases chosen
    rw [here]
    rfl
  · rename_i here
    cases chosen
    rw [here]
    rfl
  · cases chosen

/-- The rows that a condition on key columns selects are those that have the key. -/
theorem filter_condition_eq_nil_iff {pg : Postgres} {tab : Table} {record : List Byte}
    {cols : List ℕ} {condition : Condition}
    (denoted : tab.condition pg cols (cols.map (keyTextOf tab record)) = some condition)
    (rows : List Row) :
    rows.filter (meets condition) = [] ↔ ¬ ∃ row ∈ rows, HasKey pg tab record cols row := by
  rw [List.filter_eq_nil_iff]
  constructor
  · rintro none ⟨row, member, has⟩
    exact none row member ((meets_condition_iff denoted row).mpr has)
  · intro none row member meet
    exact none ⟨row, member, (meets_condition_iff denoted row).mp meet⟩

section Reading

variable {env : Env} {weak withLock : Bool} {st st' : State}

/-- An open table is not read with another status than 00 and 23, unless it is locked. -/
theorem opReadRandom_found_or_missing (opened : st.fcd.openMode ≠ 128)
    (running : st.conn.aborted = false) (unlocked : Unlocked env withLock st)
    (read : opReadRandom env weak withLock st = .ok st') :
    st'.fcd.status = stOk ∨ st'.fcd.status = stRecNotFound := by
  by_contra neither
  rw [not_or] at neither
  rcases opReadRandom_neither opened read neither.1 neither.2 with aborted | ⟨fresh, locked⟩
  · exact Bool.noConfusion (running.symm.trans aborted)
  · obtain ⟨kbuf, built, asks, busy⟩ := locked
    exact Bool.noConfusion (busy.symm.trans (unlocked fresh kbuf built asks))

/-- A read of an open table finds a row by the columns of its statement, and 23 says that there
is none. -/
theorem opReadRandom_finds {cols : List ℕ} (opened : st.fcd.openMode ≠ 128)
    (running : st.conn.aborted = false) (unlocked : Unlocked env withLock st)
    (columns : readColumns st.tab st.fcd.keyId weak = .ok cols)
    (part : cols.Sublist (whereColumns st.tab.keys st.fcd.keyId))
    (read : opReadRandom env weak withLock st = .ok st') :
    (st'.fcd.status = stOk → ∃ row ∈ st.rows, HasKey env.pg st.tab st.fcd.record cols row ∧
      (weak = false → pq2cob st.tab.columns row st.fcd.record = .ok st'.fcd.record)) ∧
    (st'.fcd.status = stRecNotFound ↔
      ¬ ∃ row ∈ st.rows, HasKey env.pg st.tab st.fcd.record cols row) := by
  obtain ⟨key, here, whole⟩ := opReadRandom_keyFits opened read
  have fits : KeyFits st.tab st.fcd.record cols := by
    apply whole.sublist
    unfold whereColumns at part
    rwa [List.getD_eq_getElem?_getD, here] at part
  have texts : ∀ {bufs texts}, bindParams (keyParams st.tab cols) st.fcd.record st.tab.bufs =
      .ok (bufs, texts) → texts = cols.map (keyTextOf st.tab st.fcd.record) := by
    intro bufs texts bound
    obtain ⟨_, _, sent⟩ := bindParams_ok bound
    rw [sent, map_checked_key, fits.runOn_key]
  have found : st'.fcd.status = stOk → ∃ row ∈ st.rows,
      HasKey env.pg st.tab st.fcd.record cols row ∧
      (weak = false → pq2cob st.tab.columns row st.fcd.record = .ok st'.fcd.record) := by
    intro ok
    obtain ⟨_, ⟨failed, _⟩ | ⟨_, _, cols', row, columns', reads, record⟩⟩ := opReadRandom_ok read
    · exact absurd ok failed
    · obtain rfl : cols = cols' := Except.ok.inj (columns.symm.trans columns')
      obtain ⟨_, bufs, texts', condition, rows, rest, bound, denoted, present, first⟩ := reads
      rw [texts bound] at denoted
      have member : row ∈ rows.filter (meets condition) := by
        rw [first]
        exact List.mem_cons_self
      obtain ⟨among, meet⟩ := List.mem_filter.mp member
      refine ⟨row, ?_, (meets_condition_iff denoted row).mp meet, ?_⟩
      · unfold State.rows
        rw [present]
        exact among
      · rintro rfl
        exact record
  refine ⟨found, ?_⟩
  constructor
  · intro missing
    obtain ⟨_, ⟨_, _, missed⟩ | ⟨ok, _⟩⟩ := opReadRandom_ok read
    · obtain ⟨cols', columns', bufs, texts', bound, none⟩ := missed missing
      obtain rfl : cols = cols' := Except.ok.inj (columns.symm.trans columns')
      rintro ⟨row, member, has⟩
      obtain ⟨condition, denoted⟩ := exists_condition fun i among =>
        ⟨(has i among).choose, (has i among).choose_spec.1⟩
      unfold State.rows at member
      cases present : st.conn.working st.tab.relation with
      | none =>
          rw [present] at member
          cases member
      | some rows =>
          rw [present] at member
          have empty := none running condition rows (by rw [texts bound, denoted]) present
          exact (filter_condition_eq_nil_iff denoted rows).mp empty ⟨row, member, has⟩
    · rw [ok] at missing
      exact absurd missing (by decide)
  · intro none
    rcases opReadRandom_found_or_missing opened running unlocked read with ok | missing
    · obtain ⟨row, member, has, _⟩ := found ok
      exact absurd ⟨row, member, has⟩ none
    · exact missing

end Reading

/-! ## The statements of an open table -/

/-- Which statements a call has prepared: those that were prepared before it, and that of the
key in use when it reads. -/
structure Prepares (weak : Bool) (st st' : State) : Prop where
  keys : st'.tab.keys = st.tab.keys
  prepared : ∀ k cols, st'.tab.readPrepared k = some cols → st.tab.readPrepared k = some cols ∨
    k = st.fcd.keyId ∧ randomColumns st.tab k weak = .ok cols

/-- Neither the keys nor the prepared statements are changed. -/
def SameStatements (st st' : State) : Prop :=
  st'.tab.keys = st.tab.keys ∧ st'.tab.readPrepared = st.tab.readPrepared

theorem SameStatements.prepares {st st' : State} (same : SameStatements st st') (weak : Bool) :
    Prepares weak st st' := by
  refine ⟨same.1, fun k cols prepared => Or.inl ?_⟩
  rwa [same.2] at prepared

theorem Prepares.trans_same {weak : Bool} {st st' st'' : State} (first : Prepares weak st st')
    (second : SameStatements st' st'') : Prepares weak st st'' := by
  refine ⟨second.1.trans first.keys, fun k cols prepared => first.prepared k cols ?_⟩
  rwa [second.2] at prepared

theorem prepareRandom_prepares {env : Env} {weak withLock : Bool} {kbuf : List Byte}
    {st st' : State} {result : Option (List ℕ)}
    (prepared : prepareRandom env weak withLock kbuf st = .ok (result, st')) :
    Prepares weak st st' := by
  cases prepareRandom_iff.mp prepared with
  | found => exact SameStatements.prepares ⟨rfl, rfl⟩ weak
  | refused => exact SameStatements.prepares ⟨rfl, rfl⟩ weak
  | prepared _ chosen =>
      refine ⟨rfl, fun k cols set => ?_⟩
      change Function.update st.tab.readPrepared st.fcd.keyId _ k = _ at set
      rw [Function.update_apply] at set
      split at set
      · rename_i here
        cases set
        exact Or.inr ⟨here, here ▸ chosen⟩
      · exact Or.inl set

theorem opReadRandom_prepares {env : Env} {weak withLock : Bool} {st st' : State}
    (read : opReadRandom env weak withLock st = .ok st') : Prepares weak st st' := by
  have first : ∀ {later : State}, Prepares weak st.released later → Prepares weak st later := by
    rintro later ⟨keys, prepared⟩
    rw [(kept_released st).keys] at keys
    rw [st.released_readPrepared, st.released_fcd] at prepared
    refine ⟨keys, fun k cols set => (prepared k cols set).imp_right fun ⟨here, chosen⟩ => ?_⟩
    unfold randomColumns at chosen ⊢
    rw [(kept_released st).keys] at chosen
    exact ⟨here, chosen⟩
  cases opReadRandom_iff.mp read with
  | closed =>
      have same : SameStatements st (st.setStatus stNotOpenedRead) := ⟨rfl, rfl⟩
      exact same.prepares weak
  | locked _ _ prepared =>
      exact (first (prepareRandom_prepares prepared)).trans_same ⟨rfl, rfl⟩
  | fetched _ _ prepared fetched =>
      have middle := first (prepareRandom_prepares prepared)
      cases fetchRandom_cases fetched <;> exact middle.trans_same ⟨rfl, rfl⟩

theorem opReadRandom_eofStart {env : Env} {weak withLock : Bool} {st st' : State}
    (read : opReadRandom env weak withLock st = .ok st') : st'.eofStart = st.eofStart := by
  have middle : ∀ {kbuf : List Byte} {result : Option (List ℕ)} {later : State},
      prepareRandom env weak withLock kbuf st.released = .ok (result, later) →
      later.eofStart = st.eofStart := by
    intro kbuf result later prepared
    rw [← st.released_eofStart]
    cases prepareRandom_iff.mp prepared <;> rfl
  cases opReadRandom_iff.mp read with
  | closed => rfl
  | locked _ _ prepared =>
      rw [← middle prepared]
      rfl
  | fetched _ _ prepared fetched =>
      rw [← middle prepared]
      cases fetchRandom_cases fetched <;> rfl

/-- Reading on prepares nothing, and does not change what the last START found. -/
theorem opNextPrev_same {stack : ℕ → Byte} {dir : Dir} {st st' : State}
    (read : opNextPrev stack dir st = .ok st') :
    SameStatements st st' ∧ st'.eofStart = st.eofStart := by
  cases opNextPrev_iff.mp read with
  | fetched _ _ _ _ fetched =>
      cases fetchNextPrev_iff.mp fetched with
      | ended => exact ⟨⟨rfl, rfl⟩, rfl⟩
      | read => cases dir <;> exact ⟨⟨rfl, rfl⟩, rfl⟩
  | _ => exact ⟨⟨rfl, rfl⟩, rfl⟩

theorem declareScan_same {env : Env} {weak : Bool} {stack : ℕ → Byte} {op : Comparison}
    {st st' : State} (declared : declareScan env weak stack op st = .ok st') :
    SameStatements st st' ∧ st'.eofStart = st.eofStart := by
  unfold declareScan at declared
  dsimp only at declared
  have closed : SameStatements st st.closeCursor ∧ st.closeCursor.eofStart = st.eofStart := by
    unfold State.closeCursor
    split <;> exact ⟨⟨rfl, rfl⟩, rfl⟩
  obtain ⟨⟨tokens, order⟩, _, declared⟩ := bind_eq_ok.mp declared
  dsimp only at declared
  split at declared
  · cases declared
  · obtain ⟨st₁, read, declared⟩ := bind_eq_ok.mp declared
    obtain ⟨⟨keys, prepared⟩, eof⟩ := opNextPrev_same read
    have keys' : st₁.tab.keys = st.tab.keys := by
      rw [keys, ← closed.1.1]
      cases op.dir <;> rfl
    have prepared' : st₁.tab.readPrepared = st.tab.readPrepared := by
      rw [prepared, ← closed.1.2]
      cases op.dir <;> rfl
    split at declared
    · cases declared
      exact ⟨⟨keys', prepared'⟩, eof.trans closed.2⟩
    · cases declared
      exact ⟨⟨keys', prepared'⟩, eof.trans closed.2⟩

/-! ## Histories -/

/-- Whether a START on a weak table probes it: it does not when it uses the open cursor on. -/
def probes (stack : ℕ → Byte) (op : Comparison) (st : State) : Bool :=
  match getkbuf st.tab st.fcd.keyId st.fcd.record with
  | .ok key => st.fcd.openMode ≠ 128 && !shortcut op (stackCopy stack key) st
  | .error _ => false

/-- A START that probes reads by the key prefix first, and declares its cursor if it finds a
row. -/
theorem opStart_probes {env : Env} {stack inner : ℕ → Byte} {op : Comparison} {st st' : State}
    (started : opStart env true stack inner op st = .ok st') (probing : probes stack op st = true) :
    ∃ st₁, opReadRandom env true false { st with eofStart := false } = .ok st₁ ∧
      ((st₁.fcd.status ≠ stOk ∧ st' = { st₁.setStatus stRecNotFound with eofStart := true }) ∨
        (st₁.fcd.status = stOk ∧ declareScan env true inner op st₁ = .ok st')) := by
  unfold probes at probing
  split at probing
  · rename_i key built
    rw [Bool.and_eq_true, decide_eq_true_iff, Bool.not_eq_true'] at probing
    unfold opStart at started
    rw [if_neg probing.1] at started
    dsimp only at started
    have fresh : shortcut op (stackCopy stack key) { st with eofStart := false } = false :=
      probing.2
    rw [built, ok_bind, fresh] at started
    simp only [Bool.false_eq_true, ↓reduceIte] at started
    obtain ⟨st₁, read, started⟩ := bind_eq_ok.mp started
    refine ⟨st₁, read, ?_⟩
    split at started
    · rename_i failed
      cases started
      exact Or.inl ⟨failed, rfl⟩
    · rename_i found
      exact Or.inr ⟨not_not.mp found, started⟩
  · cases probing

/-- A START prepares a statement only where it probes. -/
theorem opStart_prepares {env : Env} {weak : Bool} {stack inner : ℕ → Byte} {op : Comparison}
    {st st' : State} (started : opStart env weak stack inner op st = .ok st') :
    (weak && probes stack op st) = false ∧ SameStatements st st' ∨
      (weak && probes stack op st) = true ∧ Prepares true st st' := by
  cases probing : weak && probes stack op st with
  | true =>
      obtain ⟨rfl, probing⟩ := Bool.and_eq_true_iff.mp probing
      obtain ⟨st₁, read, ⟨_, rfl⟩ | ⟨_, declared⟩⟩ := opStart_probes started probing
      · obtain ⟨keys, prepared⟩ := opReadRandom_prepares read
        exact Or.inr ⟨rfl, keys, prepared⟩
      · obtain ⟨keys, prepared⟩ :=
          (opReadRandom_prepares read).trans_same (declareScan_same declared).1
        exact Or.inr ⟨rfl, keys, prepared⟩
  | false =>
      refine Or.inl ⟨rfl, ?_⟩
      unfold opStart at started
      split at started
      · cases started
        exact ⟨rfl, rfl⟩
      · rename_i opened
        obtain ⟨key, built, started⟩ := bind_eq_ok.mp started
        split at started
        · cases started
          cases op <;> exact ⟨rfl, rfl⟩
        · rename_i fresh
          have fresh' : shortcut op (stackCopy stack key) st = false := Bool.eq_false_iff.mpr fresh
          cases weak with
          | true =>
              have built' : getkbuf st.tab st.fcd.keyId st.fcd.record = .ok key := built
              simp [probes, built', fresh', opened] at probing
          | false =>
              simp only [Bool.false_eq_true, ↓reduceIte] at started
              exact (declareScan_same started).1

/-- What the program, and other users of the database, make of the state between two calls on
an open table. -/
def State.between (st : State) (conn : Conn) (fcd : Fcd) : State :=
  { st with conn := conn, fcd := fcd }

/-- A history of reads and STARTs on an open table, with the key and the kind of each random
read: `true` for the probe of a START. Before any START the command WEAK may have been given,
so that `weak` is free in each. -/
inductive ReadRun (env : Env) : State → List (ℕ × Bool) → State → Prop where
  | opened (st : State) : ReadRun env st [] st
  | read {first st st' : State} {uses : List (ℕ × Bool)} {conn : Conn} {fcd : Fcd}
      {withLock : Bool} (earlier : ReadRun env first uses st)
      (called : opReadRandom env false withLock (st.between conn fcd) = .ok st') :
      ReadRun env first (uses ++ [(fcd.keyId, false)]) st'
  | start {first st st' : State} {uses : List (ℕ × Bool)} {conn : Conn} {fcd : Fcd} {weak : Bool}
      {stack inner : ℕ → Byte} {op : Comparison} (earlier : ReadRun env first uses st)
      (called : opStart env weak stack inner op (st.between conn fcd) = .ok st') :
      ReadRun env first
        (uses ++ if weak && probes stack op (st.between conn fcd) then [(fcd.keyId, true)] else [])
        st'

/-- The statements that are prepared come from the random reads made so far. -/
structure FromUses (uses : List (ℕ × Bool)) (first st : State) : Prop where
  keys : st.tab.keys = first.tab.keys
  prepared : ∀ k cols, st.tab.readPrepared k = some cols →
    ∃ weak, (k, weak) ∈ uses ∧ randomColumns first.tab k weak = .ok cols

theorem FromUses.step {uses : List (ℕ × Bool)} {first st st' : State} {conn : Conn} {fcd : Fcd}
    {weak : Bool} (from_uses : FromUses uses first st)
    (prepares : Prepares weak (st.between conn fcd) st') :
    FromUses (uses ++ [(fcd.keyId, weak)]) first st' := by
  refine ⟨prepares.keys.trans from_uses.keys, fun k cols prepared => ?_⟩
  rcases prepares.prepared k cols prepared with before | ⟨rfl, chosen⟩
  · obtain ⟨weak', member, chosen⟩ := from_uses.prepared k cols before
    exact ⟨weak', List.mem_append_left _ member, chosen⟩
  · refine ⟨weak, List.mem_append_right _ (List.mem_singleton_self _), ?_⟩
    have keys : (st.between conn fcd).tab.keys = first.tab.keys := from_uses.keys
    unfold randomColumns at chosen ⊢
    rwa [keys] at chosen

theorem ReadRun.fromUses {env : Env} {first st : State} {uses : List (ℕ × Bool)}
    (fresh : ∀ k, first.tab.readPrepared k = none) (run : ReadRun env first uses st) :
    FromUses uses first st := by
  induction run with
  | opened =>
      refine ⟨rfl, fun k cols prepared => ?_⟩
      rw [fresh k] at prepared
      cases prepared
  | read earlier called ih => exact ih.step (opReadRandom_prepares called)
  | start earlier called ih =>
      obtain ⟨none, same⟩ | ⟨some, prepares⟩ := opStart_prepares called
      · rw [none, if_neg Bool.false_ne_true, List.append_nil]
        refine ⟨same.1.trans ih.keys, fun k cols prepared => ih.prepared k cols ?_⟩
        rwa [same.2] at prepared
      · rw [some, if_pos rfl]
        exact ih.step prepares

/-- Reads of one kind use the columns of that kind. -/
theorem ReadRun.readColumns {env : Env} {first st : State} {uses : List (ℕ × Bool)}
    (fresh : ∀ k, first.tab.readPrepared k = none) (run : ReadRun env first uses st) {k : ℕ}
    {weak : Bool} (unmixed : (k, !weak) ∉ uses) {cols : List ℕ}
    (columns : Pqfh.readColumns st.tab k weak = .ok cols) :
    cols = if weak then (whereColumns st.tab.keys k).dropLast else whereColumns st.tab.keys k := by
  obtain ⟨keys, prepared⟩ := run.fromUses fresh
  unfold Pqfh.readColumns at columns
  split at columns
  · rename_i found here
    cases columns
    obtain ⟨weak', member, chosen⟩ := prepared k cols here
    have same : weak' = weak := by
      by_contra other
      rw [Bool.eq_not_of_ne other] at member
      exact unmixed member
    rw [same] at chosen
    have shape := randomColumns_ok chosen
    rwa [← keys] at shape
  · exact randomColumns_ok columns

/-- A read of a kind finds the row by the columns of that kind, if the key was not read in the
other way before. -/
theorem ReadRun.read_finds {env : Env} {first st called st' : State} {uses : List (ℕ × Bool)}
    (fresh : ∀ k, first.tab.readPrepared k = none) (run : ReadRun env first uses st)
    (weak : Bool) {withLock : Bool} (tab : called.tab = st.tab)
    (unmixed : (called.fcd.keyId, !weak) ∉ uses) (opened : called.fcd.openMode ≠ 128)
    (running : called.conn.aborted = false) (unlocked : Unlocked env withLock called)
    (read : opReadRandom env weak withLock called = .ok st') :
    ∃ cols, cols = (if weak then (whereColumns st.tab.keys called.fcd.keyId).dropLast
        else whereColumns st.tab.keys called.fcd.keyId) ∧
      (st'.fcd.status = stOk → ∃ row ∈ called.rows,
      HasKey env.pg st.tab called.fcd.record cols row ∧
        (weak = false → pq2cob st.tab.columns row called.fcd.record = .ok st'.fcd.record)) ∧
      (st'.fcd.status = stRecNotFound ↔
        ¬ ∃ row ∈ called.rows, HasKey env.pg st.tab called.fcd.record cols row) := by
  obtain ⟨cols, columns⟩ : ∃ cols, Pqfh.readColumns called.tab called.fcd.keyId weak =
      .ok cols := by
    obtain ⟨_, ⟨failed, _, missed⟩ | ⟨_, _, cols, _, columns, _⟩⟩ := opReadRandom_ok read
    · rcases opReadRandom_found_or_missing opened running unlocked read with ok | missing
      · exact absurd ok failed
      · obtain ⟨cols, columns, _⟩ := missed missing
        exact ⟨cols, columns⟩
    · exact ⟨cols, columns⟩
  have shape := run.readColumns fresh unmixed (tab ▸ columns)
  have part : cols.Sublist (whereColumns called.tab.keys called.fcd.keyId) := by
    rw [shape, tab]
    cases weak with
    | true => exact List.dropLast_sublist _
    | false => exact List.Sublist.refl _
  have finds := opReadRandom_finds opened running unlocked columns part read
  rw [tab] at finds
  exact ⟨cols, shape, finds⟩

/-- After any history, a random read by a key that no START has probed finds the row with the
whole key, and 23 says that there is none; and the probe of a START by a key that was not read
otherwise finds a row just when there is one with the key prefix. -/
theorem random_read_whole_key (env : Env) (first st : State) (uses : List (ℕ × Bool))
    (fresh : ∀ k, first.tab.readPrepared k = none) (run : ReadRun env first uses st) (conn : Conn)
    (fcd : Fcd) (opened : fcd.openMode ≠ 128) (running : conn.aborted = false) :
    (∀ withLock st', (fcd.keyId, true) ∉ uses → Unlocked env withLock (st.between conn fcd) →
      opReadRandom env false withLock (st.between conn fcd) = .ok st' →
      (st'.fcd.status = stOk → ∃ row ∈ (st.between conn fcd).rows,
        HasKey env.pg st.tab fcd.record (whereColumns st.tab.keys fcd.keyId) row ∧
          pq2cob st.tab.columns row fcd.record = .ok st'.fcd.record) ∧
      (st'.fcd.status = stRecNotFound ↔ ¬ ∃ row ∈ (st.between conn fcd).rows,
        HasKey env.pg st.tab fcd.record (whereColumns st.tab.keys fcd.keyId) row)) ∧
    (∀ stack inner op st', (fcd.keyId, false) ∉ uses → Unlocked env false (st.between conn fcd) →
      probes stack op (st.between conn fcd) = true →
      opStart env true stack inner op (st.between conn fcd) = .ok st' →
      (st'.eofStart = false ↔ ∃ row ∈ (st.between conn fcd).rows,
        HasKey env.pg st.tab fcd.record (whereColumns st.tab.keys fcd.keyId).dropLast row)) := by
  constructor
  · intro withLock st' unmixed unlocked read
    have tab : (st.between conn fcd).tab = st.tab := rfl
    obtain ⟨cols, shape, found, missing⟩ :=
      run.read_finds fresh false tab unmixed opened running unlocked read
    obtain rfl : cols = whereColumns st.tab.keys fcd.keyId := shape
    refine ⟨fun ok => ?_, missing⟩
    obtain ⟨row, member, has, record⟩ := found ok
    exact ⟨row, member, has, record rfl⟩
  · intro stack inner op st' unmixed unlocked probing started
    obtain ⟨st₁, read, outcome⟩ := opStart_probes started probing
    have probed : Unlocked env false { st.between conn fcd with eofStart := false } := unlocked
    have tab : { st.between conn fcd with eofStart := false }.tab = st.tab := rfl
    obtain ⟨cols, shape, found, missing⟩ :=
      run.read_finds fresh true tab unmixed opened running probed read
    obtain rfl : cols = (whereColumns st.tab.keys fcd.keyId).dropLast := shape
    rcases outcome with ⟨failed, rfl⟩ | ⟨ok, declared⟩
    · rcases opReadRandom_found_or_missing (by exact opened) (by exact running) probed read with
        ok | none
      · exact absurd ok failed
      · exact ⟨nofun, fun some => absurd some (missing.mp none)⟩
    · have began := opReadRandom_eofStart read
      obtain ⟨row, member, has, _⟩ := found ok
      exact ⟨fun _ => ⟨row, member, has⟩, fun _ => (declareScan_same declared).2.trans began⟩

/-- A number and a letter, which are the primary key together. -/
def lineColumns : List Column :=
  [⟨"numero", .numeric, 1, 0, 0, true, one_digit, no_decimals_of_one⟩,
    ⟨"letra", .character, 1, 0, 1, true, one_digit, no_decimals_of_one⟩]

/-- The table of lines, just opened, with the line A of number 1. -/
def lines (record : List Byte) : State where
  conn := ⟨fun _ => some [[.num 1, .chr [65]]], fun _ => some [[.num 1, .chr [65]]], false,
    fun _ => none⟩
  pendingCommits := 0
  eofStart := false
  tab := Table.opened 1 1 0 [] lineColumns [[0, 1]] 0 (clearBuffers 2)
  fcd := openedFcd 0 record

/-- A read of a table just opened finds the line by its whole key, and a probe of a table just
opened finds it by its number. -/
theorem random_read_first_use :
    (∃ st', opReadRandom plainServer false false (lines [49, 65]) = .ok st' ∧
      ∃ row ∈ (lines [49, 65]).rows, HasKey plainServer.pg (lines []).tab [49, 65] [0, 1] row ∧
        pq2cob lineColumns row [49, 65] = .ok st'.fcd.record) ∧
    ∃ st', opStart plainServer true (fun _ => 0) (fun _ => 0) .ge (lines [49, 66]) = .ok st' ∧
      st'.eofStart = false ∧
      ∃ row ∈ (lines [49, 66]).rows, HasKey plainServer.pg (lines []).tab [49, 66] [0] row := by
  have unlocked : ∀ record, Unlocked plainServer false (lines record) := fun _ _ _ _ _ => rfl
  constructor
  · obtain ⟨st', read, status⟩ := map_eq_ok.mp (by decide +kernel :
      (fun st : State => st.fcd.status) <$> opReadRandom plainServer false false (lines [49, 65]) =
        .ok stOk)
    exact ⟨st', read, ((random_read_whole_key plainServer (lines [49, 65]) (lines [49, 65]) []
      (fun _ => rfl) (.opened _) _ _ (by decide) rfl).1 false st' List.not_mem_nil
      (unlocked _) read).1 status⟩
  · obtain ⟨st', started, found⟩ := map_eq_ok.mp (by decide +kernel :
      (fun st : State => st.eofStart) <$>
        opStart plainServer true (fun _ => 0) (fun _ => 0) .ge (lines [49, 66]) = .ok false)
    exact ⟨st', started, found, ((random_read_whole_key plainServer (lines [49, 66])
      (lines [49, 66]) [] (fun _ => rfl) (.opened _) _ _ (by decide) rfl).2 _ _ .ge st'
      List.not_mem_nil (unlocked _) (by decide +kernel) started).mp found⟩

/-- After a START on the weak table, a read of the line B returns 00 and the line A. -/
theorem random_read_partial_key :
    ∃ st₁ st₂, opStart plainServer true (fun _ => 0) (fun _ => 0) .ge (lines [49, 65]) = .ok st₁ ∧
      opReadRandom plainServer false false (st₁.between st₁.conn (openedFcd 0 [49, 66])) =
        .ok st₂ ∧
      st₂.fcd.status = stOk ∧ st₂.fcd.record = [49, 65] ∧
      ¬ ∃ row ∈ [[.num 1, .chr [65]]],
        HasKey plainServer.pg (lines []).tab [49, 66] [0, 1] row := by
  have both : (opStart plainServer true (fun _ => 0) (fun _ => 0) .ge (lines [49, 65]) >>=
      fun st₁ => (fun st : State => (st.fcd.status, st.fcd.record)) <$>
        opReadRandom plainServer false false (st₁.between st₁.conn (openedFcd 0 [49, 66]))) =
      .ok (stOk, [49, 65]) := by decide +kernel
  obtain ⟨st₁, started, later⟩ := bind_eq_ok.mp both
  obtain ⟨st₂, read, result⟩ := map_eq_ok.mp later
  obtain ⟨status, record⟩ := Prod.mk.inj result
  refine ⟨st₁, st₂, started, read, status, record, ?_⟩
  rintro ⟨row, member, has⟩
  obtain rfl := List.mem_singleton.mp member
  obtain ⟨value, denoted, here⟩ := has 1 (by decide)
  have letter : plainServer.pg.denote ((lines []).tab.column 1)
      (keyTextOf (lines []).tab [49, 66] 1) = some (.chr [66]) := by decide +kernel
  cases letter.symm.trans denoted
  exact absurd here (by decide)

end Pqfh
