import Pqfh.Handler.OpsFrame
import Pqfh.Handler.RoundTrip

/-! # Rejected updates

`op_write`, `op_rewrite` and `op_delete` look for the row first, with `op_read_random` on the
record area of the caller. A row that is found overwrites the record area, and `op_rewrite`
alone puts the record back. So a rejected update leaves the caller's record if and only if
the row found reads as this record already (`Pqfh.rejected_update_iff`).
-/

namespace Pqfh

/-- The record area and the key of the caller are what they were. -/
def Untouched (st st' : State) : Prop :=
  st'.fcd.record = st.fcd.record ∧ st'.fcd.keyId = st.fcd.keyId

/-- `op_read_random` gives up before it reads: it asks for a lock that another process has. -/
def LockedOut (env : Env) (st : State) : Prop :=
  st.tab.readPrepared st.fcd.keyId = none ∧
    ∃ kbuf, getkbuf st.tab st.fcd.keyId st.fcd.record = .ok kbuf ∧
      wantsLock env false (cstr kbuf) st = true ∧
      env.pg.tryLock st.tab.oid (atoi (cstr kbuf)) = false

/-- The row that a read by the key in use finds. -/
def ProbeFinds (env : Env) (st : State) (row : Row) : Prop :=
  ¬ LockedOut env st ∧ ∃ cols, readColumns st.tab st.fcd.keyId false = .ok cols ∧
    Reads env.pg st cols row

/-- The row that a read finds, if there is one, reads as the record area. -/
def ProbeSame (env : Env) (st : State) : Prop :=
  ∀ row, ProbeFinds env st row → pq2cob st.tab.columns row st.fcd.record = .ok st.fcd.record

theorem Reads.unique {pg : Postgres} {st : State} {cols : List ℕ} {row row' : Row}
    (reads : Reads pg st cols row) (reads' : Reads pg st cols row') : row = row' := by
  obtain ⟨_, bufs, texts, condition, rows, rest, bound, denoted, present, first⟩ := reads
  obtain ⟨_, bufs', texts', condition', rows', rest', bound', denoted', present', first'⟩ := reads'
  cases bound.symm.trans bound'
  cases denoted.symm.trans denoted'
  cases present.symm.trans present'
  exact (List.cons.inj (first.symm.trans first')).1

theorem ProbeFinds.unique {env : Env} {st : State} {row row' : Row} (finds : ProbeFinds env st row)
    (finds' : ProbeFinds env st row') : row = row' := by
  obtain ⟨_, cols, columns, reads⟩ := finds
  obtain ⟨_, cols', columns', reads'⟩ := finds'
  cases columns.symm.trans columns'
  exact reads.unique reads'

/-- Where a scan stands does not matter to a read. -/
theorem probeFinds_resetScan {env : Env} {st : State} {row : Row} :
    ProbeFinds env st.resetScan row ↔ ProbeFinds env st row := by
  constructor
  · rintro ⟨unlocked, cols, columns, running, found⟩
    exact ⟨unlocked, cols, columns, running, found⟩
  · rintro ⟨unlocked, cols, columns, running, found⟩
    exact ⟨unlocked, cols, columns, running, found⟩

theorem Reads.not_misses {pg : Postgres} {st : State} {cols : List ℕ} {row : Row}
    (reads : Reads pg st cols row) : ¬ Misses pg st cols := by
  rintro ⟨bufs', texts', bound', none⟩
  obtain ⟨running, bufs, texts, condition, rows, rest, bound, denoted, present, first⟩ := reads
  cases bound.symm.trans bound'
  have empty := none running condition rows denoted present
  rw [first] at empty
  cases empty

/-- The record area after a read is the caller's if and only if the row found, if there is
one, reads as it. -/
theorem opReadRandom_record_iff {env : Env} {st st' : State} (opened : st.fcd.openMode ≠ 128)
    (read : opReadRandom env false false st = .ok st') :
    st'.fcd.record = st.fcd.record ↔ ProbeSame env st := by
  obtain ⟨_, ⟨missed, same, misses⟩ | ⟨ok, _, cols, row, columns, reads, decoded⟩⟩ :=
    opReadRandom_ok read
  · refine ⟨fun _ found finds => ?_, fun _ => same⟩
    obtain ⟨unlocked, cols, columns, reads⟩ := finds
    exfalso
    by_cases absent : st'.fcd.status = stRecNotFound
    · obtain ⟨cols', columns', none⟩ := misses absent
      cases columns.symm.trans columns'
      exact reads.not_misses none
    · rcases opReadRandom_neither opened read missed absent with aborted | locked
      · rw [reads.running] at aborted
        cases aborted
      · exact unlocked locked
  · have finds : ProbeFinds env st row := by
      refine ⟨fun locked => ?_, cols, columns, reads⟩
      obtain ⟨fresh, kbuf, built, asks, busy⟩ := locked
      have refused := opReadRandom_refused opened fresh built asks busy read
      exact absurd (ok.symm.trans refused) (by decide)
    rw [if_neg Bool.false_ne_true] at decoded
    constructor
    · intro same row' finds'
      rw [← finds.unique finds', decoded, same]
    · intro same
      exact Except.ok.inj (decoded.symm.trans (same row finds))

/-- A rejected WRITE or DELETE leaves the record area and the key of the caller if and only if
the row that its read finds, if there is one, reads as the caller's record; a rejected
REWRITE always leaves them. -/
theorem rejected_update_iff (env : Env) (st : State) :
    (∀ st', opWrite env st = .ok st' → st'.fcd.status = stDuplKey →
      (Untouched st st' ↔ ProbeSame env (st.setKeyId 0))) ∧
    (∀ done st', opRewrite env st = .ok (done, st') → st'.fcd.status = stRecNotFound →
      Untouched st st') ∧
    ∀ st', opDelete env st = .ok st' → st'.fcd.status = stRecNotFound →
      (Untouched st st' ↔ ProbeSame env st) := by
  refine ⟨fun st' wrote status => ?_, fun done st' rewrote _ => ?_, fun st' deleted status => ?_⟩
  · obtain ⟨st₁, read, left⟩ := opWrite_fcd wrote
    have opened : st.fcd.openMode ≠ 128 := by
      intro closed
      rw [opWrite, if_pos closed] at wrote
      cases wrote
      exact absurd status (by decide : stNotOpenedWrite ≠ stDuplKey)
    have opened' : (st.setKeyId 0).fcd.openMode ≠ 128 := opened
    have record := opReadRandom_record_iff opened' read
    unfold Untouched
    rw [left.record, left.keyId, ← record]
    exact and_iff_left rfl
  · have left := opRewrite_fcd rewrote
    exact ⟨left.record, left.keyId⟩
  · obtain ⟨st₁, read, left⟩ := opDelete_fcd deleted
    have opened : st.fcd.openMode ≠ 128 := by
      intro closed
      rw [opDelete, if_pos closed] at deleted
      cases deleted
      exact absurd status (by decide : stNotOpenedUpdel ≠ stRecNotFound)
    have opened' : st.resetScan.fcd.openMode ≠ 128 := opened
    have record := opReadRandom_record_iff opened' read
    simp only [ProbeSame, probeFinds_resetScan] at record
    unfold Untouched
    rw [left.record, left.keyId]
    exact (and_iff_left rfl).trans record

/-- A WRITE that finds its row leaves the record already stored, 1 and 7.0, in the place of
the caller's, 1 and -2.5. -/
theorem rejected_write_overwrites :
    ∃ st', opWrite plainServer (balances [[.num 1, .num 7]] [49, 48, 50, 117]) = .ok st' ∧
      st'.fcd.status = stDuplKey ∧ st'.fcd.record = [49, 48, 55, 48] ∧
      ¬ Untouched (balances [[.num 1, .num 7]] [49, 48, 50, 117]) st' := by
  obtain ⟨st', wrote, result⟩ := map_eq_ok.mp (by decide +kernel :
    (fun st : State => (st.fcd.status, st.fcd.record)) <$>
      opWrite plainServer (balances [[.num 1, .num 7]] [49, 48, 50, 117]) =
    .ok (stDuplKey, [49, 48, 55, 48]))
  obtain ⟨status, record⟩ := Prod.mk.inj result
  refine ⟨st', wrote, status, record, ?_⟩
  rintro ⟨same, _⟩
  rw [record] at same
  exact absurd same (by decide)

/-- A record that is written twice is left alone the second time, and so is one that is
rewritten without being there. -/
theorem rejected_update_same :
    (∃ st', opWrite plainServer (balances [[.num 1, .num 7]] [49, 48, 55, 48]) = .ok st' ∧
      st'.fcd.status = stDuplKey ∧ Untouched (balances [[.num 1, .num 7]] [49, 48, 55, 48]) st') ∧
    ∃ st', opRewrite plainServer (balances [] [49, 48, 55, 48]) = .ok (false, st') ∧
      st'.fcd.status = stRecNotFound ∧ Untouched (balances [] [49, 48, 55, 48]) st' := by
  constructor
  · obtain ⟨st', wrote, status⟩ := map_eq_ok.mp (by decide +kernel :
      (fun st : State => st.fcd.status) <$>
        opWrite plainServer (balances [[.num 1, .num 7]] [49, 48, 55, 48]) = .ok stDuplKey)
    refine ⟨st', wrote, status, ((rejected_update_iff _ _).1 st' wrote status).mpr ?_⟩
    rintro row ⟨_, cols, _, _, bufs, texts, condition, rows, rest, _, _, present, first⟩
    cases present
    have member : row ∈ [[Value.num 1, .num 7]] :=
      List.mem_of_mem_filter (first ▸ List.mem_cons_self)
    obtain rfl := List.mem_singleton.mp member
    decide +kernel
  · obtain ⟨⟨done, st'⟩, rewrote, result⟩ := map_eq_ok.mp (by decide +kernel :
      (fun result : Bool × State => (result.1, result.2.fcd.status)) <$>
        opRewrite plainServer (balances [] [49, 48, 55, 48]) = .ok (false, stRecNotFound))
    obtain ⟨rfl, status⟩ := Prod.mk.inj result
    exact ⟨st', rewrote, status, (rejected_update_iff _ _).2.1 _ st' rewrote status⟩

end Pqfh
