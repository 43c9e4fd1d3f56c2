import Pqfh.Handler.OpsSpec

/-! # What the operations leave of the fcd

An operation sets the status, and the record area is what its read leaves: `op_rewrite` puts
the record of the caller back, `op_write` and `op_delete` do not.
-/

namespace Pqfh

/-- The fcd up to its status. -/
def Fcd.SameBut (fcd fcd' : Fcd) (record : List Byte) : Prop :=
  fcd' = { fcd with status := fcd'.status, record := record }

theorem Fcd.SameBut.record {fcd fcd' : Fcd} {record : List Byte} (same : fcd.SameBut fcd' record) :
    fcd'.record = record := by
  rw [same]

theorem Fcd.SameBut.openMode {fcd fcd' : Fcd} {record : List Byte}
    (same : fcd.SameBut fcd' record) : fcd'.openMode = fcd.openMode := by
  rw [same]

theorem Fcd.SameBut.keyId {fcd fcd' : Fcd} {record : List Byte}
    (same : fcd.SameBut fcd' record) : fcd'.keyId = fcd.keyId := by
  rw [same]

theorem fetchRandom_fcd {env : Env} {weak : Bool} {cols : List ℕ} {st st' : State}
    (fetched : fetchRandom env weak cols st = .ok st') :
    st.fcd.SameBut st'.fcd st'.fcd.record := by
  cases fetchRandom_cases fetched <;> rfl

/-- `op_read_random` changes the status and the record area. -/
theorem opReadRandom_fcd {env : Env} {weak withLock : Bool} {st st' : State}
    (read : opReadRandom env weak withLock st = .ok st') :
    st.fcd.SameBut st'.fcd st'.fcd.record := by
  cases opReadRandom_iff.mp read with
  | closed => rfl
  | locked _ _ prepared =>
      rw [← st.released_fcd, ← (prepareRandom_ok prepared).2.1]
      rfl
  | fetched _ _ prepared fetched =>
      rw [← st.released_fcd, ← (prepareRandom_ok prepared).2.1]
      exact fetchRandom_fcd fetched

theorem insertRecord_fcd {env : Env} {st st' : State} (inserted : insertRecord env st = .ok st') :
    st.fcd.SameBut st'.fcd st.fcd.record := by
  unfold insertRecord at inserted
  have inserted := (guard_ok inserted).1
  obtain ⟨⟨bufs, texts⟩, _, inserted⟩ := bind_eq_ok.mp inserted
  cases inserted
  rfl

/-- `op_write` leaves the record area as its read by key 0 does. -/
theorem opWrite_fcd {env : Env} {st st' : State} (wrote : opWrite env st = .ok st') :
    ∃ st₁, opReadRandom env false false (st.setKeyId 0) = .ok st₁ ∧
      st.fcd.SameBut st'.fcd st₁.fcd.record := by
  unfold opWrite at wrote
  split at wrote
  · rename_i closed
    cases wrote
    exact ⟨_, if_pos closed, rfl⟩
  · dsimp only at wrote
    obtain ⟨st₁, read, wrote⟩ := bind_eq_ok.mp wrote
    have kept := opReadRandom_fcd read
    refine ⟨st₁, read, ?_⟩
    split at wrote
    · cases wrote
      unfold Fcd.SameBut at kept ⊢
      rw [State.setKeyId, State.setStatus, kept]
      rfl
    · obtain ⟨st₂, inserted, wrote⟩ := bind_eq_ok.mp wrote
      have kept' := insertRecord_fcd inserted
      cases wrote
      unfold Fcd.SameBut at kept kept' ⊢
      rw [State.setKeyId, kept', kept]
      rfl

theorem updateRecord_fcd {env : Env} {st st' : State} (updated : updateRecord env st = .ok st') :
    st.fcd.SameBut st'.fcd st.fcd.record := by
  unfold updateRecord at updated
  have updated := (guard_ok updated).1
  obtain ⟨⟨bufs, texts⟩, _, updated⟩ := bind_eq_ok.mp updated
  cases updated
  rfl

/-- `op_rewrite` leaves the record of the caller. -/
theorem opRewrite_fcd {env : Env} {st st' : State} {done : Bool}
    (rewrote : opRewrite env st = .ok (done, st')) : st.fcd.SameBut st'.fcd st.fcd.record := by
  unfold opRewrite at rewrote
  split at rewrote
  · cases rewrote
    rfl
  · dsimp only at rewrote
    obtain ⟨st₁, read, rewrote⟩ := bind_eq_ok.mp rewrote
    have kept := opReadRandom_fcd read
    split at rewrote
    · rename_i missing
      obtain ⟨_, ⟨_, same, _⟩ | ⟨found, _⟩⟩ := opReadRandom_ok read
      · cases rewrote
        unfold Fcd.SameBut at kept ⊢
        rw [State.setKeyId, kept, same]
        rfl
      · exact absurd found missing
    · split at rewrote
      · rename_i same
        cases rewrote
        unfold Fcd.SameBut at kept ⊢
        rw [State.setKeyId, State.setStatus, kept, same]
        rfl
      · obtain ⟨_, _, rewrote⟩ := bind_eq_ok.mp rewrote
        obtain ⟨st₂, updated, rewrote⟩ := bind_eq_ok.mp rewrote
        have kept' := updateRecord_fcd updated
        cases rewrote
        unfold Fcd.SameBut at kept kept' ⊢
        rw [State.setKeyId, kept', State.setRecord, kept]
        rfl

theorem deleteRecord_fcd {env : Env} {st st' : State} (deleted : deleteRecord env st = .ok st') :
    st.fcd.SameBut st'.fcd st.fcd.record := by
  unfold deleteRecord at deleted
  have deleted := (guard_ok deleted).1
  obtain ⟨⟨bufs, texts⟩, _, deleted⟩ := bind_eq_ok.mp deleted
  cases deleted
  rfl

/-- `op_delete` leaves the record area as its read does. -/
theorem opDelete_fcd {env : Env} {st st' : State} (deleted : opDelete env st = .ok st') :
    ∃ st₁, opReadRandom env false false st.resetScan = .ok st₁ ∧
      st.fcd.SameBut st'.fcd st₁.fcd.record := by
  unfold opDelete at deleted
  split at deleted
  · rename_i closed
    cases deleted
    exact ⟨_, if_pos closed, rfl⟩
  · obtain ⟨st₁, read, deleted⟩ := bind_eq_ok.mp deleted
    have kept := opReadRandom_fcd read
    refine ⟨st₁, read, ?_⟩
    split at deleted
    · cases deleted
      unfold Fcd.SameBut at kept ⊢
      rw [State.setStatus, kept]
      rfl
    · obtain ⟨_, _, deleted⟩ := bind_eq_ok.mp deleted
      have kept' := deleteRecord_fcd deleted
      unfold Fcd.SameBut at kept kept' ⊢
      rw [kept', kept]
      rfl

end Pqfh
