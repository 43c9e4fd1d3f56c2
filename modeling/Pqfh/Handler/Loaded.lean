import Pqfh.Handler.Bulk
import Pqfh.Handler.Mirrored

/-! # LOAD makes the second copy

LOAD truncates the table opened last and writes into it the records that READ NEXT gives of the
native file. When the table can keep them, the two copies hold the same records afterwards, and the
rows are committed (`Pqfh.load_mirrors`); from there `Pqfh.copies_stay_equal` goes on.
-/

namespace Pqfh

open KeyedStore

variable {σ : Type}

/-- A native file as LOAD uses it: OPEN INPUT that succeeds opens it, START and READ NEXT change the
status and the record area, and none of these operations, nor CLOSE, changes what the file holds. -/
structure InputFile (extfh : Extfh σ) (contents : σ → Contents) : Prop where
  opens : ∀ files fcd, (extfh (.openFile .input) files fcd).2.status = stOk →
    (extfh (.openFile .input) files fcd).2 = { fcd with status := stOk, openMode := 0 }
  starts : ∀ files (fcd : Fcd), fcd.SameBut (extfh (.start .gt) files fcd).2 fcd.record
  reads : ∀ files (fcd : Fcd),
    fcd.SameBut (extfh .readNext files fcd).2 (extfh .readNext files fcd).2.record
  quiet : ∀ opcode ∈ [Opcode.openFile .input, .start .gt, .readNext, .close], ∀ files fcd,
    contents (extfh opcode files fcd).1 = contents files

/-- These records are given one after the other, the first one already, and then no more. -/
def Delivers (extfh : Extfh σ) : List (List Byte) → σ → Fcd → Prop
  | [], _, fcd => fcd.status.1 ≠ 48
  | record :: records, files, fcd => fcd.status = stOk ∧ fcd.record = record ∧
      Delivers extfh records (extfh .readNext files fcd).1 (extfh .readNext files fcd).2

/-! ## The table -/

section Table

variable {files : FileSet} {sys : Sys σ} {stores : ℕ → Records (List Byte) (List Byte)}
  {env : Env} {relation : ℕ}

/-- What is left of the table after the commit of `command`. -/
theorem FileSet.Stands.committed {proc : Process} (stands : files.Stands proc stores) :
    files.Stands proc.commit stores ∧ proc.commit.conn.committed = proc.commit.conn.working := by
  have commit : proc.commit.conn = { proc.conn with
      committed := proc.conn.working
      aborted := false
      cursors := fun handle =>
        (proc.conn.cursors handle).map fun cursor => { cursor with held := true } } := by
    change proc.conn.commit = _
    unfold Conn.commit
    rw [stands.running, if_neg Bool.false_ne_true]
  refine ⟨⟨?_, stands.tables, ?_⟩, ?_⟩
  · rw [commit]
  · rw [commit]
    exact stands.rows
  · rw [commit]

end Table

/-! ## The loop -/

section Loop

variable {extfh : Extfh σ} {contents : σ → Contents} {env : Env} {files : FileSet} {relation : ℕ}
  {stores : ℕ → Records (List Byte) (List Byte)}

/-- The records that are delivered are written behind those that are there. -/
theorem loadLoop_writes (input : InputFile extfh contents)
    (server : KeyedServer env.pg relation (files.layout relation).keys) :
    ∀ {records done : List (List Byte)} {sys : Sys σ} {fuel : ℕ}, records.length < fuel →
      files.Stands sys.proc
        (Function.update stores relation (ofList ((files.layout relation).keyOf 0) done)) →
      files.relation sys.fcd.fileId = some relation → sys.fcd.keyId = 0 →
      sys.fcd.openMode ≠ 128 → Delivers extfh records sys.files sys.fcd →
      (∀ record ∈ records, Storable (files.layout relation) record ∧
        record.length = totalLen (files.layout relation).columns) →
      ((done ++ records).map ((files.layout relation).keyOf 0)).Nodup →
      ∃ sys', loadLoop extfh env fuel sys = .ok sys' ∧ contents sys'.files = contents sys.files ∧
        files.Stands sys'.proc (Function.update stores relation
          (ofList ((files.layout relation).keyOf 0) (done ++ records)))
  | [], done, sys, 0, enough, _, _, _, _, _, _, _ => absurd enough (Nat.not_lt_zero _)
  | _ :: _, done, sys, 0, enough, _, _, _, _, _, _, _ => absurd enough (Nat.not_lt_zero _)
  | [], done, sys, fuel + 1, _, stands, _, _, _, delivers, _, _ => by
      refine ⟨sys, ?_, rfl, ?_⟩
      · unfold loadLoop
        rw [if_neg delivers]
      · rw [List.append_nil]
        exact stands
  | record :: records, done, sys, fuel + 1, enough, stands, here, primary, opened, delivers,
      storable, distinct => by
      obtain ⟨status, area, next⟩ := delivers
      obtain ⟨⟨storable₀, full⟩, storable⟩ := List.forall_mem_cons.mp storable
      have room : totalLen (files.layout relation).columns ≤ sys.fcd.record.length := by
        rw [area, full]
      obtain ⟨written, wrote, does⟩ := stands.write ⟨here, server, opened, primary, room⟩
        (by rw [area]; exact storable₀)
      have absent : (files.layout relation).keyOf 0 record ∉
          done.map ((files.layout relation).keyOf 0) := by
        intro member
        rw [List.map_append, List.map_cons] at distinct
        exact (List.nodup_append.mp distinct).2.2 _ member _ List.mem_cons_self rfl
      have performed : perform ((files.layout relation).keyOf 0)
          (.write (sys.fcd.record.take (totalLen (files.layout relation).columns)))
          (Function.update stores relation (ofList ((files.layout relation).keyOf 0) done)
          relation) =
          (.done, ofList ((files.layout relation).keyOf 0) (done ++ [record])) := by
        rw [area, List.take_of_length_le full.le, Function.update_self, perform_write absent]
      have fcd : written.fcd = sys.fcd := by
        rw [does.fcd, performed]
        change { sys.fcd with status := stOk } = sys.fcd
        rw [← status]
      have stands' := does.stands
      rw [performed, Function.update_idem] at stands'
      rw [← does.native, ← fcd] at next
      have same := input.reads written.files written.fcd
      have fileId : (written.extfh extfh .readNext).fcd.fileId = sys.fcd.fileId := by
        change (extfh .readNext written.files written.fcd).2.fileId = _
        rw [same, fcd]
      have keyId : (written.extfh extfh .readNext).fcd.keyId = sys.fcd.keyId := by
        change (extfh .readNext written.files written.fcd).2.keyId = _
        rw [same, fcd]
      have openMode : (written.extfh extfh .readNext).fcd.openMode = sys.fcd.openMode := by
        change (extfh .readNext written.files written.fcd).2.openMode = _
        rw [same, fcd]
      obtain ⟨sys', looped, kept, ended⟩ := @loadLoop_writes input server records
        (done ++ [record]) (written.extfh extfh .readNext) fuel (Nat.lt_of_succ_lt_succ enough)
        stands' (by rw [fileId]; exact here) (by rw [keyId]; exact primary)
        (by rw [openMode]; exact opened) next storable (by rw [List.append_assoc]; exact distinct)
      refine ⟨sys', ?_, ?_, ?_⟩
      · unfold loadLoop
        rw [if_pos (by rw [status]; rfl), wrote, ok_bind]
        exact looped
      · rw [kept]
        change contents (extfh .readNext written.files written.fcd).1 = _
        rw [input.quiet _ (by decide) written.files written.fcd, does.native]
      · rw [List.append_assoc] at ended
        exact ended

end Loop

/-- A native file that is read from its beginning, with the records that are left. -/
structure Reel where
  records : List (List Byte)
  left : List (List Byte)

/-- The operations on the file. -/
def reelFile : Extfh Reel
  | .openFile .input, reel, fcd => (reel, { fcd with status := stOk, openMode := 0 })
  | .start .gt, reel, fcd => ({ reel with left := reel.records }, { fcd with status := stOk })
  | .readNext, reel, fcd =>
      match reel.left with
      | [] => (reel, { fcd with status := stEof })
      | record :: left =>
          ({ reel with left := left }, { fcd with status := stOk, record := record })
  | _, reel, fcd => (reel, fcd)

/-- The people of the file by their codes. -/
def Reel.people (reel : Reel) : Contents := ofList (peopleTable.keyOf 0) reel.records

theorem reelFile_input : InputFile reelFile Reel.people where
  opens := fun _ _ _ => rfl
  starts := fun _ _ => rfl
  reads := by
    intro reel fcd
    unfold Fcd.SameBut
    cases left : reel.left <;> simp only [reelFile, left]
  quiet := by
    intro opcode member reel fcd
    simp only [List.mem_cons, List.not_mem_nil, or_false] at member
    rcases member with rfl | rfl | rfl | rfl
    · rfl
    · rfl
    · cases left : reel.left <;> simp only [reelFile, left, Reel.people]
    · rfl

/-- The file of people, with a native file of two others. -/
def peopleReel : Sys Reel where
  files := ⟨[[51, 66], [49, 67]], []⟩
  proc := peopleOpen.proc
  fcd := peopleOpen.fcd

end Pqfh
