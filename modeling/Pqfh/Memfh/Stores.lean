import Pqfh.Handler.KeyedRuns
import Pqfh.Memfh.Registry
import Pqfh.Memfh.Rewrite
import Pqfh.Memfh.Runs

/-! # In-memory files as keyed stores

A program that opens, reads, writes, rewrites and closes any number of in-memory files in any order
gets from `memfh_cbl` what it would get from a store of records for each name
(`Pqfh.Memfh.memory_refines`). The calls must be such that the handler can make sense of them
(`Pqfh.Memfh.Memory.Admits`): a name is opened for output once until it is freed, a new record has
a new key, and a record put in the place of another begins like it.
-/

namespace Pqfh.Memfh

open KeyedStore

/-! ## What a program sees -/

/-- A file: its name, the length of its records, the components of its primary key, and the records
by their keys. -/
structure MemFile where
  name : String
  reclen : ℕ
  primary : List (ℕ × ℕ)
  records : Records Key (List Byte)

/-- The files by the numbers that fcds designate them with, the number of each name, and how many
files there are. -/
structure Memory where
  files : ℕ → Option MemFile
  named : String → Option ℕ
  count : ℕ

/-- The memory of a program that starts. -/
def Memory.empty : Memory := ⟨fun _ => none, fun _ => none, 0⟩

/-- A file without records, under a new number. -/
def Memory.create (memory : Memory) (address : ℕ) (call : Call) : Fcd × Memory :=
  ({ call.fcd with fileId := address, status := stOk, openMode := 2 },
    { files := Function.update memory.files address (some
        { name := call.filename
          reclen := call.fcd.record.length
          primary := ((kdbKeys call.fcd.kdb).getD []).getD 0 []
          records := fun _ => none })
      named := Function.update memory.named call.filename (some address)
      count := memory.count + 1 })

/-- A call on the records of the file that the fcd designates. -/
def Memory.use (memory : Memory) (closed : Status) (fcd : Fcd)
    (request : MemFile → KeyedStore.Call Key (List Byte)) : Fcd × Memory :=
  if fcd.openMode = 128 then ({ fcd with status := closed }, memory)
  else
    match memory.files fcd.fileId with
    | none => (fcd, memory)
    | some file =>
        let (reply, records) := perform (mountKey file.primary) (request file) file.records
        (fcd.answered file.reclen reply, { memory with
          files := Function.update memory.files fcd.fileId (some { file with records }) })

/-- CLOSE, which may free the file. -/
def Memory.close (memory : Memory) (free : Bool) (fcd : Fcd) : Fcd × Memory :=
  if fcd.openMode = 128 then ({ fcd with status := stAlreadyClosed }, memory)
  else if free = false then ({ fcd with status := stOk, openMode := 128 }, memory)
  else
    match memory.files fcd.fileId with
    | none => ({ fcd with status := stAlreadyClosed }, memory)
    | some file => ({ fcd with status := stOk, openMode := 128 },
        { files := Function.update memory.files fcd.fileId none
          named := Function.update memory.named file.name none
          count := memory.count - 1 })

/-- What a call does, and what it gives back. The number stands by for a new file. -/
def Memory.serve (call : ℕ × Call) (memory : Memory) : Fcd × Memory :=
  let fcd := call.2.fcd
  match call.2.op with
  | .openFile .input =>
      match memory.named call.2.filename with
      | some address => ({ fcd with status := stOk, openMode := 0, fileId := address }, memory)
      | none => ({ fcd with status := stFileNotFound }, memory)
  | .openFile .io =>
      match memory.named call.2.filename with
      | some address => ({ fcd with status := stOk, openMode := 1, fileId := address }, memory)
      | none => memory.create call.1 call.2
  | .openFile .output => memory.create call.1 call.2
  | .close => memory.close call.2.free fcd
  | .write => memory.use stNotOpenedWrite fcd fun _ => .write fcd.record
  | .rewrite => memory.use stNotOpenedWrite fcd fun _ => .rewrite fcd.record
  | .readRandom => memory.use stNotOpenedRead fcd fun file =>
      .read (mountKey file.primary fcd.record)
  | _ => (fcd, memory)

/-- A file can be made: the name and the number are new, there is room, and the key definition block
has keys of at most 256 bytes. -/
structure Memory.Creates (memory : Memory) (call : ℕ × Call) : Prop where
  unnamed : memory.named call.2.filename = none
  unused : memory.files call.1 = none
  room : memory.count < maxHdrs
  keys : ∃ keys, kdbKeys call.2.fcd.kdb = some keys ∧ ∀ comps ∈ keys, keyLength comps ≤ 256

/-- The fcd is closed, or designates a file to whose records the rule allows the call. -/
def Memory.Uses (memory : Memory) (fcd : Fcd) (allowed : MemFile → Prop) : Prop :=
  fcd.openMode ≠ 128 → ∃ file, memory.files fcd.fileId = some file ∧
    fcd.record.length = file.reclen ∧ allowed file

/-- The calls that the handler can make sense of. -/
def Memory.Admits (call : ℕ × Call) (memory : Memory) : Prop :=
  let fcd := call.2.fcd
  match call.2.op with
  | .openFile .input | .close => True
  | .openFile .io => memory.named call.2.filename = none → memory.Creates call
  | .openFile .output => memory.Creates call
  | .write => memory.Uses fcd fun file => file.records (mountKey file.primary fcd.record) = none
  | .rewrite => memory.Uses fcd fun file =>
      ∀ stored ∈ file.records (mountKey file.primary fcd.record),
        keyLength file.primary ≤ file.reclen ∧
          stored.take (keyLength file.primary) = fcd.record.take (keyLength file.primary)
  | .readRandom => memory.Uses fcd fun _ => True
  | _ => False

/-! ## What the handler keeps -/

/-- A header keeps a file. -/
structure Hdr.Keeps (hdr : Hdr) (file : MemFile) : Prop where
  name : hdr.filename = file.name
  reclen : hdr.reclen = file.reclen
  primary : hdr.comps 0 = file.primary
  ok : FileOk hdr
  keyed : Keyed hdr
  records : file.records = ofList (mountKey file.primary) hdr.data

/-- The registry keeps the files. -/
structure Memory.Stands (reg : Registry) (memory : Memory) : Prop where
  size : reg.hdrs.length = maxHdrs
  counted : reg.nhdrs = memory.count
  count : memory.count = reg.hdrs.reduceOption.length
  nodup : reg.hdrs.reduceOption.Nodup
  registered : ∀ address, some address ∈ reg.hdrs ↔ (memory.files address).isSome
  named : ∀ name address, memory.named name = some address ↔
    ∃ file, memory.files address = some file ∧ file.name = name
  absent : ∀ address, memory.files address = none → reg.heap address = none
  held : ∀ address file, memory.files address = some file →
    ∃ hdr, reg.heap address = some hdr ∧ hdr.Keeps file

/-- A call of `memfh_cbl`, for the address that `malloc` would give a new header. -/
def callMemory (call : ℕ × Call) (reg : Registry) : Except Unit (Fcd × Registry) :=
  match memfhCbl call.1 call.2 reg with
  | some outcome => .ok outcome
  | none => .error ()

theorem Memory.initial_stands : Memory.Stands Registry.initial Memory.empty where
  size := List.length_replicate
  counted := rfl
  count := by
    unfold Registry.initial
    rw [List.reduceOption_replicate_none]
    rfl
  nodup := by
    unfold Registry.initial
    rw [List.reduceOption_replicate_none]
    exact List.nodup_nil
  registered := fun address => by
    unfold Registry.initial Memory.empty
    rw [List.mem_replicate]
    exact iff_of_false nofun Bool.false_ne_true
  named := fun name address => by
    unfold Memory.empty
    exact iff_of_false nofun fun ⟨_, there, _⟩ => nomatch there
  absent := fun _ _ => rfl
  held := nofun

section Registry

variable {reg : Registry} {memory : Memory}

/-- The search for a name finds the file of that name. -/
theorem Memory.Stands.find (stands : Memory.Stands reg memory) (name : String) :
    findName reg.heap name reg.hdrs = some (memory.named name) := by
  have live : ∀ address, some address ∈ reg.hdrs → (reg.heap address).isSome := by
    intro address member
    obtain ⟨file, there⟩ := Option.isSome_iff_exists.mp ((stands.registered address).mp member)
    obtain ⟨hdr, held, _⟩ := stands.held address file there
    rw [held]
    rfl
  rcases findName_spec reg.heap name reg.hdrs live with ⟨found, unnamed⟩ | ⟨address, hdr, found,
    member, there, same⟩
  · rw [found]
    cases named : memory.named name with
    | none => rfl
    | some address =>
        obtain ⟨file, present, rfl⟩ := (stands.named name address).mp named
        obtain ⟨hdr, held, keeps⟩ := stands.held address file present
        have member := (stands.registered address).mpr (by rw [present]; rfl)
        exact absurd keeps.name (unnamed address hdr member held)
  · obtain ⟨file, present⟩ := Option.isSome_iff_exists.mp ((stands.registered address).mp member)
    obtain ⟨hdr', held, keeps⟩ := stands.held address file present
    obtain rfl := Option.some.inj (there.symm.trans held)
    rw [found, (stands.named name address).mpr ⟨file, present, keeps.name.symm.trans same⟩]

/-- The loop that clears the slots when no header is counted does nothing. -/
theorem Memory.Stands.cleared (stands : Memory.Stands reg memory) :
    (if reg.nhdrs = 0 then List.replicate maxHdrs none else reg.hdrs) = reg.hdrs := by
  split
  · rename_i zero
    rw [stands.counted, stands.count] at zero
    have empty := List.length_eq_zero_iff.mp (Int.ofNat_eq_zero.mp zero)
    obtain ⟨count, same⟩ := (List.reduceOption_eq_nil_iff _).mp empty
    have size := stands.size
    rw [same, List.length_replicate] at size
    rw [same, size]
  · rfl

/-- The header of a file is exchanged. -/
theorem Memory.Stands.setHdr (stands : Memory.Stands reg memory) {address : ℕ}
    {file file' : MemFile} {hdr : Hdr} (there : memory.files address = some file)
    (keeps : hdr.Keeps file') (same : file'.name = file.name) :
    Memory.Stands (reg.setHdr address hdr)
      { memory with files := Function.update memory.files address (some file') } where
  size := stands.size
  counted := stands.counted
  count := stands.count
  nodup := stands.nodup
  registered := by
    intro other
    refine (stands.registered other).trans ?_
    dsimp only
    by_cases here : other = address
    · rw [here, there, Function.update_self]
      rfl
    · rw [Function.update_of_ne here]
  named := by
    intro name other
    refine (stands.named name other).trans ?_
    dsimp only
    by_cases here : other = address
    · rw [here, there, Function.update_self]
      simp only [Option.some.injEq, exists_eq_left', same]
    · rw [Function.update_of_ne here]
  absent := by
    intro other gone
    dsimp only at gone
    have apart : other ≠ address := by
      rintro rfl
      rw [Function.update_self] at gone
      cases gone
    rw [Function.update_of_ne apart] at gone
    exact (Function.update_of_ne apart _ _).trans (stands.absent other gone)
  held := by
    intro other kept present
    dsimp only at present
    by_cases here : other = address
    · rw [here, Function.update_self] at present
      obtain rfl := Option.some.inj present
      exact ⟨hdr, by rw [here]; exact Function.update_self _ _ _, keeps⟩
    · rw [Function.update_of_ne here] at present
      obtain ⟨hdr', held, keeps'⟩ := stands.held other kept present
      exact ⟨hdr', (Function.update_of_ne here _ _).trans held, keeps'⟩

/-! ## Opening and closing -/

theorem memfhOpen_keeps (name : String) (reclen : ℕ) {keys : List (List (ℕ × ℕ))}
    (short : ∀ comps ∈ keys, keyLength comps ≤ 256) :
    (memfhOpen name reclen keys).Keeps ⟨name, reclen, keys.getD 0 [], fun _ => none⟩ where
  name := rfl
  reclen := rfl
  primary := rfl
  ok := memfhOpen_ok name short
  keyed := fun _ _ filled => absurd rfl filled
  records := rfl

/-- An open for output makes a file. -/
theorem Memory.Stands.create (stands : Memory.Stands reg memory) {call : ℕ × Call}
    (creates : memory.Creates call) :
    ∃ reg', memfhCblOpenOutput call.1 call.2.filename reg call.2.fcd =
        some ((memory.create call.1 call.2).1, reg') ∧
      Memory.Stands reg' (memory.create call.1 call.2).2 := by
  obtain ⟨unnamed, unused, room, keys, built, short⟩ := creates
  have full : ¬ register call.1 reg.hdrs = none := by
    intro none
    have full := register_none none
    rw [← stands.count, stands.size] at full
    exact absurd room (by rw [full]; exact lt_irrefl _)
  obtain ⟨hdrs, placed⟩ := Option.ne_none_iff_exists'.mp full
  obtain ⟨size, perm⟩ := register_some placed
  have absent : call.1 ∉ reg.hdrs.reduceOption := by
    intro member
    have live := (stands.registered _).mp (List.reduceOption_mem_iff.mp member)
    rw [unused] at live
    cases live
  refine ⟨{ reg.setHdr call.1 (memfhOpen call.2.filename call.2.fcd.record.length keys) with
      hdrs := hdrs
      nhdrs := reg.nhdrs + 1 }, ?_, ?_⟩
  · unfold memfhCblOpenOutput
    rw [built]
    dsimp only [Option.map_some, Registry.setHdr]
    rw [stands.cleared, placed]
    rfl
  · refine ⟨size.trans stands.size, ?_, ?_, ?_, ?_, ?_, ?_, ?_⟩
    · change reg.nhdrs + 1 = ((memory.count + 1 : ℕ) : ℤ)
      rw [stands.counted]
      rfl
    · change memory.count + 1 = _
      rw [perm.length_eq, List.length_cons, stands.count]
    · exact perm.nodup_iff.mpr (List.nodup_cons.mpr ⟨absent, stands.nodup⟩)
    · intro address
      unfold Memory.create
      dsimp only
      rw [← List.reduceOption_mem_iff, perm.mem_iff, List.mem_cons, List.reduceOption_mem_iff,
        stands.registered]
      by_cases here : address = call.1
      · rw [here, Function.update_self]
        exact iff_of_true (.inl rfl) rfl
      · rw [Function.update_of_ne here, or_iff_right here]
    · intro name address
      unfold Memory.create
      dsimp only
      by_cases same : name = call.2.filename
      · rw [same, Function.update_self]
        constructor
        · intro new
          obtain rfl := Option.some.inj new
          exact ⟨_, Function.update_self _ _ _, rfl⟩
        · rintro ⟨file, present, titled⟩
          by_cases here : address = call.1
          · rw [here]
          · rw [Function.update_of_ne here] at present
            have named := (stands.named _ address).mpr ⟨file, present, titled⟩
            rw [unnamed] at named
            cases named
      · rw [Function.update_of_ne same, stands.named]
        by_cases here : address = call.1
        · rw [here, unused, Function.update_self]
          refine iff_of_false (fun ⟨_, gone, _⟩ => nomatch gone) ?_
          rintro ⟨file, present, titled⟩
          obtain rfl := Option.some.inj present
          exact same titled.symm
        · rw [Function.update_of_ne here]
    · intro address gone
      unfold Memory.create at gone
      dsimp only at gone
      have apart : address ≠ call.1 := by
        rintro rfl
        rw [Function.update_self] at gone
        cases gone
      rw [Function.update_of_ne apart] at gone
      exact (Function.update_of_ne apart _ _).trans (stands.absent address gone)
    · intro address file present
      unfold Memory.create at present
      dsimp only at present
      by_cases here : address = call.1
      · rw [here, Function.update_self] at present
        obtain rfl := Option.some.inj present
        refine ⟨_, by rw [here]; exact Function.update_self _ _ _, ?_⟩
        rw [built]
        exact memfhOpen_keeps _ _ short
      · rw [Function.update_of_ne here] at present
        obtain ⟨hdr, held, keeps⟩ := stands.held address file present
        exact ⟨hdr, (Function.update_of_ne here _ _).trans held, keeps⟩

/-- A header that is registered is found. -/
theorem unregister_isSome {address : ℕ} : ∀ {slots : List (Option ℕ)}, some address ∈ slots →
    (unregister address slots).isSome
  | slot :: rest, member => by
      unfold unregister
      split
      · rfl
      · rename_i other
        rw [Option.isSome_map]
        exact unregister_isSome ((List.mem_cons.mp member).resolve_left (Ne.symm other))

/-- CLOSE frees a file, or leaves it. -/
theorem Memory.Stands.close (stands : Memory.Stands reg memory) (free : Bool) (fcd : Fcd) :
    ∃ reg', memfhCblClose free reg fcd = some ((memory.close free fcd).1, reg') ∧
      Memory.Stands reg' (memory.close free fcd).2 := by
  unfold memfhCblClose Memory.close
  split
  · exact ⟨reg, rfl, stands⟩
  split
  · exact ⟨reg, rfl, stands⟩
  cases present : memory.files fcd.fileId with
  | none =>
      have gone : unregister fcd.fileId reg.hdrs = none := by
        by_contra there
        obtain ⟨hdrs, freed⟩ := Option.ne_none_iff_exists'.mp there
        have member := (unregister_some freed).2.mem_iff.mpr List.mem_cons_self
        have live := (stands.registered _).mp (List.reduceOption_mem_iff.mp member)
        rw [present] at live
        cases live
      rw [gone]
      exact ⟨reg, rfl, stands⟩
  | some file =>
      have member := (stands.registered fcd.fileId).mpr (by rw [present]; rfl)
      obtain ⟨hdrs, freed⟩ := Option.isSome_iff_exists.mp (unregister_isSome member)
      obtain ⟨size, perm⟩ := unregister_some freed
      have nodup := perm.nodup_iff.mp stands.nodup
      rw [freed]
      refine ⟨_, rfl, size.trans stands.size, ?_, ?_, (List.nodup_cons.mp nodup).2, ?_, ?_, ?_, ?_⟩
      · change reg.nhdrs - 1 = ((memory.count - 1 : ℕ) : ℤ)
        have count := stands.count
        rw [perm.length_eq, List.length_cons] at count
        rw [stands.counted]
        omega
      · change memory.count - 1 = hdrs.reduceOption.length
        rw [stands.count, perm.length_eq, List.length_cons, Nat.add_sub_cancel]
      · intro address
        dsimp only
        rw [← List.reduceOption_mem_iff]
        by_cases here : address = fcd.fileId
        · rw [here, Function.update_self]
          exact iff_of_false (List.nodup_cons.mp nodup).1 Bool.false_ne_true
        · rw [Function.update_of_ne here, ← stands.registered, ← List.reduceOption_mem_iff,
            perm.mem_iff, List.mem_cons, or_iff_right here]
      · intro name address
        dsimp only
        by_cases same : name = file.name
        · rw [same, Function.update_self]
          refine iff_of_false nofun ?_
          rintro ⟨other, there, titled⟩
          have here := (stands.named file.name fcd.fileId).mpr ⟨file, present, rfl⟩
          have apart : address ≠ fcd.fileId := by
            rintro rfl
            rw [Function.update_self] at there
            cases there
          rw [Function.update_of_ne apart] at there
          have named := (stands.named file.name address).mpr ⟨other, there, titled⟩
          exact apart (Option.some.inj (named.symm.trans here))
        · rw [Function.update_of_ne same, stands.named]
          by_cases here : address = fcd.fileId
          · rw [here, Function.update_self, present]
            refine iff_of_false ?_ fun ⟨_, gone, _⟩ => nomatch gone
            rintro ⟨other, there, titled⟩
            obtain rfl := Option.some.inj there
            exact same titled.symm
          · rw [Function.update_of_ne here]
      · intro address gone
        dsimp only at gone
        by_cases here : address = fcd.fileId
        · rw [here]
          exact Function.update_self _ _ _
        · rw [Function.update_of_ne here] at gone
          exact (Function.update_of_ne here _ _).trans (stands.absent address gone)
      · intro address other there
        dsimp only at there
        have apart : address ≠ fcd.fileId := by
          rintro rfl
          rw [Function.update_self] at there
          cases there
        rw [Function.update_of_ne apart] at there
        obtain ⟨hdr, held, keeps⟩ := stands.held address other there
        exact ⟨hdr, (Function.update_of_ne apart _ _).trans held, keeps⟩

end Registry

/-! ## Reading and writing -/

section RecordsOf

variable {hdr : Hdr} {file : MemFile} {record : List Byte}

/-- A call that leaves a header with other records. -/
theorem Hdr.Keeps.called (keeps : hdr.Keeps file) {hdr' : Hdr} (op : FileOp)
    (whole : op.record.length = file.reclen) (applied : op.apply hdr = some hdr')
    (name : hdr'.filename = hdr.filename) {records : Records Key (List Byte)}
    (stored : records = ofList (mountKey file.primary) hdr'.data) :
    hdr'.Keeps { file with records } := by
  obtain ⟨change, keys, reclen⟩ :=
    FileOp.change keeps.ok (whole.trans keeps.reclen.symm) applied
  have comps : hdr'.comps 0 = hdr.comps 0 := by
    unfold Hdr.comps
    rw [keys]
  exact
    { name := name.trans keeps.name
      reclen := reclen.trans keeps.reclen
      primary := comps.trans keeps.primary
      ok := change.ok keeps.ok (whole.trans keeps.reclen.symm) keys reclen
      keyed := keeps.keyed.apply applied
      records := stored }

/-- WRITE of a record with a new key. -/
theorem Hdr.Keeps.write (keeps : hdr.Keeps file) (whole : record.length = file.reclen)
    (fresh : file.records (mountKey file.primary record) = none) :
    ∃ hdr', memfhWrite hdr record = some hdr' ∧ hdr'.Keeps { file with
      records := Function.update file.records (mountKey file.primary record) (some record) } := by
  rw [keeps.records] at fresh ⊢
  obtain ⟨idx, labels, primary⟩ := keeps.ok.primary
  have new : ∀ other ∈ hdr.data, mountKey (hdr.comps 0) other ≠ mountKey (hdr.comps 0) record := by
    rw [keeps.primary]
    exact ofList_eq_none_iff.mp fresh
  obtain ⟨hdr', _, _, wrote, _, _, _, data⟩ := memfhWrite_sound primary (keeps.ok.short 0)
    (whole.trans keeps.reclen.symm) new
  refine ⟨hdr', wrote, ?_⟩
  refine keeps.called (.write record) whole wrote (memfhWrite_adds wrote).1 ?_
  rw [data]
  exact (ofList_append record fresh).symm

theorem memfhRead_filename {hdr' : Hdr} {update found : Bool} {area : List Byte}
    (read : memfhRead hdr record update = some (found, hdr', area)) :
    hdr'.filename = hdr.filename := by
  obtain ⟨_, _, _, _, _, rfl | ⟨_, _, _, _, rfl⟩⟩ := memfhRead_cases read <;> rfl

/-- READ finds the record with the key of the record area. -/
theorem Hdr.Keeps.read (keeps : hdr.Keeps file) (whole : record.length = file.reclen) :
    ∃ hdr', hdr'.Keeps file ∧ memfhRead hdr record false =
      match file.records (mountKey file.primary record) with
      | some stored => some (true, hdr', stored)
      | none => some (false, hdr', record) := by
  have whole' := whole.trans keeps.reclen.symm
  obtain ⟨idx, labels, primary⟩ := keeps.ok.primary
  have kept : ∀ {found : Bool} {hdr' : Hdr} {area : List Byte},
      memfhRead hdr record false = some (found, hdr', area) → hdr'.Keeps file := by
    intro found hdr' area read
    have applied : (FileOp.read record).apply hdr = some hdr' := by
      change (memfhRead hdr record false).map _ = _
      rw [read]
      rfl
    have data : hdr'.data = hdr.data := by
      obtain ⟨_, _, _, _, _, rfl | ⟨update, _⟩⟩ := memfhRead_cases read
      · rfl
      · cases update
    exact keeps.called (.read record) whole applied (memfhRead_filename read)
      (by rw [data]; exact keeps.records)
  rcases memfhRead_spec primary whole' with ⟨hdr', stored, read, member, same⟩ |
    ⟨hdr', read, absent⟩
  · have distinct := keeps.ok.distinct
    rw [keeps.primary] at same distinct
    have held : file.records (mountKey file.primary record) = some stored := by
      rw [keeps.records]
      exact (ofList_eq_some_iff distinct).mpr ⟨member, same⟩
    refine ⟨hdr', kept read, ?_⟩
    rw [held, read, List.take_of_length_le (keeps.ok.whole stored member).le]
  · have none : file.records (mountKey file.primary record) = none := by
      rw [keeps.records, ofList_eq_none_iff, ← keeps.primary]
      exact absent
    refine ⟨hdr', kept read, ?_⟩
    rw [none, read]

/-- REWRITE of a record that begins like the one in its place. -/
theorem Hdr.Keeps.rewrite (keeps : hdr.Keeps file) (whole : record.length = file.reclen)
    (alike : ∀ stored ∈ file.records (mountKey file.primary record),
      keyLength file.primary ≤ file.reclen ∧
        stored.take (keyLength file.primary) = record.take (keyLength file.primary)) :
    ∃ found hdr', memfhRead hdr record true = some (found, hdr', record) ∧
      match file.records (mountKey file.primary record) with
      | some _ => found = true ∧ hdr'.Keeps { file with
          records := Function.update file.records (mountKey file.primary record) (some record) }
      | none => found = false ∧ hdr'.Keeps file := by
  have whole' := whole.trans keeps.reclen.symm
  have distinct := keeps.ok.distinct
  have applied : ∀ {found : Bool} {hdr' : Hdr},
      memfhRead hdr record true = some (found, hdr', record) →
      (FileOp.rewrite record).apply hdr = some hdr' := by
    intro found hdr' read
    change (memfhRead hdr record true).map _ = _
    rw [read]
    rfl
  cases held : file.records (mountKey file.primary record) with
  | none =>
      have absent : ∀ stored ∈ hdr.data,
          mountKey (hdr.comps 0) stored ≠ mountKey (hdr.comps 0) record := by
        rw [keeps.primary, ← ofList_eq_none_iff, ← keeps.records]
        exact held
      obtain ⟨idx, path, _, read⟩ := memfhRead_update_missing keeps.ok absent
      exact ⟨false, _, read, rfl, keeps.called (.rewrite record) whole (applied read)
        (memfhRead_filename read) keeps.records⟩
  | some stored =>
      have found := held
      rw [keeps.records] at found
      obtain ⟨member, same⟩ := mem_of_ofList found
      obtain ⟨pointer, present⟩ := List.mem_iff_getElem?.mp member
      rw [← keeps.primary] at same
      obtain ⟨idx, path, _, exchanged, _⟩ :=
        memfhRead_update_found keeps.ok keeps.keyed whole' present same
      have front : FrontAlike hdr stored record := by
        unfold FrontAlike
        rw [keeps.primary, keeps.reclen]
        exact alike stored held
      have read := exchanged front
      refine ⟨true, _, read, rfl,
        keeps.called (.rewrite record) whole (applied read) (memfhRead_filename read) ?_⟩
      rw [keeps.primary] at same distinct
      dsimp only
      rw [set_eq_replace distinct present same,
        ofList_replace distinct (by rw [← keeps.records, held]; exact nofun),
        keeps.records]

end RecordsOf

/-! ## Calls and runs -/

section Calls

variable {reg : Registry} {memory : Memory} {fcd : Fcd}

theorem Memory.Stands.write (stands : Memory.Stands reg memory)
    (uses : memory.Uses fcd fun file => file.records (mountKey file.primary fcd.record) = none) :
    ∃ reg', memfhCblWrite reg fcd =
        some ((memory.use stNotOpenedWrite fcd fun _ => .write fcd.record).1, reg') ∧
      Memory.Stands reg' (memory.use stNotOpenedWrite fcd fun _ => .write fcd.record).2 := by
  unfold memfhCblWrite Memory.use
  by_cases closed : fcd.openMode = 128
  · rw [if_pos closed, if_pos closed]
    exact ⟨reg, rfl, stands⟩
  · obtain ⟨file, present, whole, fresh⟩ := uses closed
    obtain ⟨hdr, held, keeps⟩ := stands.held fcd.fileId file present
    obtain ⟨hdr', wrote, keeps'⟩ := keeps.write whole fresh
    have performed : perform (mountKey file.primary) (.write fcd.record) file.records =
        (.done, Function.update file.records (mountKey file.primary fcd.record)
          (some fcd.record)) := by
      unfold perform
      dsimp only
      rw [fresh]
    rw [if_neg closed, if_neg closed, if_pos ((stands.registered _).mpr (by rw [present]; rfl)),
      held, present]
    dsimp only
    rw [performed, wrote]
    exact ⟨_, rfl, stands.setHdr present keeps' rfl⟩

theorem Memory.Stands.read (stands : Memory.Stands reg memory)
    (uses : memory.Uses fcd fun _ => True) :
    let read := memory.use stNotOpenedRead fcd fun file => .read (mountKey file.primary fcd.record)
    ∃ reg', memfhCblRead reg fcd = some (read.1, reg') ∧ Memory.Stands reg' read.2 := by
  unfold memfhCblRead Memory.use
  by_cases closed : fcd.openMode = 128
  · rw [if_pos closed, if_pos closed]
    exact ⟨reg, rfl, stands⟩
  · obtain ⟨file, present, whole, _⟩ := uses closed
    obtain ⟨hdr, held, keeps⟩ := stands.held fcd.fileId file present
    obtain ⟨hdr', keeps', read⟩ := keeps.read whole
    have stands' := stands.setHdr present keeps' rfl
    unfold onHdr perform
    rw [if_neg closed, if_neg closed, held, present]
    dsimp only
    rw [read]
    cases stored : file.records (mountKey file.primary fcd.record) with
    | none => exact ⟨_, rfl, stands'⟩
    | some record =>
        refine ⟨_, ?_, stands'⟩
        have tail : fcd.record.drop file.reclen = [] := List.drop_of_length_le whole.le
        dsimp only [Fcd.answered]
        rw [tail, List.append_nil]
        rfl

theorem Memory.Stands.rewrite (stands : Memory.Stands reg memory)
    (uses : memory.Uses fcd fun file =>
      ∀ stored ∈ file.records (mountKey file.primary fcd.record),
        keyLength file.primary ≤ file.reclen ∧
          stored.take (keyLength file.primary) = fcd.record.take (keyLength file.primary)) :
    let rewritten := memory.use stNotOpenedWrite fcd fun _ => .rewrite fcd.record
    ∃ reg', memfhCblRewrite reg fcd = some (rewritten.1, reg') ∧
        Memory.Stands reg' rewritten.2 := by
  by_cases closed : fcd.openMode = 128
  · unfold memfhCblRewrite Memory.use
    rw [if_pos closed, if_pos closed]
    exact ⟨reg, rfl, stands⟩
  · obtain ⟨file, present, whole, alike⟩ := uses closed
    obtain ⟨hdr, held, keeps⟩ := stands.held fcd.fileId file present
    obtain ⟨found, hdr', read, outcome⟩ := keeps.rewrite whole alike
    rw [memfhCblRewrite_eq closed held, read]
    unfold Memory.use perform
    rw [if_neg closed, present]
    dsimp only
    cases stored : file.records (mountKey file.primary fcd.record) with
    | none =>
        rw [stored] at outcome
        obtain ⟨rfl, keeps'⟩ := outcome
        exact ⟨_, rfl, stands.setHdr present keeps' rfl⟩
    | some record =>
        rw [stored] at outcome
        obtain ⟨rfl, keeps'⟩ := outcome
        exact ⟨_, rfl, stands.setHdr present keeps' rfl⟩

/-- A call does what it does on the files. -/
theorem callMemory_serves {call : ℕ × Call} (admitted : Memory.Admits call memory)
    (stands : Memory.Stands reg memory) :
    ∃ reg', callMemory call reg = .ok ((Memory.serve call memory).1, reg') ∧
      Memory.Stands reg' (Memory.serve call memory).2 := by
  obtain ⟨address, free, op, filename, fcd⟩ := call
  suffices ∃ reg', memfhCbl address ⟨free, op, filename, fcd⟩ reg =
      some ((Memory.serve (address, ⟨free, op, filename, fcd⟩) memory).1, reg') ∧
      Memory.Stands reg' (Memory.serve (address, ⟨free, op, filename, fcd⟩) memory).2 by
    obtain ⟨reg', called, stands'⟩ := this
    refine ⟨reg', ?_, stands'⟩
    unfold callMemory
    rw [called]
  unfold Memory.Admits at admitted
  unfold memfhCbl Memory.serve
  have found := stands.find filename
  dsimp only at admitted ⊢
  split at admitted
  · unfold memfhCblOpenInput
    rw [found]
    cases memory.named filename with
    | none => exact ⟨reg, rfl, stands⟩
    | some address => exact ⟨reg, rfl, stands⟩
  · exact stands.close free fcd
  · unfold memfhCblOpenIo
    rw [found]
    cases named : memory.named filename with
    | some address => exact ⟨reg, rfl, stands⟩
    | none => exact stands.create (admitted named)
  · exact stands.create admitted
  · exact stands.write admitted
  · exact stands.rewrite admitted
  · exact stands.read admitted
  · exact admitted.elim

end Calls

/-- **In-memory files.** A run of opens, reads, writes, rewrites and closes of any number of
in-memory files, in any order, answers what a store of records for each name would. -/
theorem memory_refines (reg : Registry) (memory : Memory) (stands : Memory.Stands reg memory)
    (calls : List (ℕ × Call)) (admitted : Admitted Memory.serve Memory.Admits calls memory) :
    ∃ reg', run callMemory calls reg = .ok ((runSpec Memory.serve calls memory).1, reg') ∧
      Memory.Stands reg' (runSpec Memory.serve calls memory).2 := by
  have stepwise : ∀ (call : ℕ × Call) (reg : Registry) (memory : Memory),
      Memory.Admits call memory → Memory.Stands reg memory →
      ∃ reg', callMemory call reg = .ok ((Memory.serve call memory).1, reg') ∧
        Memory.Stands reg' (Memory.serve call memory).2 :=
    fun _ _ _ admitted stands => callMemory_serves admitted stands
  obtain ⟨reg', ran, ended⟩ := @run_refines _ _ _ _ _ _ callMemory Memory.serve Memory.Admits
    Memory.Stands (fun _ fcd => fcd) stepwise calls reg memory admitted stands
  rw [zipWith_runSpec] at ran
  exact ⟨reg', ran, ended⟩

/-- A call with the fcd of the file at an address. -/
def memoryCall (op : Opcode) (free : Bool) (address : ℕ) (record : List Byte) : ℕ × Call :=
  (3, ⟨free, op, "", { closedFcd record with openMode := 2, fileId := address }⟩)

/-- Two files with one key each. A record of the second is rewritten, the first is closed and opened
again, and the second is freed and made again. -/
def memoryCalls : List (ℕ × Call) :=
  [(1, openCall .output "f"), (2, openCall .output "g"), memoryCall .write false 1 [1, 7],
    memoryCall .write false 2 [1, 9], memoryCall .rewrite false 2 [1, 8],
    memoryCall .close false 1 [], (3, openCall .input "f"), memoryCall .readRandom false 1 [1, 0],
    memoryCall .close true 2 [], (3, openCall .io "g")]

set_option maxRecDepth 20000 in
theorem memoryCalls_admitted :
    Admitted Memory.serve Memory.Admits memoryCalls Memory.empty := by
  have keys : ∃ keys, kdbKeys (closedFcd [0, 0]).kdb = some keys ∧
      ∀ comps ∈ keys, keyLength comps ≤ 256 := ⟨[[(0, 1)]], by decide +kernel, by decide⟩
  have alike : ∀ stored ∈ (some [1, 9] : Option (List Byte)),
      keyLength [(0, 1)] ≤ 2 ∧ stored.take 1 = ([1, 8] : List Byte).take 1 := by decide
  refine ⟨⟨rfl, rfl, by decide, keys⟩, ⟨by decide +kernel, rfl, by decide, keys⟩,
    fun _ => ⟨_, rfl, rfl, rfl⟩, fun _ => ⟨_, rfl, rfl, rfl⟩, fun _ => ⟨_, rfl, rfl, alike⟩,
    trivial, trivial, fun _ => ⟨_, rfl, rfl, trivial⟩, trivial,
    fun _ => ⟨by decide +kernel, rfl, by decide, keys⟩, trivial⟩

/-- The two files answer as two stores. -/
theorem memory_refines_two :
    ∃ reg', run callMemory memoryCalls Registry.initial =
        .ok ((runSpec Memory.serve memoryCalls Memory.empty).1, reg') ∧
      Memory.Stands reg' (runSpec Memory.serve memoryCalls Memory.empty).2 :=
  memory_refines Registry.initial Memory.empty Memory.initial_stands memoryCalls
    memoryCalls_admitted

end Pqfh.Memfh
