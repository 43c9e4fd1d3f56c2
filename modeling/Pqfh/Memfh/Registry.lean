import Mathlib.Data.List.Perm.Basic
import Mathlib.Data.List.ReduceOption
import Pqfh.Memfh.Cbl

/-! # The registry of in-memory files

An open for output makes a new header and puts it in the first free slot, whether or not the file
name is registered, and says nothing when there is no free slot.

`Pqfh.Memfh.registry_kept` says what the registry is in runs that open for output only names that
are not registered, and only while there is a free slot: one header for each name, that of the
latest open for output not freed, with the records written since.
-/

namespace Pqfh.Memfh

open Interleave

/-! ## Slots -/

theorem register_some {address : ℕ} :
    ∀ {slots slots' : List (Option ℕ)}, register address slots = some slots' →
      slots'.length = slots.length ∧ slots'.reduceOption.Perm (address :: slots.reduceOption) := by
  intro slots
  induction slots with
  | nil => exact nofun
  | cons slot rest ih =>
      intro slots' placed
      cases slot with
      | none =>
          cases placed
          exact ⟨rfl, .refl _⟩
      | some other =>
          obtain ⟨rest', later, rfl⟩ := Option.map_eq_some_iff.mp placed
          obtain ⟨size, perm⟩ := ih later
          refine ⟨congrArg (· + 1) size, ?_⟩
          rw [List.reduceOption_cons_of_some, List.reduceOption_cons_of_some]
          exact (perm.cons other).trans (.swap _ _ _)

theorem register_none {address : ℕ} :
    ∀ {slots : List (Option ℕ)}, register address slots = none →
      slots.reduceOption.length = slots.length := by
  intro slots
  induction slots with
  | nil => exact fun _ => rfl
  | cons slot rest ih =>
      intro full
      cases slot with
      | none => cases full
      | some other =>
          rw [List.reduceOption_cons_of_some, List.length_cons, List.length_cons,
            ih (Option.map_eq_none_iff.mp full)]

theorem unregister_some {address : ℕ} :
    ∀ {slots slots' : List (Option ℕ)}, unregister address slots = some slots' →
      slots'.length = slots.length ∧ slots.reduceOption.Perm (address :: slots'.reduceOption) := by
  intro slots
  induction slots with
  | nil => exact nofun
  | cons slot rest ih =>
      intro slots' freed
      rw [unregister] at freed
      split at freed
      · rename_i here
        cases freed
        rw [here]
        exact ⟨rfl, .refl _⟩
      · obtain ⟨rest', later, rfl⟩ := Option.map_eq_some_iff.mp freed
        obtain ⟨size, perm⟩ := ih later
        refine ⟨congrArg (· + 1) size, ?_⟩
        cases slot with
        | none => exact perm
        | some other =>
            rw [List.reduceOption_cons_of_some, List.reduceOption_cons_of_some]
            exact (perm.cons other).trans (.swap _ _ _)

/-- The search finds a header of the name, or there is none. -/
theorem findName_spec (heap : ℕ → Option Hdr) (filename : String) :
    ∀ (slots : List (Option ℕ)), (∀ address, some address ∈ slots → (heap address).isSome) →
      (findName heap filename slots = some none ∧ ∀ address hdr, some address ∈ slots →
        heap address = some hdr → hdr.filename ≠ filename) ∨
      (∃ address hdr, findName heap filename slots = some (some address) ∧ some address ∈ slots ∧
        heap address = some hdr ∧ hdr.filename = filename) := by
  intro slots
  induction slots with
  | nil => exact fun _ => .inl ⟨rfl, nofun⟩
  | cons slot rest ih =>
      intro live
      have later := ih fun address member => live address (List.mem_cons_of_mem _ member)
      cases slot with
      | none =>
          rcases later with ⟨missing, others⟩ | ⟨address, hdr, found, member, there, named⟩
          · refine .inl ⟨missing, fun address hdr member => others address hdr ?_⟩
            exact (List.mem_cons.mp member).resolve_left nofun
          · exact .inr ⟨address, hdr, found, List.mem_cons_of_mem _ member, there, named⟩
      | some first =>
          obtain ⟨hdr, there⟩ := Option.isSome_iff_exists.mp (live first List.mem_cons_self)
          by_cases named : hdr.filename = filename
          · refine .inr ⟨first, hdr, ?_, List.mem_cons_self, there, named⟩
            simp only [findName, there, if_pos named]
          · have passed : findName heap filename (some first :: rest) =
                findName heap filename rest := by
              simp only [findName, there, if_neg named]
            rw [passed]
            rcases later with ⟨missing, others⟩ | ⟨address, hdr', found, member, there', named'⟩
            · refine .inl ⟨missing, fun address hdr' member there' => ?_⟩
              rcases List.mem_cons.mp member with same | member
              · cases same
                cases there.symm.trans there'
                exact named
              · exact others address hdr' member there'
            · exact .inr ⟨address, hdr', found, List.mem_cons_of_mem _ member, there', named'⟩

/-! ## What a run has opened, written and freed -/

/-- OPEN, WRITE and CLOSE. -/
def Call.Registers (call : Call) : Prop :=
  call.op ∈ [Opcode.openFile .output, .openFile .io, .openFile .input, .write, .close]

/-- The call made a header. An open for I-O does so when it goes on to open for output. -/
def Call.creates (call : Call) (answer : Fcd) : Bool :=
  call.op = .openFile .output ∨ call.op = .openFile .io ∧ answer.openMode = 2

/-- The call freed the header of its fcd. -/
def Call.frees (call : Call) (answer : Fcd) : Bool :=
  call.op = .close ∧ call.free = true ∧ answer.status = stOk

/-- The call wrote the record of its fcd. -/
def Call.writes (call : Call) (answer : Fcd) : Bool :=
  call.op = .write ∧ answer.status = stOk

/-- The names opened for output and the addresses given for them, not freed, the latest first. -/
def created : List (Call × Fcd) → List (String × ℕ)
  | [] => []
  | (call, answer) :: earlier =>
      if call.creates answer then (call.filename, answer.fileId) :: created earlier
      else if call.frees answer then
        (created earlier).filter fun entry => entry.2 ≠ call.fcd.fileId
      else created earlier

/-- The records written to an address since a header was made there. -/
def written (address : ℕ) : List (Call × Fcd) → List (List Byte)
  | [] => []
  | (call, answer) :: earlier =>
      if call.creates answer ∧ answer.fileId = address then []
      else if call.writes answer ∧ call.fcd.fileId = address then
        written address earlier ++ [call.fcd.record]
      else written address earlier

/-- The file names of the registered headers. -/
def Registry.names (reg : Registry) : List (Option String) :=
  reg.hdrs.reduceOption.map fun address => (reg.heap address).map Hdr.filename

/-- What the registry is to be after a run: as many headers are registered as `nhdrs` says, one for
each name; an open for input or I-O that returned 00 designates the header of the latest open for
output of its name, with the records written since; and after an open that returned 00 a WRITE
returns 00. -/
structure RegistryOk (trace : List (Call × Fcd)) (reg : Registry) : Prop where
  counted : reg.nhdrs = reg.hdrs.reduceOption.length
  oneEach : reg.names.Nodup
  latest : ∀ call answer earlier, trace = (call, answer) :: earlier →
    call.op = .openFile .input ∨ call.op = .openFile .io → answer.status = stOk →
    (created trace).find? (fun entry => entry.1 = call.filename) =
        some (call.filename, answer.fileId) ∧
      ∃ hdr, reg.heap answer.fileId = some hdr ∧ hdr.filename = call.filename ∧
        hdr.data = (written answer.fileId trace).map fun record => record.take hdr.reclen
  usable : ∀ call answer earlier kind, trace = (call, answer) :: earlier →
    call.op = .openFile kind → answer.status = stOk →
    ∃ hdr, reg.heap answer.fileId = some hdr ∧ ∀ record hdr', memfhWrite hdr record = some hdr' →
      memfhCblWrite reg { answer with record := record } =
        some ({ answer with record := record, status := stOk }, reg.setHdr answer.fileId hdr')

/-- No registered header has a name. -/
def Registry.Unnamed (reg : Registry) (filename : String) : Prop :=
  ∀ address hdr, some address ∈ reg.hdrs → reg.heap address = some hdr → hdr.filename ≠ filename

/-- A header is made only for a name that is not registered, and only while a slot is free. -/
structure Proper (_ : List (Call × Fcd)) (reg : Registry) (call : Call) : Prop where
  output : call.op = .openFile .output → reg.Unnamed call.filename ∧ reg.nhdrs < maxHdrs
  io : call.op = .openFile .io → reg.Unnamed call.filename → reg.nhdrs < maxHdrs

/-! ## What a call can do -/

/-- What a call can do to the registry: leave it, having found a registered header when it opened a
file; register a new header; write to a registered one; or free one. -/
inductive Outcome (reg : Registry) (call : Call) (answer : Fcd) : Registry → Prop where
  | left : call.creates answer = false → call.frees answer = false → call.writes answer = false →
      (∀ kind, call.op = .openFile kind → answer.status = stOk → answer.openMode ≠ 128 ∧
        some answer.fileId ∈ reg.hdrs ∧
        ∃ hdr, reg.heap answer.fileId = some hdr ∧ hdr.filename = call.filename) →
      Outcome reg call answer reg
  | opened {keys : List (List (ℕ × ℕ))} {hdrs : List (Option ℕ)} : call.creates answer = true →
      call.writes answer = false → reg.heap answer.fileId = none → reg.Unnamed call.filename →
      register answer.fileId reg.hdrs = some hdrs → answer.openMode = 2 →
      Outcome reg call answer { reg with
        hdrs := hdrs
        nhdrs := reg.nhdrs + 1
        heap := Function.update reg.heap answer.fileId
          (some (memfhOpen call.filename call.fcd.record.length keys)) }
  | wrote {hdr hdr' : Hdr} : call.creates answer = false → call.frees answer = false →
      call.writes answer = true → reg.heap call.fcd.fileId = some hdr →
      memfhWrite hdr call.fcd.record = some hdr' →
      Outcome reg call answer (reg.setHdr call.fcd.fileId hdr')
  | freed {hdrs : List (Option ℕ)} : call.creates answer = false → call.frees answer = true →
      call.writes answer = false → unregister call.fcd.fileId reg.hdrs = some hdrs →
      Outcome reg call answer { reg with
        hdrs := hdrs
        nhdrs := reg.nhdrs - 1
        heap := Function.update reg.heap call.fcd.fileId none }

/-- What holds of the registry in a run: every header in memory is registered once, under a name of
its own, with the records written since it was made. -/
structure Tracked (trace : List (Call × Fcd)) (reg : Registry) : Prop where
  size : reg.hdrs.length = maxHdrs
  counted : reg.nhdrs = reg.hdrs.reduceOption.length
  nodup : reg.hdrs.reduceOption.Nodup
  registered : ∀ address, some address ∈ reg.hdrs ↔ (reg.heap address).isSome
  names : ∀ first second hdr hdr', reg.heap first = some hdr → reg.heap second = some hdr' →
    hdr.filename = hdr'.filename → first = second
  live : ∀ filename address, (filename, address) ∈ created trace ↔
    ∃ hdr, reg.heap address = some hdr ∧ hdr.filename = filename
  data : ∀ address hdr, reg.heap address = some hdr →
    hdr.data = (written address trace).map fun record => record.take hdr.reclen

theorem Tracked.initial : Tracked [] Registry.initial := by
  have none : ∀ address, some address ∉ List.replicate maxHdrs (none : Option ℕ) := by
    intro address member
    cases List.eq_of_mem_replicate member
  refine ⟨List.length_replicate, ?_, ?_, ?_, nofun, ?_, nofun⟩
  · simp [Registry.initial]
  · simp [Registry.initial]
  · exact fun address => ⟨fun member => (none address member).elim, nofun⟩
  · exact fun filename address => ⟨nofun, fun ⟨_, there, _⟩ => nomatch there⟩

/-- The slots are as they were after the loop that clears them when `nhdrs` is 0. -/
theorem Tracked.cleared {trace : List (Call × Fcd)} {reg : Registry} (tracked : Tracked trace reg) :
    (if reg.nhdrs = 0 then List.replicate maxHdrs none else reg.hdrs) = reg.hdrs := by
  split
  · rename_i zero
    rw [tracked.counted] at zero
    have empty := List.length_eq_zero_iff.mp (Int.ofNat_eq_zero.mp zero)
    obtain ⟨count, same⟩ := (List.reduceOption_eq_nil_iff _).mp empty
    have size := tracked.size
    rw [same, List.length_replicate] at size
    rw [same, size]
  · rfl

/-- A header found by its name. -/
theorem Tracked.find {trace : List (Call × Fcd)} {reg : Registry} (tracked : Tracked trace reg)
    (filename : String) :
    (findName reg.heap filename reg.hdrs = some none ∧ reg.Unnamed filename) ∨
      (∃ address hdr, findName reg.heap filename reg.hdrs = some (some address) ∧
        some address ∈ reg.hdrs ∧ reg.heap address = some hdr ∧ hdr.filename = filename) :=
  findName_spec reg.heap filename reg.hdrs fun address => (tracked.registered address).mp

/-- An open for output that finds a free slot. -/
theorem Tracked.openOutput {trace : List (Call × Fcd)} {reg reg' : Registry}
    (tracked : Tracked trace reg) {call : Call} {answer : Fcd} {address : ℕ}
    (unused : reg.heap address = none) (unnamed : reg.Unnamed call.filename)
    (room : reg.nhdrs < maxHdrs)
    (opened : memfhCblOpenOutput address call.filename reg call.fcd = some (answer, reg'))
    (output : call.op = .openFile .output ∨ call.op = .openFile .io) :
    Outcome reg call answer reg' := by
  obtain ⟨keys, _, outcome⟩ := Option.map_eq_some_iff.mp opened
  dsimp only [Registry.setHdr] at outcome
  rw [tracked.cleared] at outcome
  cases placed : register address reg.hdrs with
  | none =>
      have full := register_none placed
      rw [tracked.size] at full
      rw [tracked.counted, full] at room
      exact absurd room (lt_irrefl _)
  | some hdrs =>
      rw [placed] at outcome
      cases outcome
      refine .opened ?_ ?_ unused unnamed placed rfl <;>
        rcases output with op | op <;> simp [Call.creates, Call.writes, op]

/-- What a call does to a tracked registry. -/
theorem Tracked.outcome {trace : List (Call × Fcd)} {reg reg' : Registry}
    (tracked : Tracked trace reg) {call : Call} {answer : Fcd} (registers : call.Registers)
    (proper : Proper trace reg call) (stepped : memfhCblStep reg call answer reg') :
    Outcome reg call answer reg' := by
  obtain ⟨address, unused, called⟩ := stepped
  simp only [Call.Registers, List.mem_cons, List.not_mem_nil, or_false] at registers
  rcases registers with op | op | op | op | op
  · simp only [memfhCbl, op] at called
    exact tracked.openOutput unused (proper.output op).1 (proper.output op).2 called (.inl op)
  · simp only [memfhCbl, op, memfhCblOpenIo] at called
    rcases tracked.find call.filename with
      ⟨missing, unnamed⟩ | ⟨found, hdr, search, member, there, named⟩
    · rw [missing] at called
      exact tracked.openOutput unused unnamed (proper.io op unnamed) called (.inr op)
    · rw [search] at called
      cases called
      refine .left ?_ ?_ ?_ fun _ _ _ => ⟨by simp, member, hdr, there, named⟩ <;>
        simp [Call.creates, Call.frees, Call.writes, op]
  · simp only [memfhCbl, op, memfhCblOpenInput] at called
    rcases tracked.find call.filename with ⟨missing, _⟩ | ⟨found, hdr, search, member, there, named⟩
    · rw [missing] at called
      cases called
      refine .left ?_ ?_ ?_ fun _ _ status =>
        absurd status (by decide : stFileNotFound ≠ stOk) <;>
        simp [Call.creates, Call.frees, Call.writes, op]
    · rw [search] at called
      cases called
      refine .left ?_ ?_ ?_ fun _ _ _ => ⟨by simp, member, hdr, there, named⟩ <;>
        simp [Call.creates, Call.frees, Call.writes, op]
  · have other : ∀ kind, call.op ≠ .openFile kind := by
      intro kind same
      cases op.symm.trans same
    have refused : stNotOpenedWrite ≠ stOk := by decide
    simp only [memfhCbl, op, memfhCblWrite] at called
    split at called
    · cases called
      refine .left ?_ ?_ ?_ fun kind same => (other kind same).elim <;>
        simp [Call.creates, Call.frees, Call.writes, op, refused]
    · split at called
      · split at called
        · cases called
        · rename_i hdr there
          obtain ⟨hdr', wrote, outcome⟩ := Option.map_eq_some_iff.mp called
          cases outcome
          refine .wrote ?_ ?_ ?_ there wrote <;> simp [Call.creates, Call.frees, Call.writes, op]
      · cases called
        refine .left ?_ ?_ ?_ fun kind same => (other kind same).elim <;>
          simp [Call.creates, Call.frees, Call.writes, op, refused]
  · have other : ∀ kind, call.op ≠ .openFile kind := by
      intro kind same
      cases op.symm.trans same
    have refused : stAlreadyClosed ≠ stOk := by decide
    simp only [memfhCbl, op, memfhCblClose] at called
    split at called
    · cases called
      refine .left ?_ ?_ ?_ fun kind same => (other kind same).elim <;>
        simp [Call.creates, Call.frees, Call.writes, op, refused]
    · split at called
      · rename_i keeps
        cases called
        refine .left ?_ ?_ ?_ fun kind same => (other kind same).elim <;>
          simp [Call.creates, Call.frees, Call.writes, op, keeps]
      · rename_i freeing
        split at called
        · cases called
          refine .left ?_ ?_ ?_ fun kind same => (other kind same).elim <;>
            simp [Call.creates, Call.frees, Call.writes, op, refused]
        · rename_i hdrs freed
          cases called
          refine .freed ?_ ?_ ?_ freed <;>
            simp [Call.creates, Call.frees, Call.writes, op, Bool.eq_true_of_not_eq_false freeing]

/-! ## What a call keeps -/

theorem created_left {call : Call} {answer : Fcd} (creates : call.creates answer = false)
    (frees : call.frees answer = false) (trace : List (Call × Fcd)) :
    created ((call, answer) :: trace) = created trace := by
  simp [created, creates, frees]

theorem written_left {call : Call} {answer : Fcd} (creates : call.creates answer = false)
    (writes : call.writes answer = false) (address : ℕ) (trace : List (Call × Fcd)) :
    written address ((call, answer) :: trace) = written address trace := by
  simp [written, creates, writes]

/-- What `memfh_write` adds. -/
theorem memfhWrite_adds {hdr hdr' : Hdr} {record : List Byte}
    (wrote : memfhWrite hdr record = some hdr') : hdr'.filename = hdr.filename ∧
      hdr'.reclen = hdr.reclen ∧ hdr'.data = hdr.data ++ [record.take hdr.reclen] := by
  unfold memfhWrite at wrote
  split at wrote
  · cases wrote
  · obtain ⟨idx, _, rfl⟩ := Option.map_eq_some_iff.mp wrote
    exact ⟨rfl, rfl, rfl⟩

theorem update_some {heap : ℕ → Option Hdr} {place address : ℕ} {value : Option Hdr} {hdr : Hdr} :
    Function.update heap place value address = some hdr ↔
      (address = place ∧ value = some hdr) ∨ (address ≠ place ∧ heap address = some hdr) := by
  by_cases same : address = place
  · subst same
    simp
  · simp [same]

theorem Tracked.opened {trace : List (Call × Fcd)} {reg : Registry} (tracked : Tracked trace reg)
    {call : Call} {answer : Fcd} {keys : List (List (ℕ × ℕ))} {hdrs : List (Option ℕ)}
    (creates : call.creates answer = true) (writes : call.writes answer = false)
    (unused : reg.heap answer.fileId = none) (unnamed : reg.Unnamed call.filename)
    (placed : register answer.fileId reg.hdrs = some hdrs) :
    Tracked ((call, answer) :: trace) { reg with
      hdrs := hdrs
      nhdrs := reg.nhdrs + 1
      heap := Function.update reg.heap answer.fileId
        (some (memfhOpen call.filename call.fcd.record.length keys)) } := by
  obtain ⟨size, perm⟩ := register_some placed
  have absent : answer.fileId ∉ reg.hdrs.reduceOption := by
    intro member
    have held := (tracked.registered _).mp (List.reduceOption_mem_iff.mp member)
    rw [unused] at held
    cases held
  have fresh : ∀ address hdr, reg.heap address = some hdr → hdr.filename ≠ call.filename :=
    fun address hdr there => unnamed address hdr
      ((tracked.registered address).mpr (by rw [there]; rfl)) there
  refine ⟨size.trans tracked.size, ?_, ?_, ?_, ?_, ?_, ?_⟩
  · rw [perm.length_eq, List.length_cons, tracked.counted]
    rfl
  · exact perm.nodup_iff.mpr (List.nodup_cons.mpr ⟨absent, tracked.nodup⟩)
  · intro address
    rw [← List.reduceOption_mem_iff, perm.mem_iff, List.mem_cons, List.reduceOption_mem_iff,
      tracked.registered]
    by_cases same : address = answer.fileId
    · simp [same]
    · simp [same]
  · intro first second hdr hdr' there there' same
    rcases update_some.mp there with ⟨rfl, new⟩ | ⟨_, old⟩
    · rcases update_some.mp there' with ⟨rfl, _⟩ | ⟨_, old'⟩
      · rfl
      · cases new
        exact (fresh _ _ old' same.symm).elim
    · rcases update_some.mp there' with ⟨rfl, new'⟩ | ⟨_, old'⟩
      · cases new'
        exact (fresh _ _ old same).elim
      · exact tracked.names _ _ _ _ old old' same
  · intro filename address
    simp only [created, creates, if_true, List.mem_cons, Prod.mk.injEq, tracked.live, update_some]
    constructor
    · rintro (⟨rfl, rfl⟩ | ⟨hdr, there, named⟩)
      · exact ⟨_, .inl ⟨rfl, rfl⟩, rfl⟩
      · refine ⟨hdr, .inr ⟨?_, there⟩, named⟩
        intro same
        rw [same, unused] at there
        cases there
    · rintro ⟨hdr, ⟨rfl, new⟩ | ⟨_, old⟩, named⟩
      · cases new
        exact .inl ⟨named.symm, rfl⟩
      · exact .inr ⟨hdr, old, named⟩
  · intro address hdr there
    rcases update_some.mp there with ⟨rfl, new⟩ | ⟨different, old⟩
    · cases new
      simp [written, creates, memfhOpen]
    · simp only [written, creates, writes, Ne.symm different, and_false, if_false,
        Bool.false_eq_true, false_and]
      exact tracked.data _ _ old

theorem Tracked.wrote {trace : List (Call × Fcd)} {reg : Registry} (tracked : Tracked trace reg)
    {call : Call} {answer : Fcd} {hdr hdr' : Hdr} (creates : call.creates answer = false)
    (frees : call.frees answer = false) (writes : call.writes answer = true)
    (held : reg.heap call.fcd.fileId = some hdr)
    (wrote : memfhWrite hdr call.fcd.record = some hdr') :
    Tracked ((call, answer) :: trace) (reg.setHdr call.fcd.fileId hdr') := by
  obtain ⟨filename, reclen, data⟩ := memfhWrite_adds wrote
  have before : ∀ {address other}, (reg.setHdr call.fcd.fileId hdr').heap address = some other →
      ∃ old, reg.heap address = some old ∧ old.filename = other.filename := by
    intro address other there
    rcases update_some.mp there with ⟨rfl, new⟩ | ⟨_, old⟩
    · cases new
      exact ⟨hdr, held, filename.symm⟩
    · exact ⟨other, old, rfl⟩
  refine ⟨tracked.size, tracked.counted, tracked.nodup, ?_, ?_, ?_, ?_⟩
  · intro address
    refine (tracked.registered address).trans ?_
    by_cases same : address = call.fcd.fileId
    · simp [Registry.setHdr, same, held]
    · simp [Registry.setHdr, same]
  · intro first second one two there there' same
    obtain ⟨old, present, name⟩ := before there
    obtain ⟨old', present', name'⟩ := before there'
    exact tracked.names _ _ _ _ present present' (name.trans (same.trans name'.symm))
  · intro name address
    rw [created_left creates frees, tracked.live]
    constructor
    · rintro ⟨old, there, named⟩
      by_cases same : address = call.fcd.fileId
      · subst same
        cases held.symm.trans there
        exact ⟨hdr', update_some.mpr (.inl ⟨rfl, rfl⟩), filename.trans named⟩
      · exact ⟨old, update_some.mpr (.inr ⟨same, there⟩), named⟩
    · rintro ⟨other, there, named⟩
      obtain ⟨old, present, name⟩ := before there
      exact ⟨old, present, name.trans named⟩
  · intro address other there
    rcases update_some.mp there with ⟨rfl, new⟩ | ⟨different, old⟩
    · cases new
      simp [written, creates, writes, data, reclen, tracked.data _ _ held]
    · simp only [written, creates, writes, Ne.symm different, and_false, if_false,
        Bool.false_eq_true, false_and]
      exact tracked.data _ _ old

theorem Tracked.freed {trace : List (Call × Fcd)} {reg : Registry} (tracked : Tracked trace reg)
    {call : Call} {answer : Fcd} {hdrs : List (Option ℕ)} (creates : call.creates answer = false)
    (frees : call.frees answer = true) (writes : call.writes answer = false)
    (freed : unregister call.fcd.fileId reg.hdrs = some hdrs) :
    Tracked ((call, answer) :: trace) { reg with
      hdrs := hdrs
      nhdrs := reg.nhdrs - 1
      heap := Function.update reg.heap call.fcd.fileId none } := by
  obtain ⟨size, perm⟩ := unregister_some freed
  obtain ⟨absent, distinct⟩ := List.nodup_cons.mp (perm.nodup_iff.mp tracked.nodup)
  have before : ∀ {address hdr}, Function.update reg.heap call.fcd.fileId none address = some hdr ↔
      address ≠ call.fcd.fileId ∧ reg.heap address = some hdr := by
    intro address hdr
    rw [update_some]
    simp
  refine ⟨size.trans tracked.size, ?_, distinct, ?_, ?_, ?_, ?_⟩
  · rw [tracked.counted, perm.length_eq, List.length_cons]
    simp
  · intro address
    by_cases same : address = call.fcd.fileId
    · subst same
      simp [← List.reduceOption_mem_iff, absent]
    · have kept := perm.mem_iff (a := address)
      rw [List.mem_cons, List.reduceOption_mem_iff, List.reduceOption_mem_iff] at kept
      simp only [Function.update_of_ne same, ← tracked.registered, kept, same, false_or]
  · intro first second hdr hdr' there there'
    exact tracked.names _ _ _ _ (before.mp there).2 (before.mp there').2
  · intro filename address
    simp only [created, creates, frees, Bool.false_eq_true, if_false, if_true, List.mem_filter,
      tracked.live, before, decide_eq_true_eq]
    constructor
    · rintro ⟨⟨hdr, there, named⟩, different⟩
      exact ⟨hdr, ⟨different, there⟩, named⟩
    · rintro ⟨hdr, ⟨different, there⟩, named⟩
      exact ⟨⟨hdr, there, named⟩, different⟩
  · intro address hdr there
    rw [written_left creates writes]
    exact tracked.data _ _ (before.mp there).2

theorem Tracked.step {trace : List (Call × Fcd)} {reg reg' : Registry} (tracked : Tracked trace reg)
    {call : Call} {answer : Fcd} (outcome : Outcome reg call answer reg') :
    Tracked ((call, answer) :: trace) reg' := by
  cases outcome with
  | left creates frees writes _ =>
      refine ⟨tracked.size, tracked.counted, tracked.nodup, tracked.registered, tracked.names, ?_,
        ?_⟩
      · intro filename address
        rw [created_left creates frees]
        exact tracked.live filename address
      · intro address hdr there
        rw [written_left creates writes]
        exact tracked.data address hdr there
  | opened creates writes unused unnamed placed _ =>
      exact tracked.opened creates writes unused unnamed placed
  | wrote creates frees writes held wrote => exact tracked.wrote creates frees writes held wrote
  | freed creates frees writes freed => exact tracked.freed creates frees writes freed

/-! ## Every run -/

/-- The latest header created under a name, when it is live. -/
theorem Tracked.latest {trace : List (Call × Fcd)} {reg : Registry} (tracked : Tracked trace reg)
    {address : ℕ} {hdr : Hdr} (there : reg.heap address = some hdr) :
    (created trace).find? (fun entry => entry.1 = hdr.filename) = some (hdr.filename, address) := by
  have member := (tracked.live hdr.filename address).mpr ⟨hdr, there, rfl⟩
  cases found : (created trace).find? fun entry => entry.1 = hdr.filename with
  | none =>
      have missed := List.find?_eq_none.mp found _ member
      exact (missed (decide_eq_true rfl)).elim
  | some entry =>
      obtain ⟨filename, other⟩ := entry
      obtain rfl : filename = hdr.filename := by simpa using List.find?_some found
      obtain ⟨hdr', there', named⟩ := (tracked.live _ other).mp (List.mem_of_find?_eq_some found)
      rw [tracked.names _ _ _ _ there' there named]

/-- The header that an open that returned 00 designates. -/
theorem Outcome.designates {reg reg' : Registry} {call : Call} {answer : Fcd}
    (outcome : Outcome reg call answer reg') {kind : OpenKind} (opens : call.op = .openFile kind)
    (status : answer.status = stOk) : answer.openMode ≠ 128 ∧ some answer.fileId ∈ reg'.hdrs ∧
      ∃ hdr, reg'.heap answer.fileId = some hdr ∧ hdr.filename = call.filename := by
  cases outcome with
  | left _ _ _ found => exact found kind opens status
  | opened _ _ _ _ placed mode =>
      refine ⟨by rw [mode]; decide, ?_, _, Function.update_self .., rfl⟩
      exact List.reduceOption_mem_iff.mp ((register_some placed).2.mem_iff.mpr List.mem_cons_self)
  | wrote _ _ writes _ _ => simp [Call.writes, opens] at writes
  | freed _ frees _ _ => simp [Call.frees, opens] at frees

/-- In a run that makes headers only for names that are not registered, and only while a slot is
free, the registry is what it is to be. -/
theorem registry_kept {trace : List (Call × Fcd)} {reg : Registry}
    (registers : ∀ entry ∈ trace, entry.1.Registers)
    (run : Run memfhCblStep Proper Registry.initial trace reg) : RegistryOk trace reg := by
  have such := run.such Call.Registers registers
  have tracked : ∀ {trace reg}, Run memfhCblStep
      (fun trace sys call => call.Registers ∧ Proper trace sys call) Registry.initial trace reg →
      Tracked trace reg := by
    intro trace reg run
    refine run.invariant Tracked.initial fun _ _ _ _ _ allowed stepped tracked => ?_
    exact tracked.step (tracked.outcome allowed.1 allowed.2 stepped)
  have now := tracked such
  have designated : ∀ call answer earlier kind, trace = (call, answer) :: earlier →
      call.op = .openFile kind → answer.status = stOk → answer.openMode ≠ 128 ∧
        some answer.fileId ∈ reg.hdrs ∧
        ∃ hdr, reg.heap answer.fileId = some hdr ∧ hdr.filename = call.filename := by
    intro call answer earlier kind same opens status
    subst same
    cases such with
    | called before allowed stepped =>
        exact ((tracked before).outcome allowed.1 allowed.2 stepped).designates opens status
  refine ⟨now.counted, ?_, ?_, ?_⟩
  · refine List.Nodup.map_on ?_ now.nodup
    intro first member second member' same
    have held := (now.registered first).mp (List.reduceOption_mem_iff.mp member)
    obtain ⟨hdr, there⟩ := Option.isSome_iff_exists.mp held
    rw [there] at same
    obtain ⟨hdr', there', named⟩ := Option.map_eq_some_iff.mp same.symm
    exact now.names _ _ _ _ there there' named.symm
  · intro call answer earlier same opens status
    obtain ⟨kind, op⟩ : ∃ kind, call.op = .openFile kind := opens.elim (⟨_, ·⟩) (⟨_, ·⟩)
    obtain ⟨_, _, hdr, there, named⟩ := designated call answer earlier kind same op status
    have latest := now.latest there
    rw [named] at latest
    exact ⟨latest, hdr, there, named, now.data _ _ there⟩
  · intro call answer earlier kind same op status
    obtain ⟨opened, member, hdr, there, _⟩ := designated call answer earlier kind same op status
    refine ⟨hdr, there, fun record hdr' wrote => ?_⟩
    simp only [memfhCblWrite, if_neg opened, if_pos member, there, wrote, Option.map_some]

/-! ## A name opened for output twice -/

/-- A closed fcd of records of two bytes, the first a key. -/
def closedFcd (record : List Byte) : Fcd where
  status := stOk
  openMode := 128
  keyId := 0
  record := record
  lockAutomatic := false
  ignoreLock := false
  isam := false
  fileName := []
  -- one key, at 14, of one component, at 100
  kdb := fun place => if place ∈ [7, 15, 109] then 1 else if place = 17 then 100 else 0
  fileId := 0
  sign := true

def openCall (kind : OpenKind) (filename : String) : Call :=
  ⟨false, .openFile kind, filename, closedFcd [0, 0]⟩

/-- A file opened for output, written, closed and opened for input. -/
theorem registry_kept_reopened :
    ∃ trace reg, trace.map (fun entry => entry.1.op) =
        [.openFile .input, .close, .write, .openFile .output] ∧
      Run memfhCblStep Proper Registry.initial trace reg ∧ RegistryOk trace reg := by
  let opened := made 1 (openCall .output "f") Registry.initial
  let write : Call := ⟨false, .write, "f", { opened.1 with record := [1, 7] }⟩
  let wrote := made 2 write opened.2
  let close : Call := ⟨false, .close, "f", wrote.1⟩
  let closed := made 2 close wrote.2
  let read := made 2 (openCall .input "f") closed.2
  have proper : ∀ {trace reg call}, call.op ≠ .openFile .output → call.op ≠ .openFile .io →
      Proper trace reg call := fun output io =>
    ⟨fun same => (output same).elim, fun same => (io same).elim⟩
  have first :
      Run memfhCblStep Proper Registry.initial [(openCall .output "f", opened.1)] opened.2 :=
    .called .begin ⟨fun _ => ⟨fun _ _ _ there => (nomatch there), by decide⟩, nofun⟩
      (made_step (by decide +kernel) (by decide +kernel))
  have second : Run memfhCblStep Proper Registry.initial
      [(write, wrote.1), (openCall .output "f", opened.1)] wrote.2 :=
    .called first (proper nofun nofun) (made_step (by decide +kernel) (by decide +kernel))
  have third : Run memfhCblStep Proper Registry.initial
      [(close, closed.1), (write, wrote.1), (openCall .output "f", opened.1)] closed.2 :=
    .called second (proper nofun nofun) (made_step (by decide +kernel) (by decide +kernel))
  have fourth : Run memfhCblStep Proper Registry.initial [(openCall .input "f", read.1),
      (close, closed.1), (write, wrote.1), (openCall .output "f", opened.1)] read.2 :=
    .called third (proper nofun nofun) (made_step (by decide +kernel) (by decide +kernel))
  refine ⟨_, _, rfl, fourth, registry_kept ?_ fourth⟩
  simp [Call.Registers, openCall, write, close]

/-- An open for input of a name opened for output twice designates the first header. -/
theorem registry_opened_twice :
    ¬ ∀ (trace : List (Call × Fcd)) (reg : Registry), (∀ entry ∈ trace, entry.1.Registers) →
      Run memfhCblStep always Registry.initial trace reg → RegistryOk trace reg := by
  intro claimed
  obtain ⟨⟨trace, reg⟩, all, seen⟩ := Option.map_eq_some_iff.mp (by decide +kernel :
    (memfhCblAll [(1, openCall .output "f"), (2, openCall .output "f"), (3, openCall .input "f")]
      ([], Registry.initial)).map (fun result => (result.1.map fun entry =>
        ((entry.2.status : Status), entry.2.fileId),
        (created result.1).find? fun entry => entry.1 = "f")) =
      some ([(stOk, 1), (stOk, 2), (stOk, 1)], some ("f", 2)))
  obtain ⟨answers, latest⟩ := Prod.mk.inj seen
  obtain ⟨run, calls⟩ := memfhCblAll_run _ .begin all
  have registers : ∀ entry ∈ trace, entry.1.Registers := by
    intro entry member
    have called := List.mem_map_of_mem (f := Prod.fst) member
    rw [calls] at called
    simp only [List.map_cons, List.map_nil, List.reverse_cons, List.reverse_nil, List.nil_append,
      List.cons_append, List.mem_cons, List.not_mem_nil, or_false] at called
    rcases called with op | op | op <;> rw [op] <;> simp [Call.Registers, openCall]
  have kept := claimed trace reg registers run
  cases trace with
  | nil => cases calls
  | cons entry earlier =>
      obtain ⟨call, answer⟩ := entry
      obtain ⟨rfl, _⟩ := List.cons.inj calls
      obtain ⟨first, _⟩ := List.cons.inj answers
      obtain ⟨status, file⟩ := Prod.mk.inj first
      have designated := (kept.latest _ _ _ rfl (.inl rfl) status).1
      have same := (Prod.mk.inj (Option.some.inj (latest.symm.trans designated))).2
      exact absurd (same.trans file) (by decide)

end Pqfh.Memfh
