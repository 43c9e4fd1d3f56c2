import Pqfh.Memfh.Cbl
import Pqfh.Memfh.Delivery

/-! # Two in-memory files

The flag `start` is one for all files. A READ NEXT that finds it set gives status 00 and leaves the
record area as it is, whichever file the START was on and whatever has been done on the file since.

`Pqfh.Memfh.memfh_isolated` says when files are isolated: at each READ NEXT the flag must be what
the calls on the file alone make it, and when it is set, the last call on the file must have
returned 00 and its record area must have been left alone.
-/

namespace Pqfh.Memfh

open Interleave

/-! ## What a call looks at -/

/-- START, READ NEXT, READ, WRITE and REWRITE. -/
def Call.Works (call : Call) : Prop :=
  call.op ∈ [Opcode.start .ge, .readNext, .readRandom, .write, .rewrite]

/-- The address of the file that a call is on. -/
def Call.file (call : Call) : ℕ := call.fcd.fileId

/-- What a call does with its file: whether it finds a record, the file and the record area. -/
def Call.onFile (call : Call) (hdr : Hdr) : Option (Bool × Hdr × List Byte) :=
  match call.op with
  | .write => (memfhWrite hdr call.fcd.record).map fun hdr => (true, hdr, call.fcd.record)
  | .rewrite => memfhRead hdr call.fcd.record true
  | .readRandom => memfhRead hdr call.fcd.record false
  | .start _ =>
      if hdr.keys.length ≤ call.fcd.keyId then none
      else memfhStart hdr call.fcd.record call.fcd.keyId
  | _ => memfhNext hdr call.fcd.record call.fcd.keyId

/-- The status of a call that is refused. -/
def Call.refused (call : Call) : Status :=
  if call.op = .write ∨ call.op = .rewrite then stNotOpenedWrite else stNotOpenedRead

/-- The status of a call that finds no record. -/
def Call.missing (call : Call) : Status :=
  if call.op = .rewrite ∨ call.op = .readRandom then stRecNotFound else stEof

/-- What a call sets the flag to. -/
def Call.sets (call : Call) (found : Bool) : Option Bool :=
  if call.op = .readNext then some false
  else if call.op = .start .ge ∧ found = true then some true
  else none

/-- A call as a function of what it looks at: whether its file is registered, the flag, and the
header. It gives its answer, the flag when it sets it, and the header after. -/
def Call.work (call : Call) (registered start : Bool) (hdr : Option Hdr) :
    Option (Fcd × Option Bool × Option Hdr) :=
  if call.fcd.openMode = 128 ∨ call.op = .write ∧ registered = false then
    some ({ call.fcd with status := call.refused }, none, hdr)
  else if call.op = .readNext ∧ start = true then
    some ({ call.fcd with status := stOk }, some false, hdr)
  else
    hdr.bind fun hdr => (call.onFile hdr).map fun result =>
      ({ call.fcd with
        status := if result.1 then stOk else call.missing
        record := result.2.2 }, call.sets result.1, some result.2.1)

/-- The globals after a call. -/
def Registry.after (reg : Registry) (file : ℕ) (result : Fcd × Option Bool × Option Hdr) :
    Fcd × Registry :=
  (result.1, { reg with
    start := result.2.1.getD reg.start
    heap := Function.update reg.heap file result.2.2 })

/-- A file that is left as it was leaves the registry as it was. -/
theorem Registry.after_same (reg : Registry) (file : ℕ) (answer : Fcd) :
    reg.after file (answer, none, reg.heap file) = (answer, reg) := by
  simp [Registry.after]

/-- Only START and READ NEXT touch the flag. -/
theorem onHdr_start {found missing : Status} {op : Hdr → Option (Bool × Hdr × List Byte)}
    {reg : Registry} {fcd : Fcd} {result : Bool × Fcd × Registry}
    (called : onHdr found missing op reg fcd = some result) :
    result.2.2.setStart reg.start = result.2.2 := by
  unfold onHdr at called
  split at called
  · cases called
  · obtain ⟨outcome, _, rfl⟩ := Option.map_eq_some_iff.mp called
    rfl

/-- An operation on a file leaves the flag of START as it was. -/
theorem onHdr_leaves (found missing : Status) (op : Hdr → Option (Bool × Hdr × List Byte))
    (reg : Registry) (fcd : Fcd) :
    (onHdr found missing op reg fcd).map Prod.snd =
      (onHdr found missing op reg fcd).map fun result =>
        (result.2.1, result.2.2.setStart reg.start) := by
  apply Option.map_congr
  intro result called
  rw [onHdr_start called]

/-- A call that gets to its file. -/
theorem Call.work_onHdr (call : Call) {registered start : Bool}
    (past : ¬ (call.fcd.openMode = 128 ∨ call.op = .write ∧ registered = false))
    (unset : ¬ (call.op = .readNext ∧ start = true)) (reg : Registry) :
    (call.work registered start (reg.heap call.file)).map (reg.after call.file) =
      (onHdr stOk call.missing call.onFile reg call.fcd).map fun result =>
        (result.2.1, result.2.2.setStart ((call.sets result.1).getD reg.start)) := by
  unfold Call.work onHdr
  rw [if_neg past, if_neg unset, Call.file]
  cases reg.heap call.fcd.fileId with
  | none => rfl
  | some hdr =>
      simp only [Option.bind_some, Option.map_map]
      rfl

/-- The calls look at nothing else. -/
theorem memfhCbl_work {call : Call} (works : call.Works) (address : ℕ) (reg : Registry) :
    memfhCbl address call reg =
      (call.work (some call.file ∈ reg.hdrs) reg.start (reg.heap call.file)).map
        (reg.after call.file) := by
  obtain ⟨free, op, filename, fcd⟩ := call
  simp only [Call.Works, List.mem_cons, List.not_mem_nil, or_false] at works
  by_cases closed : fcd.openMode = 128
  · rcases works with rfl | rfl | rfl | rfl | rfl <;>
      simp [memfhCbl, memfhCblStart, memfhCblNext, memfhCblRead, memfhCblWrite, memfhCblRewrite,
        closed, Call.work, Call.refused, Call.file, Registry.after_same]
  · rcases works with rfl | rfl | rfl | rfl | rfl
    · rw [Call.work_onHdr _ (by simp [closed]) (by simp)]
      simp only [memfhCbl, memfhCblStart, if_neg closed]
      apply Option.map_congr
      intro result called
      cases started : result.1
      · exact congrArg (Prod.mk result.2.1) (onHdr_start called).symm
      · rfl
    · by_cases set : reg.start = true
      · simp [memfhCbl, memfhCblNext, closed, set, Call.work, Registry.after, Registry.setStart,
          Call.file]
      · rw [Call.work_onHdr _ (by simp [closed]) (by simp [set])]
        simp only [memfhCbl, memfhCblNext, if_neg closed, if_neg set]
        rw [onHdr_leaves, Bool.eq_false_of_not_eq_true set]
        rfl
    · rw [Call.work_onHdr _ (by simp [closed]) (by simp)]
      simp only [memfhCbl, memfhCblRead, if_neg closed]
      exact onHdr_leaves ..
    · by_cases registered : some fcd.fileId ∈ reg.hdrs
      · rw [Call.work_onHdr _ (by simp [closed, registered, Call.file]) (by simp)]
        simp only [memfhCbl, memfhCblWrite, if_neg closed, if_pos registered, onHdr, Call.onFile]
        cases reg.heap fcd.fileId with
        | none => rfl
        | some hdr =>
            simp only [Option.map_map]
            rfl
      · simp [memfhCbl, memfhCblWrite, closed, registered, Call.work, Call.refused, Call.file,
          Registry.after_same]
    · rw [Call.work_onHdr _ (by simp [closed]) (by simp)]
      simp only [memfhCbl, memfhCblRewrite, if_neg closed]
      exact onHdr_leaves ..

/-- A call has one outcome. -/
theorem memfhCblStep_functional (reg : Registry) (call : Call) (answer : Fcd) (reg' : Registry)
    (answer' : Fcd) (reg'' : Registry) (works : call.Works)
    (stepped : memfhCblStep reg call answer reg')
    (stepped' : memfhCblStep reg call answer' reg'') : answer = answer' ∧ reg' = reg'' := by
  obtain ⟨address, _, called⟩ := stepped
  obtain ⟨address', _, called'⟩ := stepped'
  rw [memfhCbl_work works] at called called'
  exact Prod.mk.inj (Option.some.inj (called.symm.trans called'))

/-! ## What a call does to its file -/

/-- The outcomes of a call: it is refused, it takes the record of a START, or it works on its file.
-/
theorem Call.work_cases {call : Call} {registered start : Bool} {hdr hdr' : Option Hdr}
    {answer : Fcd}
    {flag : Option Bool} (worked : call.work registered start hdr = some (answer, flag, hdr')) :
    (answer.status = call.refused ∧ flag = none ∧ hdr' = hdr ∧
        (call.fcd.openMode = 128 ∨ call.op = .write)) ∨
      (call.fcd.openMode ≠ 128 ∧ call.op = .readNext ∧ start = true ∧ answer.status = stOk ∧
        answer.record = call.fcd.record ∧ flag = some false ∧ hdr' = hdr) ∨
      (call.fcd.openMode ≠ 128 ∧ ∃ before after found, hdr = some before ∧ hdr' = some after ∧
        call.onFile before = some (found, after, answer.record) ∧
        answer.status = (if found then stOk else call.missing) ∧ flag = call.sets found) := by
  unfold Call.work at worked
  split at worked
  · rename_i refused
    cases worked
    exact .inl ⟨rfl, rfl, rfl, refused.imp_right And.left⟩
  · rename_i past
    have opened : call.fcd.openMode ≠ 128 := fun closed => past (.inl closed)
    split at worked
    · rename_i set
      cases worked
      exact .inr (.inl ⟨opened, set.1, set.2, rfl, rfl, rfl, rfl⟩)
    · obtain ⟨before, there, called⟩ := Option.bind_eq_some_iff.mp worked
      obtain ⟨⟨found, after, area⟩, result, outcome⟩ := Option.map_eq_some_iff.mp called
      cases outcome
      exact .inr (.inr ⟨opened, before, after, found, there, rfl, result, rfl, rfl⟩)

/-- A refusal is no success. -/
theorem Call.refused_ne (call : Call) : call.refused ≠ stOk := by
  unfold Call.refused
  split <;> decide

/-- A file that is missing is no success. -/
theorem Call.missing_ne (call : Call) : call.missing ≠ stOk := by
  unfold Call.missing
  split <;> decide

/-- A call on a file delivers what it finds. -/
theorem Call.onFile_delivered {call : Call} {hdr hdr' : Hdr} {found : Bool} {area : List Byte}
    (filed : Filed hdr) (size : call.fcd.record.length = hdr.reclen)
    (called : call.onFile hdr = some (found, hdr', area)) : Delivered hdr hdr' found area := by
  unfold Call.onFile at called
  split at called
  · obtain ⟨after, wrote, outcome⟩ := Option.map_eq_some_iff.mp called
    cases outcome
    exact memfhWrite_delivered filed size wrote
  · exact memfhRead_delivered filed size called
  · exact memfhRead_delivered filed size called
  · split at called
    · cases called
    · exact memfhStart_delivered filed size called
  · exact memfhNext_delivered filed size called

/-- The flag matters to READ NEXT alone. -/
theorem Call.work_start {call : Call} {start start' : Bool}
    (same : call.op = .readNext → call.fcd.openMode ≠ 128 → start = start') (registered : Bool)
    (hdr : Option Hdr) : call.work registered start hdr = call.work registered start' hdr := by
  unfold Call.work
  by_cases refused : call.fcd.openMode = 128 ∨ call.op = .write ∧ registered = false
  · rw [if_pos refused, if_pos refused]
  · rw [if_neg refused, if_neg refused]
    by_cases next : call.op = .readNext
    · rw [same next fun closed => refused (.inl closed)]
    · rw [if_neg fun set => next set.1, if_neg fun set => next set.1]

/-! ## Runs -/

/-- What the calls on a file alone make of the flag: a START that returns 00 sets it, a READ NEXT
clears it. The latest call comes first. -/
def started (file : ℕ) : List (Call × Fcd) → Bool
  | [] => false
  | (call, answer) :: earlier =>
      if call.file = file ∧ call.fcd.openMode ≠ 128 then
        (call.sets (answer.status = stOk)).getD (started file earlier)
      else started file earlier

/-- The answer to the last call on a file through an open fcd. -/
def lastAnswer (file : ℕ) (trace : List (Call × Fcd)) : Option Fcd :=
  (trace.find? fun entry => entry.1.file = file ∧ entry.1.fcd.openMode ≠ 128).map Prod.snd

/-- At a READ NEXT the flag is what the calls on the file made it, and when it is set, the last call
on the file returned 00 and the record area is as it left it. -/
structure Undisturbed (trace : List (Call × Fcd)) (reg : Registry) (call : Call) : Prop where
  flag : call.op = .readNext → call.fcd.openMode ≠ 128 → reg.start = started call.file trace
  area : call.op = .readNext → call.fcd.openMode ≠ 128 → reg.start = true →
    ∃ answer, lastAnswer call.file trace = some answer ∧ answer.status = stOk ∧
      call.fcd.record = answer.record

/-- The calls on the files that a program has open. -/
structure Program (initial : Registry) (trace : List (Call × Fcd)) : Prop where
  unstarted : initial.start = false
  reached : ∀ file hdr, initial.heap file = some hdr → ∃ filename keys,
    FileRun filename hdr.reclen keys (fun _ _ => True) hdr
  works : ∀ entry ∈ trace, entry.1.Works
  size : ∀ entry ∈ trace, ∀ hdr, initial.heap entry.1.file = some hdr →
    entry.1.fcd.record.length = hdr.reclen

/-- The calls on each file get the answers that they get alone, and a READ NEXT that returns 00
delivers a record of its file. -/
structure Isolated (initial : Registry) (trace : List (Call × Fcd)) (reg : Registry) : Prop where
  alone : ∀ file, ∃ reg', Run memfhCblStep always initial (own Call.file file trace) reg'
  only : ∀ file trace' reg', Run memfhCblStep always initial trace' reg' →
    (own Call.file file trace).map Prod.fst = trace'.map Prod.fst →
    own Call.file file trace = trace'
  delivers : ∀ call answer earlier, trace = (call, answer) :: earlier → call.op = .readNext →
    answer.status = stOk → ∃ hdr, reg.heap call.file = some hdr ∧ answer.record ∈ hdr.data

/-- The flag of a file follows what its calls set. -/
theorem Call.work_started {call : Call} {registered start : Bool} {hdr hdr' : Option Hdr}
    {answer : Fcd} {flag : Option Bool}
    (worked : call.work registered start hdr = some (answer, flag, hdr'))
    (trace : List (Call × Fcd)) :
    started call.file ((call, answer) :: trace) = flag.getD (started call.file trace) := by
  rcases call.work_cases worked with
    ⟨status, rfl, _, closed⟩ | ⟨opened, next, _, _, _, rfl, _⟩ | ⟨opened, _, _, found, _, _, _,
    status, rfl⟩
  · by_cases opened : call.fcd.openMode = 128
    · simp [started, opened]
    · have write := closed.resolve_left opened
      simp [started, opened, Call.sets, write]
  · simp [started, opened, Call.sets, next]
  · cases found with
    | false => simp [started, opened, status, call.missing_ne]
    | true => simp [started, opened, status]

/-- A file and the same file worked on alone. -/
structure Related (file : ℕ) (trace : List (Call × Fcd)) (reg alone : Registry) : Prop where
  heap : alone.heap file = reg.heap file
  free : ∀ address, reg.heap address = none ↔ alone.heap address = none
  hdrs : alone.hdrs = reg.hdrs
  start : alone.start = started file trace

/-- The work of a call neither makes a file nor frees one. -/
theorem Call.work_free {call : Call} {registered start : Bool} {hdr hdr' : Option Hdr}
    {answer : Fcd} {flag : Option Bool}
    (worked : call.work registered start hdr = some (answer, flag, hdr')) :
    hdr' = none ↔ hdr = none := by
  rcases call.work_cases worked with
    ⟨_, _, rfl, _⟩ | ⟨_, _, _, _, _, _, rfl⟩ | ⟨_, _, _, _, rfl, rfl, _⟩
  · exact Iff.rfl
  · exact Iff.rfl
  · simp

/-- An address is free when it was. -/
theorem update_free {heap : ℕ → Option Hdr} {file : ℕ} {hdr : Option Hdr}
    (same : hdr = none ↔ heap file = none) (address : ℕ) :
    Function.update heap file hdr address = none ↔ heap address = none := by
  by_cases here : address = file
  · subst here
    rw [Function.update_self, same]
  · rw [Function.update_of_ne here]

/-- A step is a call as a function of what it looks at. -/
theorem memfhCblStep_work {reg reg' : Registry} {call : Call} {answer : Fcd} (works : call.Works)
    (stepped : memfhCblStep reg call answer reg') :
    ∃ flag hdr, call.work (some call.file ∈ reg.hdrs) reg.start (reg.heap call.file) =
        some (answer, flag, hdr) ∧
      reg' = { reg with
        start := flag.getD reg.start
        heap := Function.update reg.heap call.file hdr } := by
  obtain ⟨address, _, called⟩ := stepped
  rw [memfhCbl_work works] at called
  obtain ⟨⟨answer, flag, hdr⟩, worked, outcome⟩ := Option.map_eq_some_iff.mp called
  cases outcome
  exact ⟨flag, hdr, worked, rfl⟩

/-- A call on another file. -/
theorem Related.other {file : ℕ} {trace : List (Call × Fcd)} {reg alone reg' : Registry}
    {call : Call}
    {answer : Fcd} (related : Related file trace reg alone) (works : call.Works)
    (other : call.file ≠ file) (stepped : memfhCblStep reg call answer reg') :
    Related file ((call, answer) :: trace) reg' alone := by
  obtain ⟨flag, hdr, worked, rfl⟩ := memfhCblStep_work works stepped
  refine ⟨?_, ?_, related.hdrs, ?_⟩
  · exact related.heap.trans (Function.update_of_ne (Ne.symm other) _ _).symm
  · intro address
    exact (update_free (call.work_free worked) address).trans (related.free address)
  · rw [related.start, started, if_neg fun same => other same.1]

/-- A call on the file. -/
theorem Related.same {trace : List (Call × Fcd)} {reg alone reg' : Registry} {call : Call}
    {answer : Fcd} (related : Related call.file trace reg alone) (works : call.Works)
    (undisturbed : Undisturbed trace reg call) (stepped : memfhCblStep reg call answer reg') :
    ∃ alone', memfhCblStep alone call answer alone' ∧
      Related call.file ((call, answer) :: trace) reg' alone' := by
  have flag : call.op = .readNext → call.fcd.openMode ≠ 128 → alone.start = reg.start :=
    fun next opened => related.start.trans (undisturbed.flag next opened).symm
  obtain ⟨set, hdr, worked, rfl⟩ := memfhCblStep_work works stepped
  obtain ⟨address, unused, _⟩ := stepped
  have workedAlone := worked
  rw [← related.heap, ← related.hdrs, ← call.work_start flag] at workedAlone
  refine ⟨{ alone with
      start := set.getD alone.start
      heap := Function.update alone.heap call.file hdr },
    ⟨address, (related.free address).mp unused, ?_⟩, ?_, ?_, related.hdrs, ?_⟩
  · rw [memfhCbl_work works, workedAlone]
    rfl
  · simp
  · intro other
    rw [update_free (call.work_free worked), update_free (call.work_free workedAlone),
      related.free other]
  · rw [call.work_started worked, related.start]

/-! ## What is delivered -/

/-- The files stay files, and the last answer on each, when it is 00, has a record of it. -/
structure Kept (initial : Registry) (trace : List (Call × Fcd)) (reg : Registry) : Prop where
  filed : ∀ file hdr, reg.heap file = some hdr → Filed hdr ∧
    ∃ first, initial.heap file = some first ∧ hdr.reclen = first.reclen
  last : ∀ file answer, lastAnswer file trace = some answer → answer.status = stOk →
    ∃ hdr, reg.heap file = some hdr ∧ answer.record ∈ hdr.data

/-- The answer of a file's call is its last one. -/
theorem lastAnswer_cons {call : Call} (opened : call.fcd.openMode ≠ 128) (answer : Fcd)
    (trace : List (Call × Fcd)) : lastAnswer call.file ((call, answer) :: trace) = some answer := by
  simp [lastAnswer, opened]

/-- The call of another file does not change the last answer. -/
theorem lastAnswer_other {call : Call} {file : ℕ}
    (other : ¬ (call.file = file ∧ call.fcd.openMode ≠ 128)) (answer : Fcd)
    (trace : List (Call × Fcd)) : lastAnswer file ((call, answer) :: trace) =
    lastAnswer file trace := by
  simp only [lastAnswer, List.find?_cons, other, decide_false]

/-- A call that works on its file keeps it a file of records of the same length. -/
theorem Kept.onFile {initial reg : Registry} {trace : List (Call × Fcd)}
    (kept : Kept initial trace reg)
    {call : Call} (size : ∀ hdr, initial.heap call.file = some hdr →
      call.fcd.record.length = hdr.reclen) {hdr hdr' : Hdr} {found : Bool} {area : List Byte}
    (there : reg.heap call.file = some hdr) (called : call.onFile hdr = some (found, hdr', area)) :
    Delivered hdr hdr' found area ∧
      ∃ first, initial.heap call.file = some first ∧ hdr'.reclen = first.reclen := by
  obtain ⟨filed, first, opened, reclen⟩ := kept.filed _ _ there
  have delivered := call.onFile_delivered filed ((size first opened).trans reclen.symm) called
  exact ⟨delivered, first, opened, delivered.reclen.trans reclen⟩

/-- A step keeps the file what its own calls made of it. -/
theorem Kept.step {initial reg reg' : Registry} {trace : List (Call × Fcd)}
    (kept : Kept initial trace reg) {call : Call} {answer : Fcd} (works : call.Works)
    (size : ∀ hdr, initial.heap call.file = some hdr → call.fcd.record.length = hdr.reclen)
    (undisturbed : Undisturbed trace reg call) (stepped : memfhCblStep reg call answer reg') :
    Kept initial ((call, answer) :: trace) reg' := by
  obtain ⟨flag, hdr', worked, rfl⟩ := memfhCblStep_work works stepped
  have outcomes := call.work_cases worked
  constructor
  · intro file hdr there
    by_cases same : file = call.file
    · subst same
      replace there := (Function.update_self call.file hdr' reg.heap).symm.trans there
      rcases outcomes with
        ⟨_, _, rfl, _⟩ | ⟨_, _, _, _, _, _, rfl⟩ | ⟨_, before, _, _, held, rfl, called, _⟩
      · exact kept.filed _ _ there
      · exact kept.filed _ _ there
      · cases there
        obtain ⟨delivered, first⟩ := kept.onFile size held called
        exact ⟨delivered.filed, first⟩
    · exact kept.filed _ _ ((Function.update_of_ne same hdr' reg.heap).symm.trans there)
  · intro file last answered status
    by_cases own : call.file = file ∧ call.fcd.openMode ≠ 128
    · obtain ⟨rfl, opened⟩ := own
      rw [lastAnswer_cons opened] at answered
      cases answered
      simp only [Function.update_self]
      rcases outcomes with
        ⟨refused, _⟩ | ⟨_, next, set, _, area, _, rfl⟩ | ⟨_, before, after, found, held, rfl,
        called, result, _⟩
      · exact (call.refused_ne (refused.symm.trans status)).elim
      · obtain ⟨earlier, last, ok, left⟩ := undisturbed.area next opened set
        rw [area, left]
        exact kept.last _ _ last ok
      · obtain ⟨delivered, _⟩ := kept.onFile size held called
        refine ⟨after, rfl, delivered.record ?_⟩
        cases found with
        | true => rfl
        | false => exact (call.missing_ne (result.symm.trans status)).elim
    · rw [lastAnswer_other own] at answered
      obtain ⟨hdr, there, member⟩ := kept.last _ _ answered status
      refine ⟨hdr, ?_, member⟩
      by_cases same : file = call.file
      · subst same
        have closed : call.fcd.openMode = 128 := not_not.mp fun opened => own ⟨rfl, opened⟩
        rcases outcomes with ⟨_, _, rfl, _⟩ | ⟨opened, _⟩ | ⟨opened, _⟩
        · exact (Function.update_self _ _ _).trans there
        · exact (opened closed).elim
        · exact (opened closed).elim
      · exact (Function.update_of_ne same _ _).trans there

/-- In a run whose READ NEXT calls all find the flag as the calls on their file made it, and the
record area as a successful last call left it, the files are isolated. -/
theorem memfh_isolated {initial reg : Registry} {trace : List (Call × Fcd)}
    (program : Program initial trace) (run : Run memfhCblStep Undisturbed initial trace reg) :
    Isolated initial trace reg := by
  have such := run.such (fun call => call.Works ∧ ∀ hdr, initial.heap call.file = some hdr →
    call.fcd.record.length = hdr.reclen)
    fun entry member => ⟨program.works entry member, program.size entry member⟩
  have kept : Kept initial trace reg := by
    refine such.invariant ⟨?_, nofun⟩ ?_
    · intro file hdr there
      obtain ⟨filename, keys, reaches⟩ := program.reached file hdr there
      exact ⟨reaches.filed.1, hdr, there, rfl⟩
    · intro trace reg call answer reg' allowed stepped kept
      exact kept.step allowed.1.1 allowed.1.2 allowed.2 stepped
  have alone : ∀ file, ∃ reg', Run memfhCblStep always initial (own Call.file file trace) reg' := by
    intro file
    obtain ⟨reg', runs, _⟩ := such.isolated Call.file file (Related file)
      ⟨rfl, fun _ => Iff.rfl, rfl, program.unstarted⟩
      (fun _ _ _ _ _ _ other allowed stepped related => related.other allowed.1.1 other stepped)
      (fun _ _ _ _ _ _ same allowed stepped related => by
        subst same
        exact related.same allowed.1.1 allowed.2 stepped)
    exact ⟨reg', runs⟩
  refine ⟨alone, ?_, ?_⟩
  · intro file trace' reg' run' same
    obtain ⟨own', runs⟩ := alone file
    exact (runs.deterministic Call.Works memfhCblStep_functional run'
      (fun entry member => program.works entry (own_mem Call.file file member)) same).1
  · intro call answer earlier same next status
    subst same
    cases such with
    | called _ allowed stepped =>
        obtain ⟨flag, hdr', worked, _⟩ := memfhCblStep_work allowed.1.1 stepped
        rcases call.work_cases worked with ⟨refused, _⟩ | ⟨opened, _⟩ | ⟨opened, _⟩
        · exact (call.refused_ne (refused.symm.trans status)).elim
        · exact kept.last _ _ (lastAnswer_cons opened answer earlier) status
        · exact kept.last _ _ (lastAnswer_cons opened answer earlier) status

/-! ## Two files in a program -/

/-- An fcd open on a file. -/
def openFcd (file : ℕ) (record : List Byte) : Fcd where
  status := stOk
  openMode := 1
  keyId := 0
  record := record
  lockAutomatic := false
  ignoreLock := false
  isam := false
  fileName := []
  kdb := fun _ => 0
  fileId := file
  sign := true

/-- A call by the primary key. -/
def callOn (op : Opcode) (file : ℕ) (record : List Byte) : Call :=
  ⟨false, op, "", openFcd file record⟩

/-- Two files of records of two bytes, the first a key, just opened. -/
def twoFiles : Registry where
  nhdrs := 2
  hdrs := some 1 :: some 2 :: List.replicate 126 none
  start := false
  heap := fun address =>
    if address = 1 then some (memfhOpen "f" 2 [[(0, 1)]])
    else if address = 2 then some (memfhOpen "g" 2 [[(0, 1)]]) else none

/-- Calls with records of two bytes are a program of the two files. -/
theorem twoFiles_program {trace : List (Call × Fcd)} (works : ∀ entry ∈ trace, entry.1.Works)
    (size : ∀ entry ∈ trace, entry.1.fcd.record.length = 2) : Program twoFiles trace := by
  have opened : ∀ file hdr, twoFiles.heap file = some hdr →
      ∃ filename, hdr = memfhOpen filename 2 [[(0, 1)]] := by
    intro file hdr there
    simp only [twoFiles] at there
    split at there
    · exact ⟨"f", (Option.some.inj there).symm⟩
    · split at there
      · exact ⟨"g", (Option.some.inj there).symm⟩
      · cases there
  refine ⟨rfl, ?_, works, ?_⟩
  · intro file hdr there
    obtain ⟨filename, rfl⟩ := opened file hdr there
    exact ⟨filename, [[(0, 1)]], .opened⟩
  · intro entry member hdr there
    obtain ⟨filename, rfl⟩ := opened _ hdr there
    exact size entry member

/-- The calls made are calls on the two files when each is. -/
theorem memfhCblAll_program {calls : List Call} {trace : List (Call × Fcd)}
    (made : trace.map Prod.fst = calls)
    (fits : ∀ call ∈ calls, call.Works ∧ call.fcd.record.length = 2) : Program twoFiles trace := by
  have among : ∀ entry ∈ trace, entry.1 ∈ calls := by
    intro entry member
    rw [← made]
    exact List.mem_map_of_mem member
  exact twoFiles_program (fun entry member => (fits _ (among entry member)).1)
    fun entry member => (fits _ (among entry member)).2

/-- A call that is no READ NEXT cannot be disturbed. -/
theorem undisturbed_of_ne {trace : List (Call × Fcd)} {reg : Registry} {call : Call}
    (other : call.op ≠ .readNext) : Undisturbed trace reg call :=
  ⟨fun next => (other next).elim, fun next => (other next).elim⟩

/-- A run goes on with a call that is no READ NEXT. -/
theorem run_made {trace : List (Call × Fcd)} {reg : Registry} (call : Call)
    (run : Run memfhCblStep Undisturbed twoFiles trace reg) (other : call.op ≠ .readNext)
    (unused : (reg.heap 3).isNone) (returns : (memfhCbl 3 call reg).isSome) :
    Run memfhCblStep Undisturbed twoFiles ((call, (made 3 call reg).1) :: trace)
      (made 3 call reg).2 :=
  .called run (undisturbed_of_ne other) (made_step unused returns)

/-- A START and a READ NEXT on one file, with a WRITE, a READ by key and a REWRITE on the other one
between them. -/
theorem memfh_isolated_start :
    ∃ trace reg, trace.map (fun entry => (entry.1.op, entry.1.file)) =
        [(.readNext, 1), (.rewrite, 2), (.readRandom, 2), (.write, 2), (.start .ge, 1),
          (.write, 1)] ∧
      Run memfhCblStep Undisturbed twoFiles trace reg ∧ Isolated twoFiles trace reg := by
  let start := callOn (.start .ge) 1 [1, 0]
  let wrote := made 3 (callOn .write 1 [1, 7]) twoFiles
  let begun := made 3 start wrote.2
  let added := made 3 (callOn .write 2 [2, 9]) begun.2
  let sought := made 3 (callOn .readRandom 2 [2, 0]) added.2
  let changed := made 3 (callOn .rewrite 2 [2, 8]) sought.2
  have first := run_made (callOn .write 1 [1, 7]) .begin (by decide) (by decide +kernel)
    (by decide +kernel)
  have second := run_made start first (by decide) (by decide +kernel) (by decide +kernel)
  have third := run_made (callOn .write 2 [2, 9]) second (by decide) (by decide +kernel)
    (by decide +kernel)
  have fourth := run_made (callOn .readRandom 2 [2, 0]) third (by decide) (by decide +kernel)
    (by decide +kernel)
  have fifth := run_made (callOn .rewrite 2 [2, 8]) fourth (by decide) (by decide +kernel)
    (by decide +kernel)
  have status : begun.1.status = stOk := by decide +kernel
  have record : begun.1.record = [1, 7] := by decide +kernel
  have set : changed.2.start = true := by decide +kernel
  have flag : changed.2.start = started 1 [(callOn .rewrite 2 [2, 8], changed.1),
      (callOn .readRandom 2 [2, 0], sought.1), (callOn .write 2 [2, 9], added.1),
      (start, begun.1), (callOn .write 1 [1, 7], wrote.1)] := by
    change _ = (start.sets (begun.1.status = stOk)).getD false
    rw [set, decide_eq_true status]
    rfl
  have last : Undisturbed [(callOn .rewrite 2 [2, 8], changed.1),
      (callOn .readRandom 2 [2, 0], sought.1), (callOn .write 2 [2, 9], added.1),
      (start, begun.1), (callOn .write 1 [1, 7], wrote.1)] changed.2
        (callOn .readNext 1 [1, 7]) :=
    ⟨fun _ _ => flag, fun _ _ _ => ⟨begun.1, rfl, status, record.symm⟩⟩
  have returned : memfhCblStep changed.2 (callOn .readNext 1 [1, 7])
      (made 3 (callOn .readNext 1 [1, 7]) changed.2).1
      (made 3 (callOn .readNext 1 [1, 7]) changed.2).2 :=
    made_step (by decide +kernel) (by decide +kernel)
  have read := Run.called fifth last returned
  refine ⟨_, _, rfl, read, memfh_isolated (twoFiles_program ?_ ?_) read⟩
  · simp [start, Call.Works, callOn]
  · simp [start, callOn, openFcd]

/-- A START on one file makes a READ NEXT on another return 00 without a record. -/
theorem memfh_start_of_other :
    ¬ ∀ (initial : Registry) (trace : List (Call × Fcd)) (reg : Registry), Program initial trace →
      Run memfhCblStep always initial trace reg → Isolated initial trace reg := by
  intro claimed
  obtain ⟨⟨trace, reg⟩, all, seen⟩ := Option.map_eq_some_iff.mp (by decide +kernel :
    (memfhCblAll [(3, callOn .write 1 [1, 7]), (3, callOn (.start .ge) 1 [1, 0]),
      (3, callOn .readNext 2 [0, 0])] ([], twoFiles)).map
      (fun result => (result.1.map fun entry => (entry.2.status : Status),
        (result.2.heap 2).map Hdr.data)) =
      some ([stOk, stOk, stOk], some []))
  obtain ⟨statuses, data⟩ := Prod.mk.inj seen
  obtain ⟨run, calls⟩ := memfhCblAll_run _ .begin all
  have program := memfhCblAll_program calls (by simp [Call.Works, callOn, openFcd])
  cases trace with
  | nil => cases calls
  | cons entry earlier =>
      obtain ⟨call, answer⟩ := entry
      obtain ⟨rfl, _⟩ := List.cons.inj calls
      obtain ⟨hdr, there, member⟩ := (claimed _ _ _ program run).delivers _ _ _ rfl rfl
        (List.cons.inj statuses).1
      have empty : hdr.data = [] := Option.some.inj ((congrArg _ there).symm.trans data)
      rw [empty] at member
      cases member

end Pqfh.Memfh
