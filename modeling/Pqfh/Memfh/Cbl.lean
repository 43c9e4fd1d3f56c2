import Pqfh.Foundation.Interleave
import Pqfh.Handler.Dispatch
import Pqfh.Memfh.Start

/-! # Calls on in-memory files

`memfh_cbl` takes the calls of a program on its in-memory files. The headers of the files that were
opened for output are registered in a table of 128 slots; an open for input or I-O looks for the
name there. The fcd designates a file by the address of its header, and the calls take the address
as it is; only WRITE and a freeing CLOSE look whether it is registered.

A START leaves its record in the record area and sets `start`, one flag for all files; the READ NEXT
after it clears the flag and leaves the area as it is.
-/

namespace Pqfh.Memfh

/-- `MAX_HDRS`. -/
def maxHdrs : ℕ := 128

/-- The globals of `memfh_cbl` and the headers in memory, by address. A free slot is null. -/
structure Registry where
  nhdrs : ℤ
  hdrs : List (Option ℕ)
  start : Bool
  heap : ℕ → Option Hdr

/-- The globals of a process that starts. -/
def Registry.initial : Registry := ⟨0, List.replicate maxHdrs none, false, fun _ => none⟩

/-- The header at an address is exchanged. -/
def Registry.setHdr (reg : Registry) (address : ℕ) (hdr : Hdr) : Registry :=
  { reg with heap := Function.update reg.heap address (some hdr) }

def Registry.setStart (reg : Registry) (start : Bool) : Registry := { reg with start := start }

/-! ## OPEN -/

/-- The search for a file name in the slots. A slot must not hold the address of a header that is
gone. -/
def findName (heap : ℕ → Option Hdr) (filename : String) : List (Option ℕ) → Option (Option ℕ)
  | [] => some none
  | none :: rest => findName heap filename rest
  | some address :: rest =>
      match heap address with
      | none => none
      | some hdr => if hdr.filename = filename then some (some address)
          else findName heap filename rest

/-- An unsigned short assigned to a `short`. -/
def toShort (n : ℕ) : ℤ := if n < 2 ^ 15 then n else n - 2 ^ 16

/-- The components of key `k` in the key definition block. Their number and the place of their
definitions are shorts; what stands before the block is not known. -/
def kdbKey (kdb : ℕ → Byte) (k : ℕ) : Option (List (ℕ × ℕ)) :=
  let kda := 14 + k * 16
  if 2 ^ 15 ≤ getshort kdb kda then none
  else (List.range (getshort kdb kda)).mapM fun c : ℕ =>
    let cda := toShort (getshort kdb (kda + 2)) + c * 10
    if cda + 2 < 0 then none
    else some (getint kdb (cda + 2).toNat, getint kdb (cda + 6).toNat)

/-- The keys that OPEN OUTPUT makes of the key definition block: the alternate keys end with the
first component of key 0. -/
def kdbKeys (kdb : ℕ → Byte) : Option (List (List (ℕ × ℕ))) :=
  if 2 ^ 15 ≤ getshort kdb 6 then none
  else
    match (List.range (getshort kdb 6)).mapM (kdbKey kdb) with
    | none => none
    | some [] => none
    | some [primary] => some [primary]
    | some (primary :: alternates) =>
        primary.head?.map fun first => primary :: alternates.map fun comps => comps ++ [first]

/-- The loop that puts a header in the first free slot, when there is one. -/
def register (address : ℕ) : List (Option ℕ) → Option (List (Option ℕ))
  | [] => none
  | none :: rest => some (some address :: rest)
  | some other :: rest => (register address rest).map (some other :: ·)

/-- `memfh_cbl_open_output`, for the address that `malloc` gives the header. -/
def memfhCblOpenOutput (address : ℕ) (filename : String) (reg : Registry) (fcd : Fcd) :
    Option (Fcd × Registry) :=
  (kdbKeys fcd.kdb).map fun keys =>
    let reg := reg.setHdr address (memfhOpen filename fcd.record.length keys)
    let hdrs := if reg.nhdrs = 0 then List.replicate maxHdrs none else reg.hdrs
    ({ fcd with fileId := address, status := stOk, openMode := 2 },
      match register address hdrs with
      | none => { reg with hdrs := hdrs }
      | some hdrs => { reg with hdrs := hdrs, nhdrs := reg.nhdrs + 1 })

/-- `memfh_cbl_open_input`. -/
def memfhCblOpenInput (filename : String) (reg : Registry) (fcd : Fcd) : Option (Fcd × Registry) :=
  (findName reg.heap filename reg.hdrs).map fun found =>
    match found with
    | some address => ({ fcd with status := stOk, openMode := 0, fileId := address }, reg)
    | none => ({ fcd with status := stFileNotFound }, reg)

/-- `memfh_cbl_open_io`. -/
def memfhCblOpenIo (address : ℕ) (filename : String) (reg : Registry) (fcd : Fcd) :
    Option (Fcd × Registry) :=
  match findName reg.heap filename reg.hdrs with
  | none => none
  | some (some address) => some ({ fcd with status := stOk, openMode := 1, fileId := address }, reg)
  | some none => memfhCblOpenOutput address filename reg fcd

/-! ## WRITE and CLOSE -/

/-- `memfh_cbl_write`. -/
def memfhCblWrite (reg : Registry) (fcd : Fcd) : Option (Fcd × Registry) :=
  if fcd.openMode = 128 then some ({ fcd with status := stNotOpenedWrite }, reg)
  else if some fcd.fileId ∈ reg.hdrs then
    match reg.heap fcd.fileId with
    | none => none
    | some hdr => (memfhWrite hdr fcd.record).map fun hdr =>
        ({ fcd with status := stOk }, reg.setHdr fcd.fileId hdr)
  else some ({ fcd with status := stNotOpenedWrite }, reg)

/-- The loop that frees the first slot of a header, when there is one. -/
def unregister (address : ℕ) : List (Option ℕ) → Option (List (Option ℕ))
  | [] => none
  | slot :: rest =>
      if slot = some address then some (none :: rest) else (unregister address rest).map (slot :: ·)

/-- `memfh_cbl_close`. -/
def memfhCblClose (free : Bool) (reg : Registry) (fcd : Fcd) : Option (Fcd × Registry) :=
  if fcd.openMode = 128 then some ({ fcd with status := stAlreadyClosed }, reg)
  else if free = false then some ({ fcd with status := stOk, openMode := 128 }, reg)
  else
    match unregister fcd.fileId reg.hdrs with
    | none => some ({ fcd with status := stAlreadyClosed }, reg)
    | some hdrs => some ({ fcd with status := stOk, openMode := 128 },
        { reg with
          hdrs := hdrs
          nhdrs := reg.nhdrs - 1
          heap := Function.update reg.heap fcd.fileId none })

/-! ## READ, REWRITE, START and READ NEXT -/

/-- What the calls that use a position or a key do with the header that the fcd designates: the
answer is one status or another, and the record area changes. -/
def onHdr (found missing : Status) (op : Hdr → Option (Bool × Hdr × List Byte)) (reg : Registry)
    (fcd : Fcd) : Option (Bool × Fcd × Registry) :=
  match reg.heap fcd.fileId with
  | none => none
  | some hdr => (op hdr).map fun result =>
      (result.1, { fcd with
        status := if result.1 then found else missing
        record := result.2.2 }, reg.setHdr fcd.fileId result.2.1)

/-- `memfh_cbl_rewrite`. -/
def memfhCblRewrite (reg : Registry) (fcd : Fcd) : Option (Fcd × Registry) :=
  if fcd.openMode = 128 then some ({ fcd with status := stNotOpenedWrite }, reg)
  else (onHdr stOk stRecNotFound (fun hdr => memfhRead hdr fcd.record true) reg fcd).map Prod.snd

/-- `memfh_cbl_read`. -/
def memfhCblRead (reg : Registry) (fcd : Fcd) : Option (Fcd × Registry) :=
  if fcd.openMode = 128 then some ({ fcd with status := stNotOpenedRead }, reg)
  else (onHdr stOk stRecNotFound (fun hdr => memfhRead hdr fcd.record false) reg fcd).map Prod.snd

/-- `memfh_cbl_start`. A key that the file has not is outside its indexes. -/
def memfhCblStart (reg : Registry) (fcd : Fcd) : Option (Fcd × Registry) :=
  if fcd.openMode = 128 then some ({ fcd with status := stNotOpenedRead }, reg)
  else
    (onHdr stOk stEof (fun hdr =>
      if hdr.keys.length ≤ fcd.keyId then none else memfhStart hdr fcd.record fcd.keyId) reg
        fcd).map
        fun result => (result.2.1, if result.1 then result.2.2.setStart true else result.2.2)

/-- `memfh_cbl_next`. -/
def memfhCblNext (reg : Registry) (fcd : Fcd) : Option (Fcd × Registry) :=
  if fcd.openMode = 128 then some ({ fcd with status := stNotOpenedRead }, reg)
  else if reg.start then some ({ fcd with status := stOk }, reg.setStart false)
  else (onHdr stOk stEof (fun hdr => memfhNext hdr fcd.record fcd.keyId) reg fcd).map Prod.snd

/-! ## The dispatcher -/

/-- A call of the program. The files are worked on in the modes M and F; `free` tells F. -/
structure Call where
  free : Bool
  op : Opcode
  filename : String
  fcd : Fcd

/-- `memfh_cbl`, for the address that `malloc` gives a new header. -/
def memfhCbl (address : ℕ) (call : Call) (reg : Registry) : Option (Fcd × Registry) :=
  match call.op with
  | .openFile .input => memfhCblOpenInput call.filename reg call.fcd
  | .openFile .io => memfhCblOpenIo address call.filename reg call.fcd
  | .openFile .output => memfhCblOpenOutput address call.filename reg call.fcd
  | .write => memfhCblWrite reg call.fcd
  | .rewrite => memfhCblRewrite reg call.fcd
  | .readRandom => memfhCblRead reg call.fcd
  | .start .ge => memfhCblStart reg call.fcd
  | .readNext => memfhCblNext reg call.fcd
  | .close => memfhCblClose call.free reg call.fcd
  | _ => some (call.fcd, reg)

/-- A call with its answer. `malloc` gives an address that is not in use. -/
def memfhCblStep (reg : Registry) (call : Call) (answer : Fcd) (reg' : Registry) : Prop :=
  ∃ address, reg.heap address = none ∧ memfhCbl address call reg = some (answer, reg')

/-! ## Calls one after the other -/

/-- What a call makes of the globals. -/
def made (address : ℕ) (call : Call) (reg : Registry) : Fcd × Registry :=
  (memfhCbl address call reg).getD (call.fcd, reg)

theorem made_step {address : ℕ} {call : Call} {reg : Registry} (unused : (reg.heap address).isNone)
    (returns : (memfhCbl address call reg).isSome) :
    memfhCblStep reg call (made address call reg).1 (made address call reg).2 := by
  obtain ⟨outcome, called⟩ := Option.isSome_iff_exists.mp returns
  exact ⟨address, Option.isNone_iff_eq_none.mp unused, by rw [made, called]; rfl⟩

/-- Calls, each with the address that `malloc` would give. -/
def memfhCblAll :
    List (ℕ × Call) → List (Call × Fcd) × Registry → Option (List (Call × Fcd) × Registry)
  | [], result => some result
  | (address, call) :: calls, (trace, reg) =>
      if (reg.heap address).isSome then none
      else (memfhCbl address call reg).bind fun outcome =>
        memfhCblAll calls ((call, outcome.1) :: trace, outcome.2)

theorem memfhCblAll_run {initial : Registry} :
    ∀ (calls : List (ℕ × Call)) {trace trace' : List (Call × Fcd)} {reg reg' : Registry},
      Interleave.Run memfhCblStep Interleave.always initial trace reg →
      memfhCblAll calls (trace, reg) = some (trace', reg') →
      Interleave.Run memfhCblStep Interleave.always initial trace' reg' ∧
        trace'.map Prod.fst = (calls.map Prod.snd).reverse ++ trace.map Prod.fst := by
  intro calls
  induction calls with
  | nil =>
      intro trace trace' reg reg' run all
      cases all
      exact ⟨run, rfl⟩
  | cons first calls ih =>
      intro trace trace' reg reg' run all
      obtain ⟨address, call⟩ := first
      simp only [memfhCblAll] at all
      split at all
      · cases all
      · rename_i unused
        obtain ⟨outcome, called, rest⟩ := Option.bind_eq_some_iff.mp all
        have stepped : memfhCblStep reg call outcome.1 outcome.2 :=
          ⟨address, Option.not_isSome_iff_eq_none.mp unused, called⟩
        obtain ⟨run', calls'⟩ := ih (.called run trivial stepped) rest
        exact ⟨run', by rw [calls']; simp⟩

end Pqfh.Memfh
