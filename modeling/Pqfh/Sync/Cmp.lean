import Pqfh.Foundation.Align
import Pqfh.Handler.Dispatch

/-! # CMP and SYNC

`cmp_table` walks the table opened last and its ISAM file together, in the order of key 0, and
logs the records in which they differ. SYNC is the same walk with the database brought into
line: the walk shares one fcd with the operations that do so, and puts its record area and
status back by hand. `cmp_isam` walks two ISAM files.

What the walk does at each record is `Align.align` (`Pqfh.cmpLoop_align`).
-/

namespace Pqfh

open Align

/-! ## Comparing records -/

/-- `memcmp` of buffers of one length, by its sign. -/
def memcmp (first second : List Byte) : Ordering :=
  if first = second then .eq else if first < second then .lt else .gt

theorem memcmp_eq_iff {first second : List Byte} : memcmp first second = .eq ↔ first = second := by
  unfold memcmp
  split
  · simp_all
  · split <;> simp_all

/-- What `reccmp` takes a byte of the ISAM record for when a column differs. -/
def isamByte (tp : ColumnType) (byte : Byte) : Byte :=
  match tp with
  | .character => if byte = 0 then 32 else byte
  | .numeric => if byte = 0 ∨ byte = 32 then 48 else byte

/-- The comparison of one column in `reccmp`. -/
def colcmp (col : Column) (recbd recisam : List Byte) : Ordering :=
  let bd := slice recbd col.offset col.len
  let isam := slice recisam col.offset col.len
  if memcmp isam bd = .eq then .eq else memcmp (isam.map (isamByte col.tp)) bd

/-- `reccmp`. -/
def reccmp (recbd recisam : List Byte) : List Column → Ordering
  | [] => .eq
  | col :: cols =>
      if colcmp col recbd recisam ≠ .eq then colcmp col recbd recisam else reccmp recbd recisam cols

/-! ## The key of the walk -/

/-- The places of key 0 as `cmp_table` and `cmp_isam` read them, offset and length. -/
def keyPlaces (kdb : ℕ → Byte) : List (ℤ × ℤ) :=
  (List.range (getshort kdb 14)).map fun c =>
    let cda := getshort kdb 16 + c * 10
    (toInt (getint kdb (cda + 2)), toInt (getint kdb (cda + 6)))

/-- The places when they lie in a record and the key has room in its buffer. -/
def checkedPlaces (kdb : ℕ → Byte) (reclen : ℕ) : Except Stop (List (ℕ × ℕ)) :=
  let places := keyPlaces kdb
  if places.length ≤ maxComps ∧ (∀ place ∈ places, 0 ≤ place.1 ∧ 0 ≤ place.2 ∧
      place.1 + place.2 ≤ reclen) ∧ (places.map Prod.snd).sum ≤ 256 then
    .ok (places.map fun place => (place.1.toNat, place.2.toNat))
  else .error .undefined

/-- The key of a record. -/
def keyAt (places : List (ℕ × ℕ)) (record : List Byte) : List Byte :=
  places.flatMap fun place => slice record place.1 place.2

/-! ## The log -/

/-- What is logged: a record of one side, or two records with one key. -/
inductive CmpEntry where
  | onlyBd (record : List Byte)
  | onlyIsam (record : List Byte)
  | differ (bd isam : List Byte)
  deriving Repr, DecidableEq

/-! ## cmp_table -/

/-- The operations that bring the database into line. -/
structure Updates where
  write : State → Except Stop State
  rewrite : State → Except Stop State
  delete : State → Except Stop State

/-- The operations of the handler. -/
def Updates.handler (env : Env) : Updates where
  write := opWrite env
  rewrite := fun st => Prod.snd <$> opRewrite env st
  delete := opDelete env

variable {σ : Type}

/-- The variables of `cmp_table`: the table with `fcd_bd`, the ISAM files with `fcd_isam`, the
status `st` kept from the last read, and the log. -/
structure Cmp (σ : Type) where
  st : State
  files : σ
  isam : Fcd
  saved : Status
  log : List CmpEntry

def Cmp.note (c : Cmp σ) (entry : CmpEntry) : Cmp σ := { c with log := c.log ++ [entry] }

/-- READ NEXT of the database. -/
def Cmp.nextBd (stack : ℕ → Byte) (c : Cmp σ) : Except Stop (Cmp σ) := do
  let st ← opNextPrev stack .n c.st
  return { c with st := st, saved := st.fcd.status }

/-- READ NEXT of the ISAM file. -/
def Cmp.nextIsam (extfh : Extfh σ) (c : Cmp σ) : Cmp σ :=
  { c with
    files := (extfh .readNext c.files c.isam).1
    isam := (extfh .readNext c.files c.isam).2 }

/-- An operation with the ISAM record in the record area, which is put back after it. -/
def Cmp.borrow (op : State → Except Stop State) (sync : Bool) (c : Cmp σ) :
    Except Stop (Cmp σ) :=
  if sync then do
    let st ← op (c.st.setRecord c.isam.record)
    return { c with st := (st.setStatus c.saved).setRecord c.st.fcd.record }
  else .ok c

/-- The DELETE, after which the record area is not put back. -/
def Cmp.remove (op : State → Except Stop State) (sync : Bool) (c : Cmp σ) :
    Except Stop (Cmp σ) :=
  if sync then do
    let st ← op c.st
    return { c with st := st.setStatus c.saved }
  else .ok c

/-- What is done about two records with one key. -/
def Cmp.settle (ops : Updates) (sync : Bool) (c : Cmp σ) : Except Stop (Cmp σ) :=
  if reccmp c.st.fcd.record c.isam.record c.st.tab.columns ≠ .eq then
    (c.note (.differ c.st.fcd.record c.isam.record)).borrow ops.rewrite sync
  else .ok c

/-- Both files are at records with one key. -/
def Cmp.sameKey (extfh : Extfh σ) (ops : Updates) (stack : ℕ → Byte) (sync : Bool) (c : Cmp σ) :
    Except Stop (Cmp σ) := do
  let c ← c.settle ops sync
  let c ← c.nextBd stack
  return c.nextIsam extfh

/-- The record is in the ISAM file only. -/
def Cmp.missing (extfh : Extfh σ) (ops : Updates) (sync : Bool) (c : Cmp σ) :
    Except Stop (Cmp σ) := do
  let c ← (c.note (.onlyIsam c.isam.record)).borrow ops.write sync
  return c.nextIsam extfh

/-- The record is in the database only. -/
def Cmp.extra (ops : Updates) (stack : ℕ → Byte) (sync : Bool) (c : Cmp σ) :
    Except Stop (Cmp σ) := do
  let c ← (c.note (.onlyBd c.st.fcd.record)).remove ops.delete sync
  c.nextBd stack

/-- The body of the loop of `cmp_table`. -/
def cmpStep (extfh : Extfh σ) (ops : Updates) (stack : ℕ → Byte) (places : List (ℕ × ℕ))
    (sync : Bool) (c : Cmp σ) : Except Stop (Cmp σ) :=
  if c.st.fcd.status = stOk then
    if c.isam.status = stOk then
      match memcmp (keyAt places c.st.fcd.record) (keyAt places c.isam.record) with
      | .eq => c.sameKey extfh ops stack sync
      | .gt => c.missing extfh ops sync
      | .lt => c.extra ops stack sync
    else c.extra ops stack sync
  else c.missing extfh ops sync

/-- The loop of `cmp_table`. The fuel is spent when the loop does not come to an end. -/
def cmpLoop (extfh : Extfh σ) (ops : Updates) (scratch : ℕ → ℕ → Byte) (places : List (ℕ × ℕ))
    (sync : Bool) : ℕ → Cmp σ → Except Stop (Cmp σ)
  | 0, _ => .error .undefined
  | fuel + 1, c =>
      if c.st.fcd.status = stOk ∨ c.isam.status = stOk then do
        let c ← cmpStep extfh ops (scratch fuel) places sync c
        cmpLoop extfh ops scratch places sync fuel c
      else .ok c

/-- The fcd of the ISAM file, a copy of that of the table. -/
def isamFcd (fcd : Fcd) (area : List Byte) : Fcd := { fcd with openMode := 128, record := area }

/-- `cmp_table` on the table opened last. It does nothing for a file marked `isam`. `weak` is
set when the table is accessed as a weak entity; `area` is what stands in the record area for
the ISAM file. -/
def cmpTable (extfh : Extfh σ) (env : Env) (ops : Updates) (weak : Bool) (garbage : Garbage)
    (scratch : ℕ → ℕ → Byte) (sync : Bool) (area : List Byte) (fuel : ℕ) (files : σ) (st : State) :
    Except Stop (Option (Cmp σ)) :=
  if st.fcd.isam then .ok none
  else do
    let blank := List.replicate st.fcd.record.length 0
    let (files, isam) := extfh (.openFile .input) files (isamFcd st.fcd area)
    let places ← checkedPlaces st.fcd.kdb st.fcd.record.length
    let st ← opStart env weak garbage.stack garbage.inner .ge (st.setRecord blank)
    let (files, isam) := extfh (.start .gt) files { isam with record := blank }
    let st ← opNextPrev garbage.stack .n st
    let (files, isam) := extfh .readNext files isam
    some <$> cmpLoop extfh ops scratch places sync fuel ⟨st, files, isam, st.fcd.status, []⟩

/-! ## cmp_isam -/

/-- The variables of `cmp_isam`. -/
structure CmpIsam (σ : Type) where
  files : σ
  fcd1 : Fcd
  fcd2 : Fcd
  log : List CmpEntry

def CmpIsam.note (c : CmpIsam σ) (entry : CmpEntry) : CmpIsam σ :=
  { c with log := c.log ++ [entry] }

/-- READ NEXT of the first file. -/
def CmpIsam.next1 (extfh : Extfh σ) (c : CmpIsam σ) : CmpIsam σ :=
  { c with
    files := (extfh .readNext c.files c.fcd1).1
    fcd1 := (extfh .readNext c.files c.fcd1).2 }

/-- READ NEXT of the second file. -/
def CmpIsam.next2 (extfh : Extfh σ) (c : CmpIsam σ) : CmpIsam σ :=
  { c with
    files := (extfh .readNext c.files c.fcd2).1
    fcd2 := (extfh .readNext c.files c.fcd2).2 }

/-- The body of the loop of `cmp_isam`. -/
def cmpIsamStep (extfh : Extfh σ) (places : List (ℕ × ℕ)) (c : CmpIsam σ) : CmpIsam σ :=
  if c.fcd1.status = stOk then
    if c.fcd2.status = stOk then
      match memcmp (keyAt places c.fcd1.record) (keyAt places c.fcd2.record) with
      | .eq =>
          let c := if memcmp c.fcd1.record c.fcd2.record ≠ .eq then
            c.note (.differ c.fcd1.record c.fcd2.record) else c
          (c.next1 extfh).next2 extfh
      | .gt => (c.note (.onlyIsam c.fcd2.record)).next2 extfh
      | .lt => (c.note (.onlyBd c.fcd1.record)).next1 extfh
    else (c.note (.onlyBd c.fcd1.record)).next1 extfh
  else (c.note (.onlyIsam c.fcd2.record)).next2 extfh

/-- The loop of `cmp_isam`. -/
def cmpIsamLoop (extfh : Extfh σ) (places : List (ℕ × ℕ)) : ℕ → CmpIsam σ → Except Stop (CmpIsam σ)
  | 0, _ => .error .undefined
  | fuel + 1, c =>
      if c.fcd1.status = stOk ∨ c.fcd2.status = stOk then
        cmpIsamLoop extfh places fuel (cmpIsamStep extfh places c)
      else .ok c

/-- `cmp_isam` on the file opened last and a second one. It does nothing for a file that is
kept in the database. -/
def cmpIsam (extfh : Extfh σ) (env : Env) (area1 area2 : List Byte) (fuel : ℕ) (files : σ)
    (fcd : Fcd)
    (filename2 : List Byte) : Except Stop (Option (CmpIsam σ)) :=
  if !fcd.isam && env.mode ≠ .I then .ok none
  else do
    let blank := List.replicate fcd.record.length 0
    let fcd1 := { fcd with ignoreLock := true, record := area1 }
    let fcd2 := { fcd with
      openMode := 128
      ignoreLock := true
      fileName := filename2
      record := area2 }
    let (files, fcd2) := extfh (.openFile .input) files fcd2
    let places ← checkedPlaces fcd.kdb fcd.record.length
    let (files, fcd1) := extfh (.start .gt) files { fcd1 with record := blank }
    let (files, fcd2) := extfh (.start .gt) files { fcd2 with record := blank }
    let (files, fcd1) := extfh .readNext files fcd1
    let (files, fcd2) := extfh .readNext files fcd2
    some <$> cmpIsamLoop extfh places fuel ⟨files, fcd1, fcd2, []⟩

end Pqfh
