import Pqfh.Core.Bytes
import Mathlib.Data.List.Nodup

/-! # Whether a table is converted

`tabela_convertida` looks for a table in the control file `pg01a01`: it puts the name of the
table before a record of zeros, positions on the first key that is not below it and reads a
record. Of the name of that record it compares as many bytes as the name asked for has, so
that it answers for the first record whose name begins so
(`Pqfh.ControlFile.tabelaConvertida_eq_true_iff`), which may be a record of another table
(`Pqfh.ControlFile.tabelaConvertida_exact_iff`).
-/

namespace Pqfh

/-- The records of `pg01a01` in the order of key 0: the name of the table in 20 bytes and the
series in 6. -/
structure ControlFile where
  records : List (List Byte)
  length : ∀ record ∈ records, record.length = 256
  /-- Key 0 has no duplicates. -/
  ordered : (records.map (List.take 26)).Pairwise (· < ·)

namespace ControlFile

/-- START with the condition `>=` on key 0 and the READ NEXT after it. -/
def startGe (file : ControlFile) (key : List Byte) : Option (List Byte) :=
  file.records.find? fun record => key ≤ record.take 26

/-- `pg0101convertida`, the byte after the key. -/
def flag (record : List Byte) : Option Byte := record[26]?

def tabelaConvertida (file : ControlFile) (tabela : List Byte) : Bool :=
  let area := tabela ++ List.replicate (256 - tabela.length) 0
  match file.startGe (area.take 26) with
  -- The status of READ NEXT is not 00.
  | none => false
  | some record => record.take tabela.length == tabela && flag record == some 83

/-- A record of a table: its name is filled up with blanks. -/
def Named (tabela record : List Byte) : Prop :=
  record.take 20 = tabela ++ List.replicate (20 - tabela.length) 32

instance (tabela record : List Byte) : Decidable (Named tabela record) :=
  inferInstanceAs (Decidable (_ = _))

def serie (record : List Byte) : List Byte := slice record 20 6

/-- The table has a record, and the one with the lowest series has the flag S. -/
def Converted (file : ControlFile) (tabela : List Byte) : Prop :=
  ∃ record ∈ file.records, Named tabela record ∧
    (∀ other ∈ file.records, Named tabela other → serie record ≤ serie other) ∧
    flag record = some 83

/-- The first record whose name begins with a text. -/
structure Leads (file : ControlFile) (tabela record : List Byte) : Prop where
  mem : record ∈ file.records
  begins : record.take tabela.length = tabela
  least : ∀ other ∈ file.records, other.take tabela.length = tabela →
    record.take 26 ≤ other.take 26

/-- The first 26 bytes identify a record. -/
theorem eq_of_key_eq {file : ControlFile} {record other : List Byte} (mem : record ∈ file.records)
    (mem' : other ∈ file.records) (same : record.take 26 = other.take 26) : record = other :=
  List.inj_on_of_nodup_map (file.ordered.imp fun less => less.ne) mem mem' same

/-- One record leads a prefix. -/
theorem Leads.unique {file : ControlFile} {tabela record other : List Byte}
    (leads : file.Leads tabela record) (leads' : file.Leads tabela other) : record = other :=
  eq_of_key_eq leads.mem leads'.mem
    (le_antisymm (leads.least other leads'.mem leads'.begins)
      (leads'.least record leads.mem leads.begins))

/-- START finds the first record from the key on. -/
theorem startGe_eq_some {file : ControlFile} {key record : List Byte}
    (found : file.startGe key = some record) :
    record ∈ file.records ∧ key ≤ record.take 26 ∧
      ∀ other ∈ file.records, key ≤ other.take 26 → record.take 26 ≤ other.take 26 := by
  obtain ⟨above, before, after, shape, below⟩ := List.find?_eq_some_iff_append.mp found
  refine ⟨List.mem_of_find?_eq_some found, of_decide_eq_true above, ?_⟩
  intro other mem notBelow
  rw [shape] at mem
  rcases List.mem_append.mp mem with early | late
  · have skipped := below other early
    rw [decide_eq_true notBelow] at skipped
    cases skipped
  · rcases List.mem_cons.mp late with rfl | late
    · exact le_rfl
    · have ordered := file.ordered
      rw [shape, List.map_append, List.map_cons] at ordered
      have tail := (List.pairwise_append.mp ordered).2.1
      exact ((List.pairwise_cons.mp tail).1 _ (List.mem_map_of_mem late)).le

/-- START finds a record when there is one from the key on. -/
theorem startGe_isSome {file : ControlFile} {key record : List Byte} (mem : record ∈ file.records)
    (above : key ≤ record.take 26) : ∃ first, file.startGe key = some first :=
  Option.isSome_iff_exists.mp (List.find?_isSome.mpr ⟨record, mem, decide_eq_true above⟩)

/-- The key that `tabela_convertida` looks for. -/
theorem area_key {tabela : List Byte} (size : tabela.length ≤ 20) :
    (tabela ++ List.replicate (256 - tabela.length) (0 : Byte)).take 26 =
      tabela ++ List.replicate (26 - tabela.length) 0 := by
  rw [List.take_append, List.take_of_length_le (by omega), List.take_replicate]
  congr 2
  omega

/-- The name of a table is inside the key. -/
theorem take_key {tabela record : List Byte} (size : tabela.length ≤ 20) :
    (record.take 26).take tabela.length = record.take tabela.length := by
  rw [List.take_take, min_eq_left (by omega)]

/-- No record that begins with a name has a key below the one looked for. -/
theorem area_le {tabela record : List Byte} (size : tabela.length ≤ 20)
    (length : record.length = 256) (begins : record.take tabela.length = tabela) :
    tabela ++ List.replicate (26 - tabela.length) 0 ≤ record.take 26 := by
  have split : record.take 26 = tabela ++ (record.take 26).drop tabela.length := by
    conv_lhs => rw [← List.take_append_drop tabela.length (record.take 26), take_key size, begins]
  have rest : ((record.take 26).drop tabela.length).length = 26 - tabela.length := by
    rw [List.length_drop, List.length_take, length, min_eq_left (by omega)]
  rw [split, ← rest]
  exact append_le_append tabela (replicate_zero_le _)

/-- What lies between the key looked for and a record that begins with the name begins with the
name too. -/
theorem begins_of_between {tabela record other : List Byte} (size : tabela.length ≤ 20)
    (above : tabela ++ List.replicate (26 - tabela.length) 0 ≤ record.take 26)
    (below : record.take 26 ≤ other.take 26) (begins : other.take tabela.length = tabela) :
    record.take tabela.length = tabela := by
  have lower := take_le_take above tabela.length
  have upper := take_le_take below tabela.length
  rw [List.take_left, take_key size] at lower
  rw [take_key size, take_key size, begins] at upper
  exact le_antisymm upper lower

/-- START with a name finds the record that leads it. -/
theorem startGe_eq_iff {file : ControlFile} {tabela record : List Byte}
    (size : tabela.length ≤ 20) :
    file.startGe (tabela ++ List.replicate (26 - tabela.length) 0) = some record ∧
      record.take tabela.length = tabela ↔ file.Leads tabela record := by
  constructor
  · rintro ⟨found, begins⟩
    obtain ⟨mem, -, first⟩ := startGe_eq_some found
    refine ⟨mem, begins, ?_⟩
    intro other mem' begins'
    exact first other mem' (area_le size (file.length other mem') begins')
  · intro leads
    have above := area_le size (file.length record leads.mem) leads.begins
    obtain ⟨other, found⟩ := startGe_isSome leads.mem above
    obtain ⟨mem, above', first⟩ := startGe_eq_some found
    have below := first record leads.mem above
    have begins := begins_of_between size above' below leads.begins
    have same := le_antisymm below (leads.least other mem begins)
    rw [found, eq_of_key_eq mem leads.mem same]
    exact ⟨rfl, leads.begins⟩

/-- `tabela_convertida` answers with the flag of the first record that begins with the name. -/
theorem tabelaConvertida_eq_true_iff {file : ControlFile} {tabela : List Byte}
    (size : tabela.length ≤ 20) :
    file.tabelaConvertida tabela = true ↔
      ∃ record, file.Leads tabela record ∧ flag record = some 83 := by
  unfold tabelaConvertida
  dsimp only
  rw [area_key size]
  constructor
  · intro answer
    cases found : file.startGe (tabela ++ List.replicate (26 - tabela.length) 0) with
    | none =>
        rw [found] at answer
        cases answer
    | some record =>
        rw [found] at answer
        obtain ⟨begins, flagged⟩ := Bool.and_eq_true_iff.mp answer
        exact ⟨record, (startGe_eq_iff size).mp ⟨found, eq_of_beq begins⟩, eq_of_beq flagged⟩
  · rintro ⟨record, leads, flagged⟩
    obtain ⟨found, begins⟩ := (startGe_eq_iff size).mpr leads
    rw [found]
    exact Bool.and_eq_true_iff.mpr ⟨beq_iff_eq.mpr begins, beq_iff_eq.mpr flagged⟩

/-- The answer is the flag of the record that leads. -/
theorem Leads.flag_iff {file : ControlFile} {tabela record : List Byte}
    (size : tabela.length ≤ 20) (leads : file.Leads tabela record) :
    file.tabelaConvertida tabela = true ↔ flag record = some 83 := by
  rw [tabelaConvertida_eq_true_iff size]
  constructor
  · rintro ⟨other, leads', flagged⟩
    rw [leads.unique leads']
    exact flagged
  · intro flagged
    exact ⟨record, leads, flagged⟩

/-- A prefix that some record begins with is led by one. -/
theorem exists_leads {file : ControlFile} {tabela record : List Byte} (size : tabela.length ≤ 20)
    (mem : record ∈ file.records) (begins : record.take tabela.length = tabela) :
    ∃ first, file.Leads tabela first := by
  have above := area_le size (file.length record mem) begins
  obtain ⟨first, found⟩ := startGe_isSome mem above
  obtain ⟨mem', above', least⟩ := startGe_eq_some found
  have begins' := begins_of_between size above' (least record mem above) begins
  exact ⟨first, (startGe_eq_iff size).mp ⟨found, begins'⟩⟩

/-- A record of a table begins with its name. -/
theorem Named.begins {tabela record : List Byte} (size : tabela.length ≤ 20)
    (named : Named tabela record) : record.take tabela.length = tabela := by
  calc record.take tabela.length = (record.take 20).take tabela.length := by
        rw [List.take_take, min_eq_left size]
    _ = tabela := by
        rw [named]
        exact List.take_left

/-- The key of a record is the name with blanks, and the series. -/
theorem Named.key {tabela record : List Byte} (named : Named tabela record) :
    record.take 26 = tabela ++ List.replicate (20 - tabela.length) 32 ++ serie record := by
  have cut : record.take (20 + 6) = record.take 20 ++ (record.drop 20).take 6 := List.take_add
  rw [← named]
  exact cut

/-- Among the records of one table the order of the keys is that of the series. -/
theorem Named.key_le_iff {tabela record other : List Byte} (named : Named tabela record)
    (named' : Named tabela other) :
    record.take 26 ≤ other.take 26 ↔ serie record ≤ serie other := by
  rw [named.key, named'.key]
  constructor
  · intro less
    rcases le_total (serie record) (serie other) with ordered | turned
    · exact ordered
    · exact (List.append_cancel_left (le_antisymm less (append_le_append _ turned))).le
  · exact append_le_append _

/-- The answer is right exactly when the record that leads has the right flag. -/
theorem Named.converted_iff {file : ControlFile} {tabela record : List Byte}
    (size : tabela.length ≤ 20) (named : Named tabela record) (leads : file.Leads tabela record) :
    file.Converted tabela ↔ flag record = some 83 := by
  constructor
  · rintro ⟨own, mem, named', lowest, flagged⟩
    have below := (named'.key_le_iff named).mpr (lowest record leads.mem named)
    have above := leads.least own mem (named'.begins size)
    rw [eq_of_key_eq leads.mem mem (le_antisymm above below)]
    exact flagged
  · intro flagged
    refine ⟨record, leads.mem, named, ?_, flagged⟩
    intro other mem named'
    exact (named.key_le_iff named').mp (leads.least other mem (named'.begins size))

/-- A record of another table whose name begins with the name, and which comes before the
records of the table, has by chance the flag that the table has. -/
def ByChance (file : ControlFile) (tabela : List Byte) : Prop :=
  ∀ record, file.Leads tabela record → ¬ Named tabela record →
    (flag record = some 83 ↔ file.Converted tabela)

/-- The answer is that of the table if and only if no record of another table leads it, or one
does and has the flag of the table. -/
theorem tabelaConvertida_exact_iff (file : ControlFile) {tabela : List Byte}
    (size : tabela.length ≤ 20) :
    (file.tabelaConvertida tabela = true ↔ file.Converted tabela) ↔ file.ByChance tabela := by
  constructor
  · intro exact record leads _
    rw [← exact, leads.flag_iff size]
  · intro chance
    by_cases led : ∃ record, file.Leads tabela record
    · obtain ⟨record, leads⟩ := led
      rw [leads.flag_iff size]
      by_cases named : Named tabela record
      · exact (named.converted_iff size leads).symm
      · exact chance record leads named
    · rw [tabelaConvertida_eq_true_iff size]
      constructor
      · rintro ⟨record, leads, -⟩
        exact absurd ⟨record, leads⟩ led
      · rintro ⟨record, mem, named, -⟩
        exact absurd (exists_leads size mem (named.begins size)) led

/-- A name without bytes below the blank. -/
def Printable (record : List Byte) : Prop := ∀ byte ∈ record.take 20, 32 ≤ byte

instance (record : List Byte) : Decidable (Printable record) :=
  inferInstanceAs (Decidable (∀ byte ∈ record.take 20, 32 ≤ byte))

/-- The record that leads is one of the table when the table has a record. -/
theorem Leads.named {file : ControlFile} {tabela record own : List Byte}
    (size : tabela.length ≤ 20) (leads : file.Leads tabela record) (printable : Printable record)
    (mem : own ∈ file.records) (named : Named tabela own) : Named tabela record := by
  have first : record.take 20 ≤ own.take 20 := by
    have less := take_le_take (leads.least own mem (named.begins size)) 20
    rwa [List.take_take, List.take_take] at less
  have split : record.take 20 = tabela ++ (record.take 20).drop tabela.length := by
    conv_lhs => rw [← List.take_append_drop tabela.length (record.take 20), List.take_take,
      min_eq_left size, leads.begins]
  have rest : ((record.take 20).drop tabela.length).length = 20 - tabela.length := by
    rw [List.length_drop, List.length_take, file.length record leads.mem]
    rfl
  have blanks : tabela ++ List.replicate (20 - tabela.length) 32 ≤ record.take 20 := by
    rw [split, ← rest]
    exact append_le_append tabela
      (replicate_le fun byte inside => printable byte (List.mem_of_mem_drop inside))
  rw [named] at first
  exact le_antisymm first blanks

/-- Where no name has a byte below the blank, the answer is wrong only for a table that is not
in the file, when another table begins with its name and has the flag. -/
theorem byChance_iff_of_printable {file : ControlFile} {tabela : List Byte}
    (size : tabela.length ≤ 20) (printable : ∀ record ∈ file.records, Printable record) :
    file.ByChance tabela ↔ (∃ record ∈ file.records, Named tabela record) ∨
      ∀ record, file.Leads tabela record → flag record ≠ some 83 := by
  constructor
  · intro chance
    by_cases listed : ∃ record ∈ file.records, Named tabela record
    · exact .inl listed
    · refine .inr fun record leads flagged => ?_
      have other : ¬ Named tabela record := fun named => listed ⟨record, leads.mem, named⟩
      obtain ⟨own, mem, named, -⟩ := (chance record leads other).mp flagged
      exact listed ⟨own, mem, named⟩
  · rintro (⟨own, mem, named⟩ | unflagged) record leads other
    · exact absurd (leads.named size (printable record leads.mem) mem named) other
    · constructor
      · intro flagged
        exact absurd flagged (unflagged record leads)
      · rintro ⟨own, mem, named, -⟩
        exact absurd (leads.named size (printable record leads.mem) mem named) other

/-- A control file with one record, of the table CLIENTES, which is converted. -/
def clientes : ControlFile where
  records := [ascii "CLIENTES            000001S" ++ List.replicate 229 32]
  length record mem := by
    rw [List.mem_singleton.mp mem, List.length_append, List.length_replicate]
    rfl
  ordered := List.pairwise_singleton _ _

/-- A control file with four records: the table CLI is not converted, CLIENTES is from its first
series on, and CLIENTES2 is not. -/
def tabelas : ControlFile where
  records := [ascii "CLI                 000001N" ++ List.replicate 229 32,
    ascii "CLIENTES            000001S" ++ List.replicate 229 32,
    ascii "CLIENTES            000002N" ++ List.replicate 229 32,
    ascii "CLIENTES2           000001N" ++ List.replicate 229 32]
  length record mem := by
    simp only [List.mem_cons, List.not_mem_nil, or_false] at mem
    rcases mem with rfl | rfl | rfl | rfl <;> rw [List.length_append, List.length_replicate] <;> rfl
  ordered := by decide +kernel

/-- The answers are right for three tables of which each has the beginning of the next one's
name. -/
theorem tabelas_converted :
    (tabelas.tabelaConvertida (ascii "CLI") = true ↔ tabelas.Converted (ascii "CLI")) ∧
      (tabelas.tabelaConvertida (ascii "CLIENTES") = true ↔
        tabelas.Converted (ascii "CLIENTES")) ∧
      (tabelas.tabelaConvertida (ascii "CLIENTES2") = true ↔
        tabelas.Converted (ascii "CLIENTES2")) ∧
      tabelas.tabelaConvertida (ascii "CLI") = false ∧
      tabelas.tabelaConvertida (ascii "CLIENTES") = true := by
  have printable : ∀ record ∈ tabelas.records, Printable record := by decide +kernel
  have listed {tabela : List Byte} (size : tabela.length ≤ 20)
      (own : ∃ record ∈ tabelas.records, Named tabela record) : tabelas.ByChance tabela :=
    (byChance_iff_of_printable size printable).mpr (.inl own)
  refine ⟨?_, ?_, ?_, by decide +kernel, by decide +kernel⟩
  · exact (tabelaConvertida_exact_iff tabelas (by decide)).mpr
      (listed (by decide) (by decide +kernel))
  · exact (tabelaConvertida_exact_iff tabelas (by decide)).mpr
      (listed (by decide) (by decide +kernel))
  · exact (tabelaConvertida_exact_iff tabelas (by decide)).mpr
      (listed (by decide) (by decide +kernel))

/-- The table CLI is not in the file, and `tabela_convertida` says that it is converted. -/
theorem prefix_not_exact :
    ¬ (clientes.tabelaConvertida (ascii "CLI") = true ↔ clientes.Converted (ascii "CLI")) := by
  intro exact
  have answer : clientes.tabelaConvertida (ascii "CLI") = true := by decide
  obtain ⟨record, mem, named, -⟩ := exact.mp answer
  rw [List.mem_singleton.mp mem] at named
  exact absurd named (by decide)

end ControlFile

end Pqfh
