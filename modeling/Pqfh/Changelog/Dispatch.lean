import Pqfh.Changelog.Sync
import Pqfh.Handler.RoundTrip

/-! # Where the entries of the changelog go

`sync_add_table` leaves both lists at the node it has just put there. `sync_execute` rewinds
`sync_tables` but not `sync_fcds`, and walks both together from where they stand: it sees the
file registered last only, and takes the table registered first for it (`Pqfh.Standing`).
-/

namespace Pqfh

open Linked

/-! ## The lists -/

/-- The lists as `sync_execute` walks them: every table, and the file registered last. -/
structure Standing (files : List (Fcd × Table)) (reg : Registry) : Prop where
  tables : onward reg.tables = files.map Prod.snd
  fcds :
    (onward reg.fcds).map Fcd.fileName = (files.getLast?.map fun file => file.1.fileName).toList

/-- A file that is registered last stands at the end of both lists. -/
theorem registered_concat (files : List (Fcd × Table)) (file : Fcd × Table) :
    registered (files ++ [file]) = ⟨append (registered files).fcds file.1,
      append (registered files).tables file.2⟩ := by
  unfold registered
  rw [List.foldl_append]
  rfl

/-- The tables stand in the order of registration. -/
theorem nodes_registered (files : List (Fcd × Table)) :
    nodes (registered files).tables = files.map Prod.snd := by
  induction files using List.reverseRecOn with
  | nil => rfl
  | append_singleton files file ih =>
      rw [registered_concat, nodes_append, ih, List.map_append]
      rfl

/-- The lists that were rewound stand on the files. -/
theorem registered_standing (files : List (Fcd × Table)) :
    Standing files (registered files).rewound := by
  refine ⟨(onward_first _).trans (nodes_registered files), ?_⟩
  rcases List.eq_nil_or_concat files with rfl | ⟨front, file, rfl⟩
  · rfl
  · rw [List.concat_eq_append, List.getLast?_concat]
    change (onward (registered (front ++ [file])).fcds).map Fcd.fileName = _
    rw [registered_concat, onward_append]
    rfl

/-! ## Passes keep the lists -/

/-- A file that is found stands at its place of the list. -/
theorem findFile_onward {tabname : List Byte} :
    ∀ {fcds : List Fcd} {tabs : List Table} {i j : ℕ} {fcd : Fcd} {tab : Table},
      findFile tabname i fcds tabs = .ok (some (j, fcd, tab)) →
      i ≤ j ∧ fcds[j - i]? = some fcd := by
  intro fcds
  induction fcds with
  | nil => intro tabs i j fcd tab found; cases found
  | cons first fcds ih =>
      intro tabs i j fcd tab found
      cases tabs with
      | nil => cases found
      | cons other tabs =>
          unfold findFile at found
          split at found
          · cases found
            exact ⟨le_rfl, by rw [Nat.sub_self]; rfl⟩
          · obtain ⟨further, place⟩ := ih found
            refine ⟨by omega, ?_⟩
            have shifted : j - i = (j - (i + 1)) + 1 := by omega
            rw [shifted, List.getElem?_cons_succ]
            exact place

section Run

variable {σ : Type} {extfh : Extfh σ} {refuses : List Byte → Bool}

/-- An entry is executed on a file that was found, or not at all. -/
theorem Sync.entry_cases {s s' : Sync σ} {entry : Entry} {applied : Option Applied}
    (fetched : s.entry extfh refuses entry = .ok (s', applied)) :
    (s' = s ∧ applied = none) ∨
    ∃ i fcd tab cols record, s.reg.target s.live entry.tableName = .ok (some (i, fcd, tab, cols)) ∧
      let answer := extfh entry.action.opcode s.files { fcd with record := record }
      s' = { s with
        files := answer.1
        reg := { s.reg with fcds := setOnward s.reg.fcds i answer.2 }
        log := s.log.mark refuses tab.name entry.id (newStatus answer.2.status) } ∧
      applied = some ⟨entry, tab.name, answer.2.status⟩ := by
  unfold Sync.entry at fetched
  obtain ⟨target, aimed, fetched⟩ := bind_eq_ok.mp fetched
  cases target with
  | none =>
      cases fetched
      exact Or.inl ⟨rfl, rfl⟩
  | some found =>
      obtain ⟨i, fcd, tab, cols⟩ := found
      obtain ⟨record, _, result⟩ := bind_eq_ok.mp fetched
      cases result
      exact Or.inr ⟨i, fcd, tab, cols, record, aimed, rfl, rfl⟩

/-- The file of an entry stands among those from where the list was left. -/
theorem Registry.target_onward {reg : Registry} {live : ℕ → Option Table} {tabname : List Byte}
    {i : ℕ} {fcd : Fcd} {tab : Table} {cols : List Column}
    (aimed : reg.target live tabname = .ok (some (i, fcd, tab, cols))) :
    (onward reg.fcds)[i]? = some fcd := by
  unfold Registry.target at aimed
  split at aimed
  case isFalse => cases aimed
  case isTrue =>
    obtain ⟨found, walked, aimed⟩ := bind_eq_ok.mp aimed
    cases found with
    | none => cases aimed
    | some found =>
        obtain ⟨j, fcd', tab'⟩ := found
        obtain ⟨_, _, result⟩ := bind_eq_ok.mp aimed
        cases result
        have place := (findFile_onward walked).2
        rwa [Nat.sub_zero] at place

variable (names : ∀ opcode files fcd, (extfh opcode files fcd).2.fileName = fcd.fileName)

include names

/-- An entry leaves the lists standing on the files. -/
theorem Sync.entry_standing {files : List (Fcd × Table)} {s s' : Sync σ} {entry : Entry}
    {applied : Option Applied} (standing : Standing files s.reg)
    (fetched : s.entry extfh refuses entry = .ok (s', applied)) :
    Standing files s'.reg ∧ s'.live = s.live := by
  rcases Sync.entry_cases fetched with ⟨rfl, _⟩ | ⟨i, fcd, tab, cols, record, aimed, rfl, _⟩
  · exact ⟨standing, rfl⟩
  · refine ⟨⟨standing.tables, ?_⟩, rfl⟩
    have place := Registry.target_onward aimed
    have name : (onward s.reg.fcds).map Fcd.fileName = ((onward s.reg.fcds).map Fcd.fileName).set i
        fcd.fileName := by
      apply List.ext_getElem?
      intro j
      rw [List.getElem?_set]
      by_cases same : i = j
      · subst same
        rw [if_pos rfl, List.getElem?_map, place, Option.map_some, if_pos]
        rw [List.length_map]
        exact (List.getElem?_eq_some_iff.mp place).1
      · rw [if_neg same]
    rw [onward_setOnward, List.map_set, names, ← name, standing.fcds]

/-- A batch leaves the lists standing on the files. -/
theorem Sync.batch_standing {files : List (Fcd × Table)} :
    ∀ {entries : List Entry} {s s' : Sync σ} {applied : List Applied}, Standing files s.reg →
      Sync.batch extfh refuses entries s = .ok (s', applied) →
      Standing files s'.reg ∧ s'.live = s.live := by
  intro entries
  induction entries with
  | nil =>
      intro s s' applied standing fetched
      cases fetched
      exact ⟨standing, rfl⟩
  | cons entry entries ih =>
      intro s s' applied standing fetched
      unfold Sync.batch at fetched
      split at fetched
      · cases fetched
        exact ⟨standing, rfl⟩
      · obtain ⟨⟨s₁, first⟩, here, fetched⟩ := bind_eq_ok.mp fetched
        obtain ⟨⟨s₂, later⟩, rest, result⟩ := bind_eq_ok.mp fetched
        cases result
        obtain ⟨standing₁, live₁⟩ := Sync.entry_standing names standing here
        obtain ⟨standing₂, live₂⟩ := ih standing₁ rest
        exact ⟨standing₂, live₂.trans live₁⟩

/-- Every run leaves the lists standing on the files. -/
theorem SyncRun.standing {files : List (Fcd × Table)} {start s : Sync σ} {done : List Applied}
    (run : SyncRun extfh refuses start s done) (standing : Standing files start.reg) :
    Standing files s.reg ∧ s.live = start.live := by
  induction run with
  | start => exact ⟨standing, rfl⟩
  | insert _ _ _ _ _ ih => exact ih
  | pass _ passed ih =>
      unfold Sync.pass at passed
      split at passed
      · cases passed
      · obtain ⟨⟨s₁, applied⟩, fetched, result⟩ := bind_eq_ok.mp passed
        cases result
        obtain ⟨standing', live'⟩ := Sync.batch_standing names ih.1 fetched
        exact ⟨standing', live'.trans ih.2⟩

end Run

/-! ## The right file -/

/-- An entry of a table goes to the fcd of a file registered under the name, and is decoded with
the columns of the table registered with that file. -/
def Sync.Dispatches {σ : Type} (files : List (Fcd × Table)) (s : Sync σ) (name : List Byte) :
    Prop :=
  ∃ file ∈ files, baseName file.1.fileName = name ∧ ∃ i fcd tab,
    s.reg.target s.live name = .ok (some (i, fcd, tab, file.2.columns)) ∧
    fcd.fileName = file.1.fileName

/-- The name is that of the file registered last, the table registered first has the columns of a
table registered with that file and has not been closed, and the name fits its buffer. -/
def SingleFile (files : List (Fcd × Table)) (live : ℕ → Option Table) (name : List Byte) : Prop :=
  name.length ≤ tabnameSize ∧ ∃ first ∈ files.head?, ∃ last ∈ files.getLast?,
    baseName last.1.fileName = name ∧ (live first.2.handle).isSome ∧
    ∃ file ∈ files, file.1.fileName = last.1.fileName ∧ file.2.columns = first.2.columns

/-- What the walk over the lists finds: the file registered last, with the table registered
first. -/
theorem Standing.target_iff {files : List (Fcd × Table)} {reg : Registry}
    (standing : Standing files reg) {live : ℕ → Option Table} {name : List Byte} {i : ℕ} {fcd : Fcd}
    {tab : Table} {cols : List Column} :
    reg.target live name = .ok (some (i, fcd, tab, cols)) ↔
      name.length ≤ tabnameSize ∧ i = 0 ∧ onward reg.fcds = [fcd] ∧
        (files.map Prod.snd).head? = some tab ∧ baseName fcd.fileName = name ∧
        (live tab.handle).isSome ∧ cols = tab.columns := by
  have single : (onward reg.fcds).length ≤ 1 := by
    have lengths := congrArg List.length standing.fcds
    rw [List.length_map] at lengths
    rw [lengths]
    cases files.getLast? with
    | none => exact Nat.zero_le 1
    | some _ => exact le_rfl
  unfold Registry.target
  rw [← standing.tables]
  by_cases short : name.length ≤ tabnameSize
  case neg => simp only [short, ↓reduceIte, reduceCtorEq, false_and]
  simp only [short, ↓reduceIte, true_and]
  match fcds : onward reg.fcds, tables : onward reg.tables with
  | [], _ => exact iff_of_false nofun fun right => by cases right.2.1
  | [f], [] => exact iff_of_false nofun fun right => by cases right.2.2.1
  | [f], first :: rest =>
      by_cases here : baseName f.fileName = name
      · by_cases alive : (live first.handle).isSome = true
        · simp only [findFile, here, ↓reduceIte, ok_bind, Table.columnList, alive]
          constructor
          · intro aimed
            cases aimed
            exact ⟨rfl, rfl, rfl, here, alive, rfl⟩
          · rintro ⟨rfl, same, found, _, _, rfl⟩
            cases same
            cases found
            rfl
        · simp only [findFile, here, ↓reduceIte, ok_bind, Table.columnList, alive,
            Bool.false_eq_true, error_bind, reduceCtorEq, false_iff, not_and]
          rintro rfl same found _ alive'
          cases found
          exact absurd alive' alive
      · simp only [findFile, here, ↓reduceIte, ok_bind, List.cons.injEq, and_true]
        refine iff_of_false nofun ?_
        rintro ⟨_, rfl, _, named, _⟩
        exact here named
  | f :: g :: rest, _ =>
      rw [fcds] at single
      simp at single

/-- Whatever the passes have done so far, an entry goes to the right file just when the name is that
of the file registered last and the table registered first serves for it. -/
theorem dispatch_iff {σ : Type} {extfh : Extfh σ} {refuses : List Byte → Bool}
    (names : ∀ opcode files fcd, (extfh opcode files fcd).2.fileName = fcd.fileName)
    {files : List (Fcd × Table)} {start s : Sync σ} {done : List Applied}
    (begun : start.reg = (registered files).rewound) (run : SyncRun extfh refuses start s done)
    (name : List Byte) : s.Dispatches files name ↔ SingleFile files start.live name := by
  obtain ⟨standing, live⟩ := run.standing names (begun ▸ registered_standing files)
  unfold Sync.Dispatches SingleFile
  rw [live]
  constructor
  · rintro ⟨file, member, named, i, fcd, tab, aimed, same⟩
    obtain ⟨short, _, fcds, found, here, alive, columns⟩ := standing.target_iff.mp aimed
    have last := standing.fcds
    rw [fcds] at last
    obtain ⟨first, head, rfl⟩ : ∃ first, files.head? = some first ∧ first.2 = tab := by
      rw [List.head?_map] at found
      exact Option.map_eq_some_iff.mp found
    obtain ⟨end_, ended⟩ : ∃ end_, files.getLast? = some end_ := by
      rw [← Option.isSome_iff_exists, List.getLast?_isSome]
      exact List.ne_nil_of_mem member
    rw [ended] at last
    have name' : fcd.fileName = end_.1.fileName := (List.cons.inj last).1
    exact ⟨short, first, head, end_, ended, by rw [← name']; exact here, alive, file, member,
      by rw [← same, name'], columns⟩
  · rintro ⟨short, first, head, end_, ended, here, alive, file, member, same, columns⟩
    have last := standing.fcds
    rw [ended] at last
    obtain ⟨fcd, fcds, name'⟩ : ∃ fcd, onward s.reg.fcds =
        [fcd] ∧ fcd.fileName = end_.1.fileName := by
      match shape : onward s.reg.fcds with
      | [] =>
          rw [shape] at last
          cases last
      | [fcd] =>
          rw [shape] at last
          exact ⟨fcd, rfl, (List.cons.inj last).1⟩
      | _ :: _ :: _ =>
          rw [shape] at last
          cases (List.cons.inj last).2
    refine ⟨file, member, by rw [same]; exact here, 0, fcd, first.2, ?_, name'.trans same.symm⟩
    exact standing.target_iff.mpr ⟨short, rfl, fcds, by rw [List.head?_map, head]; rfl,
      by rw [name']; exact here, alive, columns⟩

/-- A file handler that answers every operation with one status. -/
def answering (status : Status) : Extfh Unit :=
  fun _ files fcd => (files, { fcd with status := status })

/-- A file of sales, and one of prices whose records are laid out in another way. -/
def salesFile : Fcd × Table :=
  ({ openedFcd 0 (List.replicate 7 32) with fileName := ascii "arq/sales " },
    Table.opened 1 1 0 (ascii "sales") saleColumns [[0]] 0 (clearBuffers 4))

def pricesFile : Fcd × Table :=
  ({ openedFcd 0 (List.replicate 4 32) with fileName := ascii "arq/prices " },
    Table.opened 2 2 0 (ascii "prices") balanceColumns [[0]] 0 (clearBuffers 3))

/-- Both tables are open. -/
def bothOpen (handle : ℕ) : Option Table :=
  if handle = 1 then some salesFile.2 else if handle = 2 then some pricesFile.2 else none

/-- The state in which `sync_execute` starts, with some files and an empty changelog. -/
def syncing (files : List (Fcd × Table)) : Sync Unit :=
  ⟨(), (registered files).rewound, bothOpen, ⟨[], [], false, 1⟩⟩

/-- A sale made by another session, and its entry. -/
def saleMade : Sync Unit :=
  let s := syncing [salesFile]
  { s with log := s.log.insert (ascii "sales") .insert [] (ascii "1|2.5|ABC") }

def saleEntry : Entry := ⟨pending, 1, ascii "sales", .insert, [], ascii "1|2.5|ABC"⟩

/-- A pass executes the sale. -/
theorem sale_executed : ∃ s, SyncRun (answering stOk) (fun _ => false) (syncing [salesFile]) s
    [⟨saleEntry, ascii "sales", stOk⟩] := by
  have executed : (fun passed : Option (Sync Unit × List Applied) => passed.map Prod.snd) <$>
      saleMade.pass (answering stOk) (fun _ => false) =
      .ok (some [⟨saleEntry, ascii "sales", stOk⟩]) := by decide +kernel
  obtain ⟨passed, pass, seen⟩ := map_eq_ok.mp executed
  obtain ⟨⟨s, applied⟩, rfl, rfl⟩ := Option.map_eq_some_iff.mp seen
  exact ⟨s, .pass (.insert (ascii "sales") .insert [] (ascii "1|2.5|ABC") .start) pass⟩

/-- The only file registered gets its entries, also after a pass that has executed one, and the
entries of another table go to no file. -/
theorem dispatch_after_sale : ∃ s,
    SyncRun (answering stOk) (fun _ => false) (syncing [salesFile]) s
      [⟨saleEntry, ascii "sales", stOk⟩] ∧
    s.Dispatches [salesFile] (ascii "sales") ∧ ¬ s.Dispatches [salesFile] (ascii "prices") := by
  obtain ⟨s, run⟩ := sale_executed
  refine ⟨s, run, (dispatch_iff (fun _ _ _ => rfl) rfl run (ascii "sales")).mpr ?_, fun aimed => ?_⟩
  · exact ⟨by decide, salesFile, rfl, salesFile, rfl, by decide, rfl, salesFile,
      List.mem_cons_self, rfl, rfl⟩
  · obtain ⟨file, member, named, _⟩ := aimed
    rw [List.mem_singleton.mp member] at named
    exact absurd named (by decide)

/-- Of two files registered, the first is never found, and the second is decoded with the columns
of the first. -/
theorem dispatch_two :
    (syncing [salesFile, pricesFile]).reg.target bothOpen (ascii "sales") = .ok none ∧
    ¬ (syncing [salesFile, pricesFile]).Dispatches [salesFile, pricesFile] (ascii "sales") ∧
    (syncing [salesFile, pricesFile]).reg.target bothOpen (ascii "prices") =
      .ok (some (0, pricesFile.1, salesFile.2, saleColumns)) ∧
    ¬ (syncing [salesFile, pricesFile]).Dispatches [salesFile, pricesFile] (ascii "prices") := by
  have sales : (syncing [salesFile, pricesFile]).reg.target bothOpen (ascii "sales") = .ok none :=
    rfl
  have prices : (syncing [salesFile, pricesFile]).reg.target bothOpen (ascii "prices") =
      .ok (some (0, pricesFile.1, salesFile.2, saleColumns)) := rfl
  refine ⟨sales, ?_, prices, ?_⟩
  · rintro ⟨file, _, _, i, fcd, tab, aimed, _⟩
    cases sales.symm.trans aimed
  · rintro ⟨file, member, named, i, fcd, tab, aimed, _⟩
    have columns : saleColumns = file.2.columns := by
      have same := Option.some.inj (Except.ok.inj (prices.symm.trans aimed))
      exact congrArg (fun found => found.2.2.2) same
    rcases List.mem_cons.mp member with rfl | member
    · exact absurd named (by decide)
    · obtain rfl := List.mem_singleton.mp member
      exact absurd columns (by decide)

end Pqfh
