import Mathlib.Data.List.Forall2
import Mathlib.Data.List.GetD
import Mathlib.Data.List.Sort
import Pqfh.Table.KeyFlags

/-! # Keys as ranges of columns

A component of a key stands for a range of bytes of the record. Where the columns lie one after the
other and the component starts and ends with a column, the walks of `getkeys` take one run of
columns (`Pqfh.walkSplit_eq`), and these columns hold the bytes of the component and no others
(`Pqfh.columnsOf_slices`).
-/

namespace Pqfh

/-- The columns within a component, in the order of the table. -/
def columnsOf (cols : List Column) (comp : ℕ × ℤ) : List ℕ :=
  (List.range cols.length).filter fun p => cols[p]?.any fun col =>
    decide (comp.1 ≤ col.offset ∧ (col.offset + col.len : ℤ) ≤ comp.1 + comp.2)

theorem mem_columnsOf {cols : List Column} {comp : ℕ × ℤ} {p : ℕ} :
    p ∈ columnsOf cols comp ↔ Within cols comp p := by
  unfold columnsOf Within
  rw [List.mem_filter, List.mem_range, Option.any_eq_true]
  constructor
  · intro member
    obtain ⟨_, col, present, within⟩ := member
    exact ⟨col, present, of_decide_eq_true within⟩
  · intro within
    obtain ⟨col, present, within⟩ := within
    exact ⟨(List.getElem?_eq_some_iff.mp present).1, col, present, decide_eq_true within⟩

/-! ## Runs of columns -/

theorem slice_append (record : List Byte) (offset first second : ℕ) :
    slice record offset (first + second) =
      slice record offset first ++ slice record (offset + first) second := by
  unfold slice
  rw [List.take_add, List.drop_drop]

/-- Columns that lie one after the other hold the bytes that they cover. -/
theorem Contiguous.slices (record : List Byte) :
    ∀ {cols : List Column} {offset : ℕ}, Contiguous offset cols →
      (cols.flatMap fun col => slice record col.offset col.len) =
        slice record offset (totalLen cols) := by
  intro cols
  induction cols with
  | nil =>
      intro offset _
      rw [List.flatMap_nil]
      exact List.take_zero.symm
  | cons first rest ih =>
      intro offset laid
      have total : totalLen (first :: rest) = first.len + totalLen rest := List.sum_cons
      rw [List.flatMap_cons, ih laid.2, laid.1, total, slice_append]

theorem Contiguous.take :
    ∀ {cols : List Column} {offset : ℕ}, Contiguous offset cols → ∀ n,
      Contiguous offset (cols.take n) := by
  intro cols
  induction cols with
  | nil => intro offset laid n; rw [List.take_nil]; exact laid
  | cons first rest ih =>
      intro offset laid n
      cases n with
      | zero => exact trivial
      | succ n => exact ⟨laid.1, ih laid.2 n⟩

/-- The elements at a run of positions. -/
theorem map_range' {α : Type} {list : List α} {p n : ℕ} (inside : p + n ≤ list.length)
    (default : α) :
    ((List.range' p n).map fun i => list.getD i default) = (list.drop p).take n := by
  refine List.ext_getElem (by simp; omega) fun i first second => ?_
  have lower : i < n := by simpa using first
  rw [List.getElem_map, List.getElem_range', List.getElem_take, List.getElem_drop, Nat.one_mul,
    List.getD_eq_getElem _ _ (by omega)]

/-- The inner loop takes the columns that come next, and they are as long as the component. -/
theorem takeSplit_range :
    ∀ {cols : List Column} {offset : ℕ} {len : ℤ}, Contiguous offset cols →
      (∃ col ∈ cols, (col.offset + col.len : ℤ) = offset + len) → ∀ i,
      ∃ n ≤ cols.length, takeSplit cols i len = List.range' i n ∧
        (totalLen (cols.take n) : ℤ) = len := by
  intro cols
  induction cols with
  | nil => intro offset len _ ends; obtain ⟨_, member, _⟩ := ends; cases member
  | cons first rest ih =>
      intro offset len laid aligned i
      obtain ⟨last, member, ends⟩ := aligned
      have start := laid.1
      unfold takeSplit
      by_cases more : 0 < len - first.len
      · have member' : last ∈ rest := by
          rcases List.mem_cons.mp member with rfl | member
          · omega
          · exact member
        have ends' : (last.offset + last.len : ℤ) =
            (offset + first.len : ℕ) + (len - first.len) := by
          push_cast
          omega
        obtain ⟨n, inside, taken, total⟩ := ih laid.2 ⟨last, member', ends'⟩ (i + 1)
        have sum : totalLen (first :: rest.take n) = first.len + totalLen (rest.take n) :=
          List.sum_cons
        refine ⟨n + 1, by rw [List.length_cons]; omega, ?_, ?_⟩
        · rw [if_pos more, taken]
          rfl
        · rw [List.take_succ_cons, sum]
          omega
      · have whole : (first.len : ℤ) = len := by
          rcases List.mem_cons.mp member with rfl | member
          · omega
          · have after := laid.first_le member
            have positive := last.len_pos
            omega
        have sum : totalLen [first] = first.len := List.sum_singleton
        refine ⟨1, by rw [List.length_cons]; omega, by rw [if_neg more]; rfl, ?_⟩
        rw [List.take_succ_cons, List.take_zero, sum]
        exact whole

/-- The walk for a component takes the columns from the one where it starts on. -/
theorem walkSplit_range {comp : ℕ × ℤ} :
    ∀ {cols : List Column} {offset : ℕ}, Contiguous offset cols → OnBoundaries cols comp → ∀ i,
      ∃ p n, p + n ≤ cols.length ∧ walkSplit comp.1 comp.2 cols i = List.range' (i + p) n ∧
        Contiguous comp.1 (cols.drop p) ∧ (totalLen ((cols.drop p).take n) : ℤ) = comp.2 := by
  intro cols
  induction cols with
  | nil =>
      intro offset _ aligned
      obtain ⟨_, ⟨_, member, _⟩, _⟩ := aligned
      cases member
  | cons first rest ih =>
      intro offset laid aligned i
      unfold walkSplit
      by_cases here : first.offset = comp.1
      · have start : offset = comp.1 := laid.1.symm.trans here
        obtain ⟨n, inside, taken, total⟩ :=
          takeSplit_range laid (by rw [start]; exact aligned.2.2) i
        exact ⟨0, n, by omega, by rw [if_pos here]; exact taken, start ▸ laid, total⟩
      · obtain ⟨aligned', _⟩ := aligned.tail laid here
        obtain ⟨p, n, inside, taken, laid', total⟩ := ih laid.2 aligned' (i + 1)
        refine ⟨p + 1, n, by rw [List.length_cons]; omega, ?_, laid', total⟩
        rw [if_neg here, taken]
        congr 1
        omega

/-- The walk for a component takes just the columns within it, in their order. -/
theorem walkSplit_eq {cols : List Column} {comp : ℕ × ℤ} (laid : Contiguous 0 cols)
    (aligned : OnBoundaries cols comp) : walkSplit comp.1 comp.2 cols 0 = columnsOf cols comp := by
  obtain ⟨p, n, _, taken, _⟩ := walkSplit_range laid aligned 0
  have walked : (walkSplit comp.1 comp.2 cols 0).SortedLT := by
    rw [taken]
    exact (List.pairwise_lt_range' ..).sortedLT
  have kept : (columnsOf cols comp).SortedLT := (List.pairwise_lt_range.filter _).sortedLT
  refine walked.eq_of_mem_iff kept fun p => ?_
  rw [mem_walkSplit laid aligned, mem_columnsOf]
  simp only [Nat.zero_add, exists_eq_left']

/-- The columns within a component follow one another from its start on, and take its length. -/
theorem columnsOf_range {cols : List Column} {comp : ℕ × ℤ} (laid : Contiguous 0 cols)
    (aligned : OnBoundaries cols comp) :
    ∃ p n, p + n ≤ cols.length ∧ columnsOf cols comp = List.range' p n ∧
      Contiguous comp.1 ((cols.drop p).take n) ∧
      (totalLen ((cols.drop p).take n) : ℤ) = comp.2 := by
  obtain ⟨p, n, inside, taken, laid', total⟩ := walkSplit_range laid aligned 0
  rw [walkSplit_eq laid aligned, Nat.zero_add] at taken
  exact ⟨p, n, inside, taken, laid'.take n, total⟩

/-- The columns of a component are as long as it. -/
theorem columnsOf_len {cols : List Column} {comp : ℕ × ℤ} (laid : Contiguous 0 cols)
    (aligned : OnBoundaries cols comp) (default : Column) :
    (((columnsOf cols comp).map fun p => (cols.getD p default).len).sum : ℤ) = comp.2 := by
  obtain ⟨p, n, inside, taken, _, total⟩ := columnsOf_range laid aligned
  have lens := congrArg (List.map Column.len) (map_range' inside default)
  rw [List.map_map] at lens
  rw [taken, ← total]
  exact congrArg (fun lens : List ℕ => (lens.sum : ℤ)) lens

/-- The columns of a component hold its bytes. -/
theorem columnsOf_slices {cols : List Column} {comp : ℕ × ℤ} (laid : Contiguous 0 cols)
    (aligned : OnBoundaries cols comp) (default : Column) (record : List Byte) :
    ((columnsOf cols comp).flatMap fun p =>
      slice record (cols.getD p default).offset (cols.getD p default).len) =
        slice record comp.1 comp.2.toNat := by
  obtain ⟨p, n, inside, taken, laid', total⟩ := columnsOf_range laid aligned
  have parts := laid'.slices record
  rw [← map_range' inside default, List.flatMap_map] at parts
  rw [taken, parts, map_range' inside default, ← total, Int.toNat_natCast]

/-! ## The keys of the table -/

/-- A key on column boundaries has the columns of its components. -/
theorem getkey_columns {cols : List Column} {comps : List (ℕ × ℤ)} (laid : Contiguous 0 cols)
    (aligned : ∀ comp ∈ comps, OnBoundaries cols comp) :
    ∃ flagged, getkey cols comps = .ok (flagged, comps.flatMap (columnsOf cols)) := by
  by_cases single : comps.length = 1
  · obtain ⟨comp, rfl⟩ := List.length_eq_one_iff.mp single
    have bounds := aligned comp List.mem_cons_self
    obtain ⟨flagged, walked, _⟩ := walkSingle_spec laid bounds 0
    rw [walkSplit_eq laid bounds] at walked
    exact ⟨flagged, by rw [List.flatMap_singleton]; exact walked⟩
  · have walked : (comps.flatMap fun comp => walkSplit comp.1 comp.2 cols 0) =
        comps.flatMap (columnsOf cols) :=
      List.flatMap_congr fun comp member => walkSplit_eq laid (aligned comp member)
    refine ⟨comps.flatMap (columnsOf cols), ?_⟩
    unfold getkey
    split
    · exact (single rfl).elim
    · rw [walked]

/-- What `getkeys` returned is what it made of each key. -/
theorem getkeys_key {kdb : ℕ → Byte} {cols cols' : List Column} {keys : List (List ℕ)}
    (got : getkeys kdb cols = .ok (cols', keys)) {k : ℕ} (among : k < getshort kdb 6) :
    ∃ flagged taken, getkey cols (components kdb k) = .ok (flagged, taken) ∧
      keys[k]? = some taken := by
  obtain ⟨found, walked, result⟩ := bind_eq_ok.mp got
  cases result
  have each := mapM_eq_ok.mp walked
  have count : found.length = getshort kdb 6 := by
    rw [← each.length_eq, List.length_range]
  have step := each.get (by rw [List.length_range]; exact among) (by omega)
  obtain ⟨key, made, checked⟩ := bind_eq_ok.mp step
  split at checked
  · cases checked
  · refine ⟨key.1, key.2, ?_, ?_⟩
    · rw [← made]
      simp only [List.get_eq_getElem, List.getElem_range]
    · rw [List.getElem?_map, List.getElem?_eq_getElem (by omega)]
      exact congrArg (fun key : List ℕ × List ℕ => some key.2) (Except.ok.inj checked).symm

/-- Keys of columns that can be made and have room are what `getkeys` returns. -/
theorem getkeys_returns {kdb : ℕ → Byte} {cols : List Column} {taken : ℕ → List ℕ}
    (each : ∀ k < getshort kdb 6, (∃ flagged, getkey cols (components kdb k) =
      .ok (flagged, taken k)) ∧ (taken k).length ≤ maxComps) :
    ∃ flagged keys, getkeys kdb cols = .ok (flag flagged cols, keys) ∧
      keys = (List.range (getshort kdb 6)).map taken := by
  have steps : ∀ k ∈ List.range (getshort kdb 6), ∃ key,
      (do
        let key ← getkey cols (components kdb k)
        if maxComps < key.2.length then Except.error Stop.undefined else Except.ok key) =
          Except.ok key ∧ key.2 = taken k := by
    intro k member
    obtain ⟨⟨flagged, made⟩, few⟩ := each k (List.mem_range.mp member)
    refine ⟨(flagged, taken k), ?_, rfl⟩
    rw [made, ok_bind, if_neg (by exact Nat.not_lt.mpr few)]
  obtain ⟨found, walked, related⟩ := mapM_returns steps
  have unflagged : flag [] cols = cols := by
    refine List.ext_getElem? fun p => ?_
    rw [getElem?_flag]
    simp only [List.not_mem_nil, ↓reduceIte, Option.map_id_fun', id]
  have keys : found.map Prod.snd = (List.range (getshort kdb 6)).map taken := by
    rw [← List.forall₂_eq_eq_eq, List.forall₂_map_left_iff, List.forall₂_map_right_iff]
    exact related.flip
  unfold getkeys
  rw [walked, ok_bind]
  cases found with
  | nil => exact ⟨[], _, by rw [unflagged]; rfl, keys⟩
  | cons key rest => exact ⟨key.1, _, rfl, keys⟩

/-! ## Where a key starts -/

theorem walkSplit_head {offset : ℕ} {len : ℤ} :
    ∀ {cols : List Column} {i p : ℕ}, (walkSplit offset len cols i).head? = some p →
      ∃ j col, p = i + j ∧ cols[j]? = some col ∧ col.offset = offset := by
  intro cols
  induction cols with
  | nil => intro i p first; cases first
  | cons col rest ih =>
      intro i p first
      unfold walkSplit at first
      by_cases here : col.offset = offset
      · rw [if_pos here] at first
        cases first
        exact ⟨0, col, rfl, rfl, here⟩
      · rw [if_neg here] at first
        obtain ⟨j, later, place, present, starts⟩ := ih first
        exact ⟨j + 1, later, by omega, present, starts⟩

theorem walkSingle_head {offset : ℕ} {len : ℤ} :
    ∀ {cols : List Column} {i p : ℕ} {flagged taken : List ℕ},
      walkSingle offset len cols i = .ok (flagged, taken) → taken.head? = some p →
      ∃ j col, p = i + j ∧ cols[j]? = some col ∧ col.offset = offset := by
  intro cols
  induction cols with
  | nil => intro i p flagged taken walked first; cases walked; cases first
  | cons col rest ih =>
      intro i p flagged taken walked first
      unfold walkSingle at walked
      by_cases here : col.offset = offset
      · rw [if_pos here] at walked
        obtain ⟨taken', took, result⟩ := map_eq_ok.mp walked
        cases result
        unfold takeSingle at took
        split at took
        · obtain ⟨rest', _, rfl⟩ := map_eq_ok.mp took
          cases first
          exact ⟨0, col, rfl, rfl, here⟩
        · cases took
          cases first
      · rw [if_neg here] at walked
        obtain ⟨found, walked', result⟩ := map_eq_ok.mp walked
        cases result
        obtain ⟨j, later, place, present, starts⟩ := ih walked' first
        exact ⟨j + 1, later, by omega, present, starts⟩

/-- The first column of a component is the one that starts with it. -/
theorem columnsOf_head {cols : List Column} {comp : ℕ × ℤ} (laid : Contiguous 0 cols)
    (aligned : OnBoundaries cols comp) :
    ∃ p col, (columnsOf cols comp).head? = some p ∧ cols[p]? = some col ∧ col.offset = comp.1 := by
  cases first : (columnsOf cols comp).head? with
  | none =>
      have positive := aligned.1
      have total := columnsOf_len laid aligned (aligned.2.1.choose)
      rw [List.head?_eq_none_iff.mp first] at total
      change (0 : ℤ) = _ at total
      omega
  | some p =>
      rw [← walkSplit_eq laid aligned] at first
      obtain ⟨j, col, place, present, starts⟩ := walkSplit_head first
      rw [Nat.zero_add] at place
      exact ⟨p, col, rfl, place ▸ present, starts⟩

end Pqfh
