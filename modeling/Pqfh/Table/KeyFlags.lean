import Pqfh.Table.Layout

/-! # Which columns a REWRITE updates

The UPDATE of `op_rewrite` sets the columns without the flag `pk` and finds the row by
the columns of key 0. These are all the columns when the flags mark the columns of key
0 and no others. `getkeys` does so for a split key. For a key of one component it flags
every column that it passes on the way to the first column of the key
(`Pqfh.walkSingle_spec`), and such a column is never updated.
`Pqfh.rewrite_covers_iff` says when the statement covers the table.
-/

namespace Pqfh

/-- A column lies within a component of a key. -/
def Within (cols : List Column) (comp : ℕ × ℤ) (p : ℕ) : Prop :=
  ∃ col, cols[p]? = some col ∧ comp.1 ≤ col.offset ∧ (col.offset + col.len : ℤ) ≤ comp.1 + comp.2

/-- A component starts where a column starts and ends where a column ends. -/
def OnBoundaries (cols : List Column) (comp : ℕ × ℤ) : Prop :=
  0 < comp.2 ∧ (∃ col ∈ cols, col.offset = comp.1) ∧
    ∃ col ∈ cols, (col.offset + col.len : ℤ) = comp.1 + comp.2

instance (cols : List Column) (comp : ℕ × ℤ) : Decidable (OnBoundaries cols comp) :=
  inferInstanceAs (Decidable (_ ∧ _ ∧ _))

/-- The SET and WHERE lists of the UPDATE partition the columns, and the flag `pk` marks
just the columns of key 0, which are those within its components. -/
def RewriteCovers (cols : List Column) (keys : List (List ℕ)) (comps : List (ℕ × ℤ)) : Prop :=
  ∀ p col, cols[p]? = some col →
    (p ∈ setColumns cols ↔ p ∉ whereColumns keys 0) ∧
    (p ∈ whereColumns keys 0 ↔ ∃ comp ∈ comps, Within cols comp p) ∧
    (col.pk = true ↔ ∃ comp ∈ comps, Within cols comp p)

/-! ## Columns in a row -/

theorem Contiguous.le_offset :
    ∀ {cols : List Column} {offset : ℕ}, Contiguous offset cols →
      ∀ col ∈ cols, offset ≤ col.offset := by
  intro cols
  induction cols with
  | nil => intro offset _ col member; cases member
  | cons first rest ih =>
      intro offset laid col member
      rcases List.mem_cons.mp member with rfl | member
      · exact laid.1.ge
      · exact (Nat.le_add_right _ _).trans (ih laid.2 col member)

/-- The first of several columns ends before any other starts. -/
theorem Contiguous.first_le {first : Column} {rest : List Column} {offset : ℕ}
    (laid : Contiguous offset (first :: rest)) {col : Column} (member : col ∈ rest) :
    first.offset + first.len ≤ col.offset := by
  rw [laid.1]
  exact laid.2.le_offset col member

/-! ## The inner loops -/

/-- Where the length ends with a column, both inner loops take the same columns. -/
theorem takeSingle_eq :
    ∀ {cols : List Column} {offset : ℕ} {len : ℤ}, Contiguous offset cols →
      (∃ col ∈ cols, (col.offset + col.len : ℤ) = offset + len) → ∀ i,
      takeSingle cols i len = .ok (takeSplit cols i len) := by
  intro cols
  induction cols with
  | nil => rintro offset len _ ⟨col, member, _⟩; cases member
  | cons first rest ih =>
      intro offset len laid aligned i
      obtain ⟨last, member, ends⟩ := aligned
      have start := laid.1
      have positive := first.len_pos
      rcases List.mem_cons.mp member with rfl | member
      · -- the length ends with this column, and nothing is taken after it
        have spent : len - last.len = 0 := by omega
        have some : 0 < len := by omega
        have done : takeSingle rest (i + 1) 0 = .ok [] := by
          cases rest <;> rfl
        simp only [takeSingle, takeSplit, some, spent, done, lt_irrefl, ↓reduceIte]
        rfl
      · have after := laid.first_le member
        have positive' := last.len_pos
        have more : 0 < len - first.len := by omega
        have some : 0 < len := by omega
        simp only [takeSingle, takeSplit, some, more, ↓reduceIte]
        rw [ih laid.2 ⟨last, member, by push_cast; omega⟩]
        rfl

/-- The inner loop takes the columns that end within the length. -/
theorem mem_takeSplit :
    ∀ {cols : List Column} {offset : ℕ} {len : ℤ}, Contiguous offset cols →
      (∃ col ∈ cols, (col.offset + col.len : ℤ) = offset + len) → ∀ i p,
      p ∈ takeSplit cols i len ↔ ∃ j col, p = i + j ∧ cols[j]? = some col ∧
        (col.offset + col.len : ℤ) ≤ offset + len := by
  intro cols
  induction cols with
  | nil => rintro offset len _ ⟨col, member, _⟩; cases member
  | cons first rest ih =>
      intro offset len laid aligned i p
      obtain ⟨last, member, ends⟩ := aligned
      have start := laid.1
      have positive := last.len_pos
      have fits : (first.offset + first.len : ℤ) ≤ offset + len := by
        rcases List.mem_cons.mp member with rfl | member
        · exact ends.le
        · have after := laid.first_le member
          omega
      unfold takeSplit
      rw [List.mem_cons]
      by_cases more : 0 < len - first.len
      · have member' : last ∈ rest := by
          rcases List.mem_cons.mp member with rfl | member
          · omega
          · exact member
        rw [if_pos more, ih laid.2 ⟨last, member', by push_cast; omega⟩]
        constructor
        · rintro (rfl | ⟨j, col, rfl, present, within⟩)
          · exact ⟨0, first, rfl, rfl, fits⟩
          · exact ⟨j + 1, col, by omega, present, by push_cast at within; omega⟩
        · rintro ⟨j, col, rfl, present, within⟩
          cases j with
          | zero => exact Or.inl rfl
          | succ j => exact Or.inr ⟨j, col, by omega, present, by push_cast; omega⟩
      · rw [if_neg more]
        constructor
        · rintro (rfl | impossible)
          · exact ⟨0, first, rfl, rfl, fits⟩
          · cases impossible
        · rintro ⟨j, col, rfl, present, within⟩
          cases j with
          | zero => exact Or.inl rfl
          | succ j =>
              have after := laid.first_le (List.mem_of_getElem? present)
              have positive' := col.len_pos
              omega

/-! ## The walks over the columns -/

/-- Only columns after the first can bound a component that starts after it. -/
theorem OnBoundaries.tail {first : Column} {rest : List Column} {offset : ℕ} {comp : ℕ × ℤ}
    (laid : Contiguous offset (first :: rest)) (aligned : OnBoundaries (first :: rest) comp)
    (other : first.offset ≠ comp.1) :
    OnBoundaries rest comp ∧ first.offset + first.len ≤ comp.1 := by
  obtain ⟨positive, ⟨start, startMember, starts⟩, last, lastMember, ends⟩ := aligned
  have startMember' : start ∈ rest := by
    rcases List.mem_cons.mp startMember with rfl | member
    · exact (other starts).elim
    · exact member
  have before := laid.first_le startMember'
  have lastMember' : last ∈ rest := by
    rcases List.mem_cons.mp lastMember with rfl | member
    · omega
    · exact member
  exact ⟨⟨positive, ⟨start, startMember', starts⟩, last, lastMember', ends⟩, by omega⟩

/-- The walk for a component of a split key finds the columns within it. -/
theorem mem_walkSplit {comp : ℕ × ℤ} :
    ∀ {cols : List Column} {offset : ℕ}, Contiguous offset cols → OnBoundaries cols comp → ∀ i p,
      p ∈ walkSplit comp.1 comp.2 cols i ↔ ∃ j, p = i + j ∧ Within cols comp j := by
  intro cols
  induction cols with
  | nil => rintro offset _ ⟨_, ⟨col, member, _⟩, _⟩; cases member
  | cons first rest ih =>
      intro offset laid aligned i p
      unfold walkSplit
      by_cases here : first.offset = comp.1
      · have start : offset = comp.1 := laid.1.symm.trans here
        rw [if_pos here, mem_takeSplit laid (by rw [start]; exact aligned.2.2)]
        constructor
        · rintro ⟨j, col, rfl, present, within⟩
          refine ⟨j, rfl, col, present, ?_, by rw [start] at within; exact within⟩
          exact start.ge.trans (laid.le_offset col (List.mem_of_getElem? present))
        · rintro ⟨j, rfl, col, present, _, within⟩
          exact ⟨j, col, rfl, present, by rw [start]; exact within⟩
      · obtain ⟨aligned', before⟩ := aligned.tail laid here
        have positive := first.len_pos
        rw [if_neg here, ih laid.2 aligned']
        constructor
        · rintro ⟨j, rfl, within⟩
          exact ⟨j + 1, by omega, within⟩
        · rintro ⟨j, rfl, col, present, after, within⟩
          cases j with
          | zero =>
              cases present
              omega
          | succ j => exact ⟨j, by omega, col, present, after, within⟩

/-- The walk for a key of one component finds the columns within it, and flags these and
all columns before them. -/
theorem walkSingle_spec {comp : ℕ × ℤ} :
    ∀ {cols : List Column} {offset : ℕ}, Contiguous offset cols → OnBoundaries cols comp → ∀ i,
      ∃ flagged, walkSingle comp.1 comp.2 cols i =
          .ok (flagged, walkSplit comp.1 comp.2 cols i) ∧
        ∀ p, p ∈ flagged ↔ ∃ j col, p = i + j ∧ cols[j]? = some col ∧
          (col.offset + col.len : ℤ) ≤ comp.1 + comp.2 := by
  intro cols
  induction cols with
  | nil => rintro offset _ ⟨_, ⟨col, member, _⟩, _⟩; cases member
  | cons first rest ih =>
      intro offset laid aligned i
      by_cases here : first.offset = comp.1
      · have start : offset = comp.1 := laid.1.symm.trans here
        have ends : ∃ col ∈ first :: rest, (col.offset + col.len : ℤ) = offset + comp.2 := by
          rw [start]
          exact aligned.2.2
        refine ⟨i :: takeSplit (first :: rest) i comp.2, ?_, fun p => ?_⟩
        · simp only [walkSingle, walkSplit, here, ↓reduceIte, takeSingle_eq laid ends]
          rfl
        · rw [List.mem_cons, mem_takeSplit laid ends, start]
          constructor
          · rintro (rfl | taken)
            · -- the first column is among those taken
              have taken : p ∈ takeSplit (first :: rest) p comp.2 := by
                unfold takeSplit
                exact List.mem_cons_self
              rw [mem_takeSplit laid ends, start] at taken
              exact taken
            · exact taken
          · exact Or.inr
      · obtain ⟨aligned', before⟩ := aligned.tail laid here
        have positive := aligned.1
        obtain ⟨flagged, walked, members⟩ := ih laid.2 aligned' (i + 1)
        refine ⟨i :: flagged, ?_, fun p => ?_⟩
        · simp only [walkSingle, walkSplit, here, ↓reduceIte, walked]
          rfl
        · rw [List.mem_cons, members]
          constructor
          · rintro (rfl | ⟨j, col, rfl, present, within⟩)
            · exact ⟨0, first, rfl, rfl, by omega⟩
            · exact ⟨j + 1, col, by omega, present, within⟩
          · rintro ⟨j, col, rfl, present, within⟩
            cases j with
            | zero => exact Or.inl rfl
            | succ j => exact Or.inr ⟨j, col, by omega, present, within⟩

/-! ## Key 0 -/

/-- The columns and the flags of a key on column boundaries. A split key flags just its
columns; a key of one component flags the columns before it as well. -/
theorem getkey_spec {cols : List Column} {comps : List (ℕ × ℤ)} (laid : Contiguous 0 cols)
    (aligned : ∀ comp ∈ comps, OnBoundaries cols comp) :
    ∃ flagged taken, getkey cols comps = .ok (flagged, taken) ∧
      (∀ p, p ∈ taken ↔ ∃ comp ∈ comps, Within cols comp p) ∧
      (comps.length ≠ 1 → flagged = taken) ∧
      ∀ comp, comps = [comp] → ∀ p, p ∈ flagged ↔
        ∃ col, cols[p]? = some col ∧ (col.offset + col.len : ℤ) ≤ comp.1 + comp.2 := by
  have covered : ∀ comp ∈ comps, ∀ p, p ∈ walkSplit comp.1 comp.2 cols 0 ↔ Within cols comp p := by
    intro comp member p
    rw [mem_walkSplit laid (aligned comp member)]
    simp only [Nat.zero_add, exists_eq_left']
  by_cases single : comps.length = 1
  · obtain ⟨comp, rfl⟩ := List.length_eq_one_iff.mp single
    obtain ⟨flagged, walked, members⟩ := walkSingle_spec laid (aligned comp (by simp)) 0
    refine ⟨flagged, _, walked, fun p => ?_, fun other => (other single).elim, ?_⟩
    · rw [covered comp (by simp)]
      simp only [List.mem_singleton, exists_eq_left]
    · rintro _ ⟨⟩ p
      rw [members]
      simp only [Nat.zero_add, exists_and_left, exists_eq_left']
  · refine ⟨_, comps.flatMap fun comp => walkSplit comp.1 comp.2 cols 0, ?_, fun p => ?_,
      fun _ => rfl, ?_⟩
    · unfold getkey
      split
      · exact (single rfl).elim
      · rfl
    · rw [List.mem_flatMap]
      constructor
      · rintro ⟨comp, member, taken⟩
        exact ⟨comp, member, (covered comp member p).mp taken⟩
      · rintro ⟨comp, member, within⟩
        exact ⟨comp, member, (covered comp member p).mpr within⟩
    · rintro comp rfl
      exact (single rfl).elim

/-- What `getkeys` makes of key 0. -/
theorem getkeys_first {kdb : ℕ → Byte} {cols cols' : List Column} {keys : List (List ℕ)}
    (keyed : 0 < getshort kdb 6) (got : getkeys kdb cols = .ok (cols', keys)) :
    ∃ flagged taken, getkey cols (components kdb 0) = .ok (flagged, taken) ∧
      cols' = flag flagged cols ∧ whereColumns keys 0 = taken := by
  obtain ⟨n, count⟩ := Nat.exists_eq_succ_of_ne_zero keyed.ne'
  unfold getkeys at got
  rw [count, Nat.succ_eq_add_one, List.range_succ_eq_map, List.mapM_cons] at got
  obtain ⟨found, walked, result⟩ := bind_eq_ok.mp got
  obtain ⟨key, first, walked⟩ := bind_eq_ok.mp walked
  obtain ⟨rest, _, walked⟩ := bind_eq_ok.mp walked
  obtain ⟨⟨flagged, taken⟩, getkey, checked⟩ := bind_eq_ok.mp first
  cases walked
  cases result
  refine ⟨flagged, taken, getkey, ?_⟩
  split at checked
  · cases checked
  · cases checked
    exact ⟨rfl, rfl⟩

theorem getElem?_flag (flagged : List ℕ) (cols : List Column) (p : ℕ) :
    (flag flagged cols)[p]? =
      cols[p]?.map fun col => if p ∈ flagged then { col with pk := true } else col := by
  unfold flag
  rw [List.getElem?_mapIdx]

theorem within_flag (flagged : List ℕ) (cols : List Column) (comp : ℕ × ℤ) (p : ℕ) :
    Within (flag flagged cols) comp p ↔ Within cols comp p := by
  unfold Within
  rw [getElem?_flag]
  cases cols[p]? with
  | none => simp only [Option.map_none, reduceCtorEq, false_and, exists_false]
  | some col =>
      by_cases member : p ∈ flagged
      · simp only [member, ↓reduceIte, Option.map_some, Option.some.injEq, exists_eq_left']
      · simp only [member, ↓reduceIte, Option.map_some]

theorem mem_setColumns {cols : List Column} {p : ℕ} {col : Column} (present : cols[p]? = some col) :
    p ∈ setColumns cols ↔ col.pk = false := by
  have inside : p < cols.length := (List.getElem?_eq_some_iff.mp present).1
  unfold setColumns
  rw [List.mem_filter, List.mem_range, present]
  simp only [inside, Option.map_some, Option.some.injEq, decide_eq_true_eq, true_and]

/-- The UPDATE of `op_rewrite` covers the table just when key 0 is split or starts with
the first column: every column is then set or part of key 0, and the flag `pk` marks the
columns of key 0. Otherwise the columns before the key are neither. -/
theorem rewrite_covers_iff (kdb : ℕ → Byte) (cols : List Column) (laid : Contiguous 0 cols)
    (fresh : ∀ col ∈ cols, col.pk = false) (keyed : 0 < getshort kdb 6)
    (aligned : ∀ comp ∈ components kdb 0, OnBoundaries cols comp)
    (cols' : List Column) (keys : List (List ℕ)) (got : getkeys kdb cols = .ok (cols', keys)) :
    RewriteCovers cols' keys (components kdb 0) ↔
      ((components kdb 0).length = 1 → ∀ comp ∈ components kdb 0, comp.1 = 0) := by
  obtain ⟨flagged, taken, getkey, rfl, whereTaken⟩ := getkeys_first keyed got
  obtain ⟨flagged', taken', getkey', within, split, single⟩ := getkey_spec laid aligned
  obtain ⟨rfl, rfl⟩ := Prod.mk.inj (Except.ok.inj (getkey.symm.trans getkey'))
  -- the flags decide everything: a column is set when not flagged
  have flags : RewriteCovers (flag flagged cols) keys (components kdb 0) ↔
      ∀ p < cols.length, p ∈ flagged ↔ p ∈ taken := by
    unfold RewriteCovers
    simp only [whereTaken, within_flag, ← within]
    constructor
    · intro covers p inside
      have present : cols[p]? = some cols[p] := List.getElem?_eq_getElem inside
      have fresh' := fresh _ (List.mem_of_getElem? present)
      obtain ⟨_, _, marked⟩ := covers p _ (by rw [getElem?_flag, present, Option.map_some])
      rw [← marked]
      by_cases member : p ∈ flagged
      · simp only [member, ↓reduceIte]
      · simp only [member, ↓reduceIte, fresh', Bool.false_eq_true]
    · intro same p col present
      rw [mem_setColumns present]
      rw [getElem?_flag] at present
      obtain ⟨source, found, rfl⟩ := Option.map_eq_some_iff.mp present
      have inside : p < cols.length := (List.getElem?_eq_some_iff.mp found).1
      have fresh' := fresh source (List.mem_of_getElem? found)
      rw [← same p inside]
      by_cases member : p ∈ flagged
      · simp only [member, ↓reduceIte, Bool.true_eq_false, not_true_eq_false, and_self]
      · simp only [member, ↓reduceIte, fresh', Bool.false_eq_true, not_false_eq_true, and_self]
  rw [flags]
  by_cases one : (components kdb 0).length = 1
  · obtain ⟨comp, only⟩ := List.length_eq_one_iff.mp one
    rw [only]
    have marked := single comp only
    simp only [List.length_singleton, List.mem_singleton, forall_eq, true_imp_iff]
    obtain ⟨positive, ⟨start, startMember, starts⟩, _⟩ := aligned comp (by rw [only]; simp)
    constructor
    · intro same
      -- the first column is flagged, and within the key only if the key starts with it
      obtain ⟨first, rest, shape⟩ := List.exists_cons_of_ne_nil (List.ne_nil_of_mem startMember)
      have taken0 : (0 : ℕ) ∈ flagged := by
        rw [marked]
        rw [shape] at laid startMember
        refine ⟨first, by rw [shape]; rfl, ?_⟩
        rcases List.mem_cons.mp startMember with rfl | later
        · obtain ⟨_, _, last, lastMember, ends⟩ := aligned comp (by rw [only]; simp)
          rw [shape] at lastMember
          rcases List.mem_cons.mp lastMember with rfl | member
          · exact ends.le
          · have after := laid.first_le member
            have lastPositive := last.len_pos
            omega
        · have after := laid.first_le later
          omega
      rw [same 0 (by rw [shape]; simp), within, only] at taken0
      obtain ⟨comp', member, col, present, after, _⟩ := taken0
      rw [List.mem_singleton.mp member] at after
      rw [shape] at present laid
      cases present
      have zero := laid.1
      omega
    · intro zero p inside
      rw [marked, within, only]
      simp only [List.mem_singleton, exists_eq_left, Within, zero, Nat.zero_le, true_and]
  · simp only [one, false_imp_iff, split one, implies_true]

/-- A character column of `len` bytes. -/
def characterColumn (name : String) (offset len : ℕ) (len_pos : 0 < len) : Column :=
  ⟨name, .character, len, 0, offset, false, len_pos, Nat.zero_le _⟩

/-- A key definition block with one key, of one component. -/
def singleKey (offset len : Byte) : ℕ → Byte
  | 7 => 1
  | 15 => 1
  | 17 => 30
  | 35 => offset
  | 39 => len
  | _ => 0

/-- A table of a leading column and a column of five bytes after it. -/
def twoColumns : List Column :=
  [characterColumn "nome" 0 3 three_digits, characterColumn "codigo" 3 5 five_characters]

/-- With the first column as key, the UPDATE covers the table. -/
theorem rewrite_covers_leading :
    RewriteCovers (flag [0] twoColumns) [[0]] (components (singleKey 0 3) 0) ↔
      ((components (singleKey 0 3) 0).length = 1 → ∀ comp ∈ components (singleKey 0 3) 0,
      comp.1 = 0) :=
  rewrite_covers_iff (singleKey 0 3) twoColumns (by decide) (by decide) (by decide)
    (by decide) _ _ (by decide +kernel)

/-- With the second column as key, the first is neither set nor part of the key. -/
theorem rewrite_misses_column :
    Contiguous 0 twoColumns ∧
      (∀ comp ∈ components (singleKey 3 5) 0, OnBoundaries twoColumns comp) ∧
      getkeys (singleKey 3 5) twoColumns = .ok (flag [0, 1] twoColumns, [[1]]) ∧
      ¬ RewriteCovers (flag [0, 1] twoColumns) [[1]] (components (singleKey 3 5) 0) := by
  refine ⟨by decide, by decide, by decide +kernel, fun covers => ?_⟩
  obtain ⟨neither, _⟩ := covers 0 { characterColumn "nome" 0 3 (by decide) with pk := true } rfl
  exact absurd (neither.mpr (by decide)) (by decide)

end Pqfh
