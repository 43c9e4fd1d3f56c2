import Mathlib.Data.List.Perm.Subperm
import Pqfh.Memfh.IndexSound

/-! # Walking an index in key order

`memfh_idx_next` never climbs past the page above a leaf: when that page is
exhausted it follows the page's `next`, which leads to the right half left by a
former split, and the pages passed by are not looked at again. In a sound index
this visits the leaves in the order of their ranges
(`Pqfh.Memfh.idxNext_spec`), so a walk visits every entry once, in key order
(`Pqfh.Memfh.idxWalk_after_writes`).
-/

namespace Pqfh.Memfh

open SearchGraph

/-- Call `memfh_idx_next` until it returns false, collecting the entries visited.
`none` when `fuel` calls are not enough. -/
def idxWalkFrom : ℕ → Idx → Option (List (Key × ℕ))
  | 0, _ => none
  | fuel + 1, idx =>
      match idxNext idx with
      | none => none
      | some (false, _) => some (idxCurrent idx).toList
      | some (true, idx') => (idxWalkFrom fuel idx').map ((idxCurrent idx).toList ++ ·)

/-- `memfh_idx_first` followed by `memfh_idx_next` until it returns false. -/
def idxWalk (fuel : ℕ) (idx : Idx) : Option (List (Key × ℕ)) :=
  match idxFirst idx with
  | none => none
  | some (false, _) => some []
  | some (true, idx') => idxWalkFrom fuel idx'

/-- A sequence of `memfh_idx_write` calls. -/
def idxWrites (idx : Idx) (entries : List (Key × ℕ)) : Option Idx :=
  entries.foldlM (fun idx entry => idxWrite idx entry.1 entry.2) idx

/-! ## Positions of a walk -/

/-- The position of a walk: an entry of a leaf, below the root or below a routing
page that points to the leaf at the position noted there. -/
structure At (idx : Idx) (leaf pos : ℕ) (items : List (Key × ℕ)) (entry : Key × ℕ)
    (above : List (ℕ × ℕ)) : Prop where
  path : idx.path = (leaf, pos) :: above
  inside : leaf < idx.graph.size
  page : idx.graph.page leaf = .leaf items
  present : items[pos]? = some entry
  below : (above = [] ∧ leaf = idx.graph.root) ∨
    ∃ parent ppos rest pitems next, above = (parent, ppos) :: rest ∧ parent < idx.graph.size ∧
      idx.graph.page parent = .branch pitems next ∧
      ((∃ k, pitems[ppos]? = some (k, leaf)) ∨ (ppos = pitems.length ∧ next = leaf))

theorem At.current {idx : Idx} {leaf pos : ℕ} {items : List (Key × ℕ)} {entry : Key × ℕ}
    {above : List (ℕ × ℕ)} (here : At idx leaf pos items entry above) :
    idxCurrent idx = some entry := by
  simp only [idxCurrent, here.path, here.page, here.present]

/-- The loop down to a leaf ends at the first entry of the leaf whose range starts
where the page is led by. -/
theorem firstLeaf_spec {g : Graph Key ℕ} {labels : Labels Key} (pages : Pages g labels) :
    ∀ (fuel p : ℕ) (path : List (ℕ × ℕ)), p < g.size → g.size - labels.rank p ≤ fuel →
      ∃ leaf items above, firstLeaf g fuel p path = some ((leaf, 0) :: above) ∧
        leaf < g.size ∧ g.page leaf = .leaf items ∧ labels.low leaf = labels.lead p ∧
        ((above = path ∧ leaf = p) ∨ ∃ parent rest k c next, above = (parent, 0) :: rest ∧
          parent < g.size ∧ g.page parent = .branch ((k, leaf) :: c) next) := by
  intro fuel
  induction fuel with
  | zero =>
      intro p path inside enough
      have bound := pages.rank_lt p inside
      omega
  | succ fuel ih =>
      intro p path inside enough
      cases shape : g.page p with
      | leaf items =>
          refine ⟨p, items, path, ?_, inside, shape, ?_, Or.inl ⟨rfl, rfl⟩⟩
          · simp only [firstLeaf, shape]
          · exact (pages.leaf p inside items shape).lead_eq.symm
      | branch items next =>
          have described := pages.branch p inside items next shape
          cases items with
          | nil => exact (described.nonempty rfl).elim
          | cons item rest =>
              obtain ⟨k, c⟩ := item
              have lower := described.rank_lt c (by simp)
              obtain ⟨leaf, items, above, found, allocated, page, low, under⟩ :=
                ih c ((p, 0) :: path) (described.allocated c (by simp)) (by omega)
              refine ⟨leaf, items, above, ?_, allocated, page, ?_, Or.inr ?_⟩
              · simp only [firstLeaf, shape]
                exact found
              · exact low.trans described.lead_eq.symm
              · rcases under with ⟨rfl, rfl⟩ | under
                · exact ⟨p, path, k, rest, next, rfl, inside, shape⟩
                · exact under

/-! ## Neighbours in a sorted page -/

section Sorted

variable {items : List (Key × ℕ)} {pos : ℕ} {entry : Key × ℕ}
  (sorted : items.Pairwise fun first second => first.1 < second.1)
  (present : items[pos]? = some entry)

include sorted present

/-- Entries of a sorted page at positions in order have keys in order. -/
theorem sorted_lt {pos' : ℕ} {entry' : Key × ℕ} (later : pos < pos')
    (present' : items[pos']? = some entry') : entry.1 < entry'.1 := by
  obtain ⟨inside, rfl⟩ := List.getElem?_eq_some_iff.mp present
  obtain ⟨inside', rfl⟩ := List.getElem?_eq_some_iff.mp present'
  exact List.pairwise_iff_getElem.mp sorted pos pos' inside inside' later

/-- An entry of a sorted page with a larger key stands later. -/
theorem sorted_position {other : Key × ℕ} (member : other ∈ items) (larger : entry.1 < other.1) :
    ∃ pos', pos < pos' ∧ items[pos']? = some other := by
  obtain ⟨pos', present'⟩ := List.getElem?_of_mem member
  refine ⟨pos', ?_, present'⟩
  by_contra earlier
  rcases Nat.lt_or_eq_of_le (not_lt.mp earlier) with before | rfl
  · exact lt_asymm larger (sorted_lt sorted present' before present)
  · cases present.symm.trans present'
    exact lt_irrefl _ larger

/-- No entry of a sorted page has a larger key than the last. -/
theorem sorted_last (last : ¬ pos + 1 < items.length) {other : Key × ℕ} (member : other ∈ items) :
    ¬ entry.1 < other.1 := by
  intro larger
  obtain ⟨pos', later, present'⟩ := sorted_position sorted present member larger
  have inside := (List.getElem?_eq_some_iff.mp present').1
  omega

/-- No entry of a sorted page has a key between two neighbours. -/
theorem sorted_between {entry' other : Key × ℕ} (present' : items[pos + 1]? = some entry')
    (member : other ∈ items) (larger : entry.1 < other.1) : ¬ other.1 < entry'.1 := by
  intro smaller
  obtain ⟨pos', later, found⟩ := sorted_position sorted present member larger
  rcases Nat.lt_or_eq_of_le (Nat.succ_le_of_lt later) with beyond | rfl
  · exact lt_asymm smaller (sorted_lt sorted present' beyond found)
  · cases present'.symm.trans found
    exact lt_irrefl _ smaller

end Sorted

/-! ## One step -/

/-- `entry'` is the entry after `entry` in key order. -/
structure Successor (g : Graph Key ℕ) (entry entry' : Key × ℕ) : Prop where
  held : g.Holds entry'
  larger : entry.1 < entry'.1
  least : ∀ other, g.Holds other → entry.1 < other.1 → ¬ other.1 < entry'.1

theorem At.held {idx : Idx} {leaf pos : ℕ} {items : List (Key × ℕ)} {entry : Key × ℕ}
    {above : List (ℕ × ℕ)} (here : At idx leaf pos items entry above) : idx.graph.Holds entry :=
  ⟨leaf, here.inside, items, here.page, List.mem_of_getElem? here.present⟩

/-- A pointer of a page leads to a page with entries or a routing page. -/
theorem pointer_inhabited {g : Graph Key ℕ} {labels : Labels Key} (sound : Sound g labels)
    {p c : ℕ} (inside : p < g.size) (member : c ∈ (g.page p).pointers) : g.page c ≠ .leaf [] := by
  refine sound.inhabited c (sound.pointer_lt inside member) ?_
  rintro rfl
  exact sound.root_not_pointer inside member

/-- Stepping on from the last entry of a leaf whose page above points on: the walk
continues at the first entry of the leaf whose range starts where this one ends. -/
theorem idxNext_across {idx : Idx} {labels : Labels Key} (sound : Sound idx.graph labels)
    {leaf pos parent ppos next : ℕ} {items : List (Key × ℕ)} {entry : Key × ℕ}
    {rest : List (ℕ × ℕ)} {pitems : List (Key × ℕ)} {k : Key}
    (here : At idx leaf pos items entry ((parent, ppos) :: rest))
    (last : ¬ pos + 1 < items.length) (below : parent < idx.graph.size)
    (page : idx.graph.page parent = .branch pitems next)
    (pointed : pitems[ppos]? = some (k, leaf)) :
    ∃ idx' leaf' items' entry' above', idxNext idx = some (true, idx') ∧
      idx'.graph = idx.graph ∧ At idx' leaf' 0 items' entry' above' ∧
      Successor idx.graph entry entry' := by
  have room : ppos < pitems.length := (List.getElem?_eq_some_iff.mp pointed).1
  have described := sound.branch parent below pitems next page
  have isLeaf : (idx.graph.page leaf).IsLeaf := by rw [here.page]; trivial
  obtain ⟨high, lead⟩ := described.handoff.after pointed isLeaf
  have member : pointerAfter next pitems ppos ∈ (idx.graph.page parent).pointers := by
    have inTail := headPtr_mem next (pitems.drop (ppos + 1))
    rw [page, Page.pointers_branch]
    rcases List.mem_append.mp inTail with inside | inside
    · exact List.mem_append_left _ (List.map_subset _ (List.drop_subset _ _) inside)
    · exact List.mem_append_right _ inside
  obtain ⟨leaf', items', above', descended, inside', page', low, under⟩ := firstLeaf_spec
    sound.toPages idx.graph.size (pointerAfter next pitems ppos) ((parent, ppos + 1) :: rest)
    (sound.pointer_lt below member) (Nat.sub_le _ _)
  have nonempty : items' ≠ [] := by
    rintro rfl
    rcases under with ⟨_, rfl⟩ | ⟨parent', _, k', tail, next', _, below', found⟩
    · exact pointer_inhabited sound below member page'
    · exact pointer_inhabited sound below' (by rw [found]; simp) page'
  obtain ⟨entry', tail, rfl⟩ := List.exists_cons_of_ne_nil nonempty
  have described' := sound.leaf leaf' inside' _ page'
  have range := (sound.leaf leaf here.inside items here.page).inRange entry
    (List.mem_of_getElem? here.present)
  have range' := described'.inRange entry' (by simp)
  have start : labels.low leaf' = k := low.trans lead
  rw [Labels.InRange, high] at range
  rw [Labels.InRange, start] at range'
  have entryBelow : entry.1 < k := WithTop.coe_lt_coe.mp range.2
  have entryAbove : k ≤ entry'.1 := WithBot.coe_le_coe.mp range'.1
  refine ⟨{ idx with path := (leaf', 0) :: above' }, leaf', entry' :: tail, entry', above', ?_, rfl,
    ⟨rfl, inside', page', rfl, Or.inr ?_⟩,
    ⟨leaf', inside', _, page', by simp⟩, entryBelow.trans_le entryAbove, ?_⟩
  · simp only [idxNext, here.path, here.page, pageCount, last, ↓reduceIte, page, room, descended,
      Option.map_some]
  · rcases under with ⟨rfl, same⟩ | ⟨parent', rest', k', tail', next', rfl, below', found⟩
    · refine ⟨parent, ppos + 1, rest, pitems, next, rfl, below, page, ?_⟩
      rw [same]
      cases after : pitems.drop (ppos + 1) with
      | nil =>
          refine Or.inr ⟨?_, by rw [pointerAfter, after]; rfl⟩
          have reached := List.drop_eq_nil_iff.mp after
          omega
      | cons item more =>
          refine Or.inl ⟨item.1, ?_⟩
          rw [← Nat.add_zero (ppos + 1), ← List.getElem?_drop, pointerAfter, after]
          rfl
    · exact ⟨parent', 0, rest', (k', leaf') :: tail', next', rfl, below', found,
        Or.inl ⟨k', rfl⟩⟩
  · -- an entry in between would lie in one of the two leaves
    intro other held larger smaller
    have sorted := (sound.leaf leaf here.inside items here.page).sorted
    by_cases left : other.1 < k
    · have inLeaf := sound.mem_of_inRange here.inside here.page
        ⟨range.1.trans (WithBot.coe_le_coe.mpr larger.le),
          by rw [high]; exact WithTop.coe_lt_coe.mpr left⟩ held
      exact sorted_last sorted here.present last inLeaf larger
    · have inLeaf := sound.mem_of_inRange inside' page'
        ⟨by rw [start]; exact WithBot.coe_le_coe.mpr (not_lt.mp left),
          lt_trans (WithTop.coe_lt_coe.mpr smaller) range'.2⟩ held
      rcases List.mem_cons.mp inLeaf with rfl | later
      · exact lt_irrefl _ smaller
      · exact lt_asymm smaller (List.rel_of_pairwise_cons described'.sorted later)

/-- The last entry of a leaf whose range is not bounded is the last of all. -/
theorem At.last_of_top {idx : Idx} {labels : Labels Key} (sound : Sound idx.graph labels)
    {leaf pos : ℕ} {items : List (Key × ℕ)} {entry : Key × ℕ} {above : List (ℕ × ℕ)}
    (here : At idx leaf pos items entry above) (last : ¬ pos + 1 < items.length)
    (top : labels.high leaf = ⊤) {other : Key × ℕ} (held : idx.graph.Holds other) :
    ¬ entry.1 < other.1 := by
  intro larger
  have described := sound.leaf leaf here.inside items here.page
  have range := described.inRange entry (List.mem_of_getElem? here.present)
  have inLeaf := sound.mem_of_inRange here.inside here.page
    ⟨range.1.trans (WithBot.coe_le_coe.mpr larger.le),
      by rw [top]; exact WithTop.coe_lt_top _⟩ held
  exact sorted_last described.sorted here.present last inLeaf larger

/-- Inside a leaf page `memfh_idx_next` moves to the next position. -/
theorem idxNext_within {idx : Idx} {labels : Labels Key} (sound : Sound idx.graph labels)
    {leaf pos : ℕ} {items : List (Key × ℕ)} {entry entry' : Key × ℕ} {above : List (ℕ × ℕ)}
    (path : idx.path = (leaf, pos) :: above) (inside : leaf < idx.graph.size)
    (page : idx.graph.page leaf = .leaf items) (present : items[pos]? = some entry)
    (present' : items[pos + 1]? = some entry') :
    idxNext idx = some (true, { idx with path := (leaf, pos + 1) :: above }) ∧
      Successor idx.graph entry entry' := by
  have described := sound.leaf leaf inside items page
  have last : pos + 1 < items.length := (List.getElem?_eq_some_iff.mp present').1
  have member := List.mem_of_getElem? present'
  have larger := sorted_lt described.sorted present (Nat.lt_succ_self pos) present'
  have range := described.inRange entry (List.mem_of_getElem? present)
  have range' := described.inRange entry' member
  refine ⟨?_, ⟨leaf, inside, items, page, member⟩, larger, ?_⟩
  · simp only [idxNext, path, page, pageCount, last, ↓reduceIte]
  · intro other held between smaller
    have inLeaf := sound.mem_of_inRange inside page
      ⟨range.1.trans (WithBot.coe_le_coe.mpr between.le),
        lt_trans (WithTop.coe_lt_coe.mpr smaller) range'.2⟩ held
    exact sorted_between described.sorted present present' inLeaf between smaller

/-- `memfh_idx_next` moves to the next entry in key order, and returns false after the
last. -/
theorem idxNext_spec {idx : Idx} {labels : Labels Key} (sound : Sound idx.graph labels)
    {leaf pos : ℕ} {items : List (Key × ℕ)} {entry : Key × ℕ} {above : List (ℕ × ℕ)}
    (here : At idx leaf pos items entry above) :
    (∃ idx' leaf' pos' items' entry' above', idxNext idx = some (true, idx') ∧
        idx'.graph = idx.graph ∧ At idx' leaf' pos' items' entry' above' ∧
        Successor idx.graph entry entry') ∨
      (∃ idx', idxNext idx = some (false, idx') ∧
        ∀ other, idx.graph.Holds other → ¬ entry.1 < other.1) := by
  by_cases last : pos + 1 < items.length
  · have next : items[pos + 1]? = some items[pos + 1] := List.getElem?_eq_getElem last
    obtain ⟨moved, successor⟩ :=
      idxNext_within sound here.path here.inside here.page here.present next
    exact Or.inl ⟨{ idx with path := (leaf, pos + 1) :: above }, leaf, pos + 1, items,
      items[pos + 1], above, moved, rfl, ⟨rfl, here.inside, here.page, next, here.below⟩, successor⟩
  · rcases here.below with
      ⟨rfl, rfl⟩ | ⟨parent, ppos, rest, pitems, next, rfl, below, page, pointed⟩
    · refine Or.inr ⟨idx, ?_, fun other held => here.last_of_top sound last
        (sound.root_high (by rw [here.page]; trivial)) held⟩
      simp only [idxNext, here.path, here.page, pageCount, last, ↓reduceIte]
    · rcases pointed with ⟨k, pointed⟩ | ⟨rfl, rfl⟩
      · obtain ⟨idx', leaf', items', entry', above', moved⟩ :=
          idxNext_across sound here last below page pointed
        exact Or.inl ⟨idx', leaf', 0, items', entry', above', moved⟩
      · have top := (sound.branch parent below pitems next page).last (by rw [here.page]; trivial)
        refine Or.inr ⟨{ idx with path := (parent, pitems.length) :: rest }, ?_,
          fun other held => here.last_of_top sound last top held⟩
        simp only [idxNext, here.path, here.page, pageCount, last, ↓reduceIte, page,
          lt_self_iff_false]

/-! ## Whole walks -/

/-- `memfh_idx_first` moves to the entry with the least key, and returns false when
there is none. -/
theorem idxFirst_spec {idx : Idx} {labels : Labels Key} (sound : Sound idx.graph labels) :
    (∃ idx' leaf items entry above, idxFirst idx = some (true, idx') ∧
        idx'.graph = idx.graph ∧ At idx' leaf 0 items entry above ∧
        ∀ other, idx.graph.Holds other → ¬ other.1 < entry.1) ∨
      (∃ idx', idxFirst idx = some (false, idx') ∧ ∀ other, ¬ idx.graph.Holds other) := by
  by_cases empty : pageCount (idx.graph.page idx.graph.root) = 0
  · refine Or.inr ⟨idx, by simp only [idxFirst, empty, ↓reduceIte], fun other held => ?_⟩
    cases shape : idx.graph.page idx.graph.root with
    | leaf items =>
        rw [shape] at empty
        have member := sound.mem_of_inRange sound.root_lt shape
          ⟨by rw [sound.root_low]; exact bot_le, by
            rw [sound.root_high (by rw [shape]; trivial)]; exact WithTop.coe_lt_top _⟩ held
        rw [List.length_eq_zero_iff.mp empty] at member
        cases member
    | branch items next =>
        rw [shape] at empty
        exact (sound.branch _ sound.root_lt items next shape).nonempty
          (List.length_eq_zero_iff.mp empty)
  · obtain ⟨leaf, items, above, descended, inside, page, low, under⟩ := firstLeaf_spec
      sound.toPages idx.graph.size idx.graph.root [] sound.root_lt (Nat.sub_le _ _)
    have nonempty : items ≠ [] := by
      rintro rfl
      rcases under with ⟨_, rfl⟩ | ⟨parent, _, k, tail, next, _, below, found⟩
      · rw [page] at empty
        exact empty rfl
      · exact pointer_inhabited sound below (by rw [found]; simp) page
    obtain ⟨entry, tail, rfl⟩ := List.exists_cons_of_ne_nil nonempty
    have described := sound.leaf leaf inside _ page
    have range := described.inRange entry (by simp)
    refine Or.inl ⟨{ idx with path := (leaf, 0) :: above }, leaf, entry :: tail, entry, above, ?_,
      rfl, ⟨rfl, inside, page, rfl, ?_⟩, fun other held smaller => ?_⟩
    · simp only [idxFirst, empty, ↓reduceIte, descended, Option.map_some]
    · rcases under with ⟨rfl, rfl⟩ | ⟨parent, rest, k, more, next, rfl, below, found⟩
      · exact Or.inl ⟨rfl, rfl⟩
      · exact Or.inr ⟨parent, 0, rest, (k, leaf) :: more, next, rfl, below, found,
          Or.inl ⟨k, rfl⟩⟩
    · have member := sound.mem_of_inRange inside page
        ⟨by rw [low, sound.root_lead]; exact bot_le,
          lt_trans (WithTop.coe_lt_coe.mpr smaller) range.2⟩ held
      rcases List.mem_cons.mp member with rfl | later
      · exact lt_irrefl _ smaller
      · exact lt_asymm smaller (List.rel_of_pairwise_cons described.sorted later)

/-- From an entry on, a walk visits the entries with larger keys, in order. -/
theorem idxWalkFrom_spec {labels : Labels Key} (entries : List (Key × ℕ))
    (distinct : (entries.map Prod.fst).Nodup) :
    ∀ (fuel : ℕ) {idx : Idx} {leaf pos : ℕ} {items : List (Key × ℕ)} {entry : Key × ℕ}
      {above : List (ℕ × ℕ)}, Sound idx.graph labels →
      (∀ other, idx.graph.Holds other ↔ other ∈ entries) →
      At idx leaf pos items entry above →
      (entries.filter fun other => entry.1 < other.1).length < fuel →
      ∃ visited, idxWalkFrom fuel idx = some (entry :: visited) ∧
        (entry :: visited).Pairwise (fun first second => first.1 < second.1) ∧
        ∀ other, other ∈ visited ↔ other ∈ entries ∧ entry.1 < other.1 := by
  intro fuel
  induction fuel with
  | zero => intro idx leaf pos items entry above _ _ _ enough; exact (Nat.not_lt_zero _ enough).elim
  | succ fuel ih =>
      intro idx leaf pos items entry above sound held here enough
      have current := here.current
      rcases idxNext_spec sound here with
        ⟨idx', leaf', pos', items', entry', above', moved, same, there, next⟩ | ⟨idx', ended, last⟩
      · -- the successor leaves the entries with keys above its own still to be visited
        have member : entry' ∈ entries := (held entry').mp next.held
        have split : ∀ other ∈ entries, entry.1 < other.1 ↔
            other = entry' ∨ entry'.1 < other.1 := by
          intro other present
          constructor
          · intro larger
            rcases lt_or_eq_of_le (not_lt.mp (next.least other ((held other).mpr present) larger))
              with above | equal
            · exact Or.inr above
            · exact Or.inl (List.inj_on_of_nodup_map distinct present member equal.symm)
          · rintro (rfl | above)
            · exact next.larger
            · exact next.larger.trans above
        have fewer : (entries.filter fun other => entry'.1 < other.1).length <
            (entries.filter fun other => entry.1 < other.1).length := by
          have sub : List.Subperm (entry' :: entries.filter fun other => entry'.1 < other.1)
              (entries.filter fun other => entry.1 < other.1) := by
            apply List.subperm_of_subset
            · refine List.nodup_cons.mpr ⟨by simp, ?_⟩
              exact (List.Nodup.of_map _ distinct).filter _
            · intro other present
              rcases List.mem_cons.mp present with rfl | present
              · simpa [member] using next.larger
              · rw [List.mem_filter, decide_eq_true_eq] at present ⊢
                exact ⟨present.1, next.larger.trans present.2⟩
          exact Nat.lt_of_succ_le sub.length_le
        obtain ⟨visited, walked, sorted, members⟩ :=
          ih (same ▸ sound) (same ▸ held) there (by omega)
        refine ⟨entry' :: visited, ?_, List.pairwise_cons.mpr ⟨?_, sorted⟩, ?_⟩
        · simp only [idxWalkFrom, moved, current, walked, Option.map_some, Option.toList_some,
            List.singleton_append]
        · intro other present
          rcases List.mem_cons.mp present with rfl | present
          · exact next.larger
          · exact next.larger.trans ((members other).mp present).2
        · intro other
          rw [List.mem_cons, members]
          constructor
          · rintro (rfl | ⟨present, above⟩)
            · exact ⟨member, next.larger⟩
            · exact ⟨present, next.larger.trans above⟩
          · rintro ⟨present, larger⟩
            exact ((split other present).mp larger).imp id fun above => ⟨present, above⟩
      · refine ⟨[], ?_, List.pairwise_singleton .., fun other => ?_⟩
        · simp only [idxWalkFrom, ended, current, Option.toList_some]
        · simp only [List.not_mem_nil, false_iff, not_and]
          intro present
          exact last other ((held other).mpr present)

/-- Writes of distinct keys leave a sound index that holds just these entries. -/
theorem idxWrites_sound :
    ∀ (entries : List (Key × ℕ)) (written : List (Key × ℕ)) {idx : Idx} {labels : Labels Key},
      Sound idx.graph labels → 2 ≤ maxItems idx.keylen →
      (∀ other, idx.graph.Holds other ↔ other ∈ written) →
      ((written ++ entries).map Prod.fst).Nodup →
      ∃ idx' labels', idxWrites idx entries = some idx' ∧ Sound idx'.graph labels' ∧
        ∀ other, idx'.graph.Holds other ↔ other ∈ written ++ entries := by
  intro entries
  induction entries with
  | nil =>
      intro written idx labels sound _ held _
      exact ⟨idx, labels, rfl, sound, by simpa using held⟩
  | cons entry entries ih =>
      intro written idx labels sound capacity held distinct
      have absent : ∀ record, ¬ idx.graph.Holds (entry.1, record) := by
        intro record present
        rw [List.map_append] at distinct
        exact (List.nodup_append.mp distinct).2.2 _
          (List.mem_map_of_mem ((held _).mp present)) _ (by simp) rfl
      obtain ⟨idx', labels', wrote, keylen, sound', held'⟩ :=
        idxWrite_sound sound capacity entry.2 absent
      obtain ⟨idx'', labels'', rest, sound'', held''⟩ := ih (written ++ [entry]) sound'
        (by rw [keylen]; exact capacity)
        (fun other => by rw [held', held, List.mem_append, List.mem_singleton])
        (by rw [List.append_assoc]; exact distinct)
      refine ⟨idx'', labels'', ?_, sound'', fun other => ?_⟩
      · simp only [idxWrites, List.foldlM_cons, wrote, Option.bind_eq_bind, Option.bind_some]
        exact rest
      · rw [held'', List.append_assoc]
        rfl

/-- A walk that ended ends in the same way with more calls allowed. -/
theorem idxWalkFrom_mono {visited : List (Key × ℕ)} :
    ∀ {few many : ℕ} {idx : Idx}, idxWalkFrom few idx = some visited → few ≤ many →
      idxWalkFrom many idx = some visited := by
  intro few
  induction few generalizing visited with
  | zero => intro many idx walked _; cases walked
  | succ few ih =>
      intro many idx walked more
      obtain ⟨many, rfl⟩ := Nat.exists_eq_succ_of_ne_zero (by omega : many ≠ 0)
      unfold idxWalkFrom at walked ⊢
      split at walked
      · cases walked
      · exact walked
      · rename_i idx' _
        obtain ⟨rest, after, rfl⟩ := Option.map_eq_some_iff.mp walked
        rw [ih after (by omega), Option.map_some]

/-- Whole walks of a sound index: every entry once, in key order. -/
theorem idxWalk_spec {idx : Idx} {labels : Labels Key} (sound : Sound idx.graph labels)
    (entries : List (Key × ℕ)) (distinct : (entries.map Prod.fst).Nodup)
    (held : ∀ other, idx.graph.Holds other ↔ other ∈ entries) :
    ∃ visited, (∀ fuel, entries.length ≤ fuel → idxWalk fuel idx = some visited) ∧
      visited.Perm entries ∧ visited.Pairwise fun first second => first.1 < second.1 := by
  rcases idxFirst_spec sound with
    ⟨idx', leaf, items, entry, above, moved, same, there, least⟩ | ⟨idx', ended, empty⟩
  · have member : entry ∈ entries :=
      (held entry).mp ⟨leaf, same ▸ there.inside, items, same ▸ there.page,
        List.mem_of_getElem? there.present⟩
    have fewer : (entries.filter fun other => entry.1 < other.1).length < entries.length := by
      rw [List.length_filter_lt_length_iff_exists]
      exact ⟨entry, member, by simp⟩
    obtain ⟨visited, walked, sorted, members⟩ :=
      idxWalkFrom_spec entries distinct entries.length (same ▸ sound) (same ▸ held) there fewer
    refine ⟨entry :: visited, ?_, ?_, sorted⟩
    · intro fuel enough
      simp only [idxWalk, moved]
      exact idxWalkFrom_mono walked enough
    · have once : (entry :: visited).Nodup := sorted.imp fun smaller equal =>
        absurd (congrArg Prod.fst equal) smaller.ne
      rw [List.perm_ext_iff_of_nodup once (List.Nodup.of_map _ distinct)]
      intro other
      rw [List.mem_cons, members]
      constructor
      · rintro (rfl | ⟨present, _⟩)
        · exact member
        · exact present
      · intro present
        rcases lt_or_eq_of_le (not_lt.mp (least other ((held other).mpr present)))
          with larger | equal
        · exact Or.inr ⟨present, larger⟩
        · exact Or.inl (List.inj_on_of_nodup_map distinct present member equal.symm)
  · have none : entries = [] :=
      List.eq_nil_iff_forall_not_mem.mpr fun other present => empty other ((held other).mpr present)
    refine ⟨[], fun fuel _ => ?_, ?_, List.Pairwise.nil⟩
    · simp only [idxWalk, ended]
    · rw [none]

/-- The walk is complete and ordered: after any writes of distinct keys, `memfh_idx_first`
and then `memfh_idx_next` until it returns false visit each entry written exactly once, in
increasing order of keys. The calls of `memfh_idx_next` number at most the entries. -/
theorem idxWalk_after_writes (keylen : ℕ) (short : keylen ≤ 256) (entries : List (Key × ℕ))
    (distinct : (entries.map Prod.fst).Nodup) :
    ∃ idx visited, idxWrites (Idx.empty keylen) entries = some idx ∧
      (∀ fuel, entries.length ≤ fuel → idxWalk fuel idx = some visited) ∧
      visited.Perm entries ∧ visited.Pairwise fun first second => first.1 < second.1 := by
  obtain ⟨idx, labels, written, sound, held⟩ := idxWrites_sound entries []
    (Idx.empty_sound keylen) (two_le_maxItems short)
    (fun other => by simpa using Idx.empty_holds keylen other) distinct
  obtain ⟨visited, walked, all, sorted⟩ := idxWalk_spec sound entries distinct held
  exact ⟨idx, visited, written, walked, all, sorted⟩

/-- Three entries written out of order. -/
theorem idxWalk_after_three_writes :
    ∃ idx visited, idxWrites (Idx.empty 1) [([2], 0), ([3], 1), ([1], 2)] = some idx ∧
      (∀ fuel, 3 ≤ fuel → idxWalk fuel idx = some visited) ∧
      visited.Perm [([2], 0), ([3], 1), ([1], 2)] ∧
      visited.Pairwise fun first second => first.1 < second.1 :=
  idxWalk_after_writes 1 (by decide) [([2], 0), ([3], 1), ([1], 2)] (by decide)

end Pqfh.Memfh
