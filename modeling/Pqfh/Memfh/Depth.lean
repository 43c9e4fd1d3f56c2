import Mathlib.Data.List.Infix
import Mathlib.Tactic.Linarith
import Pqfh.Memfh.Capacity

/-! # How deep a path gets

The path of an index has room for 16 pages, and nothing checks that it is enough. A search or a walk
follows pointers from the root, through branch pages down to a leaf; but a walk never leaves a
branch page for good, so a new level is added for each branch page that it moves to sideways. The
room is enough as long as no chain of pointers passes through 16 branch pages
(`Pqfh.Memfh.depthOk_of_shallow`), and a walk over enough keys always gets beyond it
(`Pqfh.Memfh.exists_deep`).
-/

namespace Pqfh.Memfh

open SearchGraph

/-- `MEMFH_MAX_DEPTH`. -/
def maxDepth : ℕ := 16

/-- `hdr->depth[k]`. -/
def Idx.depth (idx : Idx) : ℕ := idx.path.length - 1

/-- The states of a walk, with what the last call has returned. -/
inductive Walked (idx : Idx) : Bool → Idx → Prop
  | first {found : Bool} {now : Idx} : idxFirst idx = some (found, now) → Walked idx found now
  | next {now later : Idx} {found : Bool} : Walked idx true now →
      idxNext now = some (found, later) → Walked idx found later

/-- The depth stays below its bound in each write of a sequence, and in a search or a walk after it.
-/
structure DepthOk (keylen : ℕ) (entries : List (Key × ℕ)) : Prop where
  write : ∀ before entry after, entries = before ++ entry :: after → ∀ now later,
    idxWrites (Idx.empty keylen) before = some now →
    idxWrite now entry.1 entry.2 = some later → later.depth < maxDepth
  search : ∀ idx, idxWrites (Idx.empty keylen) entries = some idx → ∀ key order path,
    idxSearch idx key = some (order, path) → { idx with path := path }.depth < maxDepth
  walk : ∀ idx, idxWrites (Idx.empty keylen) entries = some idx → ∀ found now,
    Walked idx found now → now.depth < maxDepth

/-! ## Chains of pointers -/

/-- Branch pages along pointers from the root, deepest first. -/
inductive BranchChain (g : Graph Key ℕ) : List ℕ → Prop
  | root : ¬ (g.page g.root).IsLeaf → BranchChain g [g.root]
  | down {p c : ℕ} {pages : List ℕ} : BranchChain g (p :: pages) → c ∈ (g.page p).pointers →
      ¬ (g.page c).IsLeaf → BranchChain g (c :: p :: pages)

/-- No chain of pointers passes through as many branch pages as a path has room for. -/
def Shallow (g : Graph Key ℕ) : Prop := ∀ pages, BranchChain g pages → pages.length < maxDepth

/-- A page is the root, or pointed to by the deepest page of a chain. -/
def Under (g : Graph Key ℕ) (p : ℕ) (pages : List ℕ) : Prop :=
  (pages = [] ∧ p = g.root) ∨
    ∃ q rest, pages = q :: rest ∧ BranchChain g pages ∧ p ∈ (g.page q).pointers

/-- A path ends in a leaf under a chain. -/
def OnChain (g : Graph Key ℕ) (path : List (ℕ × ℕ)) : Prop :=
  path = [] ∨ ∃ leaf pos above, path = (leaf, pos) :: above ∧
    (above = [] ∨ BranchChain g (above.map Prod.fst))

section Chains

variable {g : Graph Key ℕ}

theorem Under.chain {p : ℕ} {pages : List ℕ} (under : Under g p pages)
    (branch : ¬ (g.page p).IsLeaf) : BranchChain g (p :: pages) := by
  rcases under with ⟨rfl, rfl⟩ | ⟨q, rest, rfl, chain, pointed⟩
  · exact .root branch
  · exact .down chain pointed branch

/-- The page that a branch points to is under it. -/
theorem Under.below {p q pos : ℕ} {above : List (ℕ × ℕ)} {items : List (Key × ℕ)} {next : ℕ}
    (under : Under g p (above.map Prod.fst)) (page : g.page p = .branch items next)
    (pointed : q ∈ items.map Prod.snd ++ [next]) :
    Under g q (((p, pos) :: above).map Prod.fst) := by
  have branch : ¬ (g.page p).IsLeaf := by
    rw [page]
    exact Page.not_isLeaf_branch items next
  refine Or.inr ⟨p, above.map Prod.fst, rfl, under.chain branch, ?_⟩
  rw [page]
  exact pointed

theorem Under.onChain {p pos : ℕ} {above : List (ℕ × ℕ)} (under : Under g p (above.map Prod.fst)) :
    OnChain g ((p, pos) :: above) := by
  refine Or.inr ⟨p, pos, above, rfl, ?_⟩
  rcases under with ⟨none, _⟩ | ⟨_, _, _, chain, _⟩
  · exact Or.inl (List.map_eq_nil_iff.mp none)
  · exact Or.inr chain

theorem OnChain.depth {idx : Idx} (path : OnChain idx.graph idx.path)
    (shallow : Shallow idx.graph) : idx.depth < maxDepth := by
  unfold Idx.depth
  rcases path with none | ⟨leaf, pos, above, path, under⟩
  · rw [none]
    decide
  · rw [path, List.length_cons, Nat.add_sub_cancel]
    rcases under with rfl | chain
    · decide
    · have bound := shallow _ chain
      rw [List.length_map] at bound
      exact bound

/-- A search goes along a chain. -/
theorem idxSearchPage_onChain {key : Key} : ∀ {fuel p : ℕ} {above path : List (ℕ × ℕ)}
    {order : Ordering}, idxSearchPage g key fuel p above = some (order, path) →
      Under g p (above.map Prod.fst) → OnChain g path := by
  intro fuel
  induction fuel with
  | zero =>
      intro p above path order found _
      cases found
  | succ fuel ih =>
      intro p above path order found under
      rw [idxSearchPage] at found
      cases page : g.page p with
      | leaf items =>
          rw [page] at found
          cases found
          exact under.onChain
      | branch items next =>
          rw [page] at found
          exact ih found (under.below page (route_mem key next items 0))

/-- So does the way down to a leaf. -/
theorem firstLeaf_onChain : ∀ {fuel p : ℕ} {above path : List (ℕ × ℕ)},
    firstLeaf g fuel p above = some path → Under g p (above.map Prod.fst) → OnChain g path := by
  intro fuel
  induction fuel with
  | zero =>
      intro p above path found _
      cases found
  | succ fuel ih =>
      intro p above path found under
      rw [firstLeaf] at found
      cases page : g.page p with
      | leaf items =>
          rw [page] at found
          cases found
          exact under.onChain
      | branch items next =>
          rw [page] at found
          cases items with
          | nil => cases found
          | cons item rest => exact ih found (under.below page List.mem_cons_self)

end Chains

theorem pointerAfter_mem (next : ℕ) (items : List (Key × ℕ)) (i : ℕ) :
    pointerAfter next items i ∈ items.map Prod.snd ++ [next] := by
  rcases List.mem_append.mp (headPtr_mem next (items.drop (i + 1))) with inside | last
  · exact List.mem_append_left _ (List.map_subset _ (List.drop_subset _ _) inside)
  · exact List.mem_append_right _ last

/-! ## Operations stay on chains -/

theorem idxSearch_onChain {idx : Idx} {key : Key} {order : Ordering} {path : List (ℕ × ℕ)}
    (found : idxSearch idx key = some (order, path)) : OnChain idx.graph path :=
  idxSearchPage_onChain found (Or.inl ⟨rfl, rfl⟩)

/-- The pages stay as they are, and the path stays on a chain, or becomes shorter. -/
structure Strolls (idx later : Idx) (found : Bool) : Prop where
  graph : later.graph = idx.graph
  onChain : found = true → OnChain later.graph later.path
  shorter : found = false → later.path.length ≤ idx.path.length

theorem idxFirst_strolls {idx later : Idx} {found : Bool}
    (goes : idxFirst idx = some (found, later)) : Strolls idx later found := by
  unfold idxFirst at goes
  split at goes
  · cases goes
    exact ⟨rfl, fun impossible => (Bool.false_ne_true impossible).elim, fun _ => le_rfl⟩
  · obtain ⟨path, down, same⟩ := Option.map_eq_some_iff.mp goes
    cases same
    exact ⟨rfl, fun _ => firstLeaf_onChain down (Or.inl ⟨rfl, rfl⟩),
      fun impossible => (Bool.false_ne_true impossible.symm).elim⟩

theorem idxNext_strolls {idx later : Idx} {found : Bool} (path : OnChain idx.graph idx.path)
    (goes : idxNext idx = some (found, later)) : Strolls idx later found := by
  unfold idxNext at goes
  rcases path with none | ⟨leaf, pos, above, path, under⟩
  · rw [none] at goes
    cases goes
  rw [path] at goes
  dsimp only at goes
  split at goes
  · cases goes
    exact ⟨rfl, fun _ => Or.inr ⟨leaf, pos + 1, above, rfl, under⟩,
      fun impossible => (Bool.false_ne_true impossible.symm).elim⟩
  cases above with
  | nil =>
      cases goes
      exact ⟨rfl, fun impossible => (Bool.false_ne_true impossible).elim, fun _ => le_rfl⟩
  | cons step rest =>
      obtain ⟨parent, ppos⟩ := step
      have chain : BranchChain idx.graph (parent :: rest.map Prod.fst) :=
        under.resolve_left (List.cons_ne_nil _ _)
      dsimp only at goes
      cases page : idx.graph.page parent with
      | leaf items =>
          rw [page] at goes
          cases goes
      | branch items next =>
          rw [page] at goes
          dsimp only at goes
          split at goes
          · obtain ⟨path', down, same⟩ := Option.map_eq_some_iff.mp goes
            have pointed : pointerAfter next items ppos ∈ (idx.graph.page parent).pointers := by
              rw [page]
              exact pointerAfter_mem next items ppos
            have onChain := firstLeaf_onChain down
              (Or.inr ⟨parent, rest.map Prod.fst, rfl, chain, pointed⟩)
            cases same
            exact ⟨rfl, fun _ => onChain,
              fun impossible => (Bool.false_ne_true impossible.symm).elim⟩
          · cases goes
            refine ⟨rfl, fun impossible => (Bool.false_ne_true impossible).elim, fun _ => ?_⟩
            rw [path]
            exact Nat.le_succ _

/-- A walk leaves the pages as they are, and goes along chains. -/
theorem Walked.depth {idx now : Idx} {found : Bool} (walked : Walked idx found now)
    (shallow : Shallow idx.graph) (start : idx.depth < maxDepth) :
    now.graph = idx.graph ∧ (found = true → OnChain now.graph now.path) ∧ now.depth < maxDepth := by
  induction walked with
  | @first found now goes =>
      obtain ⟨same, onChain, shorter⟩ := idxFirst_strolls goes
      refine ⟨same, onChain, ?_⟩
      cases found with
      | true => exact (onChain rfl).depth (by rw [same]; exact shallow)
      | false => exact (Nat.sub_le_sub_right (shorter rfl) 1).trans_lt start
  | @next now later found _ goes ih =>
      obtain ⟨before, path, below⟩ := ih
      obtain ⟨same, onChain, shorter⟩ := idxNext_strolls (path rfl) goes
      refine ⟨same.trans before, onChain, ?_⟩
      cases found with
      | true => exact (onChain rfl).depth (by rw [same, before]; exact shallow)
      | false => exact (Nat.sub_le_sub_right (shorter rfl) 1).trans_lt below

/-- The path of a write is that of its search. -/
theorem idxWrite_depth {idx later : Idx} {key : Key} {record : ℕ} (shallow : Shallow idx.graph)
    (wrote : idxWrite idx key record = some later) : later.depth < maxDepth := by
  unfold idxWrite at wrote
  split at wrote
  · rename_i order leaf pos above found
    split at wrote
    · cases wrote
    · obtain ⟨graph, _, rfl⟩ := Option.map_eq_some_iff.mp wrote
      have chain := idxSearch_onChain found
      exact @OnChain.depth { idx with path := (leaf, pos) :: above } chain shallow
  · cases wrote

/-- The depth stays below its bound in every write of a sequence, and in any search or walk after
it, when no chain of pointers is too long in the states before. -/
theorem depthOk_of_shallow {keylen : ℕ} {entries : List (Key × ℕ)}
    (shallow : ∀ before after, entries = before ++ after → ∀ now,
      idxWrites (Idx.empty keylen) before = some now → Shallow now.graph) :
    DepthOk keylen entries := by
  have write : ∀ before entry after, entries = before ++ entry :: after → ∀ now later,
      idxWrites (Idx.empty keylen) before = some now →
      idxWrite now entry.1 entry.2 = some later → later.depth < maxDepth :=
    fun before entry after split now later written wrote =>
      idxWrite_depth (shallow before _ split now written) wrote
  have last : ∀ idx, idxWrites (Idx.empty keylen) entries = some idx → Shallow idx.graph :=
    shallow entries [] (List.append_nil entries).symm
  refine ⟨write, fun idx written key order path found => ?_, fun idx written found now walked => ?_⟩
  · exact @OnChain.depth { idx with path := path } (idxSearch_onChain found) (last idx written)
  · refine (walked.depth (last idx written) ?_).2.2
    rcases List.eq_nil_or_concat entries with rfl | ⟨before, entry, rfl⟩
    · cases written
      change 0 < maxDepth
      decide
    · rw [List.concat_eq_append] at written shallow write
      rw [idxWrites_concat] at written
      obtain ⟨now, first, wrote⟩ := Option.bind_eq_some_iff.mp written
      exact write before entry [] rfl now idx first wrote

/-- A chain has no more pages than there are, when all of them are ranked. -/
theorem BranchChain.length_le {g : Graph Key ℕ} {labels : Labels Key} (sound : Sound g labels)
    {pages : List ℕ} (chain : BranchChain g pages) :
    ∃ p rest, pages = p :: rest ∧ p < g.size ∧ rest.length ≤ labels.rank p := by
  induction chain with
  | root _ => exact ⟨g.root, [], rfl, sound.root_lt, Nat.zero_le _⟩
  | @down p c pages chain pointed branch ih =>
      obtain ⟨q, rest, same, inside, bound⟩ := ih
      cases same
      have allocated := sound.pointer_lt inside pointed
      refine ⟨c, p :: pages, rfl, allocated, ?_⟩
      cases page : g.page p with
      | leaf items =>
          rw [page] at pointed
          cases pointed
      | branch items next =>
          rw [page] at pointed
          have higher := (sound.branch p inside items next page).rank_lt c pointed
          rw [List.length_cons]
          omega

/-- An index of few pages is shallow. -/
theorem shallow_of_size {g : Graph Key ℕ} {labels : Labels Key} (sound : Sound g labels)
    (few : g.size < maxDepth) : Shallow g := by
  intro pages chain
  obtain ⟨p, rest, rfl, inside, bound⟩ := chain.length_le sound
  have ranked := sound.rank_lt p inside
  rw [List.length_cons]
  omega

/-! ## A long walk is a deep one -/

/-- How many entries a walk can have passed by with a path, when no page has more than `most` items.
-/
def passed (most : ℕ) : List (ℕ × ℕ) → ℕ
  | [] => 0
  | [(_, pos)] => pos + 1
  | (_, pos) :: (_, ppos) :: rest => rest.length * ((most + 1) * most) + ppos * most + pos + 1

theorem firstLeaf_length {g : Graph Key ℕ} : ∀ {fuel p : ℕ} {above path : List (ℕ × ℕ)},
    firstLeaf g fuel p above = some path → ∃ leaf pages, path = (leaf, 0) :: pages ∧
      (pages = above ∨ ∃ q rest, pages = (q, 0) :: rest ∧ above.length ≤ rest.length) := by
  intro fuel
  induction fuel with
  | zero =>
      intro p above path found
      cases found
  | succ fuel ih =>
      intro p above path found
      rw [firstLeaf] at found
      cases page : g.page p with
      | leaf items =>
          rw [page] at found
          cases found
          exact ⟨p, above, rfl, Or.inl rfl⟩
      | branch items next =>
          rw [page] at found
          cases items with
          | nil => cases found
          | cons item rest =>
              obtain ⟨leaf, pages, same, deeper⟩ := ih found
              refine ⟨leaf, pages, same, Or.inr ?_⟩
              rcases deeper with rfl | ⟨q, rest, rfl, longer⟩
              · exact ⟨p, above, rfl, le_rfl⟩
              · exact ⟨q, rest, rfl, (Nat.le_succ _).trans longer⟩

/-- A path has passed by no more than what the pages of its chain hold. -/
theorem passed_le {most leaf pos parent ppos : ℕ} {rest : List (ℕ × ℕ)} (inside : pos < most)
    (inside' : ppos ≤ most) :
    passed most ((leaf, pos) :: (parent, ppos) :: rest) ≤
      (rest.length + 1) * ((most + 1) * most) := by
  have page : ppos * most ≤ most * most := Nat.mul_le_mul_right _ inside'
  change rest.length * ((most + 1) * most) + ppos * most + pos + 1 ≤ _
  linarith

/-- A path with a new branch page in it has passed by more. -/
theorem passed_lt {most leaf pos parent ppos leaf' q : ℕ} {rest above : List (ℕ × ℕ)}
    (inside : pos < most) (inside' : ppos < most) (longer : rest.length + 1 ≤ above.length) :
    passed most ((leaf, pos) :: (parent, ppos) :: rest) <
      passed most ((leaf', 0) :: (q, 0) :: above) := by
  have page : (ppos + 1) * most ≤ most * most := Nat.mul_le_mul_right _ inside'
  have chain : (rest.length + 1) * ((most + 1) * most) ≤ above.length * ((most + 1) * most) :=
    Nat.mul_le_mul_right _ longer
  change rest.length * ((most + 1) * most) + ppos * most + pos + 1 <
    above.length * ((most + 1) * most) + 0 * most + 0 + 1
  linarith

section Passed

variable {idx later : Idx} {keylen leaf pos : ℕ} {items : List (Key × ℕ)} {entry : Key × ℕ}
  {above : List (ℕ × ℕ)}

theorem At.pos_lt (here : At idx leaf pos items entry above) (filled : Filled keylen idx.graph) :
    pos < items.length ∧ items.length ≤ maxItems keylen - 1 := by
  refine ⟨(List.getElem?_eq_some_iff.mp here.present).1, ?_⟩
  have below := filled.below leaf here.inside
  rw [here.page] at below
  exact Nat.le_sub_one_of_lt below

/-- Each step of a walk passes by an entry. -/
theorem idxNext_passed (here : At idx leaf pos items entry above)
    (filled : Filled keylen idx.graph) (goes : idxNext idx = some (true, later)) :
    passed (maxItems keylen - 1) idx.path < passed (maxItems keylen - 1) later.path := by
  obtain ⟨inside, most⟩ := here.pos_lt filled
  rw [here.path]
  unfold idxNext at goes
  rw [here.path] at goes
  dsimp only at goes
  split at goes
  · cases goes
    rcases here.below with ⟨rfl, _⟩ | ⟨parent, ppos, rest, _, _, rfl, _⟩
    · exact Nat.lt_succ_self _
    · exact Nat.lt_succ_self _
  rcases here.below with ⟨rfl, _⟩ | ⟨parent, ppos, rest, pitems, next, rfl, allocated, page, _⟩
  · cases goes
  · have count : pitems.length ≤ maxItems keylen - 1 := by
      have below := filled.below parent allocated
      rw [page] at below
      exact Nat.le_sub_one_of_lt below
    simp only [page] at goes
    split at goes
    · rename_i room
      obtain ⟨path, down, same⟩ := Option.map_eq_some_iff.mp goes
      cases same
      obtain ⟨leaf', pages, same, deeper⟩ := firstLeaf_length down
      rw [same]
      rcases deeper with rfl | ⟨q, rest', rfl, longer⟩
      · change rest.length * ((maxItems keylen - 1 + 1) * (maxItems keylen - 1)) +
          ppos * (maxItems keylen - 1) + pos + 1 <
          rest.length * ((maxItems keylen - 1 + 1) * (maxItems keylen - 1)) +
          (ppos + 1) * (maxItems keylen - 1) + 0 + 1
        have next : (ppos + 1) * (maxItems keylen - 1) =
            ppos * (maxItems keylen - 1) + (maxItems keylen - 1) := Nat.succ_mul _ _
        omega
      · exact passed_lt (by omega) (by omega) longer
    · cases goes

end Passed

/-- A walk ends where it has passed by all the entries that it visits. -/
theorem idxWalkFrom_passed {start : Idx} {labels : Labels Key} {keylen : ℕ}
    (sound : Sound start.graph labels) (filled : Filled keylen start.graph) :
    ∀ {fuel : ℕ} {idx : Idx} {leaf pos : ℕ} {items : List (Key × ℕ)} {entry : Key × ℕ}
      {above : List (ℕ × ℕ)} {visited : List (Key × ℕ)}, Walked start true idx →
      idx.graph = start.graph → At idx leaf pos items entry above →
      idxWalkFrom fuel idx = some visited →
      ∃ last leaf' pos' items' entry' above', Walked start true last ∧
        last.graph = start.graph ∧ At last leaf' pos' items' entry' above' ∧
        passed (maxItems keylen - 1) idx.path + visited.length ≤
          passed (maxItems keylen - 1) last.path + 1 := by
  intro fuel
  induction fuel with
  | zero =>
      intro idx leaf pos items entry above visited _ _ _ walks
      cases walks
  | succ fuel ih =>
      intro idx leaf pos items entry above visited walked same here walks
      rw [idxWalkFrom, here.current] at walks
      rcases idxNext_spec (same ▸ sound) here with
        ⟨later, leaf', pos', items', entry', above', goes, same', there, _⟩ | ⟨later, goes, _⟩
      · rw [goes] at walks
        obtain ⟨rest, walks', rfl⟩ := Option.map_eq_some_iff.mp walks
        obtain ⟨last, leaf'', pos'', items'', entry'', above'', ended⟩ :=
          ih (walked.next goes) (same'.trans same) there walks'
        refine ⟨last, leaf'', pos'', items'', entry'', above'', ended.1, ended.2.1, ended.2.2.1, ?_⟩
        have bound := ended.2.2.2
        have step := idxNext_passed here (by rw [same]; exact filled) goes
        rw [List.length_append]
        change _ + (1 + rest.length) ≤ _
        omega
      · rw [goes] at walks
        cases walks
        exact ⟨idx, leaf, pos, items, entry, above, walked, same, here, le_rfl⟩

/-- A walk over all the entries of an index needs a level for every so many of them. -/
theorem exists_deep {keylen : ℕ} {entries : List (Key × ℕ)} {idx : Idx}
    (written : Written keylen entries idx) (distinct : (entries.map Prod.fst).Nodup)
    (many : entries ≠ []) :
    ∃ now, Walked idx true now ∧
      entries.length ≤ max 1 now.depth * (maxItems keylen * (maxItems keylen - 1)) := by
  obtain ⟨_, _, filled, ⟨labels, sound⟩, held⟩ := written
  obtain ⟨visited, walks, all, _⟩ := idxWalk_spec sound entries distinct held
  have walks := walks _ le_rfl
  unfold idxWalk at walks
  rcases idxFirst_spec sound with
    ⟨first, leaf, items, entry, above, goes, same, here, _⟩ | ⟨first, goes, none⟩
  · rw [goes] at walks
    obtain ⟨last, leaf', pos', items', entry', above', walked, same', there, bound⟩ :=
      idxWalkFrom_passed sound filled (.first goes) same here walks
    refine ⟨last, walked, ?_⟩
    have filled' : Filled keylen last.graph := by
      rw [same']
      exact filled
    obtain ⟨inside, most⟩ := there.pos_lt filled'
    have begun : 1 ≤ passed (maxItems keylen - 1) first.path := by
      rw [here.path]
      cases above with
      | nil => exact le_rfl
      | cons step rest => exact Nat.le_add_left _ _
    rw [all.length_eq] at bound
    have total : entries.length ≤ passed (maxItems keylen - 1) last.path := by omega
    refine total.trans ?_
    unfold Idx.depth
    rw [there.path]
    have room : maxItems keylen - 1 + 1 = maxItems keylen := by omega
    rcases there.below with
      ⟨rfl, _⟩ | ⟨parent, ppos, rest, pitems, next, rfl, allocated, page, ends⟩
    · change pos' + 1 ≤ 1 * _
      rw [Nat.one_mul]
      exact (by omega : pos' + 1 ≤ maxItems keylen - 1).trans (Nat.le_mul_of_pos_left _ (by omega))
    · have count : pitems.length ≤ maxItems keylen - 1 := by
        have below := filled'.below parent allocated
        rw [page] at below
        exact Nat.le_sub_one_of_lt below
      have position : ppos ≤ pitems.length := by
        rcases ends with ⟨k, present⟩ | ⟨rfl, _⟩
        · exact (List.getElem?_eq_some_iff.mp present).1.le
        · exact le_rfl
      have levels := @passed_le (maxItems keylen - 1) leaf' pos' parent ppos rest (by omega)
        (by omega)
      rw [room] at levels
      refine levels.trans (Nat.mul_le_mul_right _ ?_)
      exact le_max_right _ _
  · obtain ⟨entry, rest, rfl⟩ := List.exists_cons_of_ne_nil many
    exact (none entry ((held entry).mpr List.mem_cons_self)).elim

/-! ## The bound -/

/-- After enough writes a walk gets too deep, whatever the keys and their order. -/
theorem not_depthOk_of_long {keylen : ℕ} (short : keylen ≤ 256) {entries : List (Key × ℕ)}
    (distinct : (entries.map Prod.fst).Nodup)
    (long : (maxDepth - 1) * (maxItems keylen * (maxItems keylen - 1)) < entries.length) :
    ¬ DepthOk keylen entries := by
  intro depthOk
  obtain ⟨idx, written⟩ := exists_written short distinct
  obtain ⟨now, walked, bound⟩ := exists_deep written distinct
    (List.length_pos_iff.mp ((Nat.zero_le _).trans_lt long))
  have below := depthOk.walk idx written.wrote true now walked
  have levels : max 1 now.depth ≤ maxDepth - 1 := by
    unfold maxDepth at below ⊢
    omega
  exact absurd (bound.trans (Nat.mul_le_mul_right _ levels)) (not_le.mpr long)

/-- Three keys of one byte, all of them in the root. -/
theorem depthOk_three : DepthOk 1 [([2], 0), ([3], 1), ([1], 2)] := by
  have small : ∀ before ∈ ([([2], 0), ([3], 1), ([1], 2)] : List (Key × ℕ)).inits,
      (idxWrites (Idx.empty 1) before).all (fun now => decide (now.graph.size < maxDepth)) =
        true := by decide +kernel
  refine depthOk_of_shallow fun before after split now written => ?_
  have front : before <+: [([2], 0), ([3], 1), ([1], 2)] := ⟨after, split.symm⟩
  have distinct : (before.map Prod.fst).Nodup :=
    (front.sublist.map Prod.fst).nodup (show [[2], [3], [1]].Nodup by decide)
  obtain ⟨idx, wrote⟩ := exists_written (show 1 ≤ 256 by decide) distinct
  cases written.symm.trans wrote.wrote
  obtain ⟨labels, sound⟩ := wrote.sound
  have few := small before ((List.mem_inits _ _).mpr front)
  rw [written] at few
  exact shallow_of_size sound (of_decide_eq_true few)

/-- A key of 256 bytes. -/
def longKey (n : ℕ) : Key :=
  Fin.ofNat 256 (n / 256) :: Fin.ofNat 256 (n % 256) :: List.replicate 254 0

theorem longKey_injective {n m : ℕ} (small : n < 65536) (small' : m < 65536)
    (same : longKey n = longKey m) : n = m := by
  unfold longKey at same
  injection same with high rest
  injection rest with low _
  have high := congrArg Fin.val high
  have low := congrArg Fin.val low
  simp only [Fin.val_ofNat] at high low
  omega

/-- A few thousand keys of 256 bytes. -/
theorem depthOk_fails : ¬ ∀ keylen (entries : List (Key × ℕ)), 1 ≤ keylen → keylen ≤ 256 →
    (∀ entry ∈ entries, entry.1.length = keylen) → (entries.map Prod.fst).Nodup →
    DepthOk keylen entries := by
  intro always
  have length : ∀ entry ∈ (List.range 2731).map fun n => (longKey n, n), entry.1.length = 256 := by
    intro entry member
    obtain ⟨n, _, rfl⟩ := List.mem_map.mp member
    unfold longKey
    rw [List.length_cons, List.length_cons, List.length_replicate]
  have distinct : (((List.range 2731).map fun n => (longKey n, n)).map Prod.fst).Nodup := by
    rw [List.map_map]
    refine List.Nodup.map_on (fun n inside m inside' same => ?_) List.nodup_range
    have below := List.mem_range.mp inside
    have below' := List.mem_range.mp inside'
    exact longKey_injective (by omega) (by omega) same
  refine not_depthOk_of_long le_rfl distinct ?_
    (always 256 _ (by decide) le_rfl length distinct)
  rw [List.length_map, List.length_range]
  decide

end Pqfh.Memfh
