import Pqfh.Foundation.SearchGraphBranch

/-! # Search paths

The pages a search has gone through, deepest first, each with the position it was
left at. A path stays valid while pages below it are rewritten and the graph grows.
-/

namespace SearchGraph

variable {K V : Type*} [LinearOrder K]

/-- The pages, with positions, along which `key` is routed from the root to `p`. -/
def Path (g : Graph K V) (labels : Labels K) (key : K) : ℕ → List (ℕ × ℕ) → Prop
  | p, [] => p = g.root
  | p, (q, i) :: above =>
      q < g.size ∧ labels.rank q < labels.rank p ∧ labels.low q ≤ key ∧
      (∃ items next, g.page q = .branch items next ∧ route key next items 0 = (i, p)) ∧
      Path g labels key q above

/-- Paths depend only on the pages ranked before their end. -/
theorem Path.transport {g g' : Graph K V} {labels labels' : Labels K} {key : K}
    (root : g'.root = g.root) (grown : g.size ≤ g'.size)
    (extended : Extends g.size labels labels') :
    ∀ {above : List (ℕ × ℕ)} {p : ℕ}, p < g.size → Path g labels key p above →
      (∀ q < g.size, labels.rank q < labels.rank p → g'.page q = g.page q) →
      Path g' labels' key p above := by
  intro above
  induction above with
  | nil =>
      intro p _ path _
      exact path.trans root.symm
  | cons step above ih =>
      intro p inside path kept
      obtain ⟨q, i⟩ := step
      obtain ⟨below, lower, asked, ⟨items, next, page, routed⟩, path⟩ := path
      refine ⟨below.trans_le grown, extended.rank q below p inside lower, ?_,
        ⟨items, next, (kept q below lower).trans page, routed⟩,
        ih below path fun r below' lower' => kept r below' (lower'.trans lower)⟩
      rw [extended.low q below]
      exact asked

/-- From a page that may be asked for a key, routing leads to an entry page whose
range holds the key, in fewer steps than there are pages ranked after it. -/
theorem Pages.descend {g : Graph K V} {labels : Labels K} (pages : Pages g labels) {key : K}
    {motive : ℕ → ℕ → Prop}
    (leaf : ∀ fuel p items, p < g.size → g.page p = .leaf items → labels.InRange p key →
      motive (fuel + 1) p)
    (branch : ∀ fuel p items next, p < g.size → g.page p = .branch items next →
      labels.low p ≤ key → labels.rank p < labels.rank (route key next items 0).2 →
      motive fuel (route key next items 0).2 → motive (fuel + 1) p) :
    ∀ fuel p, p < g.size → labels.low p ≤ key → ((g.page p).IsLeaf → key < labels.high p) →
      g.size - labels.rank p ≤ fuel → motive fuel p := by
  intro fuel
  induction fuel with
  | zero =>
      intro p inside _ _ enough
      have bound := pages.rank_lt p inside
      omega
  | succ fuel ih =>
      intro p inside asked bounded enough
      cases shape : g.page p with
      | leaf items =>
          exact leaf fuel p items inside shape ⟨asked, bounded (by rw [shape]; trivial)⟩
      | branch items next =>
          have described := pages.branch p inside items next shape
          have member := route_mem key next items 0
          have routed := described.route asked 0
          have lower := described.rank_lt _ member
          refine branch fuel p items next inside shape asked lower ?_
          exact ih _ (described.allocated _ member) routed.1 routed.2 (by omega)

/-- Entries held in the range of an entry page are entries of that page. -/
theorem Pages.mem_of_inRange {g : Graph K V} {labels : Labels K} (pages : Pages g labels) {p : ℕ}
    {items : List (K × V)} (inside : p < g.size) (page : g.page p = .leaf items) {entry : K × V}
    (inRange : labels.InRange p entry.1) (held : g.Holds entry) : entry ∈ items := by
  obtain ⟨q, below, entries, found, member⟩ := held
  have within := (pages.leaf q below entries found).inRange entry member
  have same : q = p := pages.disjoint q below p inside (by rw [found]; trivial)
    (by rw [page]; trivial) entry.1 within inRange
  subst same
  cases page.symm.trans found
  exact member

/-- The pointer after the one at position `i`. -/
def pointerAfter (next : ℕ) (items : List (K × ℕ)) (i : ℕ) : ℕ :=
  headPtr next (items.drop (i + 1))

/-- After an entry page, a routing page points on to where its keys end. -/
theorem Handoff.after {isLeaf : ℕ → Prop} {labels : Labels K} {next : ℕ} :
    ∀ {items : List (K × ℕ)} {i : ℕ} {k : K} {c : ℕ}, Handoff isLeaf labels next items →
      items[i]? = some (k, c) → isLeaf c →
      labels.high c = k ∧ labels.lead (pointerAfter next items i) = k := by
  intro items
  induction items with
  | nil => intro i k c _ present; cases present
  | cons item rest ih =>
      intro i k c handoff present leaf
      obtain ⟨ended, _, handoff⟩ := handoff
      cases i with
      | zero =>
          cases Option.some.inj present
          exact ended leaf
      | succ i => exact ih handoff (by simpa using present) leaf

/-- A routing page sends a key to the pointer at the position it notes. -/
theorem route_position (key : K) (next : ℕ) :
    ∀ (items : List (K × ℕ)) (start : ℕ),
      (∃ i k c, route key next items start = (start + i, c) ∧ items[i]? = some (k, c)) ∨
        route key next items start = (start + items.length, next) := by
  intro items
  induction items with
  | nil => intro start; exact Or.inr rfl
  | cons item rest ih =>
      intro start
      obtain ⟨k, c⟩ := item
      by_cases below : key < k
      · exact Or.inl ⟨0, k, c, by simp [route, below], rfl⟩
      · have on : route key next ((k, c) :: rest) start = route key next rest (start + 1) := by
          simp [route, below]
        rw [on]
        rcases ih (start + 1) with ⟨i, k', c', reached, present⟩ | reached
        · exact Or.inl ⟨i + 1, k', c', by rw [reached]; congr 1; omega, by simpa using present⟩
        · exact Or.inr (by rw [reached, List.length_cons]; congr 1; omega)

/-- The pages of a path are ranked before its end. -/
theorem Path.rank_lt {g : Graph K V} {labels : Labels K} {key : K} :
    ∀ {above : List (ℕ × ℕ)} {p : ℕ}, Path g labels key p above →
      ∀ step ∈ above, labels.rank step.1 < labels.rank p := by
  intro above
  induction above with
  | nil =>
      intro p _ step member
      cases member
  | cons first above ih =>
      intro p path step member
      obtain ⟨_, lower, _, _, path⟩ := path
      rcases List.mem_cons.mp member with rfl | member
      · exact lower
      · exact (ih path step member).trans lower

/-- The pages of a path are allocated. -/
theorem Path.inside {g : Graph K V} {labels : Labels K} {key : K} :
    ∀ {above : List (ℕ × ℕ)} {p : ℕ}, Path g labels key p above →
      ∀ step ∈ above, step.1 < g.size := by
  intro above
  induction above with
  | nil =>
      intro p _ step member
      cases member
  | cons first above ih =>
      intro p path step member
      obtain ⟨below, _, _, _, path⟩ := path
      rcases List.mem_cons.mp member with rfl | member
      · exact below
      · exact ih path step member

/-- The pages above a page of a path are other pages. -/
theorem Path.off_path {g : Graph K V} {labels : Labels K} {key : K} {p q i : ℕ}
    {above : List (ℕ × ℕ)} (path : Path g labels key p ((q, i) :: above)) :
    ∀ step ∈ above, q ≠ step.1 := by
  obtain ⟨_, _, _, _, path⟩ := path
  intro step member same
  exact (path.rank_lt step member).ne (congrArg labels.rank same.symm)

/-- The position at which a page was left points to the page below it. -/
theorem Path.pointed {g : Graph K V} {labels : Labels K} {key : K} {p q i : ℕ}
    {above : List (ℕ × ℕ)} (path : Path g labels key p ((q, i) :: above)) :
    ∃ items next, g.page q = .branch items next ∧
      ((∃ k, items[i]? = some (k, p)) ∨ (i = items.length ∧ next = p)) := by
  obtain ⟨_, _, _, ⟨items, next, page, routed⟩, _⟩ := path
  refine ⟨items, next, page, ?_⟩
  rcases route_position key next items 0 with ⟨j, k, c, reached, present⟩ | reached
  · cases routed.symm.trans reached
    exact Or.inl ⟨k, by rw [Nat.zero_add]; exact present⟩
  · cases routed.symm.trans reached
    exact Or.inr ⟨Nat.zero_add _, rfl⟩

omit [LinearOrder K] in
/-- The pointer at a position of a routing page, among all its pointers. -/
theorem pointer_position {items : List (K × ℕ)} {next c i : ℕ}
    (pointed : (∃ k, items[i]? = some (k, c)) ∨ (i = items.length ∧ next = c)) :
    (items.map Prod.snd ++ [next])[i]? = some c := by
  rcases pointed with ⟨k, present⟩ | ⟨rfl, rfl⟩
  · have inside : i < (items.map Prod.snd).length := by
      rw [List.length_map]
      exact (List.getElem?_eq_some_iff.mp present).1
    rw [List.getElem?_append_left inside, List.getElem?_map, present, Option.map_some]
  · simp

omit [LinearOrder K] in
/-- A right half is linked in after the pointer to its left half, which keeps its position. -/
theorem link_position {sep : K} {first second next next' i : ℕ} {items items' : List (K × ℕ)}
    (linked : link sep first second items next = some (items', next'))
    (once : (items.map Prod.snd ++ [next]).Nodup)
    (pointed : (∃ k, items[i]? = some (k, first)) ∨ (i = items.length ∧ next = first)) :
    items'[i]? = some (sep, first) ∧ items'.length = items.length + 1 := by
  have position := pointer_position pointed
  have inside := (List.getElem?_eq_some_iff.mp position).1
  rcases link_eq_some linked with ⟨rfl, rfl, rfl⟩ | ⟨rfl, front, k, back, rfl, rfl⟩
  · have last : i = items.length :=
      (List.getElem?_inj inside once).mp
        (position.trans (pointer_position (Or.inr ⟨rfl, rfl⟩)).symm)
    subst last
    exact ⟨by simp, by simp⟩
  · have here : i = front.length :=
      (List.getElem?_inj inside once).mp
        (position.trans (pointer_position (Or.inl ⟨k, by simp⟩)).symm)
    subst here
    exact ⟨by simp, by simp; omega⟩

/-! ## Entries held while a graph grows -/

section Holds

variable {g : Graph K V} {entry : K × V}

omit [LinearOrder K] in
/-- Rewriting a routing page changes no entries. -/
theorem Graph.holds_setPage_branch {p next next' : ℕ} {items items' : List (K × ℕ)}
    (page : g.page p = .branch items next) :
    (g.setPage p (.branch items' next')).Holds entry ↔ g.Holds entry := by
  have same : ∀ q entries, (g.setPage p (.branch items' next')).page q = .leaf entries ↔
      g.page q = .leaf entries := by
    intro q entries
    by_cases changed : q = p
    · subst changed
      simp [page]
    · rw [g.setPage_page_of_ne _ changed]
  simp only [Graph.Holds, Graph.setPage_size, same]

omit [LinearOrder K] in
/-- Rewriting an entry page exchanges its entries. -/
theorem Graph.holds_setPage_leaf {p : ℕ} {items items' : List (K × V)} (inside : p < g.size)
    (page : g.page p = .leaf items) {added : K × V}
    (written : ∀ entry, entry ∈ items' ↔ entry ∈ items ∨ entry = added) :
    (g.setPage p (.leaf items')).Holds entry ↔ g.Holds entry ∨ entry = added := by
  constructor
  · rintro ⟨q, below, entries, found, member⟩
    by_cases changed : q = p
    · subst changed
      rw [g.setPage_page_self] at found
      cases found
      exact ((written entry).mp member).imp (fun old => ⟨q, below, items, page, old⟩) id
    · rw [g.setPage_page_of_ne _ changed] at found
      exact Or.inl ⟨q, below, entries, found, member⟩
  · rintro (⟨q, below, entries, found, member⟩ | new)
    · by_cases changed : q = p
      · subst changed
        cases page.symm.trans found
        exact ⟨q, below, items', g.setPage_page_self .., (written entry).mpr (Or.inl member)⟩
      · exact ⟨q, below, entries, by rw [g.setPage_page_of_ne _ changed, found], member⟩
    · exact ⟨p, inside, items', g.setPage_page_self .., (written entry).mpr (Or.inr new)⟩

omit [LinearOrder K] in
/-- Splitting an entry page divides its entries. -/
theorem Graph.holds_splitLeaf {first : ℕ} {left right : List (K × V)} (inside : first < g.size)
    (page : g.page first = .leaf (left ++ right)) :
    (g.splitLeaf first left right).Holds entry ↔ g.Holds entry := by
  constructor
  · rintro ⟨q, allocated, entries, found, member⟩
    replace allocated : q < g.size + 1 := allocated
    rcases Nat.lt_succ_iff_lt_or_eq.mp allocated with below | rfl
    · by_cases changed : q = first
      · subst changed
        rw [Graph.splitLeaf_page_first inside] at found
        cases found
        exact ⟨q, inside, _, page, List.mem_append_left _ member⟩
      · rw [Graph.splitLeaf_page_of_ne below changed] at found
        exact ⟨q, below, entries, found, member⟩
    · cases Graph.splitLeaf_page_size.symm.trans found
      exact ⟨first, inside, _, page, List.mem_append_right _ member⟩
  · rintro ⟨q, below, entries, found, member⟩
    by_cases changed : q = first
    · subst changed
      cases page.symm.trans found
      rcases List.mem_append.mp member with member | member
      · exact ⟨q, inside.trans (Nat.lt_succ_self _), left, Graph.splitLeaf_page_first inside,
          member⟩
      · exact ⟨g.size, Nat.lt_succ_self _, right, Graph.splitLeaf_page_size, member⟩
    · exact ⟨q, below.trans (Nat.lt_succ_self _), entries,
        (Graph.splitLeaf_page_of_ne below changed).trans found, member⟩

omit [LinearOrder K] in
/-- Splitting a routing page changes no entries. -/
theorem Graph.holds_splitBranch {first next : ℕ} {left right : List (K × ℕ)}
    (inside : first < g.size) (page : g.page first = .branch (left ++ right) next) :
    (g.splitBranch first left right next).Holds entry ↔ g.Holds entry := by
  constructor
  · rintro ⟨q, allocated, entries, found, member⟩
    obtain ⟨below, old⟩ := (Graph.splitBranch_page_leaf inside page allocated entries).mp found
    exact ⟨q, below, entries, old, member⟩
  · rintro ⟨q, below, entries, found, member⟩
    exact ⟨q, below.trans (Nat.lt_succ_self _), entries, (Graph.splitBranch_page_leaf inside page
      (below.trans (Nat.lt_succ_self _)) entries).mpr ⟨below, found⟩, member⟩

omit [LinearOrder K] in
/-- A new root changes no entries. -/
theorem Graph.holds_newRoot {first second : ℕ} {sep : K} :
    (g.newRoot sep first second).Holds entry ↔ g.Holds entry := by
  have new : (g.newRoot sep first second).page g.size = .branch [(sep, first)] second :=
    g.alloc_page_size _
  constructor
  · rintro ⟨q, allocated, entries, found, member⟩
    rcases Nat.lt_succ_iff_lt_or_eq.mp allocated with below | rfl
    · exact ⟨q, below, entries, (g.alloc_page_of_lt _ below).symm.trans found, member⟩
    · cases new.symm.trans found
  · rintro ⟨q, below, entries, found, member⟩
    exact ⟨q, below.trans (Nat.lt_succ_self _), entries,
      (g.alloc_page_of_lt _ below).trans found, member⟩

end Holds

omit [LinearOrder K] in
/-- Splitting a page forgets what it held. -/
theorem Graph.setPage_splitBranch (g : Graph K V) (p : ℕ) (page : Page K V)
    (left right : List (K × ℕ)) (next : ℕ) :
    (g.setPage p page).splitBranch p left right next = g.splitBranch p left right next := by
  simp only [Graph.splitBranch, Graph.setPage, Function.update_idem]

omit [LinearOrder K] in
theorem Graph.setPage_splitLeaf (g : Graph K V) (p : ℕ) (page : Page K V)
    (left right : List (K × V)) :
    (g.setPage p page).splitLeaf p left right = g.splitLeaf p left right := by
  simp only [Graph.splitLeaf, Graph.setPage, Function.update_idem]

/-! ## What all entries have in common -/

section Every

omit [LinearOrder K]

/-- Every entry of every page, allocated or not, has a property. -/
def Graph.Every (g : Graph K V) (property : K × V → Prop) : Prop :=
  ∀ p items, g.page p = .leaf items → ∀ entry ∈ items, property entry

variable {g : Graph K V} {property : K × V → Prop}

theorem Graph.Every.weaken (every : g.Every property) {weaker : K × V → Prop}
    (weakens : ∀ entry, property entry → weaker entry) : g.Every weaker :=
  fun p items page entry member => weakens _ (every p items page entry member)

theorem Graph.Every.setPage (every : g.Every property) {page : Page K V}
    (fits : ∀ items, page = .leaf items → ∀ entry ∈ items, property entry) (p : ℕ) :
    (g.setPage p page).Every property := by
  intro q items there
  by_cases same : q = p
  · subst same
    rw [g.setPage_page_self] at there
    exact fits items there
  · rw [g.setPage_page_of_ne _ same] at there
    exact every q items there

theorem Graph.Every.alloc (every : g.Every property) {page : Page K V}
    (fits : ∀ items, page = .leaf items → ∀ entry ∈ items, property entry) :
    (g.alloc page).Every property :=
  every.setPage fits g.size

theorem Graph.Every.splitLeaf (every : g.Every property) {left right : List (K × V)}
    (fits : ∀ entry ∈ left ++ right, property entry) (p : ℕ) :
    (g.splitLeaf p left right).Every property := by
  refine (every.setPage ?_ p).alloc ?_
  · intro items same entry member
    cases same
    exact fits entry (List.mem_append_left _ member)
  · intro items same entry member
    cases same
    exact fits entry (List.mem_append_right _ member)

theorem Graph.Every.splitBranch (every : g.Every property) (p : ℕ) (left right : List (K × ℕ))
    (next : ℕ) : (g.splitBranch p left right next).Every property :=
  (every.setPage (fun _ same => by cases same) p).alloc fun _ same => by cases same

theorem Graph.Every.newRoot (every : g.Every property) (sep : K) (first second : ℕ) :
    (g.newRoot sep first second).Every property :=
  every.alloc fun _ same => by cases same

end Every

end SearchGraph
