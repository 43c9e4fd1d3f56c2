import Pqfh.Foundation.SearchGraph

/-! # Growth of right-linked search graphs

The steps by which a right-linked search graph grows, each with the labels it
leaves behind. Splitting a routing page needs no change above it: the left half
ends in a pointer to the right half, and is still entitled to every key it was
entitled to. Only an entry page must be split together with its one pointer.
-/

namespace SearchGraph

variable {K V : Type*} [LinearOrder K]

/-! ## Relabelling untouched pages -/

/-- Labels that keep what they said of the pages below `size`, bounds apart. -/
structure Extends (size : ℕ) (labels labels' : Labels K) : Prop where
  low : ∀ p < size, labels'.low p = labels.low p
  lead : ∀ p < size, labels'.lead p = labels.lead p
  rank : ∀ p < size, ∀ q < size, labels.rank p < labels.rank q → labels'.rank p < labels'.rank q

/-- A routing page stays described when the bounds of its entry pages stay. -/
theorem BranchOk.extend {isLeaf isLeaf' : ℕ → Prop} {labels labels' : Labels K}
    {size size' p next : ℕ} {items : List (K × ℕ)}
    (page : BranchOk isLeaf labels size p items next) (extended : Extends size labels labels')
    (inside : p < size) (grown : size ≤ size')
    (ends : ∀ c ∈ items.map Prod.snd ++ [next], isLeaf' c →
      isLeaf c ∧ labels'.high c = labels.high c) :
    BranchOk isLeaf' labels' size' p items next where
  nonempty := page.nonempty
  handoff := page.handoff.congr
    (fun c member => ends c (List.mem_append_left _ member))
    (fun c member => ⟨extended.low c (page.allocated c member),
      extended.lead c (page.allocated c member)⟩)
  last := by
    intro leaf
    obtain ⟨leaf, high⟩ := ends next (by simp) leaf
    rw [high]
    exact page.last leaf
  first := by
    rw [extended.low p inside,
      extended.low _ (page.allocated _ (headPtr_mem next items))]
    exact page.first
  lead_eq := by
    rw [extended.lead p inside,
      extended.lead _ (page.allocated _ (headPtr_mem next items))]
    exact page.lead_eq
  nodup := page.nodup
  allocated := fun c member => (page.allocated c member).trans_le grown
  rank_lt := fun c member => extended.rank p inside c (page.allocated c member)
    (page.rank_lt c member)

/-- Pointers of a described graph lead to allocated pages. -/
theorem Pages.pointer_lt {g : Graph K V} {labels : Labels K} (pages : Pages g labels) {p c : ℕ}
    (inside : p < g.size) (member : c ∈ (g.page p).pointers) : c < g.size := by
  cases shape : g.page p with
  | leaf items => rw [shape] at member; cases member
  | branch items next =>
      rw [shape] at member
      exact (pages.branch p inside items next shape).allocated c member

/-- Pointers of a described graph raise the rank. -/
theorem Pages.pointer_rank {g : Graph K V} {labels : Labels K} (pages : Pages g labels) {p c : ℕ}
    (inside : p < g.size) (member : c ∈ (g.page p).pointers) : labels.rank p < labels.rank c := by
  cases shape : g.page p with
  | leaf items => rw [shape] at member; cases member
  | branch items next =>
      rw [shape] at member
      exact (pages.branch p inside items next shape).rank_lt c member

/-- No page points to the root. -/
theorem Sound.root_not_pointer {g : Graph K V} {labels : Labels K} (sound : Sound g labels) {p : ℕ}
    (inside : p < g.size) : g.root ∉ (g.page p).pointers := by
  intro member
  have lower := sound.pointer_rank inside member
  rw [sound.root_rank] at lower
  exact Nat.not_lt_zero _ lower

/-! ## Linking a right half -/

omit [LinearOrder K] in
/-- Where the pointer to a right half is inserted among items. -/
theorem linkItems_eq_some {sep : K} {first second : ℕ} :
    ∀ {items linked : List (K × ℕ)}, linkItems sep first second items = some linked →
      ∃ front k back, items = front ++ (k, first) :: back ∧
        linked = front ++ (sep, first) :: (k, second) :: back := by
  intro items
  induction items with
  | nil => intro linked found; cases found
  | cons item rest ih =>
      intro linked found
      obtain ⟨k, c⟩ := item
      by_cases same : c = first
      · simp only [linkItems, same, ↓reduceIte, Option.some.injEq] at found
        exact ⟨[], k, rest, by simp [same], by simp [← found]⟩
      · simp only [linkItems, same, ↓reduceIte, Option.map_eq_some_iff] at found
        obtain ⟨tail, found, rfl⟩ := found
        obtain ⟨front, k', back, rfl, rfl⟩ := ih found
        exact ⟨(k, c) :: front, k', back, rfl, rfl⟩

omit [LinearOrder K] in
theorem linkItems_isSome {sep : K} {first second : ℕ} :
    ∀ {items : List (K × ℕ)}, first ∈ items.map Prod.snd →
      (linkItems sep first second items).isSome := by
  intro items
  induction items with
  | nil => intro member; cases member
  | cons item rest ih =>
      intro member
      obtain ⟨k, c⟩ := item
      by_cases same : c = first
      · simp [linkItems, same]
      · simp only [linkItems, same, ↓reduceIte, Option.isSome_map]
        exact ih ((List.mem_cons.mp member).resolve_left (Ne.symm same))

omit [LinearOrder K] in
/-- A page that points to the left half can be linked to the right half. -/
theorem link_isSome {sep : K} {first second next : ℕ} {items : List (K × ℕ)}
    (member : first ∈ items.map Prod.snd ++ [next]) :
    (link sep first second items next).isSome := by
  by_cases same : next = first
  · simp [link, same]
  · simp only [link, same, ↓reduceIte, Option.isSome_map]
    refine linkItems_isSome ((List.mem_append.mp member).resolve_right fun last => ?_)
    exact same (List.mem_singleton.mp last).symm

omit [LinearOrder K] in
/-- The two ways of linking a right half: after the last pointer, or before a key. -/
theorem link_eq_some {sep : K} {first second next next' : ℕ} {items items' : List (K × ℕ)}
    (linked : link sep first second items next = some (items', next')) :
    (next = first ∧ items' = items ++ [(sep, first)] ∧ next' = second) ∨
      (next' = next ∧ ∃ front k back, items = front ++ (k, first) :: back ∧
        items' = front ++ (sep, first) :: (k, second) :: back) := by
  by_cases same : next = first
  · simp only [link, same, ↓reduceIte, Option.some.injEq, Prod.mk.injEq] at linked
    exact Or.inl ⟨same, linked.1.symm, linked.2.symm⟩
  · simp only [link, same, ↓reduceIte, Option.map_eq_some_iff, Prod.mk.injEq] at linked
    obtain ⟨tail, found, rfl, rfl⟩ := linked
    exact Or.inr ⟨rfl, linkItems_eq_some found⟩

omit [LinearOrder K] in
/-- Linking inserts the new pointer right after the pointer to the left half. -/
theorem link_pointers {sep : K} {first second next next' : ℕ} {items items' : List (K × ℕ)}
    (linked : link sep first second items next = some (items', next')) :
    ∃ front back, items.map Prod.snd ++ [next] = front ++ first :: back ∧
      items'.map Prod.snd ++ [next'] = front ++ first :: second :: back := by
  rcases link_eq_some linked with ⟨rfl, rfl, rfl⟩ | ⟨rfl, front, k, back, rfl, rfl⟩
  · exact ⟨items.map Prod.snd, [], rfl, by simp⟩
  · exact ⟨front.map Prod.snd, back.map Prod.snd ++ [next'], by simp, by simp⟩

omit [LinearOrder K] in
theorem mem_link_pointers {sep : K} {first second next next' : ℕ} {items items' : List (K × ℕ)}
    (linked : link sep first second items next = some (items', next')) (c : ℕ) :
    c ∈ items'.map Prod.snd ++ [next'] ↔ c = second ∨ c ∈ items.map Prod.snd ++ [next] := by
  obtain ⟨front, back, old, new⟩ := link_pointers linked
  rw [old, new]
  simp only [List.mem_append, List.mem_cons]
  tauto

omit [LinearOrder K] in
/-- Linking changes the first pointer only when there are no items. -/
theorem link_headPtr {sep : K} {first second next next' : ℕ} {items items' : List (K × ℕ)}
    (linked : link sep first second items next = some (items', next')) :
    headPtr next' items' = headPtr next items := by
  rcases link_eq_some linked with ⟨rfl, rfl, rfl⟩ | ⟨rfl, front, k, back, rfl, rfl⟩
  · rw [headPtr_append]; rfl
  · rw [headPtr_append, headPtr_append]; rfl

/-- A key routed to the first pointer is below the first key. -/
theorem below_head_of_route {isLeaf : ℕ → Prop} {labels : Labels K} {size p next : ℕ} {k key : K}
    {c : ℕ} {rest : List (K × ℕ)} (page : BranchOk isLeaf labels size p ((k, c) :: rest) next)
    {i : ℕ} (routed : (route key next ((k, c) :: rest) i).2 = c) : key < k := by
  by_contra above
  have member := route_mem key next rest (i + 1)
  simp only [route, above, ↓reduceIte] at routed
  rw [routed] at member
  exact (List.nodup_cons.mp page.nodup).1 member

/-- A routing page linked to the right half of one of its pages is described by
labels that end the left half, and start the right half, at the separator. The
pointer to the left half is one some key is routed along. -/
theorem BranchOk.link {isLeaf isLeaf' : ℕ → Prop} {labels labels' : Labels K}
    {size size' p next next' first second : ℕ} {items items' : List (K × ℕ)} {key sep : K}
    (page : BranchOk isLeaf labels size p items next) (extended : Extends size labels labels')
    (inside : p < size) (grown : size ≤ size')
    (asked : labels.low p ≤ key) (routed : (SearchGraph.route key next items 0).2 = first)
    (linked : SearchGraph.link sep first second items next = some (items', next'))
    (ends : ∀ c ∈ items.map Prod.snd ++ [next], c ≠ first → isLeaf' c →
      isLeaf c ∧ labels'.high c = labels.high c)
    (fresh : second ∉ items.map Prod.snd ++ [next]) (second_lt : second < size')
    (second_rank : labels'.rank p < labels'.rank second)
    (entitled : labels'.low second ≤ sep)
    (firstEnds : isLeaf' first → labels'.high first = sep ∧ labels'.lead second = sep)
    (secondEnds : isLeaf' second → isLeaf first ∧ labels'.high second = labels.high first) :
    BranchOk isLeaf' labels' size' p items' next' := by
  have starts : ∀ c ∈ items.map Prod.snd ++ [next],
      labels'.low c = labels.low c ∧ labels'.lead c = labels.lead c := fun c member =>
    ⟨extended.low c (page.allocated c member), extended.lead c (page.allocated c member)⟩
  have handed : Handoff isLeaf' labels' next' items' ∧
      (isLeaf' next' → labels'.high next' = ⊤) := by
    rcases link_eq_some linked with ⟨rfl, rfl, rfl⟩ | ⟨rfl, front, k, back, rfl, rfl⟩
    · refine ⟨(handoff_append ..).mpr ⟨?_, firstEnds, entitled, trivial⟩, fun leaf => ?_⟩
      · refine page.handoff.congr (fun c member => ends c (List.mem_append_left _ member) ?_) starts
        rintro rfl
        exact (List.nodup_append.mp page.nodup).2.2 c member c (by simp) rfl
      · obtain ⟨leaf, high⟩ := secondEnds leaf
        rw [high]
        exact page.last leaf
    · obtain ⟨before, ended, given, after⟩ := (handoff_append ..).mp page.handoff
      have split :
          (List.map Prod.snd front ++ first :: (List.map Prod.snd back ++ [next'])).Nodup := by
        simpa using page.nodup
      obtain ⟨_, apart, distinct⟩ := List.nodup_append.mp split
      have notBack : ∀ c ∈ List.map Prod.snd back ++ [next'], c ≠ first := by
        rintro c member rfl
        exact (List.nodup_cons.mp apart).1 member
      have inBack : ∀ c ∈ List.map Prod.snd back ++ [next'],
          c ∈ List.map Prod.snd (front ++ (k, first) :: back) ++ [next'] := by
        intro c member
        simp only [List.map_append, List.map_cons, List.append_assoc, List.cons_append]
        exact List.mem_append_right _ (List.mem_cons_of_mem _ member)
      have head := starts _ (inBack _ (headPtr_mem next' back))
      refine ⟨(handoff_append ..).mpr ⟨?_, firstEnds, entitled, fun leaf => ?_, ?_, ?_⟩,
        fun leaf => ?_⟩
      · refine before.congr (fun c member => ends c (by simp [member]) ?_) (fun c member => ?_)
        · rintro rfl
          exact distinct c member c (by simp) rfl
        · refine starts c ?_
          rcases List.mem_append.mp member with member | member
          · simp [member]
          · simp only [headPtr, List.mem_singleton] at member
            simp [member]
      · obtain ⟨leaf, high⟩ := secondEnds leaf
        rw [high, head.2]
        exact ended leaf
      · rw [head.1]
        exact given
      · exact after.congr
          (fun c member => ends c (inBack c (List.mem_append_left _ member))
            (notBack c (List.mem_append_left _ member)))
          (fun c member => starts c (inBack c member))
      · obtain ⟨leaf, high⟩ := ends next' (by simp) (notBack next' (by simp)) leaf
        rw [high]
        exact page.last leaf
  have nodup : (items'.map Prod.snd ++ [next']).Nodup := by
    obtain ⟨front, back, old, new⟩ := link_pointers linked
    have distinct := page.nodup
    rw [old] at distinct fresh
    rw [new, List.append_cons, List.nodup_middle, List.nodup_cons]
    simp only [List.append_assoc, List.cons_append, List.nil_append]
    exact ⟨fresh, distinct⟩
  refine ⟨?_, handed.1, handed.2, ?_, ?_, nodup, ?_, ?_⟩
  · rcases link_eq_some linked with ⟨rfl, rfl, rfl⟩ | ⟨rfl, front, k, back, rfl, rfl⟩ <;> simp
  · -- The first pointer stays; its key changes only when it is the one routed along.
    rw [link_headPtr linked, (starts _ (headPtr_mem next items)).1, extended.low p inside]
    cases items with
    | nil => exact (page.nonempty rfl).elim
    | cons head rest =>
        obtain ⟨k, c⟩ := head
        by_cases same : c = first
        · subst same
          exact Or.inl (page.entitled asked (by simpa using below_head_of_route page routed))
        · have kept : items'.head? = some (k, c) := by
            rcases link_eq_some linked with ⟨_, rfl, _⟩ | ⟨_, front, k', back, split, rfl⟩
            · rfl
            · cases front with
              | nil => simp only [List.nil_append, List.cons.injEq, Prod.mk.injEq] at split
                       exact (same split.1.2).elim
              | cons item front =>
                  simp only [List.cons_append, List.cons.injEq] at split
                  simp [split.1]
          rw [kept]
          exact page.first
  · rw [link_headPtr linked, (starts _ (headPtr_mem next items)).2, extended.lead p inside]
    exact page.lead_eq
  · intro c member
    rcases (mem_link_pointers linked c).mp member with rfl | member
    · exact second_lt
    · exact (page.allocated c member).trans_le grown
  · intro c member
    rcases (mem_link_pointers linked c).mp member with rfl | member
    · exact second_rank
    · exact extended.rank p inside c (page.allocated c member) (page.rank_lt c member)

/-! ## Entry pages -/

/-- Replacing the entries of a page by others of its range keeps the graph sound. -/
theorem Sound.setLeaf {g : Graph K V} {labels : Labels K} (sound : Sound g labels) {p : ℕ}
    {items items' : List (K × V)} (page : g.page p = .leaf items)
    (described : LeafOk labels p items') (nonempty : items' ≠ []) :
    Sound (g.setPage p (.leaf items')) labels := by
  have isLeaf : ∀ c, ((g.setPage p (.leaf items')).page c).IsLeaf ↔ (g.page c).IsLeaf := by
    intro c
    by_cases same : c = p
    · subst same
      simp [page]
    · rw [g.setPage_page_of_ne _ same]
  have pointers : ∀ c, ((g.setPage p (.leaf items')).page c).pointers = (g.page c).pointers := by
    intro c
    by_cases same : c = p
    · subst same
      simp [page]
    · rw [g.setPage_page_of_ne _ same]
  refine ⟨⟨sound.rank_lt, ?_, ?_, ?_, ?_⟩, sound.root_lt, sound.root_low, sound.root_lead,
    sound.root_rank, ?_, ?_⟩
  · intro q inside found same
    by_cases changed : q = p
    · subst changed
      rw [g.setPage_page_self] at same
      cases same
      exact described
    · exact sound.leaf q inside found (by rwa [g.setPage_page_of_ne _ changed] at same)
  · intro q inside found next same
    have routing : q ≠ p := by
      rintro rfl
      rw [g.setPage_page_self] at same
      cases same
    rw [g.setPage_page_of_ne _ routing] at same
    simp only [isLeaf]
    exact sound.branch q inside found next same
  · intro q inside q' inside' leaf leaf'
    exact sound.disjoint q inside q' inside' ((isLeaf q).mp leaf) ((isLeaf q').mp leaf')
  · intro q inside q' inside' c leaf member member'
    rw [pointers] at member member'
    exact sound.unique q inside q' inside' c ((isLeaf c).mp leaf) member member'
  · intro leaf
    exact sound.root_high ((isLeaf _).mp leaf)
  · intro q inside other
    by_cases changed : q = p
    · subst changed
      rw [g.setPage_page_self]
      simpa using nonempty
    · rw [g.setPage_page_of_ne _ changed]
      exact sound.inhabited q inside other

/-- The labels after splitting the entry page `first` at `sep` into a new page. -/
def Labels.splitLeaf (labels : Labels K) (first second : ℕ) (sep : K) : Labels K where
  low := Function.update labels.low second sep
  high := Function.update (Function.update labels.high first sep) second (labels.high first)
  lead := Function.update labels.lead second sep
  rank := Function.update labels.rank second second

omit [LinearOrder K] in
theorem Labels.splitLeaf_extends (labels : Labels K) (first size : ℕ) (sep : K) :
    Extends size labels (labels.splitLeaf first size sep) where
  low := fun _ inside => Function.update_of_ne inside.ne ..
  lead := fun _ inside => Function.update_of_ne inside.ne ..
  rank := by
    intro p inside q inside' lower
    simp only [Labels.splitLeaf, Function.update_of_ne inside.ne, Function.update_of_ne inside'.ne]
    exact lower

omit [LinearOrder K] in
theorem Labels.splitLeaf_high (labels : Labels K) {first second p : ℕ} (sep : K)
    (other : p ≠ first) (old : p ≠ second) :
    (labels.splitLeaf first second sep).high p = labels.high p := by
  simp only [Labels.splitLeaf, Function.update_of_ne old, Function.update_of_ne other]

/-- Splitting the range of an entry page at one of its keys. -/
theorem Labels.splitLeaf_inRange (labels : Labels K) {first size p : ℕ} {sep key : K}
    (inside : first < size) (allocated : p < size + 1)
    (within : labels.InRange first sep)
    (inRange : (labels.splitLeaf first size sep).InRange p key) :
    (p = size ∧ sep ≤ key ∧ labels.InRange first key) ∨
      (p = first ∧ key < sep ∧ labels.InRange first key) ∨
      (p < size ∧ p ≠ first ∧ labels.InRange p key) := by
  obtain ⟨low, high⟩ := inRange
  rcases Nat.lt_succ_iff_lt_or_eq.mp allocated with below | rfl
  · by_cases same : p = first
    · subst same
      simp only [Labels.splitLeaf, Function.update_of_ne below.ne, Function.update_self] at low high
      have before := WithTop.coe_lt_coe.mp high
      exact Or.inr (Or.inl ⟨rfl, before, low,
        lt_trans (WithTop.coe_lt_coe.mpr before) within.2⟩)
    · rw [labels.splitLeaf_high sep same below.ne] at high
      rw [(labels.splitLeaf_extends first size sep).low p below] at low
      exact Or.inr (Or.inr ⟨below, same, low, high⟩)
  · simp only [Labels.splitLeaf, Function.update_self] at low high
    exact Or.inl ⟨rfl, WithBot.coe_le_coe.mp low, within.1.trans low, high⟩

/-- The graph in which an entry page has been split, and not yet linked. -/
def Graph.splitLeaf (g : Graph K V) (first : ℕ) (left right : List (K × V)) : Graph K V :=
  (g.setPage first (.leaf left)).alloc (.leaf right)

section SplitLeaf

variable {g : Graph K V} {first : ℕ} {left right : List (K × V)}

omit [LinearOrder K] in
theorem Graph.splitLeaf_page_first (inside : first < g.size) :
    (g.splitLeaf first left right).page first = .leaf left := by
  rw [Graph.splitLeaf, Graph.alloc_page_of_lt _ _ (by simpa using inside), g.setPage_page_self]

omit [LinearOrder K] in
theorem Graph.splitLeaf_page_size :
    (g.splitLeaf first left right).page g.size = .leaf right :=
  Graph.alloc_page_size (g.setPage first (.leaf left)) (.leaf right)

omit [LinearOrder K] in
theorem Graph.splitLeaf_page_of_ne {p : ℕ} (inside : p < g.size) (other : p ≠ first) :
    (g.splitLeaf first left right).page p = g.page p := by
  rw [Graph.splitLeaf, Graph.alloc_page_of_lt _ _ (by simpa using inside),
    g.setPage_page_of_ne _ other]

omit [LinearOrder K] in
/-- Splitting an entry page adds one entry page. -/
theorem Graph.splitLeaf_isLeaf (inside : first < g.size) (leaf : (g.page first).IsLeaf) {p : ℕ}
    (allocated : p < g.size + 1) :
    ((g.splitLeaf first left right).page p).IsLeaf ↔ p = g.size ∨ (g.page p).IsLeaf := by
  rcases Nat.lt_succ_iff_lt_or_eq.mp allocated with below | rfl
  · by_cases same : p = first
    · subst same
      simp [Graph.splitLeaf_page_first inside, leaf]
    · simp [Graph.splitLeaf_page_of_ne below same, below.ne]
  · simp [Graph.splitLeaf_page_size]

omit [LinearOrder K] in
/-- The pointers after splitting and linking an entry page are the old ones, and
one to the right half. -/
theorem Graph.splitLeaf_pointers {parent next next' : ℕ} {items items' : List (K × ℕ)} {sep : K}
    {value : V} {rest : List (K × V)}
    (inside : first < g.size) (below : parent < g.size)
    (found : g.page parent = .branch items next)
    (linked : link sep first g.size items next = some (items', next')) :
    ∀ p < g.size + 1, ∀ c, c ∈ (((g.splitLeaf first left ((sep, value) :: rest)).setPage parent
      (.branch items' next')).page p).pointers →
      (p = parent ∧ c = g.size) ∨ (p < g.size ∧ c ∈ (g.page p).pointers) := by
  intro p allocated c member
  by_cases same : p = parent
  · subst same
    rw [Graph.setPage_page_self] at member
    rcases (mem_link_pointers linked c).mp member with rfl | member
    · exact Or.inl ⟨rfl, rfl⟩
    · exact Or.inr ⟨below, by rw [found]; exact member⟩
  · rw [Graph.setPage_page_of_ne _ _ same] at member
    rcases Nat.lt_succ_iff_lt_or_eq.mp allocated with old | rfl
    · by_cases changed : p = first
      · subst changed
        rw [Graph.splitLeaf_page_first inside] at member
        cases member
      · rw [Graph.splitLeaf_page_of_ne old changed] at member
        exact Or.inr ⟨old, member⟩
    · rw [Graph.splitLeaf_page_size] at member
      cases member

variable {labels : Labels K} {sep : K} {value : V} {rest : List (K × V)}
  (sound : Sound g labels) (inside : first < g.size)
  (page : g.page first = .leaf (left ++ (sep, value) :: rest))

include sound inside page

/-- Both halves of a split entry page hold entries of their own range. -/
theorem Sound.splitLeaf_leaf {p : ℕ} (allocated : p < g.size + 1) {items : List (K × V)}
    (found : (g.splitLeaf first left ((sep, value) :: rest)).page p = .leaf items) :
    LeafOk (labels.splitLeaf first g.size sep) p items := by
  have whole := sound.leaf first inside _ page
  obtain ⟨leftSorted, rightSorted, across⟩ := List.pairwise_append.mp whole.sorted
  rcases Nat.lt_succ_iff_lt_or_eq.mp allocated with below | rfl
  · by_cases same : p = first
    · subst same
      rw [Graph.splitLeaf_page_first inside] at found
      cases found
      refine ⟨leftSorted, fun entry member => ?_, ?_⟩
      · have within := whole.inRange entry (List.mem_append_left _ member)
        have before := across entry member (sep, value) (by simp)
        simp only [Labels.InRange, Labels.splitLeaf, Function.update_of_ne below.ne,
          Function.update_self]
        exact ⟨within.1, WithTop.coe_lt_coe.mpr before⟩
      · rw [(labels.splitLeaf_extends p g.size sep).low p below,
          (labels.splitLeaf_extends p g.size sep).lead p below]
        exact whole.lead_eq
    · rw [Graph.splitLeaf_page_of_ne below same] at found
      have described := sound.leaf p below items found
      refine ⟨described.sorted, fun entry member => ?_, ?_⟩
      · rw [Labels.InRange, labels.splitLeaf_high sep same below.ne,
          (labels.splitLeaf_extends first g.size sep).low p below]
        exact described.inRange entry member
      · rw [(labels.splitLeaf_extends first g.size sep).low p below,
          (labels.splitLeaf_extends first g.size sep).lead p below]
        exact described.lead_eq
  · rw [Graph.splitLeaf_page_size] at found
    cases found
    refine ⟨rightSorted, fun entry member => ?_, ?_⟩
    · have within := whole.inRange entry (List.mem_append_right _ member)
      simp only [Labels.InRange, Labels.splitLeaf, Function.update_self]
      refine ⟨WithBot.coe_le_coe.mpr ?_, within.2⟩
      rcases List.mem_cons.mp member with rfl | member
      · exact le_rfl
      · exact (List.rel_of_pairwise_cons rightSorted member).le
    · simp only [Labels.splitLeaf, Function.update_self]

/-- The ranges of entry pages stay disjoint. -/
theorem Sound.splitLeaf_disjoint {p q : ℕ} (allocated : p < g.size + 1)
    (allocated' : q < g.size + 1)
    (leaf : p = g.size ∨ (g.page p).IsLeaf) (leaf' : q = g.size ∨ (g.page q).IsLeaf) {key : K}
    (inRange : (labels.splitLeaf first g.size sep).InRange p key)
    (inRange' : (labels.splitLeaf first g.size sep).InRange q key) : p = q := by
  have within := (sound.leaf first inside _ page).inRange (sep, value) (by simp)
  have isLeaf : (g.page first).IsLeaf := by rw [page]; trivial
  have apart : ∀ r, r < g.size → r ≠ first → (r = g.size ∨ (g.page r).IsLeaf) →
      labels.InRange r key → labels.InRange first key → False := by
    intro r below other leaf held held'
    exact other (sound.disjoint r below first inside
      (leaf.resolve_left below.ne) isLeaf key held held')
  rcases labels.splitLeaf_inRange inside allocated within inRange with
    ⟨rfl, after, held⟩ | ⟨rfl, before, held⟩ | ⟨below, other, held⟩ <;>
  rcases labels.splitLeaf_inRange inside allocated' within inRange' with
    ⟨rfl, after', held'⟩ | ⟨rfl, before', held'⟩ | ⟨below', other', held'⟩
  · rfl
  · exact (not_lt.mpr after before').elim
  · exact (apart q below' other' leaf' held' held).elim
  · exact (not_lt.mpr after' before).elim
  · rfl
  · exact (apart q below' other' leaf' held' held).elim
  · exact (apart p below other leaf held held').elim
  · exact (apart p below other leaf held held').elim
  · exact sound.disjoint p below q below' (leaf.resolve_left below.ne)
      (leaf'.resolve_left below'.ne) key held held'

/-- Routing pages that do not point to the split page stay described. -/
theorem Sound.splitLeaf_branch {p next : ℕ} {items : List (K × ℕ)} (below : p < g.size)
    (found : g.page p = .branch items next) (apart : first ∉ items.map Prod.snd ++ [next]) :
    BranchOk (fun c => ((g.splitLeaf first left ((sep, value) :: rest)).page c).IsLeaf)
      (labels.splitLeaf first g.size sep) (g.size + 1) p items next := by
  have described := sound.branch p below items next found
  refine described.extend (labels.splitLeaf_extends first g.size sep) below (Nat.le_succ _)
    fun c member leaf => ?_
  have allocated := described.allocated c member
  have isLeaf : (g.page first).IsLeaf := by rw [page]; trivial
  refine ⟨?_, labels.splitLeaf_high sep (ne_of_mem_of_not_mem member apart) allocated.ne⟩
  exact ((Graph.splitLeaf_isLeaf inside isLeaf (allocated.trans (Nat.lt_succ_self _))).mp
    leaf).resolve_left allocated.ne

omit inside page in
theorem Sound.splitLeaf_rank {p : ℕ} (allocated : p < g.size + 1) :
    (labels.splitLeaf first g.size sep).rank p < g.size + 1 := by
  rcases Nat.lt_succ_iff_lt_or_eq.mp allocated with below | rfl
  · simp only [Labels.splitLeaf, Function.update_of_ne below.ne]
    exact (sound.rank_lt p below).trans (Nat.lt_succ_self _)
  · simp [Labels.splitLeaf]

/-- Splitting an entry page and linking the right half into the page that points
to it keeps the graph sound. -/
theorem Sound.splitLeaf {parent next next' : ℕ} {items items' : List (K × ℕ)} {key : K}
    (nonempty : left ≠ []) (below : parent < g.size)
    (found : g.page parent = .branch items next) (asked : labels.low parent ≤ key)
    (routed : (route key next items 0).2 = first)
    (linked : link sep first g.size items next = some (items', next')) :
    Sound ((g.splitLeaf first left ((sep, value) :: rest)).setPage parent (.branch items' next'))
      (labels.splitLeaf first g.size sep) := by
  have isLeaf : (g.page first).IsLeaf := by rw [page]; trivial
  have parentOk := sound.branch parent below items next found
  have member : first ∈ items.map Prod.snd ++ [next] := routed ▸ route_mem key next items 0
  have distinct : parent ≠ first := by
    rintro rfl
    rw [found] at page
    cases page
  set h := g.splitLeaf first left ((sep, value) :: rest) with grown
  have parentPage : h.page parent = .branch items next := by
    rw [grown, Graph.splitLeaf_page_of_ne below distinct, found]
  have leaves : ∀ c, ((h.setPage parent (.branch items' next')).page c).IsLeaf ↔
      (h.page c).IsLeaf := by
    intro c
    by_cases same : c = parent
    · subst same
      simp [parentPage]
    · rw [h.setPage_page_of_ne _ same]
  have leafIff : ∀ c, c < g.size + 1 → ((h.page c).IsLeaf ↔ c = g.size ∨ (g.page c).IsLeaf) :=
    fun c allocated => Graph.splitLeaf_isLeaf inside isLeaf allocated
  have onlyParent : ∀ p < g.size, first ∈ (g.page p).pointers → p = parent := by
    intro p below' member'
    exact sound.unique p below' parent below first isLeaf member' (by rw [found]; exact member)
  have notRoot : first ≠ g.root := by
    rintro rfl
    exact sound.root_not_pointer below (by rw [found]; exact member)
  refine ⟨⟨?_, ?_, ?_, ?_, ?_⟩, ?_, ?_, ?_, ?_, ?_, ?_⟩
  · intro p allocated
    exact sound.splitLeaf_rank allocated
  · intro p allocated entries same
    have other : p ≠ parent := by
      rintro rfl
      rw [h.setPage_page_self] at same
      cases same
    rw [h.setPage_page_of_ne _ other] at same
    exact sound.splitLeaf_leaf inside page allocated same
  · intro p allocated found' last same
    replace allocated : p < g.size + 1 := allocated
    simp only [leaves]
    by_cases changed : p = parent
    · subst changed
      rw [h.setPage_page_self] at same
      cases same
      refine parentOk.link (labels.splitLeaf_extends first g.size sep) below
        (Nat.le_succ _) asked routed linked
        ?_ ?_ (Nat.lt_succ_self _) ?_ ?_ ?_ ?_
      · intro c member' other leaf
        have old := parentOk.allocated c member'
        exact ⟨((leafIff c (old.trans (Nat.lt_succ_self _))).mp leaf).resolve_left old.ne,
          labels.splitLeaf_high sep other old.ne⟩
      · intro member'
        exact (parentOk.allocated _ member').ne rfl
      · simp only [Labels.splitLeaf, Function.update_self, Function.update_of_ne below.ne]
        exact sound.rank_lt p below
      · simp only [Labels.splitLeaf, Function.update_self, le_refl]
      · intro _
        simp only [Labels.splitLeaf, Function.update_self, Function.update_of_ne inside.ne,
          and_self]
      · intro _
        simp only [Labels.splitLeaf, Function.update_self, isLeaf, and_self]
    · rw [h.setPage_page_of_ne _ changed] at same
      have old : p < g.size := by
        rcases Nat.lt_succ_iff_lt_or_eq.mp allocated with old | rfl
        · exact old
        · rw [grown, Graph.splitLeaf_page_size] at same
          cases same
      have notFirst : p ≠ first := by
        rintro rfl
        rw [grown, Graph.splitLeaf_page_first inside] at same
        cases same
      rw [grown, Graph.splitLeaf_page_of_ne old notFirst] at same
      refine sound.splitLeaf_branch inside page old same fun member' => changed ?_
      exact onlyParent p old (by rw [same]; exact member')
  · intro p allocated q allocated' leaf leaf' x inRange inRange'
    exact sound.splitLeaf_disjoint inside page allocated allocated'
      ((leafIff p allocated).mp ((leaves p).mp leaf))
      ((leafIff q allocated').mp ((leaves q).mp leaf')) inRange inRange'
  · intro p allocated q allocated' c leaf member' member''
    have old := @Graph.splitLeaf_pointers K V g first left parent next next' items items' sep value
      rest inside below found linked
    rcases old p allocated c member' with ⟨rfl, rfl⟩ | ⟨below₁, member₁⟩
    · rcases old q allocated' g.size member'' with ⟨rfl, _⟩ | ⟨below₂, member₂⟩
      · rfl
      · exact ((sound.pointer_lt below₂ member₂).ne rfl).elim
    · rcases old q allocated' c member'' with ⟨_, rfl⟩ | ⟨below₂, member₂⟩
      · exact ((sound.pointer_lt below₁ member₁).ne rfl).elim
      · have allocated := sound.pointer_lt below₁ member₁
        have leaf' := ((leafIff c (allocated.trans (Nat.lt_succ_self _))).mp
          ((leaves c).mp leaf)).resolve_left allocated.ne
        exact sound.unique p below₁ q below₂ c leaf' member₁ member₂
  · exact sound.root_lt.trans (Nat.lt_succ_self _)
  · exact ((labels.splitLeaf_extends first g.size sep).low _ sound.root_lt).trans sound.root_low
  · exact ((labels.splitLeaf_extends first g.size sep).lead _ sound.root_lt).trans sound.root_lead
  · simp only [Labels.splitLeaf]
    exact (Function.update_of_ne sound.root_lt.ne ..).trans sound.root_rank
  · intro leaf
    have leaf' := ((leafIff g.root (sound.root_lt.trans (Nat.lt_succ_self _))).mp
      ((leaves g.root).mp leaf)).resolve_left sound.root_lt.ne
    exact (labels.splitLeaf_high sep notRoot.symm sound.root_lt.ne).trans (sound.root_high leaf')
  · intro p allocated other
    replace allocated : p < g.size + 1 := allocated
    by_cases changed : p = parent
    · subst changed
      rw [h.setPage_page_self]
      simp
    · rw [h.setPage_page_of_ne _ changed, grown]
      rcases Nat.lt_succ_iff_lt_or_eq.mp allocated with old | rfl
      · by_cases same : p = first
        · subst same
          rw [Graph.splitLeaf_page_first inside]
          simpa using nonempty
        · rw [Graph.splitLeaf_page_of_ne old same]
          exact sound.inhabited p old other
      · rw [Graph.splitLeaf_page_size]
        simp

end SplitLeaf

/-- Splitting an entry page that nothing points to leaves every page described. -/
theorem Sound.splitLeaf_pages {g : Graph K V} {labels : Labels K} {first : ℕ} {sep : K}
    {value : V} {left rest : List (K × V)} (sound : Sound g labels) (inside : first < g.size)
    (page : g.page first = .leaf (left ++ (sep, value) :: rest))
    (unlinked : ∀ p < g.size, first ∉ (g.page p).pointers) :
    Pages (g.splitLeaf first left ((sep, value) :: rest))
      (labels.splitLeaf first g.size sep) := by
  have isLeaf : (g.page first).IsLeaf := by rw [page]; trivial
  have shape : ∀ p < g.size + 1, ∀ items next,
      (g.splitLeaf first left ((sep, value) :: rest)).page p = .branch items next →
      p < g.size ∧ g.page p = .branch items next := by
    intro p allocated items next found
    rcases Nat.lt_succ_iff_lt_or_eq.mp allocated with below | rfl
    · by_cases same : p = first
      · subst same
        rw [Graph.splitLeaf_page_first inside] at found
        cases found
      · rw [Graph.splitLeaf_page_of_ne below same] at found
        exact ⟨below, found⟩
    · rw [Graph.splitLeaf_page_size] at found
      cases found
  have pointers : ∀ p < g.size + 1, ∀ c,
      c ∈ ((g.splitLeaf first left ((sep, value) :: rest)).page p).pointers →
      p < g.size ∧ c ∈ (g.page p).pointers := by
    intro p allocated c member
    cases found : (g.splitLeaf first left ((sep, value) :: rest)).page p with
    | leaf items => rw [found] at member; cases member
    | branch items next =>
        obtain ⟨below, old⟩ := shape p allocated items next found
        rw [found] at member
        exact ⟨below, by rw [old]; exact member⟩
  refine ⟨fun p allocated => sound.splitLeaf_rank allocated,
    fun p allocated items found => sound.splitLeaf_leaf inside page allocated found, ?_, ?_, ?_⟩
  · intro p allocated items next found
    obtain ⟨below, old⟩ := shape p allocated items next found
    refine sound.splitLeaf_branch inside page below old fun member => unlinked p below ?_
    rw [old]
    exact member
  · intro p allocated q allocated' leaf leaf' key inRange inRange'
    exact sound.splitLeaf_disjoint inside page allocated allocated'
      ((Graph.splitLeaf_isLeaf inside isLeaf allocated).mp leaf)
      ((Graph.splitLeaf_isLeaf inside isLeaf allocated').mp leaf') inRange inRange'
  · intro p allocated q allocated' c leaf member member'
    obtain ⟨below, member⟩ := pointers p allocated c member
    obtain ⟨below', member'⟩ := pointers q allocated' c member'
    have old := sound.pointer_lt below member
    have leaf := ((Graph.splitLeaf_isLeaf inside isLeaf
      (old.trans (Nat.lt_succ_self _))).mp leaf).resolve_left old.ne
    exact sound.unique p below q below' c leaf member member'

end SearchGraph
