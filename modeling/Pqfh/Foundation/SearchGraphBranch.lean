import Pqfh.Foundation.SearchGraphGrowth

/-! # Routing pages of right-linked search graphs

A routing page is split to the right: the left half ends in a pointer to the right
half, so the graph stays searchable before any page above is told
(`SearchGraph.Sound.splitBranch`). Telling the page above only shortens searches
(`SearchGraph.Sound.linkBranch`), and a page above the root is one more routing page
(`SearchGraph.Pages.newRoot`).
-/

namespace SearchGraph

variable {K V : Type*} [LinearOrder K]

/-! ## Splitting -/

/-- The labels after splitting the routing page `first` into a new page that takes
its place among the pages ranked after it. -/
def Labels.splitBranch (labels : Labels K) (first second : ℕ) (low lead : WithBot K) :
    Labels K where
  low := Function.update labels.low second low
  high := labels.high
  lead := Function.update labels.lead second lead
  rank := Function.update
    (fun p => if labels.rank first < labels.rank p then labels.rank p + 1 else labels.rank p)
    second (labels.rank first + 1)

omit [LinearOrder K] in
theorem Labels.splitBranch_extends (labels : Labels K) (first size : ℕ) (low lead : WithBot K) :
    Extends size labels (labels.splitBranch first size low lead) where
  low := fun _ inside => Function.update_of_ne inside.ne ..
  lead := fun _ inside => Function.update_of_ne inside.ne ..
  rank := by
    intro p inside q inside' lower
    simp only [Labels.splitBranch, Function.update_of_ne inside.ne,
      Function.update_of_ne inside'.ne]
    split_ifs <;> omega

/-- The graph in which a routing page has been split: its left half ends in a
pointer to its right half. -/
def Graph.splitBranch (g : Graph K V) (first : ℕ) (left right : List (K × ℕ)) (next : ℕ) :
    Graph K V :=
  (g.setPage first (.branch left g.size)).alloc (.branch right next)

section SplitBranch

variable {g : Graph K V} {first next : ℕ} {left right : List (K × ℕ)}

omit [LinearOrder K] in
theorem Graph.splitBranch_page_first (inside : first < g.size) :
    (g.splitBranch first left right next).page first = .branch left g.size := by
  rw [Graph.splitBranch, Graph.alloc_page_of_lt _ _ (by simpa using inside), g.setPage_page_self]

omit [LinearOrder K] in
theorem Graph.splitBranch_page_size :
    (g.splitBranch first left right next).page g.size = .branch right next :=
  Graph.alloc_page_size (g.setPage first (.branch left g.size)) (.branch right next)

omit [LinearOrder K] in
theorem Graph.splitBranch_page_of_ne {p : ℕ} (inside : p < g.size) (other : p ≠ first) :
    (g.splitBranch first left right next).page p = g.page p := by
  rw [Graph.splitBranch, Graph.alloc_page_of_lt _ _ (by simpa using inside),
    g.setPage_page_of_ne _ other]

omit [LinearOrder K] in
/-- Splitting a routing page leaves the entry pages as they are. -/
theorem Graph.splitBranch_page_leaf (inside : first < g.size)
    (page : g.page first = .branch (left ++ right) next) {p : ℕ} (allocated : p < g.size + 1)
    (items : List (K × V)) :
    (g.splitBranch first left right next).page p = .leaf items ↔
      p < g.size ∧ g.page p = .leaf items := by
  rcases Nat.lt_succ_iff_lt_or_eq.mp allocated with below | rfl
  · by_cases same : p = first
    · subst same
      simp [Graph.splitBranch_page_first inside, page]
    · simp [Graph.splitBranch_page_of_ne below same, below]
  · simp [Graph.splitBranch_page_size]

omit [LinearOrder K] in
theorem Graph.splitBranch_isLeaf (inside : first < g.size)
    (page : g.page first = .branch (left ++ right) next) {p : ℕ} (allocated : p < g.size + 1) :
    ((g.splitBranch first left right next).page p).IsLeaf ↔ p < g.size ∧ (g.page p).IsLeaf := by
  rcases Nat.lt_succ_iff_lt_or_eq.mp allocated with below | rfl
  · by_cases same : p = first
    · subst same
      simp [Graph.splitBranch_page_first inside, page]
    · simp [Graph.splitBranch_page_of_ne below same, below]
  · simp [Graph.splitBranch_page_size]

omit [LinearOrder K] in
/-- The pointers after splitting a routing page are the old ones, divided between
the halves, and one to the right half. -/
theorem Graph.splitBranch_pointers (inside : first < g.size)
    (page : g.page first = .branch (left ++ right) next) :
    ∀ p < g.size + 1, ∀ c, c ∈ ((g.splitBranch first left right next).page p).pointers →
      (p = first ∧ c = g.size) ∨
      (p = first ∧ c ∈ left.map Prod.snd) ∨
      (p = g.size ∧ c ∈ right.map Prod.snd ++ [next]) ∨
      (p < g.size ∧ p ≠ first ∧ c ∈ (g.page p).pointers) := by
  intro p allocated c member
  rcases Nat.lt_succ_iff_lt_or_eq.mp allocated with below | rfl
  · by_cases same : p = first
    · subst same
      rw [Graph.splitBranch_page_first inside, Page.pointers_branch, List.mem_append] at member
      rcases member with member | member
      · exact Or.inr (Or.inl ⟨rfl, member⟩)
      · exact Or.inl ⟨rfl, List.mem_singleton.mp member⟩
    · rw [Graph.splitBranch_page_of_ne below same] at member
      exact Or.inr (Or.inr (Or.inr ⟨below, same, member⟩))
  · rw [Graph.splitBranch_page_size] at member
    exact Or.inr (Or.inr (Or.inl ⟨rfl, member⟩))

variable {labels : Labels K} {k sep : K} {b c : ℕ} {front rest : List (K × ℕ)}
  (sound : Sound g labels) (inside : first < g.size)
  (page : g.page first = .branch (front ++ [(k, b)] ++ (sep, c) :: rest) next)

include sound inside page

/-- Both halves of a split routing page are described. The right half may be asked
for everything from the lesser of the two keys around the cut on. -/
theorem Sound.splitBranch_halves :
    BranchOk (fun d =>
        ((g.splitBranch first (front ++ [(k, b)]) ((sep, c) :: rest) next).page d).IsLeaf)
      (labels.splitBranch first g.size (min (k : WithBot K) sep) (labels.lead c)) (g.size + 1)
      first (front ++ [(k, b)]) g.size ∧
    BranchOk (fun d =>
        ((g.splitBranch first (front ++ [(k, b)]) ((sep, c) :: rest) next).page d).IsLeaf)
      (labels.splitBranch first g.size (min (k : WithBot K) sep) (labels.lead c)) (g.size + 1)
      g.size ((sep, c) :: rest) next := by
  have whole := sound.branch first inside _ next page
  have extended := labels.splitBranch_extends first g.size
    (min (k : WithBot K) sep) (labels.lead c)
  set labels' := labels.splitBranch first g.size (min (k : WithBot K) sep) (labels.lead c)
    with relabelled
  have newLow : labels'.low g.size = min (k : WithBot K) sep := by
    simp [relabelled, Labels.splitBranch]
  have newLead : labels'.lead g.size = labels.lead c := by
    simp [relabelled, Labels.splitBranch]
  have newRank : labels'.rank g.size = labels.rank first + 1 := by
    simp [relabelled, Labels.splitBranch]
  have firstRank : labels'.rank first = labels.rank first := by
    simp [relabelled, Labels.splitBranch, Function.update_of_ne inside.ne]
  have leafOf : ∀ d < g.size + 1,
      ((g.splitBranch first (front ++ [(k, b)]) ((sep, c) :: rest) next).page d).IsLeaf →
      (g.page d).IsLeaf := fun d allocated leaf =>
    ((Graph.splitBranch_isLeaf inside page allocated).mp leaf).2
  have allPointers : List.map Prod.snd (front ++ [(k, b)] ++ (sep, c) :: rest) ++ [next] =
      List.map Prod.snd (front ++ [(k, b)]) ++
          (List.map Prod.snd ((sep, c) :: rest) ++ [next]) := by
    simp
  have inLeft : ∀ d ∈ List.map Prod.snd (front ++ [(k, b)]),
      d ∈ List.map Prod.snd (front ++ [(k, b)] ++ (sep, c) :: rest) ++ [next] := by
    intro d member
    rw [allPointers]
    exact List.mem_append_left _ member
  have inRight : ∀ d ∈ List.map Prod.snd ((sep, c) :: rest) ++ [next],
      d ∈ List.map Prod.snd (front ++ [(k, b)] ++ (sep, c) :: rest) ++ [next] := by
    intro d member
    rw [allPointers]
    exact List.mem_append_right _ member
  have starts : ∀ d ∈ List.map Prod.snd (front ++ [(k, b)] ++ (sep, c) :: rest) ++ [next],
      labels'.low d = labels.low d ∧ labels'.lead d = labels.lead d := fun d member =>
    ⟨extended.low d (whole.allocated d member), extended.lead d (whole.allocated d member)⟩
  have ends : ∀ d ∈ List.map Prod.snd (front ++ [(k, b)] ++ (sep, c) :: rest) ++ [next],
      ((g.splitBranch first (front ++ [(k, b)]) ((sep, c) :: rest) next).page d).IsLeaf →
      (g.page d).IsLeaf ∧ labels'.high d = labels.high d := fun d member leaf =>
    ⟨leafOf d ((whole.allocated d member).trans (Nat.lt_succ_self _)) leaf, rfl⟩
  obtain ⟨before, after⟩ := (handoff_append ..).mp whole.handoff
  have atCut : labels.low c ≤ k := ((handoff_append ..).mp before).2.2.1
  have distinct := whole.nodup
  rw [allPointers] at distinct
  obtain ⟨leftNodup, rightNodup, apart⟩ := List.nodup_append.mp distinct
  have memC : c ∈ List.map Prod.snd ((sep, c) :: rest) ++ [next] := by simp
  constructor
  · refine ⟨by simp, ?_, ?_, ?_, ?_, ?_, ?_, ?_⟩
    · have moved : Handoff (fun d =>
          ((g.splitBranch first (front ++ [(k, b)]) ((sep, c) :: rest) next).page d).IsLeaf)
          labels' c (front ++ [(k, b)]) :=
        before.congr (fun d member => ends d (inLeft d member)) (fun d member => by
          rcases List.mem_append.mp member with member | member
          · exact starts d (inLeft d member)
          · rw [List.mem_singleton.mp member]
            exact starts c (inRight c memC))
      refine moved.exchange (newLead.trans (starts c (inRight c memC)).2.symm) ?_
      intro item present
      rw [List.getLast?_append] at present
      cases Option.some.inj present
      rw [newLow]
      exact min_le_left _ _
    · intro leaf
      rw [Graph.splitBranch_page_size] at leaf
      exact leaf.elim
    · have head : headPtr g.size (front ++ [(k, b)]) =
          headPtr next (front ++ [(k, b)] ++ (sep, c) :: rest) := by
        cases front <;> rfl
      rw [head, (starts _ (headPtr_mem next _)).1, extended.low first inside]
      refine whole.first.imp id fun ⟨item, present, dead⟩ => ⟨item, ?_, dead⟩
      cases front <;> exact present
    · have head : headPtr g.size (front ++ [(k, b)]) =
          headPtr next (front ++ [(k, b)] ++ (sep, c) :: rest) := by
        cases front <;> rfl
      rw [head, (starts _ (headPtr_mem next _)).2, extended.lead first inside]
      exact whole.lead_eq
    · refine List.nodup_append.mpr ⟨leftNodup, List.nodup_singleton _, ?_⟩
      intro d member e last
      rw [List.mem_singleton.mp last]
      exact (whole.allocated d (inLeft d member)).ne
    · intro d member
      rcases List.mem_append.mp member with member | member
      · exact (whole.allocated d (inLeft d member)).trans (Nat.lt_succ_self _)
      · rw [List.mem_singleton.mp member]
        exact Nat.lt_succ_self _
    · intro d member
      rcases List.mem_append.mp member with member | member
      · exact extended.rank first inside d (whole.allocated d (inLeft d member))
          (whole.rank_lt d (inLeft d member))
      · rw [List.mem_singleton.mp member, newRank, firstRank]
        exact Nat.lt_succ_self _
  · refine ⟨by simp, ?_, ?_, ?_, ?_, rightNodup, ?_, ?_⟩
    · exact after.congr
        (fun d member => ends d (inRight d (List.mem_append_left _ member)))
        (fun d member => starts d (inRight d member))
    · intro leaf
      exact whole.last (ends next (inRight next (by simp)) leaf).1
    · rw [headPtr, newLow, (starts c (inRight c memC)).1]
      by_cases sorted : k ≤ sep
      · rw [min_eq_left (WithBot.coe_le_coe.mpr sorted)]
        exact Or.inl atCut
      · rw [min_eq_right (WithBot.coe_le_coe.mpr (not_le.mp sorted).le)]
        exact Or.inr ⟨(sep, c), rfl, le_rfl⟩
    · rw [headPtr, newLead, (starts c (inRight c memC)).2]
    · intro d member
      exact (whole.allocated d (inRight d member)).trans (Nat.lt_succ_self _)
    · intro d member
      have below := whole.allocated d (inRight d member)
      have lower := whole.rank_lt d (inRight d member)
      rw [newRank]
      simp only [relabelled, Labels.splitBranch, Function.update_of_ne below.ne, lower, ↓reduceIte]
      omega

/-- Splitting a routing page keeps the graph sound. -/
theorem Sound.splitBranch :
    Sound (g.splitBranch first (front ++ [(k, b)]) ((sep, c) :: rest) next)
      (labels.splitBranch first g.size (min (k : WithBot K) sep) (labels.lead c)) := by
  have halves := sound.splitBranch_halves inside page
  have extended := labels.splitBranch_extends first g.size
    (min (k : WithBot K) sep) (labels.lead c)
  have leafIff := fun (d : ℕ) (allocated : d < g.size + 1) =>
    Graph.splitBranch_isLeaf inside page allocated
  refine ⟨⟨?_, ?_, ?_, ?_, ?_⟩, ?_, ?_, ?_, ?_, ?_, ?_⟩
  · intro p allocated
    have bound := sound.rank_lt first inside
    rcases Nat.lt_succ_iff_lt_or_eq.mp allocated with below | rfl
    · have own := sound.rank_lt p below
      replace below : p ≠ g.size := below.ne
      change _ < g.size + 1
      simp only [Labels.splitBranch, Function.update_of_ne below]
      split_ifs <;> omega
    · change _ < g.size + 1
      have new : (labels.splitBranch first g.size (min (k : WithBot K) sep)
          (labels.lead c)).rank g.size = labels.rank first + 1 := by
        simp [Labels.splitBranch]
      exact new.trans_lt (by omega)
  · intro p allocated items found
    obtain ⟨below, found⟩ := (Graph.splitBranch_page_leaf inside page allocated items).mp found
    have described := sound.leaf p below items found
    refine ⟨described.sorted, fun entry member => ?_, ?_⟩
    · rw [Labels.InRange, extended.low p below]
      exact described.inRange entry member
    · rw [extended.low p below, extended.lead p below]
      exact described.lead_eq
  · intro p allocated items last found
    replace allocated : p < g.size + 1 := allocated
    rcases Nat.lt_succ_iff_lt_or_eq.mp allocated with below | rfl
    · by_cases same : p = first
      · subst same
        rw [Graph.splitBranch_page_first inside] at found
        cases found
        exact halves.1
      · rw [Graph.splitBranch_page_of_ne below same] at found
        have described := sound.branch p below items last found
        refine described.extend extended below (Nat.le_succ _) fun d member leaf => ⟨?_, rfl⟩
        exact ((leafIff d ((described.allocated d member).trans (Nat.lt_succ_self _))).mp leaf).2
    · rw [Graph.splitBranch_page_size] at found
      cases found
      exact halves.2
  · intro p allocated q allocated' leaf leaf' key inRange inRange'
    obtain ⟨below, leaf⟩ := (leafIff p allocated).mp leaf
    obtain ⟨below', leaf'⟩ := (leafIff q allocated').mp leaf'
    rw [Labels.InRange, extended.low p below] at inRange
    rw [Labels.InRange, extended.low q below'] at inRange'
    exact sound.disjoint p below q below' leaf leaf' key inRange inRange'
  · intro p allocated q allocated' d leaf member member'
    have cut := Graph.splitBranch_pointers inside page
    have whole := sound.branch first inside _ next page
    have oldLeaf : d < g.size ∧ (g.page d).IsLeaf := by
      by_cases allocated : d < g.size + 1
      · exact (leafIff d allocated).mp leaf
      · have notLeft := (halves.1.allocated d).mt allocated
        have notRight := (halves.2.allocated d).mt allocated
        rcases cut p (by assumption) d member with
          ⟨_, rfl⟩ | ⟨_, inside⟩ | ⟨_, inside⟩ | ⟨below, _, inside⟩
        · exact (allocated (Nat.lt_succ_self _)).elim
        · exact (notLeft (List.mem_append_left _ inside)).elim
        · exact (notRight inside).elim
        · exact (allocated ((sound.pointer_lt below inside).trans (Nat.lt_succ_self _))).elim
    -- An entry page is not the new page, so the pointer to it is an old one.
    have origin : ∀ r < g.size + 1,
        d ∈ ((g.splitBranch first (front ++ [(k, b)]) ((sep, c) :: rest) next).page r).pointers →
        (r = first ∧ d ∈ (front ++ [(k, b)]).map Prod.snd) ∨
        (r = g.size ∧ d ∈ ((sep, c) :: rest).map Prod.snd ++ [next]) ∨
        (r < g.size ∧ r ≠ first ∧ d ∈ (g.page r).pointers) := by
      intro r allocated member
      rcases cut r allocated d member with ⟨_, same⟩ | found
      · exact (oldLeaf.1.ne same).elim
      · exact found
    have pointersFirst : (g.page first).pointers = (front ++ [(k, b)]).map Prod.snd ++
        (((sep, c) :: rest).map Prod.snd ++ [next]) := by
      rw [page]
      simp
    have distinct : ((front ++ [(k, b)]).map Prod.snd ++
        (((sep, c) :: rest).map Prod.snd ++ [next])).Nodup := by
      simpa using whole.nodup
    have apart := (List.nodup_append.mp distinct).2.2
    have other : ∀ r < g.size, r ≠ first → d ∈ (g.page r).pointers →
        d ∉ (g.page first).pointers := fun r below different member member' =>
      different (sound.unique r below first inside d oldLeaf.2 member member')
    rcases origin p allocated member with
      ⟨rfl, inLeft⟩ | ⟨rfl, inRight⟩ | ⟨below, different, old⟩ <;>
    rcases origin q allocated' member' with
      ⟨rfl, inLeft'⟩ | ⟨rfl, inRight'⟩ | ⟨below', different', old'⟩
    · rfl
    · exact (apart d inLeft d inRight' rfl).elim
    · exact (other q below' different' old'
        (by rw [pointersFirst]; exact List.mem_append_left _ inLeft)).elim
    · exact (apart d inLeft' d inRight rfl).elim
    · rfl
    · exact (other q below' different' old'
        (by rw [pointersFirst]; exact List.mem_append_right _ inRight)).elim
    · exact (other p below different old
        (by rw [pointersFirst]; exact List.mem_append_left _ inLeft')).elim
    · exact (other p below different old
        (by rw [pointersFirst]; exact List.mem_append_right _ inRight')).elim
    · exact sound.unique p below q below' d oldLeaf.2 old old'
  · exact sound.root_lt.trans (Nat.lt_succ_self _)
  · exact (extended.low _ sound.root_lt).trans sound.root_low
  · exact (extended.lead _ sound.root_lt).trans sound.root_lead
  · have unranked : ¬ labels.rank first < labels.rank g.root := by
      rw [sound.root_rank]
      exact Nat.not_lt_zero _
    change (labels.splitBranch first g.size (min (k : WithBot K) sep) (labels.lead c)).rank g.root =
      0
    simp only [Labels.splitBranch, Function.update_of_ne sound.root_lt.ne, unranked, ↓reduceIte]
    exact sound.root_rank
  · intro leaf
    exact sound.root_high ((leafIff g.root (sound.root_lt.trans (Nat.lt_succ_self _))).mp leaf).2
  · intro p allocated other empty
    obtain ⟨below, found⟩ := (Graph.splitBranch_page_leaf inside page allocated []).mp empty
    exact sound.inhabited p below other found

end SplitBranch

/-! ## Linking the right half from above -/

/-- Inserting a pointer to the right half of a routing page keeps the graph sound. -/
theorem Sound.linkBranch {g : Graph K V} {labels : Labels K} (sound : Sound g labels)
    {p first second next next' : ℕ} {items items' : List (K × ℕ)} {key sep : K}
    (inside : p < g.size) (page : g.page p = .branch items next)
    (asked : labels.low p ≤ key) (routed : (route key next items 0).2 = first)
    (linked : link sep first second items next = some (items', next'))
    (routing : ¬ (g.page first).IsLeaf) (routing' : ¬ (g.page second).IsLeaf)
    (allocated : second < g.size) (fresh : second ∉ items.map Prod.snd ++ [next])
    (lower : labels.rank p < labels.rank second) (entitled : labels.low second ≤ sep) :
    Sound (g.setPage p (.branch items' next')) labels := by
  have leaves : ∀ c, ((g.setPage p (.branch items' next')).page c).IsLeaf ↔
      (g.page c).IsLeaf := by
    intro c
    by_cases same : c = p
    · subst same
      simp [page]
    · rw [g.setPage_page_of_ne _ same]
  have pointers : ∀ q c, ((g.setPage p (.branch items' next')).page c).IsLeaf →
      c ∈ ((g.setPage p (.branch items' next')).page q).pointers → c ∈ (g.page q).pointers := by
    intro q c leaf member
    by_cases same : q = p
    · subst same
      rw [g.setPage_page_self] at member
      rcases (mem_link_pointers linked c).mp member with rfl | member
      · exact (routing' ((leaves c).mp leaf)).elim
      · rw [page]
        exact member
    · rwa [g.setPage_page_of_ne _ same] at member
  refine ⟨⟨sound.rank_lt, ?_, ?_, ?_, ?_⟩, sound.root_lt, sound.root_low, sound.root_lead,
    sound.root_rank, fun leaf => sound.root_high ((leaves _).mp leaf), ?_⟩
  · intro q below entries found
    have other : q ≠ p := by
      rintro rfl
      rw [g.setPage_page_self] at found
      cases found
    rw [g.setPage_page_of_ne _ other] at found
    exact sound.leaf q below entries found
  · intro q below entries last found
    simp only [leaves]
    by_cases same : q = p
    · subst same
      rw [g.setPage_page_self] at found
      cases found
      exact (sound.branch q inside items next page).link
        ⟨fun _ _ => rfl, fun _ _ => rfl, fun _ _ _ _ raised => raised⟩ inside le_rfl asked routed
        linked (fun c _ _ leaf => ⟨leaf, rfl⟩) fresh allocated lower entitled
        (fun leaf => (routing leaf).elim) (fun leaf => (routing' leaf).elim)
    · rw [g.setPage_page_of_ne _ same] at found
      exact sound.branch q below entries last found
  · intro q below q' below' leaf leaf'
    exact sound.disjoint q below q' below' ((leaves q).mp leaf) ((leaves q').mp leaf')
  · intro q below q' below' c leaf member member'
    exact sound.unique q below q' below' c ((leaves c).mp leaf) (pointers q c leaf member)
      (pointers q' c leaf member')
  · intro q below other
    by_cases same : q = p
    · subst same
      rw [g.setPage_page_self]
      simp
    · rw [g.setPage_page_of_ne _ same]
      exact sound.inhabited q below other

/-! ## A new root -/

/-- The labels after putting a page above all others. -/
def Labels.newRoot (labels : Labels K) (root : ℕ) : Labels K where
  low := Function.update labels.low root ⊥
  high := labels.high
  lead := Function.update labels.lead root ⊥
  rank := Function.update (fun p => labels.rank p + 1) root 0

omit [LinearOrder K] in
theorem Labels.newRoot_extends (labels : Labels K) (size : ℕ) :
    Extends size labels (labels.newRoot size) where
  low := fun _ inside => Function.update_of_ne inside.ne ..
  lead := fun _ inside => Function.update_of_ne inside.ne ..
  rank := by
    intro p inside q inside' lower
    simp only [Labels.newRoot, Function.update_of_ne inside.ne, Function.update_of_ne inside'.ne]
    omega

/-- The graph with a new root over two halves. -/
def Graph.newRoot (g : Graph K V) (sep : K) (first second : ℕ) : Graph K V :=
  (g.alloc (.branch [(sep, first)] second)).setRoot g.size

/-- A root over two halves makes a described graph sound. -/
theorem Pages.newRoot {g : Graph K V} {labels : Labels K} (pages : Pages g labels)
    {first second : ℕ} {sep : K} (inside : first < g.size) (inside' : second < g.size)
    (different : first ≠ second) (low : labels.low first = ⊥) (lead : labels.lead first = ⊥)
    (entitled : labels.low second ≤ sep)
    (firstEnds : (g.page first).IsLeaf → labels.high first = sep ∧ labels.lead second = sep)
    (secondEnds : (g.page second).IsLeaf → labels.high second = ⊤)
    (unlinked : ∀ c, c = first ∨ c = second → (g.page c).IsLeaf →
      ∀ p < g.size, c ∉ (g.page p).pointers)
    (inhabited : ∀ p < g.size, g.page p ≠ .leaf []) :
    Sound (g.newRoot sep first second) (labels.newRoot g.size) := by
  have extended := labels.newRoot_extends g.size
  have old : ∀ p < g.size, (g.newRoot sep first second).page p = g.page p :=
    fun p below => g.alloc_page_of_lt _ below
  have new : (g.newRoot sep first second).page g.size = .branch [(sep, first)] second :=
    g.alloc_page_size _
  have leafIff : ∀ p < g.size + 1, ((g.newRoot sep first second).page p).IsLeaf ↔
      p < g.size ∧ (g.page p).IsLeaf := by
    intro p allocated
    rcases Nat.lt_succ_iff_lt_or_eq.mp allocated with below | rfl
    · simp [old p below, below]
    · simp [new]
  have halves : ∀ c, c ∈ (Page.branch [(sep, first)] second : Page K V).pointers →
      c = first ∨ c = second := by simp
  refine ⟨⟨?_, ?_, ?_, ?_, ?_⟩, Nat.lt_succ_self _, ?_, ?_, ?_, ?_, ?_⟩
  · intro p allocated
    change _ < g.size + 1
    rcases Nat.lt_succ_iff_lt_or_eq.mp allocated with below | rfl
    · have bound := pages.rank_lt p below
      replace below : p ≠ g.size := below.ne
      simp only [Labels.newRoot, Function.update_of_ne below]
      omega
    · simp [Labels.newRoot]
  · intro p allocated items found
    rcases Nat.lt_succ_iff_lt_or_eq.mp allocated with below | rfl
    · have described := pages.leaf p below items (by rwa [← old p below])
      refine ⟨described.sorted, fun entry member => ?_, ?_⟩
      · rw [Labels.InRange, extended.low p below]
        exact described.inRange entry member
      · rw [extended.low p below, extended.lead p below]
        exact described.lead_eq
    · cases new.symm.trans found
  · intro p allocated items next found
    rcases Nat.lt_succ_iff_lt_or_eq.mp allocated with below | rfl
    · have described := pages.branch p below items next (by rwa [← old p below])
      refine described.extend extended below (Nat.le_succ _) fun c member leaf => ⟨?_, rfl⟩
      exact ((leafIff c ((described.allocated c member).trans (Nat.lt_succ_self _))).mp leaf).2
    · cases new.symm.trans found
      have newLow : (labels.newRoot g.size).low g.size = ⊥ := Function.update_self ..
      have newLead : (labels.newRoot g.size).lead g.size = ⊥ := Function.update_self ..
      have leafFirst := (leafIff first (inside.trans (Nat.lt_succ_self _))).mp
      have leafSecond := (leafIff second (inside'.trans (Nat.lt_succ_self _))).mp
      refine ⟨by simp, ⟨fun leaf => ?_, ?_, trivial⟩, fun leaf => secondEnds (leafSecond leaf).2,
        Or.inl ?_, ?_, by simpa using different, ?_, ?_⟩
      · simp only [headPtr, extended.lead second inside']
        exact firstEnds (leafFirst leaf).2
      · simp only [headPtr, extended.low second inside']
        exact entitled
      · exact ((extended.low first inside).trans low).le.trans newLow.ge
      · exact newLead.trans ((extended.lead first inside).trans lead).symm
      · intro c member
        rcases halves c member with rfl | rfl
        · exact inside.trans (Nat.lt_succ_self _)
        · exact inside'.trans (Nat.lt_succ_self _)
      · intro c member
        have below : c < g.size := by
          rcases halves c member with rfl | rfl
          · exact inside
          · exact inside'
        change (labels.newRoot g.size).rank g.size < _
        simp [Labels.newRoot, Function.update_of_ne below.ne]
  · intro p allocated q allocated' leaf leaf' key inRange inRange'
    obtain ⟨below, leaf⟩ := (leafIff p allocated).mp leaf
    obtain ⟨below', leaf'⟩ := (leafIff q allocated').mp leaf'
    rw [Labels.InRange, extended.low p below] at inRange
    rw [Labels.InRange, extended.low q below'] at inRange'
    exact pages.disjoint p below q below' leaf leaf' key inRange inRange'
  · intro p allocated q allocated' c leaf member member'
    rcases Nat.lt_succ_iff_lt_or_eq.mp allocated with below | rfl <;>
    rcases Nat.lt_succ_iff_lt_or_eq.mp allocated' with below' | rfl
    · rw [old p below] at member
      rw [old q below'] at member'
      have inside := pages.pointer_lt below member
      exact pages.unique p below q below' c
        ((leafIff c (inside.trans (Nat.lt_succ_self _))).mp leaf).2 member member'
    · rw [old p below] at member
      have inside := pages.pointer_lt below member
      refine (unlinked c (halves c ?_) ((leafIff c (inside.trans (Nat.lt_succ_self _))).mp leaf).2
        p below member).elim
      exact (congrArg Page.pointers new) ▸ member'
    · rw [old q below'] at member'
      have inside := pages.pointer_lt below' member'
      refine (unlinked c (halves c ?_) ((leafIff c (inside.trans (Nat.lt_succ_self _))).mp leaf).2
        q below' member').elim
      exact (congrArg Page.pointers new) ▸ member
    · rfl
  · simp [Graph.newRoot, Labels.newRoot]
  · simp [Graph.newRoot, Labels.newRoot]
  · simp [Graph.newRoot, Labels.newRoot]
  · intro leaf
    exact (((leafIff g.size (Nat.lt_succ_self _)).mp leaf).1.ne rfl).elim
  · intro p allocated _ empty
    rcases Nat.lt_succ_iff_lt_or_eq.mp allocated with below | rfl
    · exact inhabited p below ((old p below).symm.trans empty)
    · cases new.symm.trans empty

/-- Splitting a root that is an entry page puts a routing page above its halves. -/
theorem Sound.splitRoot {g : Graph K V} {labels : Labels K} (sound : Sound g labels) {sep : K}
    {value : V} {left rest : List (K × V)} (nonempty : left ≠ [])
    (page : g.page g.root = .leaf (left ++ (sep, value) :: rest)) :
    Sound ((g.splitLeaf g.root left ((sep, value) :: rest)).newRoot sep g.root g.size)
      ((labels.splitLeaf g.root g.size sep).newRoot (g.size + 1)) := by
  have isLeaf : (g.page g.root).IsLeaf := by rw [page]; trivial
  have pages := sound.splitLeaf_pages sound.root_lt page fun p => sound.root_not_pointer
  have extended := labels.splitLeaf_extends g.root g.size sep
  have kept : ∀ p < g.size + 1,
      (p = g.root ∧ (g.splitLeaf g.root left ((sep, value) :: rest)).page p = .leaf left) ∨
      (p = g.size ∧
        (g.splitLeaf g.root left ((sep, value) :: rest)).page p = .leaf ((sep, value) :: rest)) ∨
      (p < g.size ∧ p ≠ g.root ∧
        (g.splitLeaf g.root left ((sep, value) :: rest)).page p = g.page p) := by
    intro p allocated
    rcases Nat.lt_succ_iff_lt_or_eq.mp allocated with below | rfl
    · by_cases same : p = g.root
      · subst same
        exact Or.inl ⟨rfl, Graph.splitLeaf_page_first sound.root_lt⟩
      · exact Or.inr (Or.inr ⟨below, same, Graph.splitLeaf_page_of_ne below same⟩)
    · exact Or.inr (Or.inl ⟨rfl, Graph.splitLeaf_page_size⟩)
  refine pages.newRoot (sound.root_lt.trans (Nat.lt_succ_self _)) (Nat.lt_succ_self _)
    sound.root_lt.ne ?_ ?_ ?_ ?_ ?_ ?_ ?_
  · exact (extended.low _ sound.root_lt).trans sound.root_low
  · exact (extended.lead _ sound.root_lt).trans sound.root_lead
  · simp [Labels.splitLeaf]
  · intro _
    simp [Labels.splitLeaf, Function.update_of_ne sound.root_lt.ne]
  · intro _
    simpa [Labels.splitLeaf] using sound.root_high isLeaf
  · -- neither half is pointed to: one was the root, the other is new
    intro c half _ p allocated member
    rcases kept p allocated with ⟨_, found⟩ | ⟨_, found⟩ | ⟨below, _, found⟩
    · rw [found] at member
      cases member
    · rw [found] at member
      cases member
    · rw [found] at member
      rcases half with rfl | rfl
      · exact sound.root_not_pointer below member
      · exact (sound.pointer_lt below member).ne rfl
  · intro p allocated empty
    rcases kept p allocated with ⟨_, found⟩ | ⟨_, found⟩ | ⟨below, other, found⟩
    · rw [found] at empty
      exact nonempty (Page.leaf.inj empty)
    · rw [found] at empty
      cases empty
    · rw [found] at empty
      exact sound.inhabited p below other empty

end SearchGraph
