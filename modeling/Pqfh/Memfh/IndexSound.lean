import Pqfh.Memfh.Index

/-! # The index of an in-memory file is a map

Every write keeps the pages of an index a sound search graph
(`Pqfh.Memfh.idxWrite_sound`), so that a search ends in the one leaf whose range
holds the key (`Pqfh.Memfh.idxSearch_spec`): it finds the key exactly when an entry
with it was written.
-/

namespace Pqfh.Memfh

open SearchGraph

/-- A full page is split into two halves of at least one item. -/
theorem two_le_maxItems {keylen : ℕ} (bound : keylen ≤ 256) : 2 ≤ maxItems keylen := by
  unfold maxItems
  have quotient : 4084 / 260 ≤ (4096 - 12) / (keylen + 4) :=
    Nat.div_le_div_left (by omega) (by omega)
  omega

/-! ## Searching -/

/-- The loop over a leaf page stops after the items with smaller keys. -/
theorem searchLeaf_spec (key : Key) :
    ∀ (items : List (Key × ℕ)) (i : ℕ), ∃ before after, items = before ++ after ∧
      (∀ entry ∈ before, entry.1 < key) ∧ (searchLeaf key items i).2 = i + before.length ∧
      (((searchLeaf key items i).1 = .eq ∧ ∃ record rest, after = (key, record) :: rest) ∨
        ((searchLeaf key items i).1 ≠ .eq ∧ ∀ entry ∈ after.head?, key < entry.1)) := by
  intro items
  induction items with
  | nil =>
      intro i
      exact ⟨[], [], rfl, by simp, rfl, Or.inr ⟨by simp [searchLeaf], by simp⟩⟩
  | cons item rest ih =>
      intro i
      obtain ⟨k, record⟩ := item
      by_cases same : key = k
      · subst same
        refine ⟨[], (key, record) :: rest, rfl, by simp, by simp [searchLeaf], Or.inl ?_⟩
        exact ⟨by simp [searchLeaf], record, rest, rfl⟩
      · by_cases below : key < k
        · refine ⟨[], (k, record) :: rest, rfl, by simp, by simp [searchLeaf, same, below], ?_⟩
          exact Or.inr ⟨by simp [searchLeaf, same, below], by simpa using below⟩
        · obtain ⟨before, after, split, smaller, position, found⟩ := ih (i + 1)
          have above : k < key := lt_of_le_of_ne (not_lt.mp below) (Ne.symm same)
          refine ⟨(k, record) :: before, after, by rw [split]; rfl, ?_, ?_, ?_⟩
          · intro entry member
            rcases List.mem_cons.mp member with rfl | member
            · exact above
            · exact smaller entry member
          · simp only [searchLeaf, same, below, ↓reduceIte, position, List.length_cons]
            omega
          · simpa only [searchLeaf, same, below, ↓reduceIte] using found

/-- In a sorted page, what follows the position found has larger keys. -/
theorem after_larger {key : Key} {before after : List (Key × ℕ)}
    (sorted : (before ++ after).Pairwise fun first second => first.1 < second.1)
    (head : ∀ entry ∈ after.head?, key < entry.1) : ∀ entry ∈ after, key < entry.1 := by
  cases after with
  | nil => simp
  | cons first rest =>
      have tail := (List.pairwise_append.mp sorted).2.1
      intro entry member
      rcases List.mem_cons.mp member with rfl | member
      · exact head entry rfl
      · exact (head first rfl).trans (List.rel_of_pairwise_cons tail member)

/-- What a search finds in a sound index: the path to the leaf whose range holds
the key, and the position of the key in it. -/
structure Found (g : Graph Key ℕ) (labels : Labels Key) (key : Key) (order : Ordering)
    (leaf pos : ℕ) (above : List (ℕ × ℕ)) (items : List (Key × ℕ)) : Prop where
  inside : leaf < g.size
  page : g.page leaf = .leaf items
  inRange : labels.InRange leaf key
  path : Path g labels key leaf above
  result : searchLeaf key items 0 = (order, pos)

/-- `memfh_idx_search_page` ends in a leaf, on a page that may be asked for the key. -/
theorem idxSearchPage_spec {g : Graph Key ℕ} {labels : Labels Key} (pages : Pages g labels)
    (key : Key) :
    ∀ fuel p, p < g.size → labels.low p ≤ key → ((g.page p).IsLeaf → key < labels.high p) →
      g.size - labels.rank p ≤ fuel → ∀ above, Path g labels key p above →
      ∃ order leaf pos above' items,
        idxSearchPage g key fuel p above = some (order, (leaf, pos) :: above') ∧
        Found g labels key order leaf pos above' items := by
  apply pages.descend (motive := fun fuel p => ∀ above, Path g labels key p above →
    ∃ order leaf pos above' items,
      idxSearchPage g key fuel p above = some (order, (leaf, pos) :: above') ∧
      Found g labels key order leaf pos above' items)
  · intro fuel p items inside shape inRange above path
    refine ⟨_, p, _, above, items, ?_, inside, shape, inRange, path, rfl⟩
    simp only [idxSearchPage, shape]
  · intro fuel p items next inside shape asked lower ih above path
    obtain ⟨order, leaf, pos, above', found, result, spec⟩ :=
      ih ((p, (route key next items 0).1) :: above)
        ⟨inside, lower, asked, ⟨items, next, shape, rfl⟩, path⟩
    exact ⟨order, leaf, pos, above', found, by simpa only [idxSearchPage, shape] using result, spec⟩

/-- `memfh_idx_search` ends in the leaf whose range holds the key. -/
theorem idxSearch_spec {idx : Idx} {labels : Labels Key} (sound : Sound idx.graph labels)
    (key : Key) : ∃ order leaf pos above items,
      idxSearch idx key = some (order, (leaf, pos) :: above) ∧
      Found idx.graph labels key order leaf pos above items := by
  refine idxSearchPage_spec sound.toPages key idx.graph.size idx.graph.root sound.root_lt ?_ ?_ ?_
    []
    rfl
  · rw [sound.root_low]
    exact bot_le
  · intro leaf
    rw [sound.root_high leaf]
    exact WithTop.coe_lt_top key
  · exact Nat.sub_le _ _

/-- The entries of a sound index are found in the leaf a search for them ends in. -/
theorem Found.holds_iff {g : Graph Key ℕ} {labels : Labels Key} (sound : Sound g labels)
    {key : Key} {order : Ordering} {leaf pos : ℕ} {above : List (ℕ × ℕ)}
    {items : List (Key × ℕ)} (found : Found g labels key order leaf pos above items)
    (record : ℕ) : g.Holds (key, record) ↔ (key, record) ∈ items := by
  constructor
  · intro held
    exact sound.mem_of_inRange found.inside found.page found.inRange held
  · intro member
    exact ⟨leaf, found.inside, items, found.page, member⟩

/-- A search answers whether the key is held, and stops at its entry. -/
theorem Found.order_eq {g : Graph Key ℕ} {labels : Labels Key} (sound : Sound g labels)
    {key : Key} {order : Ordering} {leaf pos : ℕ} {above : List (ℕ × ℕ)}
    {items : List (Key × ℕ)} (found : Found g labels key order leaf pos above items) :
    (order = .eq ∧ ∃ record, items[pos]? = some (key, record)) ∨
      (order ≠ .eq ∧ ∀ record, ¬ g.Holds (key, record)) := by
  obtain ⟨before, after, split, smaller, position, outcome⟩ := searchLeaf_spec key items 0
  have sorted := (sound.leaf leaf found.inside items found.page).sorted
  rw [found.result] at position outcome
  rcases outcome with ⟨equal, record, rest, hit⟩ | ⟨unequal, head⟩
  · refine Or.inl ⟨equal, record, ?_⟩
    have at_pos : pos = before.length := by simpa using position
    rw [at_pos, split, hit]
    simp
  · refine Or.inr ⟨unequal, fun record holds => ?_⟩
    have member := (found.holds_iff sound record).mp holds
    rw [split] at member
    rcases List.mem_append.mp member with member | member
    · exact lt_irrefl _ (smaller _ member)
    · exact lt_irrefl _ (after_larger (split ▸ sorted) head _ member)

/-! ## Writing -/

/-- A list of at least two items is cut into nonempty halves. -/
theorem exists_halves {α : Type*} {items : List α} (full : 2 ≤ items.length) :
    ∃ front last head rest, items.take (items.length / 2) = front ++ [last] ∧
      items.drop (items.length / 2) = head :: rest := by
  have left : items.take (items.length / 2) ≠ [] := by
    rw [← List.length_pos_iff, List.length_take]
    omega
  have right : items.drop (items.length / 2) ≠ [] := by
    rw [← List.length_pos_iff, List.length_drop]
    omega
  obtain ⟨head, rest, cut⟩ := List.exists_cons_of_ne_nil right
  exact ⟨_, _, head, rest, (List.dropLast_append_getLast left).symm, cut⟩

/-- A routing page of a sound graph with room for one item too many is split in two
halves, with the graph still sound and its entries as they were. -/
theorem exists_split {g : Graph Key ℕ} {labels : Labels Key} {parent next next' : ℕ}
    {items items' : List (Key × ℕ)} (inside : parent < g.size)
    (page : g.page parent = .branch items next) (full : 2 ≤ items'.length)
    (sound : Sound (g.setPage parent (.branch items' next')) labels) :
    ∃ (front : List (Key × ℕ)) (k : Key) (b : ℕ) (cut : Key) (c : ℕ) (rest : List (Key × ℕ)),
      items'.take (items'.length / 2) = front ++ [(k, b)] ∧
      items'.drop (items'.length / 2) = (cut, c) :: rest ∧
      Sound (g.splitBranch parent (front ++ [(k, b)]) ((cut, c) :: rest) next')
        (labels.splitBranch parent g.size (min (k : WithBot Key) cut) (labels.lead c)) ∧
      ∀ entry, (g.splitBranch parent (front ++ [(k, b)]) ((cut, c) :: rest) next').Holds entry ↔
        g.Holds entry := by
  obtain ⟨front, ⟨k, b⟩, ⟨cut, c⟩, rest, left, right⟩ := exists_halves full
  have whole : (g.setPage parent (.branch items' next')).page parent =
      .branch (front ++ [(k, b)] ++ (cut, c) :: rest) next' := by
    rw [g.setPage_page_self, ← left, ← right, List.take_append_drop]
  have same := g.setPage_splitBranch parent (.branch items' next') (front ++ [(k, b)])
    ((cut, c) :: rest) next'
  refine ⟨front, k, b, cut, c, rest, left, right, ?_, fun entry => ?_⟩
  · have split := sound.splitBranch inside whole
    rwa [same] at split
  · have inside' : parent < (g.setPage parent (.branch items' next')).size := inside
    rw [← same, Graph.holds_splitBranch inside' whole]
    exact Graph.holds_setPage_branch page

/-- `memfh_idx_insert_parent` keeps an index sound and its entries as they are, when
the page above, linked to the new page, is. -/
theorem idxInsertParent_sound {keylen : ℕ} (capacity : 2 ≤ maxItems keylen) {key : Key} :
    ∀ (above : List (ℕ × ℕ)) (g : Graph Key ℕ) (labels : Labels Key) (parent i first second : ℕ)
      (items items' : List (Key × ℕ)) (next next' : ℕ) (sep : Key),
      parent < g.size → g.page parent = .branch items next →
      firstKey (g.page second) = some sep →
      link sep first second items next = some (items', next') →
      Sound (g.setPage parent (.branch items' next')) labels → Path g labels key parent above →
      ∃ g' labels', idxInsertParent keylen g ((parent, i) :: above) first second = some g' ∧
        Sound g' labels' ∧ ∀ entry, g'.Holds entry ↔ g.Holds entry := by
  intro above
  induction above with
  | nil =>
      intro g labels parent i first second items items' next next' sep inside page start linked
        sound path
      by_cases room : items'.length < maxItems keylen
      · refine ⟨_, labels, ?_, sound, fun entry => Graph.holds_setPage_branch page⟩
        simp only [idxInsertParent, page, start, linked, room, ↓reduceIte]
      · obtain ⟨front, k, b, cut, c, rest, left, right, split, held⟩ :=
          exists_split inside page (capacity.trans (not_lt.mp room)) sound
        have pageFirst : (g.splitBranch parent (front ++ [(k, b)]) ((cut, c) :: rest) next').page
            parent = .branch (front ++ [(k, b)]) g.size := Graph.splitBranch_page_first inside
        have pageSecond : (g.splitBranch parent (front ++ [(k, b)]) ((cut, c) :: rest) next').page
            g.size = .branch ((cut, c) :: rest) next' := Graph.splitBranch_page_size
        have root : (g.splitBranch parent (front ++ [(k, b)]) ((cut, c) :: rest) next').root =
            parent := Eq.symm path
        have routing : ∀ d, d = parent ∨ d = g.size →
            ¬ ((g.splitBranch parent (front ++ [(k, b)]) ((cut, c) :: rest) next').page
                d).IsLeaf := by
          rintro d (rfl | rfl)
          · rw [pageFirst]; exact id
          · rw [pageSecond]; exact id
        refine ⟨(g.splitBranch parent (front ++ [(k, b)]) ((cut, c) :: rest) next').newRoot cut
          parent g.size, _, ?_, split.toPages.newRoot (inside.trans (Nat.lt_succ_self _))
          (Nat.lt_succ_self _) inside.ne ?_ ?_ ?_
          (fun leaf => (routing _ (Or.inl rfl) leaf).elim)
          (fun leaf => (routing _ (Or.inr rfl) leaf).elim)
          (fun d half leaf => (routing d half leaf).elim) ?_, fun entry => ?_⟩
        · have cutKey : firstKey ((g.splitBranch parent (front ++ [(k, b)]) ((cut, c) :: rest)
              next').page g.size) = some cut := by rw [pageSecond]; rfl
          simp only [idxInsertParent, page, start, linked, room, ↓reduceIte, left, right, cutKey]
        · rw [← split.root_low, root]
        · rw [← split.root_lead, root]
        · simp [Labels.splitBranch]
        · intro p allocated empty
          refine split.inhabited p allocated ?_ empty
          rintro rfl
          rw [root, pageFirst] at empty
          cases empty
        · rw [Graph.holds_newRoot]
          exact held entry
  | cons step above ih =>
      intro g labels parent i first second items items' next next' sep inside page start linked
        sound path
      by_cases room : items'.length < maxItems keylen
      · refine ⟨_, labels, ?_, sound, fun entry => Graph.holds_setPage_branch page⟩
        simp only [idxInsertParent, page, start, linked, room, ↓reduceIte]
      · obtain ⟨front, k, b, cut, c, rest, left, right, split, held⟩ :=
          exists_split inside page (capacity.trans (not_lt.mp room)) sound
        obtain ⟨q, j⟩ := step
        obtain ⟨below, lower, asked, ⟨qitems, qnext, qpage, routed⟩, path⟩ := path
        have other : q ≠ parent := fun same => lower.ne (congrArg labels.rank same)
        have extended := labels.splitBranch_extends parent g.size (min (k : WithBot Key) cut)
          (labels.lead c)
        have above_page : (g.splitBranch parent (front ++ [(k, b)]) ((cut, c) :: rest) next').page
            q = g.page q := Graph.splitBranch_page_of_ne below other
        have described := sound.branch q below qitems qnext
          ((g.setPage_page_of_ne _ other).trans qpage)
        have member : parent ∈ qitems.map Prod.snd ++ [qnext] := by
          have reached := route_mem key qnext qitems 0
          rwa [routed] at reached
        have linkable : (link cut parent g.size qitems qnext).isSome := link_isSome member
        obtain ⟨⟨qitems', qnext'⟩, qlinked⟩ := Option.isSome_iff_exists.mp linkable
        have askedNow : (labels.splitBranch parent g.size (min (k : WithBot Key) cut)
            (labels.lead c)).low q ≤ key := (extended.low q below).trans_le asked
        have linkedSound := split.linkBranch (below.trans (Nat.lt_succ_self _))
          (above_page.trans qpage) askedNow (by rw [routed]) qlinked
          (by rw [Graph.splitBranch_page_first inside]; exact id)
          (by rw [Graph.splitBranch_page_size]; exact id) (Nat.lt_succ_self _)
          (fun inside => (described.allocated _ inside).ne rfl)
          (by
            have unranked : ¬ labels.rank parent < labels.rank q := not_lt.mpr lower.le
            simp only [Labels.splitBranch, Function.update_self, Function.update_of_ne below.ne,
              unranked, ↓reduceIte]
            omega)
          (by simp [Labels.splitBranch])
        have kept : ∀ r < g.size, labels.rank r < labels.rank q →
            (g.splitBranch parent (front ++ [(k, b)]) ((cut, c) :: rest) next').page r = g.page r :=
          fun r inside' lower' => Graph.splitBranch_page_of_ne inside' fun same =>
            (lower'.trans lower).ne (congrArg labels.rank same)
        have sameRoot : (g.splitBranch parent (front ++ [(k, b)]) ((cut, c) :: rest) next').root =
            g.root := rfl
        obtain ⟨g', labels', written, sound', held'⟩ := ih _ _ q j parent g.size qitems qitems'
          qnext qnext' cut (below.trans (Nat.lt_succ_self _)) (above_page.trans qpage)
          (by rw [Graph.splitBranch_page_size]; rfl) qlinked linkedSound
          (Path.transport sameRoot (Nat.le_succ _) extended below path kept)
        refine ⟨g', labels', ?_, sound', fun entry => (held' entry).trans (held entry)⟩
        simp only [idxInsertParent, page, start, linked, room, ↓reduceIte, left, right]
        exact written

theorem insertIdx_length_append {α : Type*} (item : α) (before after : List α) :
    (before ++ after).insertIdx before.length item = before ++ item :: after := by
  induction before with
  | nil => simp
  | cons first before ih => simpa using ih

/-- Inserting an absent key at the position a search stops at keeps a leaf sorted. -/
theorem Found.insert_leafOk {g : Graph Key ℕ} {labels : Labels Key} (sound : Sound g labels)
    {key : Key} {order : Ordering} {leaf pos : ℕ} {above : List (ℕ × ℕ)}
    {items : List (Key × ℕ)} (found : Found g labels key order leaf pos above items)
    (absent : order ≠ .eq) (record : ℕ) :
    LeafOk labels leaf (items.insertIdx pos (key, record)) ∧
      ∀ entry, entry ∈ items.insertIdx pos (key, record) ↔
        entry ∈ items ∨ entry = (key, record) := by
  obtain ⟨before, after, split, smaller, position, outcome⟩ := searchLeaf_spec key items 0
  have described := sound.leaf leaf found.inside items found.page
  rw [found.result] at position outcome
  have head := (outcome.resolve_left fun equal => absent equal.1).2
  have larger := after_larger (split ▸ described.sorted) head
  have inserted : items.insertIdx pos (key, record) = before ++ (key, record) :: after := by
    have at_pos : pos = before.length := by simpa using position
    rw [at_pos, split]
    exact insertIdx_length_append ..
  have members : ∀ entry, entry ∈ items.insertIdx pos (key, record) ↔
      entry ∈ items ∨ entry = (key, record) := by
    intro entry
    rw [inserted, split]
    simp only [List.mem_append, List.mem_cons]
    tauto
  refine ⟨⟨?_, fun entry member => ?_, described.lead_eq⟩, members⟩
  · have sorted := described.sorted
    rw [split] at sorted
    rw [inserted]
    obtain ⟨beforeSorted, afterSorted, across⟩ := List.pairwise_append.mp sorted
    refine List.pairwise_append.mpr ⟨beforeSorted, List.pairwise_cons.mpr ⟨larger, afterSorted⟩, ?_⟩
    intro first firstIn second secondIn
    rcases List.mem_cons.mp secondIn with rfl | secondIn
    · exact smaller first firstIn
    · exact across first firstIn second secondIn
  · rcases (members entry).mp member with old | rfl
    · exact described.inRange entry old
    · exact found.inRange

/-- Inserting an absent entry where a search stopped keeps an index sound and adds
the entry. -/
theorem idxInsertLeaf_sound {idx : Idx} {labels : Labels Key} (sound : Sound idx.graph labels)
    (capacity : 2 ≤ maxItems idx.keylen) {key : Key} {order : Ordering} {leaf pos : ℕ}
    {above : List (ℕ × ℕ)} {items : List (Key × ℕ)}
    (found : Found idx.graph labels key order leaf pos above items) (absent : order ≠ .eq)
    (record : ℕ) :
    ∃ graph labels', idxInsertLeaf idx key record leaf pos above = some graph ∧
      Sound graph labels' ∧
      ∀ entry, graph.Holds entry ↔ idx.graph.Holds entry ∨ entry = (key, record) := by
  obtain ⟨described, members⟩ := found.insert_leafOk sound absent record
  have nonempty : items.insertIdx pos (key, record) ≠ [] :=
    List.ne_nil_of_mem ((members (key, record)).mpr (Or.inr rfl))
  have written := sound.setLeaf found.page described nonempty
  have held : ∀ entry, (idx.graph.setPage leaf
      (.leaf (items.insertIdx pos (key, record)))).Holds entry ↔
      idx.graph.Holds entry ∨ entry = (key, record) :=
    fun entry => Graph.holds_setPage_leaf found.inside found.page members
  by_cases room : (items.insertIdx pos (key, record)).length < maxItems idx.keylen
  · refine ⟨_, labels, ?_, written, held⟩
    simp only [idxInsertLeaf, found.page, room, ↓reduceIte]
  · obtain ⟨front, last, ⟨cut, value⟩, rest, left, right⟩ :=
      exists_halves (capacity.trans (not_lt.mp room))
    have whole : (idx.graph.setPage leaf (.leaf (items.insertIdx pos (key, record)))).page leaf =
        .leaf ((front ++ [last]) ++ (cut, value) :: rest) := by
      rw [idx.graph.setPage_page_self, ← left, ← right, List.take_append_drop]
    have same := idx.graph.setPage_splitLeaf leaf (.leaf (items.insertIdx pos (key, record)))
      (front ++ [last]) ((cut, value) :: rest)
    have inside : leaf < (idx.graph.setPage leaf
      (.leaf (items.insertIdx pos (key, record)))).size := found.inside
    have heldSplit : ∀ entry, (idx.graph.splitLeaf leaf (front ++ [last])
        ((cut, value) :: rest)).Holds entry ↔ idx.graph.Holds entry ∨ entry = (key, record) := by
      intro entry
      rw [← same, Graph.holds_splitLeaf inside whole]
      exact held entry
    have pageSecond : (idx.graph.splitLeaf leaf (front ++ [last]) ((cut, value) :: rest)).page
        idx.graph.size = .leaf ((cut, value) :: rest) := Graph.splitLeaf_page_size
    have cutKey : firstKey ((idx.graph.splitLeaf leaf (front ++ [last])
        ((cut, value) :: rest)).page idx.graph.size) = some cut := by
      rw [pageSecond]
      rfl
    cases above with
    | nil =>
        obtain rfl : leaf = idx.graph.root := found.path
        have split := written.splitRoot (by simp) whole
        rw [Graph.setPage_root, same] at split
        refine ⟨_, _, ?_, split, fun entry => ?_⟩
        · simp only [idxInsertLeaf, found.page, room, ↓reduceIte, left, right, cutKey,
            Graph.setPage_size]
        · rw [Graph.holds_newRoot]
          exact heldSplit entry
    | cons step above =>
        obtain ⟨parent, i⟩ := step
        obtain ⟨below, lower, asked, ⟨pitems, pnext, ppage, routed⟩, path⟩ := found.path
        have other : parent ≠ leaf := fun same => lower.ne (congrArg labels.rank same)
        have extended := labels.splitLeaf_extends leaf idx.graph.size cut
        have member : leaf ∈ pitems.map Prod.snd ++ [pnext] := by
          have reached := route_mem key pnext pitems 0
          rwa [routed] at reached
        have linkable : (link cut leaf idx.graph.size pitems pnext).isSome := link_isSome member
        obtain ⟨⟨pitems', pnext'⟩, linked⟩ := Option.isSome_iff_exists.mp linkable
        have split := written.splitLeaf inside whole (by simp) below
          ((idx.graph.setPage_page_of_ne _ other).trans ppage) asked (by rw [routed]) linked
        rw [same] at split
        have sameRoot : (idx.graph.splitLeaf leaf (front ++ [last])
            ((cut, value) :: rest)).root = idx.graph.root := rfl
        have kept : ∀ r < idx.graph.size, labels.rank r < labels.rank parent →
            (idx.graph.splitLeaf leaf (front ++ [last]) ((cut, value) :: rest)).page r =
              idx.graph.page r :=
          fun r inside' lower' => Graph.splitLeaf_page_of_ne inside' fun same =>
            (lower'.trans lower).ne (congrArg labels.rank same)
        obtain ⟨g', labels', inserted, sound', held'⟩ := idxInsertParent_sound capacity above _ _
          parent i leaf idx.graph.size pitems pitems' pnext pnext' cut
          (below.trans (Nat.lt_succ_self _)) ((Graph.splitLeaf_page_of_ne below other).trans ppage)
          cutKey linked split (Path.transport sameRoot (Nat.le_succ _) extended below path kept)
        refine ⟨g', labels', ?_, sound', fun entry => (held' entry).trans (heldSplit entry)⟩
        simp only [idxInsertLeaf, found.page, room, ↓reduceIte, left, right]
        exact inserted

/-- `memfh_idx_write` of a key that is not held keeps an index sound and adds the
entry. -/
theorem idxWrite_sound {idx : Idx} {labels : Labels Key} (sound : Sound idx.graph labels)
    (capacity : 2 ≤ maxItems idx.keylen) {key : Key} (record : ℕ)
    (absent : ∀ other, ¬ idx.graph.Holds (key, other)) :
    ∃ idx' labels', idxWrite idx key record = some idx' ∧ idx'.keylen = idx.keylen ∧
      Sound idx'.graph labels' ∧
      ∀ entry, idx'.graph.Holds entry ↔ idx.graph.Holds entry ∨ entry = (key, record) := by
  obtain ⟨order, leaf, pos, above, items, searched, found⟩ := idxSearch_spec sound key
  have missing : order ≠ .eq := by
    rcases found.order_eq sound with ⟨_, other, present⟩ | ⟨unequal, _⟩
    · exact (absent other ((found.holds_iff sound other).mpr (List.mem_of_getElem? present))).elim
    · exact unequal
  obtain ⟨graph, labels', inserted, sound', held⟩ :=
    idxInsertLeaf_sound sound capacity found missing record
  refine ⟨{ idx with graph := graph, path := (leaf, pos) :: above }, labels', ?_, rfl, sound', held⟩
  simp only [idxWrite, searched, missing, ↓reduceIte, inserted, Option.map_some]

/-! ## The index of a new file -/

/-- The labels of an index of one page. -/
def rootLabels : Labels Key where
  low := fun _ => ⊥
  high := fun _ => ⊤
  lead := fun _ => ⊥
  rank := fun _ => 0

theorem Idx.empty_holds (keylen : ℕ) (entry : Key × ℕ) :
    ¬ (Idx.empty keylen).graph.Holds entry := by
  rintro ⟨p, _, items, page, member⟩
  cases page
  cases member

theorem Idx.empty_sound (keylen : ℕ) : Sound (Idx.empty keylen).graph rootLabels := by
  have only : ∀ p < (Idx.empty keylen).graph.size, p = 0 := fun p below => Nat.lt_one_iff.mp below
  refine ⟨⟨?_, ?_, ?_, ?_, ?_⟩, Nat.zero_lt_one, rfl, rfl, rfl, fun _ => rfl, ?_⟩
  · intro p _
    exact Nat.zero_lt_one
  · intro p _ items page
    cases page
    exact ⟨List.Pairwise.nil, by simp, rfl⟩
  · intro p _ items next page
    cases page
  · intro p below q below' _ _ _ _ _
    rw [only p below, only q below']
  · intro p below q below' _ _ _ _
    rw [only p below, only q below']
  · intro p below other
    exact (other (only p below)).elim

end Pqfh.Memfh
