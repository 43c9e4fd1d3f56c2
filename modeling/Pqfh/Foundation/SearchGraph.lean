import Mathlib.Order.WithBot
import Mathlib.Order.Lattice
import Mathlib.Data.List.Basic
import Mathlib.Data.List.Nodup
import Mathlib.Data.List.Pairwise
import Mathlib.Logic.Function.Basic
import Mathlib.Tactic.Common

/-! # Right-linked search graphs

Pages of a search structure hold either entries or routing items. A routing page
sends a key to the pointer of its first item with a larger key, and to its last
pointer when there is none. Unlike in a search tree, the last pointer of a routing
page may lead to a routing page of the same height, pages may be reached along
several routes, and the keys of one routing page need not be sorted.

What keeps such a graph searchable is local to each page. A page is labelled with
the least key it may be asked for (`Labels.low`), an entry page with the bound of
its keys (`Labels.high`), and every page with the low label of the first entry page
below it (`Labels.lead`). `SearchGraph.Sound` relates the labels of a page to those
of its pointers; it is preserved by the ways in which such a graph grows:
replacing the entries of a page, splitting an entry page under its only pointer,
splitting a routing page to the right, and inserting a pointer to a right half.
-/

namespace SearchGraph

/-- A page: entries, or routing items with a last pointer. -/
inductive Page (K V : Type*)
  | leaf (items : List (K × V))
  | branch (items : List (K × ℕ)) (next : ℕ)

/-- A graph of pages. Pages `size` and above are not allocated. -/
structure Graph (K V : Type*) where
  root : ℕ
  size : ℕ
  page : ℕ → Page K V

namespace Page

variable {K V : Type*}

/-- Entry pages. -/
def IsLeaf : Page K V → Prop
  | .leaf _ => True
  | .branch _ _ => False

/-- The pointers of a page, in order. -/
def pointers : Page K V → List ℕ
  | .leaf _ => []
  | .branch items next => items.map Prod.snd ++ [next]

/-- A leaf is a leaf. -/
@[simp] theorem isLeaf_leaf (items : List (K × V)) : (Page.leaf items).IsLeaf := trivial

/-- A branch is no leaf. -/
@[simp] theorem not_isLeaf_branch (items : List (K × ℕ)) (next : ℕ) :
    ¬ (Page.branch items next : Page K V).IsLeaf := fun inside => inside

/-- A leaf points nowhere. -/
@[simp] theorem pointers_leaf (items : List (K × V)) : (Page.leaf items).pointers = [] := rfl

/-- A branch points with its items and with its last pointer. -/
@[simp] theorem pointers_branch (items : List (K × ℕ)) (next : ℕ) :
    (Page.branch items next : Page K V).pointers = items.map Prod.snd ++ [next] := rfl

end Page

namespace Graph

variable {K V : Type*}

/-- Replace one page. -/
def setPage (g : Graph K V) (p : ℕ) (page : Page K V) : Graph K V :=
  { g with page := Function.update g.page p page }

/-- Allocate the next page. -/
def alloc (g : Graph K V) (page : Page K V) : Graph K V :=
  { g with size := g.size + 1, page := Function.update g.page g.size page }

/-- Designate another root. -/
def setRoot (g : Graph K V) (p : ℕ) : Graph K V :=
  { g with root := p }

/-- Setting a page moves no root. -/
@[simp] theorem setPage_root (g : Graph K V) (p : ℕ) (page : Page K V) :
    (g.setPage p page).root = g.root := rfl

/-- Setting a page allocates nothing. -/
@[simp] theorem setPage_size (g : Graph K V) (p : ℕ) (page : Page K V) :
    (g.setPage p page).size = g.size := rfl

/-- The page that was set is the one found there. -/
@[simp] theorem setPage_page_self (g : Graph K V) (p : ℕ) (page : Page K V) :
    (g.setPage p page).page p = page := Function.update_self ..

/-- The other pages are as they were. -/
theorem setPage_page_of_ne (g : Graph K V) {p q : ℕ} (page : Page K V) (different : q ≠ p) :
    (g.setPage p page).page q = g.page q := Function.update_of_ne different ..

/-- Allocating moves no root. -/
@[simp] theorem alloc_root (g : Graph K V) (page : Page K V) :
    (g.alloc page).root = g.root := rfl

/-- A page more is allocated. -/
@[simp] theorem alloc_size (g : Graph K V) (page : Page K V) :
    (g.alloc page).size = g.size + 1 := rfl

/-- The new page is the one behind those that were allocated. -/
@[simp] theorem alloc_page_size (g : Graph K V) (page : Page K V) :
    (g.alloc page).page g.size = page := Function.update_self ..

/-- The pages that were allocated are as they were. -/
theorem alloc_page_of_lt (g : Graph K V) {q : ℕ} (page : Page K V) (allocated : q < g.size) :
    (g.alloc page).page q = g.page q := Function.update_of_ne allocated.ne ..

/-- The root is the page it was set to. -/
@[simp] theorem setRoot_root (g : Graph K V) (p : ℕ) : (g.setRoot p).root = p := rfl

/-- Setting the root allocates nothing. -/
@[simp] theorem setRoot_size (g : Graph K V) (p : ℕ) : (g.setRoot p).size = g.size := rfl

/-- Setting the root changes no page. -/
@[simp] theorem setRoot_page (g : Graph K V) (p : ℕ) : (g.setRoot p).page = g.page := rfl

/-- The entries held by the allocated pages. -/
def Holds (g : Graph K V) (entry : K × V) : Prop :=
  ∃ p < g.size, ∃ items, g.page p = .leaf items ∧ entry ∈ items

end Graph

variable {K V : Type*} [LinearOrder K]

/-- Where a routing page sends a key: the position of the first item with a
larger key, counted from `i`, and the pointer there. -/
def route (key : K) (next : ℕ) : List (K × ℕ) → ℕ → ℕ × ℕ
  | [], i => (i, next)
  | (k, c) :: rest, i => if key < k then (i, c) else route key next rest (i + 1)

/-- The first pointer of a list of items followed by a last pointer. -/
def headPtr (next : ℕ) : List (K × ℕ) → ℕ
  | [] => next
  | (_, c) :: _ => c

/-- Insert a pointer to the right half `second` of the page `first` into a list of
items: the pointer to `first` now ends at `sep`, and `second` takes the key it had. -/
def linkItems (sep : K) (first second : ℕ) : List (K × ℕ) → Option (List (K × ℕ))
  | [] => none
  | (k, c) :: rest =>
      if c = first then some ((sep, first) :: (k, second) :: rest)
      else (linkItems sep first second rest).map ((k, c) :: ·)

/-- Insert a pointer to the right half `second` of `first` into a routing page. A
last pointer to `first` moves into the items; otherwise the items are searched. -/
def link (sep : K) (first second : ℕ) (items : List (K × ℕ)) (next : ℕ) :
    Option (List (K × ℕ) × ℕ) :=
  if next = first then some (items ++ [(sep, first)], second)
  else (linkItems sep first second items).map fun linked => (linked, next)

/-- Labels of pages: the least key a page may be asked for, the bound of the keys
of an entry page, the low label of the first entry page below a page, and a rank
that grows along pointers. -/
structure Labels (K : Type*) where
  low : ℕ → WithBot K
  high : ℕ → WithTop K
  lead : ℕ → WithBot K
  rank : ℕ → ℕ

/-- What the items of a routing page owe the pointers after them. -/
def Handoff (isLeaf : ℕ → Prop) (labels : Labels K) (next : ℕ) : List (K × ℕ) → Prop
  | [] => True
  | (k, c) :: rest =>
      (isLeaf c → labels.high c = k ∧ labels.lead (headPtr next rest) = k) ∧
      labels.low (headPtr next rest) ≤ k ∧ Handoff isLeaf labels next rest

/-- The keys an entry page may hold. -/
def Labels.InRange (labels : Labels K) (p : ℕ) (key : K) : Prop :=
  labels.low p ≤ key ∧ key < labels.high p

/-- An entry page holds entries of its own range, sorted by key. -/
structure LeafOk (labels : Labels K) (p : ℕ) (items : List (K × V)) : Prop where
  sorted : items.Pairwise fun first second => first.1 < second.1
  inRange : ∀ entry ∈ items, labels.InRange p entry.1
  lead_eq : labels.lead p = labels.low p

/-- A routing page sends every key from its low label on to a pointer that may be
asked for it. Its first pointer is either entitled to all of them or, when the
first key is not above the low label, asked for none. -/
structure BranchOk (isLeaf : ℕ → Prop) (labels : Labels K) (size p : ℕ)
    (items : List (K × ℕ)) (next : ℕ) : Prop where
  nonempty : items ≠ []
  handoff : Handoff isLeaf labels next items
  last : isLeaf next → labels.high next = ⊤
  first : labels.low (headPtr next items) ≤ labels.low p ∨
    ∃ item ∈ items.head?, (item.1 : WithBot K) ≤ labels.low p
  lead_eq : labels.lead p = labels.lead (headPtr next items)
  nodup : (items.map Prod.snd ++ [next]).Nodup
  allocated : ∀ c ∈ items.map Prod.snd ++ [next], c < size
  rank_lt : ∀ c ∈ items.map Prod.snd ++ [next], labels.rank p < labels.rank c

/-- The labels describe every allocated page. -/
structure Pages (g : Graph K V) (labels : Labels K) : Prop where
  rank_lt : ∀ p < g.size, labels.rank p < g.size
  leaf : ∀ p < g.size, ∀ items, g.page p = .leaf items → LeafOk labels p items
  branch : ∀ p < g.size, ∀ items next, g.page p = .branch items next →
    BranchOk (fun c => (g.page c).IsLeaf) labels g.size p items next
  disjoint : ∀ p < g.size, ∀ q < g.size, (g.page p).IsLeaf → (g.page q).IsLeaf → ∀ key,
    labels.InRange p key → labels.InRange q key → p = q
  unique : ∀ p < g.size, ∀ q < g.size, ∀ c, (g.page c).IsLeaf → c ∈ (g.page p).pointers →
    c ∈ (g.page q).pointers → p = q

/-- The labels describe every page, and the root may be asked for every key. -/
structure Sound (g : Graph K V) (labels : Labels K) : Prop extends Pages g labels where
  root_lt : g.root < g.size
  root_low : labels.low g.root = ⊥
  root_lead : labels.lead g.root = ⊥
  root_rank : labels.rank g.root = 0
  root_high : (g.page g.root).IsLeaf → labels.high g.root = ⊤
  inhabited : ∀ p < g.size, p ≠ g.root → g.page p ≠ .leaf []

/-! ## Routing -/

/-- The pointer a key is routed to is one of the page's pointers, at the position
found. -/
theorem route_mem (key : K) (next : ℕ) :
    ∀ (items : List (K × ℕ)) (i : ℕ), (route key next items i).2 ∈ items.map Prod.snd ++
        [next] := by
  intro items
  induction items with
  | nil => intro i; simp [route]
  | cons item rest ih =>
      intro i
      obtain ⟨k, c⟩ := item
      by_cases below : key < k
      · simp [route, below]
      · simp only [route, below, ↓reduceIte, List.map_cons, List.cons_append, List.mem_cons]
        exact Or.inr (ih (i + 1))

/-- Past the first pointer, routing respects the low labels and the bounds of
entry pages. -/
theorem Handoff.route {isLeaf : ℕ → Prop} {labels : Labels K} {next : ℕ} (key : K)
    (last : isLeaf next → labels.high next = ⊤) :
    ∀ (items : List (K × ℕ)) (i : ℕ), Handoff isLeaf labels next items →
      labels.low (headPtr next items) ≤ key →
      labels.low (route key next items i).2 ≤ key ∧
        (isLeaf (route key next items i).2 → key < labels.high (route key next items i).2) := by
  intro items
  induction items with
  | nil =>
      intro i _ entitled
      refine ⟨entitled, fun leaf => ?_⟩
      rw [SearchGraph.route, last leaf]
      exact WithTop.coe_lt_top key
  | cons item rest ih =>
      intro i handoff entitled
      obtain ⟨k, c⟩ := item
      obtain ⟨ends, handed, handoff⟩ := handoff
      by_cases below : key < k
      · simp only [SearchGraph.route, below, ↓reduceIte]
        refine ⟨entitled, fun leaf => ?_⟩
        rw [(ends leaf).1]
        exact WithTop.coe_lt_coe.mpr below
      · simp only [SearchGraph.route, below, ↓reduceIte]
        exact ih (i + 1) handoff (handed.trans (WithBot.coe_le_coe.mpr (not_lt.mp below)))

/-- A key a routing page may be asked for that is below its first key is one its
first pointer may be asked for. -/
theorem BranchOk.entitled {isLeaf : ℕ → Prop} {labels : Labels K} {size p next : ℕ}
    {items : List (K × ℕ)} (page : BranchOk isLeaf labels size p items next) {key : K}
    (asked : labels.low p ≤ key) (below : ∀ item ∈ items.head?, key < item.1) :
    labels.low (headPtr next items) ≤ labels.low p := by
  rcases page.first with entitled | ⟨item, present, dead⟩
  · exact entitled
  · exact (not_lt.mpr (WithBot.coe_le_coe.mp (dead.trans asked)) (below item present)).elim

/-- A routing page sends a key it may be asked for to a page that may be asked
for it. -/
theorem BranchOk.route {isLeaf : ℕ → Prop} {labels : Labels K} {size p next : ℕ}
    {items : List (K × ℕ)} (page : BranchOk isLeaf labels size p items next) {key : K}
    (asked : labels.low p ≤ key) (i : ℕ) :
    labels.low (route key next items i).2 ≤ key ∧
      (isLeaf (route key next items i).2 → key < labels.high (route key next items i).2) := by
  cases items with
  | nil => exact (page.nonempty rfl).elim
  | cons head rest =>
      obtain ⟨k, c⟩ := head
      by_cases below : key < k
      · have entitled := page.entitled asked (by simpa using below)
        exact page.handoff.route key page.last _ i (entitled.trans asked)
      · obtain ⟨_, handed, handoff⟩ := page.handoff
        simp only [SearchGraph.route, below, ↓reduceIte]
        exact handoff.route key page.last rest (i + 1)
          (handed.trans (WithBot.coe_le_coe.mpr (not_lt.mp below)))

/-! ## Handing keys over along the items -/

omit [LinearOrder K] in
/-- The first pointer of two rows of items is that of the first row, with the second behind it. -/
@[simp] theorem headPtr_append (next : ℕ) (front back : List (K × ℕ)) :
    headPtr next (front ++ back) = headPtr (headPtr next back) front := by
  cases front <;> rfl

omit [LinearOrder K] in
/-- The first pointer is one of the pointers. -/
theorem headPtr_mem (next : ℕ) (items : List (K × ℕ)) :
    headPtr next items ∈ items.map Prod.snd ++ [next] := by
  cases items <;> simp [headPtr]

/-- Two rows of items hand over when each does, and the first to the second. -/
theorem handoff_append {isLeaf : ℕ → Prop} {labels : Labels K} {next : ℕ}
    (front back : List (K × ℕ)) :
    Handoff isLeaf labels next (front ++ back) ↔
      Handoff isLeaf labels (headPtr next back) front ∧ Handoff isLeaf labels next back := by
  induction front with
  | nil => simp [Handoff]
  | cons item rest ih =>
      obtain ⟨k, c⟩ := item
      simp only [List.cons_append, Handoff, headPtr_append, ih, and_assoc]

/-- Handing over depends on the bounds of the entry pages among the items, and on
the low and lead labels of the pointers after them. -/
theorem Handoff.congr {isLeaf isLeaf' : ℕ → Prop} {labels labels' : Labels K} {next : ℕ} :
    ∀ {items : List (K × ℕ)}, Handoff isLeaf labels next items →
      (∀ c ∈ items.map Prod.snd, isLeaf' c → isLeaf c ∧ labels'.high c = labels.high c) →
      (∀ c ∈ items.map Prod.snd ++ [next],
        labels'.low c = labels.low c ∧ labels'.lead c = labels.lead c) →
      Handoff isLeaf' labels' next items := by
  intro items
  induction items with
  | nil => intro _ _ _; trivial
  | cons item rest ih =>
      intro handoff ends starts
      obtain ⟨k, c⟩ := item
      obtain ⟨ended, handed, handoff⟩ := handoff
      have head := starts (headPtr next rest)
        (List.mem_cons_of_mem _ (headPtr_mem next rest))
      refine ⟨fun leaf => ?_, ?_, ih handoff
        (fun d member => ends d (List.mem_cons_of_mem _ member))
        (fun d member => starts d (List.mem_cons_of_mem _ member))⟩
      · obtain ⟨leaf, high⟩ := ends c (by simp) leaf
        rw [high, head.2]
        exact ended leaf
      · rw [head.1]
        exact handed

/-- The last pointer may be exchanged for one with the same lead label that may be
asked for everything from the last key on. -/
theorem Handoff.exchange {isLeaf : ℕ → Prop} {labels : Labels K} {next next' : ℕ}
    (lead : labels.lead next' = labels.lead next) :
    ∀ {items : List (K × ℕ)}, Handoff isLeaf labels next items →
      (∀ item ∈ items.getLast?, labels.low next' ≤ (item.1 : K)) →
      Handoff isLeaf labels next' items := by
  intro items
  induction items with
  | nil => intro _ _; trivial
  | cons item rest ih =>
      intro handoff entitled
      obtain ⟨k, c⟩ := item
      obtain ⟨ended, handed, handoff⟩ := handoff
      cases rest with
      | nil =>
          refine ⟨fun leaf => ?_, entitled (k, c) rfl, trivial⟩
          rw [headPtr, lead]
          exact ended leaf
      | cons second rest =>
          exact ⟨ended, handed, ih handoff fun last present =>
            entitled last (by rwa [List.getLast?_cons_cons])⟩

end SearchGraph
