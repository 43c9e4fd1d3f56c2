import Mathlib.Data.List.Basic
import Mathlib.Logic.Function.Basic
import Mathlib.Order.Lattice
import Mathlib.Tactic.Common

/-! # Aligning two lists sorted by key

Two lists, each strictly increasing in its keys, are walked together: an entry of one side is
passed when its key is the smaller one, and two entries with the same key are passed together.
Every entry is passed once, alone just when its key is not on the other side.
-/

namespace Align

variable {K A B : Type*}

/-- An entry of one side alone, or two entries with one key. -/
inductive Match (A B : Type*) where
  | left (a : A)
  | right (b : B)
  | both (a : A) (b : B)

variable [LinearOrder K] (f : A → K) (g : B → K)

/-- The key of a match. -/
def Match.key : Match A B → K
  | .left a => f a
  | .right b => g b
  | .both a _ => f a

/-- Walk two lists together. -/
def align : List A → List B → List (Match A B)
  | [], bs => bs.map .right
  | a :: as, [] => (a :: as).map .left
  | a :: as, b :: bs =>
      if f a = g b then .both a b :: align as bs
      else if g b < f a then .right b :: align (a :: as) bs
      else .left a :: align as (b :: bs)
termination_by as bs => as.length + bs.length

/-- Keys increase along a list. -/
def Increasing {E : Type*} (key : E → K) (entries : List E) : Prop :=
  entries.Pairwise fun first second => key first < key second

variable {f g}

theorem align_nil_cons (b : B) (bs : List B) :
    align f g [] (b :: bs) = .right b :: align f g [] bs := by
  rw [align, align, List.map_cons]

theorem align_cons_nil (a : A) (as : List A) :
    align f g (a :: as) [] = .left a :: align f g as [] := by
  rw [align]
  cases as with
  | nil => rw [align]; rfl
  | cons a' as => rw [align, List.map_cons]

theorem Increasing.tail {E : Type*} {key : E → K} {entry : E} {entries : List E}
    (increasing : Increasing key (entry :: entries)) : Increasing key entries :=
  (List.pairwise_cons.mp increasing).2

theorem Increasing.head {E : Type*} {key : E → K} {entry other : E} {entries : List E}
    (increasing : Increasing key (entry :: entries)) (member : other ∈ entries) :
    key entry < key other :=
  (List.pairwise_cons.mp increasing).1 other member

/-- Entries of an increasing list with one key are one entry. -/
theorem Increasing.eq_of_key {E : Type*} {key : E → K} :
    ∀ {entries : List E}, Increasing key entries → ∀ {first second : E}, first ∈ entries →
      second ∈ entries → key first = key second → first = second := by
  intro entries
  induction entries with
  | nil => intro _ first second member _ _; cases member
  | cons entry entries ih =>
      intro increasing first second one two same
      rcases List.mem_cons.mp one with rfl | inner
      · rcases List.mem_cons.mp two with rfl | inner'
        · rfl
        · exact ((increasing.head inner').ne same).elim
      · rcases List.mem_cons.mp two with rfl | inner'
        · exact ((increasing.head inner).ne same.symm).elim
        · exact ih increasing.tail inner inner' same

/-- An entry not above the first key of an increasing list, other than its first entry, has
none of its keys. -/
theorem Increasing.ne_of_lt {E : Type*} {key : E → K} {entry other : E} {entries : List E}
    (increasing : Increasing key (entry :: entries)) {k : K} (below : k < key entry)
    (member : other ∈ entry :: entries) : key other ≠ k := by
  rcases List.mem_cons.mp member with rfl | member
  · exact below.ne'
  · exact (below.trans (increasing.head member)).ne'

/-- What is passed alone, and what together. -/
theorem mem_align :
    ∀ (as : List A) (bs : List B), Increasing f as → Increasing g bs →
      (∀ a, .left a ∈ align f g as bs ↔ a ∈ as ∧ ∀ b ∈ bs, g b ≠ f a) ∧
      (∀ b, .right b ∈ align f g as bs ↔ b ∈ bs ∧ ∀ a ∈ as, f a ≠ g b) ∧
      ∀ a b, .both a b ∈ align f g as bs ↔ a ∈ as ∧ b ∈ bs ∧ f a = g b := by
  intro as bs
  induction as, bs using align.induct f g with
  | case1 bs =>
      intro _ _
      simp [align]
  | case2 a as =>
      intro _ _
      simp [align]
  | case3 a as b bs same ih =>
      intro left right
      obtain ⟨lefts, rights, boths⟩ := ih left.tail right.tail
      have above : ∀ a' ∈ as, f a' ≠ g b := fun a' member => same ▸ (left.head member).ne'
      have above' : ∀ b' ∈ bs, g b' ≠ f a := fun b' member => same ▸ (right.head member).ne'
      rw [align, if_pos same]
      refine ⟨fun x => ?_, fun y => ?_, fun x y => ?_⟩
      · simp only [List.mem_cons, reduceCtorEq, false_or, lefts, forall_eq_or_imp]
        constructor
        · rintro ⟨member, apart⟩
          exact ⟨Or.inr member, (above x member).symm, apart⟩
        · rintro ⟨rfl | member, other, apart⟩
          · exact (other same.symm).elim
          · exact ⟨member, apart⟩
      · simp only [List.mem_cons, reduceCtorEq, false_or, rights, forall_eq_or_imp]
        constructor
        · rintro ⟨member, apart⟩
          exact ⟨Or.inr member, (above' y member).symm, apart⟩
        · rintro ⟨rfl | member, other, apart⟩
          · exact (other same).elim
          · exact ⟨member, apart⟩
      · simp only [List.mem_cons, Match.both.injEq, boths]
        constructor
        · rintro (⟨rfl, rfl⟩ | ⟨one, two, equal⟩)
          · exact ⟨Or.inl rfl, Or.inl rfl, same⟩
          · exact ⟨Or.inr one, Or.inr two, equal⟩
        · rintro ⟨rfl | one, rfl | two, equal⟩
          · exact Or.inl ⟨rfl, rfl⟩
          · exact (above' y two equal.symm).elim
          · exact (above x one equal).elim
          · exact Or.inr ⟨one, two, equal⟩
  | case4 a as b bs apart below ih =>
      intro left right
      obtain ⟨lefts, rights, boths⟩ := ih left right.tail
      have alone : ∀ a' ∈ a :: as, f a' ≠ g b := fun a' member => left.ne_of_lt below member
      rw [align, if_neg apart, if_pos below]
      refine ⟨fun x => ?_, fun y => ?_, fun x y => ?_⟩
      · rw [List.mem_cons, lefts]
        simp only [reduceCtorEq, false_or, List.forall_mem_cons]
        constructor
        · rintro ⟨member, others⟩
          exact ⟨member, (alone x member).symm, others⟩
        · rintro ⟨member, _, others⟩
          exact ⟨member, others⟩
      · rw [List.mem_cons, rights, Match.right.injEq]
        constructor
        · rintro (rfl | ⟨member, others⟩)
          · exact ⟨List.mem_cons_self, alone⟩
          · exact ⟨List.mem_cons_of_mem _ member, others⟩
        · rintro ⟨member, others⟩
          exact (List.mem_cons.mp member).imp id fun member => ⟨member, others⟩
      · rw [List.mem_cons, boths]
        simp only [reduceCtorEq, false_or]
        constructor
        · rintro ⟨one, two, equal⟩
          exact ⟨one, List.mem_cons_of_mem _ two, equal⟩
        · rintro ⟨one, two, equal⟩
          rcases List.mem_cons.mp two with rfl | two
          · exact (alone x one equal).elim
          · exact ⟨one, two, equal⟩
  | case5 a as b bs apart below ih =>
      intro left right
      obtain ⟨lefts, rights, boths⟩ := ih left.tail right
      have smaller : f a < g b := lt_of_le_of_ne (not_lt.mp below) apart
      have alone : ∀ b' ∈ b :: bs, g b' ≠ f a := fun b' member => right.ne_of_lt smaller member
      rw [align, if_neg apart, if_neg below]
      refine ⟨fun x => ?_, fun y => ?_, fun x y => ?_⟩
      · rw [List.mem_cons, lefts, Match.left.injEq]
        constructor
        · rintro (rfl | ⟨member, others⟩)
          · exact ⟨List.mem_cons_self, alone⟩
          · exact ⟨List.mem_cons_of_mem _ member, others⟩
        · rintro ⟨member, others⟩
          exact (List.mem_cons.mp member).imp id fun member => ⟨member, others⟩
      · rw [List.mem_cons, rights]
        simp only [reduceCtorEq, false_or, List.forall_mem_cons]
        constructor
        · rintro ⟨member, others⟩
          exact ⟨member, (alone y member).symm, others⟩
        · rintro ⟨member, _, others⟩
          exact ⟨member, others⟩
      · rw [List.mem_cons, boths]
        simp only [reduceCtorEq, false_or]
        constructor
        · rintro ⟨one, two, equal⟩
          exact ⟨List.mem_cons_of_mem _ one, two, equal⟩
        · rintro ⟨one, two, equal⟩
          rcases List.mem_cons.mp one with rfl | one
          · exact (alone y two equal.symm).elim
          · exact ⟨one, two, equal⟩

/-- The keys of a walk increase, so nothing is passed twice. -/
theorem align_increasing {as : List A} {bs : List B} (left : Increasing f as)
    (right : Increasing g bs) : Increasing (Match.key f g) (align f g as bs) := by
  -- what comes later in the walk comes from what is left of the two lists
  have later : ∀ {as : List A} {bs : List B} {k : K}, Increasing f as → Increasing g bs →
      (∀ a ∈ as, k < f a) → (∀ b ∈ bs, k < g b) →
      ∀ entry ∈ align f g as bs, k < entry.key f g := by
    intro as bs k left right aboveLeft aboveRight entry member
    obtain ⟨lefts, rights, boths⟩ := mem_align as bs left right
    cases entry with
    | left a => exact aboveLeft a ((lefts a).mp member).1
    | right b => exact aboveRight b ((rights b).mp member).1
    | both a b => exact aboveLeft a ((boths a b).mp member).1
  induction as, bs using align.induct f g with
  | case1 bs =>
      rw [align]
      exact List.pairwise_map.mpr right
  | case2 a as =>
      rw [align]
      exact List.pairwise_map.mpr left
  | case3 a as b bs same ih =>
      rw [align, if_pos same]
      refine List.pairwise_cons.mpr ⟨?_, ih left.tail right.tail⟩
      exact later left.tail right.tail (fun _ => left.head) fun _ member => by
        change f a < _
        rw [same]
        exact right.head member
  | case4 a as b bs apart below ih =>
      rw [align, if_neg apart, if_pos below]
      refine List.pairwise_cons.mpr ⟨?_, ih left right.tail⟩
      refine later left right.tail (fun x member => ?_) fun _ => right.head
      rcases List.mem_cons.mp member with rfl | member
      · exact below
      · exact below.trans (left.head member)
  | case5 a as b bs apart below ih =>
      have smaller : f a < g b := lt_of_le_of_ne (not_lt.mp below) apart
      rw [align, if_neg apart, if_neg below]
      refine List.pairwise_cons.mpr ⟨?_, ih left.tail right⟩
      refine later left.tail right (fun _ => left.head) fun y member => ?_
      rcases List.mem_cons.mp member with rfl | member
      · exact smaller
      · exact smaller.trans (right.head member)

/-! ## Changing a map along a walk -/

/-- Change a map at the key of each entry in turn. -/
def changeAll {E V : Type*} [DecidableEq K] (key : E → K) (change : E → V → V) (entries : List E)
    (m : K → V) :
    K → V :=
  entries.foldl (fun m entry => Function.update m (key entry) (change entry (m (key entry)))) m

omit [LinearOrder K] in
theorem changeAll_of_notMem {E V : Type*} [DecidableEq K] {key : E → K} {change : E → V → V} :
    ∀ {entries : List E} {k : K} (m : K → V), (∀ entry ∈ entries, key entry ≠ k) →
      changeAll key change entries m k = m k := by
  intro entries
  induction entries with
  | nil => intro k m _; rfl
  | cons entry entries ih =>
      intro k m apart
      have first := ih (Function.update m (key entry) (change entry (m (key entry))))
        fun other member => apart other (List.mem_cons_of_mem _ member)
      rw [Function.update_of_ne (apart entry List.mem_cons_self).symm] at first
      exact first

/-- Entries with increasing keys each change the map they find at the start. -/
theorem changeAll_of_mem {E V : Type*} [DecidableEq K] {key : E → K} {change : E → V → V} :
    ∀ {entries : List E} {entry : E} (m : K → V), Increasing key entries → entry ∈ entries →
      changeAll key change entries m (key entry) = change entry (m (key entry)) := by
  intro entries
  induction entries with
  | nil => intro entry m _ member; cases member
  | cons first entries ih =>
      intro entry m increasing member
      let next := Function.update m (key first) (change first (m (key first)))
      change changeAll key change entries next (key entry) = _
      rcases List.mem_cons.mp member with rfl | later
      · rw [changeAll_of_notMem next fun other member => (increasing.head member).ne']
        exact Function.update_self ..
      · rw [ih next increasing.tail later]
        exact congrArg (change entry) (Function.update_of_ne (increasing.head later).ne' _ _)

end Align
