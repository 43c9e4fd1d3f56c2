import Mathlib.Data.Option.Basic
import Pqfh.Terminal.Escape

/-! # Menus on the screen

A click is taken for a menu when it is in a frame of line characters whose every row has one
highlighted letter or a marker. The code looks for the two sides on the row of the click, then for
the corners above and below, and last at the other rows; but there it looks at the row of the click
again. `Terminal.detecta_iff` says when that makes no difference.
-/

namespace Pqfh

open Java (CodeUnit Str formatInt lit trim unit)

/-- `MARCADOR`. -/
def marcador : CodeUnit := 65533

/-- The sides of a frame, and the rows of its corners. -/
structure Moldura where
  x1 : ℤ
  x2 : ℤ
  y1 : ℤ
  y2 : ℤ
  deriving Repr, DecidableEq

/-- What `MenuInterno` records: the last menu found, and the options of those that were seen. -/
structure MenuInterno where
  y : ℤ
  moldura : Moldura
  menus : List (Str × List Str)
  deriving Repr, DecidableEq

namespace Terminal

/-- A line character. -/
def emAcs (t : Terminal) (i j : ℤ) : Bool :=
  (t.tela i j).atributo &&& Atributo.acs = Atributo.acs

/-- A vertical line. -/
def barra (t : Terminal) (i j : ℤ) : Bool := (t.tela i j).dado = unit '3' && t.emAcs i j

/-- A loop that goes on while a place allows it, to the first place that is looked for. -/
def procura (segue acha : ℤ → Bool) : List ℤ → Option ℤ
  | [] => none
  | i :: rest => if !segue i then none else if acha i then some i else procura segue acha rest

/-- The turns over a row, with `destaques` and `letra`. A marker ends them. -/
def varre (t : Terminal) (i : ℤ) : List ℤ → ℕ × CodeUnit → ℕ × CodeUnit
  | [], now => now
  | j :: rest, (destaques, letra) =>
      let now := if (t.tela i j).frente = unit 'Y' then (destaques + 1, (t.tela i j).dado)
        else (destaques, letra)
      if (t.tela i j).dado = marcador then (1, unit '^') else varre t i rest now

/-- A row is one of a menu. -/
def linhaDeMenu (t : Terminal) (i x1 x2 : ℤ) : Bool :=
  let (destaques, letra) := t.varre i (faixa (x1 + 1) x2) (0, unit '?')
  !(letra = unit '?' || destaques != 1)

/-- Line characters on both sides. -/
def lados (t : Terminal) (x1 x2 i : ℤ) : Bool := t.emAcs i x1 && t.emAcs i x2

/-- The corners of a row. -/
def cantos (t : Terminal) (esquerdo direito : CodeUnit) (x1 x2 i : ℤ) : Bool :=
  (t.tela i x1).dado = esquerdo && (t.tela i x2).dado = direito

/-- The scans of `dentroMenu`. Each `none` is a `return false`. -/
def encontra (t : Terminal) (y x : ℤ) : Option Moldura := do
  guard (1 ≤ y ∧ 1 ≤ x ∧ x < 79 ∧ y < 24)
  let x1 ← procura (fun _ => true) (t.barra y) (faixa 0 x).reverse
  let x2 ← procura (fun _ => true) (t.barra y) (faixa (x + 1) 80)
  guard (t.linhaDeMenu y x1 x2)
  let y1 ← procura (t.lados x1 x2) (t.cantos (unit 'Z') (unit '?') x1 x2) (faixa 0 (y + 1)).reverse
  let y2 ← procura (t.lados x1 x2) (t.cantos (unit '@') (unit 'Y') x1 x2) (faixa y 25)
  -- for the other rows too, it is row `y` that is looked at
  guard ((faixa (y1 + 1) y2).all fun i => i = y || t.linhaDeMenu y x1 x2)
  some ⟨x1, x2, y1, y2⟩

/-- The text of an option. -/
def opcao (t : Terminal) (moldura : Moldura) (i : ℤ) : Str :=
  trim ((faixa (moldura.x1 + 1) moldura.x2).map fun j =>
    if (t.tela i j).dado = marcador then unit ' ' else (t.tela i j).dado)

end Terminal

namespace MenuInterno

/-- A menu is recorded, with its options when they are new. -/
def registra (menu : MenuInterno) (t : Terminal) (y : ℤ) (moldura : Moldura) : MenuInterno :=
  let s := t.opcao moldura (moldura.y1 + 1)
  let chave := formatInt 1 moldura.x1 ++ lit ":" ++ formatInt 1 moldura.y1 ++ lit ":" ++
    formatInt 1 moldura.x2 ++ lit ":" ++ formatInt 1 moldura.y2 ++ lit ":" ++ s
  let menus := match menu.menus.lookup chave with
    | some _ => menu.menus
    | none => (chave, s :: (faixa (moldura.y1 + 2) moldura.y2).map (t.opcao moldura)) :: menu.menus
  { y := y, moldura := moldura, menus := menus }

/-- `dentroMenu`. -/
def dentroMenu (menu : MenuInterno) (t : Terminal) (y x : ℤ) : Bool × MenuInterno :=
  match t.encontra y x with
  | none => (false, menu)
  | some moldura => (true, menu.registra t y moldura)

end MenuInterno

/-! ## Scans -/

namespace Terminal

section Scans

variable {segue acha : ℤ → Bool} {R : ℤ → ℤ → Prop}

/-- A scan that goes on up to a place that is looked for ends there or before. -/
theorem exists_procura {i : ℤ} : ∀ {places : List ℤ}, places.Pairwise R → i ∈ places →
    segue i = true → acha i = true → (∀ k ∈ places, R k i → segue k = true) →
    ∃ k, procura segue acha places = some k ∧ (k = i ∨ R k i) := by
  intro places
  induction places with
  | nil => exact fun _ member => absurd member List.not_mem_nil
  | cons first places ih =>
      intro sorted member goes found earlier
      obtain ⟨before, sorted⟩ := List.pairwise_cons.mp sorted
      have here : first = i ∨ R first i := by
        rcases List.mem_cons.mp member with same | later
        · exact Or.inl same.symm
        · exact Or.inr (before i later)
      have first_goes : segue first = true := by
        rcases here with rfl | less
        · exact goes
        · exact earlier first List.mem_cons_self less
      rw [procura, if_neg (by rw [first_goes]; decide)]
      by_cases first_found : acha first = true
      · rw [if_pos first_found]
        exact ⟨first, rfl, here⟩
      · rw [if_neg first_found]
        rcases List.mem_cons.mp member with rfl | later
        · exact absurd found first_found
        · exact ih sorted later goes found fun k place => earlier k (List.mem_cons_of_mem _ place)

variable (asymm : ∀ i k, R i k → ¬ R k i)

include asymm

/-- What a scan finds is the first place that is looked for, and it goes on at every place before.
-/
theorem procura_eq_some {i : ℤ} : ∀ {places : List ℤ}, places.Pairwise R →
    (procura segue acha places = some i ↔ i ∈ places ∧ segue i = true ∧ acha i = true ∧
      ∀ k ∈ places, R k i → segue k = true ∧ acha k = false) := by
  intro places
  induction places with
  | nil => exact fun _ => ⟨fun found => (Option.some_ne_none i found.symm).elim,
      fun found => absurd found.1 List.not_mem_nil⟩
  | cons first places ih =>
      intro sorted
      obtain ⟨before, sorted⟩ := List.pairwise_cons.mp sorted
      have self : ¬ R first first := fun same => asymm _ _ same same
      rw [procura]
      by_cases goes : segue first = true
      · rw [if_neg (by rw [goes]; decide)]
        by_cases here : acha first = true
        · rw [if_pos here]
          constructor
          · intro found
            have same : first = i := Option.some.inj found
            subst same
            refine ⟨List.mem_cons_self, goes, here, fun k member earlier => ?_⟩
            rcases List.mem_cons.mp member with rfl | later
            · exact absurd earlier self
            · exact absurd (before k later) (asymm k first earlier)
          · rintro ⟨member, _, _, first_found⟩
            rcases List.mem_cons.mp member with rfl | later
            · rfl
            · have other := (first_found first List.mem_cons_self (before i later)).2
              rw [here] at other
              cases other
        · rw [if_neg here, ih sorted]
          constructor
          · rintro ⟨member, goes_i, found, earlier⟩
            refine ⟨List.mem_cons_of_mem _ member, goes_i, found, fun k place less => ?_⟩
            rcases List.mem_cons.mp place with rfl | later
            · exact ⟨goes, Bool.eq_false_of_not_eq_true here⟩
            · exact earlier k later less
          · rintro ⟨member, goes_i, found, earlier⟩
            rcases List.mem_cons.mp member with rfl | later
            · exact absurd found here
            · exact ⟨later, goes_i, found, fun k place => earlier k (List.mem_cons_of_mem _ place)⟩
      · have stops : segue first = false := Bool.eq_false_of_not_eq_true goes
        rw [if_pos (by rw [stops]; rfl)]
        refine ⟨fun found => (Option.some_ne_none i found.symm).elim, ?_⟩
        rintro ⟨member, goes_i, _, earlier⟩
        rcases List.mem_cons.mp member with rfl | later
        · exact absurd goes_i goes
        · exact absurd (earlier first List.mem_cons_self (before i later)).1 goes

end Scans

theorem pairwise_faixa (first stop : ℤ) : (faixa first stop).Pairwise (· < ·) := by
  unfold faixa
  refine List.Pairwise.map _ (fun a b less => ?_) List.pairwise_lt_range
  omega

theorem pairwise_faixa_reverse (first stop : ℤ) :
    (faixa first stop).reverse.Pairwise (· > ·) :=
  List.pairwise_reverse.mpr (pairwise_faixa first stop)

variable {segue acha : ℤ → Bool} {first stop i : ℤ}

/-- A scan to the right or downwards. -/
theorem procura_faixa : procura segue acha (faixa first stop) = some i ↔
    (first ≤ i ∧ i < stop) ∧ segue i = true ∧ acha i = true ∧
      ∀ k, first ≤ k → k < i → segue k = true ∧ acha k = false := by
  rw [procura_eq_some (fun _ _ less => lt_asymm less) (pairwise_faixa first stop), mem_faixa]
  refine and_congr_right fun inside => and_congr_right fun _ => and_congr_right fun _ => ?_
  refine forall_congr' fun k => ?_
  rw [mem_faixa]
  exact ⟨fun all from_first less => all ⟨from_first, less.trans inside.2⟩ less,
    fun all member less => all member.1 less⟩

/-- A scan to the left or upwards. -/
theorem procura_reverse : procura segue acha (faixa first stop).reverse = some i ↔
    (first ≤ i ∧ i < stop) ∧ segue i = true ∧ acha i = true ∧
      ∀ k, i < k → k < stop → segue k = true ∧ acha k = false := by
  rw [procura_eq_some (fun _ _ more => lt_asymm more) (pairwise_faixa_reverse first stop),
    List.mem_reverse, mem_faixa]
  refine and_congr_right fun inside => and_congr_right fun _ => and_congr_right fun _ => ?_
  refine forall_congr' fun k => ?_
  rw [List.mem_reverse, mem_faixa]
  exact ⟨fun all more below => all ⟨inside.1.trans more.le, below⟩ more,
    fun all member more => all more member.2⟩

/-! ## Rows -/

/-- A row between two sides has a marker, or one highlighted character, which is no question mark.
-/
def LinhaBoa (t : Terminal) (x1 x2 i : ℤ) : Prop :=
  (∃ j, (x1 < j ∧ j < x2) ∧ (t.tela i j).dado = marcador) ∨
    ∃ j, (x1 < j ∧ j < x2) ∧ (t.tela i j).frente = unit 'Y' ∧ (t.tela i j).dado ≠ unit '?' ∧
      ∀ k, x1 < k ∧ k < x2 → (t.tela i k).frente = unit 'Y' → k = j

section Rows

variable {t : Terminal} {i : ℤ}

/-- The turns stop at a marker. -/
theorem varre_marcador : ∀ {places : List ℤ} {now : ℕ × CodeUnit},
    (∃ j ∈ places, (t.tela i j).dado = marcador) → t.varre i places now = (1, unit '^') := by
  intro places
  induction places with
  | nil =>
      rintro now ⟨j, member, _⟩
      exact absurd member List.not_mem_nil
  | cons j places ih =>
      rintro ⟨destaques, letra⟩ ⟨k, member, marked⟩
      rw [varre]
      by_cases here : (t.tela i j).dado = marcador
      · exact if_pos here
      · rcases List.mem_cons.mp member with rfl | later
        · exact absurd marked here
        · exact (if_neg here).trans (ih ⟨k, later, marked⟩)

/-- Without one they count what is highlighted, and keep the last. -/
theorem varre_eq : ∀ {places : List ℤ} {now : ℕ × CodeUnit},
    (∀ j ∈ places, (t.tela i j).dado ≠ marcador) →
    t.varre i places now =
      (now.1 + (places.filter fun j => (t.tela i j).frente = unit 'Y').length,
        (((places.filter fun j => (t.tela i j).frente = unit 'Y').getLast?.map
          fun j => (t.tela i j).dado).getD now.2)) := by
  intro places
  induction places with
  | nil => exact fun _ => rfl
  | cons j places ih =>
      rintro ⟨destaques, letra⟩ plain
      rw [varre]
      refine (if_neg (plain j List.mem_cons_self)).trans ?_
      rw [ih fun k member => plain k (List.mem_cons_of_mem _ member)]
      by_cases shown : (t.tela i j).frente = unit 'Y'
      · rw [List.filter_cons_of_pos (by rw [shown]; decide), if_pos shown, List.length_cons,
          List.getLast?_cons]
        refine Prod.ext (by dsimp only; omega) ?_
        cases (places.filter fun j => (t.tela i j).frente = unit 'Y').getLast? with
        | none => rfl
        | some last => rfl
      · rw [List.filter_cons_of_neg (by simpa using shown), if_neg shown]

/-- One place of a list is alone in what it is. -/
theorem filter_eq_singleton_iff {p : ℤ → Bool} {places : List ℤ} (nodup : places.Nodup) {j : ℤ} :
    places.filter p = [j] ↔ (j ∈ places ∧ p j = true) ∧ ∀ k ∈ places, p k = true → k = j := by
  constructor
  · intro alone
    have member : j ∈ places.filter p := by
      rw [alone]
      exact List.mem_singleton.mpr rfl
    refine ⟨List.mem_filter.mp member, fun k place shown => ?_⟩
    have other := List.mem_filter.mpr ⟨place, shown⟩
    rw [alone] at other
    exact List.mem_singleton.mp other
  · rintro ⟨member, alone⟩
    have all : ∀ k ∈ places.filter p, k = j := fun k place =>
      alone k (List.mem_filter.mp place).1 (List.mem_filter.mp place).2
    have copies := List.eq_replicate_of_mem all
    have once := (nodup.filter p)
    rw [copies, List.nodup_replicate] at once
    have some := List.length_pos_of_mem (List.mem_filter.mpr member)
    rw [copies, show (places.filter p).length = 1 by omega]
    rfl

/-- What the turns over a row decide. -/
theorem linhaDeMenu_iff {x1 x2 : ℤ} : t.linhaDeMenu i x1 x2 = true ↔ t.LinhaBoa x1 x2 i := by
  have between : ∀ {j : ℤ}, j ∈ faixa (x1 + 1) x2 ↔ x1 < j ∧ j < x2 := fun {j} => by
    rw [mem_faixa, Int.add_one_le_iff]
  by_cases marked : ∃ j ∈ faixa (x1 + 1) x2, (t.tela i j).dado = marcador
  · have counted : t.linhaDeMenu i x1 x2 = true := by
      rw [linhaDeMenu, varre_marcador marked]
      decide
    obtain ⟨j, member, here⟩ := marked
    exact iff_of_true counted (Or.inl ⟨j, between.mp member, here⟩)
  · have plain : ∀ j ∈ faixa (x1 + 1) x2, (t.tela i j).dado ≠ marcador := fun j member here =>
      marked ⟨j, member, here⟩
    have nodup : (faixa (x1 + 1) x2).Nodup := (pairwise_faixa _ _).imp fun less => less.ne
    have alone := fun j => @filter_eq_singleton_iff
      (fun j => decide ((t.tela i j).frente = unit 'Y')) _ nodup j
    rw [linhaDeMenu, varre_eq plain, LinhaBoa, or_iff_right
      fun ⟨j, inside, here⟩ => plain j (between.mpr inside) here]
    simp only [Bool.not_eq_true', Bool.or_eq_false_iff, decide_eq_false_iff_not,
      bne_eq_false_iff_eq, Nat.zero_add]
    constructor
    · rintro ⟨letter, one⟩
      obtain ⟨j, only⟩ := List.length_eq_one_iff.mp one
      rw [only] at letter
      obtain ⟨⟨member, shown⟩, others⟩ := (alone j).mp only
      refine ⟨j, between.mp member, of_decide_eq_true shown, letter, fun k inside high => ?_⟩
      exact others k (between.mpr inside) (decide_eq_true high)
    · rintro ⟨j, inside, shown, letter, others⟩
      rw [(alone j).mpr ⟨⟨between.mpr inside, decide_eq_true shown⟩, fun k member high =>
        others k (between.mp member) (of_decide_eq_true high)⟩]
      exact ⟨letter, rfl⟩

end Rows

/-! ## Frames -/

/-- The sides are the nearest vertical lines of a row, left and right of a place. -/
structure Vizinhas (t : Terminal) (y x : ℤ) (moldura : Moldura) : Prop where
  esquerda : (0 ≤ moldura.x1 ∧ moldura.x1 < x) ∧ t.barra y moldura.x1 = true
  direita : (x < moldura.x2 ∧ moldura.x2 < 80) ∧ t.barra y moldura.x2 = true
  livre : ∀ j, moldura.x1 < j → j < moldura.x2 → j ≠ x → t.barra y j = false

/-- The sides are those of a closed frame around a row. -/
structure Fechada (t : Terminal) (y : ℤ) (moldura : Moldura) : Prop where
  acima : 0 ≤ moldura.y1 ∧ moldura.y1 < y
  abaixo : y < moldura.y2 ∧ moldura.y2 < 25
  topo : t.cantos (unit 'Z') (unit '?') moldura.x1 moldura.x2 moldura.y1 = true
  base : t.cantos (unit '@') (unit 'Y') moldura.x1 moldura.x2 moldura.y2 = true
  lados : ∀ i, moldura.y1 ≤ i → i ≤ moldura.y2 → t.lados moldura.x1 moldura.x2 i = true

/-- Its corners are the nearest ones. -/
structure Proxima (t : Terminal) (y : ℤ) (moldura : Moldura) : Prop where
  topo : ∀ i, moldura.y1 < i → i ≤ y →
    t.cantos (unit 'Z') (unit '?') moldura.x1 moldura.x2 i = false
  base : ∀ i, y ≤ i → i < moldura.y2 →
    t.cantos (unit '@') (unit 'Y') moldura.x1 moldura.x2 i = false

/-- The rows inside a frame are all those of a menu. -/
def Opcoes (t : Terminal) (moldura : Moldura) : Prop :=
  ∀ i, moldura.y1 < i → i < moldura.y2 → t.LinhaBoa moldura.x1 moldura.x2 i

/-- A place is in a menu. -/
def EmMenu (t : Terminal) (y x : ℤ) : Prop :=
  ∃ moldura, t.Vizinhas y x moldura ∧ t.Fechada y moldura ∧ t.Opcoes moldura

section Frames

variable {t : Terminal} {y x : ℤ}

/-- A row of vertical lines has no corners. -/
theorem Vizinhas.not_cantos {moldura : Moldura} (vizinhas : t.Vizinhas y x moldura)
    {esquerdo direito : CodeUnit} (other : esquerdo ≠ unit '3') :
    t.cantos esquerdo direito moldura.x1 moldura.x2 y = false := by
  have line := vizinhas.esquerda.2
  unfold barra at line
  rw [Bool.and_eq_true, decide_eq_true_eq] at line
  unfold cantos
  rw [line.1, decide_eq_false other.symm, Bool.false_and]

theorem Vizinhas.lados {moldura : Moldura} (vizinhas : t.Vizinhas y x moldura) :
    t.lados moldura.x1 moldura.x2 y = true := by
  have left := vizinhas.esquerda.2
  have right := vizinhas.direita.2
  unfold barra at left right
  rw [Bool.and_eq_true] at left right
  rw [Terminal.lados, left.2, right.2, Bool.and_true]

/-- The nearest lines are the same ones for all frames. -/
theorem Vizinhas.unique {first second : Moldura} (one : t.Vizinhas y x first)
    (two : t.Vizinhas y x second) : first.x1 = second.x1 ∧ first.x2 = second.x2 := by
  obtain ⟨⟨⟨_, left⟩, barLeft⟩, ⟨⟨right, _⟩, barRight⟩, free⟩ := one
  obtain ⟨⟨⟨_, left'⟩, barLeft'⟩, ⟨⟨right', _⟩, barRight'⟩, free'⟩ := two
  constructor
  · rcases lt_trichotomy first.x1 second.x1 with less | same | more
    · cases (free _ less (by omega) (by omega)).symm.trans barLeft'
    · exact same
    · cases (free' _ more (by omega) (by omega)).symm.trans barLeft
  · rcases lt_trichotomy first.x2 second.x2 with less | same | more
    · cases (free' _ (by omega) less (by omega)).symm.trans barRight
    · exact same
    · cases (free _ (by omega) more (by omega)).symm.trans barRight'

/-- What the two scans of a row find. -/
theorem vizinhas_iff {moldura : Moldura} : t.Vizinhas y x moldura ↔
    procura (fun _ => true) (t.barra y) (faixa 0 x).reverse = some moldura.x1 ∧
      procura (fun _ => true) (t.barra y) (faixa (x + 1) 80) = some moldura.x2 := by
  rw [procura_reverse, procura_faixa]
  constructor
  · rintro ⟨⟨left, barLeft⟩, ⟨right, barRight⟩, free⟩
    refine ⟨⟨left, rfl, barLeft, fun k more less => ⟨rfl, ?_⟩⟩,
      ⟨⟨by omega, right.2⟩, rfl, barRight, fun k more less => ⟨rfl, ?_⟩⟩⟩
    · exact free k more (by omega) (by omega)
    · exact free k (by omega) less (by omega)
  · rintro ⟨⟨left, _, barLeft, freeLeft⟩, ⟨right, _, barRight, freeRight⟩⟩
    refine ⟨⟨left, barLeft⟩, ⟨⟨by omega, right.2⟩, barRight⟩, fun j more less other => ?_⟩
    rcases lt_or_gt_of_ne other with before | after
    · exact (freeLeft j more before).2
    · exact (freeRight j (by omega) less).2

/-- What the two scans of the corners find. -/
theorem fechada_iff {moldura : Moldura} (vizinhas : t.Vizinhas y x moldura) :
    t.Fechada y moldura ∧ t.Proxima y moldura ↔
      procura (t.lados moldura.x1 moldura.x2)
          (t.cantos (unit 'Z') (unit '?') moldura.x1 moldura.x2) (faixa 0 (y + 1)).reverse =
        some moldura.y1 ∧
      procura (t.lados moldura.x1 moldura.x2)
          (t.cantos (unit '@') (unit 'Y') moldura.x1 moldura.x2) (faixa y 25) =
        some moldura.y2 := by
  rw [procura_reverse, procura_faixa]
  constructor
  · rintro ⟨⟨acima, abaixo, topo, base, lados⟩, ⟨nearTop, nearBase⟩⟩
    refine ⟨⟨⟨acima.1, by omega⟩, lados _ le_rfl (by omega), topo, fun k more less => ?_⟩,
      ⟨⟨by omega, abaixo.2⟩, lados _ (by omega) le_rfl, base, fun k more less => ?_⟩⟩
    · exact ⟨lados k (by omega) (by omega), nearTop k more (by omega)⟩
    · exact ⟨lados k (by omega) (by omega), nearBase k more less⟩
  · rintro ⟨⟨above, sideTop, topo, upper⟩, ⟨below, sideBase, base, lower⟩⟩
    -- the row itself has vertical lines, so the corners are in other rows
    have top : moldura.y1 ≠ y := fun same => by
      rw [same, vizinhas.not_cantos (by decide)] at topo
      cases topo
    have bottom : moldura.y2 ≠ y := fun same => by
      rw [same, vizinhas.not_cantos (by decide)] at base
      cases base
    refine ⟨⟨⟨above.1, by omega⟩, ⟨by omega, below.2⟩, topo, base, fun i first last => ?_⟩,
      ⟨fun i more less => (upper i more (by omega)).2, fun i more less => (lower i more less).2⟩⟩
    rcases lt_or_ge y i with after | before
    · rcases last.lt_or_eq with less | same
      · exact (lower i after.le less).1
      · rw [same]
        exact sideBase
    · rcases first.lt_or_eq with more | same
      · exact (upper i more (by omega)).1
      · rw [← same]
        exact sideTop

/-- A closed frame has a nearest one inside it. -/
theorem exists_proxima {moldura : Moldura} (vizinhas : t.Vizinhas y x moldura)
    (fechada : t.Fechada y moldura) : ∃ proxima : Moldura, t.Vizinhas y x proxima ∧
      t.Fechada y proxima ∧ t.Proxima y proxima ∧ moldura.y1 ≤ proxima.y1 ∧
      proxima.y2 ≤ moldura.y2 := by
  obtain ⟨acima, abaixo, topo, base, lados⟩ := fechada
  obtain ⟨y1, upper, near⟩ := exists_procura (pairwise_faixa_reverse 0 (y + 1))
    (List.mem_reverse.mpr (mem_faixa.mpr ⟨acima.1, by omega⟩)) (lados _ le_rfl (by omega)) topo
    fun k member more => lados k more.le (by
      have := (mem_faixa.mp (List.mem_reverse.mp member)).2
      omega)
  obtain ⟨y2, lower, near'⟩ := exists_procura (pairwise_faixa y 25)
    (mem_faixa.mpr ⟨by omega, abaixo.2⟩) (lados _ (by omega) le_rfl) base
    fun k member less => lados k (by have := (mem_faixa.mp member).1; omega) less.le
  have sides : t.Vizinhas y x ⟨moldura.x1, moldura.x2, y1, y2⟩ :=
    ⟨vizinhas.esquerda, vizinhas.direita, vizinhas.livre⟩
  obtain ⟨closed, nearest⟩ := (fechada_iff sides).mpr ⟨upper, lower⟩
  exact ⟨_, sides, closed, nearest, by dsimp only; omega, by dsimp only; omega⟩

/-- The nearest closed frame is inside every other one. -/
theorem Proxima.inside {near moldura : Moldura} (proxima : t.Proxima y near)
    (vizinhas : t.Vizinhas y x near) (others : t.Vizinhas y x moldura)
    (fechada : t.Fechada y moldura) : moldura.y1 ≤ near.y1 ∧ near.y2 ≤ moldura.y2 := by
  obtain ⟨left, right⟩ := vizinhas.unique others
  constructor
  · by_contra above
    have none := proxima.topo moldura.y1 (by omega) fechada.acima.2.le
    rw [left, right] at none
    cases none.symm.trans fechada.topo
  · by_contra below
    have none := proxima.base moldura.y2 fechada.abaixo.1.le (by omega)
    rw [left, right] at none
    cases none.symm.trans fechada.base

/-- What the scans find, for a place inside the screen. -/
theorem encontra_eq_some (inside : 1 ≤ y ∧ y < 24) (column : 1 ≤ x ∧ x < 79) {moldura : Moldura} :
    t.encontra y x = some moldura ↔ t.Vizinhas y x moldura ∧ t.Fechada y moldura ∧
      t.Proxima y moldura ∧ t.LinhaBoa moldura.x1 moldura.x2 y := by
  have place : 1 ≤ y ∧ 1 ≤ x ∧ x < 79 ∧ y < 24 := ⟨inside.1, column.1, column.2, inside.2⟩
  obtain ⟨x1, x2, y1, y2⟩ := moldura
  unfold encontra
  simp only [Option.bind_eq_bind, Option.bind_eq_some_iff, Option.guard_eq_some', place,
    Option.some.injEq, Moldura.mk.injEq, List.all_eq_true, true_and, exists_const, and_self]
  constructor
  · rintro ⟨x1, left, x2, right, row, y1, above, y2, below, _, rfl, rfl, rfl, rfl⟩
    have vizinhas : t.Vizinhas y x ⟨x1, x2, y1, y2⟩ := vizinhas_iff.mpr ⟨left, right⟩
    obtain ⟨closed, nearest⟩ := (fechada_iff vizinhas).mpr ⟨above, below⟩
    exact ⟨vizinhas, closed, nearest, linhaDeMenu_iff.mp row⟩
  · rintro ⟨vizinhas, closed, nearest, row⟩
    obtain ⟨left, right⟩ := vizinhas_iff.mp vizinhas
    obtain ⟨above, below⟩ := (fechada_iff vizinhas).mp ⟨closed, nearest⟩
    have good := linhaDeMenu_iff.mpr row
    refine ⟨x1, left, x2, right, good, y1, above, y2, below, fun i _ => ?_, rfl, rfl, rfl, rfl⟩
    rw [good, Bool.or_true]

end Frames

/-! ## Detection -/

/-- `dentroMenu` is true just in a menu, and records nothing when it is false. -/
structure Detecta (menu : MenuInterno) (t : Terminal) (y x : ℤ) : Prop where
  acha : (menu.dentroMenu t y x).1 = true ↔ t.EmMenu y x
  mantem : (menu.dentroMenu t y x).1 = false → (menu.dentroMenu t y x).2 = menu

/-- In the nearest frame around a row of a menu the other rows are rows of a menu too. -/
def OutrasLinhas (t : Terminal) (y x : ℤ) : Prop :=
  ∀ moldura, t.Vizinhas y x moldura → t.Fechada y moldura → t.Proxima y moldura →
    t.LinhaBoa moldura.x1 moldura.x2 y →
    ∀ i, moldura.y1 < i → i < moldura.y2 → i ≠ y → t.LinhaBoa moldura.x1 moldura.x2 i

theorem dentroMenu_iff {menu : MenuInterno} {t : Terminal} {y x : ℤ} :
    (menu.dentroMenu t y x).1 = true ↔ ∃ moldura, t.encontra y x = some moldura := by
  unfold MenuInterno.dentroMenu
  cases t.encontra y x with
  | none => exact ⟨fun found => absurd found Bool.false_ne_true,
      fun ⟨_, found⟩ => (Option.some_ne_none _ found.symm).elim⟩
  | some moldura => exact iff_of_true rfl ⟨moldura, rfl⟩

theorem dentroMenu_mantem {menu : MenuInterno} {t : Terminal} {y x : ℤ}
    (none : (menu.dentroMenu t y x).1 = false) : (menu.dentroMenu t y x).2 = menu := by
  unfold MenuInterno.dentroMenu at none ⊢
  cases found : t.encontra y x with
  | none => rfl
  | some moldura =>
      rw [found] at none
      cases none

/-- A click is told to be in a menu just when it is, if and only if the rows that are not looked at
are like the one that is. -/
theorem detecta_iff (menu : MenuInterno) (t : Terminal) {y x : ℤ} (line : 1 ≤ y ∧ y < 24)
    (column : 1 ≤ x ∧ x < 79) : Detecta menu t y x ↔ t.OutrasLinhas y x := by
  constructor
  · rintro ⟨acha, _⟩ near vizinhas fechada proxima row i above below _
    have found : (menu.dentroMenu t y x).1 = true := dentroMenu_iff.mpr
      ⟨near, (encontra_eq_some line column).mpr ⟨vizinhas, fechada, proxima, row⟩⟩
    obtain ⟨moldura, others, closed, opcoes⟩ := acha.mp found
    obtain ⟨top, bottom⟩ := proxima.inside vizinhas others closed
    obtain ⟨left, right⟩ := vizinhas.unique others
    have good := opcoes i (by omega) (by omega)
    rw [← left, ← right] at good
    exact good
  · intro outras
    refine ⟨⟨fun found => ?_, ?_⟩, dentroMenu_mantem⟩
    · obtain ⟨near, scans⟩ := dentroMenu_iff.mp found
      obtain ⟨vizinhas, fechada, proxima, row⟩ := (encontra_eq_some line column).mp scans
      refine ⟨near, vizinhas, fechada, fun i above below => ?_⟩
      by_cases here : i = y
      · rw [here]
        exact row
      · exact outras near vizinhas fechada proxima row i above below here
    · rintro ⟨moldura, vizinhas, fechada, opcoes⟩
      obtain ⟨near, others, closed, proxima, top, bottom⟩ := exists_proxima vizinhas fechada
      obtain ⟨left, right⟩ := others.unique vizinhas
      have row := opcoes y fechada.acima.2 fechada.abaixo.1
      rw [← left, ← right] at row
      exact dentroMenu_iff.mpr
        ⟨near, (encontra_eq_some line column).mpr ⟨others, closed, proxima, row⟩⟩

/-- A cell of a frame or of a row, given as a character. -/
def desenho (linhas : List String) (i j : ℤ) : Celula :=
  match ((linhas[i.toNat]?).bind fun linha => linha.toList[j.toNat]?) with
  | none => ⟨unit ' ', 0, unit 'W', unit 'b'⟩
  | some ch =>
      if ch ∈ ['Z', 'D', '?', '3', '@', 'Y'] then ⟨unit ch, Atributo.acs, unit 'W', unit 'b'⟩
      else ⟨unit ch, 0, if ch.isUpper then unit 'Y' else unit 'W', unit 'b'⟩

/-- A screen with a drawing in its corner. -/
def desenhado (linhas : List String) : Terminal := { novo with tela := desenho linhas }

/-- No menu has been found. -/
def semMenu : MenuInterno := ⟨-1, ⟨0, 0, -1, 0⟩, []⟩

/-- A menu of two options. -/
theorem detecta_options :
    Detecta semMenu (desenhado ["ZDDD?", "3 A 3", "3 B 3", "@DDDY"]) 1 2 := by
  refine (detecta_iff _ _ (by decide) (by decide)).mpr ?_
  intro moldura vizinhas fechada proxima row i above below other
  have found : (desenhado ["ZDDD?", "3 A 3", "3 B 3", "@DDDY"]).encontra 1 2 =
      some ⟨0, 4, 0, 3⟩ := by decide +kernel
  cases found.symm.trans ((encontra_eq_some (by decide) (by decide)).mpr
    ⟨vizinhas, fechada, proxima, row⟩)
  dsimp only at above below
  have second : i = 2 := by omega
  rw [second]
  exact linhaDeMenu_iff.mp (by decide +kernel)

/-- A frame whose second row is blank. -/
theorem detecta_fails : ¬ ∀ menu t (y x : ℤ), 1 ≤ y ∧ y < 24 → 1 ≤ x ∧ x < 79 →
    Detecta menu t y x := by
  intro always
  have found : (desenhado ["ZDDD?", "3 A 3", "3   3", "@DDDY"]).encontra 1 2 =
      some ⟨0, 4, 0, 3⟩ := by decide +kernel
  obtain ⟨acha, _⟩ := always semMenu (desenhado ["ZDDD?", "3 A 3", "3   3", "@DDDY"]) 1 2
    (by decide) (by decide)
  obtain ⟨moldura, others, closed, opcoes⟩ := acha.mp (dentroMenu_iff.mpr ⟨_, found⟩)
  obtain ⟨vizinhas, _, proxima, _⟩ := (encontra_eq_some (by decide) (by decide)).mp found
  obtain ⟨top, bottom⟩ := proxima.inside vizinhas others closed
  obtain ⟨left, right⟩ := vizinhas.unique others
  dsimp only at top bottom
  have blank := linhaDeMenu_iff.mpr (opcoes 2 (by omega) (by omega))
  rw [← left, ← right] at blank
  exact absurd blank (by decide +kernel)

end Terminal

end Pqfh
