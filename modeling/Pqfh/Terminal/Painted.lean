import Pqfh.Terminal.Show

/-! # What is painted

Painting changes nothing but the marks of the cells that lines go through. It returns when the
rectangle does not go beyond the last column, and no vertical line within it goes down to the last
line of the screen: the background is looked at up to the end of the rectangle, and vertical lines
are followed up to line 80.
-/

namespace Pqfh

open Abrupt (Keeps)
open Java (CodeUnit int int_of_small unit)

/-- A cell without some bits of its attributes. -/
def Celula.sem (bits : BitVec 32) (celula : Celula) : Celula :=
  { celula with atributo := celula.atributo &&& ~~~bits }

namespace Celula

theorem sem_marca (celula : Celula) :
    celula.marca.sem Atributo.processado = celula.sem Atributo.processado := by
  have bits : (celula.atributo ||| Atributo.processado) &&& ~~~Atributo.processado =
      celula.atributo &&& ~~~Atributo.processado := by
    rw [BitVec.and_or_distrib_right, BitVec.and_not_self]
    exact BitVec.or_zero
  exact congrArg (fun bits => { celula with atributo := bits }) bits

theorem sem_desmarca (celula : Celula) :
    celula.desmarca.sem Atributo.processado = celula.sem Atributo.processado := by
  have bits : celula.atributo &&& ~~~Atributo.processado &&& ~~~Atributo.processado =
      celula.atributo &&& ~~~Atributo.processado := by
    rw [BitVec.and_assoc, BitVec.and_self]
  exact congrArg (fun bits => { celula with atributo := bits }) bits

/-- The marks do not count for the line-drawing set. -/
theorem tem_acs_of_sem {celula other : Celula}
    (same : celula.sem Atributo.processado = other.sem Atributo.processado) :
    celula.tem Atributo.acs = other.tem Atributo.acs := by
  have bits : ∀ c : Celula, c.atributo &&& Atributo.acs =
      (c.sem Atributo.processado).atributo &&& Atributo.acs := by
    intro c
    change _ = c.atributo &&& ~~~Atributo.processado &&& Atributo.acs
    rw [BitVec.and_assoc]
    rfl
  unfold tem
  rw [bits celula, bits other, same]

/-- A cell of a line. -/
def Traco (letra : CodeUnit) (celula : Celula) : Prop :=
  celula.dado = letra ∧ celula.tem Atributo.acs = true

theorem traco_of_sem {letra : CodeUnit} {celula other : Celula}
    (same : celula.sem Atributo.processado = other.sem Atributo.processado) :
    celula.Traco letra ↔ other.Traco letra := by
  have dado : (celula.sem _).dado = (other.sem _).dado := congrArg Celula.dado same
  change celula.dado = other.dado at dado
  unfold Traco
  rw [dado, tem_acs_of_sem same]

end Celula

namespace Terminal

/-- Only marks have changed. -/
structure SoMarcas (t later : Terminal) : Prop where
  tela : t.SoTela later
  marcas : ∀ i j, (later.tela i j).sem Atributo.processado = (t.tela i j).sem Atributo.processado

theorem SoMarcas.refl (t : Terminal) : t.SoMarcas t := ⟨rfl, fun _ _ => rfl⟩

/-- A cell is marked, or is no longer. -/
theorem grava_keeps {ok : Prop} {t s : Terminal} (same : t.SoMarcas s) {i j : ℤ}
    (inside : ok → NaTela i j) {celula : Celula}
    (marca : celula.sem Atributo.processado = (s.tela i j).sem Atributo.processado) :
    Keeps ok t.SoMarcas (s.grava i j celula) := by
  unfold grava
  split
  · refine Keeps.of_ok ⟨?_, fun a b => ?_⟩
    · have start := same.tela
      unfold SoTela at start ⊢
      rw [start]
      rfl
    · change (if a = i ∧ b = j then celula else s.tela a b).sem _ = _
      split
      · rename_i here
        rw [marca, ← here.1, ← here.2]
        exact same.marcas a b
      · exact same.marcas a b
  · exact Keeps.of_error same fun promise => absurd (inside promise) ‹_›

/-! ## The background -/

/-- A stretch ends before the end of the rectangle. -/
theorem fimDoTrecho_lt {t : Terminal} {i : ℤ} {cor : CodeUnit} {n : ℕ} {first x2 : ℤ}
    (stretch : t.fimDoTrecho i cor n first = some x2) : first - 1 ≤ x2 ∧ x2 < first + n := by
  induction n generalizing first with
  | zero =>
      cases stretch
      omega
  | succ n ih =>
      unfold fimDoTrecho at stretch
      split at stretch
      · split at stretch
        · have := ih stretch
          omega
        · cases stretch
          omega
      · cases stretch

theorem fimDoTrecho_ne_none {t : Terminal} {i : ℤ} (line : 0 ≤ i ∧ i < 25) {cor : CodeUnit} {n : ℕ}
    {first : ℤ} (column : 0 ≤ first ∧ first + n ≤ 80) : t.fimDoTrecho i cor n first ≠ none := by
  induction n generalizing first with
  | zero => exact Option.some_ne_none _
  | succ n ih =>
      have inside : NaTela i first := ⟨line.1, line.2, column.1, by omega⟩
      unfold fimDoTrecho
      rw [if_pos inside]
      split
      · exact ih (by omega)
      · exact Option.some_ne_none _

theorem pintaLinha_keeps {ok : Prop} {t s : Terminal} (same : t.SoMarcas s) {limite i : ℤ}
    (line : ok → 0 ≤ i ∧ i < 25) (column : ok → limite ≤ 80) {n : ℕ} {j : ℤ} (start : ok → 0 ≤ j) :
    Keeps ok t.SoMarcas (pintaLinha limite i n j s) := by
  induction n generalizing j s with
  | zero => exact Keeps.of_ok same
  | succ n ih =>
      unfold pintaLinha
      split
      · rename_i inside
        have here : ok → NaTela i j := fun promise =>
          ⟨(line promise).1, (line promise).2, start promise, inside.2⟩
        refine (grava_keeps same here (Celula.sem_desmarca _)).bind fun first same => ?_
        split
        · rename_i beyond
          exact Keeps.of_error same fun promise =>
            fimDoTrecho_ne_none (line promise)
              (by have := column promise; have := start promise; omega) beyond
        · rename_i x2 stretch
          have bounds := fimDoTrecho_lt stretch
          refine (Keeps.foldlM ?_ same).bind fun later same => ih same fun promise => ?_
          · intro s same k member
            obtain ⟨after, before⟩ := mem_faixa.mp member
            exact grava_keeps same (fun promise => ⟨(line promise).1, (line promise).2,
              (start promise).trans after, by have := column promise; omega⟩)
              (Celula.sem_desmarca _)
          · have := start promise
            omega
      · exact Keeps.of_ok same

/-! ## The characters -/

/-- A line through some places ends on the screen. -/
def Para (t : Terminal) (letra : CodeUnit) : List (ℤ × ℤ) → Prop
  | [] => True
  | (i, j) :: rest => NaTela i j ∧ ((t.tela i j).Traco letra → t.Para letra rest)

theorem traca_keeps {ok : Prop} {t s : Terminal} (same : t.SoMarcas s) {letra : CodeUnit}
    {places : List (ℤ × ℤ)} (para : ok → t.Para letra places) :
    Keeps ok t.SoMarcas (traca letra places s) := by
  induction places generalizing s with
  | nil => exact Keeps.of_ok same
  | cons place rest ih =>
      obtain ⟨i, j⟩ := place
      unfold traca
      split
      · split
        · rename_i inside traco
          refine (grava_keeps same (fun _ => inside) (Celula.sem_marca _)).bind fun later next => ?_
          exact ih next fun promise =>
            (para promise).2 ((Celula.traco_of_sem (same.marcas i j)).mp traco)
        · exact Keeps.of_ok same
      · rename_i outside
        exact Keeps.of_error same fun promise => outside (para promise).1

theorem para_horizontal (t : Terminal) {y x : ℤ} (inside : NaTela y x) (letra : CodeUnit) :
    t.Para letra ((faixa (x + 1) 80).map fun j => (y, j)) := by
  have places : ∀ j ∈ faixa (x + 1) 80, NaTela y j := by
    intro j member
    obtain ⟨after, before⟩ := mem_faixa.mp member
    obtain ⟨above, below, left, _⟩ := inside
    exact ⟨above, below, by omega, before⟩
  generalize faixa (x + 1) 80 = columns at places
  induction columns with
  | nil => trivial
  | cons j columns ih =>
      obtain ⟨here, rest⟩ := List.forall_mem_cons.mp places
      exact ⟨here, fun _ => ih rest⟩

/-- A vertical line ends at a cell that does not belong to it. -/
theorem para_vertical {t : Terminal} {x : ℤ} (column : 0 ≤ x ∧ x < 80) {letra : CodeUnit} {k : ℤ}
    (last : k < 25) (other : ¬ (t.tela k x).Traco letra) {first : ℤ}
    (start : 0 ≤ first ∧ first ≤ k) :
    t.Para letra ((faixa first 80).map fun i => (i, x)) := by
  obtain ⟨n, distance⟩ := Int.eq_ofNat_of_zero_le (Int.sub_nonneg_of_le start.2)
  induction n generalizing first with
  | zero =>
      have same : first = k := by omega
      rw [faixa_cons (by omega), List.map_cons]
      exact ⟨⟨start.1, by omega, column⟩, fun traco => absurd (same ▸ traco) other⟩
  | succ n ih =>
      rw [faixa_cons (by omega), List.map_cons]
      exact ⟨⟨start.1, by omega, column⟩, fun _ => ih (by omega) (by omega)⟩

/-- The vertical line through a place ends above the end of the screen. -/
def Termina (t : Terminal) (i j : ℤ) : Prop :=
  ∃ k, i ≤ k ∧ k < 25 ∧ ¬ (t.tela k j).Traco (unit '3')

theorem acs_keeps {ok : Prop} {t s : Terminal} (start : t.SoMarcas s) {y x : ℤ}
    (inside : NaTela y x)
    (drawn : (s.tela y x).tem Atributo.acs = true) (termina : ok → t.Termina y x) :
    Keeps ok t.SoMarcas (s.acs y x) := by
  have before : Keeps ok t.SoMarcas
      (if (s.tela y x).tem Atributo.processado then s.desmarca y x else .ok s) := by
    split
    · exact grava_keeps start (fun _ => inside) (Celula.sem_desmarca _)
    · exact Keeps.of_ok start
  refine before.bind fun first next => ?_
  split
  · exact Keeps.of_ok next
  refine (grava_keeps next (fun _ => inside) (Celula.sem_marca _)).bind fun later same => ?_
  split
  · exact traca_keeps same fun _ => para_horizontal t inside _
  split
  · rename_i here
    refine traca_keeps same fun promise => ?_
    obtain ⟨k, below, last, other⟩ := termina promise
    have traco := (Celula.traco_of_sem (start.marcas y x)).mp ⟨here, drawn⟩
    have after : y ≠ k := by
      rintro rfl
      exact other traco
    obtain ⟨above, _, column⟩ := inside
    exact para_vertical column last other (by omega)
  · exact Keeps.of_ok same

theorem mostraCelula_keeps {ok : Prop} {t s : Terminal} (same : t.SoMarcas s) {i j : ℤ}
    (inside : ok → NaTela i j) (termina : ok → t.Termina i j) :
    Keeps ok t.SoMarcas (mostraCelula i s j) := by
  unfold mostraCelula
  split
  · split
    · exact acs_keeps same ‹_› ‹_› termina
    · exact Keeps.of_ok same
  · exact Keeps.of_error same fun promise => absurd (inside promise) ‹_›

/-- The rectangle is within the columns, and the vertical lines in it end above the end of the
screen. -/
def PermitePintar (t : Terminal) (janela : Aparencia) : Prop :=
  t.r.x + t.r.width ≤ 80 ∧ ∀ i j, t.r.y ≤ i → i < t.r.y + t.r.height →
    ¬ ((i = 22 ∨ i = 23) ∧ janela.botoes i = true) → t.r.x ≤ j → j < t.r.x + t.r.width →
      t.Termina i j

theorem pinta_keeps {ok : Prop} {t : Terminal} {janela : Aparencia} (valida : ok → t.r.Valida)
    (permite : ok → t.PermitePintar janela) : Keeps ok t.SoMarcas (t.pinta janela) := by
  have across : ok → int (t.r.x + t.r.width) = t.r.x + t.r.width := by
    intro promise
    obtain ⟨x, y, width, _⟩ := valida promise
    exact int_of_small (by omega) (by omega)
  have down : ok → int (t.r.y + t.r.height) = t.r.y + t.r.height := by
    intro promise
    obtain ⟨x, y, width, height⟩ := valida promise
    exact int_of_small (by omega) (by omega)
  have line : ok → ∀ i ∈ faixa t.r.y (min (int (t.r.y + t.r.height)) 25),
      (0 ≤ i ∧ i < 25) ∧ t.r.y ≤ i ∧ i < t.r.y + t.r.height := by
    intro promise i member
    have inside := mem_faixa.mp member
    have := (valida promise).y
    rw [down promise] at inside
    omega
  refine (Keeps.foldlM ?_ (SoMarcas.refl t)).bind fun later same => Keeps.foldlM ?_ same
  · intro s same i member
    refine pintaLinha_keeps same (fun promise => (line promise i member).1) ?_ fun promise =>
      (valida promise).x.1
    exact fun promise => (across promise).trans_le (permite promise).1
  · intro s same i member
    unfold mostraLinha
    split
    · exact Keeps.of_ok same
    · rename_i shown
      refine Keeps.foldlM (fun s same j member' => ?_) same
      have inside : ok → 0 ≤ j ∧ j < 80 ∧ t.r.x ≤ j ∧ j < t.r.x + t.r.width := by
        intro promise
        have inside := mem_faixa.mp member'
        have := (valida promise).x
        rw [across promise] at inside
        omega
      refine mostraCelula_keeps same (fun promise => ?_) fun promise => ?_
      · obtain ⟨left, right, _⟩ := inside promise
        exact ⟨(line promise i member).1.1, (line promise i member).1.2, left, right⟩
      · obtain ⟨_, _, left, right⟩ := inside promise
        exact (permite promise).2 i j (line promise i member).2.1 (line promise i member).2.2 shown
          left right

theorem mostra_keeps {ok : Prop} {t : Terminal} {janela : Aparencia}
    (cursor : ok → NaTela t.lin t.col) (valida : ok → t.r.Valida)
    (permite : ok → janela.login = true → t.PermitePintar janela) :
    Keeps ok t.SoMarcas (t.mostra janela) := by
  unfold mostra
  split
  · exact Keeps.of_error (SoMarcas.refl t) fun promise => absurd (cursor promise) (And.right ‹_›)
  split
  · exact pinta_keeps valida fun promise => permite promise ‹_›
  · exact Keeps.of_ok (SoMarcas.refl t)

end Terminal

end Pqfh
