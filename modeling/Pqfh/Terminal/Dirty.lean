import Pqfh.Terminal.Share
import Pqfh.Terminal.Throws
import Mathlib.Data.List.Infix

/-! # The rectangle of what has changed

While a buffer is processed the terminal keeps a rectangle that is to hold every cell that changes.
It starts at the cursor, and each step adds where it goes. A step that goes above the rectangle
moves its first line up without adding to its height, and adds to its width instead, so that its
last lines are lost. Only the commands that move the cursor up or down by lines can do so
(`Terminal.cobre_iff`).
-/

namespace Pqfh

open Abrupt (Returns)
open Java (CodeUnit Octet Str decodeUtf8 int int_of_small lit unit)

namespace Regiao

/-- A place of a rectangle. -/
def Tem (r : Regiao) (i j : ℤ) : Prop :=
  r.y ≤ i ∧ i < r.y + r.height ∧ r.x ≤ j ∧ j < r.x + r.width

/-- A rectangle of the screen. -/
structure Boa (r : Regiao) : Prop where
  x : 0 ≤ r.x ∧ r.x + r.width ≤ 80
  y : 0 ≤ r.y ∧ r.y + r.height ≤ 25
  width : 1 ≤ r.width
  height : 1 ≤ r.height

/-- A rectangle is part of another. -/
def Cresce (r later : Regiao) : Prop := ∀ i j, r.Tem i j → later.Tem i j

section Altera

variable {r : Regiao}

/-- The whole screen is a good rectangle. -/
theorem boa_tela : tela.Boa := by
  constructor <;> decide

/-- A rectangle on the screen has sides that do not wrap. -/
theorem Boa.valida (boa : r.Boa) : r.Valida := by
  obtain ⟨x, y, width, height⟩ := boa
  constructor <;> omega

/-- Its places are on the screen. -/
theorem Boa.naTela (boa : r.Boa) {i j : ℤ} (place : r.Tem i j) : Terminal.NaTela i j := by
  obtain ⟨x, y, _, _⟩ := boa
  obtain ⟨top, bottom, left, right⟩ := place
  exact ⟨by omega, by omega, by omega, by omega⟩

/-- The whole screen is added. -/
theorem Boa.alteraTudo (boa : r.Boa) : (r.altera (-1) (-1)).Boa ∧ r.Cresce (r.altera (-1) (-1)) ∧
    ∀ i j, Terminal.NaTela i j → (r.altera (-1) (-1)).Tem i j := by
  have whole : r.altera (-1) (-1) = tela := if_pos ⟨rfl, rfl⟩
  have all : ∀ i j, Terminal.NaTela i j → tela.Tem i j := fun i j place => place
  rw [whole]
  exact ⟨boa_tela, fun i j place => all i j (boa.naTela place), all⟩

/-- A column is added. -/
theorem Boa.alteraColuna (boa : r.Boa) {x : ℤ} (inside : 0 ≤ x ∧ x < 80) :
    (r.altera x (-1)).Boa ∧ r.Cresce (r.altera x (-1)) ∧
      ∀ i, r.y ≤ i → i < r.y + r.height → (r.altera x (-1)).Tem i x := by
  have other : ¬ x = -1 := by omega
  have column : r.altera x (-1) = r.alteraX x := by
    rw [altera, if_neg fun both => other both.1, if_neg other, if_pos rfl]
  rw [column, boa.valida.alteraX_eq inside]
  obtain ⟨across, down, width, height⟩ := boa
  unfold Cresce Tem
  split
  · exact ⟨⟨by dsimp only; omega, down, by dsimp only; omega, height⟩,
      fun i j place => by dsimp only; omega, fun i top bottom => by dsimp only; omega⟩
  · split
    · exact ⟨⟨by dsimp only; omega, down, by dsimp only; omega, height⟩,
        fun i j place => by dsimp only; omega, fun i top bottom => by dsimp only; omega⟩
    · exact ⟨⟨across, down, width, height⟩, fun i j place => place,
        fun i top bottom => by omega⟩

/-- A call with a line only changes the lines of the rectangle. -/
theorem altera_linha {y : ℤ} (line : 0 ≤ y) : r.altera (-1) y = r.alteraY y := by
  have other : ¬ y = -1 := by omega
  rw [altera, if_neg fun both => other both.2, if_pos rfl, if_neg other]

/-- A line is added that is not above the rectangle. -/
theorem Boa.alteraLinha (boa : r.Boa) {y : ℤ} (below : r.y ≤ y) (inside : y < 25) :
    (r.altera (-1) y).Boa ∧ r.Cresce (r.altera (-1) y) ∧
      ∀ j, r.x ≤ j → j < r.x + r.width → (r.altera (-1) y).Tem y j := by
  have line : 0 ≤ y := boa.y.1.trans below
  rw [altera_linha line, boa.valida.alteraY_eq ⟨line, inside⟩, if_neg (not_lt.mpr below)]
  obtain ⟨across, down, width, height⟩ := boa
  unfold Cresce Tem
  split
  · exact ⟨⟨across, by dsimp only; omega, width, by dsimp only; omega⟩,
      fun i j place => by dsimp only; omega, fun j left right => by dsimp only; omega⟩
  · exact ⟨⟨across, down, width, height⟩, fun i j place => place,
      fun j left right => by omega⟩

/-- A line above the rectangle: its last line is lost. -/
theorem Boa.not_cresce (boa : r.Boa) {y : ℤ} (line : 0 ≤ y) (above : y < r.y) :
    ¬ r.Cresce (r.altera (-1) y) := by
  intro cresce
  have inside : y < 25 := by
    obtain ⟨_, down, _, height⟩ := boa
    omega
  have lost := cresce (r.y + r.height - 1) r.x
    (by obtain ⟨_, _, width, height⟩ := boa; unfold Tem; omega)
  rw [altera_linha line, boa.valida.alteraY_eq ⟨line, inside⟩, if_pos above] at lost
  have bottom := lost.2.1
  dsimp only at bottom
  omega

/-- A place is added by its column and its line. -/
theorem altera_place {x y : ℤ} (column : 0 ≤ x) (line : 0 ≤ y) :
    r.altera x y = (r.altera x (-1)).altera (-1) y := by
  have other : ¬ x = -1 := by omega
  have other' : ¬ y = -1 := by omega
  rw [altera_linha line, altera, if_neg fun both => other both.1, if_neg other, if_neg other',
    altera, if_neg fun both => other both.1, if_neg other, if_pos rfl]

end Altera

/-- The rectangle after some calls of `alteraRegiao`. -/
def alteraTodas (r : Regiao) (calls : List (ℤ × ℤ)) : Regiao :=
  calls.foldl (fun r call => r.altera call.1 call.2) r

/-- Each of some calls of `alteraRegiao` only enlarges the rectangle. -/
def SoAumenta : Regiao → List (ℤ × ℤ) → Prop
  | _, [] => True
  | r, (x, y) :: rest => r.Cresce (r.altera x y) ∧ (r.altera x y).SoAumenta rest

/-- Calls that each enlarge the rectangle enlarge it together. -/
theorem SoAumenta.cresce : ∀ {calls : List (ℤ × ℤ)} {r : Regiao}, r.SoAumenta calls →
    r.Cresce (r.alteraTodas calls) := by
  intro calls
  induction calls with
  | nil => exact fun _ i j place => place
  | cons call calls ih =>
      rintro r ⟨first, rest⟩ i j place
      exact ih rest i j (first i j place)

/-- What lies between two places of a rectangle. -/
theorem Tem.between {r : Regiao} {i j top bottom left right : ℤ} (first : r.Tem top left)
    (last : r.Tem bottom right) (line : top ≤ i ∧ i ≤ bottom) (column : left ≤ j ∧ j ≤ right) :
    r.Tem i j := by
  unfold Tem at *
  omega

end Regiao

namespace Terminal

/-- For a terminal, to have its rectangle on the screen is to have a good one. -/
theorem regiaoNaTela_iff {t : Terminal} : t.RegiaoNaTela ↔ t.r.Boa :=
  ⟨fun inside => ⟨inside.x, inside.y, inside.width, inside.height⟩,
    fun boa => ⟨boa.x, boa.y, boa.width, boa.height⟩⟩

/-! ## A step -/

/-- The rectangle is on the screen, and the cursor in it. -/
structure Atual (t : Terminal) : Prop where
  boa : t.r.Boa
  cursor : t.r.Tem t.lin t.col

/-- A step keeps what the rectangle holds, and adds the cells that it changes. -/
structure Anota (t later : Terminal) : Prop where
  atual : later.Atual
  cresce : t.r.Cresce later.r
  mudou : ∀ i j, later.tela i j ≠ t.tela i j → later.r.Tem i j

/-- Steps that are noted follow one another. -/
theorem Anota.trans {t middle later : Terminal} (first : Anota t middle)
    (second : Anota middle later) : Anota t later := by
  refine ⟨second.atual, fun i j place => second.cresce i j (first.cresce i j place), ?_⟩
  intro i j changed
  by_cases here : middle.tela i j = t.tela i j
  · refine second.mudou i j fun same => changed ?_
    rw [same, here]
  · exact second.cresce i j (first.mudou i j here)

/-- The lines from a line on are cleared. -/
theorem limpaLinhas_changes {t : Terminal} {first : ℤ} (line : 0 ≤ first) :
    Returns (fun s => t.SoTela s ∧ ∀ i j, s.tela i j ≠ t.tela i j → first ≤ i ∧ NaTela i j)
      ((faixa first 25).foldlM (limpaLinha 0) t) := by
  refine Returns.foldlM ?_ ⟨rfl, fun i j changed => absurd rfl changed⟩
  rintro s ⟨same, changes⟩ i member
  obtain ⟨after, before⟩ := mem_faixa.mp member
  rw [limpaLinha_eq s fun _ => ⟨by omega, before, le_rfl, by decide⟩]
  refine ⟨_, rfl, ?_, fun a b changed => ?_⟩
  · unfold SoTela at same ⊢
    rw [same]
    rfl
  · by_cases written : a = i ∧ 0 ≤ b ∧ b < 80
    · exact ⟨by omega, by omega, by omega, written.2⟩
    · refine changes a b fun equal => changed ?_
      exact (if_neg written).trans equal

/-- `m` changes only what is to be written. -/
theorem setaAtributos_mantem (t : Terminal) (seq : Str) :
    (t.setaAtributos seq).tela = t.tela ∧ (t.setaAtributos seq).lin = t.lin ∧
      (t.setaAtributos seq).col = t.col ∧ (t.setaAtributos seq).r = t.r := by
  have kept : ∀ (atrs : List Str) (now : Terminal × BitVec 32),
      now.1.tela = t.tela ∧ now.1.lin = t.lin ∧ now.1.col = t.col ∧ now.1.r = t.r →
      (atrs.foldl aplica now).1.tela = t.tela ∧ (atrs.foldl aplica now).1.lin = t.lin ∧
        (atrs.foldl aplica now).1.col = t.col ∧ (atrs.foldl aplica now).1.r = t.r := by
    intro atrs
    induction atrs with
    | nil => exact fun now same => same
    | cons atr atrs ih =>
        intro now same
        refine ih (aplica now atr) ?_
        unfold aplica
        split
        all_goals exact same
  exact kept _ (t, t.atributo) ⟨rfl, rfl, rfl, rfl⟩

section Steps

variable {t : Terminal} (atual : t.Atual)

include atual

/-- The cursor is on the screen. -/
theorem Atual.naTela : NaTela t.lin t.col := atual.boa.naTela atual.cursor

/-- Neither the matrices nor the cursor nor the rectangle change. -/
theorem Atual.mantem {later : Terminal} (tela : later.tela = t.tela) (lin : later.lin = t.lin)
    (col : later.col = t.col) (r : later.r = t.r) : Anota t later := by
  refine ⟨⟨by rw [r]; exact atual.boa, by rw [r, lin, col]; exact atual.cursor⟩,
    fun i j place => by rw [r]; exact place, fun i j changed => ?_⟩
  rw [tela] at changed
  exact absurd rfl changed

/-- The cursor goes to a column. -/
theorem Atual.coluna {x : ℤ} (inside : 0 ≤ x ∧ x < 80) :
    Anota t ({ t with col := x }.alteraRegiao x (-1)) := by
  obtain ⟨boa, cresce, tem⟩ := atual.boa.alteraColuna inside
  obtain ⟨top, bottom, _⟩ := atual.cursor
  exact ⟨⟨boa, tem t.lin top bottom⟩, cresce, fun i j changed => absurd rfl changed⟩

/-- The cursor goes to a line that is not above the rectangle. -/
theorem Atual.linha {y : ℤ} (below : t.r.y ≤ y) (inside : y < 25) :
    Anota t ({ t with lin := y }.alteraRegiao (-1) y) := by
  obtain ⟨boa, cresce, tem⟩ := atual.boa.alteraLinha below inside
  obtain ⟨_, _, left, right⟩ := atual.cursor
  exact ⟨⟨boa, tem t.col left right⟩, cresce, fun i j changed => absurd rfl changed⟩

/-- The cursor goes to a column of its line or a line below. -/
theorem Atual.place {x y : ℤ} (column : 0 ≤ x ∧ x < 80) (below : t.lin ≤ y) (inside : y < 25) :
    Anota t ({ t with col := x, lin := y }.alteraRegiao x y) := by
  have first := atual.coluna column
  have second := first.atual.linha (first.atual.cursor.1.trans below) inside
  have same : t.r.altera x y = (t.r.altera x (-1)).altera (-1) y :=
    Regiao.altera_place column.1 (atual.naTela.1.trans below)
  unfold alteraRegiao at *
  dsimp only at *
  rw [same]
  exact first.trans second

/-- The whole screen is added. -/
theorem Atual.tudo {later : Terminal} (r : later.r = t.r.altera (-1) (-1))
    (cursor : NaTela later.lin later.col)
    (changes : ∀ i j, later.tela i j ≠ t.tela i j → NaTela i j) : Anota t later := by
  obtain ⟨boa, cresce, tem⟩ := atual.boa.alteraTudo
  rw [← r] at boa cresce tem
  exact ⟨⟨boa, tem _ _ cursor⟩, cresce, fun i j changed => tem i j (changes i j changed)⟩

/-- Cells of the rectangle are written. -/
theorem Atual.escreve {later : Terminal} (lin : later.lin = t.lin) (col : later.col = t.col)
    (r : later.r = t.r) (changes : ∀ i j, later.tela i j ≠ t.tela i j → t.r.Tem i j) :
    Anota t later := by
  refine ⟨⟨by rw [r]; exact atual.boa, by rw [r, lin, col]; exact atual.cursor⟩,
    fun i j place => by rw [r]; exact place, fun i j changed => ?_⟩
  rw [r]
  exact changes i j changed

/-- The cell at the cursor is written. -/
theorem Atual.set (celula : Celula) : Anota t (t.set t.lin t.col celula) := by
  refine atual.escreve rfl rfl rfl fun i j changed => ?_
  by_cases here : i = t.lin ∧ j = t.col
  · rw [here.1, here.2]
    exact atual.cursor
  · exact absurd (if_neg here) changed

/-! ## Characters of the text -/

/-- A character that is shown lies in the rectangle. -/
theorem Atual.mostraCaractere {later : Terminal} {ch : CodeUnit}
    (goes : t.mostraCaractere ch = .ok later) (inside : NaTela later.lin later.col) :
    Anota t later := by
  have written := atual.set (t.celula ch)
  rw [Terminal.mostraCaractere, grava_eq atual.naTela] at goes
  change (if t.col < 79 then _ else _) = Except.ok later at goes
  by_cases room : t.col < 79
  · rw [if_pos room] at goes
    cases goes
    have left := atual.naTela.2.2.1
    exact written.trans (written.atual.coluna ⟨by change 0 ≤ t.col + 1; omega,
      by change t.col + 1 < 80; omega⟩)
  · rw [if_neg room] at goes
    cases goes
    exact written.trans (written.atual.place (by decide) (Int.le_add_one le_rfl) inside.2.1)

/-- So do the cells that a line feed moves. -/
theorem Atual.avanca {later : Terminal} (goes : t.avanca = .ok later) : Anota t later := by
  unfold Terminal.avanca at goes
  split at goes
  · cases goes
    have below := atual.cursor.1
    exact atual.linha (by omega) (by omega)
  · rw [scroll_eq t atual.naTela.2.2.1] at goes
    cases goes
    refine atual.tudo rfl atual.naTela fun i j changed => ?_
    by_contra outside
    apply changed
    change (if i = 24 ∧ t.col ≤ j ∧ j < 80 then _
      else if 0 ≤ i ∧ i < 24 ∧ t.col ≤ j ∧ j < 80 then _ else t.tela i j) = t.tela i j
    have left := atual.naTela.2.2.1
    unfold NaTela at outside
    rw [if_neg (by omega), if_neg (by omega)]

/-- A backspace changes a cell next to the cursor. -/
theorem Atual.volta {later : Terminal} (goes : t.volta = .ok later) : Anota t later := by
  unfold Terminal.volta at goes
  have here := atual.naTela
  split at goes
  · rename_i right
    have inside : NaTela t.lin (t.col - 1) :=
      ⟨here.1, here.2.1, by omega, by have := here.2.2.2; omega⟩
    have moved := @Atual.coluna t atual (t.col - 1) ⟨inside.2.2.1, inside.2.2.2⟩
    dsimp only at goes
    rw [grava_eq inside] at goes
    cases goes
    exact moved.trans (moved.atual.set _)
  · cases goes
    exact atual.mantem rfl rfl rfl rfl

/-- A character of a text is noted. -/
theorem Atual.texto {later : Terminal} {ch : CodeUnit} (goes : t.texto ch = .ok later)
    (inside : NaTela later.lin later.col) : Anota t later := by
  unfold Terminal.texto at goes
  split at goes
  · cases goes
    exact atual.coluna (by decide)
  split at goes
  · exact atual.avanca goes
  split at goes
  · exact atual.volta goes
  split at goes
  · cases goes
    exact atual.mantem rfl rfl rfl rfl
  split at goes
  · cases goes
    exact atual.mantem rfl rfl rfl rfl
  · exact atual.mostraCaractere goes inside

/-! ## Commands -/

/-- The cursor goes to a line, wherever that is. -/
theorem Atual.vai {y : ℤ} (inside : 0 ≤ y ∧ y < 25) :
    (y < t.r.y → ¬ t.r.Cresce ({ t with lin := y }.alteraRegiao (-1) y).r) ∧
      (¬ y < t.r.y → Anota t ({ t with lin := y }.alteraRegiao (-1) y)) :=
  ⟨fun above => atual.boa.not_cresce inside.1 above,
    fun below => atual.linha (not_lt.mp below) inside.2⟩

/-- The cursor moved to the right is taken into the rectangle. -/
theorem Atual.cursorForward {later : Terminal} {prms : Str}
    (goes : t.cursorForward prms = .ok later) (inside : NaTela later.lin later.col) :
    Anota t later := by
  unfold Terminal.cursorForward at goes
  split at goes
  · cases goes
  · cases goes
    exact atual.coluna inside.2.2

/-- The cursor moved to the left is taken into the rectangle. -/
theorem Atual.cursorBackward {later : Terminal} {prms : Str}
    (goes : t.cursorBackward prms = .ok later) (inside : NaTela later.lin later.col) :
    Anota t later := by
  unfold Terminal.cursorBackward at goes
  split at goes
  · cases goes
  · cases goes
    exact atual.coluna inside.2.2

/-- The place to which the cursor jumps is taken into the rectangle. -/
theorem Atual.home {later : Terminal} {prms : Str} (goes : t.home prms = .ok later)
    (inside : NaTela later.lin later.col) : Anota t later := by
  have nowhere : ∀ {i j : ℤ}, t.tela i j ≠ t.tela i j → NaTela i j := fun changed =>
    absurd rfl changed
  unfold Terminal.home at goes
  split at goes
  · dsimp only at goes
    split at goes
    · cases goes
    · split at goes
      · cases goes
      · cases goes
        exact atual.tudo rfl inside fun i j => nowhere
  · cases goes
    exact atual.tudo rfl inside fun i j => nowhere

/-- The rest of a line that is cleared is noted to the last column. -/
theorem Atual.el {later : Terminal} (goes : t.el = .ok later) : Anota t later := by
  have here := atual.naTela
  obtain ⟨boa, cresce, tem⟩ := atual.boa.alteraColuna (by decide : (0 : ℤ) ≤ 79 ∧ (79 : ℤ) < 80)
  have cursor := cresce _ _ atual.cursor
  have last := tem t.lin atual.cursor.1 atual.cursor.2.1
  rw [Terminal.el, limpaLinha_eq t fun _ => here] at goes
  cases goes
  refine ⟨⟨boa, cursor⟩, cresce, fun i j changed => ?_⟩
  by_cases written : i = t.lin ∧ t.col ≤ j ∧ j < 80
  · exact cursor.between last (by omega) (by omega)
  · exact absurd (if_neg written) changed

/-- The rectangle after the two calls of `clear`: from a column of it on, to the end of the screen.
-/
theorem Atual.ateOFim {x : ℤ} (column : 0 ≤ x ∧ x < 80) :
    ((t.r.altera x (-1)).altera 79 24).Boa ∧ t.r.Cresce ((t.r.altera x (-1)).altera 79 24) ∧
      ((t.r.altera x (-1)).altera 79 24).Tem t.lin x ∧
      ((t.r.altera x (-1)).altera 79 24).Tem 24 79 := by
  obtain ⟨top, bottom, _⟩ := atual.cursor
  obtain ⟨boa, cresce, tem⟩ := atual.boa.alteraColuna column
  have corner := tem t.lin top bottom
  obtain ⟨boa', cresce', tem'⟩ := boa.alteraColuna (by decide : (0 : ℤ) ≤ 79 ∧ (79 : ℤ) < 80)
  have right := tem' t.lin corner.1 corner.2.1
  have above : (((t.r.altera x (-1)).altera 79 (-1))).y ≤ 24 := by
    obtain ⟨_, down, _, height⟩ := boa'
    omega
  obtain ⟨boa'', cresce'', tem''⟩ := boa'.alteraLinha above (by decide)
  rw [Regiao.altera_place (by decide) (by decide)]
  exact ⟨boa'', fun i j place => cresce'' i j (cresce' i j (cresce i j place)),
    cresce'' _ _ (cresce' _ _ corner), tem'' 79 right.2.2.1 right.2.2.2⟩

/-- The cells that are cleared from the cursor on, line by line. -/
theorem Atual.limpaDaqui_eq (x : ℤ) :
    ∃ cleared : Terminal,
      (t.linha t.lin t.col fun _ => t.celula (unit ' ')).SoTela cleared ∧
        (∀ i j, cleared.tela i j ≠ (t.linha t.lin t.col fun _ => t.celula (unit ' ')).tela i j →
          t.lin + 1 ≤ i ∧ NaTela i j) ∧
        t.limpaDaqui x = .ok ((cleared.alteraRegiao (if t.lin + 1 < 25 then 0 else x)
          (-1)).alteraRegiao 79 24) := by
  have here := atual.naTela
  have next : int (t.lin + 1) = t.lin + 1 :=
    int_of_small (by have := here.1; omega) (by have := here.2.1; omega)
  obtain ⟨cleared, below, same, changes⟩ := @limpaLinhas_changes
    (t.linha t.lin t.col fun _ => t.celula (unit ' ')) (t.lin + 1) (by have := here.1; omega)
  refine ⟨cleared, same, changes, ?_⟩
  rw [Terminal.limpaDaqui, limpaLinha_eq t fun _ => here, ← next]
  rw [← next] at below
  change ((faixa (int (t.lin + 1)) 25).foldlM (limpaLinha 0)
    (t.linha t.lin t.col fun _ => t.celula (unit ' ')) >>= fun _ => _) = _
  rw [below]
  rfl

/-- The column from which `clear` adds. -/
theorem Atual.primeira {x : ℤ} (column : t.lin = 24 → x = t.col) :
    0 ≤ (if t.lin + 1 < 25 then 0 else x) ∧ (if t.lin + 1 < 25 then 0 else x) < 80 := by
  have here := atual.naTela
  split
  · decide
  · rw [column (by have := here.2.1; omega)]
    exact here.2.2

/-- They are in the rectangle that goes on to the last line. -/
theorem Atual.limpaDaqui {later : Terminal} {x : ℤ} (goes : t.limpaDaqui x = .ok later)
    (column : t.lin = 24 → x = t.col) : Anota t later := by
  have here := atual.naTela
  have first := atual.primeira column
  obtain ⟨cleared, same, changes, goes'⟩ := atual.limpaDaqui_eq x
  cases goes'.symm.trans goes
  generalize given : (if t.lin + 1 < 25 then 0 else x) = x1 at first
  obtain ⟨boa, cresce, corner, last⟩ := atual.ateOFim first
  have cursor := cresce _ _ atual.cursor
  have r : ((cleared.alteraRegiao x1 (-1)).alteraRegiao 79 24).r =
      (t.r.altera x1 (-1)).altera 79 24 := by
    rw [same]
    rfl
  have place : cleared.lin = t.lin ∧ cleared.col = t.col := by
    rw [same]
    exact ⟨rfl, rfl⟩
  rw [← r] at boa cresce corner last cursor
  refine ⟨⟨boa, ?_⟩, cresce, fun i j changed => ?_⟩
  · change Regiao.Tem _ cleared.lin cleared.col
    rw [place.1, place.2]
    exact cursor
  replace changed : cleared.tela i j ≠ t.tela i j := changed
  by_cases lines : cleared.tela i j = (t.linha t.lin t.col fun _ => t.celula (unit ' ')).tela i j
  · have written : i = t.lin ∧ t.col ≤ j ∧ j < 80 := by
      by_contra other
      have still : (t.linha t.lin t.col fun _ => t.celula (unit ' ')).tela i j = t.tela i j :=
        if_neg other
      exact changed (lines.trans still)
    exact cursor.between last (by have := here.2.1; omega) (by omega)
  · obtain ⟨after, inside⟩ := changes i j lines
    have before := inside.2.1
    rw [if_pos (by omega)] at given
    subst given
    exact corner.between last (by omega) (by have := inside.2.2; omega)

/-- A part of the screen that is cleared is noted. -/
theorem Atual.clear {later : Terminal} {prms : Str} (goes : t.clear prms = .ok later) :
    Anota t later := by
  rw [clear_eq] at goes
  by_cases whole : prms = lit "2"
  · have home : t.home [] = .ok ({ t with lin := 0, col := 0 }.alteraRegiao (-1) (-1)) :=
      if_neg List.not_mem_nil
    rw [if_pos whole, home] at goes
    simp only [bind, Except.bind] at goes
    have corner : NaTela 0 0 := by decide
    have first := atual.home home corner
    refine first.trans (first.atual.limpaDaqui goes fun last => ?_)
    replace last : (0 : ℤ) = 24 := last
    omega
  · rw [if_neg whole] at goes
    exact atual.limpaDaqui goes fun _ => rfl

/-- Attributes for the next characters change no cell. -/
theorem Atual.setaAtributos (seq : Str) : Anota t (t.setaAtributos seq) := by
  obtain ⟨tela, lin, col, r⟩ := setaAtributos_mantem t seq
  exact atual.mantem tela lin col r

end Steps

/-- The line that a command asks for, when it moves the cursor up or down. -/
def linhaPedida (t : Terminal) (prms : Str) (ch : CodeUnit) : Option ℤ :=
  if ch = unit 'A' then
    if 0 < t.lin then (quantos prms).map fun n => if n ≤ t.lin then int (t.lin - n) else 0
    else none
  else if ch = unit 'B' then
    if t.lin < 24 then (quantos prms).map fun n => int (t.lin + n) else none
  else none

/-- The cursor goes to a line, if one is asked for. -/
def vaiALinha (t : Terminal) : Option ℤ → Terminal
  | none => t
  | some lin => { t with lin := lin }.alteraRegiao (-1) lin

/-- A move up goes to the line that is asked for, if one is. -/
theorem cursorUp_goes {t later : Terminal} {prms : Str} (goes : t.cursorUp prms = .ok later) :
    later = t.vaiALinha (t.linhaPedida prms (unit 'A')) := by
  unfold Terminal.cursorUp at goes
  unfold linhaPedida
  rw [if_pos rfl]
  split at goes
  · rename_i below
    rw [if_pos below]
    cases given : quantos prms with
    | none =>
        rw [given] at goes
        cases goes
    | some n =>
        rw [given] at goes
        cases goes
        rfl
  · rename_i top
    cases goes
    rw [if_neg top]
    rfl

/-- A move down goes to the line that is asked for, if one is. -/
theorem cursorDown_goes {t later : Terminal} {prms : Str} (goes : t.cursorDown prms = .ok later) :
    later = t.vaiALinha (t.linhaPedida prms (unit 'B')) := by
  have other : ¬ unit 'B' = unit 'A' := by decide
  unfold Terminal.cursorDown at goes
  unfold linhaPedida
  rw [if_neg other, if_pos rfl]
  split at goes
  · rename_i above
    rw [if_pos above]
    cases given : quantos prms with
    | none =>
        rw [given] at goes
        cases goes
    | some n =>
        rw [given] at goes
        cases goes
        rfl
  · rename_i last
    cases goes
    rw [if_neg last]
    rfl

/-- A command asks for a line above the rectangle. -/
def PedeAcima (t : Terminal) (prms : Str) (ch : CodeUnit) : Prop :=
  ∃ lin, t.linhaPedida prms ch = some lin ∧ lin < t.r.y

/-- A step from a state whose rectangle is on the screen and holds the cursor: it is noted, unless
something happens that loses a line of the rectangle. -/
def AnotaSalvo (loses : Prop) (t later : Terminal) : Prop :=
  (loses → ¬ t.r.Cresce later.r) ∧ (¬ loses → Anota t later)

/-- A step that is noted loses nothing. -/
theorem Anota.salvo {t later : Terminal} {loses : Prop} (anota : Anota t later)
    (never : ¬ loses) : AnotaSalvo loses t later :=
  ⟨fun here => absurd here never, fun _ => anota⟩

/-- A command that is neither of the two asks for no line. -/
theorem not_pedeAcima {t : Terminal} {prms : Str} {ch : CodeUnit} (up : ch ≠ unit 'A')
    (down : ch ≠ unit 'B') : ¬ t.PedeAcima prms ch := by
  rintro ⟨lin, asked, _⟩
  rw [linhaPedida, if_neg up, if_neg down] at asked
  cases asked

section Commands

variable {t later : Terminal} (atual : t.Atual) {prms : Str}

include atual

/-- A line that is asked for is taken into the rectangle unless it is above it. -/
theorem Atual.vaiALinha {linha : Option ℤ}
    (inside : NaTela (t.vaiALinha linha).lin (t.vaiALinha linha).col) :
    AnotaSalvo (∃ lin, linha = some lin ∧ lin < t.r.y) t (t.vaiALinha linha) := by
  cases linha with
  | none =>
      exact (atual.mantem rfl rfl rfl rfl).salvo (by rintro ⟨_, impossible, _⟩; cases impossible)
  | some lin =>
      have there := atual.vai ⟨inside.1, inside.2.1⟩
      simp only [Option.some.injEq, exists_eq_left']
      exact there

/-- A move up is noted unless it goes above the rectangle. -/
theorem Atual.cursorUp (goes : t.cursorUp prms = .ok later) (inside : NaTela later.lin later.col) :
    AnotaSalvo (t.PedeAcima prms (unit 'A')) t later := by
  rw [cursorUp_goes goes] at inside ⊢
  exact atual.vaiALinha inside

/-- A move down is noted unless it goes above the rectangle. -/
theorem Atual.cursorDown (goes : t.cursorDown prms = .ok later)
    (inside : NaTela later.lin later.col) :
    AnotaSalvo (t.PedeAcima prms (unit 'B')) t later := by
  rw [cursorDown_goes goes] at inside ⊢
  exact atual.vaiALinha inside

/-- A command is noted unless it asks for a line above the rectangle. -/
theorem Atual.comando {ch : CodeUnit} (goes : t.comando prms ch = .ok later)
    (inside : NaTela later.lin later.col) : AnotaSalvo (t.PedeAcima prms ch) t later := by
  unfold Terminal.comando at goes
  split at goes
  · rename_i up
    rw [up]
    exact atual.cursorUp goes inside
  rename_i up
  split at goes
  · rename_i down
    rw [down]
    exact atual.cursorDown goes inside
  rename_i down
  refine Anota.salvo ?_ (not_pedeAcima up down)
  split at goes
  · exact atual.cursorForward goes inside
  split at goes
  · exact atual.cursorBackward goes inside
  split at goes
  · exact atual.home goes inside
  split at goes
  · exact atual.clear goes
  split at goes
  · exact atual.el goes
  split at goes
  · cases goes
    exact atual.setaAtributos _
  · cases goes
    exact atual.mantem rfl rfl rfl rfl

end Commands

/-! ## A character of a buffer -/

/-- A character ends a sequence that asks for a line above the rectangle. -/
def Sobe (letras : CodeUnit → Bool) (t : Terminal) (ch : CodeUnit) : Prop :=
  t.estado = .esc ∧ alfabetico letras ch = true ∧
    ∃ prms, parametros (t.seq ++ [ch]) = some prms ∧ t.PedeAcima prms ch

section Character

variable {letras : CodeUnit → Bool} {un : Bool} {t later : Terminal} {ch : CodeUnit}

/-- A sequence that ends has run the command of its last character. -/
theorem encerra_ok (goes : t.encerra un ch = .ok later) :
    ∃ prms middle, parametros t.seq = some prms ∧ t.comando prms ch = .ok middle ∧
      later.tela = middle.tela ∧ later.lin = middle.lin ∧ later.col = middle.col ∧
      later.r = middle.r := by
  unfold encerra processaSeq at goes
  cases given : parametros t.seq with
  | none =>
      rw [given] at goes
      cases goes
  | some prms =>
      rw [given] at goes
      dsimp only at goes
      cases command : t.comando prms ch with
      | error stopped =>
          rw [command] at goes
          cases goes
      | ok middle =>
          rw [command] at goes
          refine ⟨prms, middle, rfl, command, ?_⟩
          change (if middle.Executa un then _ else _) = Except.ok later at goes
          split at goes
          · cases goes
            exact ⟨rfl, rfl, rfl, rfl⟩
          · cases goes
            exact ⟨rfl, rfl, rfl, rfl⟩

/-- A character of a sequence is noted unless it ends one that goes above the rectangle. -/
theorem Atual.escape (atual : t.Atual) (sequence : t.estado = .esc)
    (goes : escape letras un t ch = .ok later) (inside : NaTela later.lin later.col) :
    AnotaSalvo (t.Sobe letras ch) t later := by
  have room : ¬ 256 ≤ t.iseq := by
    intro full
    obtain ⟨stopped, throws⟩ := (raises_escape letras un).mpr (Or.inl full)
    cases throws.symm.trans goes
  rw [escape_eq letras un room] at goes
  have stored : Anota t { t with iseq := t.iseq + 1, seq := t.seq ++ [ch] } :=
    atual.mantem rfl rfl rfl rfl
  by_cases last : alfabetico letras ch = true
  · rw [if_pos last] at goes
    obtain ⟨prms, middle, given, command, tela, lin, col, r⟩ := encerra_ok goes
    rw [lin, col] at inside
    obtain ⟨lost, noted⟩ := stored.atual.comando command inside
    unfold AnotaSalvo
    refine ⟨fun sobe => ?_, fun other => ?_⟩
    · obtain ⟨_, _, prms', given', above⟩ := sobe
      cases given.symm.trans given'
      rw [r]
      exact lost above
    · have step := noted fun above => other ⟨sequence, last, prms, given, above⟩
      exact stored.trans (step.trans (step.atual.mantem tela lin col r))
  · rw [if_neg last] at goes
    cases goes
    exact stored.salvo fun sobe => last sobe.2.1

/-- A character of a buffer is noted, unless it takes the cursor above the rectangle. -/
theorem Atual.caractere (atual : t.Atual) (goes : caractere letras un t ch = .ok later)
    (inside : NaTela later.lin later.col) : AnotaSalvo (t.Sobe letras ch) t later := by
  unfold Terminal.caractere at goes
  cases estado : t.estado with
  | inicial =>
      rw [estado] at goes
      refine (atual.texto goes inside).salvo fun sobe => ?_
      cases estado.symm.trans sobe.1
  | esc =>
      rw [estado] at goes
      exact atual.escape estado goes inside
  | exec =>
      rw [estado] at goes
      have room : ¬ 256 ≤ t.iseq := by
        intro full
        obtain ⟨stopped, throws⟩ := raises_comandoExec.mpr full
        cases throws.symm.trans goes
      dsimp only at goes
      rw [comandoExec, acumula_eq room] at goes
      refine Anota.salvo ?_ fun sobe => by cases estado.symm.trans sobe.1
      cases goes
      split
      · exact atual.mantem rfl rfl rfl rfl
      · exact atual.mantem rfl rfl rfl rfl

end Character

/-! ## The calls of `alteraRegiao` -/

/-- What a command calls it with. -/
def chamadasComando (t : Terminal) (prms : Str) (ch : CodeUnit) : List (ℤ × ℤ) :=
  if ch = unit 'A' ∨ ch = unit 'B' then (t.linhaPedida prms ch).toList.map fun lin => (-1, lin)
  else if ch = unit 'C' then (quantos prms).toList.map fun n => (int (t.col + n), -1)
  else if ch = unit 'D' then
    (quantos prms).toList.map fun n => (if n ≤ t.col then int (t.col - n) else 0, -1)
  else if ch = unit 'H' then [(-1, -1)]
  else if ch = unit 'J' then
    if prms = lit "2" then [(-1, -1), (0, -1), (79, 24)]
    else [(if t.lin + 1 < 25 then 0 else t.col, -1), (79, 24)]
  else if ch = unit 'K' then [(79, -1)]
  else []

/-- What a character of a buffer calls it with. -/
def chamadas (letras : CodeUnit → Bool) (t : Terminal) (ch : CodeUnit) : List (ℤ × ℤ) :=
  match t.estado with
  | .inicial =>
      if ch = 13 then [(0, -1)]
      else if ch = 10 then if t.lin < 24 then [(-1, t.lin + 1)] else [(-1, -1)]
      else if ch = 8 then if 0 < t.col then [(t.col - 1, -1)] else []
      else if ch = 27 then []
      else if ch = 7 then []
      else if t.col < 79 then [(t.col + 1, -1)] else [(0, t.lin + 1)]
  | .esc =>
      if alfabetico letras ch then
        match parametros (t.seq ++ [ch]) with
        | none => []
        | some prms => t.chamadasComando prms ch
      else []
  | .exec => []

/-- The rectangle after some calls, of which several enlarge it. -/
structure Chama (t later : Terminal) (calls : List (ℤ × ℤ)) : Prop where
  r : later.r = t.r.alteraTodas calls
  aumenta : calls.length ≤ 1 ∨ t.r.SoAumenta calls

/-- A step that leaves the rectangle has made no call. -/
theorem chama_nenhuma {t later : Terminal} (r : later.r = t.r) : Chama t later [] :=
  ⟨r, Or.inl (by decide)⟩

/-- A step with one call of `alteraRegiao`. -/
theorem chama_uma {t later : Terminal} {x y : ℤ} (r : later.r = t.r.altera x y) :
    Chama t later [(x, y)] := ⟨r, Or.inl le_rfl⟩

section Calls

variable {t later : Terminal} {ch : CodeUnit}

/-- A character that is shown makes one call, with the next column or the next line. -/
theorem Atual.chama_mostraCaractere (atual : t.Atual) (goes : t.mostraCaractere ch = .ok later) :
    Chama t later (if t.col < 79 then [(t.col + 1, -1)] else [(0, t.lin + 1)]) := by
  rw [Terminal.mostraCaractere, grava_eq atual.naTela] at goes
  change (if t.col < 79 then _ else _) = Except.ok later at goes
  split at goes
  · rename_i room
    rw [if_pos room]
    cases goes
    exact chama_uma rfl
  · rename_i room
    rw [if_neg room]
    cases goes
    exact chama_uma rfl

/-- A line feed makes one call, with the next line while there is one. -/
theorem Atual.chama_avanca (atual : t.Atual) (goes : t.avanca = .ok later) :
    Chama t later (if t.lin < 24 then [(-1, t.lin + 1)] else [(-1, -1)]) := by
  unfold Terminal.avanca at goes
  split at goes
  · rename_i room
    rw [if_pos room]
    cases goes
    exact chama_uma rfl
  · rename_i room
    rw [if_neg room]
    rw [scroll_eq t atual.naTela.2.2.1] at goes
    cases goes
    exact chama_uma rfl

/-- A backspace makes one call, with the column before. -/
theorem Atual.chama_volta (atual : t.Atual) (goes : t.volta = .ok later) :
    Chama t later (if 0 < t.col then [(t.col - 1, -1)] else []) := by
  unfold Terminal.volta at goes
  have here := atual.naTela
  split at goes
  · rename_i right
    have inside : NaTela t.lin (t.col - 1) :=
      ⟨here.1, here.2.1, by omega, by have := here.2.2.2; omega⟩
    dsimp only at goes
    rw [grava_eq inside] at goes
    cases goes
    rw [if_pos right]
    exact chama_uma rfl
  · rename_i left
    cases goes
    rw [if_neg left]
    exact chama_nenhuma rfl

/-- The calls of a character of a text. -/
theorem Atual.chama_texto (atual : t.Atual) (goes : t.texto ch = .ok later) :
    Chama t later
      (if ch = 13 then [(0, -1)]
      else if ch = 10 then if t.lin < 24 then [(-1, t.lin + 1)] else [(-1, -1)]
      else if ch = 8 then if 0 < t.col then [(t.col - 1, -1)] else []
      else if ch = 27 then []
      else if ch = 7 then []
      else if t.col < 79 then [(t.col + 1, -1)] else [(0, t.lin + 1)]) := by
  unfold Terminal.texto at goes
  by_cases first : ch = 13
  · rw [if_pos first] at goes ⊢
    cases goes
    exact chama_uma rfl
  rw [if_neg first] at goes ⊢
  by_cases feed : ch = 10
  · rw [if_pos feed] at goes ⊢
    exact atual.chama_avanca goes
  rw [if_neg feed] at goes ⊢
  by_cases back : ch = 8
  · rw [if_pos back] at goes ⊢
    exact atual.chama_volta goes
  rw [if_neg back] at goes ⊢
  by_cases esc : ch = 27
  · rw [if_pos esc] at goes ⊢
    cases goes
    exact chama_nenhuma rfl
  rw [if_neg esc] at goes ⊢
  by_cases bell : ch = 7
  · rw [if_pos bell] at goes ⊢
    cases goes
    exact chama_nenhuma rfl
  · rw [if_neg bell] at goes ⊢
    exact atual.chama_mostraCaractere goes

variable {prms : Str}

/-- A line that is asked for makes one call. -/
theorem chama_vaiALinha (linha : Option ℤ) :
    Chama t (t.vaiALinha linha) (linha.toList.map fun lin => (-1, lin)) := by
  cases linha with
  | none => exact chama_nenhuma rfl
  | some lin => exact chama_uma rfl

/-- The calls of a move up. -/
theorem chama_cursorUp (goes : t.cursorUp prms = .ok later) :
    Chama t later ((t.linhaPedida prms (unit 'A')).toList.map fun lin => (-1, lin)) := by
  rw [cursorUp_goes goes]
  exact chama_vaiALinha _

/-- The calls of a move down. -/
theorem chama_cursorDown (goes : t.cursorDown prms = .ok later) :
    Chama t later ((t.linhaPedida prms (unit 'B')).toList.map fun lin => (-1, lin)) := by
  rw [cursorDown_goes goes]
  exact chama_vaiALinha _

/-- The calls of a move to the right. -/
theorem chama_cursorForward (goes : t.cursorForward prms = .ok later) :
    Chama t later ((quantos prms).toList.map fun n => (int (t.col + n), -1)) := by
  unfold Terminal.cursorForward at goes
  split at goes
  · cases goes
  · rename_i n given
    cases goes
    rw [given]
    exact chama_uma rfl

/-- The calls of a move to the left. -/
theorem chama_cursorBackward (goes : t.cursorBackward prms = .ok later) :
    Chama t later
      ((quantos prms).toList.map fun n => (if n ≤ t.col then int (t.col - n) else 0, -1)) := by
  unfold Terminal.cursorBackward at goes
  split at goes
  · cases goes
  · rename_i n given
    cases goes
    rw [given]
    exact chama_uma rfl

/-- A jump makes one call, after the cursor is set. -/
theorem chama_home (goes : t.home prms = .ok later) : Chama t later [(-1, -1)] := by
  unfold Terminal.home at goes
  split at goes
  · dsimp only at goes
    split at goes
    · cases goes
    · split at goes
      · cases goes
      · cases goes
        exact chama_uma rfl
  · cases goes
    exact chama_uma rfl

/-- Clearing a line makes one call, with the last column. -/
theorem Atual.chama_el (atual : t.Atual) (goes : t.el = .ok later) :
    Chama t later [(79, -1)] := by
  rw [Terminal.el, limpaLinha_eq t fun _ => atual.naTela] at goes
  cases goes
  exact chama_uma rfl

/-- The calls of `clear` from the cursor on. -/
theorem Atual.chama_limpaDaqui (atual : t.Atual) {x : ℤ} (goes : t.limpaDaqui x = .ok later)
    (column : t.lin = 24 → x = t.col) :
    later.r = t.r.alteraTodas [(if t.lin + 1 < 25 then 0 else x, -1), (79, 24)] ∧
      t.r.SoAumenta [(if t.lin + 1 < 25 then 0 else x, -1), (79, 24)] := by
  have first := atual.primeira column
  obtain ⟨cleared, same, _, goes'⟩ := atual.limpaDaqui_eq x
  cases goes'.symm.trans goes
  generalize (if t.lin + 1 < 25 then 0 else x) = x1 at first
  have r : ((cleared.alteraRegiao x1 (-1)).alteraRegiao 79 24).r =
      (t.r.altera x1 (-1)).altera 79 24 := by
    rw [same]
    rfl
  obtain ⟨boa, cresce, tem⟩ := atual.boa.alteraColuna first
  have cursor : (t.r.altera x1 (-1)).Tem t.lin x1 := tem t.lin atual.cursor.1 atual.cursor.2.1
  have there : Atual { t with col := x1, r := t.r.altera x1 (-1) } := ⟨boa, cursor⟩
  have last := there.place (by decide : (0 : ℤ) ≤ 79 ∧ (79 : ℤ) < 80)
    (by have := atual.naTela.2.1; change t.lin ≤ 24; omega) (by decide)
  exact ⟨r, cresce, last.cresce, trivial⟩

/-- The calls of clearing the screen, or the screen from the cursor on. -/
theorem Atual.chama_clear (atual : t.Atual) (goes : t.clear prms = .ok later) :
    Chama t later
      (if prms = lit "2" then [(-1, -1), (0, -1), (79, 24)]
      else [(if t.lin + 1 < 25 then 0 else t.col, -1), (79, 24)]) := by
  rw [clear_eq] at goes
  by_cases whole : prms = lit "2"
  · have home : t.home [] = .ok ({ t with lin := 0, col := 0 }.alteraRegiao (-1) (-1)) :=
      if_neg List.not_mem_nil
    rw [if_pos whole, home] at goes
    simp only [bind, Except.bind] at goes
    have first := atual.home home (by decide : NaTela 0 0)
    obtain ⟨r, aumenta⟩ := first.atual.chama_limpaDaqui goes fun last => by
      replace last : (0 : ℤ) = 24 := last
      omega
    rw [if_pos whole]
    exact ⟨r, Or.inr ⟨first.cresce, aumenta⟩⟩
  · rw [if_neg whole] at goes ⊢
    obtain ⟨r, aumenta⟩ := atual.chama_limpaDaqui goes fun _ => rfl
    exact ⟨r, Or.inr aumenta⟩

/-- The calls of a command are those that `chamadasComando` lists. -/
theorem Atual.chama_comando (atual : t.Atual) (goes : t.comando prms ch = .ok later) :
    Chama t later (t.chamadasComando prms ch) := by
  unfold Terminal.comando at goes
  unfold chamadasComando
  by_cases up : ch = unit 'A'
  · rw [if_pos up] at goes
    rw [if_pos (Or.inl up), up]
    exact chama_cursorUp goes
  rw [if_neg up] at goes
  by_cases down : ch = unit 'B'
  · rw [if_pos down] at goes
    rw [if_pos (Or.inr down), down]
    exact chama_cursorDown goes
  rw [if_neg down] at goes
  rw [if_neg fun lines => lines.elim up down]
  by_cases forward : ch = unit 'C'
  · rw [if_pos forward] at goes ⊢
    exact chama_cursorForward goes
  rw [if_neg forward] at goes ⊢
  by_cases backward : ch = unit 'D'
  · rw [if_pos backward] at goes ⊢
    exact chama_cursorBackward goes
  rw [if_neg backward] at goes ⊢
  by_cases home : ch = unit 'H'
  · rw [if_pos home] at goes ⊢
    exact chama_home goes
  rw [if_neg home] at goes ⊢
  by_cases clear : ch = unit 'J'
  · rw [if_pos clear] at goes ⊢
    exact atual.chama_clear goes
  rw [if_neg clear] at goes ⊢
  by_cases line : ch = unit 'K'
  · rw [if_pos line] at goes ⊢
    exact atual.chama_el goes
  rw [if_neg line] at goes ⊢
  split at goes
  · cases goes
    exact chama_nenhuma (setaAtributos_mantem t _).2.2.2
  · cases goes
    exact chama_nenhuma rfl

/-- The calls of a character are those that `chamadas` lists. -/
theorem Atual.chama_caractere (atual : t.Atual) {letras : CodeUnit → Bool} {un : Bool}
    (goes : Terminal.caractere letras un t ch = .ok later) :
    Chama t later (t.chamadas letras ch) := by
  unfold Terminal.caractere at goes
  unfold chamadas
  cases estado : t.estado with
  | inicial =>
      rw [estado] at goes
      exact atual.chama_texto goes
  | esc =>
      rw [estado] at goes
      have room : ¬ 256 ≤ t.iseq := by
        intro full
        obtain ⟨stopped, throws⟩ := (raises_escape letras un).mpr (Or.inl full)
        cases throws.symm.trans goes
      dsimp only at goes
      rw [escape_eq letras un room] at goes
      have stored : Anota t { t with iseq := t.iseq + 1, seq := t.seq ++ [ch] } :=
        atual.mantem rfl rfl rfl rfl
      dsimp only
      split at goes
      · rename_i last
        obtain ⟨prms, middle, given, command, _, _, _, r⟩ := encerra_ok goes
        dsimp only at given
        rw [if_pos last, given]
        obtain ⟨calls, aumenta⟩ := stored.atual.chama_comando command
        exact ⟨r.trans calls, aumenta⟩
      · rename_i going
        rw [if_neg going]
        cases goes
        exact chama_nenhuma rfl
  | exec =>
      rw [estado] at goes
      have room : ¬ 256 ≤ t.iseq := by
        intro full
        obtain ⟨stopped, throws⟩ := raises_comandoExec.mpr full
        cases throws.symm.trans goes
      dsimp only at goes
      rw [comandoExec, acumula_eq room] at goes
      cases goes
      split
      · exact chama_nenhuma rfl
      · exact chama_nenhuma rfl

end Calls

/-! ## A buffer -/

/-- A last character is taken after those before it. -/
theorem percorre_concat (letras : CodeUnit → Bool) (un : ℕ → Bool) (ch : CodeUnit) :
    ∀ (front : Str) (i : ℕ) (t : Terminal), percorre letras un i t (front ++ [ch]) =
      (percorre letras un i t front >>= fun later =>
        caractere letras (un (i + front.length)) later ch) := by
  intro front
  induction front with
  | nil =>
      intro i t
      exact bind_pure _
  | cons first front ih =>
      intro i t
      rw [List.cons_append, percorre, percorre, bind_assoc]
      congr 1
      funext later
      rw [ih, List.length_cons]
      congr 2
      funext later
      congr 2
      omega

/-- The first characters of a buffer. -/
def ate (letras : CodeUnit → Bool) (t : Terminal) (comandos : List Octet) (front : Str) :
    Resultado :=
  percorre letras (segueUn comandos (decodeUtf8 comandos).length) 0 t.inicia front

/-- The characters of a buffer all come to an end with the cursor on the screen. -/
def Mantem (letras : CodeUnit → Bool) (t : Terminal) (comandos : List Octet) : Prop :=
  ∀ front, front <+: decodeUtf8 comandos →
    ∃ now, t.ate letras comandos front = .ok now ∧ NaTela now.lin now.col

/-- The rectangle at the end is on the screen and holds what any character has changed, and each
call of `alteraRegiao` on the way only enlarges it. -/
structure Cobre (letras : CodeUnit → Bool) (t : Terminal) (comandos : List Octet) (fim : Terminal) :
    Prop where
  dentro : fim.RegiaoNaTela
  mudou : ∀ front ch, front ++ [ch] <+: decodeUtf8 comandos → ∀ now later,
    t.ate letras comandos front = .ok now → t.ate letras comandos (front ++ [ch]) = .ok later →
    ∀ i j, later.tela i j ≠ now.tela i j → fim.NaRegiao i j
  aumenta : ∀ front ch, front ++ [ch] <+: decodeUtf8 comandos → ∀ now,
    t.ate letras comandos front = .ok now → now.r.SoAumenta (now.chamadas letras ch)

/-- No character of a buffer ends a sequence that goes above the rectangle as it is before it. -/
def NuncaAcima (letras : CodeUnit → Bool) (t : Terminal) (comandos : List Octet) : Prop :=
  ∀ front ch, front ++ [ch] <+: decodeUtf8 comandos → ∀ now,
    t.ate letras comandos front = .ok now → ¬ now.Sobe letras ch

/-- No step is noted. -/
theorem Atual.refl {t : Terminal} (atual : t.Atual) : Anota t t := atual.mantem rfl rfl rfl rfl

/-- The rectangle at the start of a buffer is the cursor. -/
theorem atual_inicia {t : Terminal} (inside : NaTela t.lin t.col) : Atual t.inicia := by
  obtain ⟨top, bottom, left, right⟩ := inside
  refine ⟨⟨?_, ?_, le_rfl, le_rfl⟩, ?_⟩
  · exact ⟨left, Int.add_one_le_of_lt right⟩
  · exact ⟨top, Int.add_one_le_of_lt bottom⟩
  · exact ⟨le_rfl, Int.lt_add_one_of_le le_rfl, le_rfl, Int.lt_add_one_of_le le_rfl⟩

section Buffer

variable {letras : CodeUnit → Bool} {t : Terminal} {comandos : List Octet}

/-- One character further in the buffer. -/
theorem ate_concat {front : Str} {ch : CodeUnit} {now later : Terminal}
    (before : t.ate letras comandos front = .ok now)
    (after : t.ate letras comandos (front ++ [ch]) = .ok later) :
    caractere letras (segueUn comandos (decodeUtf8 comandos).length front.length) now ch =
      .ok later := by
  unfold ate at before after
  rw [percorre_concat, before, Nat.zero_add] at after
  exact after

/-- A stretch of a buffer is noted when none of its characters goes above the rectangle. -/
theorem Mantem.anota (mantem : t.Mantem letras comandos)
    (never : ∀ front ch, front ++ [ch] <+: decodeUtf8 comandos → ∀ now,
      t.ate letras comandos front = .ok now → now.Atual → ¬ now.Sobe letras ch) :
    ∀ (rest front : Str), front ++ rest <+: decodeUtf8 comandos → ∀ now,
      t.ate letras comandos front = .ok now → now.Atual →
      ∃ later, t.ate letras comandos (front ++ rest) = .ok later ∧ Anota now later := by
  intro rest
  induction rest with
  | nil =>
      intro front _ now before atual
      rw [List.append_nil]
      exact ⟨now, before, atual.refl⟩
  | cons ch rest ih =>
      intro front inside now before atual
      rw [← List.singleton_append, ← List.append_assoc] at inside ⊢
      have here := (List.prefix_append _ rest).trans inside
      obtain ⟨next, after, cursor⟩ := mantem _ here
      have step := (atual.caractere (ate_concat before after) cursor).2
        (never front ch here now before atual)
      obtain ⟨later, ends, others⟩ := ih _ inside next after step.atual
      exact ⟨later, ends, step.trans others⟩

/-- Calls that only enlarge the rectangle never lose a line of it. -/
theorem Atual.not_sobe {un : Bool} {now later : Terminal} {ch : CodeUnit} (atual : now.Atual)
    (goes : Terminal.caractere letras un now ch = .ok later) (inside : NaTela later.lin later.col)
    (aumenta : now.r.SoAumenta (now.chamadas letras ch)) : ¬ now.Sobe letras ch := by
  intro sobe
  apply (atual.caractere goes inside).1 sobe
  rw [(atual.chama_caractere goes).r]
  exact aumenta.cresce

/-- The calls of a character that is noted only enlarge the rectangle. -/
theorem Atual.soAumenta {un : Bool} {now later : Terminal} {ch : CodeUnit} (atual : now.Atual)
    (goes : Terminal.caractere letras un now ch = .ok later) (anota : Anota now later) :
    now.r.SoAumenta (now.chamadas letras ch) := by
  obtain ⟨r, one | aumenta⟩ := atual.chama_caractere goes
  · have cresce := anota.cresce
    rw [r] at cresce
    cases calls : now.chamadas letras ch with
    | nil => exact trivial
    | cons call rest =>
        rw [calls] at one cresce
        cases List.eq_nil_of_length_eq_zero (Nat.le_zero.mp (Nat.le_of_succ_le_succ one))
        exact ⟨cresce, trivial⟩
  · exact aumenta

/-- The rectangle holds what a buffer of the host changes just when no sequence of the buffer goes
above it. -/
theorem cobre_iff (host : ¬ lit "SUPORTE:" <+: decodeUtf8 comandos)
    (mantem : t.Mantem letras comandos) :
    (∃ fim, t.atualiza letras comandos = .ok fim ∧ t.Cobre letras comandos fim) ↔
      t.NuncaAcima letras comandos := by
  have whole : t.atualiza letras comandos = t.ate letras comandos (decodeUtf8 comandos) :=
    if_neg fun first => host (List.isPrefixOf_iff_prefix.mp first)
  have begins : t.ate letras comandos [] = .ok t.inicia := rfl
  have start : Atual t.inicia := by
    obtain ⟨now, before, cursor⟩ := mantem [] List.nil_prefix
    cases begins.symm.trans before
    exact atual_inicia cursor
  constructor
  · rintro ⟨fim, _, cobre⟩ front ch inside now before
    have never : ∀ front ch, front ++ [ch] <+: decodeUtf8 comandos → ∀ now,
        t.ate letras comandos front = .ok now → now.Atual → ¬ now.Sobe letras ch := by
      intro front ch inside now before atual
      obtain ⟨later, after, cursor⟩ := mantem _ inside
      exact atual.not_sobe (ate_concat before after) cursor
        (cobre.aumenta front ch inside now before)
    have here := (List.prefix_append front [ch]).trans inside
    obtain ⟨_, before', anota⟩ := mantem.anota never front [] here _ begins start
    cases before.symm.trans before'
    exact never front ch inside now before anota.atual
  · intro nunca
    have anota := mantem.anota fun front ch inside now before _ => nunca front ch inside now before
    obtain ⟨fim, ends, all⟩ := anota (decodeUtf8 comandos) [] List.prefix_rfl _ begins start
    have steps : ∀ front ch, front ++ [ch] <+: decodeUtf8 comandos → ∀ now later,
        t.ate letras comandos front = .ok now →
        t.ate letras comandos (front ++ [ch]) = .ok later → now.Atual ∧ Anota now later := by
      intro front ch inside now later before after
      have here := (List.prefix_append front [ch]).trans inside
      obtain ⟨_, before', first⟩ := anota front [] here _ begins start
      cases before.symm.trans before'
      obtain ⟨_, after', step⟩ := anota [ch] front inside now before first.atual
      cases after.symm.trans after'
      exact ⟨first.atual, step⟩
    refine ⟨fim, whole.trans ends, regiaoNaTela_iff.mpr all.atual.boa, ?_, ?_⟩
    · intro front ch inside now later before after i j changed
      have step := (steps front ch inside now later before after).2
      obtain ⟨rest, split⟩ := inside
      obtain ⟨_, ends', others⟩ := anota rest (front ++ [ch]) (by rw [split]) later after step.atual
      rw [split] at ends'
      cases ends.symm.trans ends'
      exact others.cresce i j (step.mudou i j changed)
    · intro front ch inside now before
      obtain ⟨later, after, _⟩ := mantem _ inside
      obtain ⟨atual, step⟩ := steps front ch inside now later before after
      exact atual.soAumenta (ate_concat before after) step

end Buffer

/-- The characters of a given buffer. -/
theorem mantem_of_inits {letras : CodeUnit → Bool} {t : Terminal} {comandos : List Octet}
    (all : ∀ front ∈ (decodeUtf8 comandos).inits,
      (t.ate letras comandos front).toOption.any (fun now => decide (NaTela now.lin now.col)) =
        true) : t.Mantem letras comandos := by
  intro front inside
  have here := all front ((List.mem_inits _ _).mpr inside)
  cases runs : t.ate letras comandos front with
  | error stopped =>
      rw [runs] at here
      cases here
  | ok now =>
      rw [runs] at here
      exact ⟨now, rfl, of_decide_eq_true here⟩

/-- The sequences of a given buffer. -/
theorem nuncaAcima_of_inits {letras : CodeUnit → Bool} {t : Terminal} {comandos : List Octet}
    (all : ∀ front ∈ (decodeUtf8 comandos).inits,
      (decodeUtf8 comandos)[front.length]?.all (fun ch =>
        (t.ate letras comandos front).toOption.all fun now =>
          now.estado ≠ .esc || (parametros (now.seq ++ [ch])).all fun prms =>
            (now.linhaPedida prms ch).all fun lin => now.r.y ≤ lin) = true) :
    t.NuncaAcima letras comandos := by
  rintro front ch inside now before ⟨sequence, _, prms, stated, lin, asked, above⟩
  have here : (decodeUtf8 comandos)[front.length]? = some ch := by
    obtain ⟨rest, whole⟩ := inside
    rw [← whole, List.append_assoc, List.getElem?_append_right le_rfl, Nat.sub_self]
    rfl
  have fine := all front ((List.mem_inits _ _).mpr ((List.prefix_append _ _).trans inside))
  rw [here, Option.all_some, before] at fine
  simp only [Except.toOption, Option.all_some, sequence, ne_eq, not_true_eq_false, decide_false,
    Bool.false_or, stated, asked, decide_eq_true_eq] at fine
  omega

/-- The text `Cod`, a jump to the fourth line, a letter there, one in reverse on the line below,
one a line up again, and the rest of that line cleared. -/
def comSequencias : List Octet :=
  [67, 111, 100, 27, 91, 52, 59, 49, 48, 72, 120, 27, 91, 66, 27, 91, 55, 109, 121,
    27, 91, 65, 122, 27, 91, 75]

/-- The rectangle holds what they change. -/
theorem cobre_sequences : ∃ fim, novo.atualiza (fun _ => false) comSequencias = .ok fim ∧
    novo.Cobre (fun _ => false) comSequencias fim :=
  (cobre_iff (by decide +kernel) (mantem_of_inits (by decide +kernel))).mpr
    (nuncaAcima_of_inits (by decide +kernel))

/-- A letter in the sixth line, and the cursor one line up: the letter is not in the rectangle. -/
theorem cobre_fails : ¬ ∀ letras (t : Terminal) comandos, ¬ lit "SUPORTE:" <+: decodeUtf8 comandos →
    t.Mantem letras comandos →
    ∃ fim, t.atualiza letras comandos = .ok fim ∧ t.Cobre letras comandos fim := by
  intro always
  have mantem : Mantem (fun _ => false) { novo with lin := 5 } [65, 27, 91, 65] :=
    mantem_of_inits (by decide +kernel)
  obtain ⟨fim, ends, cobre⟩ := always _ _ _ (by decide) mantem
  obtain ⟨later, after, _⟩ := mantem [65] (by decide)
  have written : (later.tela 5 0).dado = 65 := by
    have shown : ((ate (fun _ => false) { novo with lin := 5 } [65, 27, 91, 65] [65]).toOption.map
        fun now => (now.tela 5 0).dado) = some 65 := by decide +kernel
    rw [after] at shown
    exact Option.some.inj shown
  have region : fim.r = ⟨0, 4, 3, 1⟩ := by
    have shown : ((atualiza (fun _ => false) { novo with lin := 5 }
        [65, 27, 91, 65]).toOption.map fun now => now.r) = some ⟨0, 4, 3, 1⟩ := by decide +kernel
    rw [ends] at shown
    exact Option.some.inj shown
  have lost := cobre.mudou [] 65 (by decide) _ later rfl after 5 0 fun same => by
    rw [same] at written
    exact absurd written (by decide)
  unfold NaRegiao at lost
  rw [region] at lost
  exact absurd lost (by decide)

end Terminal

end Pqfh
