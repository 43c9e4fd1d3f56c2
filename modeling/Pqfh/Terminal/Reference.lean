import Pqfh.Terminal.Cuts

/-! # Plain text

For plain text the terminal is to be one of 25 lines of 80 columns: a character is stored at the
cursor, the last column goes on in the first of the next line, a line feed goes down in the same
column, and below the last line the screen moves up. In the last line the terminal does otherwise. A
line feed moves up the columns from the cursor on only, and after the last cell the cursor goes
below the screen and nothing moves up. `Terminal.fiel_iff` says which texts do not come to that.
-/

namespace Pqfh

open Abrupt (final)
open Java (CodeUnit Octet Str decodeUtf8 lit unit)

/-- The terminal that plain text is written for. -/
structure Referencia where
  tela : ℤ → ℤ → CodeUnit
  lin : ℤ
  col : ℤ
  dentro : Terminal.NaTela lin col

namespace Referencia

/-- The cleared screen. -/
def limpa : Referencia := ⟨fun _ _ => unit ' ', 0, 0, by decide⟩

/-- The screen moves up by one line. -/
def rola (r : Referencia) : Referencia :=
  { r with tela := fun i j => if i = 24 then unit ' ' else r.tela (i + 1) j }

/-- The cursor goes down in its column. -/
def desce (r : Referencia) : Referencia :=
  if below : r.lin < 24 then
    { r with
      lin := r.lin + 1
      dentro := by
        have here := r.dentro
        exact ⟨by have := here.1; omega, by omega, here.2.2⟩ }
  else r.rola

/-- The cursor goes to a column. -/
def vai (r : Referencia) (col : ℤ) (inside : 0 ≤ col ∧ col < 80) : Referencia :=
  { r with
    col := col
    dentro := ⟨r.dentro.1, r.dentro.2.1, inside⟩ }

/-- A character is stored at the cursor. -/
def escreve (r : Referencia) (ch : CodeUnit) : Referencia :=
  { r with tela := fun i j => if i = r.lin ∧ j = r.col then ch else r.tela i j }

/-- A character is received. -/
def recebe (r : Referencia) (ch : CodeUnit) : Referencia :=
  if ch = 13 then r.vai 0 (by decide)
  else if ch = 10 then r.desce
  else if room : r.col < 79 then
    (r.escreve ch).vai (r.col + 1) (by have := r.dentro.2.2.1; omega)
  else ((r.escreve ch).vai 0 (by decide)).desce

/-- A text is received. -/
def recebeTexto (r : Referencia) (s : Str) : Referencia := s.foldl recebe r

/-- No character is to be seen. -/
def Vazia (r : Referencia) : Prop := ∀ i j, Terminal.NaTela i j → r.tela i j = unit ' '

end Referencia

namespace Terminal

/-- A printable character: no control character. -/
def Imprime (ch : CodeUnit) : Prop := 32 ≤ ch ∧ ¬ (127 ≤ ch ∧ ch < 160)

instance (ch : CodeUnit) : Decidable (Imprime ch) :=
  inferInstanceAs (Decidable (32 ≤ ch ∧ ¬ (127 ≤ ch ∧ ch < 160)))

/-- A character of plain text. -/
def Plano (ch : CodeUnit) : Prop := ch = 13 ∨ ch = 10 ∨ Imprime ch

/-- The matrix `dados` has the screen of the reference terminal. -/
def Mostra (t : Terminal) (r : Referencia) : Prop :=
  ∀ i j, NaTela i j → (t.tela i j).dado = r.tela i j

/-- The terminal shows a text as the reference terminal does: after the buffers in which any part of
it is received, none of them a line of a shared screen, and after any part in one buffer. -/
structure Fiel (letras : CodeUnit → Bool) (bits : BitVec 32) (s : Str) : Prop where
  buffers : ∀ buffers t, (buffers.map decodeUtf8).flatten <+: s →
    (∀ buffer ∈ buffers, ¬ lit "SUPORTE:" <+: decodeUtf8 buffer) → Recebe letras bits buffers t →
    t.Mostra (Referencia.limpa.recebeTexto (buffers.map decodeUtf8).flatten)
  caracteres : ∀ un front, front <+: s →
    (final (percorre letras un 0 novo.inicia front)).Mostra (Referencia.limpa.recebeTexto front)

/-- A text is received without loss: a line feed in the last line finds only blanks left of the
cursor, and a character is stored in the last cell only if the screen is blank then and stays so. -/
def SemPerda : Referencia → Str → Prop
  | _, [] => True
  | r, ch :: rest =>
      (ch = 10 → r.lin = 24 → ∀ i j, NaTela i j → j < r.col → r.tela i j = unit ' ') ∧
        (Imprime ch → r.lin = 24 → r.col = 79 →
          (r.escreve ch).Vazia ∧ ∀ other ∈ rest, Imprime other → other = unit ' ') ∧
        SemPerda (r.recebe ch) rest

/-! ## Moving the screen up -/

/-- A column that stays as it is when it moves up is blank. -/
theorem blank_of_still {coluna : ℤ → CodeUnit}
    (still : ∀ i, 0 ≤ i → i < 25 → coluna i = if i = 24 then unit ' ' else coluna (i + 1)) :
    ∀ (n : ℕ) (i : ℤ), 0 ≤ i → i < 25 → (24 - i).toNat = n → coluna i = unit ' ' := by
  intro n
  induction n with
  | zero =>
      intro i first last size
      rw [still i first last, if_pos (by omega)]
  | succ n ih =>
      intro i first last size
      rw [still i first last, if_neg (by omega)]
      exact ih (i + 1) (by omega) (by omega) (by omega)

/-- Columns that stay where the reference terminal moves them up show what it shows just when they
are blank. -/
theorem still_iff (r : Referencia) (col : ℤ) :
    (∀ i j, NaTela i j → j < col → r.tela i j = r.rola.tela i j) ↔
      ∀ i j, NaTela i j → j < col → r.tela i j = unit ' ' := by
  constructor
  · intro still i j inside left
    refine @blank_of_still (fun i => r.tela i j) (fun i first last => ?_) _ i inside.1 inside.2.1
      rfl
    exact still i j ⟨first, last, inside.2.2⟩ left
  · intro blank i j inside left
    rw [blank i j inside left]
    change _ = if i = 24 then unit ' ' else r.tela (i + 1) j
    by_cases last : i = 24
    · rw [if_pos last]
    · have next : NaTela (i + 1) j := ⟨by have := inside.1; omega,
        by have := inside.2.1; omega, inside.2.2⟩
      rw [if_neg last, blank (i + 1) j next left]

/-- What `scroll` shows when the screen was that of the reference terminal. -/
theorem scroll_mostra {t later : Terminal} {r : Referencia} (shown : t.Mostra r)
    (column : 0 ≤ t.col) (moved : t.scroll = .ok later) :
    later.Mostra r.rola ↔ ∀ i j, NaTela i j → j < t.col → r.tela i j = unit ' ' := by
  have dado : ∀ i j, NaTela i j → (later.tela i j).dado =
      if j < t.col then r.tela i j else r.rola.tela i j := by
    intro i j inside
    rw [scroll_eq t column] at moved
    cases moved
    obtain ⟨first, last, left, right⟩ := inside
    change (if i = 24 ∧ t.col ≤ j ∧ j < 80 then t.celula (unit ' ')
      else if 0 ≤ i ∧ i < 24 ∧ t.col ≤ j ∧ j < 80 then t.tela (i + 1) j
      else t.tela i j).dado = if j < t.col then r.tela i j
      else if i = 24 then unit ' ' else r.tela (i + 1) j
    by_cases before : j < t.col
    · rw [if_neg (by omega), if_neg (by omega), if_pos before]
      exact shown i j ⟨first, last, left, right⟩
    · rw [if_neg before]
      by_cases bottom : i = 24
      · rw [if_pos ⟨bottom, by omega, right⟩, if_pos bottom]
        rfl
      · rw [if_neg fun here => bottom here.1, if_neg bottom, if_pos (by omega)]
        exact shown (i + 1) j ⟨by omega, by omega, left, right⟩
  rw [← still_iff]
  constructor
  · intro same i j inside left
    rw [← same i j inside, dado i j inside, if_pos left]
  · intro still i j inside
    rw [dado i j inside]
    by_cases left : j < t.col
    · rw [if_pos left, still i j inside left]
    · rw [if_neg left]

/-! ## A character -/

/-- The terminal has the screen and the cursor of the reference terminal. -/
structure Junto (t : Terminal) (r : Referencia) : Prop where
  estado : t.estado = .inicial
  lin : t.lin = r.lin
  col : t.col = r.col
  mostra : t.Mostra r

/-- The cursor is below the screen, and the screen is blank. -/
structure Alem (t : Terminal) : Prop where
  estado : t.estado = .inicial
  lin : t.lin = 25
  col : 0 ≤ t.col ∧ t.col < 80
  vazia : ∀ i j, NaTela i j → (t.tela i j).dado = unit ' '

/-- A character comes to the last cell of the screen. -/
def Ultima (r : Referencia) (ch : CodeUnit) : Prop := Imprime ch ∧ r.lin = 24 ∧ r.col = 79

/-- Outside of a sequence a character is text. -/
theorem caractere_inicial (letras : CodeUnit → Bool) (un : Bool) {t : Terminal}
    (inicial : t.estado = .inicial) (ch : CodeUnit) : caractere letras un t ch = t.texto ch := by
  unfold caractere
  rw [inicial]

/-- A character that prints is no control character. -/
theorem Imprime.other {ch : CodeUnit} (imprime : Imprime ch) :
    ch ≠ 13 ∧ ch ≠ 10 ∧ ch ≠ 8 ∧ ch ≠ 27 ∧ ch ≠ 7 := by
  have low := imprime.1
  refine ⟨?_, ?_, ?_, ?_, ?_⟩ <;> rintro rfl <;> exact absurd low (by decide)

/-- A character that prints is shown. -/
theorem texto_imprime (t : Terminal) {ch : CodeUnit} (imprime : Imprime ch) :
    t.texto ch = t.mostraCaractere ch := by
  obtain ⟨cr, lf, bs, esc, bell⟩ := imprime.other
  unfold texto
  rw [if_neg cr, if_neg lf, if_neg bs, if_neg esc, if_neg bell]

/-- A character is stored at the cursor. -/
theorem Junto.grava {t : Terminal} {r : Referencia} (junto : Junto t r) (ch : CodeUnit) :
    t.grava t.lin t.col (t.celula ch) = .ok (t.set t.lin t.col (t.celula ch)) ∧
      (t.set t.lin t.col (t.celula ch)).Mostra (r.escreve ch) := by
  have inside : NaTela t.lin t.col := by
    rw [junto.lin, junto.col]
    exact r.dentro
  refine ⟨grava_eq inside, fun i j place => ?_⟩
  change (if i = t.lin ∧ j = t.col then t.celula ch else t.tela i j).dado =
    if i = r.lin ∧ j = r.col then ch else r.tela i j
  rw [junto.lin, junto.col]
  by_cases here : i = r.lin ∧ j = r.col
  · rw [if_pos here, if_pos here]
    rfl
  · rw [if_neg here, if_neg here]
    exact junto.mostra i j place

section Junto

variable {t : Terminal} {r : Referencia} (junto : Junto t r)

include junto

/-- A carriage return keeps terminal and reference together. -/
theorem Junto.retorna : Junto t.retorna (r.recebe 13) :=
  ⟨junto.estado, junto.lin, rfl, junto.mostra⟩

/-- A line feed above the last line. -/
theorem Junto.desce (below : r.lin < 24) :
    ∃ later, t.texto 10 = .ok later ∧ Junto later (r.recebe 10) := by
  have goes : r.recebe 10 = r.desce := rfl
  have next : t.texto 10 = .ok ({ t with lin := t.lin + 1 }.alteraRegiao (-1) (t.lin + 1)) := by
    change t.avanca = _
    rw [avanca, if_pos (junto.lin ▸ below)]
  refine ⟨_, next, ?_⟩
  rw [goes, Referencia.desce, dif_pos below]
  exact ⟨junto.estado, congrArg (· + 1) junto.lin, junto.col, junto.mostra⟩

/-- A line feed in the last line. -/
theorem Junto.rola (last : r.lin = 24) :
    ∃ later, t.texto 10 = .ok later ∧
      (later.Mostra (r.recebe 10) ↔ ∀ i j, NaTela i j → j < r.col → r.tela i j = unit ' ') ∧
      (later.Mostra (r.recebe 10) → Junto later (r.recebe 10)) := by
  have column : 0 ≤ t.col := junto.col ▸ r.dentro.2.2.1
  have goes : r.recebe 10 = r.rola := dif_neg last.not_lt
  have moved := scroll_eq t column
  have line : ¬ t.lin < 24 := by
    rw [junto.lin]
    exact last.not_lt
  have next : t.texto 10 = .ok (((t.sobem 0 t.col).linha 24 t.col
      fun _ => t.celula (unit ' ')).alteraRegiao (-1) (-1)) := by
    change t.avanca = _
    rw [avanca, if_neg line, moved]
    rfl
  have shown := scroll_mostra junto.mostra column moved
  rw [goes, ← junto.col]
  exact ⟨_, next, shown, fun same => ⟨junto.estado, junto.lin, junto.col, same⟩⟩

/-- What a printable character does. -/
theorem Junto.texto_eq {ch : CodeUnit} (imprime : Imprime ch) :
    t.texto ch = .ok (if r.col < 79 then
      { t.set t.lin t.col (t.celula ch) with col := t.col + 1 }.alteraRegiao (t.col + 1) (-1)
    else { t.set t.lin t.col (t.celula ch) with col := 0, lin := t.lin + 1 }.alteraRegiao 0
      (t.lin + 1)) := by
  rw [texto_imprime t imprime, mostraCaractere, (junto.grava ch).1, ← junto.col]
  change (if t.col < 79 then _ else _) = _
  split <;> rfl

/-- A printable character that is not for the last cell. -/
theorem Junto.escreve {ch : CodeUnit} (imprime : Imprime ch) (inside : r.col < 79 ∨ r.lin < 24) :
    ∃ later, t.texto ch = .ok later ∧ Junto later (r.recebe ch) := by
  obtain ⟨cr, lf, _⟩ := imprime.other
  have shown := (junto.grava ch).2
  refine ⟨_, junto.texto_eq imprime, ?_⟩
  rw [Referencia.recebe, if_neg cr, if_neg lf]
  by_cases room : r.col < 79
  · rw [if_pos room, dif_pos room]
    exact ⟨junto.estado, junto.lin, congrArg (· + 1) junto.col, shown⟩
  · have below : ((r.escreve ch).vai 0 (by decide)).lin < 24 := by
      rcases inside with room' | below
      · exact (room room').elim
      · exact below
    rw [if_neg room, dif_neg room, Referencia.desce, dif_pos below]
    exact ⟨junto.estado, congrArg (· + 1) junto.lin, rfl, shown⟩

/-- A printable character for the last cell: the terminal does not move up. -/
theorem Junto.ultima {ch : CodeUnit} (ultima : Ultima r ch) :
    ∃ later, t.texto ch = .ok later ∧
      (later.Mostra (r.recebe ch) ↔ (r.escreve ch).Vazia) ∧
      ((r.escreve ch).Vazia → Alem later) := by
  obtain ⟨imprime, line, column⟩ := ultima
  obtain ⟨cr, lf, _⟩ := imprime.other
  have full : ¬ r.col < 79 := by omega
  have shown := (junto.grava ch).2
  have goes : r.recebe ch = ((r.escreve ch).vai 0 (by decide)).rola := by
    rw [Referencia.recebe, if_neg cr, if_neg lf, dif_neg full]
    exact dif_neg line.not_lt
  have still := still_iff ((r.escreve ch).vai 0 (by decide)) 80
  have written := junto.texto_eq imprime
  rw [if_neg full] at written
  refine ⟨_, written, ?_, fun blank => ?_⟩
  · rw [goes]
    constructor
    · intro same i j place
      refine still.mp (fun i j place _ => ?_) i j place place.2.2.2
      exact (shown i j place).symm.trans (same i j place)
    · intro blank i j place
      exact (shown i j place).trans
        (still.mpr (fun i j place _ => blank i j place) i j place place.2.2.2)
  · refine ⟨junto.estado, ?_, ⟨le_rfl, (by decide : (0 : ℤ) < 80)⟩,
      fun i j place => (shown i j place).trans (blank i j place)⟩
    change t.lin + 1 = 25
    rw [junto.lin, line]
    rfl

end Junto

/-! ## Below the screen -/

/-- Below the screen a character of plain text shows nothing. -/
theorem Alem.texto {t : Terminal} (alem : Alem t) {ch : CodeUnit} (plano : Plano ch) :
    Alem (final (t.texto ch)) := by
  obtain ⟨estado, lin, col, vazia⟩ := alem
  rcases plano with rfl | rfl | imprime
  · exact ⟨estado, lin, ⟨le_rfl, (by decide : (0 : ℤ) < 80)⟩, vazia⟩
  · have line : ¬ t.lin < 24 := by omega
    have next : t.texto 10 = .ok (((t.sobem 0 t.col).linha 24 t.col
        fun _ => t.celula (unit ' ')).alteraRegiao (-1) (-1)) := by
      change t.avanca = _
      rw [avanca, if_neg line, scroll_eq t col.1]
      rfl
    rw [next]
    refine ⟨estado, lin, col, fun i j place => ?_⟩
    change (if i = 24 ∧ t.col ≤ j ∧ j < 80 then t.celula (unit ' ')
      else if 0 ≤ i ∧ i < 24 ∧ t.col ≤ j ∧ j < 80 then t.tela (i + 1) j
      else t.tela i j).dado = unit ' '
    split
    · rfl
    · split
      · exact vazia (i + 1) j ⟨by omega, by omega, place.2.2⟩
      · exact vazia i j place
  · have outside : ¬ NaTela t.lin t.col := fun inside => by have := inside.2.1; omega
    have stopped : t.texto ch = .error t := by
      rw [texto_imprime t imprime, mostraCaractere, grava_error outside]
      rfl
    rw [stopped]
    exact ⟨estado, lin, col, vazia⟩

/-- Beyond the screen only an empty reference is shown. -/
theorem Mostra.vazia {t : Terminal} {r : Referencia} (alem : Alem t) :
    t.Mostra r ↔ r.Vazia := by
  constructor
  · intro shown i j place
    rw [← shown i j place, alem.vazia i j place]
  · intro blank i j place
    rw [alem.vazia i j place, blank i j place]

end Terminal

namespace Referencia

/-- An empty screen scrolls to an empty one. -/
theorem Vazia.rola {r : Referencia} (vazia : r.Vazia) : r.rola.Vazia := by
  intro i j place
  change (if i = 24 then unit ' ' else r.tela (i + 1) j) = unit ' '
  split
  · rfl
  · exact vazia (i + 1) j ⟨by have := place.1; omega, by have := place.2.1; omega, place.2.2⟩

/-- An empty screen stays empty when the line goes down. -/
theorem Vazia.desce {r : Referencia} (vazia : r.Vazia) : r.desce.Vazia := by
  unfold Referencia.desce
  split
  · exact vazia
  · exact vazia.rola

/-- What is seen of a character when it is stored, wherever the cursor goes. -/
theorem recebe_imprime {r : Referencia} {ch : CodeUnit} (imprime : Terminal.Imprime ch) :
    (∀ i j, (r.recebe ch).tela i j = (r.escreve ch).tela i j) ∨
      r.lin = 24 ∧ ∀ i j, (r.recebe ch).tela i j = (r.escreve ch).rola.tela i j := by
  obtain ⟨cr, lf, _⟩ := imprime.other
  rw [recebe, if_neg cr, if_neg lf]
  split
  · exact Or.inl fun _ _ => rfl
  · unfold Referencia.desce
    split
    · exact Or.inl fun _ _ => rfl
    · rename_i last
      refine Or.inr ⟨?_, fun _ _ => rfl⟩
      have := r.dentro.2.1
      change ¬ r.lin < 24 at last
      omega

/-- The screen is blank when it is so once the character is stored. -/
theorem Vazia.of_escreve {r : Referencia} {ch : CodeUnit} (stored : (r.escreve ch).Vazia)
    (imprime : Terminal.Imprime ch) : (r.recebe ch).Vazia := by
  intro i j place
  rcases recebe_imprime imprime with same | ⟨_, same⟩
  · rw [same]
    exact stored i j place
  · rw [same]
    exact stored.rola i j place

/-- A blank that is written leaves the screen empty. -/
theorem Vazia.escreve {r : Referencia} (vazia : r.Vazia) : (r.escreve (unit ' ')).Vazia := by
  intro i j place
  change (if i = r.lin ∧ j = r.col then unit ' ' else r.tela i j) = unit ' '
  split
  · rfl
  · exact vazia i j place

/-- A blank screen stays blank just when no other character is received. -/
theorem Vazia.recebe_iff {r : Referencia} (vazia : r.Vazia) {ch : CodeUnit}
    (plano : Terminal.Plano ch) :
    (r.recebe ch).Vazia ↔ (Terminal.Imprime ch → ch = unit ' ') := by
  have control : ∀ {other : CodeUnit}, Terminal.Imprime other → other ≠ 13 ∧ other ≠ 10 :=
    fun imprime => ⟨imprime.other.1, imprime.other.2.1⟩
  rcases plano with rfl | rfl | imprime
  · exact iff_of_true vazia fun imprime => ((control imprime).1 rfl).elim
  · exact iff_of_true vazia.desce fun imprime => ((control imprime).2 rfl).elim
  · have here : (r.escreve ch).tela r.lin r.col = ch := if_pos ⟨rfl, rfl⟩
    constructor
    · intro blank _
      rcases recebe_imprime imprime with same | ⟨last, same⟩
      · rw [← here, ← same]
        exact blank r.lin r.col r.dentro
      · have place : Terminal.NaTela 23 r.col := ⟨by decide, by decide, r.dentro.2.2⟩
        have moved := (same 23 r.col).symm.trans (blank 23 r.col place)
        rw [← here, ← moved, last]
        rfl
    · intro space
      have stored : (r.escreve ch).Vazia := by
        rw [space imprime]
        exact vazia.escreve
      exact stored.of_escreve imprime

/-- Blanks leave a blank screen blank. -/
theorem Vazia.recebeTexto {r : Referencia} (vazia : r.Vazia) {s : Str}
    (plano : ∀ ch ∈ s, Terminal.Plano ch)
    (brancos : ∀ ch ∈ s, Terminal.Imprime ch → ch = unit ' ') :
    (r.recebeTexto s).Vazia := by
  induction s generalizing r with
  | nil => exact vazia
  | cons ch rest ih =>
      obtain ⟨here, later⟩ := List.forall_mem_cons.mp plano
      obtain ⟨branco, outros⟩ := List.forall_mem_cons.mp brancos
      exact ih ((vazia.recebe_iff here).mpr branco) later outros

/-- A text that leaves a blank screen blank, in every part, has only blanks. -/
theorem Vazia.brancos {r : Referencia} (vazia : r.Vazia) {s : Str}
    (plano : ∀ ch ∈ s, Terminal.Plano ch)
    (blank : ∀ front, front <+: s → (r.recebeTexto front).Vazia) :
    ∀ ch ∈ s, Terminal.Imprime ch → ch = unit ' ' := by
  induction s generalizing r with
  | nil => exact List.forall_mem_nil _
  | cons ch rest ih =>
      obtain ⟨here, later⟩ := List.forall_mem_cons.mp plano
      have next : (r.recebe ch).Vazia := blank [ch] (List.prefix_append [ch] rest)
      refine List.forall_mem_cons.mpr ⟨(vazia.recebe_iff here).mp next, ?_⟩
      exact ih next later fun front inside =>
        blank (ch :: front) ((List.prefix_append_right_inj [ch]).mpr inside)

/-- A text of blanks for a blank screen is received without loss. -/
theorem Vazia.semPerda {r : Referencia} (vazia : r.Vazia) {s : Str}
    (plano : ∀ ch ∈ s, Terminal.Plano ch)
    (brancos : ∀ ch ∈ s, Terminal.Imprime ch → ch = unit ' ') :
    Terminal.SemPerda r s := by
  induction s generalizing r with
  | nil => trivial
  | cons ch rest ih =>
      obtain ⟨here, later⟩ := List.forall_mem_cons.mp plano
      obtain ⟨branco, outros⟩ := List.forall_mem_cons.mp brancos
      refine ⟨fun _ _ i j place _ => vazia i j place, fun imprime _ _ => ⟨?_, outros⟩,
        ih ((vazia.recebe_iff here).mpr branco) later outros⟩
      rw [branco imprime]
      exact vazia.escreve

end Referencia

namespace Terminal

/-! ## A text -/

/-- What a character of plain text does while the terminals go together. -/
theorem Junto.passo {t : Terminal} {r : Referencia} (junto : Junto t r) {ch : CodeUnit}
    (plano : Plano ch) : ∃ later, t.texto ch = .ok later ∧
      ((¬ Ultima r ch ∧ (later.Mostra (r.recebe ch) → Junto later (r.recebe ch)) ∧
          (later.Mostra (r.recebe ch) ↔ (ch = 10 → r.lin = 24 →
            ∀ i j, NaTela i j → j < r.col → r.tela i j = unit ' '))) ∨
        (Ultima r ch ∧ (later.Mostra (r.recebe ch) ↔ (r.escreve ch).Vazia) ∧
          ((r.escreve ch).Vazia → Alem later))) := by
  have apart : ∀ {other : CodeUnit}, Imprime other → other ≠ 13 ∧ other ≠ 10 :=
    fun imprime => ⟨imprime.other.1, imprime.other.2.1⟩
  rcases plano with rfl | rfl | imprime
  · refine ⟨t.retorna, rfl, Or.inl ⟨fun ultima => (apart ultima.1).1 rfl,
      fun _ => junto.retorna, ?_⟩⟩
    exact iff_of_true junto.retorna.mostra fun impossible => absurd impossible (by decide)
  · have other : ¬ Ultima r 10 := fun ultima => (apart ultima.1).2 rfl
    by_cases below : r.lin < 24
    · obtain ⟨later, next, goes⟩ := junto.desce below
      exact ⟨later, next, Or.inl ⟨other, fun _ => goes,
        iff_of_true goes.mostra fun _ last => absurd last below.ne⟩⟩
    · have last : r.lin = 24 := by have := r.dentro.2.1; omega
      obtain ⟨later, next, shown, goes⟩ := junto.rola last
      refine ⟨later, next, Or.inl ⟨other, goes, shown.trans ?_⟩⟩
      exact ⟨fun blank _ _ => blank, fun blank => blank rfl last⟩
  · by_cases ultima : Ultima r ch
    · obtain ⟨later, next, rest⟩ := junto.ultima ultima
      exact ⟨later, next, Or.inr ⟨ultima, rest⟩⟩
    · have inside : r.col < 79 ∨ r.lin < 24 := by
        by_contra full
        refine ultima ⟨imprime, ?_, ?_⟩
        · have := r.dentro.2.1
          omega
        · have := r.dentro.2.2.2
          omega
      obtain ⟨later, next, goes⟩ := junto.escreve imprime inside
      exact ⟨later, next, Or.inl ⟨ultima, fun _ => goes,
        iff_of_true goes.mostra fun impossible => ((apart imprime).2 impossible).elim⟩⟩

/-- The terminal goes with the reference terminal, or has nothing more to show. -/
def Situado (r : Referencia) (rest : Str) (t : Terminal) : Prop :=
  (Junto t r ∧ SemPerda r rest) ∨
    (Alem t ∧ r.Vazia ∧ ∀ ch ∈ rest, Imprime ch → ch = unit ' ')

/-- A terminal that is in its place shows the reference. -/
theorem Situado.mostra {r : Referencia} {rest : Str} {t : Terminal} (situado : Situado r rest t) :
    t.Mostra r := by
  rcases situado with ⟨junto, _⟩ | ⟨alem, vazia, _⟩
  · exact junto.mostra
  · exact (Mostra.vazia alem).mpr vazia

section Text

variable (letras : CodeUnit → Bool)

/-- The first character of a text is shown before the others. -/
theorem percorre_cons (un : ℕ → Bool) (i : ℕ) {t later : Terminal} {ch : CodeUnit}
    (inicial : t.estado = .inicial) (next : t.texto ch = .ok later) (rest : Str) :
    percorre letras un i t (ch :: rest) = percorre letras un (i + 1) later rest := by
  rw [percorre, caractere_inicial letras (un i) inicial, next]
  rfl

/-- A terminal beyond the screen stays there over plain text. -/
theorem Alem.percorre {t : Terminal} (alem : Alem t) (un : ℕ → Bool) (i : ℕ) {s : Str}
    (plano : ∀ ch ∈ s, Plano ch) : Alem (final (percorre letras un i t s)) := by
  induction s generalizing t i with
  | nil => exact alem
  | cons ch rest ih =>
      obtain ⟨here, others⟩ := List.forall_mem_cons.mp plano
      have after := alem.texto here
      rw [Terminal.percorre, caractere_inicial letras (un i) alem.estado]
      cases next : t.texto ch with
      | error later =>
          rw [next] at after
          exact after
      | ok later =>
          rw [next] at after
          exact ih after (i + 1) others

/-- A part of a text that is received without loss. -/
theorem Situado.percorre {r : Referencia} {parte rest : Str} {t : Terminal}
    (situado : Situado r (parte ++ rest) t) (plano : ∀ ch ∈ parte, Plano ch) (un : ℕ → Bool)
    (i : ℕ) : Situado (r.recebeTexto parte) rest (final (percorre letras un i t parte)) := by
  induction parte generalizing r t i with
  | nil => exact situado
  | cons ch parte ih =>
      obtain ⟨here, others⟩ := List.forall_mem_cons.mp plano
      rcases situado with ⟨junto, semPerda⟩ | ⟨alem, vazia, brancos⟩
      · obtain ⟨linha, fim, semPerda⟩ := semPerda
        obtain ⟨later, next, ⟨_, goes, shown⟩ | ⟨⟨imprime, line, column⟩, _, below⟩⟩ :=
          junto.passo here
        · rw [percorre_cons letras un i junto.estado next]
          exact ih (Or.inl ⟨goes (shown.mpr linha), semPerda⟩) others (i + 1)
        · obtain ⟨blank, brancos⟩ := fim imprime line column
          rw [percorre_cons letras un i junto.estado next]
          exact ih (Or.inr ⟨below blank, blank.of_escreve imprime, brancos⟩) others (i + 1)
      · refine Or.inr ⟨alem.percorre letras un i plano, vazia.recebeTexto plano ?_, ?_⟩
        · exact fun other member => brancos other (List.mem_append_left _ member)
        · exact fun other member => brancos other (List.mem_append_right _ member)

/-- What the terminals show after every part of a text is the same only when the text is received
without loss. -/
theorem Junto.semPerda {r : Referencia} {rest : Str} {t : Terminal} (junto : Junto t r)
    (plano : ∀ ch ∈ rest, Plano ch) (un : ℕ → Bool) (i : ℕ)
    (shown : ∀ front, front <+: rest →
      (final (percorre letras un i t front)).Mostra (r.recebeTexto front)) : SemPerda r rest := by
  induction rest generalizing r t i with
  | nil => trivial
  | cons ch rest ih =>
      obtain ⟨here, others⟩ := List.forall_mem_cons.mp plano
      obtain ⟨later, next, step⟩ := junto.passo here
      have after : ∀ front, front <+: rest →
          (final (percorre letras un (i + 1) later front)).Mostra
            ((r.recebe ch).recebeTexto front) := by
        intro front inside
        rw [← percorre_cons letras un i junto.estado next]
        exact shown (ch :: front) ((List.prefix_append_right_inj [ch]).mpr inside)
      have now : later.Mostra (r.recebe ch) := after [] List.nil_prefix
      rcases step with ⟨inside, goes, shown⟩ | ⟨ultima, shown, below⟩
      · exact ⟨shown.mp now, fun imprime line column => (inside ⟨imprime, line, column⟩).elim,
          ih (goes now) others (i + 1) after⟩
      · have blank := shown.mp now
        have alem := below blank
        have vazia := blank.of_escreve ultima.1
        have brancos := vazia.brancos others fun front inside =>
          (Mostra.vazia (alem.percorre letras un (i + 1) fun other member =>
            others other (inside.subset member))).mp (after front inside)
        refine ⟨fun feed => ?_, fun _ _ _ => ⟨blank, brancos⟩, vazia.semPerda others brancos⟩
        exact (ultima.1.other.2.1 feed).elim

/-- A new terminal stands with a cleared reference. -/
theorem junto_novo : Junto novo Referencia.limpa := ⟨rfl, rfl, rfl, fun _ _ _ => rfl⟩

/-- A terminal that starts a message stays in its place. -/
theorem Situado.inicia {r : Referencia} {rest : Str} {t : Terminal} (situado : Situado r rest t) :
    Situado r rest t.inicia := by
  rcases situado with ⟨⟨estado, lin, col, mostra⟩, semPerda⟩ | ⟨⟨estado, lin, col, vazia⟩, others⟩
  · exact Or.inl ⟨⟨estado, lin, col, mostra⟩, semPerda⟩
  · exact Or.inr ⟨⟨estado, lin, col, vazia⟩, others⟩

/-- Painting the screen changes no character. -/
theorem Situado.pintado {bits : BitVec 32} {r : Referencia} {rest : Str} {t later : Terminal}
    (situado : Situado r rest t) (marks : SoBits bits t later) : Situado r rest later := by
  obtain ⟨same, sem⟩ := marks
  have dado : ∀ i j, (later.tela i j).dado = (t.tela i j).dado := by
    intro i j
    have cell := congrArg Celula.dado (sem i j)
    exact cell
  rw [same]
  rcases situado with ⟨⟨estado, lin, col, mostra⟩, semPerda⟩ | ⟨⟨estado, lin, col, vazia⟩, others⟩
  · exact Or.inl ⟨⟨estado, lin, col, fun i j place => (dado i j).trans (mostra i j place)⟩,
      semPerda⟩
  · exact Or.inr ⟨⟨estado, lin, col, fun i j place => (dado i j).trans (vazia i j place)⟩, others⟩

/-- The buffers of a text that is received without loss. -/
theorem situado_recebe {bits : BitVec 32} {s : Str} (plano : ∀ ch ∈ s, Plano ch)
    (semPerda : SemPerda Referencia.limpa s) {buffers : List (List Octet)} {t : Terminal}
    (host : ∀ buffer ∈ buffers, ¬ lit "SUPORTE:" <+: decodeUtf8 buffer)
    (run : Recebe letras bits buffers t) : ∀ rest, (buffers.map decodeUtf8).flatten ++ rest = s →
      Situado (Referencia.limpa.recebeTexto (buffers.map decodeUtf8).flatten) rest t := by
  induction run with
  | nada =>
      intro rest whole
      exact Or.inl ⟨junto_novo, by rw [← whole] at semPerda; exact semPerda⟩
  | @buffer buffers buffer t later _ marks ih =>
      intro rest whole
      rw [List.map_append, List.flatten_append, List.map_singleton,
        List.flatten_singleton] at whole ⊢
      have before := ih (fun other member => host other (List.mem_append_left _ member))
        (decodeUtf8 buffer ++ rest) (by rw [← whole, List.append_assoc])
      have text : ∀ ch ∈ decodeUtf8 buffer, Plano ch := by
        intro ch member
        refine plano ch ?_
        rw [← whole]
        exact List.mem_append_left _ (List.mem_append_right _ member)
      have shown := host buffer (List.mem_append_right _ (List.mem_singleton.mpr rfl))
      have whole_buffer : t.atualiza letras buffer =
          percorre letras (segueUn buffer (decodeUtf8 buffer).length) 0 t.inicia
            (decodeUtf8 buffer) :=
        if_neg fun first => shown (List.isPrefixOf_iff_prefix.mp first)
      rw [whole_buffer] at marks
      have after := before.inicia.percorre letras text
        (segueUn buffer (decodeUtf8 buffer).length) 0
      rw [Referencia.recebeTexto, List.foldl_append]
      exact after.pintado marks

end Text

/-- The terminal shows a plain text as the reference terminal does just when the text is received
without loss. -/
theorem fiel_iff (letras : CodeUnit → Bool) (bits : BitVec 32) {s : Str}
    (plano : ∀ ch ∈ s, Plano ch) : Fiel letras bits s ↔ SemPerda Referencia.limpa s := by
  constructor
  · intro fiel
    exact Junto.semPerda letras ⟨rfl, rfl, rfl, fun _ _ _ => rfl⟩ plano (fun _ => false) 0
      fun front inside => fiel.caracteres _ front inside
  · intro semPerda
    refine ⟨fun buffers t inside host run => ?_, fun un front inside => ?_⟩
    · obtain ⟨rest, whole⟩ := inside
      exact (situado_recebe letras plano semPerda host run rest whole).mostra
    · obtain ⟨rest, rfl⟩ := inside
      have start : Situado Referencia.limpa (front ++ rest) novo.inicia :=
        Situado.inicia (Or.inl ⟨junto_novo, semPerda⟩)
      exact (start.percorre letras (fun ch member => plano ch (List.mem_append_left _ member))
        un 0).mostra

/-- A letter and the end of its line. -/
theorem fiel_line : Fiel (fun _ => false) 0 [65, 13, 10] := by
  have plano : ∀ ch ∈ ([65, 13, 10] : Str), Plano ch := by
    have letter : Imprime 65 := by decide
    simp [Plano, letter]
  refine (fiel_iff _ _ plano).mpr ⟨?_, ?_, ⟨?_, ?_, ⟨?_, ?_, trivial⟩⟩⟩
  all_goals intro _ line
  all_goals exact absurd line (by decide)

/-- What is left of a text without loss has no loss. -/
theorem SemPerda.rest {r : Referencia} {front rest : Str} (semPerda : SemPerda r (front ++ rest)) :
    SemPerda (r.recebeTexto front) rest := by
  induction front generalizing r with
  | nil => exact semPerda
  | cons ch front ih => exact ih semPerda.2.2

/-- A letter in the first line and line feeds below it. The last one leaves the letter, whose
column is left of the cursor, where it is. -/
theorem fiel_fails : ¬ ∀ letras bits (s : Str), (∀ ch ∈ s, Plano ch) → Fiel letras bits s := by
  intro claimed
  have letter : Imprime 65 := by decide
  have plano : ∀ ch ∈ (65 :: List.replicate 24 10 ++ [10] : Str), Plano ch := by
    intro ch member
    rcases List.mem_cons.mp member with rfl | feed
    · exact Or.inr (Or.inr letter)
    · refine Or.inr (Or.inl ?_)
      rcases List.mem_append.mp feed with feed | feed
      · exact List.eq_of_mem_replicate feed
      · exact List.mem_singleton.mp feed
  have fiel := claimed (fun _ => false) 0 _ plano
  have semPerda := Junto.semPerda (fun _ => false) (⟨rfl, rfl, rfl, fun _ _ _ => rfl⟩ :
    Junto novo.inicia Referencia.limpa) plano (fun _ => false) 0
      fun front inside => fiel.caracteres _ front inside
  have left := semPerda.rest.1 rfl (by decide +kernel) 0 0 (by decide) (by decide +kernel)
  exact absurd left (by decide +kernel)

end Terminal

end Pqfh
