import Pqfh.Terminal.Alike
import Pqfh.Terminal.Bounds

/-! # What a character does off the screen

When the cursor is not on the screen, a character may throw an exception, or do nothing. Both are
told by the state before it: `Lanca` says when it throws, and `Inerte` when it leaves the matrices,
the cursor, the attributes and the parser as they are.
-/

namespace Pqfh

open Abrupt (Keeps Raises final not_raises_ok raises_bind_error raises_bind_iff raises_bind_ok
  raises_error raises_ite)
open Java (CodeUnit Str int lit unit)

namespace Terminal

/-! ## The loops that write a line -/

/-- A line is written from a column on. -/
def linha (t : Terminal) (i first : ℤ) (valor : ℤ → Celula) : Terminal :=
  { t with tela := fun a b => if a = i ∧ first ≤ b ∧ b < 80 then valor b else t.tela a b }

/-- No cell of a line is set from a column beyond the screen on. -/
theorem linha_empty (t : Terminal) (i : ℤ) {first : ℤ} (beyond : 80 ≤ first) (valor : ℤ → Celula) :
    t.linha i first valor = t := by
  have same : (fun a b => if a = i ∧ first ≤ b ∧ b < 80 then valor b else t.tela a b) = t.tela := by
    funext a b
    exact if_neg (by omega)
  unfold linha
  rw [same]

/-- The cells of a line from a column on are that cell and those behind it. -/
theorem linha_set (t : Terminal) (i : ℤ) {first : ℤ} (below : first < 80) (valor : ℤ → Celula) :
    (t.set i first (valor first)).linha i (first + 1) valor = t.linha i first valor := by
  unfold linha set
  congr 1
  funext a b
  dsimp only
  by_cases later : a = i ∧ first + 1 ≤ b ∧ b < 80
  · rw [if_pos later, if_pos (by omega)]
  · rw [if_neg later]
    by_cases here : a = i ∧ b = first
    · rw [if_pos here, if_pos (by omega), here.2]
    · rw [if_neg here, if_neg (by omega)]

/-- No line lies between bounds that are in the wrong order. -/
theorem faixa_empty {first stop : ℤ} (beyond : stop ≤ first) : faixa first stop = [] := by
  unfold faixa
  rw [Int.toNat_of_nonpos (by omega)]
  rfl

/-- The loop writes the line, when its first place is on the screen. -/
theorem foldlM_linha {i : ℤ} (valor : Terminal → ℤ → Celula)
    (stable : ∀ s j celula, valor (s.set i j celula) = valor s) :
    ∀ (n : ℕ) (t : Terminal) (first : ℤ), (80 - first).toNat = n →
      (first < 80 → NaTela i first) →
      (faixa first 80).foldlM (fun t j => t.grava i j (valor t j)) t =
        .ok (t.linha i first (valor t)) := by
  intro n
  induction n with
  | zero =>
      intro t first size _
      rw [faixa_empty (by omega), linha_empty t i (by omega)]
      rfl
  | succ n ih =>
      intro t first size inside
      have below : first < 80 := by omega
      have here := inside below
      have written : t.grava i first (valor t first) = .ok (t.set i first (valor t first)) :=
        if_pos here
      rw [faixa_cons below, List.foldlM_cons, written]
      have rest := ih (t.set i first (valor t first)) (first + 1) (by omega)
        fun more => ⟨here.1, here.2.1, by have := here.2.2.1; omega, more⟩
      rw [stable, linha_set t i below] at rest
      exact rest

/-- It throws at once when its first place is not. -/
theorem foldlM_linha_error {i first : ℤ} (valor : Terminal → ℤ → Celula) {t : Terminal}
    (below : first < 80) (outside : ¬ NaTela i first) :
    (faixa first 80).foldlM (fun t j => t.grava i j (valor t j)) t = .error t := by
  have written : t.grava i first (valor t first) = .error t := if_neg outside
  rw [faixa_cons below, List.foldlM_cons, written]
  rfl

/-- The loop that clears a line. -/
theorem limpaLinha_eq (t : Terminal) {first i : ℤ} (inside : first < 80 → NaTela i first) :
    t.limpaLinha first i = .ok (t.linha i first fun _ => t.celula (unit ' ')) :=
  foldlM_linha (fun t _ => t.celula (unit ' ')) (fun _ _ _ => rfl) _ t first rfl inside

/-- The first cell outside of the screen stops the clearing of a line. -/
theorem limpaLinha_error (t : Terminal) {first i : ℤ} (below : first < 80)
    (outside : ¬ NaTela i first) : t.limpaLinha first i = .error t :=
  foldlM_linha_error (fun t _ => t.celula (unit ' ')) below outside

/-- The inner loop of `scroll`. -/
theorem sobe_eq (t : Terminal) {first i : ℤ} (inside : first < 80 → NaTela i first) :
    (faixa first 80).foldlM (sobe i) t = .ok (t.linha i first fun j => t.tela (i + 1) j) := by
  refine foldlM_linha (fun t j => t.tela (i + 1) j) (fun s j celula => ?_) _ t first rfl inside
  funext k
  exact if_neg fun here => by omega

/-- The lines from a line to the last but one move up, from a column on. -/
def sobem (t : Terminal) (first col : ℤ) : Terminal :=
  { t with tela := fun a b =>
      if first ≤ a ∧ a < 24 ∧ col ≤ b ∧ b < 80 then t.tela (a + 1) b else t.tela a b }

/-- Lines are moved up one after the other. -/
theorem sobem_linha (t : Terminal) {i : ℤ} (below : i < 24) (col : ℤ) :
    (t.linha i col fun j => t.tela (i + 1) j).sobem (i + 1) col = t.sobem i col := by
  unfold sobem linha
  congr 1
  funext a b
  dsimp only
  by_cases here : a = i
  · subst here
    rw [if_neg (by omega)]
    by_cases column : col ≤ b ∧ b < 80
    · rw [if_pos ⟨rfl, column⟩, if_pos ⟨le_rfl, below, column⟩]
    · rw [if_neg fun inside => column inside.2, if_neg fun inside => column inside.2.2]
  · by_cases later : i + 1 ≤ a ∧ a < 24 ∧ col ≤ b ∧ b < 80
    · rw [if_pos later, if_neg (by omega), if_pos (by omega)]
    · rw [if_neg later, if_neg fun inside => here inside.1, if_neg (by omega)]

/-- The outer loop of `scroll`, from a line on. -/
theorem foldlM_sobem {col : ℤ} (column : 0 ≤ col) :
    ∀ (n : ℕ) (t : Terminal) (i : ℤ), t.col = col → 0 ≤ i → (24 - i).toNat = n →
      (faixa i 24).foldlM (fun t i => (faixa t.col 80).foldlM (sobe i) t) t =
        .ok (t.sobem i col) := by
  intro n
  induction n with
  | zero =>
      intro t i _ _ size
      have same : (fun a b => if i ≤ a ∧ a < 24 ∧ col ≤ b ∧ b < 80 then t.tela (a + 1) b
          else t.tela a b) = t.tela := by
        funext a b
        exact if_neg (by omega)
      rw [faixa_empty (by omega), sobem, same]
      rfl
  | succ n ih =>
      intro t i here line size
      have below : i < 24 := by omega
      have written := @sobe_eq t t.col i
        fun below => ⟨line, by omega, here ▸ column, below⟩
      rw [faixa_cons below, List.foldlM_cons, written, here]
      have rest := ih (t.linha i col fun j => t.tela (i + 1) j) (i + 1) here (by omega) (by omega)
      rw [sobem_linha t below] at rest
      exact rest

/-- `scroll`, with the cursor not to the left of the screen. -/
theorem scroll_eq (t : Terminal) (column : 0 ≤ t.col) :
    t.scroll = .ok ((t.sobem 0 t.col).linha 24 t.col fun _ => t.celula (unit ' ')) := by
  unfold scroll
  rw [foldlM_sobem column _ t 0 rfl le_rfl rfl]
  exact limpaLinha_eq (t.sobem 0 t.col) fun below => ⟨by decide, by decide, column, below⟩

/-- A column below 0 stops a scroll at once. -/
theorem scroll_error (t : Terminal) (left : t.col < 0) : t.scroll = .error t := by
  have line : (faixa t.col 80).foldlM (sobe 0) t = .error t :=
    foldlM_linha_error (fun t j => t.tela (0 + 1) j) (by omega)
      fun inside => by have := inside.2.2.1; omega
  unfold scroll
  rw [faixa_cons (by decide), List.foldlM_cons, line]
  rfl

/-! ## When a character throws -/

/-- The cursor is on a column of the screen, or to the left of it, but not on the screen. -/
def Fora (t : Terminal) : Prop := t.col < 80 ∧ ¬ NaTela t.lin t.col

/-- A command throws an exception. -/
def LancaComando (t : Terminal) (prms : Str) (ch : CodeUnit) : Prop :=
  if ch = unit 'A' then 0 < t.lin ∧ quantos prms = none
  else if ch = unit 'B' then t.lin < 24 ∧ quantos prms = none
  else if ch = unit 'C' then quantos prms = none
  else if ch = unit 'D' then quantos prms = none
  else if ch = unit 'H' then unit ';' ∈ prms ∧
    (coordenada (Java.split prms (unit ';')) 0 = none ∨
      coordenada (Java.split prms (unit ';')) 1 = none)
  else if ch = unit 'J' then prms ≠ lit "2" ∧ (t.Fora ∨ int (t.lin + 1) < 0)
  else if ch = unit 'K' then t.Fora
  else False

instance (t : Terminal) : Decidable t.Fora :=
  inferInstanceAs (Decidable (t.col < 80 ∧ ¬ NaTela t.lin t.col))

instance (t : Terminal) (prms : Str) (ch : CodeUnit) : Decidable (t.LancaComando prms ch) := by
  delta LancaComando
  infer_instance

section Commands

variable {t : Terminal} {prms : Str}

/-- A move up raises just when a line is asked for by something that is no number. -/
theorem raises_cursorUp : Raises (t.cursorUp prms) ↔ 0 < t.lin ∧ quantos prms = none := by
  unfold cursorUp
  split
  · cases quantos prms with
    | none => exact ⟨fun _ => ⟨‹_›, rfl⟩, fun _ => raises_error t⟩
    | some n => exact ⟨fun raises => (not_raises_ok raises).elim, fun none => by cases none.2⟩
  · exact ⟨fun raises => (not_raises_ok raises).elim, fun none => absurd none.1 ‹_›⟩

/-- A move down raises just when a line is asked for by something that is no number. -/
theorem raises_cursorDown : Raises (t.cursorDown prms) ↔ t.lin < 24 ∧ quantos prms = none := by
  unfold cursorDown
  split
  · cases quantos prms with
    | none => exact ⟨fun _ => ⟨‹_›, rfl⟩, fun _ => raises_error t⟩
    | some n => exact ⟨fun raises => (not_raises_ok raises).elim, fun none => by cases none.2⟩
  · exact ⟨fun raises => (not_raises_ok raises).elim, fun none => absurd none.1 ‹_›⟩

/-- A move to the right raises just when the parameters are no number. -/
theorem raises_cursorForward : Raises (t.cursorForward prms) ↔ quantos prms = none := by
  unfold cursorForward
  cases quantos prms with
  | none => exact ⟨fun _ => rfl, fun _ => raises_error t⟩
  | some n => exact ⟨fun raises => (not_raises_ok raises).elim, fun none => by cases none⟩

/-- A move to the left raises just when the parameters are no number. -/
theorem raises_cursorBackward : Raises (t.cursorBackward prms) ↔ quantos prms = none := by
  unfold cursorBackward
  cases quantos prms with
  | none => exact ⟨fun _ => rfl, fun _ => raises_error t⟩
  | some n => exact ⟨fun raises => (not_raises_ok raises).elim, fun none => by cases none⟩

/-- A jump raises just when one of its two coordinates is no number. -/
theorem raises_home : Raises (t.home prms) ↔ unit ';' ∈ prms ∧
    (coordenada (Java.split prms (unit ';')) 0 = none ∨
      coordenada (Java.split prms (unit ';')) 1 = none) := by
  unfold home
  split
  · dsimp only
    cases coordenada (Java.split prms (unit ';')) 0 with
    | none => exact ⟨fun _ => ⟨‹_›, Or.inl rfl⟩, fun _ => raises_error t⟩
    | some lin =>
        cases coordenada (Java.split prms (unit ';')) 1 with
        | none => exact ⟨fun _ => ⟨‹_›, Or.inr rfl⟩, fun _ => raises_error _⟩
        | some col =>
            refine ⟨fun raises => (not_raises_ok raises).elim, fun none => ?_⟩
            rcases none.2 with first | second
            · cases first
            · cases second
  · exact ⟨fun raises => (not_raises_ok raises).elim, fun none => absurd none.1 ‹_›⟩

/-- Clearing a line raises just when the cursor is where it cannot clear. -/
theorem raises_el : Raises t.el ↔ t.Fora := by
  unfold el
  by_cases outside : t.Fora
  · rw [limpaLinha_error t outside.1 outside.2]
    exact ⟨fun _ => outside, fun _ => raises_error t⟩
  · rw [limpaLinha_eq t fun below => not_not.mp fun out => outside ⟨below, out⟩]
    exact ⟨fun raises => (not_raises_ok raises).elim, fun out => absurd out outside⟩

/-- The lines that `clear` clears below the cursor. -/
theorem limpaLinhas_eq :
    ∀ (n : ℕ) (t : Terminal) (i : ℤ), 0 ≤ i → (25 - i).toNat = n →
      ∃ later, (faixa i 25).foldlM (limpaLinha 0) t = .ok later ∧ t.SoTela later := by
  intro n
  induction n with
  | zero =>
      intro t i _ size
      rw [faixa_empty (by omega)]
      exact ⟨t, rfl, rfl⟩
  | succ n ih =>
      intro t i line size
      have cleared := @limpaLinha_eq t 0 i
        fun _ => ⟨line, by omega, le_rfl, by decide⟩
      rw [faixa_cons (by omega), List.foldlM_cons, cleared]
      obtain ⟨later, rest, same⟩ := ih (t.linha i 0 fun _ => t.celula (unit ' ')) (i + 1) (by omega)
        (by omega)
      refine ⟨later, rest, ?_⟩
      unfold SoTela at same ⊢
      rw [same]
      rfl

/-- What `clear` does after it has gone home or not. -/
def limpaDaqui (x : ℤ) (first : Terminal) : Resultado := do
  let line ← first.limpaLinha first.col first.lin
  let later ← (faixa (int (line.lin + 1)) 25).foldlM (limpaLinha 0) line
  .ok ((later.alteraRegiao (if int (line.lin + 1) < 25 then 0 else x) (-1)).alteraRegiao 79 24)

/-- Clearing to the end raises for the same cursor, or when the next line wraps. -/
theorem raises_limpaDaqui (x : ℤ) :
    Raises (t.limpaDaqui x) ↔ t.Fora ∨ int (t.lin + 1) < 0 := by
  unfold limpaDaqui
  by_cases outside : t.Fora
  · exact ⟨fun _ => Or.inl outside, fun _ =>
      raises_bind_error (limpaLinha_error t outside.1 outside.2) _⟩
  have line := limpaLinha_eq t fun below => not_not.mp fun out => outside ⟨below, out⟩
  rw [raises_bind_ok line]
  by_cases above : int (t.lin + 1) < 0
  · have first := @limpaLinha_error (t.linha t.lin t.col fun _ => t.celula (unit ' ')) 0
      (int (t.lin + 1)) (by decide) fun inside => by have := inside.1; omega
    have stops : (faixa (int (t.lin + 1)) 25).foldlM (limpaLinha 0)
        (t.linha t.lin t.col fun _ => t.celula (unit ' ')) =
          .error (t.linha t.lin t.col fun _ => t.celula (unit ' ')) := by
      rw [faixa_cons (by omega), List.foldlM_cons, first]
      rfl
    exact ⟨fun _ => Or.inr above, fun _ => raises_bind_error stops _⟩
  · obtain ⟨later, rest, _⟩ := limpaLinhas_eq _
      (t.linha t.lin t.col fun _ => t.celula (unit ' ')) (int (t.lin + 1)) (by omega) rfl
    refine (raises_bind_ok rest _).trans ?_
    exact ⟨fun raises => (not_raises_ok raises).elim, fun out => (out.elim outside above).elim⟩

/-- Clearing the whole screen is clearing from the first place on. -/
theorem clear_eq (t : Terminal) (prms : Str) :
    t.clear prms = (if prms = lit "2" then t.home [] else .ok t) >>= limpaDaqui t.col := rfl

/-- It raises just when only a part is cleared, from where it cannot be. -/
theorem raises_clear :
    Raises (t.clear prms) ↔ prms ≠ lit "2" ∧ (t.Fora ∨ int (t.lin + 1) < 0) := by
  by_cases whole : prms = lit "2"
  · have home : t.home [] = .ok ({ t with lin := 0, col := 0 }.alteraRegiao (-1) (-1)) :=
      if_neg List.not_mem_nil
    rw [clear_eq, if_pos whole, raises_bind_ok home, raises_limpaDaqui]
    refine ⟨fun out => ?_, fun other => absurd whole other.1⟩
    rcases out with ⟨_, outside⟩ | above
    · exact (outside (show NaTela 0 0 by decide)).elim
    · exact absurd above (show ¬ int (0 + 1) < 0 by decide)
  · rw [clear_eq, if_neg whole, raises_bind_ok rfl, raises_limpaDaqui]
    exact ⟨fun out => ⟨whole, out⟩, fun out => out.2⟩

/-- A command raises just on the condition `LancaComando`. -/
theorem raises_comando {ch : CodeUnit} :
    Raises (t.comando prms ch) ↔ t.LancaComando prms ch := by
  unfold comando LancaComando
  refine raises_ite (fun _ => raises_cursorUp) fun _ => ?_
  refine raises_ite (fun _ => raises_cursorDown) fun _ => ?_
  refine raises_ite (fun _ => raises_cursorForward) fun _ => ?_
  refine raises_ite (fun _ => raises_cursorBackward) fun _ => ?_
  refine raises_ite (fun _ => raises_home) fun _ => ?_
  refine raises_ite (fun _ => raises_clear) fun _ => ?_
  refine raises_ite (fun _ => raises_el) fun _ => ?_
  split
  all_goals exact ⟨fun raises => not_raises_ok raises, False.elim⟩

end Commands

/-- A character throws an exception in the initial state. -/
def LancaTexto (t : Terminal) (ch : CodeUnit) : Prop :=
  if ch = 13 then False
  else if ch = 10 then 24 ≤ t.lin ∧ t.col < 0
  else if ch = 8 then 0 < t.col ∧ ¬ NaTela t.lin (t.col - 1)
  else if ch = 27 then False
  else if ch = 7 then False
  else ¬ NaTela t.lin t.col

/-- A character throws an exception. -/
def Lanca (letras : CodeUnit → Bool) (t : Terminal) (ch : CodeUnit) : Prop :=
  match t.estado with
  | .inicial => t.LancaTexto ch
  | .esc =>
      256 ≤ t.iseq ∨ (alfabetico letras ch = true ∧
        ∃ prms, parametros (t.seq ++ [ch]) = some prms ∧ t.LancaComando prms ch)
  | .exec => 256 ≤ t.iseq

instance (t : Terminal) (ch : CodeUnit) : Decidable (t.LancaTexto ch) := by
  delta LancaTexto
  infer_instance

instance (letras : CodeUnit → Bool) (t : Terminal) (ch : CodeUnit) :
    Decidable (t.Lanca letras ch) :=
  match estado : t.estado with
  | .inicial => decidable_of_iff (t.LancaTexto ch) (by unfold Lanca; rw [estado])
  | .esc => decidable_of_iff (256 ≤ t.iseq ∨ (alfabetico letras ch = true ∧
      ∃ prms ∈ parametros (t.seq ++ [ch]), t.LancaComando prms ch))
      (by unfold Lanca; rw [estado]; rfl)
  | .exec => decidable_of_iff (256 ≤ t.iseq) (by unfold Lanca; rw [estado])

section Characters

variable {t : Terminal} {ch : CodeUnit}

/-- A cell on the screen is written. -/
theorem grava_eq {i j : ℤ} {celula : Celula} (inside : NaTela i j) :
    t.grava i j celula = .ok (t.set i j celula) := if_pos inside

/-- A cell outside of it raises. -/
theorem grava_error {i j : ℤ} {celula : Celula} (outside : ¬ NaTela i j) :
    t.grava i j celula = .error t := if_neg outside

/-- A line feed raises just in the last line, with a column below 0. -/
theorem raises_avanca : Raises t.avanca ↔ 24 ≤ t.lin ∧ t.col < 0 := by
  unfold avanca
  by_cases room : t.lin < 24
  · rw [if_pos room]
    exact ⟨fun raises => (not_raises_ok raises).elim, fun last => by omega⟩
  · rw [if_neg room]
    by_cases left : t.col < 0
    · exact ⟨fun _ => ⟨not_lt.mp room, left⟩, fun _ => raises_bind_error (scroll_error t left) _⟩
    · rw [raises_bind_ok (scroll_eq t (not_lt.mp left))]
      exact ⟨fun raises => (not_raises_ok raises).elim, fun out => absurd out.2 left⟩

/-- A backspace raises just when the cell before the cursor is outside. -/
theorem raises_volta : Raises t.volta ↔ 0 < t.col ∧ ¬ NaTela t.lin (t.col - 1) := by
  unfold volta
  by_cases right : 0 < t.col
  · rw [if_pos right]
    by_cases inside : NaTela t.lin (t.col - 1)
    · refine (raises_bind_ok (grava_eq inside) _).trans ?_
      exact ⟨fun raises => (not_raises_ok raises).elim, fun out => absurd inside out.2⟩
    · exact ⟨fun _ => ⟨right, inside⟩, fun _ => raises_bind_error (grava_error inside) _⟩
  · rw [if_neg right]
    exact ⟨fun raises => (not_raises_ok raises).elim, fun out => absurd out.1 right⟩

/-- A character raises just when the cursor is outside. -/
theorem raises_mostraCaractere : Raises (t.mostraCaractere ch) ↔ ¬ NaTela t.lin t.col := by
  unfold mostraCaractere
  by_cases inside : NaTela t.lin t.col
  · refine (raises_bind_ok (grava_eq inside) _).trans ?_
    refine ⟨fun raises => ?_, fun outside => absurd inside outside⟩
    split at raises
    · exact (not_raises_ok raises).elim
    · exact (not_raises_ok raises).elim
  · exact ⟨fun _ => inside, fun _ => raises_bind_error (grava_error inside) _⟩

/-- A character of a sequence raises just when the buffer is full. -/
theorem raises_acumula : Raises (t.acumula ch) ↔ 256 ≤ t.iseq := by
  unfold acumula
  dsimp only
  split
  · exact ⟨fun raises => (not_raises_ok raises).elim, fun full => by omega⟩
  · exact ⟨fun _ => by omega, fun _ => raises_error _⟩

/-- Before that it is put behind the others. -/
theorem acumula_eq (room : ¬ 256 ≤ t.iseq) :
    t.acumula ch = .ok { t with iseq := t.iseq + 1, seq := t.seq ++ [ch] } :=
  if_pos (not_le.mp room)

/-- A character of a text raises just on the condition `LancaTexto`. -/
theorem raises_texto : Raises (t.texto ch) ↔ t.LancaTexto ch := by
  unfold texto LancaTexto
  refine raises_ite (fun _ => ⟨fun raises => not_raises_ok raises, False.elim⟩) fun _ => ?_
  refine raises_ite (fun _ => raises_avanca) fun _ => ?_
  refine raises_ite (fun _ => raises_volta) fun _ => ?_
  refine raises_ite (fun _ => ⟨fun raises => not_raises_ok raises, False.elim⟩) fun _ => ?_
  refine raises_ite (fun _ => ⟨fun raises => not_raises_ok raises, False.elim⟩) fun _ => ?_
  exact raises_mostraCaractere

/-- A character of a sequence ends it when it is a letter. -/
theorem escape_eq (letras : CodeUnit → Bool) (un : Bool) (room : ¬ 256 ≤ t.iseq) :
    escape letras un t ch =
      if alfabetico letras ch = true then
        encerra un { t with iseq := t.iseq + 1, seq := t.seq ++ [ch] } ch
      else .ok { t with iseq := t.iseq + 1, seq := t.seq ++ [ch] } := by
  unfold escape
  rw [acumula_eq room]
  rfl

/-- It raises when the buffer is full, or when the command of the sequence does. -/
theorem raises_escape (letras : CodeUnit → Bool) (un : Bool) :
    Raises (escape letras un t ch) ↔ 256 ≤ t.iseq ∨ (alfabetico letras ch = true ∧
      ∃ prms, parametros (t.seq ++ [ch]) = some prms ∧ t.LancaComando prms ch) := by
  by_cases full : 256 ≤ t.iseq
  · obtain ⟨s, stopped⟩ := raises_acumula.mpr full
    exact ⟨fun _ => Or.inl full, fun _ => raises_bind_error stopped _⟩
  rw [escape_eq letras un full]
  by_cases last : alfabetico letras ch = true
  · rw [if_pos last]
    have other : ch ≠ unit '[' := by
      rintro rfl
      rw [not_alfabetico_bracket] at last
      cases last
    obtain ⟨prms, here⟩ := @exists_parametros t.seq ch other
    have only : Raises (encerra un { t with iseq := t.iseq + 1, seq := t.seq ++ [ch] } ch) ↔
        Raises (processaSeq { t with iseq := t.iseq + 1, seq := t.seq ++ [ch] } ch) := by
      refine raises_bind_iff fun s raises => ?_
      split at raises
      · exact not_raises_ok raises
      · exact not_raises_ok raises
    have command : Raises (processaSeq { t with iseq := t.iseq + 1, seq := t.seq ++ [ch] } ch) ↔
        t.LancaComando prms ch := by
      unfold processaSeq
      dsimp only
      rw [here]
      exact raises_comando
    rw [only, command]
    constructor
    · exact fun throws => Or.inr ⟨last, prms, here, throws⟩
    · rintro (more | ⟨_, prms', same, throws⟩)
      · exact absurd more full
      · cases here.symm.trans same
        exact throws
  · rw [if_neg last]
    exact ⟨fun raises => (not_raises_ok raises).elim,
      fun out => (out.elim full fun throws => last throws.1).elim⟩

/-- A character of a command to be executed raises just when the buffer is full. -/
theorem raises_comandoExec : Raises (t.comandoExec ch) ↔ 256 ≤ t.iseq := by
  unfold comandoExec
  rw [raises_bind_iff fun s raises => not_raises_ok raises]
  exact raises_acumula

/-- A character throws just when the state before it says so. -/
theorem raises_caractere (letras : CodeUnit → Bool) (un : Bool) :
    Raises (caractere letras un t ch) ↔ t.Lanca letras ch := by
  unfold caractere Lanca
  cases t.estado with
  | inicial => exact raises_texto
  | esc => exact raises_escape letras un
  | exec => exact raises_comandoExec

end Characters

/-! ## What commands leave alone -/

/-- The parser is where it was. -/
def MesmoParser (t later : Terminal) : Prop :=
  later.estado = t.estado ∧ later.seq = t.seq ∧ later.iseq = t.iseq

/-- Nothing done leaves the sequence as it is. -/
theorem MesmoParser.refl (t : Terminal) : t.MesmoParser t := ⟨rfl, rfl, rfl⟩

section Parser

variable {t s : Terminal} (same : t.MesmoParser s)

include same

/-- A cell that is written leaves the sequence as it is. -/
theorem grava_keepsParser (i j : ℤ) (celula : Celula) :
    Keeps False t.MesmoParser (s.grava i j celula) := by
  unfold grava
  split
  · exact Keeps.of_ok same
  · exact Keeps.of_error same not_false

/-- A line that is cleared leaves the sequence as it is. -/
theorem limpaLinha_keepsParser (first i : ℤ) : Keeps False t.MesmoParser (s.limpaLinha first i) :=
  Keeps.foldlM (fun _ same j _ => grava_keepsParser same i j _) same

/-- A scroll leaves the sequence as it is. -/
theorem scroll_keepsParser : Keeps False t.MesmoParser s.scroll := by
  unfold scroll
  refine Keeps.bind (Keeps.foldlM (fun s same i _ => ?_) same) fun later same => ?_
  · exact Keeps.foldlM (fun s same j _ => grava_keepsParser same i j _) same
  · exact limpaLinha_keepsParser same _ _

/-- A move up leaves the sequence as it is. -/
theorem cursorUp_keepsParser (prms : Str) : Keeps False t.MesmoParser (s.cursorUp prms) := by
  unfold cursorUp
  split
  · cases quantos prms with
    | none => exact Keeps.of_error same not_false
    | some n => exact Keeps.of_ok same
  · exact Keeps.of_ok same

/-- A move down leaves the sequence as it is. -/
theorem cursorDown_keepsParser (prms : Str) : Keeps False t.MesmoParser (s.cursorDown prms) := by
  unfold cursorDown
  split
  · cases quantos prms with
    | none => exact Keeps.of_error same not_false
    | some n => exact Keeps.of_ok same
  · exact Keeps.of_ok same

/-- A move to the right leaves the sequence as it is. -/
theorem cursorForward_keepsParser (prms : Str) :
    Keeps False t.MesmoParser (s.cursorForward prms) := by
  unfold cursorForward
  cases quantos prms with
  | none => exact Keeps.of_error same not_false
  | some n => exact Keeps.of_ok same

/-- A move to the left leaves the sequence as it is. -/
theorem cursorBackward_keepsParser (prms : Str) :
    Keeps False t.MesmoParser (s.cursorBackward prms) := by
  unfold cursorBackward
  cases quantos prms with
  | none => exact Keeps.of_error same not_false
  | some n => exact Keeps.of_ok same

/-- A jump leaves the sequence as it is. -/
theorem home_keepsParser (prms : Str) : Keeps False t.MesmoParser (s.home prms) := by
  unfold home
  split
  · dsimp only
    cases coordenada (Java.split prms (unit ';')) 0 with
    | none => exact Keeps.of_error same not_false
    | some lin =>
        cases coordenada (Java.split prms (unit ';')) 1 with
        | none => exact Keeps.of_error same not_false
        | some col => exact Keeps.of_ok same
  · exact Keeps.of_ok same

/-- Clearing the screen leaves the sequence as it is. -/
theorem clear_keepsParser (prms : Str) : Keeps False t.MesmoParser (s.clear prms) := by
  have start : Keeps False t.MesmoParser (if prms = lit "2" then s.home [] else .ok s) := by
    split
    · exact home_keepsParser same []
    · exact Keeps.of_ok same
  rw [clear_eq]
  refine start.bind fun first same => ?_
  refine (limpaLinha_keepsParser same _ _).bind fun line same => ?_
  refine (Keeps.foldlM ?_ same).bind fun later same => Keeps.of_ok same
  exact fun s same i _ => limpaLinha_keepsParser same 0 i

/-- Clearing a line leaves the sequence as it is. -/
theorem el_keepsParser : Keeps False t.MesmoParser s.el :=
  (limpaLinha_keepsParser same _ _).bind fun _ same => Keeps.of_ok same

/-- Attributes that are set leave the sequence as it is. -/
theorem setaAtributos_keepsParser (seq : Str) : t.MesmoParser (s.setaAtributos seq) := by
  unfold setaAtributos
  generalize Java.split _ _ = atrs
  have start : t.MesmoParser (s, s.atributo).1 := same
  generalize (s, s.atributo) = now at start ⊢
  induction atrs generalizing now with
  | nil => exact start
  | cons atr atrs ih =>
      refine ih (aplica now atr) ?_
      unfold aplica
      split
      all_goals exact start

/-- A command leaves the parser where it is. -/
theorem processaSeq_keepsParser (ch : CodeUnit) : Keeps False t.MesmoParser (s.processaSeq ch) := by
  unfold processaSeq
  cases parametros s.seq with
  | none => exact Keeps.of_error same not_false
  | some prms =>
      dsimp only
      unfold comando
      split
      · exact cursorUp_keepsParser same prms
      split
      · exact cursorDown_keepsParser same prms
      split
      · exact cursorForward_keepsParser same prms
      split
      · exact cursorBackward_keepsParser same prms
      split
      · exact home_keepsParser same prms
      split
      · exact clear_keepsParser same prms
      split
      · exact el_keepsParser same
      split
      · exact Keeps.of_ok (setaAtributos_keepsParser same s.seq)
      · exact Keeps.of_ok same

end Parser

/-- A character of the text leaves the parser where it is, but for the one that begins a sequence.
-/
theorem texto_keepsParser {t : Terminal} {ch : CodeUnit} (plain : ch ≠ 27) :
    Keeps False t.MesmoParser (t.texto ch) := by
  have same := MesmoParser.refl t
  unfold texto
  split
  · exact Keeps.of_ok same
  split
  · unfold avanca
    split
    · exact Keeps.of_ok same
    · exact (scroll_keepsParser same).bind fun _ same => Keeps.of_ok same
  split
  · unfold volta
    split
    · have back : t.MesmoParser { t with col := t.col - 1 } := same
      exact (grava_keepsParser back _ _ _).bind fun _ same => Keeps.of_ok same
    · exact Keeps.of_ok same
  split
  · exact Keeps.of_ok same
  · unfold mostraCaractere
    refine (grava_keepsParser same _ _ _).bind fun later same => ?_
    split
    · exact Keeps.of_ok same
    · exact Keeps.of_ok same

/-! ## When a character does nothing -/

/-- What `scroll` would bring to a place. -/
def sobra (t : Terminal) (i j : ℤ) : Celula :=
  if i < 24 then t.tela (i + 1) j else t.celula (unit ' ')

/-- What `scroll` would bring to the screen is there already. -/
def Parada (bits : BitVec 32) (t : Terminal) : Prop :=
  ∀ i j, 0 ≤ i → i ≤ 24 → t.col ≤ j → j < 80 → (t.sobra i j).sem bits = (t.tela i j).sem bits

/-- A character leaves the matrices, the cursor, the attributes and the parser as they are. -/
def Inerte (bits : BitVec 32) (t : Terminal) (ch : CodeUnit) : Prop :=
  t.estado = .inicial ∧
    if ch = 13 then t.col = 0
    else if ch = 10 then 24 ≤ t.lin ∧ (0 ≤ t.col → t.Parada bits)
    else if ch = 8 then t.col ≤ 0
    else if ch = 27 then False
    else if ch = 7 then True
    else ¬ NaTela t.lin t.col

section Inerte

variable {bits : BitVec 32} {t : Terminal} {ch : CodeUnit}

/-- The rectangle is not compared. -/
theorem Igual.of_region (t : Terminal) (x y : ℤ) : t.Igual bits (t.alteraRegiao x y) :=
  ⟨rfl, fun _ _ => rfl⟩

/-- A carriage return changes nothing just in the first column. -/
theorem retorna_alike : t.Igual bits t.retorna ↔ t.col = 0 := by
  constructor
  · intro alike
    exact alike.fields.2.2.1.symm
  · intro first
    have same : { t with col := 0 } = t := by rw [← first]
    unfold retorna
    rw [same]
    exact Igual.of_region t 0 (-1)

/-- A line feed changes nothing just when a scroll would change nothing. -/
theorem avanca_same : t.Igual bits (final t.avanca) ↔ 24 ≤ t.lin ∧ (0 ≤ t.col → t.Parada bits) := by
  unfold avanca
  by_cases room : t.lin < 24
  · rw [if_pos room]
    constructor
    · intro alike
      have line : t.lin + 1 = t.lin := alike.fields.2.1
      omega
    · intro last
      omega
  rw [if_neg room]
  by_cases left : t.col < 0
  · rw [scroll_error t left]
    exact ⟨fun _ => ⟨not_lt.mp room, fun right => by omega⟩, fun _ => Igual.refl t⟩
  rw [scroll_eq t (not_lt.mp left)]
  have cells : ∀ i j, ((t.sobem 0 t.col).linha 24 t.col fun _ => t.celula (unit ' ')).tela i j =
      if 0 ≤ i ∧ i ≤ 24 ∧ t.col ≤ j ∧ j < 80 then t.sobra i j else t.tela i j := by
    intro i j
    unfold linha sobem sobra
    dsimp only
    by_cases inside : 0 ≤ i ∧ i ≤ 24 ∧ t.col ≤ j ∧ j < 80
    · rw [if_pos inside]
      by_cases last : i = 24
      · rw [if_pos ⟨last, inside.2.2⟩, if_neg (by omega)]
      · rw [if_neg fun here => last here.1, if_pos (by omega), if_pos (by omega)]
    · rw [if_neg inside, if_neg (by omega), if_neg (by omega)]
  constructor
  · intro alike
    refine ⟨not_lt.mp room, fun _ i j above below after before => ?_⟩
    have here := alike.2 i j
    change Celula.sem bits
      (((t.sobem 0 t.col).linha 24 t.col fun _ => t.celula (unit ' ')).tela i j) = _ at here
    rw [cells, if_pos ⟨above, below, after, before⟩] at here
    exact here
  · intro still
    refine ⟨rfl, fun i j => ?_⟩
    change Celula.sem bits
      (((t.sobem 0 t.col).linha 24 t.col fun _ => t.celula (unit ' ')).tela i j) = _
    rw [cells]
    split
    · rename_i inside
      exact still.2 (not_lt.mp left) i j inside.1 inside.2.1 inside.2.2.1 inside.2.2.2
    · rfl

/-- A backspace changes nothing just in the first column. -/
theorem volta_same : t.Igual bits (final t.volta) ↔ t.col ≤ 0 := by
  unfold volta
  by_cases right : 0 < t.col
  · rw [if_pos right]
    refine ⟨fun alike => ?_, fun left => by omega⟩
    dsimp only at alike
    by_cases inside : NaTela t.lin (t.col - 1)
    · rw [grava_eq inside] at alike
      have column : t.col - 1 = t.col := alike.fields.2.2.1
      omega
    · rw [grava_error inside] at alike
      have column : t.col - 1 = t.col := alike.fields.2.2.1
      omega
  · rw [if_neg right]
    exact ⟨fun _ => not_lt.mp right, fun _ => Igual.refl t⟩

/-- A character changes nothing just when it is outside of the screen. -/
theorem mostraCaractere_same :
    t.Igual bits (final (t.mostraCaractere ch)) ↔ ¬ NaTela t.lin t.col := by
  unfold mostraCaractere
  by_cases inside : NaTela t.lin t.col
  · rw [grava_eq inside]
    refine ⟨fun alike => ?_, fun outside => absurd inside outside⟩
    by_cases room : t.col < 79
    · have moved : Igual bits t ({ t.set t.lin t.col (t.celula ch) with
          col := t.col + 1 }.alteraRegiao (t.col + 1) (-1)) := by
        have taken := alike
        change Igual bits t (final (if t.col < 79 then _ else _)) at taken
        rw [if_pos room] at taken
        exact taken
      have column : t.col + 1 = t.col := moved.fields.2.2.1
      omega
    · have moved : Igual bits t ({ t.set t.lin t.col (t.celula ch) with
          col := 0, lin := t.lin + 1 }.alteraRegiao 0 (t.lin + 1)) := by
        have taken := alike
        change Igual bits t (final (if t.col < 79 then _ else _)) at taken
        rw [if_neg room] at taken
        exact taken
      have line : t.lin + 1 = t.lin := moved.fields.2.1
      omega
  · rw [grava_error inside]
    exact ⟨fun _ => inside, fun _ => Igual.refl t⟩

/-- A character of a command that is to be executed is counted. -/
theorem comandoExec_iseq : (final (t.comandoExec ch)).iseq = t.iseq + 1 := by
  unfold comandoExec acumula
  dsimp only
  split
  · change Terminal.iseq (if ch = unit '*' then _ else _) = _
    split
    · rfl
    · rfl
  · rfl

/-- A character of an escape sequence is counted, or ends the sequence. -/
theorem escape_moves (letras : CodeUnit → Bool) (un : Bool) :
    (final (escape letras un t ch)).iseq = t.iseq + 1 ∨
      (final (escape letras un t ch)).estado ≠ .esc := by
  by_cases full : 256 ≤ t.iseq
  · have stopped : t.acumula ch = .error { t with iseq := t.iseq + 1 } := if_neg (not_lt.mpr full)
    unfold escape
    rw [stopped]
    exact Or.inl rfl
  rw [escape_eq letras un full]
  split
  · have kept := (processaSeq_keepsParser
      (MesmoParser.refl { t with iseq := t.iseq + 1, seq := t.seq ++ [ch] }) ch).final
    unfold encerra
    cases command : processaSeq { t with iseq := t.iseq + 1, seq := t.seq ++ [ch] } ch with
    | error s =>
        rw [command] at kept
        exact Or.inl kept.2.2
    | ok s =>
        refine Or.inr ?_
        change Terminal.estado (final (if s.Executa un then _ else _)) ≠ _
        split
        · exact Estado.noConfusion
        · exact Estado.noConfusion
  · exact Or.inl rfl

/-- A character does nothing just when the state before it says so. -/
theorem inerte_iff (letras : CodeUnit → Bool) :
    t.Igual bits (final (caractere letras false t ch)) ↔ t.Inerte bits ch := by
  unfold caractere Inerte
  cases estado : t.estado with
  | inicial =>
      simp only [true_and]
      unfold texto
      split
      · exact retorna_alike
      split
      · exact avanca_same
      split
      · exact volta_same
      split
      · refine ⟨fun alike => ?_, False.elim⟩
        have same : Estado.esc = t.estado := alike.fields.1
        rw [estado] at same
        cases same
      split
      · exact ⟨fun _ => trivial, fun _ => Igual.refl t⟩
      · exact mostraCaractere_same
  | esc =>
      refine ⟨fun alike => ?_, fun still => by cases still.1⟩
      rcases escape_moves letras false with counted | ended
      · have count := alike.fields.2.2.2.2
        rw [counted] at count
        omega
      · exact (ended (alike.fields.1.trans estado)).elim
  | exec =>
      refine ⟨fun alike => ?_, fun still => by cases still.1⟩
      have count := alike.fields.2.2.2.2
      rw [comandoExec_iseq] at count
      omega

end Inerte

end Terminal

end Pqfh
