import Pqfh.Terminal.Painted
import Pqfh.Terminal.Receive

/-! # The cursor stays on the screen

The cursor is moved by plain characters, by control characters and by escape sequences, and only
some of these keep it on the screen. A step is permitted when it does. While all steps are
permitted, every access is to a place of the matrices and of `seq`, in what is received and in what
is painted.
-/

namespace Pqfh

open Abrupt (Returns returns_of_ok)
open Java (CodeUnit Octet Str decodeUtf8 int int_of_small lit unit)

namespace Terminal

/-- The cursor is on the screen, and `iseq` within `seq`. -/
structure Dentro (t : Terminal) : Prop where
  lin : 0 ≤ t.lin ∧ t.lin < 25
  col : 0 ≤ t.col ∧ t.col < 80
  iseq : t.iseq < 256

/-- The cursor and the rectangle are on the screen, and `seq` is as it was. -/
structure Posta (seq : Str) (iseq : ℕ) (t : Terminal) : Prop where
  lin : 0 ≤ t.lin ∧ t.lin < 25
  col : 0 ≤ t.col ∧ t.col < 80
  r : t.r.Valida
  seq : t.seq = seq
  iseq : t.iseq = iseq

section Posta

variable {seq : Str} {iseq : ℕ} {t : Terminal} (posta : t.Posta seq iseq)

include posta

/-- Cells that change leave the cursor and the sequence in their bounds. -/
theorem Posta.soTela {later : Terminal} (same : t.SoTela later) : later.Posta seq iseq := by
  rw [same]
  exact ⟨posta.lin, posta.col, posta.r, posta.seq, posta.iseq⟩

/-- So does a call of `alteraRegiao` with a place of the screen. -/
theorem Posta.alteraRegiao {x y : ℤ} (column : -1 ≤ x ∧ x < 80) (line : -1 ≤ y ∧ y < 25) :
    (t.alteraRegiao x y).Posta seq iseq :=
  ⟨posta.lin, posta.col, posta.r.altera column line, posta.seq, posta.iseq⟩

/-- The cursor is moved. -/
theorem Posta.move {lin col : ℤ} (line : 0 ≤ lin ∧ lin < 25) (column : 0 ≤ col ∧ col < 80) :
    { t with lin := lin, col := col }.Posta seq iseq :=
  ⟨line, column, posta.r, posta.seq, posta.iseq⟩

end Posta

/-! ## The matrices -/

/-- A cell on the screen is written without an exception. -/
theorem grava_returns {t s : Terminal} (same : t.SoTela s) {i j : ℤ} (inside : NaTela i j)
    (celula : Celula) : Returns t.SoTela (s.grava i j celula) := by
  refine ⟨s.set i j celula, if_pos inside, ?_⟩
  unfold SoTela at same ⊢
  rw [same]
  rfl

/-- A line of the screen is cleared without one. -/
theorem limpaLinha_returns {t s : Terminal} (same : t.SoTela s) {first i : ℤ} (column : 0 ≤ first)
    (line : 0 ≤ i ∧ i < 25) : Returns t.SoTela (s.limpaLinha first i) := by
  refine Returns.foldlM ?_ same
  intro s same j member
  obtain ⟨after, before⟩ := mem_faixa.mp member
  exact grava_returns same ⟨line.1, line.2, by omega, before⟩ _

/-- A scroll raises none from a column of the screen. -/
theorem scroll_returns {t : Terminal} (column : 0 ≤ t.col) : Returns t.SoTela t.scroll := by
  have start : t.SoTela t := rfl
  refine (Returns.foldlM ?_ start).bind fun s same => ?_
  · intro s same i member
    obtain ⟨above, below⟩ := mem_faixa.mp member
    rw [same.col]
    refine Returns.foldlM ?_ same
    intro s same j member
    obtain ⟨after, before⟩ := mem_faixa.mp member
    exact grava_returns same ⟨above, by omega, by omega, before⟩ _
  · exact limpaLinha_returns same (same.col ▸ column) (by decide)

/-! ## Escape sequences -/

/-- A command leaves the cursor on the screen, and its parameters can be parsed. -/
def PermiteComando (t : Terminal) (prms : Str) (ch : CodeUnit) : Prop :=
  if ch = unit 'A' then 0 < t.lin → ∃ n ∈ quantos prms, t.lin - n < 25
  else if ch = unit 'B' then
    t.lin < 24 → ∃ n ∈ quantos prms, 0 ≤ t.lin + n ∧ t.lin + n < 25
  else if ch = unit 'C' then ∃ n ∈ quantos prms, 0 ≤ t.col + n ∧ t.col + n < 80
  else if ch = unit 'D' then ∃ n ∈ quantos prms, t.col - n < 80
  else if ch = unit 'H' then
    unit ';' ∈ prms → ∃ lin ∈ coordenada (Java.split prms (unit ';')) 0,
      ∃ col ∈ coordenada (Java.split prms (unit ';')) 1,
        (0 ≤ lin ∧ lin < 25) ∧ (0 ≤ col ∧ col < 80)
  else True

/-- An attribute that is applied moves no cursor. -/
theorem aplica_posta {seq : Str} {iseq : ℕ} {now : Terminal × BitVec 32}
    (before : now.1.Posta seq iseq) (atr : Str) : (aplica now atr).1.Posta seq iseq := by
  unfold aplica
  split
  · exact before
  all_goals exact ⟨before.lin, before.col, before.r, before.seq, before.iseq⟩

section Commands

variable {seq : Str} {iseq : ℕ} {t : Terminal} (posta : t.Posta seq iseq) {prms : Str}

include posta

/-- A move up that stays on the screen returns. -/
theorem cursorUp_returns (permite : 0 < t.lin → ∃ n ∈ quantos prms, t.lin - n < 25) :
    Returns (Posta seq iseq) (t.cursorUp prms) := by
  have line := posta.lin
  unfold cursorUp
  split
  · obtain ⟨n, here, below⟩ := permite ‹_›
    rw [here]
    have inside : 0 ≤ (if n ≤ t.lin then int (t.lin - n) else 0) ∧
        (if n ≤ t.lin then int (t.lin - n) else 0) < 25 := by
      split
      · rw [int_of_small (by omega) (by omega)]
        omega
      · decide
    exact returns_of_ok ((posta.move inside posta.col).alteraRegiao (by decide) (by omega))
  · exact returns_of_ok posta

/-- A move down that stays on the screen returns. -/
theorem cursorDown_returns
    (permite : t.lin < 24 → ∃ n ∈ quantos prms, 0 ≤ t.lin + n ∧ t.lin + n < 25) :
    Returns (Posta seq iseq) (t.cursorDown prms) := by
  unfold cursorDown
  split
  · obtain ⟨n, here, inside⟩ := permite ‹_›
    have small : int (t.lin + n) = t.lin + n := int_of_small (by omega) (by omega)
    rw [here]
    dsimp only
    rw [small]
    exact returns_of_ok ((posta.move inside posta.col).alteraRegiao (by decide) (by omega))
  · exact returns_of_ok posta

/-- A move to the right that stays on the screen returns. -/
theorem cursorForward_returns (permite : ∃ n ∈ quantos prms, 0 ≤ t.col + n ∧ t.col + n < 80) :
    Returns (Posta seq iseq) (t.cursorForward prms) := by
  obtain ⟨n, here, inside⟩ := permite
  have small : int (t.col + n) = t.col + n := int_of_small (by omega) (by omega)
  unfold cursorForward
  rw [here]
  dsimp only
  rw [small]
  exact returns_of_ok ((posta.move posta.lin inside).alteraRegiao (by omega) (by decide))

/-- A move to the left that stays on the screen returns. -/
theorem cursorBackward_returns (permite : ∃ n ∈ quantos prms, t.col - n < 80) :
    Returns (Posta seq iseq) (t.cursorBackward prms) := by
  have column := posta.col
  obtain ⟨n, here, before⟩ := permite
  unfold cursorBackward
  rw [here]
  have inside : 0 ≤ (if n ≤ t.col then int (t.col - n) else 0) ∧
      (if n ≤ t.col then int (t.col - n) else 0) < 80 := by
    split
    · rw [int_of_small (by omega) (by omega)]
      omega
    · decide
  exact returns_of_ok ((posta.move posta.lin inside).alteraRegiao (by omega) (by decide))

/-- A jump to a place of the screen returns. -/
theorem home_returns (permite : unit ';' ∈ prms →
    ∃ lin ∈ coordenada (Java.split prms (unit ';')) 0,
      ∃ col ∈ coordenada (Java.split prms (unit ';')) 1,
        (0 ≤ lin ∧ lin < 25) ∧ (0 ≤ col ∧ col < 80)) : Returns (Posta seq iseq) (t.home prms) := by
  unfold home
  split
  · obtain ⟨lin, line, col, column, inside⟩ := permite ‹_›
    dsimp only
    rw [line]
    dsimp only
    rw [column]
    exact returns_of_ok ((posta.move inside.1 inside.2).alteraRegiao (by decide) (by decide))
  · exact returns_of_ok
      ((posta.move (by decide) (by decide)).alteraRegiao (by decide) (by decide))

/-- Clearing a line returns. -/
theorem el_returns : Returns (Posta seq iseq) t.el := by
  have cleared := limpaLinha_returns (rfl : t.SoTela t) posta.col.1 posta.lin
  refine cleared.bind fun later same => ?_
  exact returns_of_ok ((posta.soTela same).alteraRegiao (by decide) (by decide))

/-- Clearing the screen returns. -/
theorem clear_returns : Returns (Posta seq iseq) (t.clear prms) := by
  have column := posta.col
  have start : Returns (Posta seq iseq) (if prms = lit "2" then t.home [] else .ok t) := by
    split
    · exact home_returns posta fun member => by cases member
    · exact returns_of_ok posta
  refine start.bind fun first posta => ?_
  have line := limpaLinha_returns (rfl : first.SoTela first) posta.col.1 posta.lin
  refine line.bind fun line same => ?_
  have next : int (line.lin + 1) = first.lin + 1 := by
    rw [same.lin, int_of_small] <;> have := posta.lin <;> omega
  have rest : Returns first.SoTela
      ((faixa (int (line.lin + 1)) 25).foldlM (limpaLinha 0) line) := by
    refine Returns.foldlM ?_ same
    intro s same i member
    obtain ⟨above, below⟩ := mem_faixa.mp member
    exact limpaLinha_returns same (by decide) (by have := posta.lin; omega)
  refine rest.bind fun later same => ?_
  have wide : -1 ≤ (if int (line.lin + 1) < 25 then 0 else t.col) ∧
      (if int (line.lin + 1) < 25 then 0 else t.col) < 80 := by
    split
    · decide
    · omega
  exact returns_of_ok (((posta.soTela same).alteraRegiao wide (by decide)).alteraRegiao
    (by decide) (by decide))

/-- The attributes of a sequence move no cursor. -/
theorem setaAtributos_posta (s : Str) : (t.setaAtributos s).Posta seq iseq := by
  unfold setaAtributos
  generalize Java.split _ _ = atrs
  have start : (t, t.atributo).1.Posta seq iseq := posta
  generalize (t, t.atributo) = now at start ⊢
  induction atrs generalizing now with
  | nil => exact start
  | cons atr atrs ih => exact ih (aplica now atr) (aplica_posta start atr)

/-- A command that asks for places of the screen returns. -/
theorem comando_returns {ch : CodeUnit} (permite : t.PermiteComando prms ch) :
    Returns (Posta seq iseq) (t.comando prms ch) := by
  unfold PermiteComando at permite
  unfold comando
  split
  · rw [if_pos ‹_›] at permite
    exact cursorUp_returns posta permite
  rw [if_neg ‹_›] at permite
  split
  · rw [if_pos ‹_›] at permite
    exact cursorDown_returns posta permite
  rw [if_neg ‹_›] at permite
  split
  · rw [if_pos ‹_›] at permite
    exact cursorForward_returns posta permite
  rw [if_neg ‹_›] at permite
  split
  · rw [if_pos ‹_›] at permite
    exact cursorBackward_returns posta permite
  rw [if_neg ‹_›] at permite
  split
  · rw [if_pos ‹_›] at permite
    exact home_returns posta permite
  split
  · exact clear_returns posta
  split
  · exact el_returns posta
  split
  · exact returns_of_ok (setaAtributos_posta posta _)
  · exact returns_of_ok posta

end Commands

/-- There are parameters, unless `[` is the last character. -/
theorem exists_parametros {seq : Str} {ch : CodeUnit} (other : ch ≠ unit '[') :
    ∃ prms, parametros (seq ++ [ch]) = some prms := by
  unfold parametros Java.substring
  rw [List.length_append, List.length_singleton, Nat.add_sub_cancel]
  have start : (if (seq ++ [ch]).head? = some (unit '[') then 1 else 0) ≤ seq.length := by
    cases seq with
    | nil =>
        rw [List.nil_append, List.head?_cons, if_neg fun same => other (Option.some.inj same)]
        exact Nat.le_refl 0
    | cons first rest =>
        split
        · exact Nat.succ_le_succ (Nat.zero_le _)
        · exact Nat.zero_le _
  rw [if_pos ⟨start, Nat.le_succ _⟩]
  exact ⟨_, rfl⟩

/-- The bracket of a sequence is no letter. -/
theorem not_alfabetico_bracket (letras : CodeUnit → Bool) : alfabetico letras (unit '[') = false :=
  rfl

/-! ## Characters -/

/-- What holds in every state that permitted steps reach. -/
structure Contida (t : Terminal) : Prop where
  posta : t.Posta t.seq t.iseq
  seq : t.seq.length = t.iseq
  iseq : t.iseq < 256

/-- A contained terminal has its cursor on the screen. -/
theorem Contida.dentro {t : Terminal} (contida : t.Contida) : t.Dentro :=
  ⟨contida.posta.lin, contida.posta.col, contida.iseq⟩

/-- A new terminal is contained. -/
theorem contida_novo : novo.Contida :=
  ⟨⟨by decide, by decide, Regiao.valida_tela, rfl, rfl⟩, rfl, by decide⟩

/-- A step that leaves `seq`. -/
theorem Posta.contida {t later : Terminal} (contida : t.Contida)
    (posta : later.Posta t.seq t.iseq) : later.Contida where
  posta := ⟨posta.lin, posta.col, posta.r, rfl, rfl⟩
  seq := by rw [posta.seq, posta.iseq, contida.seq]
  iseq := posta.iseq ▸ contida.iseq

/-- The cursor of a terminal in its bounds is on the screen. -/
theorem naTela_cursor {seq : Str} {iseq : ℕ} {t : Terminal} (posta : t.Posta seq iseq) :
    NaTela t.lin t.col :=
  ⟨posta.lin.1, posta.lin.2, posta.col.1, posta.col.2⟩

/-- A character of the text does not go beyond the last place of the screen. -/
def PermiteTexto (t : Terminal) (ch : CodeUnit) : Prop :=
  ch ∈ ([13, 10, 8, 27, 7] : Str) ∨ t.lin ≠ 24 ∨ t.col ≠ 79

section Text

variable {t : Terminal} (contida : t.Contida)

include contida

/-- A character returns unless it is in the last place of the screen. -/
theorem mostraCaractere_returns {ch : CodeUnit} (room : t.lin ≠ 24 ∨ t.col ≠ 79) :
    Returns Contida (t.mostraCaractere ch) := by
  have posta := contida.posta
  refine (grava_returns (rfl : t.SoTela t) (naTela_cursor posta) _).bind fun later same => ?_
  have here := posta.soTela same
  have line := posta.lin
  have column := posta.col
  split
  · rename_i room
    rw [same.col] at room ⊢
    have moved : (0 : ℤ) ≤ t.col + 1 ∧ t.col + 1 < 80 := by omega
    exact returns_of_ok (Posta.contida contida
      ((here.move here.lin moved).alteraRegiao (by omega) (by decide)))
  · rename_i full
    rw [same.col] at full
    rw [same.lin]
    have moved : (0 : ℤ) ≤ t.lin + 1 ∧ t.lin + 1 < 25 := by omega
    exact returns_of_ok (Posta.contida contida
      ((here.move moved (by decide)).alteraRegiao (by decide) (by omega)))

/-- A line feed returns. -/
theorem avanca_returns : Returns Contida t.avanca := by
  have posta := contida.posta
  have line := posta.lin
  unfold avanca
  split
  · exact returns_of_ok (Posta.contida contida
      ((posta.move (by omega) posta.col).alteraRegiao (by decide) (by omega)))
  · refine (scroll_returns posta.col.1).bind fun later same => ?_
    exact returns_of_ok (Posta.contida contida
      ((posta.soTela same).alteraRegiao (by decide) (by decide)))

/-- A backspace returns. -/
theorem volta_returns : Returns Contida t.volta := by
  have posta := contida.posta
  have column := posta.col
  unfold volta
  split
  · have back : (0 : ℤ) ≤ t.col - 1 ∧ t.col - 1 < 80 := by omega
    have moved := posta.move posta.lin back
    have start : { t with col := t.col - 1 }.SoTela { t with col := t.col - 1 } := rfl
    refine (grava_returns start (naTela_cursor moved) _).bind fun later same => ?_
    have here := moved.soTela same
    exact returns_of_ok (Posta.contida contida
      (here.alteraRegiao (by have := here.col; omega) (by decide)))
  · exact returns_of_ok contida

/-- A character of a text that is allowed returns. -/
theorem texto_returns {ch : CodeUnit} (permite : t.PermiteTexto ch) :
    Returns Contida (t.texto ch) := by
  have posta := contida.posta
  unfold texto
  split
  · exact returns_of_ok (Posta.contida contida
      ((posta.move posta.lin (by decide)).alteraRegiao (by decide) (by decide)))
  split
  · exact avanca_returns contida
  split
  · exact volta_returns contida
  split
  · exact returns_of_ok (Posta.contida contida
      ⟨posta.lin, posta.col, posta.r, rfl, rfl⟩)
  split
  · exact returns_of_ok contida
  · refine mostraCaractere_returns contida (permite.resolve_left ?_)
    simp only [List.mem_cons, List.not_mem_nil, or_false, not_or]
    exact ⟨‹_›, ‹_›, ‹_›, ‹_›, ‹_›⟩

/-- A character is added to `seq`. -/
theorem acumula_returns (ch : CodeUnit) :
    Returns (Eq { t with iseq := t.iseq + 1, seq := t.seq ++ [ch] }) (t.acumula ch) :=
  ⟨_, if_pos contida.iseq, rfl⟩

end Text

/-- The last character of a sequence leaves `seq` empty, or with the three characters of `[]R`. -/
theorem encerra_returns {seq : Str} {iseq : ℕ} {t : Terminal} (posta : t.Posta seq iseq)
    (length : seq.length = iseq) (un : Bool) {prms : Str} {ch : CodeUnit}
    (here : parametros seq = some prms) (permite : t.PermiteComando prms ch) :
    Returns Contida (t.encerra un ch) := by
  have command : Returns (Posta seq iseq) (t.processaSeq ch) := by
    unfold processaSeq
    rw [posta.seq, here]
    exact comando_returns posta permite
  refine command.bind fun later posta => ?_
  split
  · rename_i executa
    have three : iseq = 3 := by
      rw [← length, ← posta.seq, executa.1]
      rfl
    refine returns_of_ok ⟨⟨posta.lin, posta.col, posta.r, rfl, rfl⟩, ?_, ?_⟩
    · rw [posta.seq, posta.iseq, length]
    · rw [posta.iseq, three]
      decide
  · exact returns_of_ok ⟨⟨posta.lin, posta.col, posta.r, rfl, rfl⟩, rfl, Nat.zero_lt_succ 255⟩

/-- A character of a sequence has its place, and a sequence does not leave the screen. -/
def PermiteEscape (letras : CodeUnit → Bool) (t : Terminal) (ch : CodeUnit) : Prop :=
  if alfabetico letras ch then
    ∀ prms ∈ parametros (t.seq ++ [ch]), t.PermiteComando prms ch
  else t.iseq + 1 < 256

/-- When a character of the host keeps the cursor on the screen, and `iseq` within `seq`. -/
def PermiteCaractere (letras : CodeUnit → Bool) (t : Terminal) (ch : CodeUnit) : Prop :=
  match t.estado with
  | .inicial => t.PermiteTexto ch
  | .esc => t.PermiteEscape letras ch
  | .exec => t.iseq + 1 < 256

section Characters

variable {letras : CodeUnit → Bool} {t : Terminal} (contida : t.Contida) {ch : CodeUnit}

include contida

/-- `seq` has room for another character. -/
theorem contida_acumula (room : t.iseq + 1 < 256) :
    { t with iseq := t.iseq + 1, seq := t.seq ++ [ch] }.Contida where
  posta := ⟨contida.posta.lin, contida.posta.col, contida.posta.r, rfl, rfl⟩
  seq := (List.length_append).trans (congrArg (· + 1) contida.seq)
  iseq := room

/-- A character of a sequence that is allowed returns. -/
theorem escape_returns (un : Bool) (permite : t.PermiteEscape letras ch) :
    Returns Contida (escape letras un t ch) := by
  unfold PermiteEscape at permite
  refine (acumula_returns contida ch).bind ?_
  rintro later rfl
  by_cases last : alfabetico letras ch = true
  · rw [if_pos last] at permite ⊢
    have other : ch ≠ unit '[' := by
      rintro rfl
      rw [not_alfabetico_bracket] at last
      exact Bool.false_ne_true last
    obtain ⟨prms, here⟩ := @exists_parametros t.seq ch other
    have length : (t.seq ++ [ch]).length = t.iseq + 1 :=
      (List.length_append).trans (congrArg (· + 1) contida.seq)
    have posta : Posta (t.seq ++ [ch]) (t.iseq + 1)
        { t with iseq := t.iseq + 1, seq := t.seq ++ [ch] } :=
      ⟨contida.posta.lin, contida.posta.col, contida.posta.r, rfl, rfl⟩
    exact encerra_returns posta length un here (permite prms here)
  · rw [if_neg last] at permite ⊢
    exact returns_of_ok (contida_acumula contida permite)

/-- A character of a command returns while there is room. -/
theorem comandoExec_returns (room : t.iseq + 1 < 256) : Returns Contida (t.comandoExec ch) := by
  refine (acumula_returns contida ch).bind ?_
  rintro later rfl
  refine returns_of_ok ?_
  have next := @contida_acumula t contida ch room
  split
  · exact ⟨⟨next.posta.lin, next.posta.col, next.posta.r, rfl, rfl⟩, next.seq, next.iseq⟩
  · exact next

/-- Any character that is allowed returns. -/
theorem caractere_returns (un : Bool) (permite : t.PermiteCaractere letras ch) :
    Returns Contida (caractere letras un t ch) := by
  unfold PermiteCaractere at permite
  unfold caractere
  split <;> rename_i estado <;> rw [estado] at permite
  · exact texto_returns contida permite
  · exact escape_returns contida un permite
  · exact comandoExec_returns contida permite

end Characters

end Terminal

/-! ## Lines of a shared screen

A buffer of the host that begins with `SUPORTE:` is taken for such a line.
-/

namespace Terminal

/-- A cell of a line that was received is written. -/
theorem escreve_returns {t s : Terminal} (same : t.SoTela s)
    {campo : Celula → CodeUnit → Celula} {i j : ℤ} (inside : NaTela i j)
    {valor : ℤ → Option CodeUnit}
    (here : (valor j).isSome) : Returns t.SoTela (s.escreve campo i valor j) := by
  obtain ⟨ch, here⟩ := Option.isSome_iff_exists.mp here
  unfold escreve
  rw [here]
  exact grava_returns same inside _

/-- An attribute of a line that was received is written. -/
theorem escreveAtributo_returns {t s : Terminal} (same : t.SoTela s) {i j : ℤ}
    (inside : NaTela i j) {valor : ℤ → Option ℤ} (here : (valor j).isSome) :
    Returns t.SoTela (s.escreveAtributo i valor j) := by
  obtain ⟨atributo, here⟩ := Option.isSome_iff_exists.mp here
  unfold escreveAtributo
  rw [here]
  exact grava_returns same inside _

/-- A line of characters is received when it is on the screen. -/
theorem recebeLinha_returns {t : Terminal} {campo : Celula → CodeUnit → Celula} {y : ℤ}
    (line : 0 ≤ y ∧ y < 25) {args : Str} (two : 2 ≤ args.length) :
    Returns t.SoTela (t.recebeLinha campo y args) := by
  have start : t.SoTela t := rfl
  refine (Returns.foldlM ?_ start).bind fun s same => Returns.foldlM ?_ same
  · intro s same x member
    have inside := mem_faixa.mp member
    refine escreve_returns same ⟨line.1, line.2, inside.1, by omega⟩ ?_
    have place : (x + 2).toNat < args.length := by omega
    rw [List.getElem?_eq_getElem place]
    rfl
  · intro s same x member
    have inside := mem_faixa.mp member
    exact escreve_returns same ⟨line.1, line.2, by omega, inside.2⟩ rfl

/-- The attributes of a column in a line of attributes. -/
def atributoEm (args : Str) (x : ℤ) : Option ℤ :=
  (Java.substring args (2 + x * 2).toNat (2 + x * 2 + 2).toNat).bind Java.parseInt

/-- The attributes of a column in a `REFRESH` of `n` columns, at the `j`th of them. -/
def refreshEm (args : Str) (n j : ℤ) : Option ℤ :=
  (Java.substring args (j * 2 + 6 + n * 3).toNat (j * 2 + 6 + 2 + n * 3).toNat).bind Java.parseInt

/-- A line of attributes is received when it is on the screen. -/
theorem recebeAtributos_returns {seq : Str} {iseq : ℕ} {t : Terminal} (posta : t.Posta seq iseq)
    {y : ℤ} (line : 0 ≤ y ∧ y < 25) {args : Str} (two : 2 ≤ args.length)
    (parsed : ∀ x, 0 ≤ x → x < min ((args.length : ℤ) - 2) 160 / 2 → (atributoEm args x).isSome) :
    Returns (Posta seq iseq) (t.recebeAtributos y args) := by
  have start : t.SoTela t := rfl
  have first : Returns t.SoTela
      ((faixa 0 (min ((args.length : ℤ) - 2) 160 / 2)).foldlM (escreveAtributo y (atributoEm args))
        t) := by
    refine Returns.foldlM ?_ start
    intro s same x member
    have inside := mem_faixa.mp member
    exact escreveAtributo_returns same ⟨line.1, line.2, inside.1, by omega⟩
      (parsed x inside.1 inside.2)
  refine first.bind fun later same => ?_
  have rest : Returns t.SoTela ((faixa (min ((args.length : ℤ) - 2) 160) 80).foldlM
      (escreveAtributo y fun _ => some 0) later) := by
    refine Returns.foldlM ?_ same
    intro s same x member
    have inside := mem_faixa.mp member
    exact escreveAtributo_returns same ⟨line.1, line.2, by omega, inside.2⟩ rfl
  refine rest.bind fun last same => returns_of_ok ?_
  exact ((posta.soTela same).alteraRegiao (by decide) (by omega)).alteraRegiao (by decide)
    (by omega)

/-- The cells of a refresh are written one after the other. -/
theorem refresca_returns {t s : Terminal} (same : t.SoTela s) {y x1 n x : ℤ} {args : Str}
    (inside : NaTela y x) (first : x1 ≤ x) (column : x < x1 + n)
    (parsed : ∀ j, 0 ≤ j → j < n → (refreshEm args n j).isSome) :
    Returns t.SoTela (refresca args y x1 n s x) := by
  have whole : (6 + n * 5).toNat ≤ args.length := by
    obtain ⟨_, here⟩ := Option.isSome_iff_exists.mp (parsed (n - 1) (by omega) (by omega))
    obtain ⟨text, cut, _⟩ := Option.bind_eq_some_iff.mp here
    have bounds : ((n - 1) * 2 + 6 + n * 3).toNat ≤ ((n - 1) * 2 + 6 + 2 + n * 3).toNat ∧
        ((n - 1) * 2 + 6 + 2 + n * 3).toNat ≤ args.length := by
      unfold Java.substring at cut
      by_contra outside
      rw [if_neg outside] at cut
      cases cut
    omega
  have present : ∀ k : ℤ, 0 ≤ k → k < 6 + n * 5 → (args[k.toNat]?).isSome := by
    intro k low high
    have place : k.toNat < args.length := by omega
    rw [List.getElem?_eq_getElem place]
    rfl
  refine (escreve_returns same inside (present _ ?_ ?_)).bind fun s same =>
    (escreve_returns same inside (present _ ?_ ?_)).bind fun s same =>
      (escreve_returns same inside (present _ ?_ ?_)).bind fun s same =>
        escreveAtributo_returns same inside (parsed (x - x1) (by omega) (by omega))
  all_goals omega

/-- A refresh of places of the screen is received. -/
theorem recebeRefresh_returns {seq : Str} {iseq : ℕ} {t : Terminal} (posta : t.Posta seq iseq)
    {y x1 x2 : ℤ} {args : Str} (from1 : (Java.substring args 2 4).bind Java.parseInt = some x1)
    (to2 : (Java.substring args 4 6).bind Java.parseInt = some x2)
    (line : 0 ≤ y ∧ y < 25) (left : 0 ≤ x1 ∧ x1 < 80) (right : 0 ≤ x2 ∧ x2 < 80)
    (parsed : ∀ j, 0 ≤ j → j < x2 - x1 + 1 → (refreshEm args (x2 - x1 + 1) j).isSome) :
    Returns (Posta seq iseq) (t.recebeRefresh y args) := by
  have start : t.SoTela t := rfl
  unfold recebeRefresh
  rw [from1, to2]
  have loop : Returns t.SoTela
      ((faixa x1 (x2 + 1)).foldlM (refresca args y x1 (x2 - x1 + 1)) t) := by
    refine Returns.foldlM ?_ start
    intro s same x member
    have inside := mem_faixa.mp member
    exact refresca_returns same ⟨line.1, line.2, by omega, by omega⟩ inside.1 (by omega) parsed
  refine loop.bind fun later same => returns_of_ok ?_
  exact ((posta.soTela same).alteraRegiao (by omega) (by omega)).alteraRegiao (by omega) (by omega)

/-- A line of a shared screen is for a line of the matrices, and its numbers can be parsed. -/
def PermiteCampo (cmd : Str) (y : ℤ) (args : Str) : Prop :=
  if cmd = lit "DADOS" ∨ cmd = lit "FRENTE" ∨ cmd = lit "FUNDO" then 0 ≤ y ∧ y < 25
  else if cmd = lit "ATRIBUTOS" then
    (0 ≤ y ∧ y < 25) ∧
      ∀ x, 0 ≤ x → x < min ((args.length : ℤ) - 2) 160 / 2 → (atributoEm args x).isSome
  else if cmd = lit "REFRESH" then
    ∃ x1 ∈ (Java.substring args 2 4).bind Java.parseInt,
      ∃ x2 ∈ (Java.substring args 4 6).bind Java.parseInt,
        (0 ≤ y ∧ y < 25) ∧ (0 ≤ x1 ∧ x1 < 80) ∧ (0 ≤ x2 ∧ x2 < 80) ∧
          ∀ j, 0 ≤ j → j < x2 - x1 + 1 → (refreshEm args (x2 - x1 + 1) j).isSome
  else True

def PermiteLinha (s : Str) : Prop :=
  ∃ field ∈ Java.substring s 8 18, ∃ y ∈ (Java.substring (s.drop 18) 0 2).bind Java.parseInt,
    PermiteCampo (Java.trim field) y (s.drop 18)

/-- A line of the relay that is allowed returns. -/
theorem suporte_returns {t : Terminal} (contida : t.Contida) {s : Str} (permite : PermiteLinha s) :
    Returns Contida (t.suporte s) := by
  obtain ⟨field, cut, y, number, permite⟩ := permite
  have two : 2 ≤ (s.drop 18).length := by
    obtain ⟨text, here, _⟩ := Option.bind_eq_some_iff.mp number
    unfold Java.substring at here
    by_contra short
    rw [if_neg fun inside => short inside.2] at here
    cases here
  have start := contida.posta
  have back : ∀ {x : Resultado}, Returns t.SoTela x → Returns Contida x := fun returns =>
    returns.mono fun later same => Posta.contida contida (start.soTela same)
  unfold suporte
  dsimp only
  rw [cut, number]
  unfold PermiteCampo at permite
  dsimp only
  split
  · rw [if_pos (Or.inl ‹_›)] at permite
    exact back (recebeLinha_returns permite two)
  split
  · rw [if_pos (Or.inr (Or.inl ‹_›))] at permite
    exact back (recebeLinha_returns permite two)
  split
  · rw [if_pos (Or.inr (Or.inr ‹_›))] at permite
    exact back (recebeLinha_returns permite two)
  rw [if_neg (by rintro (h | h | h) <;> contradiction)] at permite
  split
  · rw [if_pos ‹_›] at permite
    exact (recebeAtributos_returns start permite.1 two permite.2).mono fun later =>
      Posta.contida contida
  rw [if_neg ‹_›] at permite
  split
  · rw [if_pos ‹_›] at permite
    obtain ⟨x1, from1, x2, to2, line, left, right, parsed⟩ := permite
    exact (recebeRefresh_returns start from1 to2 line left right parsed).mono fun later =>
      Posta.contida contida
  · exact returns_of_ok contida

end Terminal

/-! ## Runs -/

/-- What happens to the terminal of a host. -/
inductive Evento where
  /-- A buffer is taken. -/
  | inicia
  /-- A character of it, `un` being whether the buffer goes on so. -/
  | caractere (un : Bool) (ch : CodeUnit)
  /-- The whole of it is taken for a line of a shared screen. -/
  | linha (s : Str)
  | mostra (janela : Aparencia)

namespace Terminal

def passo (letras : CodeUnit → Bool) (t : Terminal) : Evento → Resultado
  | .inicia => .ok t.inicia
  | .caractere un ch => caractere letras un t ch
  | .linha s => t.suporte s
  | .mostra janela => t.mostra janela

/-- Some steps, one after the other. -/
def executa (letras : CodeUnit → Bool) (t : Terminal) (eventos : List Evento) : Resultado :=
  eventos.foldlM (passo letras) t

/-- The characters of a buffer, from a place on. -/
def eventos (un : ℕ → Bool) : ℕ → Str → List Evento
  | _, [] => []
  | i, ch :: rest => .caractere (un i) ch :: eventos un (i + 1) rest

/-- The characters of a buffer are events one after the other. -/
theorem percorre_eq (letras : CodeUnit → Bool) (un : ℕ → Bool) (i : ℕ) (t : Terminal) (s : Str) :
    percorre letras un i t s = executa letras t (eventos un i s) := by
  induction s generalizing i t with
  | nil => rfl
  | cons ch rest ih => exact congrArg (caractere letras (un i) t ch >>= ·) (funext fun t => ih _ t)

/-- The steps of a buffer. -/
def eventosDe (comandos : List Octet) : List Evento :=
  let s := decodeUtf8 comandos
  .inicia :: if (lit "SUPORTE:").isPrefixOf s then [.linha s]
    else eventos (segueUn comandos s.length) 0 s

/-- A buffer is a run. -/
theorem atualiza_eq (letras : CodeUnit → Bool) (t : Terminal) (comandos : List Octet) :
    t.atualiza letras comandos = executa letras t (eventosDe comandos) := by
  unfold atualiza eventosDe
  dsimp only
  split
  · exact (bind_pure (t.inicia.suporte (decodeUtf8 comandos))).symm
  · exact percorre_eq letras _ 0 t.inicia _

/-- When a step leaves the cursor on the screen, `iseq` within `seq`, and throws no exception. -/
def Permite (letras : CodeUnit → Bool) (t : Terminal) : Evento → Prop
  | .inicia => True
  | .caractere _ ch => t.PermiteCaractere letras ch
  | .linha s => PermiteLinha s
  | .mostra janela => janela.login = true → t.PermitePintar janela

/-- What is allowed in a sequence is an event that is allowed. -/
theorem permite_escape {letras : CodeUnit → Bool} {t : Terminal} {un : Bool} {ch : CodeUnit}
    (estado : t.estado = .esc) (permite : t.PermiteEscape letras ch) :
    t.Permite letras (.caractere un ch) := by
  unfold Permite PermiteCaractere
  rw [estado]
  exact permite

/-- Every step is permitted in the state in which it is taken. -/
def Permitidos (letras : CodeUnit → Bool) : Terminal → List Evento → Prop
  | _, [] => True
  | t, evento :: eventos =>
      t.Permite letras evento ∧ ∀ later, t.passo letras evento = .ok later →
        later.Permitidos letras eventos

/-- Events that are allowed begin with one that is. -/
theorem Permitidos.cons {letras : CodeUnit → Bool} {t later : Terminal} {evento : Evento}
    {eventos : List Evento} (step : t.passo letras evento = .ok later)
    (here : t.Permite letras evento)
    (rest : later.Permitidos letras eventos) : t.Permitidos letras (evento :: eventos) :=
  ⟨here, fun _ other => Except.ok.inj (step.symm.trans other) ▸ rest⟩

/-- An event that is allowed leaves the terminal contained. -/
theorem passo_returns {letras : CodeUnit → Bool} {t : Terminal} (contida : t.Contida)
    {evento : Evento} (permite : t.Permite letras evento) :
    Returns Contida (t.passo letras evento) := by
  have posta := contida.posta
  cases evento with
  | inicia =>
      refine returns_of_ok ⟨⟨posta.lin, posta.col, ?_, rfl, rfl⟩, contida.seq, contida.iseq⟩
      have line := posta.lin
      have column := posta.col
      constructor <;> dsimp only [inicia] <;> omega
  | caractere un ch => exact caractere_returns contida un permite
  | linha s => exact suporte_returns contida permite
  | mostra janela =>
      have painted : Abrupt.Keeps True t.SoMarcas (t.mostra janela) :=
        mostra_keeps (fun _ => naTela_cursor posta) (fun _ => posta.r) fun _ => permite
      exact (painted.toReturns trivial).mono fun later same =>
        Posta.contida contida (posta.soTela same.tela)

/-- After every step the cursor is on the screen and `iseq` within `seq`, and no step has thrown an
exception. -/
def NaoSai (letras : CodeUnit → Bool) (eventos : List Evento) : Prop :=
  ∀ k, ∃ t, executa letras novo (eventos.take k) = .ok t ∧ t.Dentro

/-- Events that are allowed leave the terminal contained. -/
theorem executa_returns {letras : CodeUnit → Bool} {t : Terminal} (contida : t.Contida)
    {eventos : List Evento} (permitidos : t.Permitidos letras eventos) (k : ℕ) :
    Returns Contida (executa letras t (eventos.take k)) := by
  induction eventos generalizing t k with
  | nil =>
      rw [List.take_nil]
      exact returns_of_ok contida
  | cons evento eventos ih =>
      cases k with
      | zero => exact returns_of_ok contida
      | succ k =>
          obtain ⟨here, rest⟩ := permitidos
          obtain ⟨later, step, next⟩ := passo_returns contida here
          obtain ⟨last, run, contida⟩ := ih next (rest later step) k
          refine ⟨last, ?_, contida⟩
          unfold executa at run ⊢
          rw [List.take_succ_cons, List.foldlM_cons, step]
          exact run

/-- In a run of permitted steps the terminal never leaves the screen. -/
theorem terminal_stays (letras : CodeUnit → Bool) (eventos : List Evento)
    (permitidos : novo.Permitidos letras eventos) : NaoSai letras eventos := by
  intro k
  obtain ⟨t, run, contida⟩ := executa_returns contida_novo permitidos k
  exact ⟨t, run, contida.dentro⟩

/-- The cursor moves down by two lines. -/
theorem terminal_stays_down : NaoSai (fun _ => false) [.inicia, .caractere false 27,
    .caractere false (unit '['), .caractere false (unit '2'), .caractere false (unit 'B'),
    .mostra ⟨true, true, fun _ => false⟩] := by
  refine terminal_stays _ _ (.cons rfl trivial (.cons rfl (.inl (by decide)) (.cons rfl ?_
    (.cons rfl ?_ (.cons rfl ?_ ⟨fun _ => ⟨by decide, ?_⟩, fun _ _ => trivial⟩)))))
  · change (0 + 1 : ℕ) < 256
    decide
  · change (1 + 1 : ℕ) < 256
    decide
  · refine permite_escape rfl ?_
    have last : alfabetico (fun _ => false) (unit 'B') = true := rfl
    unfold PermiteEscape
    rw [if_pos last]
    intro prms here
    cases here
    unfold PermiteComando
    rw [if_neg (by decide), if_pos rfl]
    exact fun _ => ⟨2, rfl, by decide⟩
  · intro i j _ below _ _ _
    refine ⟨i, le_rfl, below.trans_le (by decide), ?_⟩
    rintro ⟨dado, _⟩
    cases dado

/-- A character at the last place of the screen moves the cursor below the last line. -/
theorem terminal_leaves : ¬ ∀ letras eventos, NaoSai letras eventos := by
  intro stays
  let text : Str := 27 :: lit "[25;80Hx"
  obtain ⟨t, run, dentro⟩ :=
    stays (fun _ => false) (.inicia :: eventos (fun _ => false) 0 text) 10
  have line : (executa (fun _ => false) novo
      ((Evento.inicia :: eventos (fun _ => false) 0 text).take 10)).toOption.map Terminal.lin =
        some 25 := rfl
  rw [run] at line
  have below := dentro.lin.2
  rw [Option.some.inj line] at below
  exact absurd below (by decide)

end Terminal

end Pqfh
