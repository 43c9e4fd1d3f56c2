import Pqfh.Changelog.Decode
import Pqfh.Foundation.Printf

/-! # Rows of SQL results

A COBOL program sends SQL of its own with `pqfh_executa_sql` and gets the rows of the result as
lines, the first with the answer and each other with `pqfh_sql_next`. It reads the fields of a line
by position. `monta_linha` fills the texts that are not of a character type with zeros to ten
characters: it writes the difference into a format. A difference of zero is no width there but a
flag, and the zero that is to be filled is written once more (`Pqfh.Sql.disposta_iff`).
-/

namespace Pqfh.Sql

open Printf

/-- A text that the server sent. -/
structure Texto where
  bytes : List Byte
  clean : 0 ∉ bytes

/-- A field of a row, `PQftype` and `PQgetvalue`. The text of a null value is empty. -/
structure Campo where
  tipo : ℕ
  valor : Texto

/-- `PQgetlength`. -/
def Campo.tam (campo : Campo) : ℕ := campo.valor.bytes.length

/-- `PGresult`: the types of the fields, and the texts of each row. -/
structure Resultado where
  tipos : List ℕ
  linhas : List (List Texto)
  inteiras : ∀ linha ∈ linhas, linha.length = tipos.length

/-- The fields of a row. -/
def Resultado.campos (res : Resultado) (linha : ℕ) : Option (List Campo) :=
  res.linhas[linha]?.map fun textos => List.zipWith Campo.mk res.tipos textos

/-- `sprintf` into a buffer. -/
def sprintf (size : ℕ) (format : List Byte) (args : List Arg) : Except Stop (List Byte) :=
  match render .text format args with
  | none => .error .undefined
  | some text => if text.length < size then .ok text else .error .undefined

/-- The types 1042, character, and 1043, character varying. -/
def Campo.Caractere (campo : Campo) : Prop := campo.tipo = 1042 ∨ campo.tipo = 1043

instance (campo : Campo) : Decidable campo.Caractere := inferInstanceAs (Decidable (_ ∨ _))

/-- `buf_campo`. -/
def bufCampo (campo : Campo) : Except Stop (List Byte) :=
  if campo.Caractere then do
    -- "%%-%ds"
    let fmt ← sprintf 9 [37, 37, 45, 37, 100, 115] [.int campo.tam]
    sprintf (maxRecLen + 1) fmt [.str campo.valor.bytes]
  else do
    -- "%%0%dd%%s"
    let fmt ← sprintf 9 [37, 37, 48, 37, 100, 100, 37, 37, 115] [.int (10 - campo.tam)]
    sprintf (maxRecLen + 1) fmt [.int 0, .str campo.valor.bytes]

/-- The turn of `monta_linha` for a field. -/
def montaCampo (pLinha : List Byte) (campo : Campo) : Except Stop (List Byte) := do
  let buf ← bufCampo campo
  return pLinha ++ buf

/-- `monta_linha`. The texts of a row that does not exist are null pointers. -/
def montaLinha (res : Resultado) (linha : ℕ) (pLinha : List Byte) : Except Stop (List Byte) :=
  match res.campos linha with
  | none => if res.tipos = [] then .ok pLinha else .error .undefined
  | some campos => campos.foldlM montaCampo pLinha

/-- What `PQexec` answers: whether the status is that of a query, the message, and the result. -/
structure Resposta where
  tuplas : Bool
  mensagem : List Byte
  res : Resultado

/-- What a COBOL program gets: `p_retorno`, `p_registros` and `p_linha`. -/
structure Retorno where
  retorno : List Byte
  registros : ℕ
  linha : List Byte

/-- `strncasecmp` of the first six bytes with "select". -/
def Select (query : List Byte) : Prop :=
  (query.take 6).map (fun byte => if 65 ≤ byte ∧ byte ≤ 90 then byte + 32 else byte) =
    [115, 101, 108, 101, 99, 116]

instance (query : List Byte) : Decidable (Select query) := inferInstanceAs (Decidable (_ = _))

/-- "EXECUTADO" -/
def executado : List Byte := [69, 88, 69, 67, 85, 84, 65, 68, 79]

/-- `pqfh_executa_sql`. The result is kept for `pqfh_sql_next`. -/
def pqfhExecutaSql (pqexec : List Byte → Resposta) (query pLinha : List Byte) :
    Except Stop (Retorno × Resultado) :=
  let pLinha := if Select query then [] else pLinha
  let resposta := pqexec query
  if resposta.tuplas = false ∨ resposta.res.linhas = [] then
    .ok (⟨resposta.mensagem, 0, pLinha⟩, resposta.res)
  else do
    let pLinha ← if Select query then montaLinha resposta.res 0 pLinha else .ok pLinha
    return (⟨executado, resposta.res.linhas.length, pLinha⟩, resposta.res)

/-- `pqfh_sql_next`. -/
def pqfhSqlNext (res : Resultado) (registro : ℕ) : Except Stop (List Byte) :=
  montaLinha res registro []

/-! ## What a field writes -/

theorem sprintf_eq {size : ℕ} {format text : List Byte} {args : List Arg}
    (rendered : render .text format args = some text) :
    sprintf size format args = if text.length < size then .ok text else .error .undefined := by
  rw [sprintf, rendered]

/-- The buffers `fmt` and `buf_campo` have room for a field. -/
def Campo.Cabe (campo : Campo) : Prop :=
  if campo.Caractere then campo.tam ≤ maxRecLen else campo.tam < 110

instance (campo : Campo) : Decidable campo.Cabe := by
  unfold Campo.Cabe
  infer_instance

/-- What is written for a field. -/
def Campo.pedaco (campo : Campo) : List Byte :=
  if campo.Caractere then campo.valor.bytes
  else if campo.tam ≤ 10 then List.replicate (max (10 - campo.tam) 1) 48 ++ campo.valor.bytes
  else 48 :: List.replicate (campo.tam - 11) 32 ++ campo.valor.bytes

/-- `"%%-%ds"`. -/
theorem render_fmt_caractere (tam : ℕ) : render .text [37, 37, 45, 37, 100, 115] [.int tam] =
    some (37 :: 45 :: (digits tam ++ [115])) := by
  simp [render_literal, fillInt_natural]

/-- `"%%0%dd%%s"`. -/
theorem render_fmt_outro (n : ℤ) :
    render .text [37, 37, 48, 37, 100, 100, 37, 37, 115] [.int n] =
      some (37 :: 48 :: (fillInt false false 0 n ++ [100, 37, 115])) := by
  simp [render_literal]

/-- The format of a character field writes the text alone. -/
theorem render_caractere (texto : List Byte) :
    render .text (37 :: 45 :: (digits texto.length ++ [115])) [.str texto] = some texto := by
  rw [render_percent, render_minus, render_number]
  by_cases vazio : texto.length = 0
  · simp [vazio, fill_full]
  · simp [vazio, fill_full]

theorem bufCampo_caractere {campo : Campo} (caractere : campo.Caractere) :
    bufCampo campo =
      if campo.tam ≤ maxRecLen then .ok campo.valor.bytes else .error .undefined := by
  have buf := render_caractere campo.valor.bytes
  have short : (37 :: 45 :: (digits campo.tam ++ [115]) : List Byte).length < 9 ↔
      campo.tam < 10 ^ 5 := by
    rw [← length_digits_le_iff (by decide)]
    simp only [List.length_cons, List.length_append, List.length_nil]
    omega
  rw [bufCampo, if_pos caractere, sprintf_eq (render_fmt_caractere campo.tam)]
  by_cases curto : campo.tam < 10 ^ 5
  · rw [if_pos (short.mpr curto), ok_bind, Campo.tam, sprintf_eq buf]
    exact if_congr Nat.lt_succ_iff rfl rfl
  · have longo : ¬ campo.tam ≤ maxRecLen := by
      unfold maxRecLen
      omega
    rw [if_neg fun fits => curto (short.mp fits), if_neg longo]
    rfl

/-- The format of another field of at most ten characters. With ten the width is missing, and the
zero takes its one digit. -/
theorem render_curto (tam : ℕ) (texto : List Byte) :
    render .text (37 :: 48 :: (digits (10 - tam) ++ [100, 37, 115])) [.int 0, .str texto] =
      some (List.replicate (max (10 - tam) 1) 48 ++ texto) := by
  rw [render_percent, render_zero, render_number]
  by_cases cheio : 10 - tam = 0
  · simp [cheio, fillInt_zeros, fill_full]
  · simp [cheio, fillInt_zeros, fill_full]

theorem bufCampo_curto {campo : Campo} (outro : ¬ campo.Caractere) (curto : campo.tam ≤ 10) :
    bufCampo campo =
      .ok (List.replicate (max (10 - campo.tam) 1) 48 ++ campo.valor.bytes) := by
  have number : (10 : ℤ) - campo.tam = (10 - campo.tam : ℕ) := by omega
  have buf := render_curto campo.tam campo.valor.bytes
  have few := (@length_digits_le_iff (10 - campo.tam) 2 (by decide)).mpr (by omega)
  rw [bufCampo, if_neg outro, sprintf_eq (render_fmt_outro _), number, fillInt_natural, if_pos,
    ok_bind, sprintf_eq buf, if_pos]
  · rw [List.length_append, List.length_replicate]
    change max (10 - campo.tam) 1 + campo.tam < _
    unfold maxRecLen
    omega
  · simp only [List.length_cons, List.length_append, List.length_nil]
    omega

/-- The format of another field of more than ten characters. The difference is negative, and its
sign is the flag for the left. -/
theorem render_longo {tam : ℕ} (longo : 10 < tam) (texto : List Byte) :
    render .text (37 :: 48 :: 45 :: (digits (tam - 10) ++ [100, 37, 115])) [.int 0, .str texto] =
      some (48 :: List.replicate (tam - 11) 32 ++ texto) := by
  rw [render_percent, render_zero, render_minus, render_number, if_neg (by omega)]
  simp [fillInt_left, fill_full, Nat.sub_sub]

theorem bufCampo_longo {campo : Campo} (outro : ¬ campo.Caractere) (longo : 10 < campo.tam) :
    bufCampo campo = if campo.tam < 110 then
      .ok (48 :: List.replicate (campo.tam - 11) 32 ++ campo.valor.bytes)
    else .error .undefined := by
  have number : (10 : ℤ) - campo.tam = -((campo.tam - 10 : ℕ) : ℤ) := by omega
  have buf := render_longo longo campo.valor.bytes
  have short : (37 :: 48 :: 45 :: (digits (campo.tam - 10) ++ [100, 37, 115]) : List Byte).length
      < 9 ↔ campo.tam < 110 := by
    have few := @length_digits_le_iff (campo.tam - 10) 2 (by decide)
    simp only [List.length_cons, List.length_append, List.length_nil]
    omega
  rw [bufCampo, if_neg outro, sprintf_eq (render_fmt_outro _), number,
    fillInt_negative (by omega), List.cons_append]
  by_cases fits : campo.tam < 110
  · rw [if_pos (short.mpr fits), if_pos fits, ok_bind, sprintf_eq buf, if_pos]
    rw [List.length_append, List.length_cons, List.length_replicate]
    change campo.tam - 11 + 1 + campo.tam < _
    unfold maxRecLen
    omega
  · rw [if_neg fun less => fits (short.mp less), if_neg fits]
    rfl

/-- What a field writes to the line. -/
theorem bufCampo_eq (campo : Campo) :
    bufCampo campo = if campo.Cabe then .ok campo.pedaco else .error .undefined := by
  unfold Campo.Cabe Campo.pedaco
  by_cases caractere : campo.Caractere
  · rw [bufCampo_caractere caractere]
    simp only [caractere, ↓reduceIte]
  · by_cases curto : campo.tam ≤ 10
    · have fits : campo.tam < 110 := by omega
      rw [bufCampo_curto caractere curto]
      simp only [caractere, curto, fits, ↓reduceIte]
    · rw [bufCampo_longo caractere (not_le.mp curto)]
      simp only [caractere, curto, ↓reduceIte]

/-- What fields write to the line. -/
theorem montaCampos_eq (campos : List Campo) : ∀ pLinha : List Byte,
    campos.foldlM montaCampo pLinha = if ∀ campo ∈ campos, campo.Cabe then
      .ok (pLinha ++ campos.flatMap Campo.pedaco) else .error .undefined := by
  induction campos with
  | nil =>
      intro pLinha
      rw [List.flatMap_nil, List.append_nil]
      rfl
  | cons campo campos ih =>
      intro pLinha
      rw [List.foldlM_cons, montaCampo, bufCampo_eq]
      by_cases cabe : campo.Cabe
      · rw [if_pos cabe, ok_bind]
        change campos.foldlM montaCampo (pLinha ++ campo.pedaco) = _
        rw [ih, List.flatMap_cons, List.append_assoc]
        simp only [List.forall_mem_cons, cabe, true_and]
      · simp only [List.forall_mem_cons, cabe, false_and, ↓reduceIte]
        rfl

/-! ## The layout of a line -/

/-- What a field is to write: the text of a character field, and ten characters for any other
with at most ten. Longer ones have no place of their own. -/
def Campo.esperado (campo : Campo) : Option (List Byte) :=
  if campo.Caractere then some campo.valor.bytes
  else if campo.tam ≤ 10 then some (List.replicate (10 - campo.tam) 48 ++ campo.valor.bytes)
  else none

/-- The number of characters of a field in the line. -/
def Campo.largura (campo : Campo) : ℕ := if campo.Caractere then campo.tam else 10

/-- `monta_linha` adds to the line what each field is to write, and a field stands where the numbers
of the characters of those before it say. -/
def Disposta (res : Resultado) (linha : ℕ) (pLinha : List Byte) : Prop :=
  ∃ campos fim, res.campos linha = some campos ∧ montaLinha res linha pLinha = .ok fim ∧
    ∀ antes campo depois, campos = antes ++ campo :: depois →
      ∃ inicio, antes.foldlM montaCampo pLinha = .ok inicio ∧
        (∀ texto, campo.esperado = some texto →
          montaCampo inicio campo = .ok (inicio ++ texto)) ∧
        ((∀ outro ∈ antes, outro.esperado.isSome) →
          inicio.length = pLinha.length + (antes.map Campo.largura).sum)

theorem Campo.length_esperado {campo : Campo} {texto : List Byte}
    (esperado : campo.esperado = some texto) : texto.length = campo.largura := by
  unfold Campo.esperado at esperado
  unfold Campo.largura
  split at esperado
  · rename_i caractere
    cases esperado
    rw [if_pos caractere]
    rfl
  · rename_i outro
    rw [if_neg outro]
    split at esperado
    · cases esperado
      rw [List.length_append, List.length_replicate]
      change 10 - campo.tam + campo.tam = 10
      omega
    · cases esperado

/-- A field writes what it is to write unless it is one of exactly ten characters. -/
theorem Campo.pedaco_eq_iff {campo : Campo} {texto : List Byte}
    (esperado : campo.esperado = some texto) :
    campo.pedaco = texto ↔ (¬ campo.Caractere → campo.tam ≠ 10) := by
  unfold Campo.esperado at esperado
  unfold Campo.pedaco
  by_cases caractere : campo.Caractere
  · rw [if_pos caractere] at esperado ⊢
    exact iff_of_true (Option.some.inj esperado) fun outro => (outro caractere).elim
  · rw [if_neg caractere] at esperado ⊢
    by_cases curto : campo.tam ≤ 10
    · rw [if_pos curto] at esperado ⊢
      rw [← Option.some.inj esperado, List.append_left_inj, List.replicate_left_inj]
      constructor
      · intro same _
        omega
      · intro other
        have := other caractere
        omega
    · rw [if_neg curto] at esperado
      cases esperado

/-- The line of a row is laid out when no field that is not of a character type has exactly ten
characters, and otherwise not. -/
theorem disposta_iff {res : Resultado} {linha : ℕ} {campos : List Campo}
    (there : res.campos linha = some campos) (pLinha : List Byte) :
    Disposta res linha pLinha ↔
      ∀ campo ∈ campos, campo.Cabe ∧ (¬ campo.Caractere → campo.tam ≠ 10) := by
  have monta : montaLinha res linha pLinha = campos.foldlM montaCampo pLinha := by
    rw [montaLinha, there]
  constructor
  · rintro ⟨campos', fim, there', montada, layout⟩ campo member
    obtain rfl : campos' = campos := Option.some.inj (there'.symm.trans there)
    have room : ∀ campo ∈ campos', campo.Cabe := by
      by_contra full
      rw [monta, montaCampos_eq, if_neg full] at montada
      cases montada
    refine ⟨room campo member, fun outro => ?_⟩
    obtain ⟨antes, depois, split⟩ := List.append_of_mem member
    obtain ⟨inicio, _, writes, _⟩ := layout antes campo depois split
    by_cases curto : campo.tam ≤ 10
    · have esperado : campo.esperado =
          some (List.replicate (10 - campo.tam) 48 ++ campo.valor.bytes) := by
        rw [Campo.esperado, if_neg outro, if_pos curto]
      have written := writes _ esperado
      rw [montaCampo, bufCampo_eq, if_pos (room campo member), ok_bind] at written
      have piece := List.append_cancel_left (Except.ok.inj written)
      exact (Campo.pedaco_eq_iff esperado).mp piece outro
    · omega
  · intro good
    have room : ∀ campo ∈ campos, campo.Cabe := fun campo member => (good campo member).1
    refine ⟨campos, pLinha ++ campos.flatMap Campo.pedaco, there, ?_, ?_⟩
    · rw [monta, montaCampos_eq, if_pos room]
    intro antes campo depois split
    subst split
    have before : ∀ outro ∈ antes, outro.Cabe ∧ (¬ outro.Caractere → outro.tam ≠ 10) :=
      fun outro member => good outro (List.mem_append_left _ member)
    have here := good campo (List.mem_append_right _ List.mem_cons_self)
    refine ⟨pLinha ++ antes.flatMap Campo.pedaco, ?_, fun texto esperado => ?_, fun short => ?_⟩
    · rw [montaCampos_eq, if_pos fun outro member => (before outro member).1]
    · rw [montaCampo, bufCampo_eq, if_pos here.1, (Campo.pedaco_eq_iff esperado).mpr here.2]
      rfl
    · rw [List.length_append, List.length_flatMap]
      congr 2
      apply List.map_congr_left
      intro outro member
      obtain ⟨texto, esperado⟩ := Option.isSome_iff_exists.mp (short outro member)
      rw [(Campo.pedaco_eq_iff esperado).mpr (before outro member).2,
        Campo.length_esperado esperado]

/-- A row of an integer and a text. -/
def duasColunas (numero : Texto) : Resultado where
  tipos := [23, 1042]
  linhas := [[numero, ⟨[65, 66], by decide⟩]]
  inteiras := by simp

/-- The row of the integer 5. -/
theorem disposta_cinco : Disposta (duasColunas ⟨[53], by decide⟩) 0 [] :=
  (disposta_iff rfl []).mpr (by decide)

/-- The row of the integer 1234567890: it has eleven characters in the line. -/
theorem disposta_dez_fails :
    montaLinha (duasColunas ⟨[49, 50, 51, 52, 53, 54, 55, 56, 57, 48], by decide⟩) 0 [] =
        .ok [48, 49, 50, 51, 52, 53, 54, 55, 56, 57, 48, 65, 66] ∧
      ¬ Disposta (duasColunas ⟨[49, 50, 51, 52, 53, 54, 55, 56, 57, 48], by decide⟩) 0 [] := by
  refine ⟨by decide +kernel, ?_⟩
  rintro ⟨campos, fim, there, _, layout⟩
  cases there
  obtain ⟨inicio, first, writes, _⟩ := layout [] _ _ rfl
  cases first
  have written := writes [49, 50, 51, 52, 53, 54, 55, 56, 57, 48] (by decide)
  exact absurd written (by decide +kernel)

/-! ## The lines that a program gets -/

/-- The line that a row is to make. -/
def Resultado.disposicao (res : Resultado) (linha : ℕ) : List Byte :=
  ((res.campos linha).getD []).flatMap fun campo => campo.esperado.getD []

/-- The rows whose fields have a place of their own in the line, and get it. -/
def Resultado.Regular (res : Resultado) : Prop :=
  ∀ linha campos, res.campos linha = some campos → ∀ campo ∈ campos,
    campo.Cabe ∧ campo.esperado.isSome ∧ (¬ campo.Caractere → campo.tam ≠ 10)

theorem Resultado.Regular.montaLinha {res : Resultado} (regular : res.Regular) {linha : ℕ}
    (inside : linha < res.linhas.length) (pLinha : List Byte) :
    montaLinha res linha pLinha = .ok (pLinha ++ res.disposicao linha) := by
  have there : res.campos linha = some (List.zipWith Campo.mk res.tipos res.linhas[linha]) := by
    rw [Resultado.campos, List.getElem?_eq_getElem inside]
    rfl
  rw [Sql.montaLinha, Resultado.disposicao, there]
  change (List.zipWith Campo.mk res.tipos res.linhas[linha]).foldlM montaCampo pLinha = _
  rw [montaCampos_eq, if_pos fun campo member => (regular linha _ there campo member).1]
  congr 2
  rw [Option.getD_some, List.flatMap_def, List.flatMap_def]
  congr 1
  apply List.map_congr_left
  intro campo member
  obtain ⟨_, short, other⟩ := regular linha _ there campo member
  obtain ⟨texto, esperado⟩ := Option.isSome_iff_exists.mp short
  rw [esperado, (Campo.pedaco_eq_iff esperado).mpr other]
  rfl

/-- A program that sends a query gets the lines of all rows. -/
theorem recebe_linhas {pqexec : List Byte → Resposta} {query : List Byte} (select : Select query)
    (tuplas : (pqexec query).tuplas = true) (rows : (pqexec query).res.linhas ≠ [])
    (regular : (pqexec query).res.Regular) (pLinha : List Byte) :
    ∃ retorno res, pqfhExecutaSql pqexec query pLinha = .ok (retorno, res) ∧
      retorno.registros = res.linhas.length ∧ retorno.linha = res.disposicao 0 ∧
      ∀ registro < res.linhas.length, pqfhSqlNext res registro = .ok (res.disposicao registro) := by
  have first := regular.montaLinha (List.length_pos_iff.mpr rows) []
  refine ⟨⟨executado, (pqexec query).res.linhas.length, (pqexec query).res.disposicao 0⟩,
    (pqexec query).res, ?_, rfl, rfl, fun registro inside => ?_⟩
  · simp only [pqfhExecutaSql, tuplas, rows, select, ↓reduceIte, Bool.true_eq_false, or_self, first,
      ok_bind, List.nil_append]
    rfl
  · rw [pqfhSqlNext, regular.montaLinha inside, List.nil_append]

end Pqfh.Sql
