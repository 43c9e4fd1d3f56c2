import Pqfh.Terminal.Escape

/-! # What the terminal receives

The terminal takes one buffer at a time. What comes from the host goes character by character
through a parser of three states, which it keeps from buffer to buffer; a line of a shared screen is
written to the matrices. An exception drops the rest of a buffer.
-/

namespace Pqfh

open Java (CodeUnit Octet Str decodeUtf8 lit parseInt substring trim unit)

namespace Terminal

/-- `Character.isAlphabetic`, by what it answers beyond ASCII. -/
def alfabetico (letras : CodeUnit → Bool) (ch : CodeUnit) : Bool :=
  if ch < 128 then (65 ≤ ch && ch ≤ 90) || (97 ≤ ch && ch ≤ 122) else letras ch

/-! ## A character -/

/-- A character of the text. -/
def mostraCaractere (t : Terminal) (ch : CodeUnit) : Resultado := do
  let later ← t.grava t.lin t.col (t.celula ch)
  if later.col < 79 then
    .ok ({ later with col := later.col + 1 }.alteraRegiao (later.col + 1) (-1))
  else
    -- there is no line below the last, and no scroll
    .ok ({ later with col := 0, lin := later.lin + 1 }.alteraRegiao 0 (later.lin + 1))

/-- `'\r'`. -/
def retorna (t : Terminal) : Terminal := { t with col := 0 }.alteraRegiao 0 (-1)

/-- `'\n'`. -/
def avanca (t : Terminal) : Resultado :=
  if t.lin < 24 then .ok ({ t with lin := t.lin + 1 }.alteraRegiao (-1) (t.lin + 1))
  else do
    let later ← t.scroll
    .ok (later.alteraRegiao (-1) (-1))

/-- `'\b'`. The column is changed before the character is cleared. -/
def volta (t : Terminal) : Resultado :=
  if 0 < t.col then do
    let back := { t with col := t.col - 1 }
    let later ← back.grava back.lin back.col { back.tela back.lin back.col with dado := unit ' ' }
    .ok (later.alteraRegiao later.col (-1))
  else .ok t

/-- A character in the initial state. -/
def texto (t : Terminal) (ch : CodeUnit) : Resultado :=
  if ch = 13 then .ok t.retorna
  else if ch = 10 then t.avanca
  else if ch = 8 then t.volta
  else if ch = 27 then .ok { t with estado := .esc }
  else if ch = 7 then .ok t
  else t.mostraCaractere ch

/-- `seq[iseq++] = ch`. -/
def acumula (t : Terminal) (ch : CodeUnit) : Resultado :=
  let later := { t with iseq := t.iseq + 1 }
  if t.iseq < 256 then .ok { later with seq := t.seq ++ [ch] } else .error later

/-- The start of a command that is to be executed, `un` being whether the buffer goes on so. -/
def Executa (t : Terminal) (un : Bool) : Prop := t.seq = lit "[]R" ∧ un = true

instance (t : Terminal) (un : Bool) : Decidable (t.Executa un) :=
  inferInstanceAs (Decidable (t.seq = lit "[]R" ∧ un = true))

/-- The last character of an escape sequence. -/
def encerra (un : Bool) (t : Terminal) (ch : CodeUnit) : Resultado := do
  let later ← t.processaSeq ch
  if later.Executa un then .ok { later with estado := .exec }
  else .ok { later with seq := [], iseq := 0, estado := .inicial }

/-- A character of an escape sequence. -/
def escape (letras : CodeUnit → Bool) (un : Bool) (t : Terminal) (ch : CodeUnit) : Resultado := do
  let later ← t.acumula ch
  if alfabetico letras ch then later.encerra un ch else .ok later

/-- A character of a command that is to be executed. `iseq` stays as it is at the end. -/
def comandoExec (t : Terminal) (ch : CodeUnit) : Resultado := do
  let later ← t.acumula ch
  .ok (if ch = unit '*' then { later with estado := .inicial } else later)

/-- A character of the host. -/
def caractere (letras : CodeUnit → Bool) (un : Bool) (t : Terminal) (ch : CodeUnit) : Resultado :=
  match t.estado with
  | .inicial => t.texto ch
  | .esc => escape letras un t ch
  | .exec => t.comandoExec ch

/-- The characters of a buffer, from a place on. -/
def percorre (letras : CodeUnit → Bool) (un : ℕ → Bool) : ℕ → Terminal → Str → Resultado
  | _, t, [] => .ok t
  | i, t, ch :: rest => do
      let later ← caractere letras (un i) t ch
      percorre letras un (i + 1) later rest

/-! ## A shared screen -/

/-- A character is written to one of the matrices, when the text has it. -/
def escreve (campo : Celula → CodeUnit → Celula) (i : ℤ) (valor : ℤ → Option CodeUnit)
    (t : Terminal)
    (j : ℤ) : Resultado :=
  match valor j with
  | none => .error t
  | some ch => t.grava i j (campo (t.tela i j) ch)

/-- Attributes are written, when they can be parsed. -/
def escreveAtributo (i : ℤ) (valor : ℤ → Option ℤ) (t : Terminal) (j : ℤ) : Resultado :=
  match valor j with
  | none => .error t
  | some atributo => t.grava i j { t.tela i j with atributo := BitVec.ofInt 32 atributo }

def comDado (celula : Celula) (ch : CodeUnit) : Celula := { celula with dado := ch }

def comFrente (celula : Celula) (ch : CodeUnit) : Celula := { celula with frente := ch }

def comFundo (celula : Celula) (ch : CodeUnit) : Celula := { celula with fundo := ch }

/-- `DADOS`, `FRENTE` and `FUNDO`. -/
def recebeLinha (campo : Celula → CodeUnit → Celula) (t : Terminal) (y : ℤ) (args : Str) :
    Resultado := do
  let n : ℤ := min (args.length - 2) 80
  let later ← (faixa 0 n).foldlM (escreve campo y fun x => args[(x + 2).toNat]?) t
  (faixa n 80).foldlM (escreve campo y fun _ => some (unit ' ')) later

/-- `ATRIBUTOS`. -/
def recebeAtributos (t : Terminal) (y : ℤ) (args : Str) : Resultado := do
  let n : ℤ := min (args.length - 2) 160
  let atributo : ℤ → Option ℤ := fun x =>
    (substring args (2 + x * 2).toNat (2 + x * 2 + 2).toNat).bind parseInt
  let later ← (faixa 0 (n / 2)).foldlM (escreveAtributo y atributo) t
  let last ← (faixa n 80).foldlM (escreveAtributo y fun _ => some 0) later
  .ok ((last.alteraRegiao 0 y).alteraRegiao 79 y)

/-- A turn of the loop of `REFRESH`, for `n` columns from `x1` on. -/
def refresca (args : Str) (y x1 n : ℤ) (t : Terminal) (x : ℤ) : Resultado := do
  let j := x - x1
  let t ← t.escreve comDado y (fun _ => args[(j + 6).toNat]?) x
  let t ← t.escreve comFrente y (fun _ => args[(j + 6 + n).toNat]?) x
  let t ← t.escreve comFundo y (fun _ => args[(j + 6 + n * 2).toNat]?) x
  t.escreveAtributo y (fun _ => (substring args (j * 2 + 6 + n * 3).toNat
    (j * 2 + 6 + 2 + n * 3).toNat).bind parseInt) x

/-- `REFRESH`. -/
def recebeRefresh (t : Terminal) (y : ℤ) (args : Str) : Resultado :=
  match (substring args 2 4).bind parseInt, (substring args 4 6).bind parseInt with
  | some x1, some x2 => do
      let later ← (faixa x1 (x2 + 1)).foldlM (refresca args y x1 (x2 - x1 + 1)) t
      .ok ((later.alteraRegiao x1 y).alteraRegiao x2 y)
  | _, _ => .error t

/-- A line that the sharing server has passed on. -/
def suporte (t : Terminal) (s : Str) : Resultado :=
  let args := s.drop 18
  match substring s 8 18, (substring args 0 2).bind parseInt with
  | some field, some y =>
      let cmd := trim field
      if cmd = lit "DADOS" then t.recebeLinha comDado y args
      else if cmd = lit "FRENTE" then t.recebeLinha comFrente y args
      else if cmd = lit "FUNDO" then t.recebeLinha comFundo y args
      else if cmd = lit "ATRIBUTOS" then t.recebeAtributos y args
      else if cmd = lit "REFRESH" then t.recebeRefresh y args
      else .ok t
  | _, _ => .error t

/-! ## A buffer -/

/-- A buffer goes on with `un` after a place. -/
def segueUn (comandos : List Octet) (tam i : ℕ) : Bool :=
  i + 2 < tam && comandos[i + 1]? = some 117 && comandos[i + 2]? = some 110

/-- The rectangle when a buffer is taken. -/
def inicia (t : Terminal) : Terminal := { t with r := ⟨t.col, t.lin, 1, 1⟩ }

/-- `atualiza`, for the bytes of a buffer. -/
def atualiza (letras : CodeUnit → Bool) (t : Terminal) (comandos : List Octet) : Resultado :=
  let s := decodeUtf8 comandos
  if (lit "SUPORTE:").isPrefixOf s then t.inicia.suporte s
  else percorre letras (segueUn comandos s.length) 0 t.inicia s

end Terminal

end Pqfh
