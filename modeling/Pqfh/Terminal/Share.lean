import Pqfh.Central.Agente
import Pqfh.Foundation.Reencoded
import Pqfh.Terminal.Receive

/-! # A shared screen

A client that shares its screen sends the lines of the rectangle that has changed to the sharing
server, a character for each byte. The agent of the session passes them on as UTF-8; the support
reads these bytes with a character for each, and puts the text in a buffer of as many bytes of UTF-8
as it has characters, which its terminal takes.
-/

namespace Pqfh

open Abrupt (final)
open Java (CodeUnit Octet Str decodeLatin1 encodeLatin1 encodeUtf8 formatInt int lit substring)

/-! ## The client -/

namespace Terminal

/-- A part of a line of a matrix. -/
def trecho (linha : ℤ → CodeUnit) (x1 x2 : ℤ) : Option Str :=
  if 0 ≤ x1 ∧ 0 ≤ x2 + 1 then substring ((faixa 0 80).map linha) x1.toNat (x2 + 1).toNat else none

/-- The attributes of a part of a line, two characters or more for each. -/
def textoDosAtributos (t : Terminal) (lin x1 x2 : ℤ) : Option Str :=
  ((faixa x1 (x2 + 1)).mapM fun j =>
    if NaTela lin j then some (formatInt 2 (t.tela lin j).atributo.toInt)
    else none).map List.flatten

/-- The command that sends a line, `nl` being what `%n` is. -/
def comandoRefresh (nl : Str) (sessao chave : ℤ) (t : Terminal) (x1 x2 lin : ℤ) : Option Str := do
  let atrs ← t.textoDosAtributos lin x1 x2
  if 0 ≤ lin ∧ lin < 25 then
    let dados ← trecho (fun j => (t.tela lin j).dado) x1 x2
    let frente ← trecho (fun j => (t.tela lin j).frente) x1 x2
    let fundo ← trecho (fun j => (t.tela lin j).fundo) x1 x2
    some (lit "REFRESH   " ++ formatInt 4 sessao ++ formatInt 4 chave ++ formatInt 2 lin ++
      formatInt 2 x1 ++ formatInt 2 x2 ++ dados ++ frente ++ fundo ++ atrs ++ nl)
  else none

/-- The lines are written one by one, up to an exception. -/
def escreveLinhas (nl : Str) (sessao chave : ℤ) (t : Terminal) (x1 x2 : ℤ) : List ℤ → List Octet
  | [] => []
  | lin :: lines =>
      match t.comandoRefresh nl sessao chave x1 x2 lin with
      | none => []
      | some cmd => encodeLatin1 cmd ++ escreveLinhas nl sessao chave t x1 x2 lines

/-- `Compartilhamento.atualiza`: what is written to the sharing server. -/
def compartilha (nl : Str) (sessao chave : ℤ) (t : Terminal) : List Octet :=
  let y2 := int (int (t.r.y + t.r.height) - 1)
  let x2 := int (int (t.r.x + t.r.width) - 1)
  escreveLinhas nl sessao chave t t.r.x x2 (faixa t.r.y (y2 + 1))

end Terminal

/-! ## The agent -/

/-- What the thread of an agent writes to its support, for some bytes of the client. -/
def Agente.repassa : ℕ → Agente → List Octet → List Octet
  | 0, _, _ => []
  | n + 1, agente, bytes =>
      let rest := bytes.drop 18
      if 10 ∈ rest then
        match agente.quadro.map fun quadro =>
            agente.mensagem quadro (bytes.take 18) (rest.takeWhile (· ≠ 10)) with
        | some (.segue later) =>
            let after := (rest.dropWhile (· ≠ 10)).tail
            match later.fase with
            | .enviando s => encodeUtf8 s ++ repassa n { later with fase := .lendo } after
            | _ => repassa n later after
        | _ => []
      else []

/-! ## The support -/

/-- The lines that `readLine` returns, after the bytes of the first that were read. -/
def linhasLidas : List Octet → List Octet → List (List Octet)
  | _, [] => []
  | sb, c :: rest => if c = 10 then sb :: linhasLidas [] rest else linhasLidas (sb ++ [c]) rest

/-- The buffer of a line. There is a byte at least for each character. -/
def bufferDaLinha (linha : List Octet) : List Octet :=
  let cmd := lit "SUPORTE:" ++ decodeLatin1 linha
  (encodeUtf8 cmd).take cmd.length

namespace Terminal

/-- `processaSuporte`: the terminal takes the lines one after the other. -/
def processaSuporte (letras : CodeUnit → Bool) (t : Terminal) (bytes : List Octet) : Terminal :=
  (linhasLidas [] bytes).foldl (fun t linha => final (t.atualiza letras (bufferDaLinha linha))) t

end Terminal

/-! ## The four programs -/

/-- A session with a support attached, whose agent waits for a message of its client. -/
structure Partilha where
  nl : Str
  agente : Agente
  lendo : agente.fase = .lendo
  linha : nl = [10] ∨ nl = [13, 10]
  pronto : agente.quadro.isSome
  atende : agente.sockSuporte.isSome
  sessao : agente.sessao < 10000
  chave : 0 ≤ agente.chave ∧ agente.chave < 10000

namespace Partilha

/-- What the support receives when the client shares what has changed. -/
def transmite (partilha : Partilha) (cliente : Terminal) : List Octet :=
  let bytes := cliente.compartilha partilha.nl partilha.agente.sessao partilha.agente.chave
  partilha.agente.repassa bytes.length bytes

end Partilha

namespace Terminal

/-- A place of the rectangle that has changed. -/
def NaRegiao (t : Terminal) (i j : ℤ) : Prop :=
  t.r.y ≤ i ∧ i < t.r.y + t.r.height ∧ t.r.x ≤ j ∧ j < t.r.x + t.r.width

/-- The rectangle that has changed is on the screen. -/
structure RegiaoNaTela (t : Terminal) : Prop where
  x : 0 ≤ t.r.x ∧ t.r.x + t.r.width ≤ 80
  y : 0 ≤ t.r.y ∧ t.r.y + t.r.height ≤ 25
  width : 1 ≤ t.r.width
  height : 1 ≤ t.r.height

/-- The matrices of any support are those of the client in the rectangle, and as they were outside.
-/
def Chega (letras : CodeUnit → Bool) (partilha : Partilha) (cliente : Terminal) : Prop :=
  ∀ (suporte : Terminal) (i j : ℤ),
    let later := suporte.processaSuporte letras (partilha.transmite cliente)
    (cliente.NaRegiao i j → later.tela i j = cliente.tela i j) ∧
      (¬ cliente.NaRegiao i j → later.tela i j = suporte.tela i j)

/-- A character of one byte, in ISO-8859-1 as in UTF-8, that does not end a line. -/
def Simples (ch : CodeUnit) : Prop := ch.val < 128 ∧ ch ≠ 10

/-- The characters of a cell have one byte each, and its attributes are written in two characters.
-/
structure CelulaSimples (celula : Celula) : Prop where
  dado : Simples celula.dado
  frente : Simples celula.frente
  fundo : Simples celula.fundo
  atributo : -10 < celula.atributo.toInt ∧ celula.atributo.toInt < 100

end Terminal

end Pqfh
