import Pqfh.Terminal.Escape

/-! # Painting the screen

`mostra` paints the rectangle that has changed: the background in stretches of one colour, and then
the characters, of which those of the line-drawing set are drawn by `Acs`. It marks the cells that a
line already goes through. Only these marks change the matrices; what is drawn is left out here.
-/

namespace Pqfh

open Java (CodeUnit int unit)

/-- `Acs.PROCESSADO`. -/
def Atributo.processado : BitVec 32 := 0x40

namespace Celula

def tem (celula : Celula) (bit : BitVec 32) : Bool := celula.atributo &&& bit = bit

/-- The colour behind the character. -/
def corDeFundo (celula : Celula) : CodeUnit :=
  if celula.tem Atributo.reverse then celula.frente else celula.fundo

def marca (celula : Celula) : Celula :=
  { celula with atributo := celula.atributo ||| Atributo.processado }

def desmarca (celula : Celula) : Celula :=
  { celula with atributo := celula.atributo &&& ~~~Atributo.processado }

end Celula

/-- What decides, besides the terminal, on how the window is painted. -/
structure Aparencia where
  /-- There are buttons in the navigation bar. -/
  navegacao : Bool
  /-- `estadoLogin` is `OK`. -/
  login : Bool
  /-- A line is shown as buttons. -/
  botoes : ℤ → Bool

namespace Terminal

def marca (t : Terminal) (i j : ℤ) : Resultado := t.grava i j (t.tela i j).marca

def desmarca (t : Terminal) (i j : ℤ) : Resultado := t.grava i j (t.tela i j).desmarca

/-! ## The background -/

/-- The last column of a stretch of a colour, of `n` columns up to the end of the rectangle. These
are looked at without regard to the width of the screen. -/
def fimDoTrecho (t : Terminal) (i : ℤ) (cor : CodeUnit) : ℕ → ℤ → Option ℤ
  | 0, x2 => some (x2 - 1)
  | n + 1, x2 =>
      if NaTela i x2 then
        if (t.tela i x2).corDeFundo = cor then t.fimDoTrecho i cor n (x2 + 1) else some (x2 - 1)
      else none

/-- A line from a column on. A stretch has a column at least, so there are no more turns than
columns. -/
def pintaLinha (limite i : ℤ) : ℕ → ℤ → Terminal → Resultado
  | 0, _, t => .ok t
  | n + 1, j, t =>
      if j < limite ∧ j < 80 then do
        let first ← t.desmarca i j
        match first.fimDoTrecho i (first.tela i j).corDeFundo (limite - j).toNat j with
        | none => .error first
        | some x2 => do
            let later ← (faixa j (x2 + 1)).foldlM (fun t k => t.desmarca i k) first
            pintaLinha limite i n (x2 + 1) later
      else .ok t

/-! ## The characters -/

/-- A line goes on through cells of a character of the line-drawing set. -/
def traca (letra : CodeUnit) : List (ℤ × ℤ) → Terminal → Resultado
  | [], t => .ok t
  | (i, j) :: rest, t =>
      if NaTela i j then
        if (t.tela i j).dado = letra ∧ (t.tela i j).tem Atributo.acs then do
          let later ← t.marca i j
          traca letra rest later
        else .ok t
      else .error t

def horizontal (t : Terminal) (y x : ℤ) : Resultado :=
  traca (unit 'D') ((faixa (x + 1) 80).map fun j => (y, j)) t

/-- The lines are counted up to the number of columns. -/
def vertical (t : Terminal) (y x : ℤ) : Resultado :=
  traca (unit '3') ((faixa (y + 1) 80).map fun i => (i, x)) t

/-- `Acs.processa`. The other characters of the set are drawn within their cell. -/
def acs (t : Terminal) (y x : ℤ) : Resultado := do
  let processada := (t.tela y x).tem Atributo.processado
  let dado := (t.tela y x).dado
  let first ← (if processada then t.desmarca y x else .ok t)
  if processada ∧ (dado = unit '3' ∨ dado = unit 'D') then .ok first
  else do
    let later ← first.marca y x
    if dado = unit 'D' then later.horizontal y x
    else if dado = unit '3' then later.vertical y x
    else .ok later

/-- A cell of the rectangle. -/
def mostraCelula (i : ℤ) (t : Terminal) (j : ℤ) : Resultado :=
  if NaTela i j then if (t.tela i j).tem Atributo.acs then t.acs i j else .ok t
  else .error t

/-- A line of the rectangle. -/
def mostraLinha (janela : Aparencia) (x limite : ℤ) (t : Terminal) (i : ℤ) : Resultado :=
  if (i = 22 ∨ i = 23) ∧ janela.botoes i then .ok t
  else (faixa x (min limite 80)).foldlM (mostraCelula i) t

/-- The rectangle. -/
def pinta (janela : Aparencia) (t : Terminal) : Resultado := do
  let limite := int (t.r.x + t.r.width)
  let lines := faixa t.r.y (min (int (t.r.y + t.r.height)) 25)
  let later ← lines.foldlM
    (fun t' i => pintaLinha limite i (limite - t.r.x).toNat t.r.x t') t
  lines.foldlM (mostraLinha janela t.r.x limite) later

/-- `mostra`. Whether the last menu has been left is decided by the cell under the cursor. -/
def mostra (janela : Aparencia) (t : Terminal) : Resultado :=
  if janela.navegacao ∧ ¬ NaTela t.lin t.col then .error t
  else if janela.login then t.pinta janela
  else .ok t

end Terminal

end Pqfh
