import Pqfh.Terminal.Screen

/-! # Escape sequences

A sequence is collected in `seq` and carried out at its last character. Its parameters are texts
that are parsed as integers, and each command moves the cursor, clears or sets the attributes.
-/

namespace Pqfh

open Java (CodeUnit Str int lit parseInt substring unit)

/-- What a parameter of `m` does. -/
inductive Atributo where
  | normal
  | liga (bit : BitVec 32)
  | desliga (bit : BitVec 32)
  | frente (cor : CodeUnit)
  | fundo (cor : CodeUnit)
  deriving Repr, DecidableEq

namespace Atributo

def reverse : BitVec 32 := 0x01

def acs : BitVec 32 := 0x02

def bold : BitVec 32 := 0x04

def underline : BitVec 32 := 0x08

def blink : BitVec 32 := 0x10

def invisible : BitVec 32 := 0x20

/-- The parameters of `m`. -/
def todos : List (Str × Atributo) :=
  [(lit "", normal), (lit "0", normal),
    (lit "1", liga bold), (lit "4", liga underline), (lit "5", liga blink), (lit "7", liga reverse),
    (lit "8", liga invisible), (lit "10", desliga acs), (lit "12", liga acs),
    (lit "30", frente (unit 'b')), (lit "31", frente (unit 'R')), (lit "32", frente (unit 'G')),
    (lit "33", frente (unit 'Y')), (lit "34", frente (unit 'B')), (lit "35", frente (unit 'M')),
    (lit "36", frente (unit 'C')), (lit "37", frente (unit 'W')),
    (lit "40", fundo (unit 'b')), (lit "41", fundo (unit 'R')), (lit "42", fundo (unit 'G')),
    (lit "43", fundo (unit 'Y')), (lit "44", fundo (unit 'B')), (lit "45", fundo (unit 'M')),
    (lit "46", fundo (unit 'C')), (lit "47", fundo (unit 'W'))]

end Atributo

namespace Terminal

/-- The number of a cursor movement. -/
def quantos (prms : Str) : Option ℤ := if prms = [] then some 1 else parseInt prms

def cursorUp (t : Terminal) (prms : Str) : Resultado :=
  if 0 < t.lin then
    match quantos prms with
    | none => .error t
    | some n =>
        let lin := if n ≤ t.lin then int (t.lin - n) else 0
        .ok ({ t with lin := lin }.alteraRegiao (-1) lin)
  else .ok t

def cursorDown (t : Terminal) (prms : Str) : Resultado :=
  if t.lin < 24 then
    match quantos prms with
    | none => .error t
    | some n => .ok ({ t with lin := int (t.lin + n) }.alteraRegiao (-1) (int (t.lin + n)))
  else .ok t

def cursorForward (t : Terminal) (prms : Str) : Resultado :=
  match quantos prms with
  | none => .error t
  | some n => .ok ({ t with col := int (t.col + n) }.alteraRegiao (int (t.col + n)) (-1))

def cursorBackward (t : Terminal) (prms : Str) : Resultado :=
  match quantos prms with
  | none => .error t
  | some n =>
      let col := if n ≤ t.col then int (t.col - n) else 0
      .ok ({ t with col := col }.alteraRegiao col (-1))

/-- A coordinate, from 1. -/
def coordenada (coordenadas : List Str) (k : ℕ) : Option ℤ :=
  (coordenadas[k]?).bind fun text => (parseInt text).map fun n => int (n - 1)

/-- The line is set before the column is parsed. -/
def home (t : Terminal) (prms : Str) : Resultado :=
  if unit ';' ∈ prms then
    let coordenadas := Java.split prms (unit ';')
    match coordenada coordenadas 0 with
    | none => .error t
    | some lin =>
        match coordenada coordenadas 1 with
        | none => .error { t with lin := lin }
        | some col => .ok ({ t with lin := lin, col := col }.alteraRegiao (-1) (-1))
  else .ok ({ t with lin := 0, col := 0 }.alteraRegiao (-1) (-1))

/-- From the cursor on, or the whole screen. -/
def clear (t : Terminal) (prms : Str) : Resultado := do
  let first ← (if prms = lit "2" then t.home [] else .ok t)
  let line ← first.limpaLinha first.col first.lin
  let later ← (faixa (int (line.lin + 1)) 25).foldlM (limpaLinha 0) line
  let x1 := if int (line.lin + 1) < 25 then 0 else t.col
  .ok ((later.alteraRegiao x1 (-1)).alteraRegiao 79 24)

def el (t : Terminal) : Resultado := do
  let later ← t.limpaLinha t.col t.lin
  .ok (later.alteraRegiao 79 (-1))

/-- A parameter of `m`, with the local `atributo` of `setaAtributos`, which `0` leaves as it was. -/
def aplica (now : Terminal × BitVec 32) (atr : Str) : Terminal × BitVec 32 :=
  match Atributo.todos.lookup atr with
  | none => now
  | some .normal =>
      ({ now.1 with atributo := 0, corFrente := unit 'W', corFundo := unit 'b' }, now.2)
  | some (.liga bit) => ({ now.1 with atributo := now.2 ||| bit }, now.2 ||| bit)
  | some (.desliga bit) => ({ now.1 with atributo := now.2 &&& ~~~bit }, now.2 &&& ~~~bit)
  | some (.frente cor) => ({ now.1 with corFrente := cor }, now.2)
  | some (.fundo cor) => ({ now.1 with corFundo := cor }, now.2)

def setaAtributos (t : Terminal) (seq : Str) : Terminal :=
  let atrs := Java.split (seq.filter fun ch => ch ≠ unit '[' ∧ ch ≠ unit 'm') (unit ';')
  (atrs.foldl aplica (t, t.atributo)).1

/-- The parameters of a sequence. `[` alone is followed by none, and has no place for its end. -/
def parametros (seq : Str) : Option Str :=
  substring seq (if seq.head? = some (unit '[') then 1 else 0) (seq.length - 1)

/-- The command of a last character. -/
def comando (t : Terminal) (prms : Str) (ch : CodeUnit) : Resultado :=
  if ch = unit 'A' then t.cursorUp prms
  else if ch = unit 'B' then t.cursorDown prms
  else if ch = unit 'C' then t.cursorForward prms
  else if ch = unit 'D' then t.cursorBackward prms
  else if ch = unit 'H' then t.home prms
  else if ch = unit 'J' then t.clear prms
  else if ch = unit 'K' then t.el
  else if ch = unit 'm' then .ok (t.setaAtributos t.seq)
  else .ok t

/-- `processaSeq`, at the last character. -/
def processaSeq (t : Terminal) (ch : CodeUnit) : Resultado :=
  match parametros t.seq with
  | none => .error t
  | some prms => t.comando prms ch

end Terminal

end Pqfh
