import Pqfh.Core.Bytes
import Pqfh.Foundation.JavaText

/-! # The agent of a shared session

The sharing server has a thread for each client that shares its screen. It reads messages of a
command, the session, the key and a text, keeps the lines of the screen, and passes on what changes
on it (`REFRESH`): to the support that is attached, or to a list of pending messages.
-/

namespace Pqfh

open Java (Octet Str lit substring trim parseInt decodeUtf8 decodeLatin1 formatInt)

/-- The number of lines of the screen that an agent keeps. -/
def linhas : ℕ := 25

/-- The four parts of a screen, in the order in which they are sent. -/
inductive Parte where
  | dados
  | frente
  | fundo
  | atributos
  deriving Repr, DecidableEq

namespace Parte

def todas : List Parte := [.dados, .frente, .fundo, .atributos]

/-- The command that sends a line of a part. -/
def cmd : Parte → Str
  | .dados => lit "DADOS"
  | .frente => lit "FRENTE"
  | .fundo => lit "FUNDO"
  | .atributos => lit "ATRIBUTOS"

end Parte

/-- The lines that an agent has received. -/
structure Quadro where
  dados : List (Option Str)
  frente : List (Option Str)
  fundo : List (Option Str)
  atributos : List (Option Str)
  deriving Repr, DecidableEq

namespace Quadro

/-- Before any line was received. -/
def vazio : Quadro :=
  let nulls := List.replicate linhas none
  ⟨nulls, nulls, nulls, nulls⟩

def parte (quadro : Quadro) : Parte → List (Option Str)
  | .dados => quadro.dados
  | .frente => quadro.frente
  | .fundo => quadro.fundo
  | .atributos => quadro.atributos

/-- A line, or `null`. -/
def linha (quadro : Quadro) (parte : Parte) (lin : ℕ) : Option Str :=
  ((quadro.parte parte)[lin]?).join

def set (quadro : Quadro) (parte : Parte) (lin : ℕ) (s : Str) : Quadro :=
  match parte with
  | .dados => { quadro with dados := quadro.dados.set lin (some s) }
  | .frente => { quadro with frente := quadro.frente.set lin (some s) }
  | .fundo => { quadro with fundo := quadro.fundo.set lin (some s) }
  | .atributos => { quadro with atributos := quadro.atributos.set lin (some s) }

end Quadro

/-- Where an agent stands. The place of a message that is passed on is decided before it is put
there. -/
inductive Fase where
  /-- Before it reads a message. -/
  | lendo
  /-- `sockSuporte` was null: the message is to be added to the pending ones. -/
  | guardando (s : Str)
  /-- `sockSuporte` was not null: the message is to be written to it. -/
  | enviando (s : Str)
  deriving Repr, DecidableEq

/-- `Agente`. The lines are `none` before the thread has begun. -/
structure Agente where
  sessao : ℕ
  chave : ℤ
  vivo : Bool
  quadro : Option Quadro
  sockSuporte : Option ℕ
  pendentes : List Str
  fase : Fase
  deriving Repr, DecidableEq

/-- A new agent, whose thread was started. -/
def Agente.novo (sessao : ℕ) (chave : ℤ) : Agente :=
  ⟨sessao, chave, true, none, none, [], .lendo⟩

/-- What comes of a message. -/
inductive Efeito where
  /-- The thread ends: a `return` or an exception. -/
  | retorna
  /-- The session is to be removed, and then the thread ends. -/
  | stop
  | segue (agente : Agente)

/-- A line of a part of the screen is received. -/
def Agente.recebeLinha (agente : Agente) (quadro : Quadro) (parte : Parte) (s : Str) : Efeito :=
  match (substring s 0 2).bind parseInt with
  | none => .retorna
  | some i =>
      if 0 ≤ i ∧ i < linhas then
        .segue { agente with quadro := some (quadro.set parte i.toNat (s.drop 2)) }
      else .retorna

/-- A message to be passed on is received. -/
def Agente.recebeRefresh (agente : Agente) (s : Str) : Agente :=
  { agente with fase := if agente.sockSuporte.isSome then .enviando s else .guardando s }

/-- The commands of `run`. -/
def Agente.comando (agente : Agente) (quadro : Quadro) (cabec cmd s : Str) : Efeito :=
  if cmd = lit "STOP" then .stop
  else
    match Parte.todas.find? fun parte => cmd = parte.cmd with
    | some parte => agente.recebeLinha quadro parte s
    | none =>
        if cmd = lit "REFRESH" then .segue (agente.recebeRefresh (cabec ++ s ++ [10]))
        else .segue agente

/-- A turn of the loop of `run`, for the bytes of the header that were read and those of the rest of
the line. -/
def Agente.mensagem (agente : Agente) (quadro : Quadro) (cabec corpo : List Octet) : Efeito :=
  if cabec.length ≠ 18 then .retorna
  else
    let texto := decodeUtf8 cabec
    match substring texto 0 10, (substring texto 10 14).bind parseInt,
      (substring texto 14 18).bind parseInt with
    | some cmd, some sessao, some chave =>
        if sessao ≠ agente.sessao ∨ chave ≠ agente.chave then .retorna
        else agente.comando quadro cmd (trim cmd) (decodeLatin1 corpo)
    | _, _, _ => .retorna

/-! ## The lines of a screen -/

/-- Every line was received. -/
def Quadro.Completo (quadro : Quadro) : Prop :=
  ∀ parte, ∀ lin < linhas, (quadro.linha parte lin).isSome

theorem Quadro.parte_set (quadro : Quadro) (parte other : Parte) (i : ℕ) (s : Str) :
    (quadro.set parte i s).parte other =
      if parte = other then (quadro.parte other).set i (some s) else quadro.parte other := by
  cases parte <;> cases other <;> rfl

/-- A line that was received does not become null again. -/
theorem Quadro.Completo.set {quadro : Quadro} (completo : quadro.Completo) (parte : Parte) (i : ℕ)
    (s : Str) : (quadro.set parte i s).Completo := by
  intro other lin inside
  have before := completo other lin inside
  unfold Quadro.linha at before ⊢
  rw [Quadro.parte_set]
  split
  · rw [List.getElem?_set]
    split
    · split
      · rfl
      · rename_i same short
        rw [List.getElem?_eq_none (same ▸ Nat.le_of_not_lt short)] at before
        exact before
    · exact before
  · exact before

end Pqfh
