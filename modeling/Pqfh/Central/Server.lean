import Mathlib.Data.List.AList
import Pqfh.Central.Agente

/-! # The sharing server

`Central.main` accepts one connection after the other, of clients and of supports. For a client it
starts an agent and puts it into the map of the sessions. A support is served within the thread of
`main`, since the constructor of `AgenteSuporte` has the whole exchange in it: the lines of the
screen, the pending messages of the agent, and what the support types until it leaves.

A step is one of `main` or of an agent. They touch the same data at the same time, so each step is
what one of them does between two such accesses.
-/

namespace Pqfh

open Java (Octet Str lit substring parseInt decodeUtf8 formatInt)

/-- A support that has connected, with what was written to it. -/
structure Suporte where
  resposta : Str
  recebido : List Str
  /-- The agent to whose `setSockSuporte` it was passed. -/
  agente : Option ℕ
  deixou : Bool
  deriving Repr, DecidableEq

/-- Something is written to a support. What has left gets no more. -/
def Suporte.recebe (suporte : Suporte) (texto : Str) : Suporte :=
  if suporte.deixou then suporte else { suporte with recebido := suporte.recebido ++ [texto] }

/-- Where `main` stands. -/
inductive Principal where
  /-- Before `accept`. -/
  | accept
  /-- Before it puts the agent into the map. The agent has started. -/
  | registra (sessao a : ℕ)
  /-- Before it writes a line to a support, of `k` lines before. -/
  | retrata (s a k : ℕ)
  /-- `sockSuporte` is set, and the loop over the pending messages has not begun. -/
  | ligada (s a : ℕ)
  /-- In that loop, at a place, with the number of messages when it began. -/
  | descarrega (s a i n : ℕ)
  /-- It reads what the support types. -/
  | atende (s a : ℕ)
  /-- An exception has ended it. -/
  | morta
  deriving Repr, DecidableEq

/-- The state of the server: the map `agentes`, the agents and the supports in the order in which
they came, and where `main` stands. -/
structure Central where
  agentes : AList fun _ : ℕ => ℕ
  threads : List Agente
  suportes : List Suporte
  principal : Principal

namespace Central

/-- Before the first connection. -/
def inicial : Central := ⟨∅, [], [], .accept⟩

def setAgente (st : Central) (a : ℕ) (agente : Agente) : Central :=
  { st with threads := st.threads.set a agente }

def setPrincipal (st : Central) (principal : Principal) : Central :=
  { st with principal := principal }

def escreve (st : Central) (s : ℕ) (texto : Str) : Central :=
  { st with suportes := st.suportes.modify s fun suporte => suporte.recebe texto }

/-! ## The steps of main -/

/-- The number of a new session, `agentes.size() + 1`. -/
def proxima (st : Central) : ℕ := st.agentes.keys.length + 1

/-- A client connects, with the four bytes of its key. -/
def cliente (st : Central) (buf : List Octet) : Option Central :=
  if st.principal = .accept then
    match parseInt (decodeUtf8 buf) with
    | none => some (st.setPrincipal .morta)
    | some chave => some { st with
        threads := st.threads ++ [Agente.novo st.proxima chave]
        principal := .registra st.proxima st.threads.length }
  else none

/-- The agent is put into the map. -/
def registra (st : Central) : Option Central :=
  match st.principal with
  | .registra sessao a =>
      some { st with agentes := st.agentes.insert sessao a, principal := .accept }
  | _ => none

/-- A support is refused. -/
def recusa (st : Central) (resposta : Str) : Central :=
  { st with suportes := st.suportes ++ [⟨resposta, [], none, false⟩] }

/-- The agent of a session, `agentes.get(sessao)`. -/
def busca (st : Central) (sessao : ℤ) : Option ℕ :=
  if sessao < 0 then none else st.agentes.lookup sessao.toNat

/-- A support connects, with the eight bytes of the session and the key. -/
def suporte (st : Central) (buf : List Octet) : Option Central :=
  if st.principal = .accept then
    let s := decodeUtf8 buf
    match (substring s 0 4).bind parseInt with
    | none => some (st.setPrincipal .morta)
    | some sessao =>
        match st.busca sessao with
        | none => some (st.recusa (lit "ERRO:Sessao invalida\n"))
        | some a =>
            match parseInt (s.drop 4), st.threads[a]? with
            | none, _ => some (st.setPrincipal .morta)
            | some _, none => none
            | some chave, some agente =>
                if chave ≠ agente.chave then some (st.recusa (lit "ERRO:Chave invalida\n"))
                else some { st with
                  suportes := st.suportes ++ [⟨lit "OK\n", [], none, false⟩]
                  -- the arrays of an agent that has not begun are null
                  principal := if agente.quadro.isNone then .morta
                    else .retrata st.suportes.length a 0 }
  else none

/-- `String.format("%-10s%02d%s%n", ..)`. -/
def linhaTexto (nl : Str) (parte : Parte) (lin : ℕ) (s : Str) : Str :=
  parte.cmd ++ List.replicate (10 - parte.cmd.length) 32 ++ formatInt 2 lin ++ s ++ nl

/-- The part that is written in a turn, and its line. -/
def vez (k : ℕ) : Parte × ℕ :=
  (if k % 4 = 0 then .dados else if k % 4 = 1 then .frente else if k % 4 = 2 then .fundo
    else .atributos, k / 4)

/-- The number of lines that a support gets at first. -/
def vezes : ℕ := 4 * linhas

/-- A line of the screen is written to a support. After the last, the support is set in the agent.
-/
def retrata (nl : Str) (st : Central) : Option Central :=
  match st.principal with
  | .retrata s a k =>
      (st.threads[a]?).bind fun agente =>
        if k < vezes then
          match agente.quadro.bind fun quadro => quadro.linha (vez k).1 (vez k).2 with
          | none => some (st.setPrincipal .morta)
          | some texto =>
              some ((st.escreve s (linhaTexto nl (vez k).1 (vez k).2 texto)).setPrincipal
              (.retrata s a (k + 1)))
        else some
          { st.setAgente a { agente with sockSuporte := some s } with
            suportes := st.suportes.modify s fun suporte => { suporte with agente := some a }
            principal := .ligada s a }
  | _ => none

/-- The loop over the pending messages begins, or goes on to the next. When there are others than at
its beginning, it throws an exception. -/
def descarrega (st : Central) : Option Central :=
  match st.principal with
  | .ligada s a => (st.threads[a]?).map fun agente =>
      st.setPrincipal (.descarrega s a 0 agente.pendentes.length)
  | .descarrega s a i n => (st.threads[a]?).map fun agente =>
      if i = agente.pendentes.length then st.setPrincipal (.atende s a)
      else if agente.pendentes.length ≠ n then st.setPrincipal .morta
      else (st.escreve s (agente.pendentes.getD i [])).setPrincipal (.descarrega s a (i + 1) n)
  | _ => none

/-- The support that `main` serves, and its agent. -/
def servido (st : Central) : Option (ℕ × ℕ) :=
  match st.principal with
  | .retrata s a _ => some (s, a)
  | .ligada s a => some (s, a)
  | .descarrega s a _ _ => some (s, a)
  | .atende s a => some (s, a)
  | _ => none

/-- A support closes its connection. -/
def deixa (st : Central) (s : ℕ) : Option Central :=
  if s < st.suportes.length then
    some { st with suportes := st.suportes.modify s fun suporte => { suporte with deixou := true } }
  else none

/-- `main` is done with a support that has left: it finds nothing more to read, or cannot write. -/
def desliga (st : Central) : Option Central :=
  match st.principal with
  | .ligada _ _ => none
  | _ => st.servido.bind fun (s, _) =>
      (st.suportes[s]?).bind fun suporte =>
        if suporte.deixou then some (st.setPrincipal .accept) else none

/-- What the support types cannot be written to the client. -/
def solta (st : Central) : Option Central :=
  match st.principal with
  | .atende _ _ => some (st.setPrincipal .accept)
  | _ => none

/-! ## The steps of an agent -/

/-- The thread begins. -/
def inicia (st : Central) (a : ℕ) : Option Central :=
  (st.threads[a]?).bind fun agente =>
    if agente.vivo ∧ agente.quadro = none then
      some (st.setAgente a { agente with quadro := some .vazio })
    else none

/-- A message is read. -/
def mensagem (st : Central) (a : ℕ) (cabec corpo : List Octet) : Option Central :=
  (st.threads[a]?).bind fun agente =>
    agente.quadro.bind fun quadro =>
      if agente.vivo ∧ agente.fase = .lendo then
        some (match agente.mensagem quadro cabec corpo with
          | .retorna => st.setAgente a { agente with vivo := false }
          | .stop => { st.setAgente a { agente with vivo := false } with
              agentes := st.agentes.erase agente.sessao }
          | .segue later => st.setAgente a later)
      else none

/-- A message is added to the pending ones, or written to the support that is set. -/
def repassa (st : Central) (a : ℕ) : Option Central :=
  (st.threads[a]?).bind fun agente =>
    if agente.vivo then
      match agente.fase, agente.sockSuporte with
      | .guardando texto, _ => some (st.setAgente a
          { agente with pendentes := agente.pendentes ++ [texto], fase := .lendo })
      | .enviando texto, some s =>
          some ((st.setAgente a { agente with fase := .lendo }).escreve s texto)
      | _, _ => none
    else none

/-- A message cannot be written to a support that has left. -/
def falha (st : Central) (a : ℕ) : Option Central :=
  (st.threads[a]?).bind fun agente =>
    match agente.fase, agente.sockSuporte.bind fun s => st.suportes[s]? with
    | .enviando _, some suporte =>
        if agente.vivo ∧ suporte.deixou then some (st.setAgente a { agente with vivo := false })
        else none
    | _, _ => none

end Central

/-- What happens in a step. -/
inductive Passo where
  | cliente (buf : List Octet)
  | registra
  | suporte (buf : List Octet)
  | retrata
  | descarrega
  | deixa (s : ℕ)
  | desliga
  | solta
  | inicia (a : ℕ)
  | mensagem (a : ℕ) (cabec corpo : List Octet)
  | repassa (a : ℕ)
  | falha (a : ℕ)
  deriving Repr, DecidableEq

/-- A step, when it is possible. -/
def Central.passo (nl : Str) (st : Central) : Passo → Option Central
  | .cliente buf => st.cliente buf
  | .registra => st.registra
  | .suporte buf => st.suporte buf
  | .retrata => st.retrata nl
  | .descarrega => st.descarrega
  | .deixa s => st.deixa s
  | .desliga => st.desliga
  | .solta => st.solta
  | .inicia a => st.inicia a
  | .mensagem a cabec corpo => st.mensagem a cabec corpo
  | .repassa a => st.repassa a
  | .falha a => st.falha a

/-- Some steps, one after the other. -/
def Central.executa (nl : Str) : Central → List Passo → Option Central
  | st, [] => some st
  | st, p :: passos => (st.passo nl p).bind fun later => later.executa nl passos

namespace Central

/-- The header of a message of the first client, whose key is `0007`. -/
def cabecalho (cmd : Str) : List Octet :=
  (cmd ++ List.replicate (10 - cmd.length) 32 ++ lit "00010007").map Java.toOctet

/-- The client connects and sends its screen. -/
def abertura : List Passo :=
  [.cliente [48, 48, 48, 55], .registra, .inicia 0] ++
    (List.range linhas).flatMap fun lin => Parte.todas.map fun parte =>
      .mensagem 0 (cabecalho parte.cmd) ((formatInt 2 lin).map Java.toOctet)

end Central

end Pqfh
