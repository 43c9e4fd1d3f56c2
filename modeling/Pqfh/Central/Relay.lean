import Mathlib.Logic.Function.Basic
import Mathlib.Logic.Relation
import Pqfh.Central.Steps

/-! # What a support receives

A support is to receive the lines of the screen as the client sent them first, and then every
`REFRESH` that the client has sent, once and in order. Three ways lead there: the lines that the
agent keeps, its pending messages, and what it writes to the support itself.
-/

namespace Pqfh

open Java (Octet Str)

/-- The message that is being passed on. -/
def Fase.texto : Fase → List Str
  | .lendo => []
  | .guardando s => [s]
  | .enviando s => [s]

/-- The message to be passed on that an agent reads. -/
def Agente.refresh (agente : Agente) (cabec corpo : List Octet) : List Str :=
  match agente.quadro with
  | none => []
  | some quadro =>
      match agente.mensagem quadro cabec corpo with
      | .segue later => later.fase.texto
      | _ => []

namespace Central

/-- The `REFRESH` messages that each agent has read. -/
abbrev Historia := ℕ → List Str

/-- A step adds to what was read. -/
def anota (st : Central) (historia : Historia) : Passo → Historia
  | .mensagem a cabec corpo => Function.update historia a
      (historia a ++ ((st.threads[a]?).elim [] fun agente => agente.refresh cabec corpo))
  | _ => historia

/-- The lines that a support gets of a screen. -/
def retrato (nl : Str) (quadro : Quadro) : List Str :=
  (List.range vezes).map fun k =>
    linhaTexto nl (vez k).1 (vez k).2 ((quadro.linha (vez k).1 (vez k).2).getD [])

/-- The pending messages that the support which is served has not got yet. -/
def resto (st : Central) (agente : Agente) : List Str :=
  match st.principal with
  | .ligada _ _ => agente.pendentes
  | .descarrega _ _ i _ => agente.pendentes.drop i
  | _ => []

/-- How many pending messages the support has got. -/
def passadas (st : Central) : ℕ :=
  match st.principal with
  | .descarrega _ _ i _ => i
  | _ => 0

/-- The loop over the pending messages of an agent has begun, or the support has been served them.
-/
def descarregando (st : Central) (a : ℕ) : Bool :=
  match st.principal with
  | .descarrega _ b _ _ => b = a
  | .atende _ b => b = a
  | _ => false

/-- When a support is set, every message that was read is among the pending ones or on its way. -/
def PodeLigar (st : Central) (historia : Historia) : Principal → Prop
  | .retrata _ a k => vezes ≤ k → ∀ agente ∈ st.threads[a]?,
      historia a = agente.pendentes ++ agente.fase.texto
  | _ => True

/-- A message leaves the lines of the screen. -/
def mantem (quadro : Quadro) : Efeito → Prop
  | .segue later => later.quadro = some quadro
  | _ => True

/-- No line of the screen is sent again while a support is served. -/
def PodeLer (st : Central) (a : ℕ) (cabec corpo : List Octet) : Prop :=
  ∀ served ∈ st.servido, served.2 = a → ∀ agente ∈ st.threads[a]?, ∀ quadro ∈ agente.quadro,
    mantem quadro (agente.mensagem quadro cabec corpo)

/-- A message becomes pending before the loop over these begins, and is written to a support after
it. -/
def PodeRepassar (st : Central) (a : ℕ) (agente : Agente) : Fase → Prop
  | .guardando _ => st.descarregando a = false
  | .enviando _ => ∀ served ∈ st.servido, served.2 = a → st.resto agente = []
  | .lendo => True

/-- When a step keeps the order. -/
def Ordena (st : Central) (historia : Historia) : Passo → Prop
  | .retrata => st.PodeLigar historia st.principal
  | .mensagem a cabec corpo => st.PodeLer a cabec corpo
  | .repassa a => ∀ agente ∈ st.threads[a]?, st.PodeRepassar a agente agente.fase
  | _ => True

/-- A step that a condition allows, with what was read. -/
def Anotado (nl : Str) (permite : Central → Historia → Passo → Prop)
    (before later : Central × Historia) : Prop :=
  ∃ p, permite before.1 before.2 p ∧ before.1.passo nl p = some later.1 ∧
    later.2 = before.1.anota before.2 p

/-- What a support that is served has received. -/
def Entrega (nl : Str) (st : Central) (lidas : List Str) (s : ℕ) (agente : Agente) (quadro : Quadro)
    (suporte : Suporte) : Prop :=
  match st.principal with
  | .retrata _ _ k => k ≤ vezes ∧ suporte.recebido = (retrato nl quadro).take k
  | _ => agente.sockSuporte = some s ∧ st.passadas ≤ agente.pendentes.length ∧
      suporte.recebido ++ (st.resto agente ++ agente.fase.texto) = retrato nl quadro ++ lidas

/-- What holds in every state that ordered steps reach. -/
structure Repassada (nl : Str) (st : Central) (historia : Historia) : Prop where
  conhecido : ∀ {b s : ℕ} {agente : Agente}, st.threads[b]? = some agente →
    agente.sockSuporte = some s → s < st.suportes.length
  /-- The support that is served is set in its agent only, and not before it was shown the screen.
  -/
  alheio : ∀ {b s a : ℕ} {agente : Agente}, st.threads[b]? = some agente →
    agente.sockSuporte = some s → st.servido = some (s, a) →
      b = a ∧ ∀ k, st.principal ≠ .retrata s a k
  entrega : ∀ {s a : ℕ}, st.servido = some (s, a) →
    ∃ agente quadro suporte, st.threads[a]? = some agente ∧ agente.quadro = some quadro ∧
      st.suportes[s]? = some suporte ∧
        (suporte.deixou = false → st.Entrega nl (historia a) s agente quadro suporte)

/-- Nothing was sent at the start. -/
theorem repassada_inicial (nl : Str) : inicial.Repassada nl fun _ => [] where
  conhecido := fun here => by cases here
  alheio := fun here => by cases here
  entrega := fun served => by cases served

/-! ## The steps of main -/

/-- A step after which no support is served. -/
theorem Repassada.livre {nl : Str} {st later : Central} {historia : Historia}
    (before : st.Repassada nl historia) (threads : later.threads = st.threads)
    (suportes : st.suportes.length ≤ later.suportes.length) (free : later.servido = none) :
    later.Repassada nl historia where
  conhecido := by
    intro b s agente here set
    rw [threads] at here
    exact (before.conhecido here set).trans_le suportes
  alheio := by
    intro b s a agente _ _ served
    rw [free] at served
    cases served
  entrega := by
    intro s a served
    rw [free] at served
    cases served

/-- A client that is accepted sends nothing. -/
theorem repassada_cliente {nl : Str} {st later : Central} {historia : Historia} {buf : List Octet}
    (before : st.Repassada nl historia) (step : st.cliente buf = some later) :
    later.Repassada nl historia := by
  obtain ⟨_, rfl | ⟨chave, _, rfl⟩⟩ := cliente_cases step
  · exact before.livre rfl le_rfl rfl
  · refine ⟨fun {b s agente} here set => ?_, fun _ _ served => (by cases served),
      fun served => (by cases served)⟩
    dsimp only at here ⊢
    rw [List.getElem?_append] at here
    split at here
    · exact before.conhecido here set
    · rw [List.mem_singleton.mp (List.mem_of_getElem? here)] at set
      cases set

/-- A support that is accepted has received nothing yet. -/
theorem repassada_suporte {nl : Str} {st later : Central} {historia : Historia} {buf : List Octet}
    (before : st.Repassada nl historia) (step : st.suporte buf = some later) :
    later.Repassada nl historia := by
  obtain ⟨free, cases⟩ := suporte_cases step
  have idle : st.servido = none := by
    unfold servido
    rw [free]
  rcases cases with rfl | ⟨resposta, rfl⟩ | ⟨a, agente, here, rfl⟩
  · exact before.livre rfl le_rfl rfl
  · refine before.livre rfl ?_ idle
    unfold recusa
    rw [List.length_append]
    exact Nat.le_add_right _ _
  · cases begun : agente.quadro with
    | none =>
        refine before.livre rfl ?_ rfl
        rw [List.length_append]
        exact Nat.le_add_right _ _
    | some quadro =>
        refine ⟨fun {b s other} there set => ?_, fun {b s c other} there set served => ?_,
          fun {s c} served => ?_⟩
        · have known := before.conhecido there set
          dsimp only
          rw [List.length_append]
          exact known.trans_le (Nat.le_add_right _ _)
        · cases served
          exact absurd (before.conhecido there set) (lt_irrefl _)
        · cases served
          refine ⟨agente, quadro, _, here, begun, List.getElem?_concat_length, fun _ => ?_⟩
          exact ⟨Nat.zero_le _, rfl⟩

/-- What was sent until the picture is out is the picture. -/
theorem historia_ligada {st : Central} {historia : Historia} {s a k : ℕ} {agente : Agente}
    (principal : st.principal = .retrata s a k) (done : vezes ≤ k)
    (here : st.threads[a]? = some agente) (pode : st.PodeLigar historia st.principal) :
    historia a = agente.pendentes ++ agente.fase.texto := by
  rw [principal] at pode
  exact pode done agente here

/-- A line of the picture goes to the support behind those before it. -/
theorem repassada_retrata {nl : Str} {st later : Central} {historia : Historia}
    (before : st.Repassada nl historia) (ordena : st.Ordena historia .retrata)
    (step : st.retrata nl = some later) : later.Repassada nl historia := by
  obtain ⟨s, a, k, agente, principal, here, cases⟩ := retrata_cases step
  have served : st.servido = some (s, a) := by
    unfold servido
    rw [principal]
  obtain ⟨agente', quadro, suporte, here', begun, found, entrega⟩ := before.entrega served
  cases here.symm.trans here'
  rcases cases with ⟨_, _, rfl⟩ | ⟨texto, more, line, rfl⟩ | ⟨done, rfl⟩
  · exact before.livre rfl le_rfl rfl
  · rw [begun, Option.bind_some] at line
    refine ⟨fun {b t other} there set => ?_, fun {b t c other} there set serving => ?_,
      fun {t c} serving => ?_⟩
    · exact (before.conhecido there set).trans_eq (length_escreve st s _).symm
    · cases serving
      exact absurd principal ((before.alheio there set served).2 k)
    · cases serving
      refine ⟨agente, quadro, _, here, begun, escreve_self found _, fun stays => ?_⟩
      rw [Suporte.recebe_deixou] at stays
      have sent := entrega stays
      unfold Entrega at sent ⊢
      rw [principal] at sent
      dsimp only [setPrincipal] at sent ⊢
      rw [Suporte.recebe_recebido stays, sent.2]
      refine ⟨more, ?_⟩
      unfold retrato
      rw [List.take_add_one, List.getElem?_map, List.getElem?_range more, Option.map_some, line]
      rfl
  · refine ⟨fun {b t other} there set => ?_, fun {b t c other} there set serving => ?_,
      fun {t c} serving => ?_⟩
    · rw [List.length_modify]
      rcases set_cases there with ⟨rfl, rfl⟩ | ⟨_, there⟩
      · cases set
        exact (List.getElem?_eq_some_iff.mp found).1
      · exact before.conhecido there set
    · cases serving
      rcases set_cases there with ⟨rfl, _⟩ | ⟨_, there⟩
      · exact ⟨rfl, fun _ other => (by cases other)⟩
      · exact ⟨(before.alheio there set served).1, fun _ other => (by cases other)⟩
    · cases serving
      refine ⟨_, quadro, { suporte with agente := some a }, set_self here _, begun, ?_,
        fun stays => ?_⟩
      · dsimp only
        rw [List.getElem?_modify_eq, found]
        rfl
      · have sent := entrega stays
        unfold Entrega at sent
        rw [principal] at sent
        dsimp only at sent
        have whole : (retrato nl quadro).take k = retrato nl quadro := by
          apply List.take_of_length_le
          unfold retrato
          rw [List.length_map, List.length_range]
          exact done
        refine ⟨rfl, Nat.zero_le _, ?_⟩
        rw [sent.2, whole, historia_ligada principal done here ordena]
        rfl

/-- A step of `main` that goes on with a support that has been shown the screen. -/
theorem Repassada.continua {nl : Str} {st later : Central} {historia : Historia} {s a : ℕ}
    (before : st.Repassada nl historia) (served : st.servido = some (s, a))
    (serving : later.servido = some (s, a)) (shown : ∀ k, later.principal ≠ .retrata s a k)
    (threads : later.threads = st.threads) (length : later.suportes.length = st.suportes.length)
    (entrega : ∀ {agente : Agente} {quadro : Quadro} {suporte : Suporte},
      st.threads[a]? = some agente → st.suportes[s]? = some suporte →
        ∃ seguinte, later.suportes[s]? = some seguinte ∧ seguinte.deixou = suporte.deixou ∧
          (suporte.deixou = false → st.Entrega nl (historia a) s agente quadro suporte →
            later.Entrega nl (historia a) s agente quadro seguinte)) :
    later.Repassada nl historia where
  conhecido := by
    intro b t agente here set
    rw [threads] at here
    rw [length]
    exact before.conhecido here set
  alheio := by
    intro b t c agente here set serving'
    cases serving.symm.trans serving'
    rw [threads] at here
    exact ⟨(before.alheio here set served).1, shown⟩
  entrega := by
    intro t c serving'
    cases serving.symm.trans serving'
    obtain ⟨agente, quadro, suporte, here, begun, found, sent⟩ := before.entrega served
    obtain ⟨seguinte, found', left, next⟩ := @entrega agente quadro suporte here found
    refine ⟨agente, quadro, seguinte, threads ▸ here, begun, found', fun stays => ?_⟩
    rw [left] at stays
    exact next stays (sent stays)

/-- A text that was kept goes to the support behind those before it. -/
theorem repassada_descarrega {nl : Str} {st later : Central} {historia : Historia}
    (before : st.Repassada nl historia) (step : st.descarrega = some later) :
    later.Repassada nl historia := by
  obtain ⟨s, a, agente, here, ⟨principal, rfl⟩ | ⟨i, n, principal, cases⟩⟩ := descarrega_cases step
  · have served : st.servido = some (s, a) := by
      unfold servido
      rw [principal]
    refine before.continua served rfl (fun _ other => by cases other) rfl rfl ?_
    intro other quadro suporte there found
    cases here.symm.trans there
    refine ⟨suporte, found, rfl, fun _ sent => ?_⟩
    unfold Entrega resto passadas at sent ⊢
    rw [principal] at sent
    exact sent
  · have served : st.servido = some (s, a) := by
      unfold servido
      rw [principal]
    rcases cases with ⟨done, rfl⟩ | ⟨_, rfl⟩ | ⟨more, _, rfl⟩
    · refine before.continua served rfl (fun _ other => by cases other) rfl rfl ?_
      intro other quadro suporte there found
      cases here.symm.trans there
      refine ⟨suporte, found, rfl, fun _ sent => ?_⟩
      unfold Entrega resto passadas at sent ⊢
      rw [principal] at sent
      dsimp only at sent
      rw [done, List.drop_length] at sent
      exact ⟨sent.1, Nat.zero_le _, sent.2.2⟩
    · exact before.livre rfl le_rfl rfl
    · refine before.continua served rfl (fun _ other => by cases other) rfl
        (length_escreve st s _) ?_
      intro other quadro suporte there found
      cases here.symm.trans there
      refine ⟨_, escreve_self found _, suporte.recebe_deixou _, fun stays sent => ?_⟩
      unfold Entrega resto passadas at sent ⊢
      rw [principal] at sent
      dsimp only [setPrincipal] at sent ⊢
      obtain ⟨set, some_left, same⟩ := sent
      have inside : i < agente.pendentes.length := Nat.lt_of_le_of_ne some_left more
      rw [List.drop_eq_getElem_cons inside] at same
      refine ⟨set, inside, ?_⟩
      rw [Suporte.recebe_recebido stays, List.getD_eq_getElem?_getD,
        List.getElem?_eq_getElem inside, Option.getD_some, ← same]
      simp only [List.append_assoc, List.cons_append, List.nil_append]

/-- A support that leaves receives nothing more. -/
theorem repassada_deixa {nl : Str} {st later : Central} {historia : Historia} {t : ℕ}
    (before : st.Repassada nl historia) (step : st.deixa t = some later) :
    later.Repassada nl historia := by
  rw [deixa_cases step]
  refine ⟨fun {b s agente} here set => ?_, before.alheio, fun {s a} served => ?_⟩
  · rw [List.length_modify]
    exact before.conhecido here set
  · obtain ⟨agente, quadro, suporte, here, begun, found, sent⟩ := before.entrega served
    by_cases same : t = s
    · refine ⟨agente, quadro, { suporte with deixou := true }, here, begun, ?_, fun stays => ?_⟩
      · dsimp only
        rw [same, List.getElem?_modify_eq, found]
        rfl
      · cases stays
    · refine ⟨agente, quadro, suporte, here, begun, ?_, sent⟩
      exact (List.getElem?_modify_ne _ _ same).trans found

/-! ## The steps of an agent -/

/-- A step of an agent that leaves what was written to the supports. -/
theorem Repassada.setAgente {nl : Str} {st : Central} {historia : Historia} {b : ℕ}
    {agente : Agente} (before : st.Repassada nl historia) (here : st.threads[b]? = some agente)
    (later : Agente) (lidas : List Str) (socket : later.sockSuporte = agente.sockSuporte)
    (entrega : ∀ {s : ℕ} {quadro : Quadro}, st.servido = some (s, b) → agente.quadro = some quadro →
      later.quadro = some quadro ∧ ∀ {suporte : Suporte},
        st.Entrega nl (historia b) s agente quadro suporte →
          st.Entrega nl lidas s later quadro suporte) :
    (st.setAgente b later).Repassada nl (Function.update historia b lidas) where
  conhecido := by
    intro c s other there set
    rcases set_cases there with ⟨rfl, rfl⟩ | ⟨_, there⟩
    · rw [socket] at set
      exact before.conhecido here set
    · exact before.conhecido there set
  alheio := by
    intro c s a other there set served
    rcases set_cases there with ⟨rfl, rfl⟩ | ⟨_, there⟩
    · rw [socket] at set
      exact before.alheio here set served
    · exact before.alheio there set served
  entrega := by
    intro s a served
    obtain ⟨other, quadro, suporte, there, begun, found, sent⟩ := before.entrega served
    by_cases same : a = b
    · subst same
      cases here.symm.trans there
      obtain ⟨still, next⟩ := entrega served begun
      refine ⟨later, quadro, suporte, set_self here later, still, found, fun stays => ?_⟩
      rw [Function.update_self]
      exact next (sent stays)
    · refine ⟨other, quadro, suporte, ?_, begun, found, fun stays => ?_⟩
      · exact (List.getElem?_set_ne fun other => same other.symm).trans there
      · rw [Function.update_of_ne same]
        exact sent stays

/-- A history that is set to what it is does not change. -/
theorem update_same (historia : Historia) (a : ℕ) :
    Function.update historia a (historia a) = historia := Function.update_eq_self a historia

/-- A message that is read is on its way. -/
theorem Entrega.le {nl : Str} {st : Central} {lidas : List Str} {s : ℕ} {agente later : Agente}
    {quadro : Quadro} {suporte : Suporte} (sent : st.Entrega nl lidas s agente quadro suporte)
    (socket : later.sockSuporte = agente.sockSuporte) (pending : later.pendentes = agente.pendentes)
    (reading : agente.fase = .lendo) :
    st.Entrega nl (lidas ++ later.fase.texto) s later quadro suporte := by
  have rest : st.resto later = st.resto agente := by
    unfold resto
    rw [pending]
  have append : suporte.recebido ++ (st.resto agente ++ agente.fase.texto) =
      retrato nl quadro ++ lidas →
        suporte.recebido ++ (st.resto later ++ later.fase.texto) =
          retrato nl quadro ++ (lidas ++ later.fase.texto) := by
    intro same
    rw [reading] at same
    rw [rest, ← List.append_assoc, ← List.append_assoc, ← same]
    simp only [Fase.texto, List.append_nil]
  unfold Entrega at sent ⊢
  rw [socket, pending]
  cases principal : st.principal with
  | retrata t a k =>
      rw [principal] at sent
      exact sent
  | _ =>
      rw [principal] at sent
      exact ⟨sent.1, sent.2.1, append sent.2.2⟩

/-- A message is history once it is read. -/
theorem repassada_mensagem {nl : Str} {st later : Central} {historia : Historia} {a : ℕ}
    {cabec corpo : List Octet} (before : st.Repassada nl historia)
    (ordena : st.Ordena historia (.mensagem a cabec corpo))
    (step : st.mensagem a cabec corpo = some later) :
    later.Repassada nl (st.anota historia (.mensagem a cabec corpo)) := by
  obtain ⟨agente, quadro, here, begun, _, reading, cases⟩ := mensagem_cases step
  have read : st.anota historia (.mensagem a cabec corpo) =
      Function.update historia a (historia a ++ agente.refresh cabec corpo) := by
    unfold anota
    dsimp only
    rw [here]
    rfl
  have ended : (st.setAgente a { agente with vivo := false }).Repassada nl
      (Function.update historia a (historia a)) :=
    before.setAgente here _ _ rfl fun {s found} _ there => ⟨there, fun sent => sent⟩
  rw [read]
  unfold Agente.refresh
  rw [begun]
  dsimp only
  rcases cases with ⟨effect, rfl⟩ | ⟨effect, rfl⟩ | ⟨seguinte, effect, rfl⟩
  · rw [effect, List.append_nil]
    exact ended
  · rw [effect, List.append_nil]
    exact ⟨ended.conhecido, ended.alheio, ended.entrega⟩
  · rw [effect]
    have kept : seguinte.sockSuporte = agente.sockSuporte ∧
        seguinte.pendentes = agente.pendentes := by
      rcases Agente.mensagem_segue effect with rfl | ⟨_, _, _, rfl⟩ | ⟨_, rfl⟩
      · exact ⟨rfl, rfl⟩
      · exact ⟨rfl, rfl⟩
      · exact ⟨rfl, rfl⟩
    refine before.setAgente here seguinte _ kept.1 fun {s found} served there => ?_
    cases begun.symm.trans there
    have same := ordena (s, a) served rfl agente here quadro begun
    rw [effect] at same
    exact ⟨same, fun sent => sent.le kept.1 kept.2 reading⟩

/-- A text that is kept waits behind those that were kept before. -/
theorem repassada_guarda {nl : Str} {st : Central} {historia : Historia} {a : ℕ} {agente : Agente}
    {texto : Str} (before : st.Repassada nl historia) (here : st.threads[a]? = some agente)
    (storing : agente.fase = .guardando texto) (early : st.descarregando a = false) :
    (st.setAgente a
    { agente with pendentes := agente.pendentes ++ [texto], fase := .lendo }).Repassada
      nl historia := by
  have same := before.setAgente here
    { agente with pendentes := agente.pendentes ++ [texto], fase := .lendo } (historia a) rfl
    (fun {s quadro} served begun => ⟨begun, fun {suporte} sent => by
      unfold Entrega resto passadas at sent ⊢
      unfold descarregando at early
      unfold servido at served
      cases principal : st.principal with
      | retrata t b k =>
          rw [principal] at sent
          exact sent
      | ligada t b =>
          rw [principal] at sent
          obtain ⟨set, _, same⟩ := sent
          refine ⟨set, Nat.zero_le _, ?_⟩
          rw [← same, storing]
          simp only [Fase.texto, List.append_nil]
      | descarrega t b i n =>
          rw [principal] at early served
          cases served
          exact absurd rfl (of_decide_eq_false early)
      | atende t b =>
          rw [principal] at early served
          cases served
          exact absurd rfl (of_decide_eq_false early)
      | _ =>
          rw [principal] at served
          cases served⟩)
  rwa [update_same] at same

/-- What was received is seen from where `main` stands only. -/
theorem entrega_congr {nl : Str} {st later : Central} (same : later.principal = st.principal)
    {lidas : List Str} {s : ℕ} {agente : Agente} {quadro : Quadro} {suporte : Suporte} :
    later.Entrega nl lidas s agente quadro suporte ↔
        st.Entrega nl lidas s agente quadro suporte := by
  unfold Entrega resto passadas
  rw [same]

/-- A message was written to the support that is served. -/
theorem Entrega.enviada {nl : Str} {st : Central} {lidas : List Str} {s b : ℕ} {agente : Agente}
    {quadro : Quadro} {suporte : Suporte} {texto : Str}
    (sent : st.Entrega nl lidas s agente quadro suporte) (sending : agente.fase = .enviando texto)
    (late : st.resto agente = []) (stays : suporte.deixou = false)
    (shown : ∀ k, st.principal ≠ .retrata s b k) (served : st.servido = some (s, b)) :
    st.Entrega nl lidas s { agente with fase := .lendo } quadro (suporte.recebe texto) := by
  have append : suporte.recebido ++ (st.resto agente ++ agente.fase.texto) =
      retrato nl quadro ++ lidas →
        (suporte.recebe texto).recebido ++ (st.resto agente ++ Fase.lendo.texto) =
          retrato nl quadro ++ lidas := by
    intro same
    rw [← same, Suporte.recebe_recebido stays, late, sending]
    simp only [Fase.texto, List.append_nil, List.nil_append]
  unfold Entrega at sent ⊢
  unfold servido at served
  cases principal : st.principal with
  | retrata t c k =>
      rw [principal] at served
      cases served
      exact absurd principal (shown k)
  | _ =>
      rw [principal] at sent
      exact ⟨sent.1, sent.2.1, append sent.2.2⟩

/-- A message was written to another support, so the one that is served is being shown the screen.
-/
theorem Entrega.outra {nl : Str} {st : Central} {lidas : List Str} {s : ℕ} {agente : Agente}
    {quadro : Quadro} {suporte : Suporte} (sent : st.Entrega nl lidas s agente quadro suporte)
    (other : agente.sockSuporte ≠ some s) (fase : Fase) :
    st.Entrega nl lidas s { agente with fase := fase } quadro suporte := by
  unfold Entrega at sent ⊢
  cases principal : st.principal with
  | retrata t c k =>
      rw [principal] at sent
      exact sent
  | _ =>
      rw [principal] at sent
      exact absurd sent.1 other

/-- A text that is sent follows what the support received. -/
theorem repassada_envia {nl : Str} {st : Central} {historia : Historia} {a s : ℕ} {agente : Agente}
    {texto : Str} (before : st.Repassada nl historia) (here : st.threads[a]? = some agente)
    (sending : agente.fase = .enviando texto) (set : agente.sockSuporte = some s)
    (late : ∀ t, st.servido = some (t, a) → st.resto agente = []) :
    ((st.setAgente a { agente with fase := .lendo }).escreve s texto).Repassada nl historia := by
  -- the sockets are the same as before
  have earlier : ∀ {b t : ℕ} {other : Agente},
      (st.threads.set a { agente with fase := .lendo })[b]? = some other →
        other.sockSuporte = some t →
          ∃ before, st.threads[b]? = some before ∧ before.sockSuporte = some t := by
    intro b t other there set'
    rcases set_cases there with ⟨rfl, rfl⟩ | ⟨_, there⟩
    · exact ⟨agente, here, set'⟩
    · exact ⟨other, there, set'⟩
  refine ⟨fun {b t other} there set' => ?_, fun {b t c other} there set' served => ?_,
    fun {t c} served => ?_⟩
  · obtain ⟨other, there, set'⟩ := earlier there set'
    exact (before.conhecido there set').trans_eq (length_escreve st s texto).symm
  · obtain ⟨other, there, set'⟩ := earlier there set'
    exact before.alheio there set' served
  · change st.servido = some (t, c) at served
    obtain ⟨other, quadro, suporte, there, begun, found, sent⟩ := before.entrega served
    by_cases own : c = a
    · subst own
      cases here.symm.trans there
      refine ⟨_, quadro, if s = t then suporte.recebe texto
        else suporte, set_self here _, begun, ?_,
        fun stays => ?_⟩
      · split
        · rename_i same
          subst same
          exact escreve_self found texto
        · rename_i different
          exact (escreve_other _ different texto).trans found
      · refine (entrega_congr rfl).mpr ?_
        by_cases same : s = t
        · subst same
          rw [if_pos rfl] at stays ⊢
          rw [Suporte.recebe_deixou] at stays
          exact Entrega.enviada (sent stays) sending (late s served) stays
            (before.alheio here set served).2 served
        · rw [if_neg same] at stays ⊢
          exact Entrega.outra (sent stays)
            (fun other => same (Option.some.inj (set.symm.trans other))) .lendo
    · have different : s ≠ t := by
        rintro rfl
        exact own (before.alheio here set served).1.symm
      refine ⟨other, quadro, suporte, ?_, begun, ?_, sent⟩
      · exact (List.getElem?_set_ne fun same => own same.symm).trans there
      · exact (escreve_other _ different texto).trans found

/-- A text is kept or sent, and the order stands. -/
theorem repassada_repassa {nl : Str} {st later : Central} {historia : Historia} {a : ℕ}
    (before : st.Repassada nl historia) (ordena : st.Ordena historia (.repassa a))
    (step : st.repassa a = some later) : later.Repassada nl historia := by
  obtain ⟨agente, texto, here, _, ⟨storing, rfl⟩ | ⟨s, sending, set, rfl⟩⟩ := repassa_cases step
  · have early := ordena agente here
    rw [storing] at early
    exact repassada_guarda before here storing early
  · have late := ordena agente here
    rw [sending] at late
    exact repassada_envia before here sending set fun t served => late (t, a) served rfl

/-- Every step keeps the order in which the texts are sent. -/
theorem repassada_passo {nl : Str} {st later : Central} {historia : Historia} {p : Passo}
    (before : st.Repassada nl historia) (ordena : st.Ordena historia p)
    (step : st.passo nl p = some later) : later.Repassada nl (st.anota historia p) := by
  cases p with
  | cliente buf => exact repassada_cliente before step
  | registra =>
      obtain ⟨_, _, _, rfl⟩ := registra_cases step
      exact before.livre rfl le_rfl rfl
  | suporte buf => exact repassada_suporte before step
  | retrata => exact repassada_retrata before ordena step
  | descarrega => exact repassada_descarrega before step
  | deixa s => exact repassada_deixa before step
  | desliga =>
      obtain ⟨_, _, _, _, _, _, rfl⟩ := desliga_cases step
      exact before.livre rfl le_rfl rfl
  | solta =>
      obtain ⟨_, _, _, rfl⟩ := solta_cases step
      exact before.livre rfl le_rfl rfl
  | inicia a =>
      obtain ⟨agente, here, none, rfl⟩ := inicia_cases step
      have same := before.setAgente here { agente with quadro := some .vazio } (historia a) rfl
        (fun {s quadro} _ there => by
          rw [none] at there
          cases there)
      rw [update_same] at same
      exact same
  | mensagem a cabec corpo => exact repassada_mensagem before ordena step
  | repassa a => exact repassada_repassa before ordena step
  | falha a =>
      obtain ⟨agente, texto, here, _, rfl⟩ := falha_cases step
      have same := before.setAgente here { agente with vivo := false } (historia a) rfl
        (fun {s quadro} _ there => ⟨there, fun sent => sent⟩)
      rw [update_same] at same
      exact same

/-! ## Runs -/

/-- A support that is served and has not left has received the lines of the screen and then the
messages that the agent has read, from the first on, in their order and each once. When it has been
served the pending messages, nothing is missing but a message that is on its way. -/
def Entregue (nl : Str) (st : Central) (historia : Historia) : Prop :=
  ∀ {s a : ℕ} {suporte : Suporte}, st.servido = some (s, a) → st.suportes[s]? = some suporte →
    suporte.deixou = false →
      ∃ agente quadro, st.threads[a]? = some agente ∧ agente.quadro = some quadro ∧
        suporte.recebido <+: retrato nl quadro ++ historia a ∧
          (st.principal = .atende s a →
            suporte.recebido ++ agente.fase.texto = retrato nl quadro ++ historia a)

/-- In that order the texts are delivered. -/
theorem Repassada.entregue {nl : Str} {st : Central} {historia : Historia}
    (before : st.Repassada nl historia) : st.Entregue nl historia := by
  intro s a suporte served found stays
  obtain ⟨agente, quadro, suporte', here, begun, found', sent⟩ := before.entrega served
  cases found.symm.trans found'
  have sent := sent stays
  unfold Entrega at sent
  refine ⟨agente, quadro, here, begun, ?_⟩
  cases principal : st.principal with
  | retrata t b k =>
      rw [principal] at sent
      refine ⟨?_, fun other => by cases other⟩
      rw [sent.2]
      exact (List.take_prefix k _).trans (List.prefix_append _ _)
  | atende t b =>
      rw [principal] at sent
      obtain ⟨_, _, same⟩ := sent
      unfold resto at same
      rw [principal] at same
      exact ⟨⟨_, same⟩, fun _ => same⟩
  | _ =>
      rw [principal] at sent
      exact ⟨⟨_, sent.2.2⟩, fun other => by cases other⟩

/-- The order stands in every run. -/
theorem repassada_run {nl : Str} {x : Central × Historia}
    (run : Relation.ReflTransGen (Anotado nl Ordena) (inicial, fun _ => []) x) :
    x.1.Repassada nl x.2 := by
  induction run with
  | refl => exact repassada_inicial nl
  | tail _ step ih =>
      obtain ⟨p, ordena, step, noted⟩ := step
      rw [noted]
      exact repassada_passo ih ordena step

/-- In a run of steps that keep the order, a support receives the screen and every `REFRESH` of the
client, once and in order. -/
theorem relay_delivers {nl : Str} {st : Central} {historia : Historia}
    (run : Relation.ReflTransGen (Anotado nl Ordena) (inicial, fun _ => []) (st, historia)) :
    st.Entregue nl historia := (repassada_run run).entregue

/-! ## A run that keeps the order, and one that does not -/

instance (st : Central) (historia : Historia) :
    (principal : Principal) → Decidable (st.PodeLigar historia principal)
  | .retrata _ a k => inferInstanceAs (Decidable (vezes ≤ k → ∀ agente ∈ st.threads[a]?,
      historia a = agente.pendentes ++ agente.fase.texto))
  | .accept | .registra _ _ | .ligada _ _ | .descarrega _ _ _ _ | .atende _ _ | .morta =>
      .isTrue trivial

instance (quadro : Quadro) : (efeito : Efeito) → Decidable (mantem quadro efeito)
  | .segue later => inferInstanceAs (Decidable (later.quadro = some quadro))
  | .retorna | .stop => .isTrue trivial

instance (st : Central) (a : ℕ) (agente : Agente) :
    (fase : Fase) → Decidable (st.PodeRepassar a agente fase)
  | .guardando _ => inferInstanceAs (Decidable (st.descarregando a = false))
  | .enviando _ => inferInstanceAs (Decidable
      (∀ served ∈ st.servido, served.2 = a → st.resto agente = []))
  | .lendo => .isTrue trivial

instance (st : Central) (historia : Historia) : (p : Passo) → Decidable (st.Ordena historia p)
  | .retrata => inferInstanceAs (Decidable (st.PodeLigar historia st.principal))
  | .mensagem a cabec corpo => inferInstanceAs (Decidable (∀ served ∈ st.servido, served.2 = a →
      ∀ agente ∈ st.threads[a]?, ∀ quadro ∈ agente.quadro,
        mantem quadro (agente.mensagem quadro cabec corpo)))
  | .repassa a => inferInstanceAs (Decidable
      (∀ agente ∈ st.threads[a]?, st.PodeRepassar a agente agente.fase))
  | .cliente _ | .registra | .suporte _ | .descarrega | .deixa _ | .desliga | .solta | .inicia _
  | .falha _ => .isTrue trivial

/-- Some steps that a test allows, with what was read. -/
def acompanha (nl : Str) (permite : Central → Historia → Passo → Bool) :
    Central × Historia → List Passo → Option (Central × Historia)
  | x, [] => some x
  | x, p :: passos =>
      if permite x.1 x.2 p then
        (x.1.passo nl p).bind fun later =>
          acompanha nl permite (later, x.1.anota x.2 p) passos
      else none

/-- Steps that can be executed make a run with their history. -/
theorem acompanha_run {nl : Str} {permite : Central → Historia → Passo → Bool}
    {passos : List Passo} :
    ∀ {x y : Central × Historia}, acompanha nl permite x passos = some y →
      Relation.ReflTransGen (Anotado nl fun st historia p => permite st historia p = true) x y := by
  induction passos with
  | nil =>
      intro x y same
      cases same
      exact .refl
  | cons p passos ih =>
      intro x y run
      unfold acompanha at run
      split at run
      · rename_i allowed
        obtain ⟨later, step, rest⟩ := Option.bind_eq_some_iff.mp run
        exact .head ⟨p, allowed, step, rfl⟩ (ih rest)
      · cases run

/-- A support connects and is served the pending messages, of which there are some. -/
def atendimento (pendentes : ℕ) : List Passo :=
  .suporte [48, 48, 48, 49, 48, 48, 48, 55] :: List.replicate (vezes + 1) .retrata ++
    List.replicate (pendentes + 2) .descarrega

/-- A message to be passed on, and its way. -/
def refresco : List Passo := [.mensagem 0 (cabecalho (Java.lit "REFRESH")) [], .repassa 0]

/-- One message before the support connects and one after it. -/
theorem relay_delivers_first : ∃ (st : Central) (historia : Historia),
    (st.principal = .atende 0 0 ∧ (historia 0).length = 2) ∧ st.Entregue [10] historia := by
  have ends : (acompanha [10] (fun st historia p => decide (st.Ordena historia p))
      (inicial, fun _ => []) (abertura ++ refresco ++ atendimento 1 ++ refresco)).map
        (fun x => (x.1.principal, (x.2 0).length)) = some (.atende 0 0, 2) := by
    decide +kernel
  obtain ⟨⟨st, historia⟩, run, shape⟩ := Option.map_eq_some_iff.mp ends
  have ordered := acompanha_run run
  simp only [decide_eq_true_eq] at ordered
  exact ⟨st, historia, Prod.mk.inj shape, relay_delivers ordered⟩

/-- The support leaves. -/
def saida (s : ℕ) : List Passo := [.deixa s, .desliga]

/-- The picture has all its lines. -/
theorem length_retrato (nl : Str) (quadro : Quadro) : (retrato nl quadro).length = vezes := by
  unfold retrato
  rw [List.length_map, List.length_range]

/-- A message that is written to a first support is not received by the second. -/
theorem relay_loses : ∃ (st : Central) (historia : Historia),
    Relation.ReflTransGen (Anotado [10] fun _ _ _ => True) (inicial, fun _ => []) (st, historia) ∧
      ¬ st.Entregue [10] historia := by
  have ends : (acompanha [10] (fun _ _ _ => true) (inicial, fun _ => [])
      (abertura ++ atendimento 0 ++ refresco ++ saida 0 ++ atendimento 0)).map
        (fun x => ((x.1.principal, (x.1.suportes[1]?).map fun suporte =>
          (suporte.recebido.length, suporte.deixou)), (x.1.threads[0]?).map Agente.fase,
            (x.2 0).length)) =
      some ((.atende 1 0, some (vezes, false)), some .lendo, 1) := by
    decide +kernel
  obtain ⟨⟨st, historia⟩, run, shape⟩ := Option.map_eq_some_iff.mp ends
  obtain ⟨places, shape⟩ := Prod.mk.inj shape
  obtain ⟨principal, supports⟩ := Prod.mk.inj places
  obtain ⟨threads, read⟩ := Prod.mk.inj shape
  obtain ⟨suporte, found, size⟩ := Option.map_eq_some_iff.mp supports
  obtain ⟨received, stays⟩ := Prod.mk.inj size
  obtain ⟨agente, here, reading⟩ := Option.map_eq_some_iff.mp threads
  have steps := acompanha_run run
  refine ⟨st, historia, ?_, fun entregue => ?_⟩
  · simpa only using steps
  · have served : st.servido = some (1, 0) := by
      unfold servido
      rw [principal]
    obtain ⟨agente', quadro, there, _, _, whole⟩ := entregue served found stays
    cases here.symm.trans there
    have lengths := congrArg List.length (whole principal)
    dsimp only at received reading read
    rw [List.length_append, List.length_append, received, reading, read, length_retrato] at lengths
    exact absurd lengths (by decide)

end Central

end Pqfh
