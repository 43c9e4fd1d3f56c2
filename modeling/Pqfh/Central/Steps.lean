import Mathlib.Data.List.Basic
import Pqfh.Central.Server

/-! # What a step leaves as it is

An agent keeps its session and its key, and it does not come to life again. What a support was
attached to does not change, but for the step that attaches it.
-/

namespace Pqfh

open Java (Octet Str)

/-- The agent has begun and has every line of the screen. -/
def Agente.Pronto (agente : Agente) : Prop :=
  ∃ quadro, agente.quadro = some quadro ∧ quadro.Completo

/-- An agent and what it is later. -/
structure Agente.Segue (agente later : Agente) : Prop where
  sessao : later.sessao = agente.sessao
  chave : later.chave = agente.chave
  vivo : later.vivo = true → agente.vivo = true
  pronto : agente.Pronto → later.Pronto

/-- An agent that does nothing is its own successor. -/
theorem Agente.Segue.refl (agente : Agente) : agente.Segue agente := ⟨rfl, rfl, id, id⟩

/-- The agents of a state and what they are later. -/
structure Central.Segue (st later : Central) : Prop where
  length : later.threads.length = st.threads.length
  agente : ∀ {a : ℕ} {seguinte : Agente}, later.threads[a]? = some seguinte →
    ∃ agente, st.threads[a]? = some agente ∧ agente.Segue seguinte

/-- A support and what it is later, when it is not attached meanwhile. -/
structure Suporte.Segue (suporte later : Suporte) : Prop where
  agente : later.agente = suporte.agente
  deixou : suporte.deixou = true → later.deixou = true

/-- A support that receives nothing is its own successor. -/
theorem Suporte.Segue.refl (suporte : Suporte) : suporte.Segue suporte := ⟨rfl, id⟩

/-- A support that receives a text has what it had, and the text behind it. -/
theorem Suporte.recebe_segue (suporte : Suporte) (texto : Str) :
    suporte.Segue (suporte.recebe texto) := by
  unfold Suporte.recebe
  split
  · exact .refl suporte
  · exact ⟨rfl, id⟩

/-- Receiving does not make a support leave. -/
@[simp] theorem Suporte.recebe_deixou (suporte : Suporte) (texto : Str) :
    (suporte.recebe texto).deixou = suporte.deixou := by
  unfold Suporte.recebe
  split <;> rfl

/-- A support that stays gets the text. -/
theorem Suporte.recebe_recebido {suporte : Suporte} (stays : suporte.deixou = false) (texto : Str) :
    (suporte.recebe texto).recebido = suporte.recebido ++ [texto] := by
  unfold Suporte.recebe
  rw [stays]
  rfl

/-- The supports of a state and what they are later. -/
structure Central.SuportesSeguem (st later : Central) : Prop where
  suporte : ∀ {s : ℕ} {suporte : Suporte}, st.suportes[s]? = some suporte →
    ∃ seguinte, later.suportes[s]? = some seguinte ∧ suporte.Segue seguinte

namespace Central

/-- A step that leaves the agents alone moves no agent. -/
theorem Segue.of_threads {st later : Central} (same : later.threads = st.threads) :
    st.Segue later where
  length := congrArg List.length same
  agente := fun {_ seguinte} found => ⟨seguinte, same ▸ found, .refl seguinte⟩

/-- The agent that was set, or another. -/
theorem set_cases {threads : List Agente} {a b : ℕ} {agente other : Agente}
    (found : (threads.set a agente)[b]? = some other) :
    b = a ∧ other = agente ∨ b ≠ a ∧ threads[b]? = some other := by
  rw [List.getElem?_set] at found
  split at found
  · rename_i same
    split at found
    · exact Or.inl ⟨same.symm, (Option.some.inj found).symm⟩
    · cases found
  · rename_i different
    exact Or.inr ⟨fun same => different same.symm, found⟩

/-- The agent that was put at a place is the one found there. -/
theorem set_self {threads : List Agente} {a : ℕ} {agente : Agente}
    (here : threads[a]? = some agente) (later : Agente) : (threads.set a later)[a]? = some later :=
  List.getElem?_set_self (List.getElem?_eq_some_iff.mp here).1

/-- A step of one agent is a step of the central, the other agents standing still. -/
theorem Segue.setAgente {st : Central} {a : ℕ} {agente seguinte : Agente}
    (here : st.threads[a]? = some agente) (segue : agente.Segue seguinte) :
    st.Segue (st.setAgente a seguinte) where
  length := List.length_set
  agente := by
    intro b later found
    rcases set_cases found with ⟨rfl, rfl⟩ | ⟨_, there⟩
    · exact ⟨agente, here, segue⟩
    · exact ⟨later, there, .refl later⟩

/-- A step that leaves the supports alone sends nothing. -/
theorem SuportesSeguem.of_suportes {st later : Central} (same : later.suportes = st.suportes) :
    st.SuportesSeguem later where
  suporte := fun {_ suporte} found => ⟨suporte, same ▸ found, .refl suporte⟩

/-- A support is changed in a way that leaves what it is attached to. -/
theorem SuportesSeguem.modify {st later : Central} {s : ℕ} {f : Suporte → Suporte}
    (changed : later.suportes = st.suportes.modify s f)
    (segue : ∀ suporte : Suporte, suporte.Segue (f suporte)) :
    st.SuportesSeguem later := by
  refine ⟨fun {other suporte} found => ?_⟩
  rw [changed, List.getElem?_modify, found]
  split
  · exact ⟨f suporte, rfl, segue suporte⟩
  · exact ⟨suporte, rfl, .refl suporte⟩

/-- Another support has come. -/
theorem SuportesSeguem.append {st later : Central} {new : Suporte}
    (changed : later.suportes = st.suportes ++ [new]) : st.SuportesSeguem later := by
  refine ⟨fun {s suporte} found => ?_⟩
  have inside := (List.getElem?_eq_some_iff.mp found).1
  rw [changed, List.getElem?_append_left inside]
  exact ⟨suporte, found, .refl suporte⟩

/-- A text that is written to one support is only added to what that one received. -/
theorem escreve_segue {st later : Central} (s : ℕ) (texto : Str)
    (changed : later.suportes = (st.escreve s texto).suportes) : st.SuportesSeguem later :=
  SuportesSeguem.modify changed fun suporte => suporte.recebe_segue texto

/-- The support that is written to receives the text. -/
theorem escreve_self {st : Central} {s : ℕ} {suporte : Suporte}
    (found : st.suportes[s]? = some suporte) (texto : Str) :
    (st.escreve s texto).suportes[s]? = some (suporte.recebe texto) := by
  unfold escreve
  dsimp only
  rw [List.getElem?_modify_eq, found]
  rfl

/-- The other supports receive nothing. -/
theorem escreve_other (st : Central) {s t : ℕ} (different : s ≠ t) (texto : Str) :
    (st.escreve s texto).suportes[t]? = st.suportes[t]? :=
  List.getElem?_modify_ne _ _ different

/-- Writing to a support neither adds one nor takes one away. -/
theorem length_escreve (st : Central) (s : ℕ) (texto : Str) :
    (st.escreve s texto).suportes.length = st.suportes.length :=
  List.length_modify _ _ _

end Central

/-! ## The steps of an agent -/

/-- What an agent is after a message that does not end it. -/
theorem Agente.mensagem_segue {agente later : Agente} {quadro : Quadro} {cabec corpo : List Octet}
    (segue : agente.mensagem quadro cabec corpo = .segue later) :
    later = agente ∨ (∃ parte i s, later = { agente with quadro := some (quadro.set parte i s) }) ∨
      ∃ s, later = agente.recebeRefresh s := by
  unfold Agente.mensagem at segue
  dsimp only at segue
  split at segue
  · cases segue
  · split at segue
    · split at segue
      · cases segue
      · unfold Agente.comando at segue
        split at segue
        · cases segue
        · split at segue
          · unfold Agente.recebeLinha at segue
            split at segue
            · cases segue
            · split at segue
              · cases segue
                exact Or.inr (Or.inl ⟨_, _, _, rfl⟩)
              · cases segue
          · split at segue
            · cases segue
              exact Or.inr (Or.inr ⟨_, rfl⟩)
            · cases segue
              exact Or.inl rfl
    · cases segue

/-- An agent that reads a message keeps its key, and its frames only grow. -/
theorem Agente.segue_of_mensagem {agente later : Agente} {quadro : Quadro}
    {cabec corpo : List Octet} (here : agente.quadro = some quadro)
    (segue : agente.mensagem quadro cabec corpo = .segue later) : agente.Segue later := by
  rcases Agente.mensagem_segue segue with rfl | ⟨parte, i, s, rfl⟩ | ⟨s, rfl⟩
  · exact .refl later
  · refine ⟨rfl, rfl, id, ?_⟩
    rintro ⟨found, same, completo⟩
    cases here.symm.trans same
    exact ⟨_, rfl, completo.set parte i s⟩
  · exact ⟨rfl, rfl, id, id⟩

namespace Central

/-- An agent starts once, when it has no frame yet. -/
theorem inicia_cases {st later : Central} {a : ℕ} (step : st.inicia a = some later) :
    ∃ agente, st.threads[a]? = some agente ∧ agente.quadro = none ∧
      later = st.setAgente a { agente with quadro := some .vazio } := by
  obtain ⟨agente, here, step⟩ := Option.bind_eq_some_iff.mp step
  split at step
  · rename_i ready
    exact ⟨agente, here, ready.2, (Option.some.inj step).symm⟩
  · cases step

/-- An agent that is alive and reading takes a message: it goes on, or it dies of it. -/
theorem mensagem_cases {st later : Central} {a : ℕ} {cabec corpo : List Octet}
    (step : st.mensagem a cabec corpo = some later) :
    ∃ agente quadro, st.threads[a]? = some agente ∧ agente.quadro = some quadro ∧
      agente.vivo = true ∧ agente.fase = .lendo ∧
        (agente.mensagem quadro cabec corpo = .retorna ∧
            later = st.setAgente a { agente with vivo := false } ∨
          agente.mensagem quadro cabec corpo = .stop ∧
            later = { st.setAgente a { agente with vivo := false } with
              agentes := st.agentes.erase agente.sessao } ∨
          ∃ seguinte, agente.mensagem quadro cabec corpo = .segue seguinte ∧
            later = st.setAgente a seguinte) := by
  obtain ⟨agente, here, step⟩ := Option.bind_eq_some_iff.mp step
  obtain ⟨quadro, begun, step⟩ := Option.bind_eq_some_iff.mp step
  split at step
  · rename_i ready
    refine ⟨agente, quadro, here, begun, ready.1, ready.2, ?_⟩
    cases effect : agente.mensagem quadro cabec corpo with
    | retorna =>
        rw [effect] at step
        exact Or.inl ⟨rfl, (Option.some.inj step).symm⟩
    | stop =>
        rw [effect] at step
        exact Or.inr (Or.inl ⟨rfl, (Option.some.inj step).symm⟩)
    | segue seguinte =>
        rw [effect] at step
        exact Or.inr (Or.inr ⟨seguinte, rfl, (Option.some.inj step).symm⟩)
  · cases step

/-- A text is kept when no support is there, and sent when one is. -/
theorem repassa_cases {st later : Central} {a : ℕ} (step : st.repassa a = some later) :
    ∃ agente texto, st.threads[a]? = some agente ∧ agente.vivo = true ∧
      (agente.fase = .guardando texto ∧ later = st.setAgente a
          { agente with pendentes := agente.pendentes ++ [texto], fase := .lendo } ∨
        ∃ s, agente.fase = .enviando texto ∧ agente.sockSuporte = some s ∧
          later = (st.setAgente a { agente with fase := .lendo }).escreve s texto) := by
  obtain ⟨agente, here, step⟩ := Option.bind_eq_some_iff.mp step
  split at step
  · rename_i alive
    split at step
    · rename_i texto fase
      exact ⟨agente, texto, here, alive, Or.inl ⟨fase, (Option.some.inj step).symm⟩⟩
    · rename_i texto s fase set
      exact ⟨agente, texto, here, alive, Or.inr ⟨s, fase, set, (Option.some.inj step).symm⟩⟩
    · cases step
  · cases step

/-- A text that cannot be sent ends the agent. -/
theorem falha_cases {st later : Central} {a : ℕ} (step : st.falha a = some later) :
    ∃ agente texto, st.threads[a]? = some agente ∧ agente.fase = .enviando texto ∧
      later = st.setAgente a { agente with vivo := false } := by
  obtain ⟨agente, here, step⟩ := Option.bind_eq_some_iff.mp step
  split at step
  · rename_i texto _ fase _
    split at step
    · exact ⟨agente, texto, here, fase, (Option.some.inj step).symm⟩
    · cases step
  · cases step

/-! ## The steps of main -/

/-- A client that is accepted gives the central a key, or text that is no number and ends the
thread. -/
theorem cliente_cases {st later : Central} {buf : List Octet} (step : st.cliente buf = some later) :
    st.principal = .accept ∧ (later = st.setPrincipal .morta ∨
      ∃ chave, Java.parseInt (Java.decodeUtf8 buf) = some chave ∧ later = { st with
        threads := st.threads ++ [Agente.novo st.proxima chave]
        principal := .registra st.proxima st.threads.length }) := by
  unfold cliente at step
  split at step
  · rename_i free
    refine ⟨free, ?_⟩
    split at step
    · exact Or.inl (Option.some.inj step).symm
    · rename_i chave read
      exact Or.inr ⟨chave, read, (Option.some.inj step).symm⟩
  · cases step

/-- The agent of a client is registered under its session. -/
theorem registra_cases {st later : Central} (step : st.registra = some later) :
    ∃ sessao a, st.principal = .registra sessao a ∧
      later = { st with agentes := st.agentes.insert sessao a, principal := .accept } := by
  unfold registra at step
  split at step
  · rename_i sessao a here
    exact ⟨sessao, a, here, (Option.some.inj step).symm⟩
  · cases step

/-- A support is refused, or it is bound to the agent of the session it asked for. -/
theorem suporte_cases {st later : Central} {buf : List Octet} (step : st.suporte buf = some later) :
    st.principal = .accept ∧ (later = st.setPrincipal .morta ∨
      (∃ resposta, later = st.recusa resposta) ∨
      ∃ a agente, st.threads[a]? = some agente ∧ later = { st with
        suportes := st.suportes ++ [⟨Java.lit "OK\n", [], none, false⟩]
        principal := if agente.quadro.isNone then .morta
          else .retrata st.suportes.length a 0 }) := by
  unfold suporte at step
  split at step
  · rename_i free
    refine ⟨free, ?_⟩
    dsimp only at step
    split at step
    · exact Or.inl (Option.some.inj step).symm
    · split at step
      · exact Or.inr (Or.inl ⟨_, (Option.some.inj step).symm⟩)
      · split at step
        · exact Or.inl (Option.some.inj step).symm
        · cases step
        · rename_i agente _ here
          split at step
          · exact Or.inr (Or.inl ⟨_, (Option.some.inj step).symm⟩)
          · exact Or.inr (Or.inr ⟨_, agente, here, (Option.some.inj step).symm⟩)
  · cases step

/-- The picture of the screen is sent line by line, up to the last. -/
theorem retrata_cases {nl : Str} {st later : Central} (step : st.retrata nl = some later) :
    ∃ s a k agente, st.principal = .retrata s a k ∧ st.threads[a]? = some agente ∧
      (k < vezes ∧ (agente.quadro.bind fun quadro => quadro.linha (vez k).1 (vez k).2) = none ∧
          later = st.setPrincipal .morta ∨
        (∃ texto, k < vezes ∧
          (agente.quadro.bind fun quadro => quadro.linha (vez k).1 (vez k).2) = some texto ∧
          later = (st.escreve s (linhaTexto nl (vez k).1 (vez k).2 texto)).setPrincipal
            (.retrata s a (k + 1))) ∨
        vezes ≤ k ∧ later = { st.setAgente a { agente with sockSuporte := some s } with
          suportes := st.suportes.modify s fun suporte => { suporte with agente := some a }
          principal := .ligada s a }) := by
  unfold retrata at step
  split at step
  · rename_i s a k here
    obtain ⟨agente, found, step⟩ := Option.bind_eq_some_iff.mp step
    refine ⟨s, a, k, agente, here, found, ?_⟩
    split at step
    · rename_i more
      split at step
      · rename_i null
        exact Or.inl ⟨more, null, (Option.some.inj step).symm⟩
      · rename_i texto line
        exact Or.inr (Or.inl ⟨texto, more, line, (Option.some.inj step).symm⟩)
    · rename_i done
      exact Or.inr (Or.inr ⟨Nat.le_of_not_lt done, (Option.some.inj step).symm⟩)
  · cases step

/-- The texts that were kept are sent in the order in which they came. -/
theorem descarrega_cases {st later : Central} (step : st.descarrega = some later) :
    ∃ s a agente, st.threads[a]? = some agente ∧
      (st.principal = .ligada s a ∧
          later = st.setPrincipal (.descarrega s a 0 agente.pendentes.length) ∨
        ∃ i n, st.principal = .descarrega s a i n ∧
          (i = agente.pendentes.length ∧ later = st.setPrincipal (.atende s a) ∨
            agente.pendentes.length ≠ n ∧ later = st.setPrincipal .morta ∨
            i ≠ agente.pendentes.length ∧ agente.pendentes.length = n ∧
              later = (st.escreve s (agente.pendentes.getD i [])).setPrincipal
                (.descarrega s a (i + 1) n))) := by
  unfold descarrega at step
  split at step
  · rename_i s a here
    obtain ⟨agente, found, same⟩ := Option.map_eq_some_iff.mp step
    exact ⟨s, a, agente, found, Or.inl ⟨here, same.symm⟩⟩
  · rename_i s a i n here
    obtain ⟨agente, found, same⟩ := Option.map_eq_some_iff.mp step
    refine ⟨s, a, agente, found, Or.inr ⟨i, n, here, ?_⟩⟩
    split at same
    · rename_i done
      exact Or.inl ⟨done, same.symm⟩
    · rename_i more
      split at same
      · rename_i changed
        exact Or.inr (Or.inl ⟨changed, same.symm⟩)
      · rename_i unchanged
        exact Or.inr (Or.inr ⟨more, not_not.mp unchanged, same.symm⟩)
  · cases step

/-- A support that leaves is marked so, and nothing else changes. -/
theorem deixa_cases {st later : Central} {s : ℕ} (step : st.deixa s = some later) :
    later = { st with
      suportes := st.suportes.modify s fun suporte => { suporte with deixou := true } } := by
  unfold deixa at step
  split at step
  · exact (Option.some.inj step).symm
  · cases step

/-- The main thread turns to the next caller when the support it serves has left. -/
theorem desliga_cases {st later : Central} (step : st.desliga = some later) :
    ∃ s a suporte, st.servido = some (s, a) ∧ st.suportes[s]? = some suporte ∧
      suporte.deixou = true ∧ later = st.setPrincipal .accept := by
  unfold desliga at step
  split at step
  · cases step
  · obtain ⟨⟨s, a⟩, served, step⟩ := Option.bind_eq_some_iff.mp step
    obtain ⟨suporte, found, step⟩ := Option.bind_eq_some_iff.mp step
    split at step
    · rename_i left
      exact ⟨s, a, suporte, served, found, left, (Option.some.inj step).symm⟩
    · cases step

/-- The main thread may let a support go that it serves. -/
theorem solta_cases {st later : Central} (step : st.solta = some later) :
    ∃ s a, st.principal = .atende s a ∧ later = st.setPrincipal .accept := by
  unfold solta at step
  split at step
  · rename_i s a here
    exact ⟨s, a, here, (Option.some.inj step).symm⟩
  · cases step

end Central

end Pqfh
