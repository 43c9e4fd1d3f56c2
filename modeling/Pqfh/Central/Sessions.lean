import Mathlib.Logic.Relation
import Pqfh.Central.Steps

/-! # Sessions

The number of a session is the size of the map and one. As long as no agent that runs has that
number when a client connects, and the number has four digits, every agent that runs is found under
its own number, and a support that presents the session and the key of a client is attached to its
agent.
-/

namespace Pqfh

open Java (Octet Str parseInt decodeUtf8 encodeUtf8 formatInt)

namespace Central

/-- What a client is sent, `String.format("%04d", sessao).getBytes()`. It reads four bytes of it. -/
def sessaoBytes (sessao : ℕ) : List Octet := encodeUtf8 (formatInt 4 sessao)

/-- A support presents the session and the key that were given to the client of an agent that runs.
-/
def Apresenta (st : Central) (buf : List Octet) (a : ℕ) : Prop :=
  ∃ agente chave, st.threads[a]? = some agente ∧ agente.vivo = true ∧
    parseInt (decodeUtf8 chave) = some agente.chave ∧
      buf = (sessaoBytes agente.sessao).take 4 ++ chave

/-- A client may connect when the next number has four digits and is not that of an agent in the map
that runs; a support, when the agent that it asks for has every line of the screen. -/
def Permite (st : Central) : Passo → Prop
  | .cliente _ => st.proxima < 10000 ∧ ∀ {a : ℕ} {agente : Agente},
      st.agentes.lookup st.proxima = some a → st.threads[a]? = some agente → agente.vivo = false
  | .suporte buf => ∀ {a : ℕ} {agente : Agente},
      st.Apresenta buf a → st.threads[a]? = some agente → agente.Pronto
  | _ => True

/-- A step that is permitted. -/
def Permitido (nl : Str) (st later : Central) : Prop :=
  ∃ p, st.Permite p ∧ st.passo nl p = some later

/-- No two agents that run have one number. -/
def Distintas (st : Central) : Prop :=
  ∀ {a b : ℕ} {first second : Agente}, st.threads[a]? = some first → st.threads[b]? = some second →
    first.vivo = true → second.vivo = true → first.sessao = second.sessao → a = b

/-- Every agent that runs is in the map under its number, or about to be put there. -/
def Registrados (st : Central) : Prop :=
  ∀ {a : ℕ} {agente : Agente}, st.threads[a]? = some agente → agente.vivo = true →
    st.agentes.lookup agente.sessao = some a ∨ st.principal = .registra agente.sessao a

/-- A support is on its way to an agent, or was attached to it, or has left. -/
def Ligado (st : Central) (s a : ℕ) : Prop :=
  (s < st.suportes.length ∧
    ∃ k agente, st.principal = .retrata s a k ∧ st.threads[a]? = some agente ∧ agente.Pronto) ∨
    (∀ b k, st.principal ≠ .retrata s b k) ∧
      ∃ suporte, st.suportes[s]? = some suporte ∧ (suporte.agente = some a ∨ suporte.deixou = true)

/-! ## The invariant -/

/-- What holds in every state that permitted steps reach. -/
structure Numerada (st : Central) : Prop where
  registrados : st.Registrados
  /-- An agent that is about to be put into the map has its number alone. -/
  pendente : ∀ {sessao a : ℕ}, st.principal = .registra sessao a →
    ∀ {b : ℕ} {agente : Agente}, st.threads[b]? = some agente → agente.vivo = true →
      agente.sessao = sessao → b = a
  pequenas : ∀ {a : ℕ} {agente : Agente}, st.threads[a]? = some agente → agente.sessao < 10000

/-- Sessions that are numbered in order are distinct. -/
theorem Numerada.distintas {st : Central} (before : st.Numerada) : st.Distintas := by
  intro a b first second here there alive alive' same
  rcases before.registrados here alive with found | pending
  · rcases before.registrados there alive' with found' | pending'
    · rw [same] at found
      exact Option.some.inj (found.symm.trans found')
    · exact before.pendente pending' here alive same
  · exact (before.pendente pending there alive' same.symm).symm

/-- No session is there at the start. -/
theorem numerada_inicial : inicial.Numerada where
  registrados := fun here => by cases here
  pendente := fun pending => by cases pending
  pequenas := fun here => by cases here

/-- A step that leaves the map, and puts nothing into it. -/
theorem Numerada.quieto {st later : Central} (before : st.Numerada) (segue : st.Segue later)
    (mapa : later.agentes = st.agentes)
    (principal : ∀ sessao a, st.principal = .registra sessao a ↔
    later.principal = .registra sessao a) :
    later.Numerada where
  registrados := by
    intro a agente here alive
    obtain ⟨earlier, there, same⟩ := segue.agente here
    rw [mapa, same.sessao, ← principal]
    exact before.registrados there (same.vivo alive)
  pendente := by
    intro sessao a pending b agente here alive number
    obtain ⟨earlier, there, same⟩ := segue.agente here
    exact before.pendente ((principal sessao a).mpr pending) there (same.vivo alive)
      (same.sessao.symm.trans number)
  pequenas := by
    intro a agente here
    obtain ⟨earlier, there, same⟩ := segue.agente here
    rw [same.sessao]
    exact before.pequenas there

/-- `main` is about to put an agent into the map. -/
def registrando (st : Central) : Bool :=
  match st.principal with
  | .registra _ _ => true
  | _ => false

/-- A step of `main` before and after which it is not about to put an agent into the map. -/
theorem Numerada.livre {st later : Central} (before : st.Numerada) (segue : st.Segue later)
    (mapa : later.agentes = st.agentes) (free : st.registrando = false)
    (still : later.registrando = false) : later.Numerada := by
  apply before.quieto segue mapa
  intro sessao a
  constructor
  · intro pending
    unfold registrando at free
    rw [pending] at free
    cases free
  · intro pending
    unfold registrando at still
    rw [pending] at still
    cases still

/-- A client that is accepted takes the next number. -/
theorem numerada_cliente {st later : Central} {buf : List Octet} (before : st.Numerada)
    (permite : st.Permite (.cliente buf)) (step : st.cliente buf = some later) :
    later.Numerada := by
  obtain ⟨free, rfl | ⟨chave, _, rfl⟩⟩ := cliente_cases step
  · exact before.livre (.of_threads rfl) rfl (by unfold registrando; rw [free]) rfl
  · obtain ⟨small, unused⟩ := permite
    -- the agents that were there, and the new one
    have each : ∀ {a : ℕ} {agente : Agente},
        (st.threads ++ [Agente.novo st.proxima chave])[a]? = some agente →
          st.threads[a]? = some agente ∨
            a = st.threads.length ∧ agente = Agente.novo st.proxima chave := by
      intro a agente here
      rw [List.getElem?_append] at here
      split at here
      · exact Or.inl here
      · rename_i beyond
        have last : a - st.threads.length = 0 := by
          have inside := (List.getElem?_eq_some_iff.mp here).1
          rw [List.length_singleton] at inside
          omega
        rw [last] at here
        exact Or.inr ⟨by omega, (Option.some.inj here).symm⟩
    have registered : ∀ {a : ℕ} {agente : Agente}, st.threads[a]? = some agente →
        agente.vivo = true → st.agentes.lookup agente.sessao = some a := by
      intro a agente here alive
      refine (before.registrados here alive).resolve_right fun pending => ?_
      rw [free] at pending
      cases pending
    refine ⟨?_, ?_, ?_⟩
    · intro a agente here alive
      rcases each here with there | ⟨rfl, rfl⟩
      · exact Or.inl (registered there alive)
      · exact Or.inr rfl
    · intro sessao a pending b agente here alive number
      cases pending
      rcases each here with there | ⟨last, _⟩
      · have found := registered there alive
        rw [number] at found
        rw [unused found there] at alive
        cases alive
      · exact last
    · intro a agente here
      rcases each here with there | ⟨_, rfl⟩
      · exact before.pequenas there
      · exact small

/-- The session that is registered is the one that was numbered. -/
theorem numerada_registra {st later : Central} (before : st.Numerada)
    (step : st.registra = some later) : later.Numerada := by
  obtain ⟨sessao, a, pending, rfl⟩ := registra_cases step
  refine ⟨?_, fun other => (by cases other), before.pequenas⟩
  intro b agente here alive
  left
  dsimp only at here ⊢
  by_cases same : agente.sessao = sessao
  · rw [same, before.pendente pending here alive same]
    exact AList.lookup_insert _
  · rw [AList.lookup_insert_ne same]
    refine (before.registrados here alive).resolve_right fun other => ?_
    rw [pending] at other
    cases other
    exact same rfl

/-- A message numbers no session. -/
theorem numerada_mensagem {st later : Central} {a : ℕ} {cabec corpo : List Octet}
    (before : st.Numerada) (step : st.mensagem a cabec corpo = some later) : later.Numerada := by
  obtain ⟨agente, quadro, here, begun, alive, _, cases⟩ := mensagem_cases step
  have ended : agente.Segue { agente with vivo := false } :=
    ⟨rfl, rfl, fun other => (by cases other), id⟩
  rcases cases with ⟨_, rfl⟩ | ⟨_, rfl⟩ | ⟨seguinte, effect, rfl⟩
  · exact before.quieto (.setAgente here ended) rfl fun _ _ => Iff.rfl
  · -- the agent takes its number out of the map, which no other agent that runs has
    have quiet : (st.setAgente a { agente with vivo := false }).Numerada :=
      before.quieto (.setAgente here ended) rfl fun _ _ => Iff.rfl
    refine ⟨?_, quiet.pendente, quiet.pequenas⟩
    intro b other there running
    have number : other.sessao ≠ agente.sessao := by
      intro same
      obtain ⟨earlier, found, segue⟩ := (Segue.setAgente here ended).agente there
      obtain rfl := before.distintas found here (segue.vivo running) alive
        (segue.sessao.symm.trans same)
      have gone : (st.threads.set b { agente with vivo := false })[b]? = some other := there
      rw [List.getElem?_set_self (List.getElem?_eq_some_iff.mp here).1] at gone
      cases gone
      cases running
    rcases quiet.registrados there running with found | pending
    · exact Or.inl ((AList.lookup_erase_ne number).trans found)
    · exact Or.inr pending
  · exact before.quieto (.setAgente here (Agente.segue_of_mensagem begun effect)) rfl
      fun _ _ => Iff.rfl

/-- A support numbers no session. -/
theorem numerada_suporte {st later : Central} {buf : List Octet} (before : st.Numerada)
    (step : st.suporte buf = some later) : later.Numerada := by
  obtain ⟨free, cases⟩ := suporte_cases step
  have quiet : st.registrando = false := by
    unfold registrando
    rw [free]
  rcases cases with rfl | ⟨_, rfl⟩ | ⟨a, agente, _, rfl⟩
  · exact before.livre (.of_threads rfl) rfl quiet rfl
  · exact before.livre (.of_threads rfl) rfl quiet quiet
  · refine before.livre (.of_threads rfl) rfl quiet ?_
    unfold registrando
    dsimp only
    split_ifs <;> rfl

/-- The main thread does not register while it serves a support. -/
theorem registrando_of_servido {st : Central} {s a : ℕ} (served : st.servido = some (s, a)) :
    st.registrando = false := by
  unfold servido at served
  unfold registrando
  cases principal : st.principal with
  | registra sessao b =>
      rw [principal] at served
      cases served
  | _ => rfl

/-- Sending the picture numbers no session. -/
theorem numerada_retrata {nl : Str} {st later : Central} (before : st.Numerada)
    (step : st.retrata nl = some later) : later.Numerada := by
  obtain ⟨s, a, k, agente, principal, here, cases⟩ := retrata_cases step
  have quiet : st.registrando = false := by
    unfold registrando
    rw [principal]
  rcases cases with ⟨_, _, rfl⟩ | ⟨texto, _, _, rfl⟩ | ⟨_, rfl⟩
  · exact before.livre (.of_threads rfl) rfl quiet rfl
  · exact before.livre (.of_threads rfl) rfl quiet rfl
  · have set : agente.Segue { agente with sockSuporte := some s } := ⟨rfl, rfl, id, id⟩
    have quieto : (st.setAgente a { agente with sockSuporte := some s }).Numerada :=
      before.livre (.setAgente here set) rfl quiet quiet
    exact quieto.livre (.of_threads rfl) rfl quiet rfl

/-- Sending what was kept numbers no session. -/
theorem numerada_descarrega {st later : Central} (before : st.Numerada)
    (step : st.descarrega = some later) : later.Numerada := by
  obtain ⟨s, a, agente, _, ⟨principal, rfl⟩ | ⟨i, n, principal, cases⟩⟩ := descarrega_cases step
  · exact before.livre (.of_threads rfl) rfl (by unfold registrando; rw [principal]) rfl
  · have quiet : st.registrando = false := by
      unfold registrando
      rw [principal]
    rcases cases with ⟨_, rfl⟩ | ⟨_, rfl⟩ | ⟨_, _, rfl⟩ <;>
      exact before.livre (.of_threads rfl) rfl quiet rfl

/-- Of the steps that are permitted, each keeps every agent that runs under its own number. -/
theorem numerada_passo {nl : Str} {st later : Central} {p : Passo} (before : st.Numerada)
    (permite : st.Permite p) (step : st.passo nl p = some later) : later.Numerada := by
  cases p with
  | cliente buf => exact numerada_cliente before permite step
  | registra => exact numerada_registra before step
  | suporte buf => exact numerada_suporte before step
  | retrata => exact numerada_retrata before step
  | descarrega => exact numerada_descarrega before step
  | deixa s =>
      rw [deixa_cases step]
      exact before.quieto (.of_threads rfl) rfl fun _ _ => Iff.rfl
  | desliga =>
      obtain ⟨s, a, _, served, _, _, rfl⟩ := desliga_cases step
      exact before.livre (.of_threads rfl) rfl (registrando_of_servido served) rfl
  | solta =>
      obtain ⟨s, a, principal, rfl⟩ := solta_cases step
      exact before.livre (.of_threads rfl) rfl (by unfold registrando; rw [principal]) rfl
  | inicia a =>
      obtain ⟨agente, here, none, rfl⟩ := inicia_cases step
      refine before.quieto (.setAgente here ⟨rfl, rfl, id, ?_⟩) rfl fun _ _ => Iff.rfl
      rintro ⟨quadro, same, _⟩
      rw [none] at same
      cases same
  | mensagem a cabec corpo => exact numerada_mensagem before step
  | repassa a =>
      obtain ⟨agente, texto, here, _, ⟨_, rfl⟩ | ⟨s, _, _, rfl⟩⟩ := repassa_cases step
      · exact before.quieto (.setAgente here ⟨rfl, rfl, id, id⟩) rfl fun _ _ => Iff.rfl
      · have sent : agente.Segue { agente with fase := .lendo } := ⟨rfl, rfl, id, id⟩
        have quieto : (st.setAgente a { agente with fase := .lendo }).Numerada :=
          before.quieto (.setAgente here sent) rfl fun _ _ => Iff.rfl
        exact quieto.quieto (.of_threads rfl) rfl fun _ _ => Iff.rfl
  | falha a =>
      obtain ⟨agente, texto, here, _, rfl⟩ := falha_cases step
      exact before.quieto (.setAgente here ⟨rfl, rfl, fun other => (by cases other), id⟩) rfl
        fun _ _ => Iff.rfl

/-- Sessions are numbered in order in every run. -/
theorem numerada_run {nl : Str} {st : Central}
    (run : Relation.ReflTransGen (Permitido nl) inicial st) : st.Numerada := by
  induction run with
  | refl => exact numerada_inicial
  | tail _ step ih =>
      obtain ⟨p, permite, step⟩ := step
      exact numerada_passo ih permite step

/-! ## The supports -/

/-- The bytes that a client is sent are read as its number. -/
theorem presented {sessao : ℕ} (small : sessao < 10000) {chave : List Octet} :
    let s := decodeUtf8 ((sessaoBytes sessao).take 4 ++ chave)
    (Java.substring s 0 4).bind parseInt = some (sessao : ℤ) ∧ s.drop 4 = decodeUtf8 chave := by
  obtain ⟨read, length, ascii⟩ := @Java.parseInt_formatInt 4 sessao (by decide) small
    (small.le.trans (by decide))
  have bytes : sessaoBytes sessao = (formatInt 4 sessao).map Java.toOctet := by
    have whole := Java.encodeUtf8_append ascii []
    rw [List.append_nil] at whole
    unfold sessaoBytes
    rw [whole]
    exact List.append_nil _
  have whole : (sessaoBytes sessao).take 4 = (formatInt 4 sessao).map Java.toOctet := by
    rw [bytes]
    exact List.take_of_length_le (by rw [List.length_map, length])
  have text : decodeUtf8 ((sessaoBytes sessao).take 4 ++ chave) =
      formatInt 4 sessao ++ decodeUtf8 chave := by
    rw [whole, Java.decodeUtf8_append (Java.map_toOctet_low ascii),
      Java.decodeLatin1_map_toOctet fun unit member => (ascii unit member).trans (by decide)]
  have front : Java.substring (formatInt 4 sessao ++ decodeUtf8 chave) 0 4 =
      some (formatInt 4 sessao) := by
    unfold Java.substring
    rw [if_pos ⟨Nat.zero_le 4, by rw [List.length_append, length]; exact Nat.le_add_right 4 _⟩,
      List.drop_zero, List.take_left' length]
  dsimp only
  rw [text, front]
  exact ⟨read, List.drop_left' length⟩

/-- A support that presents the session and the key of a client is on its way to the agent. -/
theorem ligado_suporte {st later : Central} {buf : List Octet} {a : ℕ} (before : st.Numerada)
    (permite : st.Permite (.suporte buf)) (apresenta : st.Apresenta buf a)
    (step : st.suporte buf = some later) : later.Ligado st.suportes.length a := by
  have free := (suporte_cases step).1
  have pronto := fun {agente : Agente} => @permite a agente apresenta
  obtain ⟨agente, chave, here, alive, key, rfl⟩ := apresenta
  obtain ⟨number, rest⟩ := @presented agente.sessao (before.pequenas here) chave
  have found : st.agentes.lookup agente.sessao = some a := by
    refine (before.registrados here alive).resolve_right fun pending => ?_
    rw [free] at pending
    cases pending
  have busca : st.busca agente.sessao = some a := by
    unfold busca
    rw [if_neg (Int.not_lt.mpr (Int.natCast_nonneg _)), Int.toNat_natCast, found]
  obtain ⟨quadro, begun, _⟩ := pronto here
  unfold suporte at step
  rw [if_pos free] at step
  dsimp only at number rest step
  rw [number] at step
  dsimp only at step
  rw [busca] at step
  dsimp only at step
  rw [rest, key, here] at step
  dsimp only at step
  rw [if_neg (not_not_intro rfl), begun] at step
  cases step
  refine Or.inl ⟨?_, 0, agente, rfl, here, pronto here⟩
  dsimp only
  rw [List.length_append, List.length_singleton]
  exact Nat.lt_succ_self _

/-- What a support was attached to stays, when it is not the one that is being shown the screen. -/
theorem Ligado.mantem {st later : Central} {s a : ℕ}
    (segue : ∀ {suporte : Suporte}, st.suportes[s]? = some suporte →
      ∃ seguinte, later.suportes[s]? = some seguinte ∧ suporte.Segue seguinte)
    (still : ∀ b k, later.principal ≠ .retrata s b k)
    (done : ∃ suporte, st.suportes[s]? = some suporte ∧
      (suporte.agente = some a ∨ suporte.deixou = true)) : later.Ligado s a := by
  obtain ⟨suporte, found, attached⟩ := done
  obtain ⟨seguinte, found', same⟩ := segue found
  refine Or.inr ⟨still, seguinte, found', ?_⟩
  rw [same.agente]
  exact attached.imp_right same.deixou

/-- A step that leaves where `main` stands leaves the way of a support to an agent. -/
theorem Ligado.parado {st later : Central} {s a : ℕ} (ligado : st.Ligado s a)
    (segue : st.Segue later) (seguem : st.SuportesSeguem later)
    (principal : later.principal = st.principal) : later.Ligado s a := by
  rcases ligado with ⟨known, k, agente, here, found, pronto⟩ | ⟨other, done⟩
  · have inside := (List.getElem?_eq_some_iff.mp found).1
    rw [← segue.length] at inside
    have there := List.getElem?_eq_getElem inside
    obtain ⟨earlier, found', same⟩ := segue.agente there
    cases found.symm.trans found'
    obtain ⟨_, later_known, _⟩ := seguem.suporte (List.getElem?_eq_getElem known)
    exact Or.inl ⟨(List.getElem?_eq_some_iff.mp later_known).1, k, _, principal.trans here, there,
      same.pronto pronto⟩
  · exact Ligado.mantem seguem.suporte (fun b k => principal ▸ other b k) done

/-- A step of `main` that does not go on with the screen. -/
theorem Ligado.outro {st later : Central} {s a : ℕ} (ligado : st.Ligado s a)
    (seguem : st.SuportesSeguem later) (busy : ∀ b k, st.principal ≠ .retrata s b k)
    (still : ∀ b k, later.principal ≠ .retrata s b k) : later.Ligado s a := by
  obtain ⟨_, done⟩ := ligado.resolve_left fun ⟨_, k, _, here, _⟩ => busy a k here
  exact Ligado.mantem seguem.suporte still done

/-- A support stays bound to its agent while the picture is sent. -/
theorem ligado_retrata {nl : Str} {st later : Central} {s a : ℕ} (ligado : st.Ligado s a)
    (step : st.retrata nl = some later) : later.Ligado s a := by
  obtain ⟨t, b, k, agente, principal, here, cases⟩ := retrata_cases step
  rcases ligado with ⟨known, k', agente', shown, found, pronto⟩ | ⟨other, done⟩
  · cases principal.symm.trans shown
    cases here.symm.trans found
    rcases cases with ⟨more, null, _⟩ | ⟨texto, _, _, rfl⟩ | ⟨_, rfl⟩
    · -- the agent has every line
      obtain ⟨quadro, begun, completo⟩ := pronto
      have line := completo (vez k).1 (vez k).2 (by
        unfold vezes linhas at more
        unfold vez linhas
        dsimp only
        omega)
      rw [begun, Option.bind_some] at null
      rw [null] at line
      cases line
    · refine Or.inl ⟨?_, k + 1, agente, rfl, found, pronto⟩
      exact known.trans_eq (length_escreve st s _).symm
    · refine Or.inr ⟨fun _ _ other => (by cases other),
        { st.suportes[s] with agente := some a }, ?_,
        Or.inl rfl⟩
      dsimp only
      rw [List.getElem?_modify_eq, List.getElem?_eq_getElem known]
      rfl
  · have different : t ≠ s := by
      rintro rfl
      exact other b k principal
    rcases cases with ⟨_, _, rfl⟩ | ⟨texto, _, _, rfl⟩ | ⟨_, rfl⟩
    · exact Ligado.mantem (fun found => ⟨_, found, .refl _⟩) (fun _ _ other => by cases other) done
    · refine Ligado.mantem (escreve_segue t _ rfl).suporte (fun c l shown => ?_) done
      cases shown
      exact different rfl
    · refine Ligado.mantem (fun {suporte} found => ⟨suporte, ?_, .refl _⟩)
        (fun _ _ other => by cases other) done
      dsimp only
      rw [List.getElem?_modify_ne _ _ different]
      exact found

/-- A support stays bound to its agent over any step. -/
theorem ligado_passo {nl : Str} {st later : Central} {p : Passo} {s a : ℕ} (ligado : st.Ligado s a)
    (step : st.passo nl p = some later) : later.Ligado s a := by
  cases p with
  | cliente buf =>
      obtain ⟨free, cases⟩ := cliente_cases step
      have busy : ∀ b k, st.principal ≠ .retrata s b k := by
        intro b k shown
        rw [free] at shown
        cases shown
      rcases cases with rfl | ⟨_, _, rfl⟩
      · exact ligado.outro (.of_suportes rfl) busy fun _ _ other => by cases other
      · exact ligado.outro (.of_suportes rfl) busy fun _ _ other => by cases other
  | registra =>
      obtain ⟨_, _, principal, rfl⟩ := registra_cases step
      refine ligado.outro (.of_suportes rfl) (fun b k shown => ?_) fun _ _ other => by cases other
      rw [principal] at shown
      cases shown
  | suporte buf =>
      obtain ⟨free, cases⟩ := suporte_cases step
      have busy : ∀ b k, st.principal ≠ .retrata s b k := by
        intro b k shown
        rw [free] at shown
        cases shown
      rcases cases with rfl | ⟨_, rfl⟩ | ⟨b, agente, _, rfl⟩
      · exact ligado.outro (.of_suportes rfl) busy fun _ _ other => by cases other
      · exact ligado.outro (.append rfl) busy busy
      · obtain ⟨_, suporte, found, _⟩ := ligado.resolve_left fun ⟨_, k, _, here, _⟩ => busy a k here
        have earlier := (List.getElem?_eq_some_iff.mp found).1
        refine ligado.outro (.append rfl) busy fun c k shown => ?_
        dsimp only at shown
        split_ifs at shown
        cases shown
        exact absurd earlier (lt_irrefl _)
  | retrata => exact ligado_retrata ligado step
  | descarrega =>
      obtain ⟨t, b, agente, _, ⟨principal, rfl⟩ | ⟨i, n, principal, cases⟩⟩ := descarrega_cases step
      · refine ligado.outro (.of_suportes rfl) (fun c k shown => ?_) fun _ _ other => by cases other
        rw [principal] at shown
        cases shown
      · have busy : ∀ b k, st.principal ≠ .retrata s b k := by
          intro b k shown
          rw [principal] at shown
          cases shown
        rcases cases with ⟨_, rfl⟩ | ⟨_, rfl⟩ | ⟨_, _, rfl⟩
        · exact ligado.outro (.of_suportes rfl) busy fun _ _ other => by cases other
        · exact ligado.outro (.of_suportes rfl) busy fun _ _ other => by cases other
        · exact ligado.outro (escreve_segue t _ rfl) busy fun _ _ other => by cases other
  | deixa t =>
      rw [deixa_cases step]
      exact ligado.parado (.of_threads rfl) (.modify rfl fun _ => ⟨rfl, fun _ => rfl⟩) rfl
  | desliga =>
      obtain ⟨t, b, suporte, served, found, left, rfl⟩ := desliga_cases step
      rcases ligado with ⟨_, k, _, shown, _⟩ | ⟨other, done⟩
      · unfold servido at served
        rw [shown] at served
        cases served
        exact Or.inr ⟨fun _ _ other => (by cases other), suporte, found, Or.inr left⟩
      · exact Ligado.mantem (fun found => ⟨_, found, .refl _⟩)
          (fun _ _ other => by cases other) done
  | solta =>
      obtain ⟨t, b, principal, rfl⟩ := solta_cases step
      refine ligado.outro (.of_suportes rfl) (fun c k shown => ?_) fun _ _ other => by cases other
      rw [principal] at shown
      cases shown
  | inicia b =>
      obtain ⟨agente, here, none, rfl⟩ := inicia_cases step
      refine ligado.parado (.setAgente here ⟨rfl, rfl, id, ?_⟩) (.of_suportes rfl) rfl
      rintro ⟨quadro, same, _⟩
      rw [none] at same
      cases same
  | mensagem b cabec corpo =>
      obtain ⟨agente, quadro, here, begun, _, _, cases⟩ := mensagem_cases step
      have ended : agente.Segue { agente with vivo := false } :=
        ⟨rfl, rfl, fun other => (by cases other), id⟩
      rcases cases with ⟨_, rfl⟩ | ⟨_, rfl⟩ | ⟨seguinte, effect, rfl⟩
      · exact ligado.parado (.setAgente here ended) (.of_suportes rfl) rfl
      · have set := Segue.setAgente here ended
        exact ligado.parado ⟨set.length, set.agente⟩ (.of_suportes rfl) rfl
      · exact ligado.parado (.setAgente here (Agente.segue_of_mensagem begun effect))
          (.of_suportes rfl) rfl
  | repassa b =>
      obtain ⟨agente, texto, here, _, ⟨_, rfl⟩ | ⟨t, _, _, rfl⟩⟩ := repassa_cases step
      · exact ligado.parado (.setAgente here ⟨rfl, rfl, id, id⟩) (.of_suportes rfl) rfl
      · have set : st.Segue (st.setAgente b { agente with fase := .lendo }) :=
          .setAgente here ⟨rfl, rfl, id, id⟩
        exact ligado.parado ⟨set.length, set.agente⟩ (escreve_segue t texto rfl) rfl
  | falha b =>
      obtain ⟨agente, texto, here, _, rfl⟩ := falha_cases step
      exact ligado.parado (.setAgente here ⟨rfl, rfl, fun other => (by cases other), id⟩)
        (.of_suportes rfl) rfl

/-- A support stays bound to its agent over any run. -/
theorem ligado_run {nl : Str} {st later : Central} {s a : ℕ} (ligado : st.Ligado s a)
    (run : Relation.ReflTransGen (Permitido nl) st later) : later.Ligado s a := by
  induction run with
  | refl => exact ligado
  | tail _ step ih =>
      obtain ⟨p, _, step⟩ := step
      exact ligado_passo ih step

/-- A support was attached to an agent, or has left. -/
def Atendido (st : Central) (s a : ℕ) : Prop :=
  ∃ suporte, st.suportes[s]? = some suporte ∧ (suporte.agente = some a ∨ suporte.deixou = true)

/-- `main` goes on with the screen until the support is attached. -/
theorem retrata_chega {nl : Str} {s a : ℕ} {agente : Agente} (pronto : agente.Pronto) :
    ∀ {m k : ℕ} {st : Central}, vezes - k = m → st.principal = .retrata s a k →
      st.threads[a]? = some agente → s < st.suportes.length →
        ∃ final, Relation.ReflTransGen (fun st later => st.retrata nl = some later) st final ∧
          final.Atendido s a := by
  obtain ⟨quadro, begun, completo⟩ := pronto
  intro m
  induction m with
  | zero =>
      intro k st done shown here known
      have last : ¬ k < vezes := Nat.not_lt.mpr (Nat.sub_eq_zero_iff_le.mp done)
      have step : st.retrata nl = some { st.setAgente a { agente with sockSuporte := some s } with
          suportes := st.suportes.modify s fun suporte => { suporte with agente := some a }
          principal := .ligada s a } := by
        unfold retrata
        rw [shown]
        dsimp only
        rw [here, Option.bind_some, if_neg last]
      refine ⟨_, .single step, { st.suportes[s] with agente := some a }, ?_, Or.inl rfl⟩
      dsimp only
      rw [List.getElem?_modify_eq, List.getElem?_eq_getElem known]
      rfl
  | succ m ih =>
      intro k st more shown here known
      have inside : k < vezes := by omega
      have line := completo (vez k).1 (vez k).2 (by
        unfold vezes linhas at inside
        unfold vez linhas
        dsimp only
        omega)
      obtain ⟨texto, line⟩ := Option.isSome_iff_exists.mp line
      let next := (st.escreve s (linhaTexto nl (vez k).1 (vez k).2 texto)).setPrincipal
        (.retrata s a (k + 1))
      have step : st.retrata nl = some next := by
        unfold retrata
        rw [shown]
        dsimp only
        rw [here, Option.bind_some, if_pos inside, begun, Option.bind_some, line]
      obtain ⟨final, rest, attached⟩ := @ih (k + 1) next (by omega) rfl here
        (known.trans_eq (length_escreve st s _).symm)
      exact ⟨final, .head step rest, attached⟩

/-- From a bound support the main thread alone comes to the state in which it is served. -/
theorem Ligado.chega {nl : Str} {st : Central} {s a : ℕ} (ligado : st.Ligado s a) :
    ∃ final, Relation.ReflTransGen (fun st later => st.retrata nl = some later) st final ∧
      final.Atendido s a := by
  rcases ligado with ⟨known, k, agente, shown, here, pronto⟩ | ⟨_, done⟩
  · exact retrata_chega pronto rfl shown here known
  · exact ⟨st, .refl, done⟩

/-- In a run of permitted steps no two agents that run have one number, every agent that runs is
found under its number, and a support that presents the session and the key of a client is attached
to the agent of the client, at the latest when `main` has gone on with its screen, unless it leaves.
-/
theorem live_sessions {nl : Str} {st : Central}
    (run : Relation.ReflTransGen (Permitido nl) inicial st) :
    st.Distintas ∧ st.Registrados ∧
      ∀ {buf : List Octet} {a : ℕ} {next later : Central}, st.Apresenta buf a →
        st.Permite (.suporte buf) → st.passo nl (.suporte buf) = some next →
          Relation.ReflTransGen (Permitido nl) next later →
            ∃ final,
              Relation.ReflTransGen (fun st later => st.retrata nl = some later) later final ∧
              final.Atendido st.suportes.length a := by
  have numerada := numerada_run run
  refine ⟨numerada.distintas, numerada.registrados, ?_⟩
  intro buf a next later apresenta permite step rest
  exact (ligado_run (ligado_suporte numerada permite apresenta step) rest).chega

/-- A client connects under a number that no agent in the map has. -/
def livre (st : Central) : Passo → Bool
  | .cliente _ => decide (st.proxima < 10000) && (st.agentes.lookup st.proxima).isNone
  | .suporte _ => false
  | _ => true

/-- A step that is free of clients' texts is permitted. -/
theorem permite_livre {st : Central} {p : Passo} (free : st.livre p = true) : st.Permite p := by
  cases p with
  | cliente buf =>
      obtain ⟨small, absent⟩ := Bool.and_eq_true_iff.mp free
      refine ⟨of_decide_eq_true small, fun found => ?_⟩
      rw [found] at absent
      cases absent
  | suporte buf => cases free
  | _ => trivial

/-- Some steps, in which clients connect under free numbers. -/
def executaLivre (nl : Str) : Central → List Passo → Option Central
  | st, [] => some st
  | st, p :: passos =>
      if st.livre p then (st.passo nl p).bind fun later => later.executaLivre nl passos else none

/-- A run of free steps is a permitted run. -/
theorem executaLivre_run {nl : Str} {passos : List Passo} {st later : Central}
    (run : st.executaLivre nl passos = some later) :
    Relation.ReflTransGen (Permitido nl) st later := by
  induction passos generalizing st with
  | nil =>
      cases run
      exact .refl
  | cons p passos ih =>
      unfold executaLivre at run
      split at run
      · rename_i free
        obtain ⟨between, step, rest⟩ := Option.bind_eq_some_iff.mp run
        exact .head ⟨p, permite_livre free, step⟩ (ih rest)
      · cases run

/-- A second client connects and stops, and a third gets its number. -/
def segundoCliente : List Passo :=
  [.cliente [48, 48, 48, 56], .registra, .inicia 1,
    .mensagem 1 [83, 84, 79, 80, 32, 32, 32, 32, 32, 32, 48, 48, 48, 50, 48, 48, 48, 56] [],
    .cliente [48, 48, 48, 57], .registra]

/-- What is seen of an agent: its session, whether it runs, its key, and whether it has every line.
-/
def vista (agente : Agente) : ℕ × Bool × ℤ × Bool :=
  (agente.sessao, agente.vivo, agente.chave, agente.quadro.any fun quadro =>
    Parte.todas.all fun parte => (List.range linhas).all fun lin => (quadro.linha parte lin).isSome)

/-- An agent whose view is whole is ready. -/
theorem pronto_of_vista {agente : Agente} (whole : (vista agente).2.2.2 = true) :
    agente.Pronto := by
  obtain ⟨quadro, begun, lines⟩ := (Option.any_eq_true _ _).mp whole
  refine ⟨quadro, begun, fun parte lin inside => ?_⟩
  have listed : parte ∈ Parte.todas := by cases parte <;> decide
  exact List.all_eq_true.mp (List.all_eq_true.mp lines parte listed) lin (List.mem_range.mpr inside)

/-- The first client, which has sent its screen, and the third run under different numbers after the
second has stopped, and a support with the session and the key of the first is attached to it. -/
theorem live_sessions_support : ∃ st next final : Central,
    st.threads.map vista =
      [(1, true, 7, true), (2, false, 8, false), (2, true, 9, false)] ∧
    st.Distintas ∧ st.Registrados ∧
    st.passo [10] (.suporte [48, 48, 48, 49, 48, 48, 48, 55]) = some next ∧
    Relation.ReflTransGen (fun st later => st.retrata [10] = some later) next final ∧
    final.Atendido st.suportes.length 0 := by
  obtain ⟨st, run, ended⟩ := Option.bind_eq_some_iff.mp (by decide +kernel :
    ((inicial.executaLivre [10] (abertura ++ segundoCliente)).bind fun st =>
      (st.passo [10] (.suporte [48, 48, 48, 49, 48, 48, 48, 55])).map fun _ =>
        st.threads.map vista) =
      some [(1, true, 7, true), (2, false, 8, false), (2, true, 9, false)])
  obtain ⟨next, step, agents⟩ := Option.map_eq_some_iff.mp ended
  obtain ⟨distintas, registrados, attached⟩ := live_sessions (executaLivre_run run)
  obtain ⟨first, here, shown⟩ : ∃ first, st.threads[0]? = some first ∧
      vista first = (1, true, 7, true) := by
    have shown := congrArg (·[0]?) agents
    rw [List.getElem?_map] at shown
    exact Option.map_eq_some_iff.mp shown
  have apresenta : st.Apresenta [48, 48, 48, 49, 48, 48, 48, 55] 0 := by
    refine ⟨first, [48, 48, 48, 55], here, congrArg (·.2.1) shown, ?_, ?_⟩
    · rw [show first.chave = 7 from congrArg (·.2.2.1) shown]
      decide +kernel
    · rw [show first.sessao = 1 from congrArg Prod.fst shown]
      decide +kernel
  have permite : st.Permite (.suporte [48, 48, 48, 49, 48, 48, 48, 55]) := by
    rintro a agente ⟨other, chave, there, _, _, presented⟩ found
    obtain rfl := Option.some.inj (there.symm.trans found)
    have shown : (st.threads.map vista)[a]? = some (vista other) := by
      rw [List.getElem?_map, there, Option.map_some]
    rw [agents] at shown
    match a with
    | 0 => exact pronto_of_vista (congrArg (·.2.2.2) (Option.some.inj shown)).symm
    | 1 | 2 =>
        have number : other.sessao = 2 := (congrArg Prod.fst (Option.some.inj shown)).symm
        rw [number] at presented
        have start := congrArg (List.take 4) presented
        rw [List.take_left' (by decide +kernel)] at start
        exact absurd start (by decide +kernel)
  obtain ⟨final, onward, done⟩ := attached apresenta permite step .refl
  exact ⟨st, next, final, agents, distintas, registrados, step, onward, done⟩

/-- Two clients connect, the first stops, and a third connects. -/
def terceiroCliente : List Passo :=
  [.cliente [48, 48, 48, 49], .registra, .cliente [48, 48, 48, 50], .registra, .inicia 0,
    .mensagem 0 [83, 84, 79, 80, 32, 32, 32, 32, 32, 32, 48, 48, 48, 49, 48, 48, 48, 49] [],
    .cliente [48, 48, 48, 51]]

/-- The third client gets the number of the second, whose agent runs. -/
theorem live_sessions_third :
    ∃ st, inicial.executa [10] terceiroCliente = some st ∧ ¬ st.Distintas := by
  have ends :
    (inicial.executa [10] terceiroCliente).map (fun st => (st.threads[1]?, st.threads[2]?)) =
      some (some (Agente.novo 2 2), some (Agente.novo 2 3)) := by decide +kernel
  obtain ⟨st, run, threads⟩ := Option.map_eq_some_iff.mp ends
  obtain ⟨second, third⟩ := Prod.mk.inj threads
  refine ⟨st, run, fun distintas => ?_⟩
  exact absurd (distintas second third rfl rfl rfl) (by decide)

end Central

end Pqfh
