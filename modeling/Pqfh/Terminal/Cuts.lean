import Pqfh.Terminal.Throws

/-! # How a stream is cut into buffers

The parser keeps its state from buffer to buffer, but it looks ahead for `un` in the current buffer
only, and an exception drops the rest of the current buffer. So what a stream does depends on how it
was cut, unless its characters, taken one at a time, never come to a place where one of these
matters (`Pqfh.Terminal.independente_iff`).
-/

namespace Pqfh

open Abrupt (Raises Rel final not_raises_ok raises_error)
open Java (CodeUnit Octet Str decodeLatin1 decodeUtf8 decodeUtf8_ascii lit ofOctet unit)

namespace Terminal

/-- Only some bits of the attributes in the matrices change, as when the screen is painted. -/
def SoBits (bits : BitVec 32) (t later : Terminal) : Prop :=
  t.SoTela later ∧ ∀ i j, (later.tela i j).sem bits = (t.tela i j).sem bits

/-- The buffers that a terminal receives from its start on, and what they make of it. After each,
some bits of the attributes may change; an exception only ends the buffer. -/
inductive Recebe (letras : CodeUnit → Bool) (bits : BitVec 32) : List (List Octet) → Terminal → Prop
  | nada : Recebe letras bits [] novo
  | buffer {buffers : List (List Octet)} {buffer : List Octet} {t later : Terminal} :
      Recebe letras bits buffers t → SoBits bits (final (t.atualiza letras buffer)) later →
      Recebe letras bits (buffers ++ [buffer]) later

/-- A character is the last of an escape sequence, or of a command that is to be executed. -/
def Completa (letras : CodeUnit → Bool) (un : Bool) (t : Terminal) (ch : CodeUnit) : Prop :=
  (t.estado = .esc ∧ alfabetico letras ch = true ∧ ¬ (t.seq ++ [ch] = lit "[]R" ∧ un = true)) ∨
    (t.estado = .exec ∧ ch = unit '*')

/-- The parser is in its initial state. -/
def NoInicio (t : Terminal) : Prop := t.estado = .inicial ∧ t.seq = [] ∧ t.iseq = 0

/-- How a stream is cut makes no difference, up to some bits of the attributes, after any part of
it, and the parser is in its initial state after every sequence. -/
structure Independente (letras : CodeUnit → Bool) (bits : BitVec 32) (s : List Octet) : Prop where
  cortes : ∀ buffers buffers' t t', buffers.flatten <+: s → buffers'.flatten = buffers.flatten →
    Recebe letras bits buffers t → Recebe letras bits buffers' t' → t.Igual bits t'
  recomeca : ∀ buffers front ch rest t later, buffers.flatten ++ (front ++ ch :: rest) <+: s →
    Recebe letras bits buffers t →
    percorre letras (segueUn (front ++ ch :: rest) (front ++ ch :: rest).length) 0 t.inicia
      (decodeLatin1 front) = .ok later →
    Completa letras (segueUn (front ++ ch :: rest) (front ++ ch :: rest).length front.length) later
      (ofOctet ch) →
    (final (caractere letras
      (segueUn (front ++ ch :: rest) (front ++ ch :: rest).length front.length) later
      (ofOctet ch))).NoInicio

/-- What the terminal is after the characters of a stream, each in a buffer of its own. -/
def umAUm (letras : CodeUnit → Bool) (s : List Octet) : Terminal :=
  s.foldl (fun t octet => final (caractere letras false t (ofOctet octet))) novo

/-- The characters of a stream, taken one at a time, never come to a place where the cut matters:
where `un` follows `ESC[]R`, where the last character of an escape sequence throws an exception, or
where a character that is not without effect follows an exception. -/
structure SemDesvio (letras : CodeUnit → Bool) (bits : BitVec 32) (s : List Octet) : Prop where
  un : ∀ front, front ++ [82, 117, 110] <+: s →
    ¬ ((umAUm letras front).estado = .esc ∧ (umAUm letras front).seq = lit "[]")
  fim : ∀ front ch, front ++ [ch] <+: s → (umAUm letras front).estado = .esc →
    alfabetico letras (ofOctet ch) = true → ¬ (umAUm letras front).Lanca letras (ofOctet ch)
  erro : ∀ front ch rest, front ++ ch :: rest <+: s →
    (umAUm letras front).Lanca letras (ofOctet ch) →
    ∀ other ∈ rest, (umAUm letras (front ++ [ch])).Inerte bits (ofOctet other)

/-! ## The parser -/

section Parser

variable {letras : CodeUnit → Bool} {t : Terminal} {ch : CodeUnit}

/-- The end of a sequence depends on the command and on the characters that were stored. -/
theorem encerra_eq {later : Terminal} (un : Bool) (command : t.processaSeq ch = .ok later) :
    t.encerra un ch = if t.Executa un then .ok { later with estado := .exec }
      else .ok { later with seq := [], iseq := 0, estado := .inicial } := by
  have kept := (processaSeq_keepsParser (MesmoParser.refl t) ch).final
  rw [command] at kept
  have seq : later.seq = t.seq := kept.2.1
  have goes : later.Executa un ↔ t.Executa un := by unfold Executa; rw [seq]
  unfold encerra
  rw [command]
  change (if later.Executa un then _ else _) = _
  simp only [goes]

/-- Whether the buffer goes on with `un` matters at the last character of `[]R` only. -/
theorem caractere_un (un : Bool)
    (other : ¬ (t.estado = .esc ∧ t.seq = lit "[]" ∧ ch = unit 'R')) :
    caractere letras un t ch = caractere letras false t ch := by
  unfold caractere
  cases estado : t.estado with
  | inicial => rfl
  | exec => rfl
  | esc =>
      by_cases full : 256 ≤ t.iseq
      · have stopped : t.acumula ch = .error { t with iseq := t.iseq + 1 } :=
          if_neg (not_lt.mpr full)
        unfold escape
        dsimp only
        rw [stopped]
        rfl
      dsimp only
      rw [escape_eq letras un full, escape_eq letras false full]
      split
      · cases command : processaSeq { t with iseq := t.iseq + 1, seq := t.seq ++ [ch] } ch with
        | error s =>
            unfold encerra
            rw [command]
            rfl
        | ok s =>
            have plain : ∀ un,
                ¬ Executa { t with iseq := t.iseq + 1, seq := t.seq ++ [ch] } un := by
              rintro un ⟨whole, _⟩
              have parts : t.seq ++ [ch] = lit "[]" ++ [unit 'R'] := whole
              have cut := List.append_inj' parts rfl
              exact other ⟨estado, cut.1, List.singleton_inj.mp cut.2⟩
            rw [encerra_eq un command, encerra_eq false command, if_neg (plain un),
              if_neg (plain false)]
      · rfl

/-- The parser when no command is to be executed: what was stored is what was counted, but for the
counts that found no room. -/
def Contado (t : Terminal) : Prop := t.estado ≠ .exec ∧ t.seq.length = min t.iseq 256

/-- A terminal whose parser is the same has counted as much. -/
theorem MesmoParser.contado {later : Terminal} (same : t.MesmoParser later) (counted : t.Contado) :
    later.Contado := by
  refine ⟨same.1 ▸ counted.1, ?_⟩
  rw [same.2.1, same.2.2]
  exact counted.2

/-- A character of text keeps the count. -/
theorem texto_contado (counted : t.Contado) : (final (t.texto ch)).Contado := by
  by_cases plain : ch = 27
  · rw [plain]
    exact ⟨Estado.noConfusion, counted.2⟩
  · exact (texto_keepsParser plain).final.contado counted

/-- An escape sequence that throws an exception is not ended. -/
theorem escape_lanca (un : Bool) (sequence : t.estado = .esc)
    (throws : Raises (escape letras un t ch)) : (final (escape letras un t ch)).estado = .esc := by
  by_cases full : 256 ≤ t.iseq
  · have stopped : t.acumula ch = .error { t with iseq := t.iseq + 1 } :=
    if_neg (not_lt.mpr full)
    unfold escape
    rw [stopped]
    exact sequence
  rw [escape_eq letras un full] at throws ⊢
  split at throws
  · rename_i last
    rw [if_pos last]
    have kept := (processaSeq_keepsParser
      (MesmoParser.refl { t with iseq := t.iseq + 1, seq := t.seq ++ [ch] }) ch).final
    cases command : processaSeq { t with iseq := t.iseq + 1, seq := t.seq ++ [ch] } ch with
    | error s =>
        rw [command] at kept
        unfold encerra
        rw [command]
        exact kept.1.trans sequence
    | ok s =>
        rw [encerra_eq un command] at throws
        split at throws
        · exact (not_raises_ok throws).elim
        · exact (not_raises_ok throws).elim
  · exact (not_raises_ok throws).elim

/-- An escape sequence ends in the initial state, when the last character does not throw an
exception and no command is to be executed. -/
theorem escape_recomeca (un : Bool) (last : alfabetico letras ch = true)
    (plain : ¬ (t.seq ++ [ch] = lit "[]R" ∧ un = true))
    (returns : ¬ Raises (escape letras un t ch)) : (final (escape letras un t ch)).NoInicio := by
  by_cases full : 256 ≤ t.iseq
  · exact (returns ((raises_escape letras un).mpr (Or.inl full))).elim
  rw [escape_eq letras un full, if_pos last] at returns ⊢
  cases command : processaSeq { t with iseq := t.iseq + 1, seq := t.seq ++ [ch] } ch with
  | error s =>
      unfold encerra at returns
      rw [command] at returns
      exact (returns (raises_error s)).elim
  | ok s =>
      have other : ¬ Executa { t with iseq := t.iseq + 1, seq := t.seq ++ [ch] } un := plain
      rw [encerra_eq un command, if_neg other]
      exact ⟨rfl, rfl, rfl⟩

/-- A character of a sequence keeps the count. -/
theorem escape_contado (counted : t.Contado) : (final (escape letras false t ch)).Contado := by
  obtain ⟨running, stored⟩ := counted
  by_cases full : 256 ≤ t.iseq
  · have stopped : t.acumula ch = .error { t with iseq := t.iseq + 1 } :=
    if_neg (not_lt.mpr full)
    unfold escape
    rw [stopped]
    refine ⟨running, ?_⟩
    change t.seq.length = min (t.iseq + 1) 256
    omega
  have next : Contado { t with iseq := t.iseq + 1, seq := t.seq ++ [ch] } := by
    refine ⟨running, ?_⟩
    rw [List.length_append, List.length_singleton]
    change t.seq.length + 1 = min (t.iseq + 1) 256
    omega
  rw [escape_eq letras false full]
  split
  · cases command : processaSeq { t with iseq := t.iseq + 1, seq := t.seq ++ [ch] } ch with
    | error s =>
        have kept := (processaSeq_keepsParser
          (MesmoParser.refl { t with iseq := t.iseq + 1, seq := t.seq ++ [ch] }) ch).final
        rw [command] at kept
        unfold encerra
        rw [command]
        exact kept.contado next
    | ok s =>
        rw [encerra_eq false command, if_neg fun runs => Bool.false_ne_true runs.2]
        exact ⟨Estado.noConfusion, rfl⟩
  · exact next

/-- Every character keeps the count. -/
theorem caractere_contado (counted : t.Contado) :
    (final (caractere letras false t ch)).Contado := by
  unfold caractere
  cases estado : t.estado with
  | inicial => exact texto_contado counted
  | esc => exact escape_contado counted
  | exec => exact (counted.1 estado).elim

end Parser

/-! ## One character at a time -/

section Stream

variable {letras : CodeUnit → Bool} {bits : BitVec 32} {s : List Octet}

/-- Reading one by one, the last character comes last. -/
theorem umAUm_concat (front : List Octet) (ch : Octet) : umAUm letras (front ++ [ch]) =
    final (caractere letras false (umAUm letras front) (ofOctet ch)) :=
  List.foldl_concat _ _ _ _

/-- Reading one by one keeps the count. -/
theorem umAUm_contado (s : List Octet) : (umAUm letras s).Contado := by
  induction s using List.reverseRecOn with
  | nil => exact ⟨Estado.noConfusion, rfl⟩
  | append_singleton front ch ih =>
      rw [umAUm_concat]
      exact caractere_contado ih

/-- Characters without effect leave the terminal as it is. -/
theorem inertes {t : Terminal} :
    ∀ (rest : List Octet) (later : Terminal), t.Igual bits later →
      (∀ other ∈ rest, t.Inerte bits (ofOctet other)) →
      t.Igual bits
        (rest.foldl (fun t octet => final (caractere letras false t (ofOctet octet))) later) := by
  intro rest
  induction rest with
  | nil => exact fun later alike _ => alike
  | cons other rest ih =>
      intro later alike still
      obtain ⟨here, after⟩ := List.forall_mem_cons.mp still
      have same := (inerte_iff letras).mpr here
      exact ih _ (same.trans (caractere_alike letras false alike (ofOctet other)).final) after

/-- Terminals that are alike throw at the same characters. -/
theorem Igual.lanca_iff {t other : Terminal} {ch : CodeUnit} (alike : t.Igual bits other)
    (letras : CodeUnit → Bool) : other.Lanca letras ch ↔ t.Lanca letras ch := by
  rw [← raises_caractere letras false, ← raises_caractere letras false]
  exact ⟨(caractere_alike letras false alike.symm ch).raises,
    (caractere_alike letras false alike ch).raises⟩

/-- A place from which a buffer goes on with `un`. -/
theorem segueUn_goes {buffer front : List Octet} {ch : Octet} (here : front ++ [ch] <+: buffer)
    (goes : segueUn buffer buffer.length front.length = true) :
    front ++ [ch, 117, 110] <+: buffer := by
  obtain ⟨tail, rfl⟩ := here
  unfold segueUn at goes
  simp only [Bool.and_eq_true, decide_eq_true_eq] at goes
  obtain ⟨⟨_, first⟩, second⟩ := goes
  have one : tail[0]? = some 117 := by
    rw [List.getElem?_append_right (by simp)] at first
    simpa using first
  have two : tail[1]? = some 110 := by
    rw [List.getElem?_append_right (by simp)] at second
    simpa using second
  cases tail with
  | nil => cases one
  | cons a tail =>
      cases tail with
      | nil => cases two
      | cons b tail =>
          cases one
          cases two
          exact ⟨tail, by simp⟩

/-- A character of the stream in its buffer has the effect that it has alone, when `un` does not
follow `ESC[]R`. -/
theorem caractere_alone
    (quiet : ∀ front, front ++ [82, 117, 110] <+: s →
      ¬ ((umAUm letras front).estado = .esc ∧ (umAUm letras front).seq = lit "[]"))
    {front : List Octet} {ch : Octet} {un : Bool} {t : Terminal}
    (alike : (umAUm letras front).Igual bits t) (goes : un = true → front ++ [ch, 117, 110] <+: s) :
    caractere letras un t (ofOctet ch) = caractere letras false t (ofOctet ch) := by
  cases un with
  | false => rfl
  | true =>
      refine caractere_un true fun command => ?_
      obtain ⟨sequence, stored, last⟩ := command
      have value : (ofOctet ch).val = (unit 'R').val := congrArg Fin.val last
      have letter : ch = 82 := Fin.ext value
      rw [letter] at goes
      refine quiet front (goes rfl) ⟨?_, ?_⟩
      · exact alike.fields.1.symm.trans sequence
      · exact alike.fields.2.2.2.1.symm.trans stored

/-- What comes after an exception has no effect. -/
theorem SemDesvio.resto (clean : SemDesvio letras bits s) {front rest : List Octet} {ch : Octet}
    (inside : front ++ ch :: rest <+: s) (throws : (umAUm letras front).Lanca letras (ofOctet ch)) :
    (umAUm letras (front ++ [ch])).Igual bits (umAUm letras (front ++ [ch] ++ rest)) := by
  have same := @inertes letras bits _ rest _ (Igual.refl _) (clean.erro front ch rest inside throws)
  have joined : umAUm letras (front ++ [ch] ++ rest) = rest.foldl
      (fun t octet => final (caractere letras false t (ofOctet octet)))
      (umAUm letras (front ++ [ch])) :=
    List.foldl_append
  rw [joined]
  exact same

/-- A buffer has the effect of its characters, one at a time. -/
theorem SemDesvio.percorre_alike (clean : SemDesvio letras bits s) {sent buffer : List Octet}
    (whole : sent ++ buffer <+: s) :
    ∀ (part front : List Octet) (t : Terminal), front ++ part <+: buffer →
      (umAUm letras (sent ++ front)).Igual bits t →
      (umAUm letras (sent ++ (front ++ part))).Igual bits
        (final (percorre letras (segueUn buffer buffer.length) front.length t
          (decodeLatin1 part))) := by
  intro part
  induction part with
  | nil =>
      intro front t _ alike
      rw [List.append_nil]
      exact alike
  | cons ch part ih =>
      intro front t inside alike
      have next : front ++ ([ch] ++ part) <+: buffer := inside
      rw [← List.append_assoc] at next
      have here := (List.prefix_append (front ++ [ch]) part).trans next
      have sentHere : ∀ {some : List Octet}, some <+: buffer → sent ++ some <+: s := fun inside =>
        ((List.prefix_append_right_inj sent).mpr inside).trans whole
      have goes := caractere_alone clean.un alike
        fun un : segueUn buffer buffer.length front.length = true => by
        rw [List.append_assoc]
        exact sentHere (segueUn_goes here un)
      have step := caractere_alike letras false alike (ofOctet ch)
      have concat : umAUm letras (sent ++ (front ++ [ch])) =
          final (caractere letras false (umAUm letras (sent ++ front)) (ofOctet ch)) := by
        rw [← List.append_assoc, umAUm_concat]
      have split : sent ++ (front ++ ch :: part) = sent ++ (front ++ [ch]) ++ part := by simp
      change Igual bits _ (final (caractere letras _ t (ofOctet ch) >>= fun later => _))
      rw [goes]
      cases result : caractere letras false t (ofOctet ch) with
      | ok later =>
          rw [result] at step
          have alike' := step.final
          rw [← concat] at alike'
          have rest := ih (front ++ [ch]) later next alike'
          rw [List.append_assoc, List.length_append] at rest
          exact rest
      | error later =>
          rw [result] at step
          have alike' := step.final
          rw [← concat] at alike'
          have throws := (alike.lanca_iff letras).mp
            ((raises_caractere letras false).mp ⟨later, result⟩)
          have same := clean.resto (by rw [List.append_assoc]; exact sentHere inside) throws
          rw [split, ← List.append_assoc]
          rw [← List.append_assoc] at alike'
          exact same.symm.trans alike'

/-! ## Buffers -/

/-- What is shorter than the prefix is no message of a support. -/
theorem not_suporte {bytes : List Octet} (short : bytes.length < 8) :
    ¬ lit "SUPORTE:" <:+: decodeLatin1 bytes := by
  intro part
  have fits := part.length_le
  have length : (decodeLatin1 bytes).length = bytes.length := List.length_map _
  have marker : (lit "SUPORTE:").length = 8 := rfl
  omega

/-- A buffer of ASCII characters that the sharing server has not passed on. -/
theorem atualiza_ascii (letras : CodeUnit → Bool) {buffer : List Octet}
    (ascii : ∀ octet ∈ buffer, octet.val < 128) (host : ¬ lit "SUPORTE:" <+: decodeLatin1 buffer)
    (t : Terminal) : t.atualiza letras buffer =
      percorre letras (segueUn buffer buffer.length) 0 t.inicia (decodeLatin1 buffer) := by
  unfold atualiza
  dsimp only
  rw [decodeUtf8_ascii ascii, if_neg fun first => host (List.isPrefixOf_iff_prefix.mp first)]
  congr 2
  exact List.length_map _

/-- A buffer of one character is that character. -/
theorem final_percorre (letras : CodeUnit → Bool) (un : ℕ → Bool) (i : ℕ) (t : Terminal)
    (ch : CodeUnit) :
    final (percorre letras un i t [ch]) = final (caractere letras (un i) t ch) := by
  unfold percorre
  cases caractere letras (un i) t ch with
  | ok later => rfl
  | error later => rfl

/-- Terminals that differ in their marks alone are alike. -/
theorem SoBits.igual {t later : Terminal} (marks : SoBits bits t later) : t.Igual bits later := by
  refine ⟨?_, marks.2⟩
  have same : later = { t with tela := later.tela } := marks.1
  rw [same]

/-- A terminal differs in nothing from itself. -/
theorem SoBits.refl (t : Terminal) : SoBits bits t t := ⟨rfl, fun _ _ => rfl⟩

/-- What `cortes` and `recomeca` rest on: the buffers have the effect of their characters. -/
theorem SemDesvio.recebe (clean : SemDesvio letras bits s) (ascii : ∀ octet ∈ s, octet.val < 128)
    (host : ¬ lit "SUPORTE:" <:+: decodeLatin1 s) {buffers : List (List Octet)} {t : Terminal}
    (run : Recebe letras bits buffers t) (inside : buffers.flatten <+: s) :
    (umAUm letras buffers.flatten).Igual bits t := by
  induction run with
  | nada => exact Igual.refl _
  | @buffer buffers buffer t later _ marks ih =>
      rw [List.flatten_append, List.flatten_singleton] at inside ⊢
      have before := ih ((List.prefix_append _ _).trans inside)
      have part : buffer <:+: s := (List.suffix_append _ _).isInfix.trans inside.isInfix
      have low : ∀ octet ∈ buffer, octet.val < 128 := fun octet member =>
        ascii octet (part.subset member)
      have other : ¬ lit "SUPORTE:" <+: decodeLatin1 buffer := fun first =>
        host (first.isInfix.trans (part.map ofOctet))
      have plain := atualiza_ascii letras low other t
      have alike := clean.percorre_alike inside buffer [] t.inicia List.prefix_rfl
        (by rw [List.append_nil]; exact before.inicia)
      rw [plain] at marks
      exact alike.trans marks.igual

/-- The characters of a stream, one by one, make the stream. -/
theorem flatten_singles (bytes : List Octet) :
    (bytes.map fun octet => [octet]).flatten = bytes := by
  rw [← List.flatMap_def, List.flatMap_singleton']

/-- The characters of a stream can be received one at a time. -/
theorem recebe_umAUm (ascii : ∀ octet ∈ s, octet.val < 128) :
    ∃ t, Recebe letras bits (s.map fun octet => [octet]) t ∧ (umAUm letras s).Igual bits t := by
  induction s using List.reverseRecOn with
  | nil => exact ⟨novo, .nada, Igual.refl _⟩
  | append_singleton front ch ih =>
      obtain ⟨t, run, alike⟩ := ih fun octet member => ascii octet (List.mem_append_left _ member)
      have low : ∀ octet ∈ [ch], octet.val < 128 := fun octet member =>
        ascii octet (List.mem_append_right _ member)
      have host : ¬ lit "SUPORTE:" <+: decodeLatin1 [ch] := fun first =>
        @not_suporte [ch] (Nat.succ_lt_succ (Nat.zero_lt_succ 6)) first.isInfix
      have step := (caractere_alike letras false alike.inicia (ofOctet ch)).final
      rw [← umAUm_concat] at step
      refine ⟨final (t.atualiza letras [ch]), ?_, ?_⟩
      · rw [List.map_append]
        exact .buffer run (SoBits.refl _)
      · rw [atualiza_ascii letras low host]
        exact (final_percorre letras _ 0 t.inicia (ofOctet ch)).symm ▸ step

/-! ## The cut does not matter -/

section Whole

variable (ascii : ∀ octet ∈ s, octet.val < 128) (host : ¬ lit "SUPORTE:" <:+: decodeLatin1 s)

include ascii host

/-- A stream without any of the three deviations is read alike however it is cut. -/
theorem SemDesvio.independente (clean : SemDesvio letras bits s) : Independente letras bits s where
  cortes buffers buffers' t t' inside same run run' := by
    have first := clean.recebe ascii host run inside
    have second := clean.recebe ascii host run' (same ▸ inside)
    rw [same] at second
    exact first.symm.trans second
  recomeca buffers front ch rest t later inside run reads last := by
    have before := clean.recebe ascii host run ((List.prefix_append _ _).trans inside)
    have part : front <+: front ++ ch :: rest := List.prefix_append _ _
    have start : (umAUm letras (buffers.flatten ++ [])).Igual bits t.inicia := by
      rw [List.append_nil]
      exact before.inicia
    have alike := clean.percorre_alike inside front [] t.inicia part start
    change Igual bits _ (final (percorre letras _ 0 t.inicia (decodeLatin1 front))) at alike
    rw [reads, List.nil_append] at alike
    change (umAUm letras (buffers.flatten ++ front)).Igual bits later at alike
    generalize
      segueUn (front ++ ch :: rest) (front ++ ch :: rest).length front.length = un at last ⊢
    have counted := @umAUm_contado letras (buffers.flatten ++ front)
    rcases last with ⟨sequence, last, plain⟩ | ⟨exec, _⟩
    · have here : buffers.flatten ++ front ++ [ch] <+: s := by
        refine List.IsPrefix.trans ⟨rest, ?_⟩ inside
        simp
      have quiet := clean.fim _ ch here (alike.fields.1.symm.trans sequence) last
      rw [← alike.lanca_iff letras, ← raises_caractere letras un] at quiet
      unfold caractere at quiet ⊢
      rw [sequence] at quiet ⊢
      exact escape_recomeca un last plain quiet
    · exact (counted.1 (alike.fields.1.symm.trans exec)).elim

/-- A part of the stream in a buffer of its own, after the rest one at a time. -/
theorem Independente.buffer (same : Independente letras bits s) {front buffer : List Octet}
    (inside : front ++ buffer <+: s) :
    ∃ t, (umAUm letras front).Igual bits t ∧ (umAUm letras (front ++ buffer)).Igual bits
      (final (percorre letras (segueUn buffer buffer.length) 0 t (decodeLatin1 buffer))) := by
  have part : buffer <:+: s := (List.suffix_append _ _).isInfix.trans inside.isInfix
  have low : ∀ octet ∈ front ++ buffer, octet.val < 128 := fun octet member =>
    ascii octet (inside.subset member)
  obtain ⟨t, run, alike⟩ := @recebe_umAUm letras bits front fun octet member =>
    low octet (List.mem_append_left _ member)
  obtain ⟨t', run', alike'⟩ := @recebe_umAUm letras bits (front ++ buffer) low
  have whole : Recebe letras bits (front.map (fun octet => [octet]) ++ [buffer])
      (final (t.atualiza letras buffer)) := .buffer run (SoBits.refl _)
  have cut := same.cortes _ _ t' _ ((flatten_singles (front ++ buffer)).symm ▸ inside)
    (by rw [List.flatten_append, flatten_singles, flatten_singles, List.flatten_singleton])
    run' whole
  rw [atualiza_ascii letras (fun octet member => low octet (List.mem_append_right _ member))
    fun first => host (first.isInfix.trans (part.map ofOctet))] at cut
  exact ⟨t.inicia, alike.inicia, alike'.trans cut⟩

/-- A stream that is read alike never has `Run` behind `ESC[]`. -/
theorem Independente.un (same : Independente letras bits s) {front : List Octet}
    (inside : front ++ [82, 117, 110] <+: s) :
    ¬ ((umAUm letras front).estado = .esc ∧ (umAUm letras front).seq = lit "[]") := by
  intro ⟨sequence, stored⟩
  obtain ⟨t, alike, cut⟩ := same.buffer ascii host inside
  have counted := (@umAUm_contado letras front).2
  have two : (umAUm letras front).iseq = 2 := by
    rw [stored] at counted
    change 2 = min _ 256 at counted
    omega
  obtain ⟨sequence', _, _, stored', two'⟩ := alike.fields
  have runs : (final (percorre letras (segueUn [82, 117, 110] 3) 0 t
      (decodeLatin1 [82, 117, 110]))).estado = .exec := by
    obtain ⟨tela, estado, lin, col, seq, iseq, r, atributo, frente, fundo⟩ := t
    cases sequence'.trans sequence
    cases stored'.trans stored
    cases two'.trans two
    rfl
  exact (umAUm_contado _).1 (cut.fields.1.symm.trans runs)

omit host in
/-- In a stream that is read alike no sequence throws at its last character. -/
theorem Independente.fim (same : Independente letras bits s) {front : List Octet} {ch : Octet}
    (inside : front ++ [ch] <+: s) (sequence : (umAUm letras front).estado = .esc)
    (last : alfabetico letras (ofOctet ch) = true) :
    ¬ (umAUm letras front).Lanca letras (ofOctet ch) := by
  intro throws
  obtain ⟨t, run, alike⟩ := @recebe_umAUm letras bits front fun octet member =>
    ascii octet (((List.prefix_append _ _).trans inside).subset member)
  have here : t.inicia.estado = .esc := alike.fields.1.trans sequence
  have whole : (front.map fun octet => [octet]).flatten ++ ([] ++ ch :: []) <+: s := by
    rw [flatten_singles]
    exact inside
  have starts := same.recomeca _ [] ch [] t t.inicia whole run rfl
    (Or.inl ⟨here, last, fun command => Bool.false_ne_true command.2⟩)
  have raises := (raises_caractere letras false).mpr ((alike.inicia.lanca_iff letras).mpr throws)
  change NoInicio (final (caractere letras false t.inicia (ofOctet ch))) at starts
  unfold caractere at raises starts
  rw [here] at raises starts
  cases starts.1.symm.trans (escape_lanca false here raises)

/-- After an exception the rest of the stream has no effect. -/
theorem Independente.resto (same : Independente letras bits s) {front rest : List Octet}
    {ch : Octet} (inside : front ++ ch :: rest <+: s)
    (throws : (umAUm letras front).Lanca letras (ofOctet ch)) :
    (umAUm letras (front ++ [ch])).Igual bits (umAUm letras (front ++ ch :: rest)) := by
  obtain ⟨t, alike, cut⟩ := same.buffer ascii host inside
  have goes := caractere_alone (fun front inside => same.un ascii host inside) alike
    fun un : segueUn (ch :: rest) (ch :: rest).length 0 = true => by
      have next := @segueUn_goes (ch :: rest) [] ch ⟨rest, rfl⟩ un
      exact ((List.prefix_append_right_inj front).mpr next).trans inside
  obtain ⟨later, stops⟩ := (raises_caractere letras false).mpr ((alike.lanca_iff letras).mpr throws)
  have step := (caractere_alike letras false alike (ofOctet ch)).final
  rw [← umAUm_concat, stops] at step
  change Igual bits _ (final (caractere letras _ t (ofOctet ch) >>= fun later => _)) at cut
  rw [goes, stops] at cut
  exact step.trans cut.symm

/-- In a stream that is read alike only characters without effect follow one that throws. -/
theorem Independente.erro (same : Independente letras bits s) {front rest : List Octet} {ch : Octet}
    (inside : front ++ ch :: rest <+: s) (throws : (umAUm letras front).Lanca letras (ofOctet ch)) :
    ∀ other ∈ rest, (umAUm letras (front ++ [ch])).Inerte bits (ofOctet other) := by
  intro other member
  obtain ⟨some, more, rfl⟩ := List.append_of_mem member
  have before := same.resto ascii host
    (List.IsPrefix.trans ⟨other :: more, by simp⟩ inside : front ++ ch :: some <+: s) throws
  have after := same.resto ascii host
    (List.IsPrefix.trans ⟨more, by simp⟩ inside : front ++ ch :: (some ++ [other]) <+: s) throws
  have step := (caractere_alike letras false before (ofOctet other)).final
  rw [← umAUm_concat (front ++ ch :: some)] at step
  have joined : front ++ ch :: some ++ [other] = front ++ ch :: (some ++ [other]) := by simp
  rw [joined] at step
  exact (inerte_iff letras).mp (after.trans step.symm)

/-- How a stream is cut makes no difference just when its characters, taken one at a time, never
come to a place where the cut matters. -/
theorem independente_iff : Independente letras bits s ↔ SemDesvio letras bits s :=
  ⟨fun same => ⟨fun _ inside => same.un ascii host inside,
    fun _ _ inside => same.fim ascii inside, fun _ _ _ inside => same.erro ascii host inside⟩,
    fun clean => clean.independente ascii host⟩

end Whole

/-- The places where the cut matters, by how many characters come before them. -/
theorem SemDesvio.of_places
    (un : ∀ n < s.length, [82, 117, 110] <+: s.drop n →
      ¬ ((umAUm letras (s.take n)).estado = .esc ∧ (umAUm letras (s.take n)).seq = lit "[]"))
    (fim : ∀ n < s.length, ∀ ch ∈ s[n]?, (umAUm letras (s.take n)).estado = .esc →
      alfabetico letras (ofOctet ch) = true → ¬ (umAUm letras (s.take n)).Lanca letras (ofOctet ch))
    (erro : ∀ n < s.length, ∀ ch ∈ s[n]?, (umAUm letras (s.take n)).Lanca letras (ofOctet ch) →
      ∀ other ∈ s.drop (n + 1),
        (umAUm letras (s.take n ++ [ch])).Inerte bits (ofOctet other)) :
    SemDesvio letras bits s := by
  have place : ∀ {front : List Octet} {ch : Octet} {rest : List Octet}, front ++ ch :: rest <+: s →
      front.length < s.length ∧ s.take front.length = front ∧ ch ∈ s[front.length]? ∧
        ch :: rest <+: s.drop front.length := by
    rintro front ch rest ⟨more, rfl⟩
    simp only [List.append_assoc, List.length_append, List.cons_append, List.length_cons,
      List.take_left, List.drop_left, List.getElem?_append_right le_rfl, Nat.sub_self,
      List.getElem?_cons_zero, Option.mem_some_iff, List.cons_prefix_cons, true_and]
    exact ⟨by omega, List.prefix_append _ _⟩
  refine ⟨fun front inside => ?_, fun front ch inside => ?_, fun front ch rest inside => ?_⟩
  · obtain ⟨short, same, _, follows⟩ := place inside
    rw [← same]
    exact un _ short follows
  · obtain ⟨short, same, here, _⟩ := place inside
    have quiet := fim _ short ch here
    rw [same] at quiet
    exact quiet
  · obtain ⟨short, same, here, follows⟩ := place inside
    intro throws other member
    have after := erro _ short ch here
    rw [same] at after
    refine after throws other ?_
    obtain ⟨more, split⟩ := follows
    rw [← List.tail_drop, ← split]
    exact List.mem_append_left more member

/-- The text `Run`, a jump to the last place of the screen, a character there, a second one, which
is lost, and a bell. -/
def fimDaTela : List Octet := [82, 117, 110, 27, 91, 50, 53, 59, 56, 48, 72, 120, 121, 7]

/-- That stream can be cut anywhere, so in the middle of the escape sequence. -/
theorem independente_iff_escape : Independente (fun _ => false) 0 fimDaTela ∧
    ∃ t t', Recebe (fun _ => false) 0 [fimDaTela] t ∧
      Recebe (fun _ => false) 0 [fimDaTela.take 6, fimDaTela.drop 6] t' ∧ t.Igual 0 t' := by
  have ascii : ∀ octet ∈ fimDaTela, octet.val < 128 := by decide +kernel
  have host : ¬ lit "SUPORTE:" <:+: decodeLatin1 fimDaTela := by decide +kernel
  have un : ∀ n < fimDaTela.length, [82, 117, 110] <+: fimDaTela.drop n →
      ¬ ((umAUm (fun _ => false) (fimDaTela.take n)).estado = .esc ∧
        (umAUm (fun _ => false) (fimDaTela.take n)).seq = lit "[]") := by decide +kernel
  have fim : ∀ n < fimDaTela.length, ∀ ch ∈ fimDaTela[n]?,
      (umAUm (fun _ => false) (fimDaTela.take n)).estado = .esc →
        alfabetico (fun _ => false) (ofOctet ch) = true →
          ¬ (umAUm (fun _ => false) (fimDaTela.take n)).Lanca (fun _ => false) (ofOctet ch) := by
    decide +kernel
  -- only the second character behind the last place is lost, and a bell changes nothing
  have only : ∀ n < fimDaTela.length, ∀ ch ∈ fimDaTela[n]?,
      (umAUm (fun _ => false) (fimDaTela.take n)).Lanca (fun _ => false) (ofOctet ch) →
        n = 12 ∧ ch = 121 := by decide +kernel
  have plain : (umAUm (fun _ => false) (fimDaTela.take 12 ++ [121])).estado = .inicial := by
    decide +kernel
  have same : Independente (fun _ => false) 0 fimDaTela := by
    refine (independente_iff ascii host).mpr (.of_places un fim ?_)
    intro n short ch here throws other member
    obtain ⟨rfl, rfl⟩ := only n short ch here throws
    have bell : fimDaTela.drop (12 + 1) = [7] := by decide
    rw [bell, List.mem_singleton] at member
    subst member
    exact ⟨plain, trivial⟩
  have whole : Recebe (fun _ => false) 0 [fimDaTela] _ := .buffer .nada (SoBits.refl _)
  have parts : Recebe (fun _ => false) 0 [fimDaTela.take 6, fimDaTela.drop 6] _ :=
    .buffer (.buffer .nada (SoBits.refl _)) (SoBits.refl _)
  have joined : [fimDaTela.take 6, fimDaTela.drop 6].flatten = [fimDaTela].flatten := by decide
  exact ⟨same, _, _, whole, parts, same.cortes _ _ _ _ (by simp) joined whole parts⟩

/-- `ESC[]Run`, in one buffer, begins a command that is to be executed, and does not when each
character has a buffer of its own. -/
theorem independente_fails :
    (∀ octet ∈ ([27, 91, 93, 82, 117, 110] : List Octet), octet.val < 128) ∧
      ¬ lit "SUPORTE:" <:+: decodeLatin1 [27, 91, 93, 82, 117, 110] ∧
      ¬ Independente (fun _ => false) 0 [27, 91, 93, 82, 117, 110] := by
  have ascii : ∀ octet ∈ ([27, 91, 93, 82, 117, 110] : List Octet), octet.val < 128 := by
    decide +kernel
  have host := @not_suporte [27, 91, 93, 82, 117, 110] (by decide)
  refine ⟨ascii, host, fun same => ?_⟩
  have quiet : ¬ ((umAUm (fun _ => false) [27, 91, 93]).estado = .esc ∧
      (umAUm (fun _ => false) [27, 91, 93]).seq = lit "[]") :=
    same.un ascii host List.prefix_rfl
  exact quiet ⟨rfl, rfl⟩

end Stream

end Terminal

end Pqfh
