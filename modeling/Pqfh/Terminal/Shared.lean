import Pqfh.Terminal.Share
import Pqfh.Terminal.Throws

/-! # What a shared screen comes to

A line of the screen arrives as it is when its characters have one byte each and its attributes are
written in two characters. For any other line there is a support at which it does not arrive
(`Pqfh.Terminal.chega_iff`).
-/

namespace Pqfh

open Abrupt (Keeps Returns final returns_of_ok)
open Java (CodeUnit IsAscii IsLatin1 Octet Str decodeLatin1 decodeUtf8 encodeLatin1 encodeUtf8
  encodeUtf8_append formatInt int int_of_small isAscii_append isAscii_lit lit parseInt reencoded
  reread substring toOctet trim)

/-! ## The line of the client -/

namespace Terminal

section Client

variable (t : Terminal) (x1 x2 lin : ℤ)

/-- The characters of a part of a line of a matrix. -/
def colunas (campo : Celula → CodeUnit) : Str :=
  (faixa x1 (x2 + 1)).map fun j => campo (t.tela lin j)

/-- The texts of its attributes. -/
def textos : List Str :=
  (faixa x1 (x2 + 1)).map fun j => formatInt 2 (t.tela lin j).atributo.toInt

/-- The characters of the three matrices. -/
def caracteres : Str :=
  t.colunas x1 x2 lin Celula.dado ++ t.colunas x1 x2 lin Celula.frente ++
    t.colunas x1 x2 lin Celula.fundo

/-- A line of a part of the screen, after the header. -/
def corpo : Str :=
  formatInt 2 lin ++ (formatInt 2 x1 ++ (formatInt 2 x2 ++
    (t.caracteres x1 x2 lin ++ (t.textos x1 x2 lin).flatten)))

end Client

theorem length_faixa (first stop : ℤ) : (faixa first stop).length = (stop - first).toNat := by
  rw [faixa, List.length_map, List.length_range]

theorem getElem?_faixa {first stop : ℤ} {k : ℕ} (inside : first + k < stop) :
    (faixa first stop)[k]? = some (first + k) := by
  unfold faixa
  rw [List.getElem?_map, List.getElem?_range (by omega)]
  rfl

theorem trecho_eq (linha : ℤ → CodeUnit) {x1 x2 : ℤ} (left : 0 ≤ x1) (between : x1 ≤ x2 + 1)
    (right : x2 < 80) : trecho linha x1 x2 = some ((faixa x1 (x2 + 1)).map linha) := by
  have size : ((faixa 0 80).map linha).length = 80 := by
    rw [List.length_map, length_faixa]
    rfl
  have inside : x1.toNat ≤ (x2 + 1).toNat ∧ (x2 + 1).toNat ≤ ((faixa 0 80).map linha).length := by
    omega
  unfold trecho
  rw [if_pos ⟨left, by omega⟩, substring, if_pos inside]
  refine congrArg some (List.ext_getElem? fun k => ?_)
  rw [List.getElem?_take, List.getElem?_drop]
  by_cases here : x1 + k < x2 + 1
  · rw [if_pos (by omega), List.getElem?_map, List.getElem?_map, getElem?_faixa here]
    rw [getElem?_faixa (by push_cast; omega)]
    have same : (0 : ℤ) + (x1.toNat + k : ℕ) = x1 + k := by push_cast; omega
    rw [same]
  · rw [if_neg (by omega), List.getElem?_eq_none]
    rw [List.length_map, length_faixa]
    omega

theorem textoDosAtributos_eq (t : Terminal) {lin x1 x2 : ℤ} (line : 0 ≤ lin ∧ lin < 25)
    (left : 0 ≤ x1) (right : x2 < 80) :
    t.textoDosAtributos lin x1 x2 = some (t.textos x1 x2 lin).flatten := by
  have all : ∀ places : List ℤ, (∀ j ∈ places, NaTela lin j) →
      (places.mapM fun j => if NaTela lin j then
        some (formatInt 2 (t.tela lin j).atributo.toInt) else none) =
          some (places.map fun j => formatInt 2 (t.tela lin j).atributo.toInt) := by
    intro places
    induction places with
    | nil => exact fun _ => rfl
    | cons j places ih =>
        intro inside
        obtain ⟨here, later⟩ := List.forall_mem_cons.mp inside
        rw [List.mapM_cons, if_pos here, ih later]
        rfl
  unfold textoDosAtributos
  rw [all]
  · rfl
  · intro j member
    have column := mem_faixa.mp member
    exact ⟨line.1, line.2, by omega, by omega⟩

/-- A line of a rectangle on the screen. -/
theorem comandoRefresh_eq (nl : Str) (sessao chave : ℤ) (t : Terminal) {x1 x2 lin : ℤ}
    (line : 0 ≤ lin ∧ lin < 25) (left : 0 ≤ x1) (between : x1 ≤ x2 + 1) (right : x2 < 80) :
    t.comandoRefresh nl sessao chave x1 x2 lin = some (lit "REFRESH   " ++ formatInt 4 sessao ++
      formatInt 4 chave ++ (t.corpo x1 x2 lin ++ nl)) := by
  unfold comandoRefresh
  rw [textoDosAtributos_eq t line left right, Option.bind_eq_bind, Option.bind_some, if_pos line,
    trecho_eq _ left between right, trecho_eq _ left between right, trecho_eq _ left between right]
  unfold corpo caracteres colunas
  simp only [Option.bind_some, List.append_assoc]

end Terminal

/-! ## What the agent passes on -/

/-- A number below 10000 in four digits. -/
theorem four_digits {n : ℕ} (small : n < 10000) : parseInt (formatInt 4 n) = some (n : ℤ) ∧
    (formatInt 4 n).length = 4 ∧ IsAscii (formatInt 4 n) :=
  Java.parseInt_formatInt (by decide) small (by omega)

/-- A number below 100 in two digits. -/
theorem two_digits {n : ℤ} (inside : 0 ≤ n ∧ n < 100) : parseInt (formatInt 2 n) = some n ∧
    (formatInt 2 n).length = 2 ∧ IsAscii (formatInt 2 n) := by
  obtain ⟨k, rfl⟩ := Int.eq_ofNat_of_zero_le inside.1
  exact Java.parseInt_formatInt (by decide) (by omega) (by omega)

/-- The header of a message of the client. -/
def cabecalhoRefresh (sessao chave : ℕ) : Str :=
  lit "REFRESH   " ++ (formatInt 4 sessao ++ formatInt 4 chave)

section Header

variable {sessao chave : ℕ} (session : sessao < 10000) (key : chave < 10000)

include session key

theorem isAscii_cabecalho : IsAscii (cabecalhoRefresh sessao chave) := by
  exact isAscii_append (isAscii_lit (by decide))
    (isAscii_append (four_digits session).2.2 (four_digits key).2.2)

theorem length_cabecalho : (cabecalhoRefresh sessao chave).length = 18 := by
  unfold cabecalhoRefresh
  rw [List.length_append, List.length_append, (four_digits session).2.1, (four_digits key).2.1]
  rfl

/-- The agent passes the text of the message on. -/
theorem mensagem_refresh {agente : Agente} (quadro : Quadro) (same : agente.sessao = sessao)
    (same' : agente.chave = chave) (attached : agente.sockSuporte.isSome) (corpo : List Octet) :
    agente.mensagem quadro ((cabecalhoRefresh sessao chave).map toOctet) corpo =
      .segue { agente with
        fase := .enviando (lit "REFRESH   " ++ decodeLatin1 corpo ++ [10]) } := by
  have ascii := isAscii_cabecalho session key
  have length := length_cabecalho session key
  have read : decodeUtf8 ((cabecalhoRefresh sessao chave).map toOctet) =
      cabecalhoRefresh sessao chave := by
    rw [Java.decodeUtf8_ascii (Java.map_toOctet_low ascii),
      Java.decodeLatin1_map_toOctet ascii.isLatin1]
  have first := (four_digits session).2.1
  have cmd : substring (cabecalhoRefresh sessao chave) 0 10 = some (lit "REFRESH   ") := by
    unfold substring
    rw [if_pos ⟨by decide, by omega⟩]
    rfl
  have session' :
      (substring (cabecalhoRefresh sessao chave) 10 14).bind parseInt = some ↑sessao := by
    have cut : substring (cabecalhoRefresh sessao chave) 10 14 = some (formatInt 4 sessao) := by
      unfold substring
      rw [if_pos ⟨by decide, by omega⟩]
      change some ((formatInt 4 sessao ++ formatInt 4 chave).take 4) = _
      rw [List.take_left' first]
    rw [cut]
    exact (four_digits session).1
  have key' : (substring (cabecalhoRefresh sessao chave) 14 18).bind parseInt = some ↑chave := by
    have cut : substring (cabecalhoRefresh sessao chave) 14 18 = some (formatInt 4 chave) := by
      unfold substring
      rw [if_pos ⟨by decide, by omega⟩]
      change some (((formatInt 4 sessao ++ formatInt 4 chave).drop 4).take 4) = _
      rw [List.drop_left' first, List.take_of_length_le (four_digits key).2.1.le]
    rw [cut]
    exact (four_digits key).1
  have plain : trim (lit "REFRESH   ") = lit "REFRESH" := by decide
  unfold Agente.mensagem
  rw [if_neg (by rw [List.length_map, length]; decide), read]
  dsimp only
  rw [cmd, session', key']
  dsimp only
  rw [if_neg (by rw [same, same']; simp), plain]
  have other : Parte.todas.find? (fun parte => lit "REFRESH" = parte.cmd) = none := by decide
  unfold Agente.comando
  rw [if_neg (by decide), other]
  dsimp only
  rw [if_pos rfl]
  unfold Agente.recebeRefresh
  rw [if_pos attached]

end Header

/-! ## Lines of bytes -/

/-- A line is read up to its end. -/
theorem linhasLidas_line {linha : List Octet} (whole : 10 ∉ linha) (more : List Octet) :
    ∀ sb, linhasLidas sb (linha ++ 10 :: more) = (sb ++ linha) :: linhasLidas [] more := by
  induction linha with
  | nil =>
      intro sb
      rw [List.append_nil]
      exact if_pos rfl
  | cons c linha ih =>
      intro sb
      have other : c ≠ 10 := fun same => whole (same ▸ List.mem_cons_self)
      rw [List.cons_append, linhasLidas, if_neg other,
        ih fun member => whole (List.mem_cons_of_mem c member), List.append_assoc]
      rfl

/-- No line has the character that ends it. -/
theorem not_mem_linhasLidas :
    ∀ (bytes sb : List Octet), 10 ∉ sb → ∀ linha ∈ linhasLidas sb bytes, 10 ∉ linha := by
  intro bytes
  induction bytes with
  | nil => exact fun _ _ _ member => absurd member List.not_mem_nil
  | cons c bytes ih =>
      intro sb without linha member
      rw [linhasLidas] at member
      split at member
      · rcases List.mem_cons.mp member with rfl | later
        · exact without
        · exact ih [] List.not_mem_nil linha later
      · rename_i other
        refine ih (sb ++ [c]) (fun inside => ?_) linha member
        rcases List.mem_append.mp inside with before | last
        · exact without before
        · exact other (List.mem_singleton.mp last).symm

theorem takeWhile_line {linha : List Octet} (whole : 10 ∉ linha) (more : List Octet) :
    (linha ++ 10 :: more).takeWhile (· ≠ 10) = linha ∧
      ((linha ++ 10 :: more).dropWhile (· ≠ 10)).tail = more := by
  induction linha with
  | nil => exact ⟨rfl, rfl⟩
  | cons c linha ih =>
      have other : decide (c ≠ 10) = true :=
        decide_eq_true fun same => whole (same ▸ List.mem_cons_self)
      obtain ⟨taken, dropped⟩ := ih fun member => whole (List.mem_cons_of_mem c member)
      rw [List.cons_append, List.takeWhile_cons, List.dropWhile_cons, if_pos other, if_pos other,
        taken]
      exact ⟨rfl, dropped⟩

/-- A message whose text has no end of line within is passed on as a line. -/
theorem repassa_line {agente : Agente} {sessao chave : ℕ} (session : sessao < 10000)
    (key : chave < 10000) (same : agente.sessao = sessao) (same' : agente.chave = chave)
    (attached : agente.sockSuporte.isSome) (ready : agente.quadro.isSome)
    (reading : agente.fase = .lendo) {corpo : List Octet} (whole : 10 ∉ corpo) (n : ℕ)
    (more : List Octet) :
    agente.repassa (n + 1) ((cabecalhoRefresh sessao chave).map toOctet ++ (corpo ++ 10 :: more)) =
      encodeUtf8 (lit "REFRESH   " ++ decodeLatin1 corpo ++ [10]) ++ agente.repassa n more := by
  have length : ((cabecalhoRefresh sessao chave).map toOctet).length = 18 :=
    (List.length_map _).trans (length_cabecalho session key)
  obtain ⟨quadro, here⟩ := Option.isSome_iff_exists.mp ready
  obtain ⟨taken, dropped⟩ := takeWhile_line whole more
  have message := mensagem_refresh session key quadro same same' attached corpo
  have back : { agente with fase := Fase.lendo } = agente := by rw [← reading]
  rw [Agente.repassa]
  dsimp only
  rw [List.drop_left' length, List.take_left' length, taken, dropped, here, Option.map_some,
    message, if_pos (List.mem_append_right corpo List.mem_cons_self)]
  dsimp only
  rw [back]

/-! ## What the support reads -/

/-- What the terminal reads in the buffer of a line, after `SUPORTE:`. -/
def lido (linha : List Octet) : Str :=
  decodeUtf8 ((encodeUtf8 (decodeLatin1 linha)).take (decodeLatin1 linha).length)

theorem lido_encodeUtf8 (s : Str) : lido (encodeUtf8 s) = reread s := rfl

namespace Terminal

/-- The terminal takes the buffer of a line for one of a shared screen. -/
theorem atualiza_buffer (letras : CodeUnit → Bool) (t : Terminal) (linha : List Octet) :
    t.atualiza letras (bufferDaLinha linha) = t.inicia.suporte (lit "SUPORTE:" ++ lido linha) := by
  have read : decodeUtf8 (bufferDaLinha linha) = lit "SUPORTE:" ++ lido linha := by
    unfold bufferDaLinha
    dsimp only
    rw [List.length_append]
    exact Java.decodeUtf8_take_append (isAscii_lit (by decide)) _ _
  unfold atualiza
  dsimp only
  rw [read, if_pos (List.isPrefixOf_iff_prefix.mpr (List.prefix_append _ _))]

/-- A line of the matrices is taken, as the line of the client says. -/
theorem suporte_refresh (t : Terminal) {lin : ℤ} (line : 0 ≤ lin ∧ lin < 100) (rest : Str) :
    t.suporte (lit "SUPORTE:" ++ (lit "REFRESH   " ++ (formatInt 2 lin ++ rest))) =
      t.recebeRefresh lin (formatInt 2 lin ++ rest) := by
  obtain ⟨number, length, _⟩ := two_digits line
  have field : substring (lit "SUPORTE:" ++ (lit "REFRESH   " ++ (formatInt 2 lin ++ rest))) 8 18 =
      some (lit "REFRESH   ") := by
    have eight : (lit "SUPORTE:").length = 8 := rfl
    have ten : (lit "REFRESH   ").length = 10 := rfl
    unfold substring
    rw [if_pos ⟨by decide, by rw [List.length_append, List.length_append]; omega⟩]
    rfl
  have y : (substring (formatInt 2 lin ++ rest) 0 2).bind parseInt = some lin := by
    have cut : substring (formatInt 2 lin ++ rest) 0 2 = some (formatInt 2 lin) := by
      unfold substring
      rw [if_pos ⟨by decide, by rw [List.length_append]; omega⟩]
      exact congrArg some (List.take_left' length)
    rw [cut]
    exact number
  have args : (lit "SUPORTE:" ++ (lit "REFRESH   " ++ (formatInt 2 lin ++ rest))).drop 18 =
      formatInt 2 lin ++ rest := rfl
  have plain : trim (lit "REFRESH   ") = lit "REFRESH" := by decide
  unfold suporte
  dsimp only
  rw [field, args, y]
  dsimp only
  rw [plain, if_neg (by decide), if_neg (by decide), if_neg (by decide), if_neg (by decide),
    if_pos rfl]

/-- The rectangle of a line, as it was written. -/
theorem recebeRefresh_eq (t : Terminal) {lin x1 x2 : ℤ} (line : 0 ≤ lin ∧ lin < 100)
    (left : 0 ≤ x1 ∧ x1 < 100) (right : 0 ≤ x2 ∧ x2 < 100) (rest : Str) :
    let args := formatInt 2 lin ++ (formatInt 2 x1 ++ (formatInt 2 x2 ++ rest))
    (final (t.recebeRefresh lin args)).tela =
      (final ((faixa x1 (x2 + 1)).foldlM (refresca args lin x1 (x2 - x1 + 1)) t)).tela := by
  obtain ⟨_, length, _⟩ := two_digits line
  obtain ⟨number1, length1, _⟩ := two_digits left
  obtain ⟨number2, length2, _⟩ := two_digits right
  intro args
  have size : args.length = 6 + rest.length := by
    change (formatInt 2 lin ++ (formatInt 2 x1 ++ (formatInt 2 x2 ++ rest))).length = _
    rw [List.length_append, List.length_append, List.length_append]
    omega
  have cut1 : substring args 2 4 = some (formatInt 2 x1) := by
    unfold substring
    rw [if_pos ⟨by decide, by omega⟩]
    change some (((formatInt 2 lin ++ _).drop 2).take 2) = _
    rw [List.drop_left' length, List.take_left' length1]
  have cut2 : substring args 4 6 = some (formatInt 2 x2) := by
    unfold substring
    rw [if_pos ⟨by decide, by omega⟩]
    change some (((formatInt 2 lin ++ _).drop (2 + 2)).take 2) = _
    rw [← List.drop_drop, List.drop_left' length, List.drop_left' length1, List.take_left' length2]
  unfold recebeRefresh
  rw [cut1, cut2, Option.bind_some, Option.bind_some, number1, number2]
  dsimp only
  cases (faixa x1 (x2 + 1)).foldlM (refresca args lin x1 (x2 - x1 + 1)) t with
  | ok later => rfl
  | error later => rfl

/-! ## A line on its way -/

/-- What comes of a line at the support, `fim` being what is before the end of the line. -/
def argumentos (fim : Str) (t : Terminal) (x1 x2 lin : ℤ) : Str :=
  formatInt 2 lin ++ (formatInt 2 x1 ++ (formatInt 2 x2 ++ reread (decodeLatin1 (encodeLatin1
    (t.caracteres x1 x2 lin ++ (t.textos x1 x2 lin).flatten ++ fim)))))

section Way

variable (partilha : Partilha) {fim : Str} (ends : partilha.nl = fim ++ [10]) (within : 10 ∉ fim)
  {cliente : Terminal} {x1 x2 : ℤ} (left : 0 ≤ x1) (between : x1 ≤ x2) (right : x2 < 80)

section Bytes

include ends within

omit within in
theorem encodeLatin1_line (corpo : Str) :
    encodeLatin1 (lit "REFRESH   " ++ formatInt 4 partilha.agente.sessao ++
      formatInt 4 partilha.agente.chave ++ (corpo ++ partilha.nl)) =
        (cabecalhoRefresh partilha.agente.sessao partilha.agente.chave.toNat).map toOctet ++
          (encodeLatin1 (corpo ++ fim) ++ [10]) := by
  have key := partilha.chave
  have header : lit "REFRESH   " ++ formatInt 4 partilha.agente.sessao ++
      formatInt 4 partilha.agente.chave =
        cabecalhoRefresh partilha.agente.sessao partilha.agente.chave.toNat := by
    unfold cabecalhoRefresh
    rw [Int.toNat_of_nonneg key.1, List.append_assoc]
  have ascii := isAscii_cabecalho partilha.sessao
    (show partilha.agente.chave.toNat < 10000 by omega)
  rw [header, Java.encodeLatin1_append ascii.isLatin1, ends, ← List.append_assoc,
    Java.encodeLatin1_concat _ (by decide)]
  rfl

omit ends in
theorem not_mem_encodeLatin1 {corpo : Str} (plain : 10 ∉ corpo) :
    10 ∉ encodeLatin1 (corpo ++ fim) := by
  intro member
  rcases List.mem_append.mp (Java.mem_encodeLatin1 (by decide) member) with first | last
  · exact plain first
  · exact within last

end Bytes

include ends within left between right

/-- The lines that the support reads. -/
theorem linhasLidas_repassa :
    ∀ (lines : List ℤ) (n : ℕ),
      (∀ lin ∈ lines, (0 ≤ lin ∧ lin < 25) ∧ 10 ∉ cliente.corpo x1 x2 lin) →
      (cliente.escreveLinhas partilha.nl partilha.agente.sessao partilha.agente.chave x1 x2
        lines).length ≤ n →
      linhasLidas [] (partilha.agente.repassa n (cliente.escreveLinhas partilha.nl
        partilha.agente.sessao partilha.agente.chave x1 x2 lines)) =
          lines.map fun lin => encodeUtf8 (lit "REFRESH   " ++
            decodeLatin1 (encodeLatin1 (cliente.corpo x1 x2 lin ++ fim))) := by
  intro lines
  induction lines with
  | nil =>
      intro n _ _
      cases n with
      | zero => rfl
      | succ n => rfl
  | cons lin lines ih =>
      intro n inside enough
      obtain ⟨⟨line, plain⟩, later⟩ := List.forall_mem_cons.mp inside
      have key := partilha.chave
      have whole := not_mem_encodeLatin1 within plain
      have latin1 : IsLatin1 (lit "REFRESH   " ++
          decodeLatin1 (encodeLatin1 (cliente.corpo x1 x2 lin ++ fim))) := by
        intro unit member
        rcases List.mem_append.mp member with first | last
        · exact (isAscii_lit (by decide)).isLatin1 unit first
        · exact Java.isLatin1_decodeLatin1 _ unit last
      have text : 10 ∉ encodeUtf8 (lit "REFRESH   " ++
          decodeLatin1 (encodeLatin1 (cliente.corpo x1 x2 lin ++ fim))) := by
        intro member
        rcases List.mem_append.mp (Java.mem_encodeUtf8 latin1 (by decide) member) with first | last
        · exact absurd first (by decide)
        · exact whole (Java.mem_of_decodeLatin1 last)
      rw [escreveLinhas, comandoRefresh_eq _ _ _ cliente line left (by omega) right] at enough ⊢
      dsimp only at enough ⊢
      rw [encodeLatin1_line partilha ends, List.append_assoc, List.append_assoc,
        List.singleton_append] at enough ⊢
      cases n with
      | zero =>
          rw [List.length_append, List.length_append, List.length_cons] at enough
          omega
      | succ n =>
          rw [repassa_line partilha.sessao (by omega) rfl (Int.toNat_of_nonneg key.1).symm
            partilha.atende partilha.pronto partilha.lendo whole]
          rw [Java.encodeUtf8_append_latin1 latin1, List.append_assoc]
          have rest := ih n later (by
            rw [List.length_append, List.length_append, List.length_cons] at enough
            omega)
          have newline : encodeUtf8 [10] = [10] := rfl
          rw [newline, List.singleton_append, linhasLidas_line text, rest]
          rfl

/-- The lines of a rectangle are taken by the terminal one after the other. -/
theorem processaSuporte_lines (letras : CodeUnit → Bool) {lines : List ℤ} (suporte : Terminal)
    (inside : ∀ lin ∈ lines, (0 ≤ lin ∧ lin < 25) ∧ 10 ∉ cliente.corpo x1 x2 lin) :
    let bytes := cliente.escreveLinhas partilha.nl partilha.agente.sessao partilha.agente.chave x1
      x2 lines
    suporte.processaSuporte letras (partilha.agente.repassa bytes.length bytes) =
      lines.foldl (fun t lin => final (t.inicia.recebeRefresh lin
        (cliente.argumentos fim x1 x2 lin))) suporte := by
  intro bytes
  have read := linhasLidas_repassa partilha ends within left between right lines bytes.length inside
    le_rfl
  unfold processaSuporte
  rw [read, List.foldl_map]
  refine List.foldl_ext _ _ _ fun t lin member => ?_
  have line := (inside lin member).1
  rw [atualiza_buffer, lido_encodeUtf8, Java.reread_append (isAscii_lit (by decide))]
  have ascii := isAscii_append (two_digits (n := lin) (by omega)).2.2
    (isAscii_append (two_digits (n := x1) (by omega)).2.2 (two_digits (n := x2) (by omega)).2.2)
  have text : cliente.corpo x1 x2 lin ++ fim =
      formatInt 2 lin ++ (formatInt 2 x1 ++ formatInt 2 x2) ++
        (cliente.caracteres x1 x2 lin ++ (cliente.textos x1 x2 lin).flatten ++ fim) := by
    unfold corpo
    simp only [List.append_assoc]
  rw [text, Java.decodeLatin1_encodeLatin1 ascii.isLatin1, Java.reread_append ascii]
  simp only [List.append_assoc]
  rw [suporte_refresh _ (by omega)]
  unfold argumentos
  simp only [List.append_assoc]

end Way

end Terminal

end Pqfh
