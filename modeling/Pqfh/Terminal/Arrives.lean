import Pqfh.Terminal.Shared

/-! # When a shared screen arrives

What the support's terminal writes to a cell it has read at the cell's places in the line. At a
terminal whose cells all differ from those of the client, every cell of the rectangle must have been
read so. This is possible for characters of one byte only, and for attributes of two characters.
-/

namespace Pqfh

open Abrupt (Keeps Returns final returns_of_ok)
open Java (CodeUnit IsAscii IsLatin1 Octet Str decodeLatin1 decodeUtf8 encodeLatin1 encodeUtf8
  formatInt int int_of_small isAscii_append isAscii_lit lit parseInt reread substring unit)

namespace Terminal

/-! ## No end of line in the matrices -/

/-- A cell does not have the character that ends a line. -/
def CelulaSemFim (celula : Celula) : Prop :=
  celula.dado ≠ 10 ∧ celula.frente ≠ 10 ∧ celula.fundo ≠ 10

def SemFim (t : Terminal) : Prop := ∀ i j, CelulaSemFim (t.tela i j)

/-- Such a character is written only when it is the one to be written. -/
def MantemSemFim (campo : Celula → CodeUnit → Celula) : Prop :=
  ∀ celula ch, CelulaSemFim celula → ch ≠ 10 → CelulaSemFim (campo celula ch)

/-- A character that ends no line can be set. -/
theorem comDado_semFim : MantemSemFim comDado := fun _ _ clean plain => ⟨plain, clean.2⟩

/-- A foreground that ends no line can be set. -/
theorem comFrente_semFim : MantemSemFim comFrente := fun _ _ clean plain =>
  ⟨clean.1, plain, clean.2.2⟩

/-- A background that ends no line can be set. -/
theorem comFundo_semFim : MantemSemFim comFundo := fun _ _ clean plain =>
  ⟨clean.1, clean.2.1, plain⟩

section Ends

variable {t : Terminal} (clean : t.SemFim)

include clean

/-- A cell without ends of lines leaves none on the screen. -/
theorem SemFim.grava (i j : ℤ) {celula : Celula}
    (here : CelulaSemFim celula) : Keeps False SemFim (t.grava i j celula) := by
  unfold Terminal.grava
  split
  · refine Keeps.of_ok fun a b => ?_
    change CelulaSemFim (if a = i ∧ b = j then celula else t.tela a b)
    split
    · exact here
    · exact clean a b
  · exact Keeps.of_error clean not_false

/-- Characters that end no line leave none on the screen. -/
theorem SemFim.escreve {campo : Celula → CodeUnit → Celula}
    (field : MantemSemFim campo)
    (i : ℤ) {valor : ℤ → Option CodeUnit} (j : ℤ) (plain : valor j ≠ some 10) :
    Keeps False SemFim (t.escreve campo i valor j) := by
  unfold Terminal.escreve
  cases read : valor j with
  | none => exact Keeps.of_error clean not_false
  | some ch =>
      have other : ch ≠ 10 := fun same => plain (same ▸ read)
      exact clean.grava i j (field _ ch (clean i j) other)

/-- Attributes end no line. -/
theorem SemFim.escreveAtributo (i : ℤ) (valor : ℤ → Option ℤ) (j : ℤ) :
    Keeps False SemFim (t.escreveAtributo i valor j) := by
  unfold Terminal.escreveAtributo
  cases valor j with
  | none => exact Keeps.of_error clean not_false
  | some atributo => exact clean.grava i j (clean i j)

end Ends

/-- No place of such a text ends a line. -/
theorem getElem?_ne {args : Str} (plain : 10 ∉ args) (k : ℕ) : args[k]? ≠ some 10 := fun here =>
  plain (List.mem_of_getElem? here)

section Lines

variable {t : Terminal} (clean : t.SemFim) {args : Str} (plain : 10 ∉ args)

include clean plain

/-- A line of characters without ends leaves none on the screen. -/
theorem SemFim.recebeLinha {campo : Celula → CodeUnit → Celula}
    (field : MantemSemFim campo)
    (y : ℤ) : Keeps False SemFim (t.recebeLinha campo y args) := by
  unfold Terminal.recebeLinha
  refine Keeps.bind (Keeps.foldlM (fun s clean x _ => ?_) clean) fun s clean =>
    Keeps.foldlM (fun s clean x _ => ?_) clean
  · exact clean.escreve field y x (getElem?_ne plain _)
  · exact clean.escreve field y x (by decide)

omit plain in
/-- Nor does a line of attributes. -/
theorem SemFim.recebeAtributos (y : ℤ) : Keeps False SemFim (t.recebeAtributos y args) := by
  unfold Terminal.recebeAtributos
  refine Keeps.bind (Keeps.foldlM (fun s clean x _ => ?_) clean) fun s clean =>
    Keeps.bind (Keeps.foldlM (fun s clean x _ => ?_) clean) fun s clean => Keeps.of_ok clean
  · exact clean.escreveAtributo y _ x
  · exact clean.escreveAtributo y _ x

/-- Nor does a refresh. -/
theorem SemFim.recebeRefresh (y : ℤ) : Keeps False SemFim (t.recebeRefresh y args) := by
  unfold Terminal.recebeRefresh
  split
  · refine Keeps.bind (Keeps.foldlM (fun s clean x _ => ?_) clean) fun s clean => Keeps.of_ok clean
    unfold refresca
    refine Keeps.bind (clean.escreve comDado_semFim y x (getElem?_ne plain _))
      fun s clean => ?_
    refine Keeps.bind (clean.escreve comFrente_semFim y x (getElem?_ne plain _))
      fun s clean => ?_
    refine Keeps.bind (clean.escreve comFundo_semFim y x (getElem?_ne plain _))
      fun s clean => ?_
    exact clean.escreveAtributo y _ x
  · exact Keeps.of_error clean not_false

end Lines

/-- A line of the relay brings no end of a line to the screen. -/
theorem SemFim.suporte {t : Terminal} (clean : t.SemFim) {s : Str} (plain : 10 ∉ s) :
    Keeps False SemFim (t.suporte s) := by
  have args : 10 ∉ s.drop 18 := fun member => plain (List.mem_of_mem_drop member)
  unfold Terminal.suporte
  dsimp only
  split
  · split
    · exact clean.recebeLinha args comDado_semFim _
    split
    · exact clean.recebeLinha args comFrente_semFim _
    split
    · exact clean.recebeLinha args comFundo_semFim _
    split
    · exact clean.recebeAtributos _
    split
    · exact clean.recebeRefresh args _
    · exact Keeps.of_ok clean
  · exact Keeps.of_error clean not_false

/-- Whatever a support receives, no character that ends a line gets into its matrices. -/
theorem SemFim.processaSuporte {t : Terminal} (clean : t.SemFim) (letras : CodeUnit → Bool)
    (bytes : List Octet) : (t.processaSuporte letras bytes).SemFim := by
  have lines := not_mem_linhasLidas bytes [] List.not_mem_nil
  unfold Terminal.processaSuporte
  generalize linhasLidas [] bytes = linhas at lines
  induction linhas generalizing t with
  | nil => exact clean
  | cons linha linhas ih =>
      obtain ⟨here, later⟩ := List.forall_mem_cons.mp lines
      refine ih ?_ later
      have plain : 10 ∉ lit "SUPORTE:" ++ lido linha := by
        intro member
        rcases List.mem_append.mp member with first | last
        · exact absurd first (by decide)
        · have read := Java.mem_decodeUtf8_take (Java.isLatin1_decodeLatin1 linha) last
          rcases read with inside | other
          · exact here (Java.mem_of_decodeLatin1 inside)
          · exact absurd other (by decide)
      have start : t.inicia.SemFim := clean
      dsimp only
      rw [atualiza_buffer]
      exact (start.suporte plain).final

/-! ## What is written was read -/

/-- The attributes at the `j`th column of a line. -/
def atributoLido (args : Str) (n j : ℤ) : Option ℤ :=
  (substring args (j * 2 + 6 + n * 3).toNat (j * 2 + 6 + 2 + n * 3).toNat).bind parseInt

/-- Each part of a cell is as it was before, or was read in the line for it. -/
structure Lida (args : ℤ → Str) (x1 n : ℤ) (before t : Terminal) : Prop where
  dado : ∀ i j, (t.tela i j).dado = (before.tela i j).dado ∨
    (args i)[(j - x1 + 6).toNat]? = some (t.tela i j).dado
  frente : ∀ i j, (t.tela i j).frente = (before.tela i j).frente ∨
    (args i)[(j - x1 + 6 + n).toNat]? = some (t.tela i j).frente
  fundo : ∀ i j, (t.tela i j).fundo = (before.tela i j).fundo ∨
    (args i)[(j - x1 + 6 + n * 2).toNat]? = some (t.tela i j).fundo
  atributo : ∀ i j, (t.tela i j).atributo = (before.tela i j).atributo ∨
    ∃ a, atributoLido (args i) n (j - x1) = some a ∧ (t.tela i j).atributo = BitVec.ofInt 32 a

section Read

variable {args : ℤ → Str} {x1 n : ℤ} {before t : Terminal}

/-- A terminal that has received nothing has read nothing. -/
theorem Lida.refl (args : ℤ → Str) (x1 n : ℤ) (t : Terminal) : Lida args x1 n t t where
  dado _ _ := Or.inl rfl
  frente _ _ := Or.inl rfl
  fundo _ _ := Or.inl rfl
  atributo _ _ := Or.inl rfl

variable (lida : Lida args x1 n before t)

include lida

/-- A cell that was read from the arguments is written. -/
theorem Lida.grava {i j : ℤ} {celula : Celula}
    (dado : celula.dado = (t.tela i j).dado ∨ (args i)[(j - x1 + 6).toNat]? = some celula.dado)
    (frente : celula.frente = (t.tela i j).frente ∨
      (args i)[(j - x1 + 6 + n).toNat]? = some celula.frente)
    (fundo : celula.fundo = (t.tela i j).fundo ∨
      (args i)[(j - x1 + 6 + n * 2).toNat]? = some celula.fundo)
    (atributo : celula.atributo = (t.tela i j).atributo ∨
      ∃ a, atributoLido (args i) n (j - x1) = some a ∧ celula.atributo = BitVec.ofInt 32 a) :
    Keeps False (Lida args x1 n before) (t.grava i j celula) := by
  have cell : ∀ a b, (t.set i j celula).tela a b =
      if a = i ∧ b = j then celula else t.tela a b := fun _ _ => rfl
  unfold Terminal.grava
  split
  · refine Keeps.of_ok ⟨?_, ?_, ?_, ?_⟩
    all_goals
      intro a b
      rw [cell]
      split
      rotate_left
    · exact lida.dado a b
    · rename_i here
      rw [here.1, here.2]
      exact dado.elim (fun same => same ▸ lida.dado i j) Or.inr
    · exact lida.frente a b
    · rename_i here
      rw [here.1, here.2]
      exact frente.elim (fun same => same ▸ lida.frente i j) Or.inr
    · exact lida.fundo a b
    · rename_i here
      rw [here.1, here.2]
      exact fundo.elim (fun same => same ▸ lida.fundo i j) Or.inr
    · exact lida.atributo a b
    · rename_i here
      rw [here.1, here.2]
      exact atributo.elim (fun same => same ▸ lida.atributo i j) Or.inr
  · exact Keeps.of_error lida not_false

/-- A turn of the loop writes what it has read. -/
theorem Lida.refresca (y x : ℤ) :
    Keeps False (Lida args x1 n before) (refresca (args y) y x1 n t x) := by
  unfold Terminal.refresca
  refine Keeps.bind (P := Lida args x1 n before) ?_ fun t lida => ?_
  · unfold escreve
    cases read : (args y)[(x - x1 + 6).toNat]? with
    | none => exact Keeps.of_error lida not_false
    | some ch => exact lida.grava (Or.inr read) (Or.inl rfl) (Or.inl rfl) (Or.inl rfl)
  refine Keeps.bind (P := Lida args x1 n before) ?_ fun t lida => ?_
  · unfold escreve
    cases read : (args y)[(x - x1 + 6 + n).toNat]? with
    | none => exact Keeps.of_error lida not_false
    | some ch => exact lida.grava (Or.inl rfl) (Or.inr read) (Or.inl rfl) (Or.inl rfl)
  refine Keeps.bind (P := Lida args x1 n before) ?_ fun t lida => ?_
  · unfold escreve
    cases read : (args y)[(x - x1 + 6 + n * 2).toNat]? with
    | none => exact Keeps.of_error lida not_false
    | some ch => exact lida.grava (Or.inl rfl) (Or.inl rfl) (Or.inr read) (Or.inl rfl)
  · unfold escreveAtributo
    cases read : (substring (args y) ((x - x1) * 2 + 6 + n * 3).toNat
        ((x - x1) * 2 + 6 + 2 + n * 3).toNat).bind parseInt with
    | none => exact Keeps.of_error lida not_false
    | some a =>
        exact lida.grava (Or.inl rfl) (Or.inl rfl) (Or.inl rfl) (Or.inr ⟨a, read, rfl⟩)

end Read

/-- Only the cells count. -/
theorem Lida.of_tela {args : ℤ → Str} {x1 n : ℤ} {before t later : Terminal}
    (lida : Lida args x1 n before t) (same : later.tela = t.tela) :
    Lida args x1 n before later where
  dado i j := by rw [same]; exact lida.dado i j
  frente i j := by rw [same]; exact lida.frente i j
  fundo i j := by rw [same]; exact lida.fundo i j
  atributo i j := by rw [same]; exact lida.atributo i j

/-- The lines of a rectangle, as the support's terminal takes them. -/
def recebeLinhas (fim : Str) (cliente : Terminal) (x1 x2 : ℤ) (lines : List ℤ) (t : Terminal) :
    Terminal :=
  lines.foldl (fun t lin => final (t.inicia.recebeRefresh lin (cliente.argumentos fim x1 x2 lin))) t

section Rectangle

variable {fim : Str} {cliente : Terminal} {x1 x2 : ℤ} (left : 0 ≤ x1) (between : x1 ≤ x2)
  (right : x2 < 80)

include left between right

/-- What a refresh writes to its line. -/
theorem tela_recebeRefresh (t : Terminal) {lin : ℤ} (line : 0 ≤ lin ∧ lin < 25) :
    (final (t.inicia.recebeRefresh lin (cliente.argumentos fim x1 x2 lin))).tela =
      (final ((faixa x1 (x2 + 1)).foldlM
        (refresca (cliente.argumentos fim x1 x2 lin) lin x1 (x2 - x1 + 1)) t.inicia)).tela :=
  recebeRefresh_eq t.inicia (by omega) (by omega) (by omega) _

/-- Line after line, a cell is as before or read from its line. -/
theorem lida_recebeLinhas {before : Terminal} :
    ∀ (lines : List ℤ) (t : Terminal), (∀ lin ∈ lines, 0 ≤ lin ∧ lin < 25) →
      Lida (cliente.argumentos fim x1 x2) x1 (x2 - x1 + 1) before t →
      Lida (cliente.argumentos fim x1 x2) x1 (x2 - x1 + 1) before
        (recebeLinhas fim cliente x1 x2 lines t) := by
  intro lines
  induction lines with
  | nil => exact fun _ _ lida => lida
  | cons lin lines ih =>
      intro t inside lida
      obtain ⟨line, later⟩ := List.forall_mem_cons.mp inside
      refine ih _ later ?_
      have start : Lida (cliente.argumentos fim x1 x2) x1 (x2 - x1 + 1) before t.inicia :=
        lida.of_tela rfl
      have loop := Keeps.foldlM (fun s lida x (_ : x ∈ faixa x1 (x2 + 1)) =>
        @Lida.refresca _ _ _ before _ lida lin x) start
      exact loop.final.of_tela (tela_recebeRefresh left between right t line)

end Rectangle

/-- A terminal whose cells differ from those of another in all their parts. -/
def avesso (t : Terminal) : Terminal :=
  { novo with tela := fun i j => ⟨(t.tela i j).dado + 1, (t.tela i j).atributo + 1,
      (t.tela i j).frente + 1, (t.tela i j).fundo + 1⟩ }

/-- There is another character. -/
theorem unit_ne_succ (ch : CodeUnit) : ch ≠ ch + 1 := by
  intro same
  have value : ch.val = (ch.val + 1) % 65536 := congrArg Fin.val same
  omega

/-- There are other attributes. -/
theorem bits_ne_succ (bits : BitVec 32) : bits ≠ bits + 1 := by
  intro same
  have value : bits.toNat = (bits.toNat + 1) % 4294967296 := congrArg BitVec.toNat same
  omega

/-! ## What must have been read -/

/-- There is one character for each column. -/
theorem length_colunas (t : Terminal) (x1 x2 lin : ℤ) (campo : Celula → CodeUnit) :
    (t.colunas x1 x2 lin campo).length = (x2 + 1 - x1).toNat :=
  (List.length_map _).trans (length_faixa x1 (x2 + 1))

/-- A beginning goes on with the beginning of what is behind it. -/
theorem prefix_append_next {front next s : Str} (first : front <+: s)
    (second : next <+: s.drop front.length) : front ++ next <+: s := by
  obtain ⟨rest, rfl⟩ := first
  rw [List.drop_left] at second
  exact (List.prefix_append_right_inj front).mpr second

/-- The characters of a part of a line are read one by one. -/
theorem colunas_prefix {t : Terminal} {x1 x2 lin : ℤ} {campo : Celula → CodeUnit} {s : Str}
    (read : ∀ j, x1 ≤ j → j ≤ x2 → s[(j - x1).toNat]? = some (campo (t.tela lin j))) :
    t.colunas x1 x2 lin campo <+: s := by
  refine List.prefix_iff_getElem?.mpr fun k inside => ?_
  have size := length_colunas t x1 x2 lin campo
  have here := read (x1 + k) (by omega) (by omega)
  have place : (x1 + k - x1).toNat = k := by omega
  rw [place] at here
  rw [here]
  have column : (faixa x1 (x2 + 1))[k]? = some (x1 + k) := getElem?_faixa (by omega)
  have same : (t.colunas x1 x2 lin campo)[k]? = some (campo (t.tela lin (x1 + k))) := by
    unfold colunas
    rw [List.getElem?_map, column]
    rfl
  rw [← same, List.getElem?_eq_getElem inside]

/-- Every part of every cell of a line is read as it is. -/
structure LinhaLida (args : Str) (t : Terminal) (x1 x2 lin : ℤ) : Prop where
  dado : ∀ j, x1 ≤ j → j ≤ x2 → args[(j - x1 + 6).toNat]? = some (t.tela lin j).dado
  frente : ∀ j, x1 ≤ j → j ≤ x2 →
    args[(j - x1 + 6 + (x2 - x1 + 1)).toNat]? = some (t.tela lin j).frente
  fundo : ∀ j, x1 ≤ j → j ≤ x2 →
    args[(j - x1 + 6 + (x2 - x1 + 1) * 2).toNat]? = some (t.tela lin j).fundo
  atributo : ∀ j, x1 ≤ j → j ≤ x2 → ∃ a,
    atributoLido args (x2 - x1 + 1) (j - x1) = some a ∧
      (t.tela lin j).atributo = BitVec.ofInt 32 a

/-- Attributes are read of two characters. -/
theorem atributoLido_small {args : Str} {n j a : ℤ} (first : 0 ≤ j) (columns : 0 ≤ n)
    (read : atributoLido args n j = some a) : -10 < a ∧ a < 100 := by
  obtain ⟨text, cut, number⟩ := Option.bind_eq_some_iff.mp read
  have two : text.length = 2 := by
    unfold substring at cut
    split at cut
    · rename_i inside
      cases cut
      rw [List.length_take, List.length_drop]
      omega
    · cases cut
  obtain ⟨u, v, rfl⟩ := List.length_eq_two.mp two
  exact Java.parseInt_pair number

section Reads

variable {fim : Str} {t : Terminal} {x1 x2 lin : ℤ} (line : 0 ≤ lin ∧ lin < 25) (left : 0 ≤ x1)
  (between : x1 ≤ x2) (right : x2 < 80)

include line left between right

/-- The header of a line has six characters. -/
theorem argumentos_eq : ∃ front : Str, front.length = 6 ∧ t.argumentos fim x1 x2 lin =
    front ++ reread (decodeLatin1 (encodeLatin1
      (t.caracteres x1 x2 lin ++ (t.textos x1 x2 lin).flatten ++ fim))) := by
  refine ⟨formatInt 2 lin ++ (formatInt 2 x1 ++ formatInt 2 x2), ?_, ?_⟩
  · rw [List.length_append, List.length_append, (two_digits (n := lin) (by omega)).2.1,
      (two_digits (n := x1) (by omega)).2.1, (two_digits (n := x2) (by omega)).2.1]
  · unfold argumentos
    simp only [List.append_assoc]

/-- A line in which every cell can be read has characters of ASCII only. -/
theorem LinhaLida.isAscii
    (lida : LinhaLida (t.argumentos fim x1 x2 lin) t x1 x2 lin) :
    IsAscii (t.caracteres x1 x2 lin) := by
  obtain ⟨dado, frente, fundo, atributos⟩ := lida
  obtain ⟨a, atributo, _⟩ := atributos x1 le_rfl between
  rw [sub_self] at atributo
  obtain ⟨front, six, eq⟩ := @argumentos_eq fim t x1 x2 lin line left between right
  rw [eq] at dado frente fundo atributo
  clear atributos
  generalize whole : reread _ = read at dado frente fundo atributo
  have size := length_colunas t x1 x2 lin
  have first : t.colunas x1 x2 lin Celula.dado <+: read := by
    refine colunas_prefix fun j low high => ?_
    have here := dado j low high
    have place : (j - x1 + 6).toNat - front.length = (j - x1).toNat := by omega
    rw [List.getElem?_append_right (by omega), place] at here
    exact here
  have second : t.colunas x1 x2 lin Celula.frente <+: read.drop (x2 + 1 - x1).toNat := by
    refine colunas_prefix fun j low high => ?_
    have here := frente j low high
    have place : (j - x1 + 6 + (x2 - x1 + 1)).toNat - front.length =
        (x2 + 1 - x1).toNat + (j - x1).toNat := by omega
    rw [List.getElem?_append_right (by omega), place] at here
    rw [List.getElem?_drop]
    exact here
  have third : t.colunas x1 x2 lin Celula.fundo <+: read.drop ((x2 + 1 - x1).toNat * 2) := by
    refine colunas_prefix fun j low high => ?_
    have here := fundo j low high
    have place : (j - x1 + 6 + (x2 - x1 + 1) * 2).toNat - front.length =
        (x2 + 1 - x1).toNat * 2 + (j - x1).toNat := by omega
    rw [List.getElem?_append_right (by omega), place] at here
    rw [List.getElem?_drop]
    exact here
  obtain ⟨text, cut, number⟩ := Option.bind_eq_some_iff.mp atributo
  have bounds : (0 * 2 + 6 + 2 + (x2 - x1 + 1) * 3).toNat ≤ (front ++ read).length ∧
      text = ((front ++ read).drop (0 * 2 + 6 + (x2 - x1 + 1) * 3).toNat).take 2 := by
    unfold substring at cut
    split at cut
    · rename_i inside
      have two : (0 * 2 + 6 + 2 + (x2 - x1 + 1) * 3).toNat -
          (0 * 2 + 6 + (x2 - x1 + 1) * 3).toNat = 2 := by omega
      rw [two] at cut
      exact ⟨inside.2, (Option.some.inj cut).symm⟩
    · cases cut
  obtain ⟨room, rfl⟩ := bounds
  have place : (0 * 2 + 6 + (x2 - x1 + 1) * 3).toNat =
      front.length + (x2 + 1 - x1).toNat * 3 := by omega
  rw [place, ← List.drop_drop, List.drop_left] at number
  rw [List.length_append] at room
  have chars : t.caracteres x1 x2 lin <+: read := by
    unfold caracteres
    refine prefix_append_next (prefix_append_next first (by rw [size]; exact second)) ?_
    rw [List.length_append, size, size, ← mul_two]
    exact third
  have length : (t.caracteres x1 x2 lin).length = (x2 + 1 - x1).toNat * 3 := by
    unfold caracteres
    rw [List.length_append, List.length_append, size, size, size]
    omega
  obtain ⟨rest, split⟩ := chars
  rw [← split, ← length, List.drop_left] at number
  have two : 2 ≤ rest.length := by
    have total := congrArg List.length split
    rw [List.length_append, length] at total
    omega
  obtain ⟨u, v, more, rfl⟩ : ∃ u v more, rest = u :: v :: more := by
    rcases rest with _ | ⟨u, _ | ⟨v, more⟩⟩
    · exact absurd two (by decide)
    · exact absurd two (by simp)
    · exact ⟨u, v, more, rfl⟩
  refine @Java.isAscii_of_reread _ ((t.textos x1 x2 lin).flatten ++ fim) u v a ?_ number
  rw [← List.append_assoc, whole]
  exact ⟨more, by rw [← split]; simp⟩

end Reads

/-! ## A line that arrives -/

/-- The cell that was set. -/
theorem set_self (t : Terminal) (i j : ℤ) (celula : Celula) :
    (t.set i j celula).tela i j = celula := if_pos ⟨rfl, rfl⟩

/-- A cell that is set twice has the second value. -/
theorem set_set (t : Terminal) (i j : ℤ) (celula celula' : Celula) :
    (t.set i j celula).set i j celula' = t.set i j celula' := by
  unfold set
  congr 1
  funext a b
  dsimp only
  split
  · rfl
  · rfl

/-- A cell that can be read is written. -/
theorem refresca_eq {args : Str} {y x1 n x : ℤ} {celula : Celula} (t : Terminal)
    (inside : NaTela y x) (dado : args[(x - x1 + 6).toNat]? = some celula.dado)
    (frente : args[(x - x1 + 6 + n).toNat]? = some celula.frente)
    (fundo : args[(x - x1 + 6 + n * 2).toNat]? = some celula.fundo)
    (atributo : atributoLido args n (x - x1) = some celula.atributo.toInt) :
    refresca args y x1 n t x = .ok (t.set y x celula) := by
  have first : ∀ t : Terminal, t.escreve comDado y (fun _ => args[(x - x1 + 6).toNat]?) x =
      .ok (t.set y x (comDado (t.tela y x) celula.dado)) := by
    intro t
    unfold escreve
    dsimp only
    rw [dado]
    exact grava_eq inside
  have second : ∀ t : Terminal, t.escreve comFrente y (fun _ => args[(x - x1 + 6 + n).toNat]?) x =
      .ok (t.set y x (comFrente (t.tela y x) celula.frente)) := by
    intro t
    unfold escreve
    dsimp only
    rw [frente]
    exact grava_eq inside
  have third : ∀ t : Terminal, t.escreve comFundo y (fun _ => args[(x - x1 + 6 + n * 2).toNat]?) x =
      .ok (t.set y x (comFundo (t.tela y x) celula.fundo)) := by
    intro t
    unfold escreve
    dsimp only
    rw [fundo]
    exact grava_eq inside
  have last : ∀ t : Terminal, t.escreveAtributo y (fun _ => (substring args
      ((x - x1) * 2 + 6 + n * 3).toNat ((x - x1) * 2 + 6 + 2 + n * 3).toNat).bind parseInt) x =
        .ok (t.set y x { t.tela y x with atributo := celula.atributo }) := by
    intro t
    unfold atributoLido at atributo
    unfold escreveAtributo
    dsimp only
    rw [atributo]
    dsimp only
    rw [BitVec.ofInt_toInt]
    exact grava_eq inside
  unfold refresca
  dsimp only
  rw [first]
  change (escreve _ _ _ _ _ >>= _) = _
  rw [second]
  change (escreve _ _ _ _ _ >>= _) = _
  rw [third]
  refine (last _).trans ?_
  rw [set_set, set_set, set_set, set_self, set_self, set_self]
  rfl

/-- The loop writes the cells of the client. -/
theorem foldlM_refresca {args : Str} {cliente : Terminal} {y x1 x2 : ℤ} (line : 0 ≤ y ∧ y < 25)
    (left : 0 ≤ x1) (right : x2 < 80)
    (dado : ∀ j, x1 ≤ j → j ≤ x2 → args[(j - x1 + 6).toNat]? = some (cliente.tela y j).dado)
    (frente : ∀ j, x1 ≤ j → j ≤ x2 →
      args[(j - x1 + 6 + (x2 - x1 + 1)).toNat]? = some (cliente.tela y j).frente)
    (fundo : ∀ j, x1 ≤ j → j ≤ x2 →
      args[(j - x1 + 6 + (x2 - x1 + 1) * 2).toNat]? = some (cliente.tela y j).fundo)
    (atributo : ∀ j, x1 ≤ j → j ≤ x2 →
      atributoLido args (x2 - x1 + 1) (j - x1) = some (cliente.tela y j).atributo.toInt) :
    ∀ (k : ℕ) (t : Terminal) (x : ℤ), x1 ≤ x → (x2 + 1 - x).toNat = k →
      ∃ later, (faixa x (x2 + 1)).foldlM (refresca args y x1 (x2 - x1 + 1)) t = .ok later ∧
        ∀ a b, later.tela a b =
          if a = y ∧ x ≤ b ∧ b ≤ x2 then cliente.tela a b else t.tela a b := by
  intro k
  induction k with
  | zero =>
      intro t x _ size
      refine ⟨t, ?_, fun a b => (if_neg (by omega)).symm⟩
      rw [faixa_empty (by omega)]
      rfl
  | succ k ih =>
      intro t x low size
      have written := refresca_eq t (show NaTela y x from ⟨line.1, line.2, by omega, by omega⟩)
        (dado x low (by omega)) (frente x low (by omega)) (fundo x low (by omega))
        (atributo x low (by omega))
      obtain ⟨later, rest, cells⟩ := ih (t.set y x (cliente.tela y x)) (x + 1) (by omega) (by omega)
      rw [faixa_cons (by omega), List.foldlM_cons, written]
      refine ⟨later, rest, fun a b => ?_⟩
      rw [cells]
      change (if _ then _ else if a = y ∧ b = x then cliente.tela y x else t.tela a b) = _
      by_cases here : a = y ∧ b = x
      · rw [if_neg (by omega), if_pos here, if_pos (by omega), here.1, here.2]
      · rw [if_neg here]
        by_cases after : a = y ∧ x + 1 ≤ b ∧ b ≤ x2
        · rw [if_pos after, if_pos (by omega)]
        · rw [if_neg after, if_neg (by omega)]

/-- Attributes of one digit and a sign, or of one or two digits. -/
theorem texto_simples {n : ℤ} (low : -10 < n) (high : n < 100) : parseInt (formatInt 2 n) = some n ∧
    (formatInt 2 n).length = 2 ∧ IsAscii (formatInt 2 n) := by
  by_cases negative : n < 0
  · exact Java.parseInt_formatInt_neg low negative
  · exact two_digits ⟨not_lt.mp negative, high⟩

/-- Texts of two characters each are found one after the other. -/
theorem flatten_pairs {text rest : Str} :
    ∀ (texts : List Str) (k : ℕ), (∀ text ∈ texts, text.length = 2) → texts[k]? = some text →
      k * 2 + 2 ≤ (texts.flatten ++ rest).length ∧
        ((texts.flatten ++ rest).drop (k * 2)).take 2 = text := by
  intro texts
  induction texts with
  | nil => exact fun k _ here => by cases here
  | cons first texts ih =>
      intro k two here
      obtain ⟨length, later⟩ := List.forall_mem_cons.mp two
      rw [List.flatten_cons, List.append_assoc]
      cases k with
      | zero =>
          cases here
          rw [List.length_append]
          exact ⟨by omega, by rw [Nat.zero_mul, List.drop_zero, List.take_left' length]⟩
      | succ k =>
          obtain ⟨room, found⟩ := ih k later here
          rw [List.length_append]
          refine ⟨by omega, ?_⟩
          have place : (k + 1) * 2 = first.length + k * 2 := by omega
          rw [place, ← List.drop_drop, List.drop_left]
          exact found

section Simple

variable {fim : Str} (ends : IsAscii fim) {cliente : Terminal} {x1 x2 lin : ℤ}
  (line : 0 ≤ lin ∧ lin < 25) (left : 0 ≤ x1) (between : x1 ≤ x2) (right : x2 < 80)
  (simple : ∀ j, x1 ≤ j → j ≤ x2 → CelulaSimples (cliente.tela lin j))

/-- The characters of the columns come from the cells. -/
theorem mem_colunas {campo : Celula → CodeUnit} {ch : CodeUnit}
    (member : ch ∈ cliente.colunas x1 x2 lin campo) :
    ∃ j, x1 ≤ j ∧ j ≤ x2 ∧ ch = campo (cliente.tela lin j) := by
  obtain ⟨j, here, rfl⟩ := List.mem_map.mp member
  have inside := mem_faixa.mp here
  exact ⟨j, inside.1, by omega, rfl⟩

include simple in
/-- Characters of cells with one byte are sent as they are. -/
theorem isAscii_caracteres : IsAscii (cliente.caracteres x1 x2 lin) := by
  refine isAscii_append (isAscii_append ?_ ?_) ?_
  all_goals
    intro ch member
    obtain ⟨j, low, high, rfl⟩ := mem_colunas member
  · exact (simple j low high).dado.1
  · exact (simple j low high).frente.1
  · exact (simple j low high).fundo.1

include simple in
/-- Attributes are sent in two characters each. -/
theorem textos_simples : ∀ text ∈ cliente.textos x1 x2 lin, text.length = 2 ∧ IsAscii text := by
  intro text member
  obtain ⟨j, here, rfl⟩ := List.mem_map.mp member
  have inside := mem_faixa.mp here
  obtain ⟨low, high⟩ := (simple j inside.1 (by omega)).atributo
  exact (texto_simples low high).2

include ends line left between right simple

/-- Such a line is received as it was sent. -/
theorem argumentos_simples : ∃ front : Str, front.length = 6 ∧ cliente.argumentos fim x1 x2 lin =
    front ++ (cliente.caracteres x1 x2 lin ++ ((cliente.textos x1 x2 lin).flatten ++ fim)) := by
  obtain ⟨front, six, eq⟩ := @argumentos_eq fim cliente x1 x2 lin line left between right
  refine ⟨front, six, ?_⟩
  have texts : IsAscii (cliente.textos x1 x2 lin).flatten := by
    intro ch member
    obtain ⟨text, here, inside⟩ := List.mem_flatten.mp member
    exact (textos_simples simple text here).2 ch inside
  have ascii := isAscii_append (isAscii_append (isAscii_caracteres simple) texts) ends
  have sent := Java.decodeLatin1_encodeLatin1 ascii.isLatin1 []
  rw [List.append_nil] at sent
  rw [eq, sent]
  change front ++ reread (_ ++ []) = _
  rw [List.append_nil, Java.reread_ascii ascii, List.append_assoc]

omit ends line left between right simple in
/-- Where the characters of a cell are. -/
theorem getElem?_caracteres {j : ℤ} (low : x1 ≤ j) (high : j ≤ x2) :
    (cliente.caracteres x1 x2 lin)[(j - x1).toNat]? = some (cliente.tela lin j).dado ∧
      (cliente.caracteres x1 x2 lin)[(x2 + 1 - x1).toNat + (j - x1).toNat]? =
        some (cliente.tela lin j).frente ∧
      (cliente.caracteres x1 x2 lin)[(x2 + 1 - x1).toNat * 2 + (j - x1).toNat]? =
        some (cliente.tela lin j).fundo := by
  have size := length_colunas cliente x1 x2 lin
  have column : ∀ campo, (cliente.colunas x1 x2 lin campo)[(j - x1).toNat]? =
      some (campo (cliente.tela lin j)) := by
    intro campo
    have here : (faixa x1 (x2 + 1))[(j - x1).toNat]? = some (x1 + (j - x1).toNat) :=
      getElem?_faixa (by omega)
    have same : x1 + ((j - x1).toNat : ℤ) = j := by omega
    unfold colunas
    rw [List.getElem?_map, here, same]
    rfl
  unfold caracteres
  rw [List.append_assoc]
  refine ⟨?_, ?_, ?_⟩
  · rw [List.getElem?_append_left (by rw [size]; omega)]
    exact column Celula.dado
  · rw [List.getElem?_append_right (by rw [size]; omega), size, Nat.add_sub_cancel_left,
      List.getElem?_append_left (by rw [size]; omega)]
    exact column Celula.frente
  · rw [← List.append_assoc, List.getElem?_append_right (by
      rw [List.length_append, size, size]
      omega), List.length_append, size, size, ← mul_two, Nat.add_sub_cancel_left]
    exact column Celula.fundo

omit ends line left between right simple in
/-- Three characters are sent for each cell. -/
theorem length_caracteres : (cliente.caracteres x1 x2 lin).length = (x2 + 1 - x1).toNat * 3 := by
  have size := length_colunas cliente x1 x2 lin
  unfold caracteres
  rw [List.length_append, List.length_append, size, size, size]
  omega

/-- The cells of such a line are received. -/
theorem tela_linha (t : Terminal) :
    (final (t.inicia.recebeRefresh lin (cliente.argumentos fim x1 x2 lin))).tela = fun a b =>
      if a = lin ∧ x1 ≤ b ∧ b ≤ x2 then cliente.tela a b else t.tela a b := by
  obtain ⟨front, six, eq⟩ := argumentos_simples ends line left between right simple
  have length := @length_caracteres cliente x1 x2 lin
  have places : ∀ {k k' : ℕ} {ch : CodeUnit}, (cliente.caracteres x1 x2 lin)[k]? = some ch →
      k' = front.length + k → (cliente.argumentos fim x1 x2 lin)[k']? = some ch := by
    rintro k k' ch here rfl
    have inside := (List.getElem?_eq_some_iff.mp here).1
    rw [eq, List.getElem?_append_right (Nat.le_add_right _ _), Nat.add_sub_cancel_left,
      List.getElem?_append_left inside]
    exact here
  have attributes : ∀ j, x1 ≤ j → j ≤ x2 → atributoLido (cliente.argumentos fim x1 x2 lin)
      (x2 - x1 + 1) (j - x1) = some (cliente.tela lin j).atributo.toInt := by
    intro j low high
    have column : (faixa x1 (x2 + 1))[(j - x1).toNat]? = some (x1 + (j - x1).toNat) :=
      getElem?_faixa (by omega)
    have same : x1 + ((j - x1).toNat : ℤ) = j := by omega
    have text : (cliente.textos x1 x2 lin)[(j - x1).toNat]? =
        some (formatInt 2 (cliente.tela lin j).atributo.toInt) := by
      unfold textos
      rw [List.getElem?_map, column, same]
      rfl
    obtain ⟨room, found⟩ := @flatten_pairs _ fim (cliente.textos x1 x2 lin) _
      (fun text member => (textos_simples simple text member).1) text
    have first : ((j - x1) * 2 + 6 + (x2 - x1 + 1) * 3).toNat =
        front.length + ((cliente.caracteres x1 x2 lin).length + (j - x1).toNat * 2) := by omega
    have last : ((j - x1) * 2 + 6 + 2 + (x2 - x1 + 1) * 3).toNat =
        front.length + ((cliente.caracteres x1 x2 lin).length + (j - x1).toNat * 2) + 2 := by omega
    have cut : substring (cliente.argumentos fim x1 x2 lin)
        ((j - x1) * 2 + 6 + (x2 - x1 + 1) * 3).toNat
        ((j - x1) * 2 + 6 + 2 + (x2 - x1 + 1) * 3).toNat =
          some (formatInt 2 (cliente.tela lin j).atributo.toInt) := by
      rw [eq, first, last]
      unfold substring
      rw [if_pos ⟨Nat.le_add_right _ 2, by
        rw [List.length_append, List.length_append]
        omega⟩, ← List.drop_drop, List.drop_left, ← List.drop_drop, List.drop_left,
        Nat.add_sub_cancel_left]
      exact congrArg some found
    unfold atributoLido
    rw [cut]
    obtain ⟨low, high⟩ := (simple j low high).atributo
    exact (texto_simples low high).1
  obtain ⟨later, rest, cells⟩ := foldlM_refresca line left right
    (fun j low high => places (getElem?_caracteres low high).1 (by omega))
    (fun j low high => places (getElem?_caracteres low high).2.1 (by omega))
    (fun j low high => places (getElem?_caracteres low high).2.2 (by omega))
    attributes _ t.inicia x1 le_rfl rfl
  rw [tela_recebeRefresh left between right t line, rest]
  funext a b
  exact cells a b

end Simple

/-- A number that is printed ends no line. -/
theorem not_mem_formatInt (width : ℕ) (n : ℤ) : (10 : CodeUnit) ∉ formatInt width n := by
  have digits : ∀ w k, (10 : CodeUnit) ∉ Java.digitUnits (Decimal.fixed w k) := by
    intro w k member
    obtain ⟨d, here, same⟩ := List.mem_map.mp member
    have value := Java.digitUnit_val (Decimal.fixed_lt w k d here)
    rw [same] at value
    change 10 = 48 + d at value
    omega
  unfold formatInt
  split
  · intro member
    rcases List.mem_cons.mp member with minus | later
    · exact absurd minus (by decide)
    · exact digits _ _ later
  · exact digits _ _

/-- The text of a line does not end within. -/
theorem not_mem_corpo {cliente : Terminal} {x1 x2 lin : ℤ}
    (clean : ∀ j, x1 ≤ j → j ≤ x2 → CelulaSemFim (cliente.tela lin j)) :
    10 ∉ cliente.corpo x1 x2 lin := by
  have plain : 10 ∉ cliente.caracteres x1 x2 lin := by
    intro member
    rcases List.mem_append.mp member with front | last
    · rcases List.mem_append.mp front with first | second
      · obtain ⟨j, low, high, same⟩ := mem_colunas first
        exact (clean j low high).1 same.symm
      · obtain ⟨j, low, high, same⟩ := mem_colunas second
        exact (clean j low high).2.1 same.symm
    · obtain ⟨j, low, high, same⟩ := mem_colunas last
      exact (clean j low high).2.2 same.symm
  have texts : (10 : CodeUnit) ∉ (cliente.textos x1 x2 lin).flatten := by
    intro member
    obtain ⟨text, here, inside⟩ := List.mem_flatten.mp member
    obtain ⟨j, _, rfl⟩ := List.mem_map.mp here
    exact not_mem_formatInt _ _ inside
  unfold corpo
  simp only [List.mem_append, not_or]
  exact ⟨not_mem_formatInt _ _, not_mem_formatInt _ _, not_mem_formatInt _ _, plain, texts⟩

/-! ## The rectangle of the client -/

section Whole

variable (letras : CodeUnit → Bool) (partilha : Partilha) {cliente : Terminal}
  (inside : cliente.RegiaoNaTela)

include inside

/-- What the support makes of a rectangle without ends of lines. -/
theorem processaSuporte_transmite (suporte : Terminal)
    (clean : ∀ i j, cliente.NaRegiao i j → CelulaSemFim (cliente.tela i j)) :
    ∃ fim : Str, IsAscii fim ∧ suporte.processaSuporte letras (partilha.transmite cliente) =
      recebeLinhas fim cliente cliente.r.x (cliente.r.x + cliente.r.width - 1)
        (faixa cliente.r.y (cliente.r.y + cliente.r.height)) suporte := by
  obtain ⟨⟨left, right⟩, ⟨above, below⟩, width, height⟩ := inside
  have ends : ∃ fim : Str, partilha.nl = fim ++ [10] ∧ 10 ∉ fim ∧ IsAscii fim := by
    rcases partilha.linha with unix | windows
    · exact ⟨[], unix, List.not_mem_nil, fun _ member => absurd member List.not_mem_nil⟩
    · refine ⟨[13], windows, by decide, fun ch member => ?_⟩
      rw [List.mem_singleton.mp member]
      decide
  obtain ⟨fim, ends, within, ascii⟩ := ends
  have column : int (int (cliente.r.x + cliente.r.width) - 1) =
      cliente.r.x + cliente.r.width - 1 := by
    rw [int_of_small (n := cliente.r.x + cliente.r.width) (by omega) (by omega),
      int_of_small (by omega) (by omega)]
  have line : int (int (cliente.r.y + cliente.r.height) - 1) + 1 =
      cliente.r.y + cliente.r.height := by
    rw [int_of_small (n := cliente.r.y + cliente.r.height) (by omega) (by omega),
      int_of_small (by omega) (by omega)]
    omega
  refine ⟨fim, ascii, ?_⟩
  unfold Partilha.transmite compartilha
  dsimp only
  rw [column, line]
  refine processaSuporte_lines partilha ends within left (by omega) (by omega) letras suporte ?_
  intro lin member
  have inside := mem_faixa.mp member
  refine ⟨by omega, not_mem_corpo fun j low high => clean lin j ⟨inside.1, inside.2, low, ?_⟩⟩
  omega

omit inside in
/-- What arrives as it is has no ends of lines in it. -/
theorem Chega.semFim (arrives : Chega letras partilha cliente) {i j : ℤ}
    (place : cliente.NaRegiao i j) : CelulaSemFim (cliente.tela i j) := by
  have blank : CelulaSemFim ⟨unit ' ', 0, unit 'b', unit 'W'⟩ :=
    ⟨by decide, by decide, by decide⟩
  have start : novo.SemFim := fun _ _ => blank
  have later := start.processaSuporte letras (partilha.transmite cliente) i j
  rw [(arrives novo i j).1 place] at later
  exact later

/-- What arrives at a terminal that differs in every part of its cells was read there. -/
theorem Chega.linhaLida (arrives : Chega letras partilha cliente) {lin : ℤ}
    (line : cliente.r.y ≤ lin ∧ lin < cliente.r.y + cliente.r.height) :
    ∃ fim : Str, LinhaLida
      (cliente.argumentos fim cliente.r.x (cliente.r.x + cliente.r.width - 1) lin) cliente
        cliente.r.x (cliente.r.x + cliente.r.width - 1) lin := by
  obtain ⟨fim, _, run⟩ := processaSuporte_transmite letras partilha inside cliente.avesso
    fun i j place => arrives.semFim letras partilha place
  obtain ⟨⟨left, right⟩, ⟨above, below⟩, width, height⟩ := inside
  have lines : ∀ lin ∈ faixa cliente.r.y (cliente.r.y + cliente.r.height), 0 ≤ lin ∧ lin < 25 := by
    intro lin member
    have inside := mem_faixa.mp member
    omega
  have read := @lida_recebeLinhas fim cliente cliente.r.x (cliente.r.x + cliente.r.width - 1) left
    (by omega) (by omega) cliente.avesso _ _ lines (Lida.refl _ _ _ cliente.avesso)
  rw [← run] at read
  have row : ∀ k, cliente.r.x ≤ k → k ≤ cliente.r.x + cliente.r.width - 1 →
      (cliente.avesso.processaSuporte letras (partilha.transmite cliente)).tela lin k =
        cliente.tela lin k := fun k low high =>
    (arrives cliente.avesso lin k).1 ⟨line.1, line.2, low, by omega⟩
  refine ⟨fim, ?_, ?_, ?_, ?_⟩
  all_goals intro k low high
  · have here := read.dado lin k
    rw [row k low high] at here
    exact here.resolve_left (unit_ne_succ _)
  · have here := read.frente lin k
    rw [row k low high] at here
    exact here.resolve_left (unit_ne_succ _)
  · have here := read.fundo lin k
    rw [row k low high] at here
    exact here.resolve_left (unit_ne_succ _)
  · have here := read.atributo lin k
    rw [row k low high] at here
    exact here.resolve_left (bits_ne_succ _)

/-- When a rectangle arrives its cells are simple. -/
theorem Chega.simples (arrives : Chega letras partilha cliente) {i j : ℤ}
    (place : cliente.NaRegiao i j) : CelulaSimples (cliente.tela i j) := by
  obtain ⟨fim, lida⟩ := arrives.linhaLida letras partilha inside ⟨place.1, place.2.1⟩
  have clean := arrives.semFim letras partilha place
  obtain ⟨⟨left, right⟩, ⟨above, below⟩, width, height⟩ := inside
  obtain ⟨first, last, low, high⟩ := place
  have ascii := lida.isAscii (by omega) left (by omega) (by omega)
  obtain ⟨dado, frente, fundo⟩ := @getElem?_caracteres cliente cliente.r.x
    (cliente.r.x + cliente.r.width - 1) i j low (by omega)
  obtain ⟨a, read, same⟩ := lida.atributo j low (by omega)
  have small := atributoLido_small (by omega) (by omega) read
  have value : (cliente.tela i j).atributo.toInt = a := by
    rw [same, BitVec.toInt_ofInt]
    exact Int.bmod_eq_of_le_mul_two (by omega) (by omega)
  rw [← value] at small
  exact ⟨⟨ascii _ (List.mem_of_getElem? dado), clean.1⟩,
    ⟨ascii _ (List.mem_of_getElem? frente), clean.2.1⟩,
    ⟨ascii _ (List.mem_of_getElem? fundo), clean.2.2⟩, small⟩

omit inside in
/-- The lines of a rectangle of such cells are received. -/
theorem tela_recebeLinhas {fim : Str} (ends : IsAscii fim) {x1 x2 : ℤ} (left : 0 ≤ x1)
    (between : x1 ≤ x2) (right : x2 < 80) :
    ∀ (lines : List ℤ) (t : Terminal), (∀ lin ∈ lines, (0 ≤ lin ∧ lin < 25) ∧
        ∀ j, x1 ≤ j → j ≤ x2 → CelulaSimples (cliente.tela lin j)) →
      (recebeLinhas fim cliente x1 x2 lines t).tela = fun a b =>
        if a ∈ lines ∧ x1 ≤ b ∧ b ≤ x2 then cliente.tela a b else t.tela a b := by
  intro lines
  induction lines with
  | nil =>
      intro t _
      funext a b
      exact (if_neg fun inside => List.not_mem_nil inside.1).symm
  | cons lin lines ih =>
      intro t inside
      obtain ⟨⟨line, simple⟩, later⟩ := List.forall_mem_cons.mp inside
      have here := tela_linha ends line left between right simple t
      have rest := ih (final (t.inicia.recebeRefresh lin (cliente.argumentos fim x1 x2 lin))) later
      refine rest.trans ?_
      rw [here]
      funext a b
      by_cases member : a ∈ lines ∧ x1 ≤ b ∧ b ≤ x2
      · rw [if_pos member, if_pos ⟨List.mem_cons_of_mem _ member.1, member.2⟩]
      · rw [if_neg member]
        dsimp only
        by_cases now : a = lin ∧ x1 ≤ b ∧ b ≤ x2
        · rw [if_pos now, if_pos ⟨List.mem_cons.mpr (Or.inl now.1), now.2⟩]
        · rw [if_neg now, if_neg]
          rintro ⟨first | _, column⟩
          · exact now ⟨rfl, column⟩
          · rename_i after
            exact member ⟨after, column⟩

/-- The rectangle that has changed arrives at every support just when its cells have characters of
one byte and attributes of two characters. -/
theorem chega_iff : Chega letras partilha cliente ↔
    ∀ i j, cliente.NaRegiao i j → CelulaSimples (cliente.tela i j) := by
  refine ⟨fun arrives i j place => arrives.simples letras partilha inside place,
    fun simple suporte i j => ?_⟩
  obtain ⟨fim, ends, run⟩ := processaSuporte_transmite letras partilha inside suporte
    fun i j place => ⟨(simple i j place).dado.2, (simple i j place).frente.2,
      (simple i j place).fundo.2⟩
  obtain ⟨⟨left, right⟩, ⟨above, below⟩, width, height⟩ := inside
  have cells := @tela_recebeLinhas cliente fim ends cliente.r.x (cliente.r.x + cliente.r.width - 1)
    left (by omega) (by omega) (faixa cliente.r.y (cliente.r.y + cliente.r.height)) suporte
    (fun lin member => by
      have inside := mem_faixa.mp member
      exact ⟨by omega, fun j low high => simple lin j ⟨inside.1, inside.2, low, by omega⟩⟩)
  dsimp only
  rw [run, cells]
  constructor
  · intro place
    exact if_pos ⟨mem_faixa.mpr ⟨place.1, place.2.1⟩, place.2.2.1, by have := place.2.2.2; omega⟩
  · intro outside
    refine if_neg fun inside => outside ?_
    have line := mem_faixa.mp inside.1
    exact ⟨line.1, line.2, inside.2.1, by have := inside.2.2; omega⟩

end Whole

/-- A session with its support. -/
def partilha : Partilha where
  nl := [10]
  agente := { Agente.novo 1 1 with quadro := some .vazio, sockSuporte := some 0 }
  lendo := rfl
  linha := Or.inl rfl
  pronto := rfl
  atende := rfl
  sessao := by decide
  chave := by decide

/-- A terminal that has received a buffer. -/
def recebeu (buffer : List Octet) : Terminal := final (novo.atualiza (fun _ => false) buffer)

/-- `Cod`, then `Ab` bold in yellow on blue, and `9` on the next line as at the beginning. -/
def colorido : List Octet :=
  [67, 111, 100, 27, 91, 49, 109, 27, 91, 51, 51, 109, 27, 91, 52, 52, 109, 65, 98, 13, 10,
    27, 91, 109, 57]

instance (celula : Celula) : Decidable (CelulaSimples celula) :=
  decidable_of_iff
    ((celula.dado.val < 128 ∧ celula.dado ≠ 10) ∧ (celula.frente.val < 128 ∧ celula.frente ≠ 10) ∧
      (celula.fundo.val < 128 ∧ celula.fundo ≠ 10) ∧
      -10 < celula.atributo.toInt ∧ celula.atributo.toInt < 100)
    ⟨fun ⟨dado, frente, fundo, atributo⟩ => ⟨dado, frente, fundo, atributo⟩,
      fun simples => ⟨simples.dado, simples.frente, simples.fundo, simples.atributo⟩⟩

/-- The two lines arrive, with their colours and attributes. -/
theorem chega_iff_coloured : ((recebeu colorido).tela 0 3 = ⟨unit 'A', 4, unit 'Y', unit 'B'⟩ ∧
    (recebeu colorido).tela 1 0 = ⟨unit '9', 0, unit 'W', unit 'b'⟩) ∧
    Chega (fun _ => false) partilha (recebeu colorido) := by
  have region : (recebeu colorido).r = ⟨0, 0, 6, 2⟩ := by decide +kernel
  have inside : (recebeu colorido).RegiaoNaTela := by
    constructor <;> rw [region] <;> decide
  have cells : ∀ n < 2, ∀ m < 6, CelulaSimples ((recebeu colorido).tela (n : ℕ) (m : ℕ)) := by
    decide +kernel
  refine ⟨⟨by decide +kernel, by decide +kernel⟩,
    (chega_iff (fun _ => false) partilha inside).mpr fun i j place => ?_⟩
  rw [NaRegiao, region] at place
  obtain ⟨above, below, left, right⟩ := place
  lift i to ℕ using above
  lift j to ℕ using left
  exact cells i (by dsimp only at below; omega) j (by dsimp only at right; omega)

/-- An accented letter does not arrive. -/
theorem accent_fails : (recebeu [195, 169]).RegiaoNaTela ∧
    ¬ Chega (fun _ => false) partilha (recebeu [195, 169]) := by
  have inside : (recebeu [195, 169]).RegiaoNaTela :=
    ⟨by decide +kernel, by decide +kernel, by decide +kernel, by decide +kernel⟩
  refine ⟨inside, fun arrives => ?_⟩
  have place : (recebeu [195, 169]).NaRegiao 0 0 :=
    ⟨by decide +kernel, by decide +kernel, by decide +kernel, by decide +kernel⟩
  have simple := (arrives.simples (fun _ => false) partilha inside place).dado.1
  have letter : ((recebeu [195, 169]).tela 0 0).dado.val = 233 := by decide +kernel
  omega

end Terminal

end Pqfh
