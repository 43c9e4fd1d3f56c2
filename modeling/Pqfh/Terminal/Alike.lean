import Pqfh.Terminal.Painted
import Pqfh.Terminal.Receive

/-! # Terminals that are alike

What the terminal does with a character depends neither on the rectangle that is to be painted nor
on the marks that painting leaves: two terminals that differ in these only take the same branch at
every character, and differ in these only afterwards (`Pqfh.Terminal.caractere_alike`).
-/

namespace Pqfh

open Abrupt (Keeps Raises Rel final)
open Java (CodeUnit Str int lit unit)

namespace Terminal

/-- Two terminals that differ in the rectangle, and in some bits of the attributes in the matrices,
at most. -/
def Igual (bits : BitVec 32) (t other : Terminal) : Prop :=
  other = { t with tela := other.tela, r := other.r } ∧
    ∀ i j, (other.tela i j).sem bits = (t.tela i j).sem bits

section Alike

variable {bits : BitVec 32} {t other : Terminal}

/-- A terminal is equal to itself. -/
theorem Igual.refl (t : Terminal) : t.Igual bits t := ⟨rfl, fun _ _ => rfl⟩

/-- Equal terminals have one cursor and one sequence. -/
theorem Igual.fields (alike : t.Igual bits other) : other.estado = t.estado ∧ other.lin = t.lin ∧
    other.col = t.col ∧ other.seq = t.seq ∧ other.iseq = t.iseq := by
  rw [alike.1]
  exact ⟨rfl, rfl, rfl, rfl, rfl⟩

/-- To be equal goes both ways. -/
theorem Igual.symm (alike : t.Igual bits other) : other.Igual bits t := by
  refine ⟨?_, fun i j => (alike.2 i j).symm⟩
  rw [alike.1]

/-- Terminals equal to one are equal. -/
theorem Igual.trans {last : Terminal} (first : t.Igual bits other)
    (second : other.Igual bits last) : t.Igual bits last := by
  refine ⟨?_, fun i j => (second.2 i j).trans (first.2 i j)⟩
  have same := second.1
  rw [first.1] at same
  exact same

/-- The rectangle is not compared. -/
theorem Igual.alteraRegiao (alike : t.Igual bits other) (x y : ℤ) :
    (t.alteraRegiao x y).Igual bits (other.alteraRegiao x y) := by
  obtain ⟨same, cells⟩ := alike
  refine ⟨?_, cells⟩
  unfold Terminal.alteraRegiao
  rw [same]

/-- A new rectangle is not compared either. -/
theorem Igual.inicia (alike : t.Igual bits other) : t.Igual bits other.inicia :=
  ⟨by unfold Terminal.inicia; rw [alike.1], alike.2⟩

/-- The cursor is moved alike. -/
theorem Igual.move (alike : t.Igual bits other) (lin col : ℤ) :
    { t with lin := lin, col := col }.Igual bits { other with lin := lin, col := col } :=
  ⟨by rw [alike.1], alike.2⟩

/-- Equal terminals go to one line. -/
theorem Igual.moveLin (alike : t.Igual bits other) (lin : ℤ) :
    { t with lin := lin }.Igual bits { other with lin := lin } :=
  ⟨by rw [alike.1], alike.2⟩

/-- Equal terminals go to one column. -/
theorem Igual.moveCol (alike : t.Igual bits other) (col : ℤ) :
    { t with col := col }.Igual bits { other with col := col } :=
  ⟨by rw [alike.1], alike.2⟩

/-- Equal terminals may take one sequence. -/
theorem Igual.parser (alike : t.Igual bits other) (estado : Estado) (seq : Str) (iseq : ℕ) :
    { t with estado := estado, seq := seq, iseq := iseq }.Igual bits
      { other with estado := estado, seq := seq, iseq := iseq } :=
  ⟨by rw [alike.1], alike.2⟩

/-! ## The matrices -/

/-- A cell is written to equal terminals in the same way. -/
theorem grava_alike (alike : t.Igual bits other) (i j : ℤ) {celula celula' : Celula}
    (same : celula'.sem bits = celula.sem bits) :
    Rel (Igual bits) (t.grava i j celula) (other.grava i j celula') := by
  unfold grava
  refine Rel.ite (fun _ => .ok ⟨?_, fun a b => ?_⟩) fun _ => .error alike
  · unfold set
    rw [alike.1]
  · change Celula.sem bits (if a = i ∧ b = j then celula' else other.tela a b) =
      Celula.sem bits (if a = i ∧ b = j then celula else t.tela a b)
    split
    · exact same
    · exact alike.2 a b

/-- Equal terminals write a character with the same colours and attributes. -/
theorem Igual.celula (alike : t.Igual bits other) (ch : CodeUnit) :
    other.celula ch = t.celula ch := by
  unfold Terminal.celula
  rw [alike.1]

/-- A line is cleared in equal terminals in the same way. -/
theorem limpaLinha_alike (alike : t.Igual bits other) (first i : ℤ) :
    Rel (Igual bits) (t.limpaLinha first i) (other.limpaLinha first i) := by
  refine Rel.foldlM (fun s s' j alike => ?_) alike
  unfold limpa
  rw [alike.celula]
  exact grava_alike alike i j rfl

/-- Equal terminals scroll in the same way. -/
theorem scroll_alike (alike : t.Igual bits other) : Rel (Igual bits) t.scroll other.scroll := by
  unfold scroll
  refine Rel.bind (Rel.foldlM (fun s s' i alike => ?_) alike) fun s s' alike => ?_
  · rw [alike.fields.2.2.1]
    exact Rel.foldlM (fun s s' j alike => grava_alike alike i j (alike.2 (i + 1) j)) alike
  · rw [alike.fields.2.2.1]
    exact limpaLinha_alike alike _ _

/-! ## Escape sequences -/

/-- A move up is the same in equal terminals. -/
theorem cursorUp_alike (alike : t.Igual bits other) (prms : Str) :
    Rel (Igual bits) (t.cursorUp prms) (other.cursorUp prms) := by
  unfold cursorUp
  rw [alike.fields.2.1]
  refine Rel.ite (fun _ => ?_) fun _ => .ok alike
  cases quantos prms with
  | none => exact .error alike
  | some n => exact .ok ((alike.moveLin _).alteraRegiao _ _)

/-- A move down is the same in equal terminals. -/
theorem cursorDown_alike (alike : t.Igual bits other) (prms : Str) :
    Rel (Igual bits) (t.cursorDown prms) (other.cursorDown prms) := by
  unfold cursorDown
  rw [alike.fields.2.1]
  refine Rel.ite (fun _ => ?_) fun _ => .ok alike
  cases quantos prms with
  | none => exact .error alike
  | some n => exact .ok ((alike.moveLin _).alteraRegiao _ _)

/-- A move to the right is the same in equal terminals. -/
theorem cursorForward_alike (alike : t.Igual bits other) (prms : Str) :
    Rel (Igual bits) (t.cursorForward prms) (other.cursorForward prms) := by
  unfold cursorForward
  rw [alike.fields.2.2.1]
  cases quantos prms with
  | none => exact .error alike
  | some n => exact .ok ((alike.moveCol _).alteraRegiao _ _)

/-- A move to the left is the same in equal terminals. -/
theorem cursorBackward_alike (alike : t.Igual bits other) (prms : Str) :
    Rel (Igual bits) (t.cursorBackward prms) (other.cursorBackward prms) := by
  unfold cursorBackward
  rw [alike.fields.2.2.1]
  cases quantos prms with
  | none => exact .error alike
  | some n => exact .ok ((alike.moveCol _).alteraRegiao _ _)

/-- A jump is the same in equal terminals. -/
theorem home_alike (alike : t.Igual bits other) (prms : Str) :
    Rel (Igual bits) (t.home prms) (other.home prms) := by
  unfold home
  refine Rel.ite (fun _ => ?_) fun _ => .ok ((alike.move 0 0).alteraRegiao _ _)
  dsimp only
  cases coordenada (Java.split prms (unit ';')) 0 with
  | none => exact .error alike
  | some lin =>
      cases coordenada (Java.split prms (unit ';')) 1 with
      | none =>
          refine .error ⟨?_, alike.2⟩
          rw [alike.1]
      | some col => exact .ok ((alike.move lin col).alteraRegiao _ _)

/-- Clearing the screen is the same in equal terminals. -/
theorem clear_alike (alike : t.Igual bits other) (prms : Str) :
    Rel (Igual bits) (t.clear prms) (other.clear prms) := by
  unfold clear
  refine Rel.bind (Rel.ite (fun _ => home_alike alike []) fun _ => .ok alike) fun s s' first => ?_
  have line := limpaLinha_alike first s.col s.lin
  rw [first.fields.2.2.1, first.fields.2.1]
  refine line.bind fun s s' line => ?_
  rw [line.fields.2.1, alike.fields.2.2.1]
  refine Rel.bind (Rel.foldlM (fun s s' i alike => limpaLinha_alike alike 0 i) line)
    fun s s' later => ?_
  exact .ok ((later.alteraRegiao _ _).alteraRegiao _ _)

/-- Clearing a line is the same in equal terminals. -/
theorem el_alike (alike : t.Igual bits other) : Rel (Igual bits) t.el other.el := by
  unfold el
  have line := limpaLinha_alike alike t.col t.lin
  rw [alike.fields.2.2.1, alike.fields.2.1]
  exact line.bind fun s s' later => .ok (later.alteraRegiao _ _)

/-- An attribute is applied in the same way. -/
theorem aplica_alike {now now' : Terminal × BitVec 32} (alike : now.1.Igual bits now'.1)
    (same : now'.2 = now.2) (atr : Str) :
    (aplica now atr).1.Igual bits (aplica now' atr).1 ∧
      (aplica now' atr).2 = (aplica now atr).2 := by
  unfold aplica
  rw [same]
  cases Atributo.todos.lookup atr with
  | none => exact ⟨alike, same⟩
  | some atributo => cases atributo <;> exact ⟨⟨by rw [alike.1], alike.2⟩, rfl⟩

/-- The attributes of a sequence are the same in equal terminals. -/
theorem setaAtributos_alike (alike : t.Igual bits other) (seq : Str) :
    (t.setaAtributos seq).Igual bits (other.setaAtributos seq) := by
  unfold setaAtributos
  generalize Java.split _ _ = atrs
  have same : other.atributo = t.atributo := by rw [alike.1]
  have start : (t, t.atributo).1.Igual bits (other, other.atributo).1 := alike
  have starts : (other, other.atributo).2 = (t, t.atributo).2 := same
  generalize (t, t.atributo) = now at start starts ⊢
  generalize (other, other.atributo) = now' at start starts ⊢
  induction atrs generalizing now now' with
  | nil => exact start
  | cons atr atrs ih =>
      obtain ⟨next, nexts⟩ := aplica_alike start starts atr
      exact ih (aplica now atr) (aplica now' atr) next nexts

/-- A command is the same in equal terminals. -/
theorem comando_alike (alike : t.Igual bits other) (prms : Str) (ch : CodeUnit) :
    Rel (Igual bits) (t.comando prms ch) (other.comando prms ch) := by
  unfold comando
  rw [alike.fields.2.2.2.1]
  refine Rel.ite (fun _ => cursorUp_alike alike prms) fun _ => ?_
  refine Rel.ite (fun _ => cursorDown_alike alike prms) fun _ => ?_
  refine Rel.ite (fun _ => cursorForward_alike alike prms) fun _ => ?_
  refine Rel.ite (fun _ => cursorBackward_alike alike prms) fun _ => ?_
  refine Rel.ite (fun _ => home_alike alike prms) fun _ => ?_
  refine Rel.ite (fun _ => clear_alike alike prms) fun _ => ?_
  refine Rel.ite (fun _ => el_alike alike) fun _ => ?_
  exact Rel.ite (fun _ => .ok (setaAtributos_alike alike t.seq)) fun _ => .ok alike

/-- A sequence is executed in the same way in equal terminals. -/
theorem processaSeq_alike (alike : t.Igual bits other) (ch : CodeUnit) :
    Rel (Igual bits) (t.processaSeq ch) (other.processaSeq ch) := by
  unfold processaSeq
  rw [alike.fields.2.2.2.1]
  cases parametros t.seq with
  | none => exact .error alike
  | some prms => exact comando_alike alike prms ch

/-! ## Characters -/

/-- A character is shown in the same way in equal terminals. -/
theorem mostraCaractere_alike (alike : t.Igual bits other) (ch : CodeUnit) :
    Rel (Igual bits) (t.mostraCaractere ch) (other.mostraCaractere ch) := by
  unfold mostraCaractere
  rw [alike.fields.2.1, alike.fields.2.2.1, alike.celula]
  refine (grava_alike alike t.lin t.col rfl).bind fun s s' alike => ?_
  rw [alike.fields.2.1, alike.fields.2.2.1]
  exact Rel.ite (fun _ => .ok ((alike.move _ _).alteraRegiao _ _))
    fun _ => .ok ((alike.move _ _).alteraRegiao _ _)

/-- A line feed is the same in equal terminals. -/
theorem avanca_alike (alike : t.Igual bits other) : Rel (Igual bits) t.avanca other.avanca := by
  unfold avanca
  rw [alike.fields.2.1]
  refine Rel.ite (fun _ => .ok ((alike.moveLin _).alteraRegiao _ _)) fun _ => ?_
  exact (scroll_alike alike).bind fun s s' alike => .ok (alike.alteraRegiao _ _)

/-- A backspace is the same in equal terminals. -/
theorem volta_alike (alike : t.Igual bits other) : Rel (Igual bits) t.volta other.volta := by
  unfold volta
  rw [alike.fields.2.2.1]
  refine Rel.ite (fun _ => ?_) fun _ => .ok alike
  have back := alike.move t.lin (t.col - 1)
  have cell : ∀ i j, Celula.sem bits { other.tela i j with dado := unit ' ' } =
      Celula.sem bits { t.tela i j with dado := unit ' ' } := fun i j =>
    congrArg (fun celula : Celula => { celula with dado := unit ' ' }) (alike.2 i j)
  have written := grava_alike back t.lin (t.col - 1) (cell t.lin (t.col - 1))
  dsimp only at written ⊢
  rw [alike.fields.2.1]
  refine written.bind fun s s' alike => ?_
  rw [alike.fields.2.2.1]
  exact .ok (alike.alteraRegiao _ _)

/-- A character of a text is the same in equal terminals. -/
theorem texto_alike (alike : t.Igual bits other) (ch : CodeUnit) :
    Rel (Igual bits) (t.texto ch) (other.texto ch) := by
  unfold texto
  refine Rel.ite (fun _ => .ok ((alike.moveCol 0).alteraRegiao _ _)) fun _ => ?_
  refine Rel.ite (fun _ => avanca_alike alike) fun _ => ?_
  refine Rel.ite (fun _ => volta_alike alike) fun _ => ?_
  refine Rel.ite (fun _ => .ok ⟨by rw [alike.1], alike.2⟩) fun _ => ?_
  exact Rel.ite (fun _ => .ok alike) fun _ => mostraCaractere_alike alike ch

/-- A character of a sequence is kept in the same way in equal terminals. -/
theorem acumula_alike (alike : t.Igual bits other) (ch : CodeUnit) :
    Rel (Igual bits) (t.acumula ch) (other.acumula ch) := by
  unfold acumula
  rw [alike.fields.2.2.2.2, alike.fields.2.2.2.1]
  exact Rel.ite (fun _ => .ok ⟨by rw [alike.1], alike.2⟩) fun _ => .error ⟨by rw [alike.1], alike.2⟩

/-- The end of a sequence is the same in equal terminals. -/
theorem encerra_alike (alike : t.Igual bits other) (un : Bool) (ch : CodeUnit) :
    Rel (Igual bits) (t.encerra un ch) (other.encerra un ch) := by
  unfold encerra
  refine (processaSeq_alike alike ch).bind fun s s' alike => ?_
  have goes : s'.Executa un ↔ s.Executa un := by unfold Executa; rw [alike.fields.2.2.2.1]
  simp only [goes]
  exact Rel.ite (fun _ => .ok ⟨by rw [alike.1], alike.2⟩) fun _ => .ok (alike.parser _ _ _)

/-- A character has the same effect on terminals that are alike. -/
theorem caractere_alike (letras : CodeUnit → Bool) (un : Bool) (alike : t.Igual bits other)
    (ch : CodeUnit) :
    Rel (Igual bits) (caractere letras un t ch) (caractere letras un other ch) := by
  unfold caractere
  rw [alike.fields.1]
  cases t.estado with
  | inicial => exact texto_alike alike ch
  | esc =>
      unfold escape
      refine (acumula_alike alike ch).bind fun s s' alike => ?_
      exact Rel.ite (fun _ => encerra_alike alike un ch) fun _ => .ok alike
  | exec =>
      unfold comandoExec
      refine (acumula_alike alike ch).bind fun s s' alike => .ok ?_
      split
      · exact ⟨by rw [alike.1], alike.2⟩
      · exact alike

end Alike

end Terminal

end Pqfh
