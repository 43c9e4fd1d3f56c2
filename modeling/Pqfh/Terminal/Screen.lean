import Pqfh.Core.Bytes
import Pqfh.Foundation.Abrupt
import Pqfh.Foundation.JavaText

/-! # The screen of the terminal

The terminal keeps four matrices (the characters, their attributes, and the two colours), the place
of the cursor, and the rectangle that is to be painted. An access outside the matrices throws an
exception, which leaves the terminal as it is by then.
-/

namespace Pqfh

open Java (CodeUnit Str int int_of_small unit)

/-- What the matrices hold at a place. -/
structure Celula where
  dado : CodeUnit
  atributo : BitVec 32
  frente : CodeUnit
  fundo : CodeUnit
  deriving Repr, DecidableEq

/-- A rectangle of the screen. -/
structure Regiao where
  x : ℤ
  y : ℤ
  width : ℤ
  height : ℤ
  deriving Repr, DecidableEq

/-- `ESTADO_INICIAL`, `ESTADO_ESC` and `ESTADO_EXEC`. -/
inductive Estado where
  | inicial
  | esc
  | exec
  deriving Repr, DecidableEq

/-- `Terminal`. Of the array `seq` it has the characters that were stored since `iseq` was 0. -/
structure Terminal where
  tela : ℤ → ℤ → Celula
  estado : Estado
  lin : ℤ
  col : ℤ
  seq : Str
  iseq : ℕ
  r : Regiao
  atributo : BitVec 32
  corFrente : CodeUnit
  corFundo : CodeUnit

/-- What comes of a step: the next state, or the state in which an exception leaves the terminal. -/
abbrev Resultado := Except Terminal Terminal

/-- The places of a loop `for (int j = first; j < stop; j++)`. -/
def faixa (first stop : ℤ) : List ℤ := (List.range (stop - first).toNat).map fun k : ℕ => first + k

theorem mem_faixa {first stop j : ℤ} : j ∈ faixa first stop ↔ first ≤ j ∧ j < stop := by
  unfold faixa
  rw [List.mem_map]
  constructor
  · rintro ⟨k, member, rfl⟩
    have below := List.mem_range.mp member
    omega
  · intro inside
    exact ⟨(j - first).toNat, List.mem_range.mpr (by omega), by omega⟩

theorem faixa_cons {first stop : ℤ} (below : first < stop) :
    faixa first stop = first :: faixa (first + 1) stop := by
  have size : (stop - first).toNat = (stop - (first + 1)).toNat + 1 := by omega
  unfold faixa
  rw [size, List.range_succ_eq_map, List.map_cons, List.map_map]
  refine congrArg₂ List.cons (add_zero first) (List.map_congr_left fun k _ => ?_)
  change first + ((k + 1 : ℕ) : ℤ) = first + 1 + k
  omega

/-! ## The rectangle -/

namespace Regiao

/-- The whole screen. -/
def tela : Regiao := ⟨0, 0, 80, 25⟩

/-- The columns of `alteraRegiao`. -/
def alteraX (r : Regiao) (x : ℤ) : Regiao :=
  let dif := int (r.x - x)
  let r := if x < r.x then { r with x := int (r.x - dif), width := int (r.width + dif) } else r
  if int (r.x + r.width) ≤ x then { r with width := int (int (x - r.x) + 1) } else r

/-- The lines of `alteraRegiao`. A line above the rectangle adds to its width, not to its height. -/
def alteraY (r : Regiao) (y : ℤ) : Regiao :=
  let dif := int (r.y - y)
  let r := if y < r.y then { r with y := int (r.y - dif), width := int (r.width + dif) } else r
  if int (r.y + r.height) ≤ y then { r with height := int (int (y - r.y) + 1) } else r

def altera (r : Regiao) (x y : ℤ) : Regiao :=
  if x = -1 ∧ y = -1 then tela
  else
    let r := if x = -1 then r else r.alteraX x
    if y = -1 then r else r.alteraY y

end Regiao

/-- A rectangle that can be reached. A line above it makes it wider. -/
structure Regiao.Valida (r : Regiao) : Prop where
  x : 0 ≤ r.x ∧ r.x < 80
  y : 0 ≤ r.y ∧ r.y < 25
  width : 1 ≤ r.width ∧ r.x + r.width + r.y ≤ 104
  height : 1 ≤ r.height ∧ r.y + r.height ≤ 25

namespace Regiao

theorem valida_tela : tela.Valida := by
  constructor <;> decide

/-- What `alteraX` makes of a rectangle on the screen. -/
theorem Valida.alteraX_eq {r : Regiao} (valida : r.Valida) {x : ℤ} (inside : 0 ≤ x ∧ x < 80) :
    r.alteraX x =
      if x < r.x then { r with x := x, width := r.width + (r.x - x) }
      else if r.x + r.width ≤ x then { r with width := x - r.x + 1 } else r := by
  obtain ⟨rx, ry, width, _⟩ := valida
  have dif : int (r.x - x) = r.x - x := int_of_small (by omega) (by omega)
  have back : int (x - r.x) = x - r.x := int_of_small (by omega) (by omega)
  unfold Regiao.alteraX
  by_cases left : x < r.x
  · have first : int (r.x - (r.x - x)) = x := by rw [sub_sub_cancel, int_of_small] <;> omega
    have wide : int (r.width + (r.x - x)) = r.width + (r.x - x) :=
      int_of_small (by omega) (by omega)
    have stop : int (x + (r.width + (r.x - x))) = r.width + r.x := by
      rw [int_of_small] <;> omega
    simp only [if_pos left, dif, first, wide, stop]
    exact if_neg (by omega)
  · have stop : int (r.x + r.width) = r.x + r.width := int_of_small (by omega) (by omega)
    have wide : int (x - r.x + 1) = x - r.x + 1 := int_of_small (by omega) (by omega)
    simp only [if_neg left, stop, back, wide]

theorem Valida.alteraY_eq {r : Regiao} (valida : r.Valida) {y : ℤ} (inside : 0 ≤ y ∧ y < 25) :
    r.alteraY y =
      if y < r.y then { r with y := y, width := r.width + (r.y - y) }
      else if r.y + r.height ≤ y then { r with height := y - r.y + 1 } else r := by
  obtain ⟨rx, ry, width, height⟩ := valida
  have dif : int (r.y - y) = r.y - y := int_of_small (by omega) (by omega)
  have back : int (y - r.y) = y - r.y := int_of_small (by omega) (by omega)
  unfold Regiao.alteraY
  by_cases above : y < r.y
  · have first : int (r.y - (r.y - y)) = y := by rw [sub_sub_cancel, int_of_small] <;> omega
    have wide : int (r.width + (r.y - y)) = r.width + (r.y - y) :=
      int_of_small (by omega) (by omega)
    have stop : int (y + r.height) = y + r.height := int_of_small (by omega) (by omega)
    simp only [if_pos above, dif, first, wide, stop]
    exact if_neg (by omega)
  · have stop : int (r.y + r.height) = r.y + r.height := int_of_small (by omega) (by omega)
    have tall : int (y - r.y + 1) = y - r.y + 1 := int_of_small (by omega) (by omega)
    simp only [if_neg above, stop, back, tall]

theorem Valida.alteraX {r : Regiao} (valida : r.Valida) {x : ℤ} (inside : 0 ≤ x ∧ x < 80) :
    (r.alteraX x).Valida := by
  rw [valida.alteraX_eq inside]
  obtain ⟨rx, ry, width, height⟩ := valida
  split
  · constructor <;> dsimp only <;> omega
  · split
    · constructor <;> dsimp only <;> omega
    · exact ⟨rx, ry, width, height⟩

theorem Valida.alteraY {r : Regiao} (valida : r.Valida) {y : ℤ} (inside : 0 ≤ y ∧ y < 25) :
    (r.alteraY y).Valida := by
  rw [valida.alteraY_eq inside]
  obtain ⟨rx, ry, width, height⟩ := valida
  split
  · constructor <;> dsimp only <;> omega
  · split
    · constructor <;> dsimp only <;> omega
    · exact ⟨rx, ry, width, height⟩

/-- A place on the screen is added, or the whole of it. -/
theorem Valida.altera {r : Regiao} (valida : r.Valida) {x y : ℤ} (column : -1 ≤ x ∧ x < 80)
    (line : -1 ≤ y ∧ y < 25) : (r.altera x y).Valida := by
  have across : (if x = -1 then r else r.alteraX x).Valida := by
    split
    · exact valida
    · exact valida.alteraX (by omega)
  unfold Regiao.altera
  split
  · exact valida_tela
  · dsimp only
    split
    · exact across
    · exact across.alteraY (by omega)

end Regiao

namespace Terminal

/-- A place of the matrices. -/
def NaTela (i j : ℤ) : Prop := 0 ≤ i ∧ i < 25 ∧ 0 ≤ j ∧ j < 80

instance (i j : ℤ) : Decidable (NaTela i j) :=
  inferInstanceAs (Decidable (0 ≤ i ∧ i < 25 ∧ 0 ≤ j ∧ j < 80))

def alteraRegiao (t : Terminal) (x y : ℤ) : Terminal := { t with r := t.r.altera x y }

/-- A cell is written. -/
def set (t : Terminal) (i j : ℤ) (celula : Celula) : Terminal :=
  { t with tela := fun a b => if a = i ∧ b = j then celula else t.tela a b }

/-- A cell is written, when there is such a place. -/
def grava (t : Terminal) (i j : ℤ) (celula : Celula) : Resultado :=
  if NaTela i j then .ok (t.set i j celula) else .error t

/-- A character with the attributes and the colours that are set. -/
def celula (t : Terminal) (ch : CodeUnit) : Celula := ⟨ch, t.atributo, t.corFrente, t.corFundo⟩

/-- A turn of the loops that clear. -/
def limpa (i : ℤ) (t : Terminal) (j : ℤ) : Resultado := t.grava i j (t.celula (unit ' '))

/-- A line is cleared from a column on. -/
def limpaLinha (first : ℤ) (t : Terminal) (i : ℤ) : Resultado := (faixa first 80).foldlM (limpa i) t

/-- A turn of the inner loop of `scroll`. -/
def sobe (i : ℤ) (t : Terminal) (j : ℤ) : Resultado := t.grava i j (t.tela (i + 1) j)

/-- The columns from the cursor on move up. -/
def scroll (t : Terminal) : Resultado := do
  let later ← (faixa 0 24).foldlM (fun t i => (faixa t.col 80).foldlM (sobe i) t) t
  later.limpaLinha later.col 24

/-- Only the matrices have changed. -/
def SoTela (t later : Terminal) : Prop := later = { t with tela := later.tela }

theorem SoTela.lin {t later : Terminal} (same : t.SoTela later) : later.lin = t.lin := by
  rw [same]

theorem SoTela.col {t later : Terminal} (same : t.SoTela later) : later.col = t.col := by
  rw [same]

/-- The terminal when it starts. `clear("2")` has written the matrices. -/
def novo : Terminal where
  tela := fun _ _ => ⟨unit ' ', 0, unit 'b', unit 'W'⟩
  estado := .inicial
  lin := 0
  col := 0
  seq := []
  iseq := 0
  r := .tela
  atributo := 0
  corFrente := unit 'b'
  corFundo := unit 'W'

end Terminal

end Pqfh
