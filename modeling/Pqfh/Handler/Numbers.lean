import Mathlib.Data.List.Count
import Pqfh.Handler.StartText
import Pqfh.Sync.Settle

/-! # What passes for a number

`valida_numero` scans a text from left to right with two flags, one for a sign and one for a point.
A sign may stand anywhere, and no digit is asked for. A text that it repairs keeps every minus and
every point.
-/

namespace Pqfh

/-- The loops over the keys in `valida_numero`, by the name of the column. -/
def Table.chaveDe (tab : Table) (coluna : String) : Bool :=
  tab.keys.any fun key => key.any fun i => (tab.column i).name = coluna

/-- `valida_numero`, for the name of a column: what it returns, and the text that it leaves. The
message about a wrong number is written into a buffer of 257 bytes. -/
def validaNumeroDe (tab : Table) (coluna : String) (conteudo : List Byte) (real : Bool) :
    Except Stop (Bool × List Byte) :=
  if scanNumero real false false (orZero conteudo) then .ok (true, orZero conteudo)
  else if coluna.utf8ByteSize + 2 + (orZero conteudo).length + 1 < 257 then
    .ok (false, (validaNumero (tab.chaveDe coluna) real conteudo).1)
  else .error .undefined

def isSign (p : Byte) : Bool := p = 45 || p = 43

/-- An optional sign, and digits with at most one point, none when `real` is false. -/
def Numeral (real : Bool) (text : List Byte) : Prop :=
  ∃ sign body, text = sign ++ body ∧ (sign = [] ∨ sign = [45] ∨ sign = [43]) ∧
    (∀ p ∈ body, isDigit p = true ∨ p = 46) ∧ body.count 46 ≤ real.toNat ∧ ∃ p ∈ body,
    isDigit p = true

/-- A text that is accepted, or repaired, is a numeral. -/
def Validates (tab : Table) (coluna : String) (conteudo : List Byte) (real : Bool) : Prop :=
  ∃ returned text, validaNumeroDe tab coluna conteudo real = .ok (returned, text) ∧
    (returned = true ∨ tab.chaveDe coluna = false → Numeral real text)

/-- Digits, at most one sign, and at most one point, none when `real` is false. -/
def Scanned (real : Bool) (text : List Byte) : Prop :=
  (∀ p ∈ text, isDigit p = true ∨ isSign p = true ∨ p = 46) ∧ text.countP isSign ≤ 1 ∧
    text.count 46 ≤ real.toNat

instance (real : Bool) (text : List Byte) : Decidable (Scanned real text) :=
  inferInstanceAs (Decidable (_ ∧ _ ∧ _))

/-- Where the signs, the points and the digits of a text have to stand. -/
def Validable (tab : Table) (coluna : String) (text : List Byte) (real : Bool) : Prop :=
  if Scanned real text then (∀ p ∈ text.tail, isSign p = false) ∧ ∃ p ∈ text, isDigit p = true
  else coluna.utf8ByteSize + 2 + text.length + 1 < 257 ∧
    (tab.chaveDe coluna = false →
      45 ∉ text.tail ∧ text.count 46 ≤ real.toNat ∧ ∃ p ∈ text, p ≠ 45 ∧ p ≠ 46)

/-! ## The scan -/

theorem isSign_iff {p : Byte} : isSign p = true ↔ p = 45 ∨ p = 43 := by
  unfold isSign
  rw [Bool.or_eq_true, decide_eq_true_iff, decide_eq_true_iff]

theorem not_isSign_of_isDigit {p : Byte} (digit : isDigit p = true) : isSign p = false := by
  obtain ⟨low, _⟩ := isDigit_iff.mp digit
  rw [Bool.eq_false_iff, ne_eq, isSign_iff]
  rintro (rfl | rfl)
  · exact absurd low (by decide)
  · exact absurd low (by decide)

theorem ne_point_of_isDigit {p : Byte} (digit : isDigit p = true) : p ≠ 46 := by
  rintro rfl
  exact absurd digit (by decide)

/-- The flags of the scan stand for what may still come. -/
theorem scanNumero_iff {real sinal decimal : Bool} {text : List Byte} :
    scanNumero real sinal decimal text = true ↔
      (∀ p ∈ text, isDigit p = true ∨ isSign p = true ∨ p = 46) ∧
        text.countP isSign ≤ (!sinal).toNat ∧ text.count 46 ≤ (real && !decimal).toNat := by
  induction text generalizing sinal decimal with
  | nil => exact iff_of_true rfl ⟨nofun, Nat.zero_le _, Nat.zero_le _⟩
  | cons p rest ih =>
      by_cases digit : isDigit p = true
      · have sign := not_isSign_of_isDigit digit
        have point := ne_point_of_isDigit digit
        simp [scanNumero, ih, digit, sign, point]
      by_cases sign : isSign p = true
      · have other : p ≠ 46 := by
          rintro rfl
          cases sign
        have either := isSign_iff.mp sign
        cases sinal with
        | false => simp [scanNumero, ih, digit, sign, other, either]
        | true => simp [scanNumero, digit, sign, other]
      · have neither := fun either => sign (isSign_iff.mpr either)
        by_cases point : p = 46
        · subst point
          cases decimal with
          | false => cases real <;> simp [scanNumero, ih, digit, sign]
          | true => simp [scanNumero, digit]
        · simp only [scanNumero, digit, sign, point, List.forall_mem_cons]
          simpa using fun _ either => absurd either neither

theorem scanNumero_scanned {real : Bool} {text : List Byte} :
    scanNumero real false false text = true ↔ Scanned real text := by
  rw [scanNumero_iff, Bool.not_false, Bool.and_true]
  rfl

/-! ## Numerals -/

theorem numeral_iff {real : Bool} {text : List Byte} :
    Numeral real text ↔ (∀ p ∈ text, isDigit p = true ∨ isSign p = true ∨ p = 46) ∧
      (∀ p ∈ text.tail, isSign p = false) ∧ text.count 46 ≤ real.toNat ∧
        ∃ p ∈ text, isDigit p = true := by
  have plain : ∀ p : Byte, isDigit p = true ∨ p = 46 → isSign p = false := by
    rintro p (digit | rfl)
    · exact not_isSign_of_isDigit digit
    · rfl
  constructor
  · rintro ⟨sign, body, rfl, first, chars, points, p, member, digit⟩
    have body_chars : ∀ p ∈ body, isDigit p = true ∨ isSign p = true ∨ p = 46 :=
      fun p member => (chars p member).imp_right Or.inr
    have some_digit : ∃ p ∈ sign ++ body, isDigit p = true :=
      ⟨p, List.mem_append_right sign member, digit⟩
    rcases first with rfl | rfl | rfl
    · exact ⟨body_chars, fun p member => plain p (chars p (List.mem_of_mem_tail member)), points,
        some_digit⟩
    · exact ⟨List.forall_mem_cons.mpr ⟨Or.inr (Or.inl rfl), body_chars⟩,
        fun p member => plain p (chars p member), points, some_digit⟩
    · exact ⟨List.forall_mem_cons.mpr ⟨Or.inr (Or.inl rfl), body_chars⟩,
        fun p member => plain p (chars p member), points, some_digit⟩
  · rintro ⟨chars, signs, points, some_digit⟩
    cases text with
    | nil =>
        obtain ⟨p, member, _⟩ := some_digit
        cases member
    | cons first rest =>
        obtain ⟨here, later⟩ := List.forall_mem_cons.mp chars
        have rest_chars : ∀ p ∈ rest, isDigit p = true ∨ p = 46 := by
          intro p member
          exact (later p member).imp_right fun other => other.resolve_left
            (Bool.eq_false_iff.mp (signs p member))
        by_cases sign : isSign first = true
        · refine ⟨[first], rest, rfl, ?_, rest_chars, ?_, ?_⟩
          · rcases isSign_iff.mp sign with rfl | rfl
            · exact Or.inr (Or.inl rfl)
            · exact Or.inr (Or.inr rfl)
          · have other : first ≠ 46 := by
              rintro rfl
              cases sign
            rwa [List.count_cons_of_ne other] at points
          · obtain ⟨p, member, digit⟩ := some_digit
            rcases List.mem_cons.mp member with rfl | member
            · rw [not_isSign_of_isDigit digit] at sign
              cases sign
            · exact ⟨p, member, digit⟩
        · refine ⟨[], first :: rest, rfl, Or.inl rfl, ?_, points, some_digit⟩
          exact List.forall_mem_cons.mpr ⟨here.imp_right fun other => other.resolve_left sign,
            rest_chars⟩

/-- A text that is scanned is a numeral when a sign is first and there is a digit. -/
theorem numeral_iff_of_scanned {real : Bool} {text : List Byte} (scanned : Scanned real text) :
    Numeral real text ↔ (∀ p ∈ text.tail, isSign p = false) ∧ ∃ p ∈ text, isDigit p = true := by
  obtain ⟨chars, _, points⟩ := scanned
  rw [numeral_iff]
  exact ⟨fun ⟨_, signs, _, digit⟩ => ⟨signs, digit⟩,
    fun ⟨signs, digit⟩ => ⟨chars, signs, points, digit⟩⟩

/-- What the repair makes of a character. -/
theorem repaired_cases (p : Byte) :
    (isDigit p = true ∧ repaired p = p) ∨ (p = 45 ∧ repaired p = 45) ∨ (p = 46 ∧ repaired p = 46) ∨
      (p ≠ 45 ∧ p ≠ 46 ∧ repaired p = 48) := by
  unfold repaired numberChar
  by_cases digit : isDigit p = true
  · simp [digit]
  by_cases minus : p = 45
  · simp [minus]
  by_cases point : p = 46
  · simp [point]
  · simp [digit, minus, point]

theorem isSign_repaired (p : Byte) : isSign (repaired p) = true ↔ p = 45 := by
  obtain ⟨digit, same⟩ | ⟨rfl, same⟩ | ⟨rfl, same⟩ | ⟨minus, _, same⟩ := repaired_cases p
  · rw [same, not_isSign_of_isDigit digit]
    refine iff_of_false Bool.false_ne_true ?_
    rintro rfl
    cases digit
  · rw [same]
    exact iff_of_true rfl rfl
  · rw [same]
    decide
  · rw [same]
    exact iff_of_false (by decide) minus

theorem repaired_eq_point (p : Byte) : repaired p = 46 ↔ p = 46 := by
  obtain ⟨digit, same⟩ | ⟨rfl, same⟩ | ⟨rfl, same⟩ | ⟨_, point, same⟩ := repaired_cases p
  · rw [same]
  · rw [same]
  · rw [same]
  · rw [same]
    exact iff_of_false (by decide) point

theorem isDigit_repaired (p : Byte) : isDigit (repaired p) = true ↔ p ≠ 45 ∧ p ≠ 46 := by
  obtain ⟨digit, same⟩ | ⟨rfl, same⟩ | ⟨rfl, same⟩ | ⟨minus, point, same⟩ := repaired_cases p
  · rw [same]
    refine iff_of_true digit ⟨?_, ne_point_of_isDigit digit⟩
    rintro rfl
    cases digit
  · rw [same]
    decide
  · rw [same]
    decide
  · rw [same]
    exact iff_of_true rfl ⟨minus, point⟩

theorem numeral_repaired {real : Bool} {text : List Byte} :
    Numeral real (text.map repaired) ↔
      45 ∉ text.tail ∧ text.count 46 ≤ real.toNat ∧ ∃ p ∈ text, p ≠ 45 ∧ p ≠ 46 := by
  have chars : ∀ p ∈ text.map repaired, isDigit p = true ∨ isSign p = true ∨ p = 46 := by
    intro p member
    obtain ⟨p, _, rfl⟩ := List.mem_map.mp member
    rw [isDigit_repaired, isSign_repaired, repaired_eq_point]
    tauto
  have points : (text.map repaired).count 46 = text.count 46 := by
    rw [List.count_eq_countP, List.count_eq_countP, List.countP_map]
    apply List.countP_congr
    intro p _
    simp [repaired_eq_point]
  rw [numeral_iff, points, ← List.map_tail]
  constructor
  · rintro ⟨_, signs, points, _, member, digit⟩
    obtain ⟨p, here, rfl⟩ := List.mem_map.mp member
    refine ⟨fun minus => ?_, points, p, here, (isDigit_repaired p).mp digit⟩
    have sign := (isSign_repaired 45).mpr rfl
    rw [signs _ (List.mem_map_of_mem minus)] at sign
    cases sign
  · rintro ⟨minus, points, p, member, other⟩
    refine ⟨chars, fun q later => ?_, points, repaired p, List.mem_map_of_mem member,
      (isDigit_repaired p).mpr other⟩
    obtain ⟨q, here, rfl⟩ := List.mem_map.mp later
    rw [Bool.eq_false_iff, ne_eq, isSign_repaired]
    rintro rfl
    exact minus here

/-! ## What is left -/

/-- The text that `valida_numero` leaves is a numeral exactly when a sign is first and there is a
digit; outside the keys a wrong text may have other characters, too. -/
theorem valida_numero_iff (tab : Table) (coluna : String) (conteudo : List Byte) (real : Bool) :
    Validates tab coluna conteudo real ↔ Validable tab coluna (orZero conteudo) real := by
  unfold Validates Validable validaNumeroDe
  by_cases scanned : Scanned real (orZero conteudo)
  · rw [if_pos scanned, if_pos (scanNumero_scanned.mpr scanned), ← numeral_iff_of_scanned scanned]
    constructor
    · rintro ⟨returned, text, returns, numeral⟩
      cases returns
      exact numeral (Or.inl rfl)
    · intro numeral
      exact ⟨true, _, rfl, fun _ => numeral⟩
  · rw [if_neg scanned, if_neg fun other => scanned (scanNumero_scanned.mp other)]
    have repair : tab.chaveDe coluna = false →
        (validaNumero (tab.chaveDe coluna) real conteudo).1 = (orZero conteudo).map repaired := by
      intro free
      rw [free, validaNumero_unkeyed, if_neg fun other => scanned (scanNumero_scanned.mp other)]
    rw [← numeral_repaired]
    constructor
    · rintro ⟨returned, text, returns, numeral⟩
      split at returns
      · rename_i fits
        cases returns
        exact ⟨fits, fun free => repair free ▸ numeral (Or.inr free)⟩
      · cases returns
    · rintro ⟨fits, numeral⟩
      refine ⟨false, _, if_pos fits, ?_⟩
      rintro (impossible | free)
      · cases impossible
      · rw [repair free]
        exact numeral free

/-- A minus after a digit passes. -/
theorem valida_numero_minus : ¬ Validates letterTable "valor" [49, 45] false := by
  have scanned : Scanned false (orZero [49, 45]) := scanNumero_scanned.mp rfl
  rw [valida_numero_iff, Validable, if_pos scanned]
  rintro ⟨signs, _⟩
  exact absurd (signs 45 List.mem_cons_self) (by decide)

end Pqfh
