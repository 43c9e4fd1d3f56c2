import Pqfh.Foundation.JavaText

/-! # Texts that are encoded twice

A text is sent as UTF-8 and read with a character for each byte. When the characters that were read
are sent as UTF-8 again, and the bytes are cut to the number of the characters, what is read at last
(`Java.reread`) is the text itself when it has ASCII characters only. A part of it that comes
through is of ASCII characters, when a number comes after it (`Java.isAscii_of_reread`).
-/

namespace Java

/-- What the literals of octets rest on. -/
local instance latin1NeZero : NeZero 256 := ⟨by decide⟩

/-- A text of characters of ISO-8859-1. -/
def IsLatin1 (s : Str) : Prop := ∀ unit ∈ s, unit.val < 256

/-- ASCII is Latin-1. -/
theorem IsAscii.isLatin1 {s : Str} (ascii : IsAscii s) : IsLatin1 s := fun unit member =>
  (ascii unit member).trans (by decide)

/-- A literal of ASCII characters is ASCII. -/
theorem isAscii_lit {text : String} (ascii : text.toList.all fun char => char.toNat < 128) :
    IsAscii (lit text) := by
  intro unit member
  obtain ⟨char, inside, rfl⟩ := List.mem_map.mp member
  have here : char.toNat < 128 := of_decide_eq_true (List.all_eq_true.mp ascii char inside)
  change char.toNat % 65536 < 128
  omega

/-- Two texts in ASCII are one. -/
theorem isAscii_append {front rest : Str} (first : IsAscii front) (second : IsAscii rest) :
    IsAscii (front ++ rest) := fun unit member =>
  (List.mem_append.mp member).elim (first unit) (second unit)

/-- What was decoded as Latin-1 is Latin-1. -/
theorem isLatin1_decodeLatin1 (bytes : List Octet) : IsLatin1 (decodeLatin1 bytes) := by
  intro unit member
  obtain ⟨octet, _, rfl⟩ := List.mem_map.mp member
  exact octet.isLt

/-- A unit that was decoded comes from its octet. -/
theorem mem_of_decodeLatin1 {bytes : List Octet} {octet : Octet}
    (member : ofOctet octet ∈ decodeLatin1 bytes) : octet ∈ bytes := by
  obtain ⟨other, here, same⟩ := List.mem_map.mp member
  have value : (ofOctet other).val = (ofOctet octet).val := congrArg Fin.val same
  have equal : other = octet := Fin.ext value
  exact equal ▸ here

/-- What is read of the UTF-8 bytes of a text with a character for each byte. -/
def reencoded (s : Str) : Str := decodeLatin1 (encodeUtf8 s)

/-- What is read of it when these characters are sent as UTF-8 once more, and the bytes are cut to
the number of the characters. -/
def reread (s : Str) : Str := decodeUtf8 ((encodeUtf8 (reencoded s)).take (reencoded s).length)

/-! ## A character -/

/-- Units below the surrogates are encoded one by one. -/
theorem encodeUtf8_cons {unit : CodeUnit} (low : unit.val < 55296) (s : Str) :
    encodeUtf8 (unit :: s) = utf8 unit ++ encodeUtf8 s := by
  unfold encodeUtf8
  rw [encodeUtf8From, not_isHigh_of_lt low, if_neg Bool.false_ne_true]

/-- A unit of ASCII is encoded as one octet. -/
theorem utf8_ascii {unit : CodeUnit} (ascii : unit.val < 128) : utf8 unit = [toOctet unit] :=
  if_pos ascii

/-- A character of ISO-8859-1 that is not of ASCII has two bytes, which are not of ASCII either. -/
theorem utf8_latin1 {unit : CodeUnit} (beyond : 128 ≤ unit.val) (low : unit.val < 256) :
    ∃ a b : Octet, utf8 unit = [a, b] ∧ a.val = 192 + unit.val / 64 ∧
      b.val = 128 + unit.val % 64 := by
  refine ⟨Fin.ofNat 256 (192 + unit.val / 64), Fin.ofNat 256 (128 + unit.val % 64), ?_, ?_, ?_⟩
  · have small : unit < 2048 := low.trans (by decide)
    have other : ¬ unit < 128 := not_lt.mpr beyond
    unfold utf8
    rw [if_neg other, if_pos small]
  · exact Nat.mod_eq_of_lt (by omega)
  · exact Nat.mod_eq_of_lt (by omega)

/-- The reader goes on from a place in the rest of the bytes. -/
theorem length_decodeAt (octet : Octet) (rest : List Octet) :
    (decodeAt octet rest).2.length ≤ rest.length := by
  unfold decodeAt
  repeat' split
  all_goals simp only [List.length_cons, List.length_nil, le_refl]
  all_goals omega

/-- More turns than bytes make no difference. -/
theorem decodeUtf8From_eq :
    ∀ (n : ℕ) (bytes : List Octet), bytes.length ≤ n →
      decodeUtf8From n bytes = decodeUtf8 bytes := by
  have more : ∀ (n m : ℕ) (bytes : List Octet), bytes.length ≤ n → bytes.length ≤ m →
      decodeUtf8From n bytes = decodeUtf8From m bytes := by
    intro n
    induction n with
    | zero =>
        intro m bytes none _
        rw [List.length_eq_zero_iff.mp (Nat.le_zero.mp none)]
        cases m <;> rfl
    | succ n ih =>
        intro m bytes first second
        cases bytes with
        | nil => cases m <;> rfl
        | cons octet rest =>
            cases m with
            | zero => cases second
            | succ m =>
                have shorter := length_decodeAt octet rest
                rw [List.length_cons] at first second
                rw [decodeUtf8From, decodeUtf8From]
                rw [ih m _ (by omega) (by omega)]
  exact fun n bytes enough => more n _ bytes enough le_rfl

/-- These two bytes are read as the character. -/
theorem decodeUtf8_latin1 {unit : CodeUnit} {a b : Octet} (beyond : 128 ≤ unit.val)
    (low : unit.val < 256) (lead : a.val = 192 + unit.val / 64) (next : b.val = 128 + unit.val % 64)
    (rest : List Octet) : decodeUtf8 (a :: b :: rest) = unit :: decodeUtf8 rest := by
  have other : ¬ a < 128 := by rw [Fin.lt_def]; omega
  have two : 194 ≤ a ∧ a < 224 := by
    rw [Fin.le_def, Fin.lt_def]
    change 194 ≤ a.val ∧ a.val < 224
    omega
  have continues : isContinuation b = true := by
    unfold isContinuation
    rw [Bool.and_eq_true, decide_eq_true_eq, decide_eq_true_eq, Fin.le_def, Fin.lt_def]
    change 128 ≤ b.val ∧ b.val < 192
    omega
  have same : (Fin.ofNat 65536 ((a.val - 192) * 64 + (b.val - 128)) : CodeUnit) = unit := by
    refine Fin.ext ?_
    change ((a.val - 192) * 64 + (b.val - 128)) % 65536 = unit.val
    omega
  have here : decodeAt a (b :: rest) = ([unit], rest) := by
    unfold decodeAt
    rw [if_neg other, if_pos two]
    dsimp only
    rw [if_pos continues, same]
  have size : rest.length ≤ (b :: rest).length := Nat.le_succ _
  rw [decodeUtf8, List.length_cons, decodeUtf8From, here]
  rw [decodeUtf8From_eq _ rest size]
  rfl

/-- The first of them alone is not read as a character. -/
theorem decodeUtf8_lead {unit : CodeUnit} {a : Octet} (beyond : 128 ≤ unit.val)
    (low : unit.val < 256) (lead : a.val = 192 + unit.val / 64) :
    decodeUtf8 [a] = [replacement] := by
  have other : ¬ a < 128 := by rw [Fin.lt_def]; omega
  have two : 194 ≤ a ∧ a < 224 := by
    rw [Fin.le_def, Fin.lt_def]
    change 194 ≤ a.val ∧ a.val < 224
    omega
  have here : decodeAt a [] = ([replacement], []) := by
    unfold decodeAt
    rw [if_neg other, if_pos two]
  rw [decodeUtf8, List.length_singleton, decodeUtf8From, here]
  rfl

/-! ## A text -/

/-- What is read of the first bytes of a text is a part of the text, with a character more when the
last one was cut. -/
theorem decodeUtf8_take {s : Str} (latin1 : IsLatin1 s) (n : ℕ) :
    ∃ m tail, decodeUtf8 ((encodeUtf8 s).take n) = s.take m ++ tail ∧
      (tail = [] ∨ tail = [replacement]) := by
  induction s generalizing n with
  | nil =>
      have empty : encodeUtf8 [] = [] := rfl
      rw [empty, List.take_nil]
      exact ⟨0, [], rfl, Or.inl rfl⟩
  | cons unit s ih =>
      obtain ⟨here, later⟩ := List.forall_mem_cons.mp latin1
      rw [encodeUtf8_cons (by omega)]
      cases n with
      | zero => exact ⟨0, [], rfl, Or.inl rfl⟩
      | succ n =>
          by_cases ascii : unit.val < 128
          · obtain ⟨m, tail, read, short⟩ := ih later n
            refine ⟨m + 1, tail, ?_, short⟩
            have low : (toOctet unit).val < 128 := by rw [toOctet_val (by omega)]; exact ascii
            rw [utf8_ascii ascii, List.singleton_append, List.take_succ_cons, decodeUtf8_cons low]
            rw [read, ofOctet_toOctet here]
            rfl
          · obtain ⟨a, b, bytes, lead, next⟩ := utf8_latin1 (not_lt.mp ascii) here
            rw [bytes]
            cases n with
            | zero =>
                exact ⟨0, _, rfl, Or.inr (decodeUtf8_lead (not_lt.mp ascii) here lead)⟩
            | succ n =>
                obtain ⟨m, tail, read, short⟩ := ih later n
                refine ⟨m + 1, tail, ?_, short⟩
                change decodeUtf8 (a :: b :: (encodeUtf8 s).take n) = _
                rw [decodeUtf8_latin1 (not_lt.mp ascii) here lead next, read]
                rfl

/-- What is read of them has the characters of the text, and no others but the replacement
character. -/
theorem mem_decodeUtf8_take {s : Str} (latin1 : IsLatin1 s) {n : ℕ} {unit : CodeUnit}
    (member : unit ∈ decodeUtf8 ((encodeUtf8 s).take n)) : unit ∈ s ∨ unit = replacement := by
  obtain ⟨m, tail, read, cut⟩ := decodeUtf8_take latin1 n
  rw [read] at member
  rcases List.mem_append.mp member with inside | last
  · exact Or.inl (List.mem_of_mem_take inside)
  · rcases cut with rfl | rfl
    · cases last
    · exact Or.inr (List.mem_singleton.mp last)

/-- ASCII in front is encoded and decoded as it is. -/
theorem reencoded_append {front : Str} (ascii : IsAscii front) (rest : Str) :
    reencoded (front ++ rest) = front ++ reencoded rest := by
  unfold reencoded
  rw [encodeUtf8_append ascii]
  refine (List.map_append ..).trans ?_
  rw [← decodeLatin1, decodeLatin1_map_toOctet ascii.isLatin1]
  rfl

/-- Bytes of ASCII characters that are not cut are read as they are. -/
theorem decodeUtf8_take_append {front : Str} (ascii : IsAscii front) (rest : Str) (k : ℕ) :
    decodeUtf8 ((encodeUtf8 (front ++ rest)).take (front.length + k)) =
      front ++ decodeUtf8 ((encodeUtf8 rest).take k) := by
  have bytes : (front.map toOctet).length = front.length := List.length_map _
  rw [encodeUtf8_append ascii, ← bytes, List.take_length_add_append,
    decodeUtf8_append (map_toOctet_low ascii), decodeLatin1_map_toOctet ascii.isLatin1]

/-- What begins with ASCII characters comes through so. -/
theorem reread_append {front : Str} (ascii : IsAscii front) (rest : Str) :
    reread (front ++ rest) = front ++ reread rest := by
  unfold reread
  rw [reencoded_append ascii, List.length_append]
  exact decodeUtf8_take_append ascii (reencoded rest) (reencoded rest).length

/-- ASCII is read again as it is. -/
theorem reread_ascii {s : Str} (ascii : IsAscii s) : reread s = s := by
  have whole := reread_append ascii []
  rw [List.append_nil] at whole
  exact whole.trans (List.append_nil s)

/-- Two characters for one: those that are read before others are a part of what was read first. -/
theorem reencoded_prefix {front s : Str} {u v : CodeUnit} (read : front ++ [u, v] <+: reread s) :
    front ++ [u] <+: reencoded s := by
  obtain ⟨m, tail, cut, short⟩ := decodeUtf8_take (isLatin1_decodeLatin1 (encodeUtf8 s))
    (reencoded s).length
  have whole : reread s = (reencoded s).take m ++ tail := cut
  have part : front ++ [u] <+: reread s :=
    List.IsPrefix.trans ⟨[v], by rw [List.append_assoc]; rfl⟩ read
  rw [whole] at read part
  have room := read.length_le
  rw [List.length_append, List.length_append] at room
  have inside : (front ++ [u]).length ≤ ((reencoded s).take m).length := by
    rw [List.length_append, List.length_singleton]
    change front.length + 2 ≤ _ at room
    have one : tail.length ≤ 1 := by
      rcases short with rfl | rfl
      · exact Nat.zero_le 1
      · exact le_rfl
    omega
  exact (List.prefix_of_prefix_length_le part (List.prefix_append _ _) inside).trans
    (List.take_prefix _ _)

/-- A unit of Latin-1 beyond ASCII comes back as two. -/
theorem reencoded_cons {unit : CodeUnit} (beyond : 128 ≤ unit.val) (low : unit.val < 256)
    (s : Str) : ∃ a b : CodeUnit, reencoded (unit :: s) = a :: b :: reencoded s ∧
      128 ≤ a.val ∧ 128 ≤ b.val := by
  obtain ⟨a, b, bytes, lead, next⟩ := utf8_latin1 beyond low
  refine ⟨ofOctet a, ofOctet b, ?_, ?_, ?_⟩
  · unfold reencoded
    rw [encodeUtf8_cons (by omega), bytes]
    rfl
  · rw [ofOctet_val]
    omega
  · rw [ofOctet_val]
    omega

/-- After a character that is not of ASCII there are more characters to come than places for them:
no ASCII character is read right after the text. -/
theorem beyond_of_pending {rest : Str} :
    ∀ (s pending : Str), pending ≠ [] → (∀ unit ∈ pending, 128 ≤ unit.val) →
      ∀ u : CodeUnit, s ++ [u] <+: pending ++ reencoded (s ++ rest) → IsLatin1 s → 128 ≤ u.val := by
  intro s
  induction s with
  | nil =>
      intro pending some beyond u read _
      obtain ⟨first, more, rfl⟩ := List.exists_cons_of_ne_nil some
      have same := (List.cons_prefix_cons.mp read).1
      rw [same]
      exact beyond first List.mem_cons_self
  | cons unit s ih =>
      intro pending some beyond u read latin1
      obtain ⟨first, more, rfl⟩ := List.exists_cons_of_ne_nil some
      obtain ⟨here, later⟩ := List.forall_mem_cons.mp latin1
      obtain ⟨pended, after⟩ := List.forall_mem_cons.mp beyond
      obtain ⟨rfl, next⟩ := List.cons_prefix_cons.mp read
      obtain ⟨a, b, two, first2, second2⟩ := reencoded_cons pended here (s ++ rest)
      refine ih (more ++ [a, b]) (by simp) ?_ u ?_ later
      · intro unit member
        rcases List.mem_append.mp member with old | new
        · exact after unit old
        · rcases List.mem_cons.mp new with rfl | new
          · exact first2
          · rw [List.mem_singleton.mp new]
            exact second2
      · rw [List.cons_append, two] at next
        rw [List.append_assoc]
        exact next

/-- A part that comes through, with an ASCII character after it, has ASCII characters only. -/
theorem isAscii_of_reencoded {rest : Str} {u : CodeUnit} (ascii : u.val < 128) :
    ∀ s : Str, IsLatin1 s → s ++ [u] <+: reencoded (s ++ rest) → IsAscii s := by
  intro s
  induction s with
  | nil => exact fun _ _ _ member => absurd member List.not_mem_nil
  | cons unit s ih =>
      intro latin1 read
      obtain ⟨here, later⟩ := List.forall_mem_cons.mp latin1
      by_cases beyond : 128 ≤ unit.val
      · obtain ⟨a, b, two, _, second2⟩ := reencoded_cons beyond here (s ++ rest)
        rw [List.cons_append, List.cons_append, two] at read
        have next := (List.cons_prefix_cons.mp read).2
        have past := beyond_of_pending s [b] (List.cons_ne_nil b [])
          (List.forall_mem_singleton.mpr second2) u next later
        omega
      · have single : IsAscii [unit] := by
          intro other member
          rw [List.mem_singleton.mp member]
          omega
        have cut := reencoded_append single (s ++ rest)
        rw [List.cons_append, List.cons_append] at read
        change reencoded (unit :: (s ++ rest)) = unit :: reencoded (s ++ rest) at cut
        rw [cut] at read
        have next := ih later (List.cons_prefix_cons.mp read).2
        exact List.forall_mem_cons.mpr ⟨by omega, next⟩

/-! ## ISO-8859-1 -/

/-- An octet that is no question mark comes from its own unit. -/
theorem latin1_mem {unit : CodeUnit} {octet : Octet} (other : octet ≠ 63)
    (same : latin1 unit = octet) : ofOctet octet = unit := by
  unfold latin1 at same
  split at same
  · rename_i low
    rw [← same]
    exact ofOctet_toOctet low
  · exact absurd same.symm other

/-- The bytes of a text have the characters of the text, and no others but question marks. -/
theorem mem_encodeLatin1 {s : Str} {octet : Octet} (other : octet ≠ 63)
    (member : octet ∈ encodeLatin1 s) : ofOctet octet ∈ s := by
  have rest : ∀ (s : Str) (high : Option CodeUnit), octet ∈ encodeLatin1From high s →
      ofOctet octet ∈ s := by
    intro s
    induction s with
    | nil =>
        intro high member
        cases high with
        | none => cases member
        | some high => exact absurd (List.mem_singleton.mp member) other
    | cons unit s ih =>
        intro high member
        cases high with
        | none =>
            rw [encodeLatin1From] at member
            split at member
            · exact List.mem_cons_of_mem _ (ih _ member)
            · rcases List.mem_cons.mp member with here | later
              · exact List.mem_cons.mpr (Or.inl (latin1_mem other here.symm))
              · exact List.mem_cons_of_mem _ (ih _ later)
        | some high =>
            rw [encodeLatin1From] at member
            split at member
            · rcases List.mem_cons.mp member with here | later
              · exact absurd here other
              · exact List.mem_cons_of_mem _ (ih _ later)
            split at member
            · rcases List.mem_cons.mp member with here | later
              · exact absurd here other
              · exact List.mem_cons_of_mem _ (ih _ later)
            · rcases List.mem_cons.mp member with here | later
              · exact absurd here other
              rcases List.mem_cons.mp later with here | later
              · exact List.mem_cons.mpr (Or.inl (latin1_mem other here.symm))
              · exact List.mem_cons_of_mem _ (ih _ later)
  exact rest s none member

/-- A character that is not a surrogate is encoded by itself at the end of any text. -/
theorem encodeLatin1_concat (s : Str) {unit : CodeUnit} (low : unit.val < 55296) :
    encodeLatin1 (s ++ [unit]) = encodeLatin1 s ++ [latin1 unit] := by
  have high := not_isHigh_of_lt low
  have other : isLow unit = false := by
    unfold isLow
    rw [Bool.and_eq_false_iff]
    exact Or.inl (decide_eq_false (Nat.not_le.mpr (low.trans (by decide))))
  have rest : ∀ (s : Str) (pending : Option CodeUnit),
      encodeLatin1From pending (s ++ [unit]) = encodeLatin1From pending s ++ [latin1 unit] := by
    intro s
    induction s with
    | nil =>
        intro pending
        cases pending with
        | none =>
            change encodeLatin1From none [unit] = [latin1 unit]
            rw [encodeLatin1From, high, if_neg Bool.false_ne_true]
            rfl
        | some first =>
            change encodeLatin1From (some first) [unit] = [63, latin1 unit]
            rw [encodeLatin1From, high, other, if_neg Bool.false_ne_true, if_neg Bool.false_ne_true]
            rfl
    | cons first s ih =>
        intro pending
        cases pending with
        | none =>
            rw [List.cons_append, encodeLatin1From, encodeLatin1From, ih, ih]
            split <;> rfl
        | some before =>
            rw [List.cons_append, encodeLatin1From, encodeLatin1From, ih, ih]
            split
            · rfl
            · split <;> rfl
  exact rest s none

/-- Latin-1 in front is encoded on its own. -/
theorem encodeUtf8_append_latin1 {front : Str} (latin1 : IsLatin1 front) (rest : Str) :
    encodeUtf8 (front ++ rest) = encodeUtf8 front ++ encodeUtf8 rest := by
  induction front with
  | nil => rfl
  | cons unit front ih =>
      obtain ⟨here, later⟩ := List.forall_mem_cons.mp latin1
      rw [List.cons_append, encodeUtf8_cons (by omega), encodeUtf8_cons (by omega), ih later,
        List.append_assoc]

/-- A character of ASCII among the bytes of a text of ISO-8859-1 is a character of the text. -/
theorem mem_encodeUtf8 {s : Str} (latin1 : IsLatin1 s) {octet : Octet} (ascii : octet.val < 128)
    (member : octet ∈ encodeUtf8 s) : ofOctet octet ∈ s := by
  induction s with
  | nil => cases member
  | cons unit s ih =>
      obtain ⟨here, later⟩ := List.forall_mem_cons.mp latin1
      rw [encodeUtf8_cons (by omega)] at member
      rcases List.mem_append.mp member with first | rest
      · by_cases low : unit.val < 128
        · rw [utf8_ascii low] at first
          rw [List.mem_singleton.mp first, ofOctet_toOctet here]
          exact List.mem_cons_self
        · obtain ⟨a, b, bytes, lead, next⟩ := utf8_latin1 (not_lt.mp low) here
          rw [bytes] at first
          rcases List.mem_cons.mp first with rfl | second
          · omega
          · rw [List.mem_singleton.mp second] at ascii
            omega
      · exact List.mem_cons_of_mem _ (ih later rest)

/-- Latin-1 in front comes back as it is. -/
theorem decodeLatin1_encodeLatin1 {front : Str} (low : IsLatin1 front) (rest : Str) :
    decodeLatin1 (encodeLatin1 (front ++ rest)) = front ++ decodeLatin1 (encodeLatin1 rest) := by
  rw [encodeLatin1_append low]
  refine (List.map_append ..).trans ?_
  rw [← decodeLatin1, decodeLatin1_map_toOctet low]
  rfl

/-- A part that comes through, with a number after it, has ASCII characters only. -/
theorem isAscii_of_reread {front rest : Str} {u v : CodeUnit} {n : ℤ}
    (read : front ++ [u, v] <+: reread (decodeLatin1 (encodeLatin1 (front ++ rest))))
    (number : parseInt [u, v] = some n) : IsAscii front := by
  have part := reencoded_prefix read
  have low : ∀ unit ∈ front ++ [u], unit.val < 256 := fun unit member =>
    isLatin1_decodeLatin1 _ unit (part.subset member)
  have latin1 : IsLatin1 front := fun unit member => low unit (List.mem_append_left _ member)
  have last := low u (List.mem_append_right _ List.mem_cons_self)
  rw [decodeLatin1_encodeLatin1 latin1] at part
  exact isAscii_of_reencoded (parseInt_ascii last number) front latin1 part

end Java
