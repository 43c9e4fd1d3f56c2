import Mathlib.Data.List.Perm.Basic
import Pqfh.Api.Load
import Pqfh.Foundation.JsonValue

/-! # The text that is sent for a write

The text is to be a JSON object with one member, the root, whose value is an array of one object:
the fields of the copybook, each once, with what the converted record has in it.
-/

namespace Pqfh

open JsonValue (Plain readString readValue readMembers readItems readObject afterMember expect)

/-- The characters of a text. -/
def codes (text : List Byte) : List ℕ := text.map Fin.val

/-- A field and the bytes of a record that it covers. -/
structure FieldText where
  col : ApiColumn
  bytes : List Byte

/-- The bytes of the fields of a record. -/
def fieldTexts (record : List Byte) : ℕ → List ApiColumn → List FieldText
  | _, [] => []
  | offset, col :: rest => ⟨col, slice record offset col.len⟩ ::
      fieldTexts record (offset + col.len) rest

/-- What a field says: its text, or the integer that is written in it. -/
def FieldText.value (field : FieldText) : JsonValue :=
  match field.col.tp with
  | .text => .string (codes field.bytes)
  | .integer => .number (atoi (cstr field.bytes))

/-- The member of a field. -/
def FieldText.member (field : FieldText) : List ℕ × JsonValue := (codes field.col.name, field.value)

/-- The object of a record: each field of the copybook once. -/
def apiObject (cpy : Copybook) (record : List Byte) : List (List ℕ × JsonValue) :=
  (fieldTexts record 0 cpy.fields).map FieldText.member

/-- A table that was opened, after some writes. Each had a record of its own. -/
inductive ApiWrites (file : List Byte) : ℕ → ApiTable → Prop
  | opened : ApiWrites file 0 .opened
  | write {n : ℕ} {tab later : ApiTable} {record json : List Byte} (earlier : ApiWrites file n tab)
      (sent : threadApiStart (some file) record tab = .ok (json, later)) :
      ApiWrites file (n + 1) later

/-- A text is sent, and it is the JSON text of the record. -/
def SendsPayload (cpy : Copybook) (tab : ApiTable) (record : List Byte) : Prop :=
  ∃ json later members, threadApiStart (some cpy.text) record tab = .ok (json, later) ∧
    JsonValue.read (codes json) = some (.object [(codes cpy.root, .array [.object members])]) ∧
    members.Perm (apiObject cpy record)

/-! ## What to_json writes -/

/-- The value of a field in the text. -/
def FieldText.text (field : FieldText) : List Byte :=
  match field.col.tp with
  | .text => 34 :: (cstr field.bytes ++ [34])
  | .integer => decimalText (atoi (cstr field.bytes))

/-- The members of the object in the text. -/
def membersText : List FieldText → List Byte
  | [] => []
  | field :: rest => [9, 34] ++ field.col.name ++ [34, 32, 58, 32] ++ field.text ++
      (if rest = [] then [] else [44]) ++ 10 :: membersText rest

/-- The text with a root and some fields. -/
def payloadText (root : List Byte) (fields : List FieldText) : List Byte :=
  [123, 32, 34] ++ root ++ [34, 32, 58, 32, 91, 32, 123, 10] ++ membersText fields ++
    [125, 32, 93, 32, 125]

/-- An integer field whose number is an int. -/
def FieldText.Bounded (field : FieldText) : Prop :=
  field.col.tp = .integer → IsInt (atoi (cstr field.bytes))

/-- A field becomes a value just when its number or text is bounded, and which one. -/
theorem fieldJson_iff {field : FieldText} {value : List Byte} :
    fieldJson field.col.tp (cstr field.bytes) = .ok value ↔ field.Bounded ∧ value = field.text := by
  unfold FieldText.Bounded FieldText.text fieldJson
  cases field.col.tp with
  | text =>
      dsimp only
      rw [Except.ok.injEq]
      exact ⟨fun same => ⟨fun other => (by cases other), same.symm⟩, fun both => both.2.symm⟩
  | integer =>
      dsimp only
      by_cases empty : cstr field.bytes = []
      · have zero : IsInt (atoi []) ∧ decimalText (atoi []) = [48] := by decide
        rw [if_pos empty, empty, Except.ok.injEq, zero.2]
        exact ⟨fun same => ⟨fun _ => zero.1, same.symm⟩, fun both => both.2.symm⟩
      · rw [if_neg empty]
        by_cases bounded : IsInt (atoi (cstr field.bytes))
        · rw [if_pos bounded, Except.ok.injEq]
          exact ⟨fun same => ⟨fun _ => bounded, same.symm⟩, fun both => both.2.symm⟩
        · rw [if_neg bounded]
          exact ⟨fun same => (by cases same), fun both => absurd (both.1 rfl) bounded⟩

/-- There are as many texts as columns. -/
theorem fieldTexts_eq_nil {record : List Byte} {offset : ℕ} {cols : List ApiColumn} :
    fieldTexts record offset cols = [] ↔ cols = [] := by
  cases cols with
  | nil => exact iff_of_true rfl rfl
  | cons col cols => exact iff_of_false (List.cons_ne_nil _ _) (List.cons_ne_nil _ _)

/-- The fields lie in the record, with a byte after the last. -/
def Room (record : List Byte) (offset : ℕ) (cols : List ApiColumn) : Prop :=
  cols ≠ [] → offset + (cols.map ApiColumn.len).sum < record.length

/-- A record has room for columns when it has it for the first and for the others. -/
theorem room_cons {record : List Byte} {offset : ℕ} {col : ApiColumn} {cols : List ApiColumn} :
    Room record offset (col :: cols) ↔
      offset + col.len < record.length ∧ Room record (offset + col.len) cols := by
  unfold Room
  rw [List.map_cons, List.sum_cons, ← Nat.add_assoc]
  cases cols with
  | nil =>
      rw [List.map_nil, List.sum_nil, Nat.add_zero]
      exact ⟨fun room => ⟨room (List.cons_ne_nil _ _), fun some => absurd rfl some⟩,
        fun both _ => both.1⟩
  | cons next cols =>
      constructor
      · intro room
        have inside := room (List.cons_ne_nil _ _)
        exact ⟨by omega, fun _ => inside⟩
      · intro both _
        exact both.2 (List.cons_ne_nil _ _)

/-- The members are written just when the record has room and every field is bounded. -/
theorem fieldsJson_iff {record : List Byte} {cols : List ApiColumn} :
    ∀ {offset : ℕ} {json : List Byte}, fieldsJson record offset cols = .ok json ↔
      Room record offset cols ∧ (∀ field ∈ fieldTexts record offset cols, field.Bounded) ∧
        json = membersText (fieldTexts record offset cols) := by
  induction cols with
  | nil =>
      intro offset json
      unfold fieldsJson fieldTexts membersText Room
      rw [Except.ok.injEq]
      exact ⟨fun same => ⟨fun some => absurd rfl some, List.forall_mem_nil _, same.symm⟩,
        fun all => all.2.2.symm⟩
  | cons col cols ih =>
      intro offset json
      rw [fieldsJson, room_cons, fieldTexts, List.forall_mem_cons, membersText]
      simp only [fieldTexts_eq_nil]
      by_cases outside : record.length ≤ offset + col.len
      · rw [if_pos outside]
        exact ⟨fun sent => (by cases sent), fun all => absurd all.1.1 (Nat.not_lt.mpr outside)⟩
      · rw [if_neg outside]
        constructor
        · intro sent
          obtain ⟨value, here, sent⟩ := bind_eq_ok.mp sent
          obtain ⟨later, rest, sent⟩ := bind_eq_ok.mp sent
          obtain ⟨bounded, rfl⟩ := (@fieldJson_iff ⟨col, slice record offset col.len⟩ value).mp here
          obtain ⟨room, others, rfl⟩ := ih.mp rest
          exact ⟨⟨Nat.lt_of_not_le outside, room⟩, ⟨bounded, others⟩, (Except.ok.inj sent).symm⟩
        · rintro ⟨⟨_, room⟩, ⟨bounded, others⟩, rfl⟩
          have here := (@fieldJson_iff ⟨col, slice record offset col.len⟩ _).mpr ⟨bounded, rfl⟩
          have rest := ih.mpr ⟨room, others, rfl⟩
          dsimp only at here
          rw [here, rest]
          rfl

/-- A write sends a text just when there is room for it, and which one. -/
theorem threadApiStart_iff {cpy : Copybook} {record json : List Byte} {tab later : ApiTable} :
    threadApiStart (some cpy.text) record tab = .ok (json, later) ↔
      later = ⟨cpy.root, tab.columns ++ cpy.fields⟩ ∧ Room record 0 later.columns ∧
        (∀ field ∈ fieldTexts record 0 later.columns, field.Bounded) ∧
          json = payloadText cpy.root (fieldTexts record 0 later.columns) ∧
            json.length ≤ maxArgsJson := by
  unfold threadApiStart
  rw [loadCpy_text, ok_bind]
  constructor
  · intro sent
    obtain ⟨json', written, sent⟩ := bind_eq_ok.mp sent
    unfold toJson at written
    obtain ⟨fields, here, written⟩ := bind_eq_ok.mp written
    obtain ⟨room, bounded, rfl⟩ := fieldsJson_iff.mp here
    dsimp only at written
    split at written
    · cases written
    · cases written
      split at sent
      · cases sent
      · rename_i short
        cases sent
        exact ⟨rfl, room, bounded, rfl, Nat.le_of_not_lt short⟩
  · rintro ⟨rfl, room, bounded, rfl, short⟩
    have fields := fieldsJson_iff.mpr ⟨room, bounded, rfl⟩
    have written : toJson ⟨cpy.root, tab.columns ++ cpy.fields⟩ record =
        .ok (payloadText cpy.root (fieldTexts record 0 (tab.columns ++ cpy.fields))) := by
      unfold toJson
      dsimp only
      rw [fields]
      exact if_neg (Nat.not_lt.mpr (short.trans (by decide)))
    rw [written]
    exact if_neg (Nat.not_lt.mpr short)

/-! ## Reading the members -/

/-- A field whose text can stand in the JSON text as it is. -/
def FieldText.Safe (field : FieldText) : Prop :=
  match field.col.tp with
  | .text => Plain (codes field.bytes)
  | .integer => IsInt (atoi (cstr field.bytes))

/-- Characters of two texts. -/
theorem codes_append (front back : List Byte) : codes (front ++ back) = codes front ++ codes back :=
  List.map_append

/-- A number is printed in decimal. -/
theorem codes_decimalText (n : ℤ) : codes (decimalText n) = JsonValue.printInt n := by
  unfold decimalText JsonValue.printInt
  rw [codes_append]
  congr 1
  · split <;> rfl
  · unfold codes
    rw [List.map_map]
    apply List.map_congr_left
    intro digit member
    rw [Function.comp_apply, digitByte_val (Decimal.canonical_lt _ digit member), Nat.add_comm]

/-- A word needs no escapes. -/
theorem plain_of_word {name : List Byte} (word : ∀ byte ∈ name, IsWord byte) :
    Plain (codes name) := by
  intro char member
  obtain ⟨byte, here, rfl⟩ := List.mem_map.mp member
  have isWord := word byte here
  unfold IsWord at isWord
  exact JsonValue.isPlain_iff.mpr (by omega)

/-- A text with no NUL is sent whole. -/
theorem cstr_of_plain {bytes : List Byte} (plain : Plain (codes bytes)) : cstr bytes = bytes := by
  apply cstr_eq_self
  intro zero
  exact absurd (plain 0 (List.mem_map.mpr ⟨0, zero, rfl⟩)) (by decide)

/-- What follows a member in the text. -/
def afterField (fields : List FieldText) (rest : List ℕ) : List ℕ :=
  (if fields = [] then [] else [44]) ++ 10 :: (codes (membersText fields) ++ rest)

/-- The text of the members begins with the first of them. -/
theorem codes_membersText_cons (field : FieldText) (fields : List FieldText) (rest : List ℕ) :
    codes (membersText (field :: fields)) ++ rest =
      9 :: 34 :: (codes field.col.name ++ 34 :: 32 :: 58 :: 32 ::
        (codes field.text ++ afterField fields rest)) := by
  have comma : codes (if fields = [] then [] else [44]) = if fields = [] then [] else [44] := by
    split <;> rfl
  rw [membersText, afterField, ← comma]
  simp only [codes_append, List.append_assoc]
  rfl

/-- What follows a field ends a number. -/
theorem endsNumber_afterField (fields : List FieldText) (rest : List ℕ) :
    JsonValue.EndsNumber (afterField fields rest) := by
  intro char first
  unfold afterField at first
  split at first
  · cases first
    decide
  · cases first
    decide

/-- What follows a field is no string. -/
theorem readString_afterField (fields : List FieldText) (rest : List ℕ) :
    readString .plain (afterField fields rest) = none := by
  unfold afterField
  split <;> rfl

/-- The value of a safe field is read. -/
theorem readValue_field (n : ℕ) {field : FieldText} (safe : field.Safe) (fields : List FieldText)
    (rest : List ℕ) :
    readValue (n + 1) (codes field.text ++ afterField fields rest) =
      some (field.value, afterField fields rest) := by
  unfold FieldText.Safe at safe
  unfold FieldText.text FieldText.value
  cases tp : field.col.tp with
  | text =>
      rw [tp] at safe
      have quoted : codes (34 :: (cstr field.bytes ++ [34])) ++ afterField fields rest =
          34 :: (codes field.bytes ++ 34 :: afterField fields rest) := by
        rw [cstr_of_plain safe]
        change 34 :: (codes (field.bytes ++ [34]) ++ _) = _
        rw [codes_append, List.append_assoc]
        rfl
      dsimp only
      rw [quoted, JsonValue.readValue_quote, JsonValue.readString_plain safe, Option.map_some]
  | integer =>
      dsimp only
      rw [codes_decimalText, JsonValue.readValue_printInt n _ (endsNumber_afterField fields rest)]

/-- Behind a field comes a comma or the brace that closes the object. -/
theorem afterMember_afterField (n : ℕ) (name : List ℕ) (value : JsonValue)
    (fields : List FieldText) (rest : List ℕ) :
    afterMember n name value (afterField fields (125 :: rest)) =
      if fields = [] then some ([(name, value)], rest)
      else (readMembers n (codes (membersText fields) ++ 125 :: rest)).map
        fun read => ((name, value) :: read.1, read.2) := by
  unfold afterField
  by_cases last : fields = []
  · rw [if_pos last, if_pos last, last]
    exact JsonValue.afterMember_brace n name value rest
  · rw [if_neg last, if_neg last]
    refine (JsonValue.afterMember_comma n name value _).trans ?_
    exact congrArg (Option.map _) (JsonValue.readMembers_space rfl n _)

/-- The names of the fields can stand in the text. -/
def Named (fields : List FieldText) : Prop := ∀ field ∈ fields, Plain (codes field.col.name)

/-- One member is read, and then the rest. -/
theorem readMembers_cons (n : ℕ) {field : FieldText} (named : Plain (codes field.col.name))
    (fields : List FieldText) (rest : List ℕ) :
    readMembers (n + 1) (codes (membersText (field :: fields)) ++ rest) =
      (readValue n (codes field.text ++ afterField fields rest)).bind
        fun read => afterMember n (codes field.col.name) read.1 read.2 := by
  rw [codes_membersText_cons, JsonValue.readMembers_space rfl, JsonValue.readMembers_member n named,
    JsonValue.readValue_space rfl]

/-- Safe fields are read back as members. -/
theorem readMembers_safe {fields : List FieldText} (named : Named fields)
    (safe : ∀ field ∈ fields, field.Safe) (filled : fields ≠ []) (rest : List ℕ) :
    ∀ {n : ℕ}, fields.length < n →
      readMembers n (codes (membersText fields) ++ 125 :: rest) =
        some (fields.map FieldText.member, rest) := by
  induction fields with
  | nil => exact absurd rfl filled
  | cons field fields ih =>
      intro n enough
      obtain ⟨word, others⟩ := List.forall_mem_cons.mp named
      obtain ⟨here, later⟩ := List.forall_mem_cons.mp safe
      rw [List.length_cons] at enough
      obtain ⟨n, rfl⟩ : ∃ m, n = m + 2 := ⟨n - 2, by omega⟩
      rw [readMembers_cons _ word, readValue_field n here, Option.bind_some, afterMember_afterField]
      by_cases last : fields = []
      · rw [if_pos last, last]
        rfl
      · rw [if_neg last, ih others later last (by omega)]
        rfl

/-- A text field that is not safe is read as a shorter text, when it is read at all. -/
theorem readValue_marred {n : ℕ} {field : FieldText} (bounded : field.Bounded)
    (marred : ¬ field.Safe) {fields : List FieldText} {rest left : List ℕ} {value : JsonValue}
    (read : readValue n (codes field.text ++ afterField fields rest) = some (value, left)) :
    ∃ word, value = .string word ∧ word.length < field.bytes.length := by
  unfold FieldText.Bounded at bounded
  unfold FieldText.Safe at marred
  unfold FieldText.text at read
  cases tp : field.col.tp with
  | integer =>
      rw [tp] at marred
      exact absurd (bounded tp) marred
  | text =>
      rw [tp] at marred read
      dsimp only at marred read
      have quoted : codes (34 :: (cstr field.bytes ++ [34])) ++ afterField fields rest =
          34 :: (codes (cstr field.bytes) ++ 34 :: afterField fields rest) := by
        change 34 :: (codes (cstr field.bytes ++ [34]) ++ _) = _
        rw [codes_append, List.append_assoc]
        rfl
      rw [quoted] at read
      cases n with
      | zero => cases read
      | succ n =>
          rw [JsonValue.readValue_quote] at read
          obtain ⟨⟨word, left⟩, found, ended⟩ := Option.map_eq_some_iff.mp read
          cases ended
          obtain ⟨short, plain⟩ :=
            JsonValue.readString_shorter (readString_afterField fields rest) found
          have whole := length_cstr_le field.bytes
          unfold codes at short plain
          rw [List.length_map] at short plain
          refine ⟨word, rfl, ?_⟩
          rcases plain rfl with plain | shorter
          · -- the text is cut at a NUL
            refine short.trans_lt (length_cstr_lt_iff.mpr ?_)
            by_contra clean
            rw [cstr_eq_self clean] at plain
            exact marred plain
          · exact shorter.trans_le whole

/-- The members that are read when not every field is safe. -/
theorem readMembers_marred {fields : List FieldText} (named : Named fields)
    (bounded : ∀ field ∈ fields, field.Bounded) {rest : List ℕ} :
    ∀ {n : ℕ} {members : List (List ℕ × JsonValue)} {left : List ℕ},
      readMembers n (codes (membersText fields) ++ 125 :: rest) = some (members, left) →
        (∀ field ∈ fields, field.Safe) ∧ members = fields.map FieldText.member ∨
          ∃ front field back word more, fields = front ++ field :: back ∧
            members = front.map FieldText.member ++ (codes field.col.name, .string word) :: more ∧
              word.length < field.bytes.length := by
  induction fields with
  | nil =>
      intro n members left read
      cases n <;> cases read
  | cons field fields ih =>
      intro n members left read
      obtain ⟨word, others⟩ := List.forall_mem_cons.mp named
      obtain ⟨int, ints⟩ := List.forall_mem_cons.mp bounded
      cases n with
      | zero => cases read
      | succ n =>
          rw [readMembers_cons _ word] at read
          obtain ⟨⟨value, rest'⟩, here, read⟩ := Option.bind_eq_some_iff.mp read
          by_cases safe : field.Safe
          · cases n with
            | zero => cases here
            | succ n =>
                rw [readValue_field n safe] at here
                cases here
                rw [afterMember_afterField] at read
                by_cases last : fields = []
                · rw [if_pos last] at read
                  cases read
                  rw [last]
                  exact Or.inl ⟨List.forall_mem_singleton.mpr safe, rfl⟩
                · rw [if_neg last] at read
                  obtain ⟨⟨members, left⟩, later, ended⟩ := Option.map_eq_some_iff.mp read
                  cases ended
                  rcases ih others ints later with ⟨all, rfl⟩ |
                    ⟨front, found, back, word, more, rfl, rfl, short⟩
                  · exact Or.inl ⟨List.forall_mem_cons.mpr ⟨safe, all⟩, rfl⟩
                  · exact Or.inr ⟨field :: front, found, back, word, more, rfl, rfl, short⟩
          · obtain ⟨word, rfl, short⟩ := readValue_marred int safe here
            obtain ⟨more, rfl⟩ := JsonValue.afterMember_first read
            exact Or.inr ⟨[], field, fields, word, more, rfl, rfl, short⟩

/-! ## Reading the text -/

/-- What stands behind the object of the fields. -/
def closing : List ℕ := [32, 93, 32, 125]

/-- The text of a payload: the root, and an object in it. -/
theorem codes_payloadText (root : List Byte) (fields : List FieldText) :
    codes (payloadText root fields) = 123 :: 32 :: 34 ::
      (codes root ++ 34 :: 32 :: 58 :: 32 :: 91 ::
      32 :: 123 :: 10 :: (codes (membersText fields) ++ 125 :: closing)) := by
  unfold payloadText
  simp only [codes_append, List.append_assoc]
  rfl

/-- The inner object is read member by member. -/
theorem readObject_fields (n : ℕ) (fields : List FieldText) (rest : List ℕ) :
    readObject n (10 :: (codes (membersText fields) ++ 125 :: rest)) =
      if fields = [] then some ([], rest)
      else readMembers n (codes (membersText fields) ++ 125 :: rest) := by
  cases fields with
  | nil => rfl
  | cons field fields =>
      rw [if_neg (List.cons_ne_nil _ _), codes_membersText_cons]
      exact JsonValue.readMembers_space rfl n _

/-- Each member has a character at least. -/
theorem length_le_membersText (fields : List FieldText) :
    fields.length ≤ (membersText fields).length := by
  induction fields with
  | nil => exact le_rfl
  | cons field fields ih =>
      rw [membersText, List.length_append, List.length_cons, List.length_cons]
      omega

/-- The inner object is read as the fields. -/
theorem readValue_inner {fields : List FieldText} (named : Named fields)
    (safe : ∀ field ∈ fields, field.Safe) {n : ℕ} (enough : fields.length < n) :
    readValue (n + 1) (123 :: 10 :: (codes (membersText fields) ++ 125 :: closing)) =
      some (.object (fields.map FieldText.member), closing) := by
  rw [JsonValue.readValue_brace, readObject_fields]
  by_cases none : fields = []
  · rw [if_pos none, none]
    rfl
  · rw [if_neg none, readMembers_safe named safe none closing enough]
    rfl

/-- The text of safe fields is read back as the root with the fields. -/
theorem read_payloadText {root : List Byte} {fields : List FieldText} (plain : Plain (codes root))
    (named : Named fields) (safe : ∀ field ∈ fields, field.Safe) :
    JsonValue.read (codes (payloadText root fields)) =
      some (.object [(codes root, .array [.object (fields.map FieldText.member)])]) := by
  have long : fields.length + 10 ≤ (codes (payloadText root fields)).length := by
    have members := length_le_membersText fields
    unfold payloadText codes
    simp only [List.length_map, List.length_append, List.length_cons, List.length_nil]
    omega
  obtain ⟨n, length⟩ : ∃ n, (codes (payloadText root fields)).length = n + 5 :=
    ⟨_, (Nat.sub_add_cancel (Nat.le_trans (by omega) long)).symm⟩
  have object := @readValue_inner fields named safe (n + 1) (by omega)
  have items :
    readItems (n + 3) (32 :: 123 :: 10 :: (codes (membersText fields) ++ 125 :: closing)) =
      some ([.object (fields.map FieldText.member)], [32, 125]) :=
    JsonValue.readItems_single ((JsonValue.readValue_space rfl _ _).trans object) rfl rfl
  have array : readValue (n + 4)
      (91 :: 32 :: 123 :: 10 :: (codes (membersText fields) ++ 125 :: closing)) =
        some (.array [.object (fields.map FieldText.member)], [32, 125]) := by
    rw [JsonValue.readValue_bracket (n + 3) rfl, items]
    rfl
  unfold JsonValue.read
  rw [length, codes_payloadText, JsonValue.readValue_brace]
  have outer : readObject (n + 5) (32 :: 34 :: (codes root ++ 34 :: 32 :: 58 :: 32 :: 91 :: 32 ::
      123 :: 10 :: (codes (membersText fields) ++ 125 :: closing))) =
        some ([(codes root, .array [.object (fields.map FieldText.member)])], []) := by
    refine (JsonValue.readMembers_space rfl _ _).trans ?_
    rw [JsonValue.readMembers_member (n + 4) plain, JsonValue.readValue_space rfl, array]
    rfl
  rw [outer]
  rfl

/-- What is read of the root has the inner object as its value. -/
theorem inner_of_readMembers {root : List Byte} (plain : Plain (codes root)) {n : ℕ}
    {text left : List ℕ} {members : List (List ℕ × JsonValue)}
    (read : readMembers n (34 :: (codes root ++ 34 :: 32 :: 58 :: 32 :: 91 :: 32 :: 123 :: text)) =
      some ([(codes root, .array [.object members])], left)) :
    ∃ n left, readObject n text = some (members, left) := by
  cases n with
  | zero => cases read
  | succ n =>
      rw [JsonValue.readMembers_member n plain] at read
      obtain ⟨⟨value, rest⟩, array, read⟩ := Option.bind_eq_some_iff.mp read
      obtain ⟨_, same⟩ := JsonValue.afterMember_first read
      cases same
      have bracket := (JsonValue.readValue_space rfl _ _).symm.trans array
      cases n with
      | zero => cases bracket
      | succ n =>
          rw [JsonValue.readValue_bracket n rfl] at bracket
          obtain ⟨⟨items, rest⟩, items_read, ended⟩ := Option.map_eq_some_iff.mp bracket
          cases ended
          cases n with
          | zero => cases items_read
          | succ n =>
              obtain ⟨rest, object⟩ := JsonValue.readItems_first items_read
              have brace := (JsonValue.readValue_space rfl _ _).symm.trans object
              cases n with
              | zero => cases brace
              | succ n =>
                  rw [JsonValue.readValue_brace] at brace
                  obtain ⟨⟨found, rest⟩, inner, ended⟩ := Option.map_eq_some_iff.mp brace
                  cases ended
                  exact ⟨n, rest, inner⟩

/-- What is read of a text when it is that of an object with the root as its only member. -/
theorem members_of_read {root : List Byte} {fields : List FieldText}
    {members : List (List ℕ × JsonValue)}
    (read : JsonValue.read (codes (payloadText root fields)) =
      some (.object [(codes root, .array [.object members])])) :
    Plain (codes root) ∧ ∃ n left,
      readObject n (10 :: (codes (membersText fields) ++ 125 :: closing)) =
          some (members, left) := by
  unfold JsonValue.read at read
  obtain ⟨⟨value, left⟩, whole, ended⟩ := Option.bind_eq_some_iff.mp read
  dsimp only at ended
  split at ended
  · cases ended
    rw [codes_payloadText, JsonValue.readValue_brace] at whole
    obtain ⟨⟨found, left⟩, outer, ended⟩ := Option.map_eq_some_iff.mp whole
    cases ended
    have named := (JsonValue.readMembers_space rfl _ _).symm.trans outer
    have plain : Plain (codes root) := by
      obtain ⟨rest, word⟩ := JsonValue.readMembers_quote named
      exact ((JsonValue.readString_shorter rfl word).2 rfl).resolve_right (lt_irrefl _)
    exact ⟨plain, inner_of_readMembers plain named⟩
  · cases ended

/-! ## Sizes -/

/-- The length of a value in the text. -/
def FieldText.size (field : FieldText) : ℕ :=
  match field.col.tp with
  | .text => field.bytes.length + 2
  | .integer => (decimalText (atoi (cstr field.bytes))).length

/-- The length of the text. Every field takes seven characters more, and a comma before the next. -/
def payloadSize (root : List Byte) (fields : List FieldText) : ℕ :=
  16 + root.length + (fields.map fun field => field.col.name.length + field.size + 7).sum +
    (fields.length - 1)

/-- The text of a safe field has the size that is reckoned with. -/
theorem length_text {field : FieldText} (safe : field.Safe) : field.text.length = field.size := by
  unfold FieldText.Safe at safe
  unfold FieldText.text FieldText.size
  cases tp : field.col.tp with
  | text =>
      rw [tp] at safe
      dsimp only
      rw [cstr_of_plain safe, List.length_cons, List.length_append, List.length_singleton]
  | integer => rfl

/-- The texts of safe members have the sizes that are reckoned with. -/
theorem length_membersText {fields : List FieldText} (safe : ∀ field ∈ fields, field.Safe) :
    (membersText fields).length =
      (fields.map fun field => field.col.name.length + field.size + 7).sum +
      (fields.length - 1) := by
  induction fields with
  | nil => rfl
  | cons field fields ih =>
      obtain ⟨here, later⟩ := List.forall_mem_cons.mp safe
      rw [membersText, List.map_cons, List.sum_cons]
      simp only [List.length_append, List.length_cons, List.length_nil, length_text here, ih later]
      cases fields with
      | nil =>
          rw [if_pos rfl, List.length_nil, List.length_nil]
          omega
      | cons next fields =>
          rw [if_neg (List.cons_ne_nil _ _), List.length_singleton, List.length_cons]
          omega

/-- The text of a payload has the size that is reckoned with. -/
theorem length_payloadText {root : List Byte} {fields : List FieldText}
    (safe : ∀ field ∈ fields, field.Safe) :
    (payloadText root fields).length = payloadSize root fields := by
  unfold payloadText payloadSize
  simp only [List.length_append, List.length_cons, List.length_nil, length_membersText safe]
  omega

/-! ## The writes of a table -/

/-- A record whose text can be sent: the fields lie in it with a byte after the last, a text has no
character that is to be escaped, an integer is an int, and the whole fits in the buffer. -/
structure PayloadFits (cpy : Copybook) (record : List Byte) : Prop where
  room : Room record 0 cpy.fields
  root : Plain (codes cpy.root)
  safe : ∀ field ∈ fieldTexts record 0 cpy.fields, field.Safe
  short : payloadSize cpy.root (fieldTexts record 0 cpy.fields) ≤ maxArgsJson

/-- Each write has added the fields of the copybook once more. -/
theorem ApiWrites.columns {cpy : Copybook} {n : ℕ} {tab : ApiTable}
    (writes : ApiWrites cpy.text n tab) : tab.columns = (List.replicate n cpy.fields).flatten := by
  induction writes with
  | opened => rfl
  | write _ sent ih =>
      obtain ⟨rfl, _⟩ := threadApiStart_iff.mp sent
      dsimp only
      rw [ih, List.replicate_succ', List.flatten_append, List.flatten_singleton]

/-- The fields of two lists of columns, one behind the other. -/
theorem fieldTexts_append {record : List Byte} {front back : List ApiColumn} :
    ∀ {offset : ℕ}, ∃ offset', fieldTexts record offset (front ++ back) =
      fieldTexts record offset front ++ fieldTexts record offset' back := by
  induction front with
  | nil => exact fun {offset} => ⟨offset, rfl⟩
  | cons col front ih =>
      intro offset
      obtain ⟨offset', rest⟩ := @ih (offset + col.len)
      exact ⟨offset', by rw [List.cons_append, fieldTexts, rest, fieldTexts, List.cons_append]⟩

/-- The fields have the columns they were made for. -/
theorem fieldTexts_col {record : List Byte} {cols : List ApiColumn} :
    ∀ {offset : ℕ}, (fieldTexts record offset cols).map FieldText.col = cols := by
  induction cols with
  | nil => exact rfl
  | cons col cols ih =>
      intro offset
      rw [fieldTexts, List.map_cons, ih]

/-- The names of a copybook need no escapes. -/
theorem Copybook.named (cpy : Copybook) : ∀ col ∈ cpy.fields, Plain (codes col.name) := by
  intro col member
  obtain ⟨line, _, found⟩ := List.mem_filterMap.mp member
  cases line with
  | field line =>
      cases found
      exact plain_of_word line.word
  | other _ _ _ _ => cases found

/-- The names of a copybook tell its fields apart. -/
theorem Copybook.field_eq {cpy : Copybook} {record : List Byte} {first second : FieldText}
    (here : first ∈ fieldTexts record 0 cpy.fields)
    (there : second ∈ fieldTexts record 0 cpy.fields)
    (same : codes first.col.name = codes second.col.name) : first = second := by
  have names : (fieldTexts record 0 cpy.fields).map (fun field => field.col.name) =
      cpy.fields.map ApiColumn.name := by
    conv_rhs => rw [← @fieldTexts_col record cpy.fields 0]
    rw [List.map_map]
    rfl
  have apart : ((fieldTexts record 0 cpy.fields).map fun field => field.col.name).Nodup := by
    rw [names]
    exact cpy.apart
  exact List.inj_on_of_nodup_map apart here there
    (List.map_injective_iff.mpr Fin.val_injective same)

/-- When what is read is the object of the record, the fields were written once, and each of them
could stand in the text as it is. -/
theorem once_of_read {cpy : Copybook} {record : List Byte} {later : List ApiColumn}
    (named : Named (fieldTexts record 0 (cpy.fields ++ later)))
    (bounded : ∀ field ∈ fieldTexts record 0 (cpy.fields ++ later), field.Bounded) {n : ℕ}
    {rest left : List ℕ} {members : List (List ℕ × JsonValue)}
    (read : readMembers n (codes (membersText (fieldTexts record 0 (cpy.fields ++ later))) ++
      125 :: rest) = some (members, left))
    (object : members.Perm (apiObject cpy record)) :
    later = [] ∧ ∀ field ∈ fieldTexts record 0 cpy.fields, field.Safe := by
  obtain ⟨offset, split⟩ := @fieldTexts_append record cpy.fields later 0
  have length := object.length_eq
  unfold apiObject at object length
  rw [List.length_map] at length
  rw [split] at named bounded read
  rcases readMembers_marred named bounded read with ⟨safe, rfl⟩ |
    ⟨front, field, back, word, more, parts, rfl, short⟩
  · rw [List.length_map, List.length_append, Nat.add_eq_left, List.length_eq_zero_iff,
      fieldTexts_eq_nil] at length
    exact ⟨length, fun field member => safe field (List.mem_append_left _ member)⟩
  · -- the field is one of the copybook's own, where another text is read for it
    have before : front.length < (fieldTexts record 0 cpy.fields).length := by
      rw [← length, List.length_append, List.length_cons, List.length_map]
      omega
    have own : field ∈ fieldTexts record 0 cpy.fields := by
      have place := congrArg (·[front.length]?) parts
      rw [List.getElem?_append_left before, List.getElem?_append_right le_rfl, Nat.sub_self,
        List.getElem?_cons_zero] at place
      exact List.mem_of_getElem? place
    have there := object.mem_iff.mp (List.mem_append_right _ List.mem_cons_self)
    obtain ⟨other, member, same⟩ := List.mem_map.mp there
    obtain ⟨name, value⟩ := Prod.mk.inj same
    obtain rfl := Copybook.field_eq member own name
    unfold FieldText.value at value
    split at value
    · obtain rfl := JsonValue.string.inj value
      unfold codes at short
      rw [List.length_map] at short
      exact absurd short (lt_irrefl _)
    · cases value

/-- The fields of a copybook have plain names. -/
theorem named_fields {cpy : Copybook} {cols : List ApiColumn} (own : ∀ col ∈ cols, col ∈ cpy.fields)
    (record : List Byte) : Named (fieldTexts record 0 cols) := by
  intro field member
  have col := @List.mem_map_of_mem _ _ _ _ FieldText.col member
  rw [fieldTexts_col] at col
  exact cpy.named field.col (own field.col col)

/-- A first write sends the text of a record that fits. -/
theorem sendsPayload_first {cpy : Copybook} {tab : ApiTable} (none : tab.columns = [])
    {record : List Byte} (fits : PayloadFits cpy record) : SendsPayload cpy tab record := by
  have bounded : ∀ field ∈ fieldTexts record 0 cpy.fields, field.Bounded := by
    intro field member integer
    have safe := fits.safe field member
    unfold FieldText.Safe at safe
    rwa [integer] at safe
  have named : Named (fieldTexts record 0 cpy.fields) :=
    named_fields (fun _ member => member) record
  refine ⟨_, ⟨cpy.root, tab.columns ++ cpy.fields⟩, _, threadApiStart_iff.mpr ⟨rfl, ?_⟩,
    read_payloadText fits.root named fits.safe, List.Perm.refl _⟩
  dsimp only
  rw [none, List.nil_append]
  refine ⟨fits.room, bounded, rfl, ?_⟩
  rw [length_payloadText fits.safe]
  exact fits.short

/-- A write that sends the text is the first, of a record that fits. -/
theorem fits_of_sendsPayload {cpy : Copybook} {n : ℕ} {tab : ApiTable}
    (writes : ApiWrites cpy.text n tab) {record : List Byte} (sends : SendsPayload cpy tab record) :
    tab.columns = [] ∧ PayloadFits cpy record := by
  obtain ⟨json, later, members, sent, read, object⟩ := sends
  obtain ⟨rfl, room, bounded, rfl, short⟩ := threadApiStart_iff.mp sent
  dsimp only at room bounded read short
  have turned : tab.columns ++ cpy.fields = cpy.fields ++ tab.columns := by
    rw [writes.columns, ← List.flatten_concat, ← List.flatten_cons, ← List.replicate_succ,
      ← List.replicate_succ']
  have named : Named (fieldTexts record 0 (cpy.fields ++ tab.columns)) := by
    apply named_fields
    intro col member
    rcases List.mem_append.mp member with member | member
    · exact member
    · rw [writes.columns] at member
      obtain ⟨copy, copies, member⟩ := List.mem_flatten.mp member
      rwa [List.eq_of_mem_replicate copies] at member
  rw [turned] at room bounded read short
  obtain ⟨root, m, left, inner⟩ := members_of_read read
  have once : tab.columns = [] ∧ ∀ field ∈ fieldTexts record 0 cpy.fields, field.Safe := by
    rw [readObject_fields] at inner
    split at inner
    · rename_i empty
      obtain ⟨no_fields, no_columns⟩ := List.append_eq_nil_iff.mp (fieldTexts_eq_nil.mp empty)
      rw [no_fields]
      exact ⟨no_columns, List.forall_mem_nil _⟩
    · exact once_of_read named bounded inner object
  obtain ⟨none, safe⟩ := once
  rw [none, List.append_nil] at room short
  rw [length_payloadText safe] at short
  exact ⟨none, room, root, safe, short⟩

/-- What a write sends is the JSON text of the record exactly for the first write after the table
was opened, when the record fits. -/
theorem api_payload_iff {cpy : Copybook} {n : ℕ} {tab : ApiTable}
    (writes : ApiWrites cpy.text n tab) (record : List Byte) :
    SendsPayload cpy tab record ↔ (n = 0 ∨ cpy.fields = []) ∧ PayloadFits cpy record := by
  have none : tab.columns = [] ↔ n = 0 ∨ cpy.fields = [] := by
    rw [writes.columns, List.flatten_eq_nil_iff]
    simp only [List.mem_replicate]
    constructor
    · intro all
      by_contra neither
      obtain ⟨later, some⟩ := not_or.mp neither
      exact some (all _ ⟨later, rfl⟩)
    · rintro (first | empty) copy ⟨some, rfl⟩
      · exact absurd first some
      · exact empty
  constructor
  · intro sends
    obtain ⟨first, fits⟩ := fits_of_sendsPayload writes sends
    exact ⟨none.mp first, fits⟩
  · rintro ⟨first, fits⟩
    exact sendsPayload_first (none.mpr first) fits

/-- `       03 nome pic x(3).` -/
def nomeLine : CpyField where
  indent := 7
  blanks := 0
  column := ⟨[110, 111, 109, 101], .text, 3⟩
  digits := [3]
  gap := [112, 105, 99, 32]
  tail := [46]
  named := List.cons_ne_nil _ _
  word := by decide +kernel
  short := by decide
  decimal := by decide
  filled := List.cons_ne_nil _ _
  counts := by decide
  clear := by decide +kernel
  blank := rfl
  ended := List.forall_mem_singleton.mpr (Or.inl rfl)
  fits := by decide

/-- `       03 filial pic 9(02).` -/
def filialLine : CpyField where
  indent := 7
  blanks := 0
  column := ⟨[102, 105, 108, 105, 97, 108], .integer, 2⟩
  digits := [0, 2]
  gap := [112, 105, 99, 32]
  tail := [46]
  named := List.cons_ne_nil _ _
  word := by decide +kernel
  short := by decide
  decimal := by decide
  filled := List.cons_ne_nil _ _
  counts := by decide
  clear := by decide +kernel
  blank := rfl
  ended := List.forall_mem_singleton.mpr (Or.inl rfl)
  fits := by decide

/-- A copybook of two fields, with the root `cliente`. -/
def clienteCpy : Copybook where
  label := List.replicate 6 32 ++ [42]
  root := [99, 108, 105, 101, 110, 116, 101]
  lines := [.field nomeLine, .field filialLine]
  seven := rfl
  clear := by decide +kernel
  short := by decide
  apart := by decide

/-- The record `ana07`, with a NUL after it. -/
def anaRecord : List Byte := [97, 110, 97, 48, 55, 0]

/-- The record of the example fits. -/
theorem anaRecord_fits : PayloadFits clienteCpy anaRecord where
  room := by unfold Room; decide
  root := by unfold Plain; decide
  safe := by
    have nome : Plain [97, 110, 97] := by unfold Plain; decide
    have filial : IsInt 7 := by decide
    exact List.forall_mem_cons.mpr ⟨nome, List.forall_mem_singleton.mpr filial⟩
  short := by decide

/-- The first write of `ana07` sends its JSON text. -/
theorem api_payload_iff_first : SendsPayload clienteCpy .opened anaRecord :=
  (api_payload_iff .opened anaRecord).mpr ⟨Or.inl rfl, anaRecord_fits⟩

/-- The second write of `ana07` sends a text that has every field twice. -/
theorem api_payload_second :
    ∃ tab, ApiWrites clienteCpy.text 1 tab ∧ ¬ SendsPayload clienteCpy tab anaRecord := by
  have first : SendsPayload clienteCpy .opened anaRecord := sendsPayload_first rfl anaRecord_fits
  obtain ⟨json, later, _, sent, _⟩ := first
  have writes := ApiWrites.write .opened sent
  refine ⟨later, writes, fun sends => ?_⟩
  have none := (fits_of_sendsPayload writes sends).1
  rw [writes.columns] at none
  exact absurd none (List.cons_ne_nil _ _)

end Pqfh
