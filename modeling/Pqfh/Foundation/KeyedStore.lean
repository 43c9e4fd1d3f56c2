import Mathlib.Data.List.Nodup
import Mathlib.Logic.Function.Basic

/-! # Keyed stores

A keyed store has at most one record under each key. READ and DELETE name a key, WRITE and
REWRITE bring a record that goes under its own key (`KeyedStore.perform`).

A list of records whose keys are distinct stands for a store (`KeyedStore.ofList`). Appending a
record, replacing one and filtering one out of the list are what WRITE, REWRITE and DELETE make
of the store.

`KeyedStore.run_refines` takes a machine that performs single calls as a store does to whole
runs.
-/

namespace KeyedStore

variable {κ ρ : Type*} [DecidableEq κ]

/-- The records of a store by their keys. -/
abbrev Records (κ ρ : Type*) := κ → Option ρ

/-- A call. -/
inductive Call (κ ρ : Type*) where
  | read (k : κ)
  | write (record : ρ)
  | rewrite (record : ρ)
  | delete (k : κ)
  deriving DecidableEq

/-- What a call returns. A WRITE is refused when there is a record under its key. -/
inductive Reply (ρ : Type*) where
  | done
  | found (record : ρ)
  | refused (record : ρ)
  | missing
  deriving DecidableEq

/-- What a call makes of a store, and what it returns. -/
def perform (key : ρ → κ) : Call κ ρ → Records κ ρ → Reply ρ × Records κ ρ
  | .read k, store =>
      match store k with
      | some record => (.found record, store)
      | none => (.missing, store)
  | .write record, store =>
      match store (key record) with
      | some stored => (.refused stored, store)
      | none => (.done, Function.update store (key record) (some record))
  | .rewrite record, store =>
      match store (key record) with
      | some _ => (.done, Function.update store (key record) (some record))
      | none => (.missing, store)
  | .delete k, store =>
      match store k with
      | some record => (.found record, Function.update store k none)
      | none => (.missing, store)

/-- Whether a call was done. -/
def Reply.succeeds : Reply ρ → Bool
  | .done | .found _ => true
  | .refused _ | .missing => false

/-- A call that is not done leaves the store. -/
theorem perform_fails {key : ρ → κ} {call : Call κ ρ} {store : Records κ ρ}
    (fails : (perform key call store).1.succeeds = false) : (perform key call store).2 = store := by
  cases call with
  | read k => cases stored : store k <;> simp only [perform, stored]
  | write record =>
      cases stored : store (key record) with
      | some old => simp only [perform, stored]
      | none =>
          simp only [perform, stored, Reply.succeeds] at fails
          cases fails
  | rewrite record =>
      cases stored : store (key record) with
      | none => simp only [perform, stored]
      | some old =>
          simp only [perform, stored, Reply.succeeds] at fails
          cases fails
  | delete k =>
      cases stored : store k with
      | none => simp only [perform, stored]
      | some old =>
          simp only [perform, stored, Reply.succeeds] at fails
          cases fails

/-! ## Lists of records -/

/-- The store that a list of records stands for. -/
def ofList (key : ρ → κ) (records : List ρ) : Records κ ρ :=
  fun k => records.find? fun record => key record = k

/-- The list with a record in the place of the one under its key. -/
def replace (key : ρ → κ) (new : ρ) (records : List ρ) : List ρ :=
  records.map fun record => if key record = key new then new else record

/-- The list without the record under a key. -/
def remove (key : ρ → κ) (k : κ) (records : List ρ) : List ρ :=
  records.filter fun record => key record ≠ k

section Lists

variable {key : ρ → κ} {records : List ρ}

theorem ofList_eq_none_iff {k : κ} :
    ofList key records k = none ↔ ∀ record ∈ records, key record ≠ k := by
  unfold ofList
  rw [List.find?_eq_none]
  simp only [decide_eq_true_eq, ne_eq]

theorem mem_of_ofList {k : κ} {record : ρ} (stored : ofList key records k = some record) :
    record ∈ records ∧ key record = k := by
  have here := List.find?_some stored
  rw [decide_eq_true_eq] at here
  exact ⟨List.mem_of_find?_eq_some stored, here⟩

/-- With distinct keys, the record under a key is the one of the list. -/
theorem ofList_eq_some_iff (distinct : (records.map key).Nodup) {k : κ} {record : ρ} :
    ofList key records k = some record ↔ record ∈ records ∧ key record = k := by
  refine ⟨mem_of_ofList, ?_⟩
  intro ⟨member, here⟩
  obtain absent | ⟨other, stored⟩ := Option.eq_none_or_eq_some (ofList key records k)
  · exact absurd here (ofList_eq_none_iff.mp absent record member)
  · obtain ⟨member', there⟩ := mem_of_ofList stored
    rw [stored, List.inj_on_of_nodup_map distinct member' member (there.trans here.symm)]

/-- Lists with distinct keys that stand for one store have the same records. -/
theorem perm_of_ofList {records' : List ρ} (distinct : (records.map key).Nodup)
    (distinct' : (records'.map key).Nodup) (same : ofList key records = ofList key records') :
    records.Perm records' := by
  rw [List.perm_ext_iff_of_nodup (List.Nodup.of_map key distinct) (List.Nodup.of_map key distinct')]
  intro record
  have here := @ofList_eq_some_iff _ _ _ key records distinct (key record) record
  have there := @ofList_eq_some_iff _ _ _ key records' distinct' (key record) record
  rw [same] at here
  rw [and_iff_left rfl] at here there
  exact here.symm.trans there

/-- A record appended under a new key. -/
theorem ofList_append (new : ρ) (absent : ofList key records (key new) = none) :
    ofList key (records ++ [new]) =
      Function.update (ofList key records) (key new) (some new) := by
  funext k
  by_cases here : k = key new
  · subst here
    rw [Function.update_self]
    unfold ofList at absent ⊢
    rw [List.find?_append, absent, Option.none_or]
    exact List.find?_cons_of_pos (decide_eq_true rfl)
  · rw [Function.update_of_ne here]
    unfold ofList
    rw [List.find?_append]
    have other : [new].find? (fun record => decide (key record = k)) = none :=
      List.find?_cons_of_neg (by simpa only [decide_eq_true_eq] using Ne.symm here)
    rw [other, Option.or_none]

theorem nodup_append (new : ρ) (distinct : (records.map key).Nodup)
    (absent : ofList key records (key new) = none) : ((records ++ [new]).map key).Nodup := by
  rw [List.map_append]
  apply List.Nodup.append distinct (List.nodup_singleton _)
  intro k member here
  obtain ⟨record, member', rfl⟩ := List.mem_map.mp member
  exact ofList_eq_none_iff.mp absent record member' (List.mem_singleton.mp here)

theorem map_key_replace (new : ρ) : (replace key new records).map key = records.map key := by
  unfold replace
  rw [List.map_map]
  apply List.map_congr_left
  intro record _
  by_cases same : key record = key new
  · rw [Function.comp_apply, if_pos same, same]
  · rw [Function.comp_apply, if_neg same]

theorem mem_replace {new record : ρ} (member : record ∈ replace key new records) :
    record = new ∨ record ∈ records := by
  obtain ⟨old, member', rfl⟩ := List.mem_map.mp member
  split
  · exact Or.inl rfl
  · exact Or.inr member'

/-- A record replaced by one under the same key. -/
theorem ofList_replace (distinct : (records.map key).Nodup) {new : ρ}
    (present : ofList key records (key new) ≠ none) :
    ofList key (replace key new records) =
      Function.update (ofList key records) (key new) (some new) := by
  have distinct' : ((replace key new records).map key).Nodup := by rwa [map_key_replace]
  funext k
  apply Option.ext
  intro record
  rw [ofList_eq_some_iff distinct']
  by_cases here : k = key new
  · subst here
    rw [Function.update_self, Option.some_inj]
    refine ⟨?_, ?_⟩
    · intro ⟨member, same⟩
      obtain ⟨old, member', rfl⟩ := List.mem_map.mp member
      split
      · rfl
      · rename_i other
        rw [if_neg other] at same
        exact absurd same other
    · rintro rfl
      obtain ⟨old, stored⟩ := Option.ne_none_iff_exists'.mp present
      obtain ⟨member, same⟩ := mem_of_ofList stored
      exact ⟨List.mem_map.mpr ⟨old, member, if_pos same⟩, rfl⟩
  · rw [Function.update_of_ne here, ofList_eq_some_iff distinct]
    refine ⟨?_, ?_⟩
    · intro ⟨member, same⟩
      rcases mem_replace member with rfl | member
      · exact absurd same.symm here
      · exact ⟨member, same⟩
    · intro ⟨member, same⟩
      have other : key record ≠ key new := fun there => here (same.symm.trans there)
      exact ⟨List.mem_map.mpr ⟨record, member, if_neg other⟩, same⟩

/-- Replacing a record by itself changes nothing. -/
theorem replace_self (distinct : (records.map key).Nodup) {record : ρ} (member : record ∈ records) :
    replace key record records = records := by
  unfold replace
  conv_rhs => rw [← List.map_id records]
  apply List.map_congr_left
  intro other member'
  split
  · rename_i same
    exact List.inj_on_of_nodup_map distinct member member' same.symm
  · rfl

/-- Putting a record in the place of the one with its key replaces that one. -/
theorem set_eq_replace {new stored : ρ} :
    ∀ {records : List ρ} {i : ℕ}, (records.map key).Nodup → records[i]? = some stored →
      key stored = key new → records.set i new = replace key new records
  | record :: records, 0, distinct, present, same => by
      cases present
      rw [List.map_cons, List.nodup_cons] at distinct
      have rest : records.map (fun other => if key other = key new then new else other) =
          records := by
        conv_rhs => rw [← List.map_id records]
        refine List.map_congr_left fun other member => if_neg fun equal => distinct.1 ?_
        rw [same, ← equal]
        exact List.mem_map_of_mem member
      unfold replace
      rw [List.set_cons_zero, List.map_cons, if_pos same, rest]
  | record :: records, i + 1, distinct, present, same => by
      rw [List.map_cons, List.nodup_cons] at distinct
      have later : records[i]? = some stored := present
      have other : key record ≠ key new := by
        rw [← same]
        intro equal
        exact distinct.1 (equal ▸ List.mem_map_of_mem (List.mem_of_getElem? later))
      unfold replace
      rw [List.set_cons_succ, List.map_cons, if_neg other, set_eq_replace distinct.2 later same]
      rfl

theorem nodup_remove (k : κ) (distinct : (records.map key).Nodup) :
    ((remove key k records).map key).Nodup :=
  distinct.sublist (List.filter_sublist.map key)

/-- A record filtered out. -/
theorem ofList_remove (k : κ) :
    ofList key (remove key k records) = Function.update (ofList key records) k none := by
  funext other
  by_cases here : other = k
  · subst here
    rw [Function.update_self, ofList_eq_none_iff]
    intro record member
    exact of_decide_eq_true (List.mem_filter.mp member).2
  · rw [Function.update_of_ne here]
    unfold ofList remove
    rw [List.find?_filter]
    congr 1
    funext record
    by_cases same : key record = other
    · simp only [same, ne_eq, here, not_false_eq_true, decide_true, and_self]
    · simp only [same, decide_false, Bool.false_eq_true, and_false]

/-- A WRITE under a new key. -/
theorem perform_write {new : ρ} (absent : key new ∉ records.map key) :
    perform key (.write new) (ofList key records) = (.done, ofList key (records ++ [new])) := by
  have stored : ofList key records (key new) = none := by
    rw [ofList_eq_none_iff]
    intro record member same
    exact absent (List.mem_map.mpr ⟨record, member, same⟩)
  rw [ofList_append new stored]
  simp only [perform, stored]

/-- A key of the list is a key of the store. -/
theorem ofList_ne_none {k : κ} (present : k ∈ records.map key) : ofList key records k ≠ none := by
  intro absent
  obtain ⟨record, member, same⟩ := List.mem_map.mp present
  exact ofList_eq_none_iff.mp absent record member same

/-- A REWRITE under a key that is there. -/
theorem perform_rewrite (distinct : (records.map key).Nodup) {new : ρ}
    (present : key new ∈ records.map key) :
    perform key (.rewrite new) (ofList key records) =
      (.done, ofList key (replace key new records)) := by
  have there := ofList_ne_none present
  obtain ⟨old, stored⟩ := Option.ne_none_iff_exists'.mp there
  rw [ofList_replace distinct there]
  simp only [perform, stored]

/-- A DELETE of a key that is there. -/
theorem perform_delete {k : κ} (present : k ∈ records.map key) :
    (perform key (.delete k) (ofList key records)).1.succeeds = true ∧
      (perform key (.delete k) (ofList key records)).2 = ofList key (remove key k records) := by
  obtain ⟨old, stored⟩ := Option.ne_none_iff_exists'.mp (ofList_ne_none present)
  rw [ofList_remove]
  simp only [perform, stored, Reply.succeeds, and_self]

end Lists

/-! ## Calls that are all done -/

/-- The store after some calls, when each of them is done. -/
def play (key : ρ → κ) : List (Call κ ρ) → Records κ ρ → Option (Records κ ρ)
  | [], store => some store
  | call :: calls, store =>
      if (perform key call store).1.succeeds then play key calls (perform key call store).2
      else none

/-- One call more. -/
theorem play_concat {key : ρ → κ} {call : Call κ ρ} :
    ∀ {calls : List (Call κ ρ)} {store store' : Records κ ρ}, play key calls store = some store' →
      (perform key call store').1.succeeds = true →
      play key (calls ++ [call]) store = some (perform key call store').2
  | [], _, _, played, done => by
      cases played
      exact if_pos done
  | first :: calls, store, store', played, done => by
      unfold play at played
      split at played
      · rename_i succeeds
        rw [List.cons_append, play, if_pos succeeds]
        exact play_concat played done
      · cases played

/-! ## Runs -/

variable {ε C S R A R' : Type*}

/-- The calls of a run one after the other, with what each returns. -/
def run (step : C → S → Except ε (R × S)) : List C → S → Except ε (List R × S)
  | [], s => .ok ([], s)
  | call :: calls, s => do
      let (reply, s) ← step call s
      let (replies, s) ← run step calls s
      return (reply :: replies, s)

/-- The calls of a run on what the machine stands for. -/
def runSpec (spec : C → A → R' × A) : List C → A → List R' × A
  | [], a => ([], a)
  | call :: calls, a =>
      let (reply, a) := spec call a
      let (replies, a) := runSpec spec calls a
      (reply :: replies, a)

/-- Each call of a run is admitted in the state that the calls before it lead to. -/
def Admitted (spec : C → A → R' × A) (admits : C → A → Prop) : List C → A → Prop
  | [], _ => True
  | call :: calls, a => admits call a ∧ Admitted spec admits calls (spec call a).2

/-- Calls that are admitted in every state. -/
theorem admitted_of_forall {spec : C → A → R' × A} {admits : C → Prop} :
    ∀ {calls : List C} (a : A), (∀ call ∈ calls, admits call) →
      Admitted spec (fun call _ => admits call) calls a
  | [], _, _ => trivial
  | call :: _, a, admitted =>
      ⟨admitted call List.mem_cons_self,
        admitted_of_forall (spec call a).2 fun other member =>
          admitted other (List.mem_cons_of_mem _ member)⟩

/-- The specification returns something for each call. -/
theorem zipWith_runSpec {spec : C → A → R' × A} : ∀ (calls : List C) (a : A),
    List.zipWith (fun _ reply => reply) calls (runSpec spec calls a).1 = (runSpec spec calls a).1
  | [], _ => rfl
  | call :: calls, a => congrArg ((spec call a).1 :: ·) (zipWith_runSpec calls (spec call a).2)

/-- A machine that answers each call it admits as the specification says, told by `answer`,
answers every run of such calls so. -/
theorem run_refines {step : C → S → Except ε (R × S)} {spec : C → A → R' × A}
    {admits : C → A → Prop} {stands : S → A → Prop} {answer : C → R' → R}
    (stepwise : ∀ call s a, admits call a → stands s a →
      ∃ s', step call s = .ok (answer call (spec call a).1, s') ∧ stands s' (spec call a).2) :
    ∀ (calls : List C) (s : S) (a : A), Admitted spec admits calls a → stands s a →
      ∃ s', run step calls s = .ok (List.zipWith answer calls (runSpec spec calls a).1, s') ∧
        stands s' (runSpec spec calls a).2
  | [], s, _, _, related => ⟨s, rfl, related⟩
  | call :: calls, s, a, admitted, related => by
      obtain ⟨s₁, stepped, related₁⟩ := stepwise call s a admitted.1 related
      obtain ⟨s', ran, related'⟩ := run_refines stepwise calls s₁ (spec call a).2 admitted.2
        related₁
      refine ⟨s', ?_, related'⟩
      unfold run
      rw [stepped]
      change (run step calls s₁ >>= fun ran =>
        pure (answer call (spec call a).1 :: ran.1, ran.2)) = _
      rw [ran]
      rfl

/-! ## Specifications that leave choices open -/

/-- The replies that a run may have, and what it may lead to. -/
inductive Outcome (spec : C → A → R → A → Prop) : List C → A → List R → A → Prop
  | nil (a : A) : Outcome spec [] a [] a
  | cons {call : C} {calls : List C} {a a₁ a' : A} {reply : R} {replies : List R}
      (served : spec call a reply a₁) (rest : Outcome spec calls a₁ replies a') :
      Outcome spec (call :: calls) a (reply :: replies) a'

/-- Each call of a run is admitted, whatever was chosen before it. -/
def AlwaysAdmitted (spec : C → A → R → A → Prop) (admits : C → A → Prop) : List C → A → Prop
  | [], _ => True
  | call :: calls, a =>
      admits call a ∧ ∀ reply a', spec call a reply a' → AlwaysAdmitted spec admits calls a'

/-- A machine that answers each call it admits in one of the ways that the specification leaves open
answers every run of such calls so. -/
theorem run_simulates {step : C → S → Except ε (R × S)} {spec : C → A → R → A → Prop}
    {admits : C → A → Prop} {stands : S → A → Prop}
    (stepwise : ∀ call s a, admits call a → stands s a →
      ∃ reply s' a', step call s = .ok (reply, s') ∧ spec call a reply a' ∧ stands s' a') :
    ∀ (calls : List C) (s : S) (a : A), AlwaysAdmitted spec admits calls a → stands s a →
      ∃ replies s' a', run step calls s = .ok (replies, s') ∧ Outcome spec calls a replies a' ∧
        stands s' a'
  | [], s, a, _, related => ⟨[], s, a, rfl, .nil a, related⟩
  | call :: calls, s, a, admitted, related => by
      obtain ⟨reply, s₁, a₁, stepped, served, related₁⟩ := stepwise call s a admitted.1 related
      obtain ⟨replies, s', a', ran, rest, related'⟩ :=
        run_simulates stepwise calls s₁ a₁ (admitted.2 reply a₁ served) related₁
      refine ⟨reply :: replies, s', a', ?_, .cons served rest, related'⟩
      unfold run
      rw [stepped]
      change (run step calls s₁ >>= fun ran => pure (reply :: ran.1, ran.2)) = _
      rw [ran]
      rfl

end KeyedStore
