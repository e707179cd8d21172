import ProcessTest.Definition.Encoding
import ProcessTest.Proofs.Validation.WellFormed

/-!
# Fields that are written back

A field that has been read from a part without faults can be written again: what is written has no
fault, either, and is read as the same.

* `Carries` — what is written for a value is of the kind of its field and is read as the value.
* `Restores` — so is what has been read from a field of a part; there is an instance for each kind
  of field.
* `Meets.restore_required`, `restore_optional`, `restore_defaulted`, `restore_omitted` — the row of
  a table, once written, has no problem and is read as before.
* `Within` — a part has no fields but those of some names; `checkFields_eq_nil` — with rows without
  problems it has no faults.
-/

set_option autoImplicit false

namespace ProcessTest.Validation

open Decode

/-! ## Values that are written back -/

/-- The fields of a part that has been written. -/
def written (v : Value) : Entries := v.entries?.getD []

@[simp] theorem written_map (es : Entries) : written (.map es) = es := rfl

/-- What is written for a value is of a kind, and is read as the value. -/
structure Carries {α : Type} (kind : FieldKind) (read : Value → Decoded α) (write : α → Value)
    (a : α) : Prop where
  ne_null : write a ≠ .null
  accepts : kind.accepts (write a) = true
  read : read (write a) = .ok a

/-- What has been read from a field of a part can be written back. -/
def Restores {α : Type} (part : Entries) (name : String) (kind : FieldKind)
    (read : Value → Decoded α) (write : α → Value) : Prop :=
  ∀ v a, Entries.get? name part = some v → v ≠ .null → kind.accepts v = true → read v = .ok a →
    Carries kind read write a

/-- What is written for a value is what it has been read from. -/
def Keeps {α : Type} (kind : FieldKind) (read : Value → Decoded α) (write : α → Value) : Prop :=
  ∀ v a, kind.accepts v = true → read v = .ok a → write a = v

section Kinds

variable {α : Type} {part : Entries} {key : String} {kind : FieldKind} {read : Value → Decoded α}
  {write : α → Value}

theorem Keeps.restores (h : Keeps kind read write) : Restores part key kind read write := by
  intro v a _ hnull haccepts hread
  have hv := h v a haccepts hread
  rw [← hv] at hnull haccepts hread
  exact ⟨hnull, haccepts, hread⟩

theorem Keeps.name : Keeps .name asText .text := fun _ _ _ h => (eq_text_of_asText h).symm

theorem Keeps.text : Keeps .text asText .text := fun _ _ _ h => (eq_text_of_asText h).symm

theorem Keeps.bool : Keeps .bool asBool .bool := by
  intro v b _ h
  cases v with
  | bool b =>
    cases h
    rfl
  | _ => cases h

theorem keeps_asIs : Keeps kind asIs id := by
  intro v a _ h
  cases h
  rfl

theorem Keeps.any : Keeps .any asIs id := keeps_asIs

theorem Keeps.amount : Keeps .amount asIs id := keeps_asIs

theorem Keeps.tree : Keeps .map asIs id := keeps_asIs

theorem texts_of_items {vs : List Value} {ss : List String} (h : items asText vs = .ok ss) :
    ss.map .text = vs := by
  rw [items_eq_ok_iff] at h
  induction h with
  | nil => rfl
  | cons hfirst _ ih => rw [List.map_cons, ih, eq_text_of_asText hfirst]

theorem Keeps.texts : Keeps .texts (asList asText) Encode.texts := by
  intro v ss _ h
  cases v with
  | list vs => exact congrArg Value.list (texts_of_items h)
  | _ => cases h

theorem Keeps.count (bits : Nat) : Keeps .count (asNat bits) .ofNat := by
  intro v n _ h
  unfold asNat at h
  split at h
  · split at h
    · cases h
      rfl
    · cases h
  · cases h
  · cases h

theorem Keeps.year : Keeps .count asInt32 fun year => .number (.int year) := by
  intro v year _ h
  unfold asInt32 asInt at h
  split at h
  · split at h
    · cases h
      rfl
    · cases h
  · cases h

/-- A name from a list is written as it has been read. -/
theorem Keeps.choice {place : Place} {all : List α} {nameOf : α → String} :
    Keeps .name (choice place all nameOf) fun a => .text (nameOf a) := by
  intro v a haccepts h
  obtain ⟨s, rfl⟩ := text_of_accepts_name haccepts
  simp only [Decode.choice] at h
  split at h
  · rename_i hfound
    cases h
    have hname : nameOf a = s := by simpa using List.find?_some hfound
    exact congrArg Value.text hname
  · cases h

/-- Entries whose values are written as they have been read are written as they have been read. -/
theorem map_of_entries (h : ∀ v a, read v = .ok a → write a = v) {es : Entries}
    {as : List (String × α)} (hread : entries read es = .ok as) :
    (as.map fun (k, a) => (k, write a)) = es := by
  induction es generalizing as with
  | nil =>
    cases hread
    rfl
  | cons e rest ih =>
    simp only [entries, bind_eq_ok_iff] at hread
    obtain ⟨a, ha, more, hmore, hread⟩ := hread
    cases hread
    simp only [List.map_cons, ih hmore, h e.2 a ha]

/-- Entries of any values are read as they are. -/
theorem eq_of_entries {es fs : Entries} (h : entries asIs es = .ok fs) : fs = es := by
  rw [← map_of_entries (fun v a => Keeps.any v a rfl) h]
  exact (List.map_id fs).symm

theorem Keeps.fields : Keeps .map (asMap asIs) .map := by
  intro v fs _ h
  cases v with
  | map es => exact congrArg Value.map (eq_of_entries h)
  | _ => cases h

/-- A table of transitions is written as it has been read. -/
theorem Keeps.transitions : Keeps .map (asMap (asList asText)) (Encode.map Encode.texts) := by
  intro v rows _ h
  cases v with
  | map es =>
    refine congrArg Value.map (map_of_entries (fun v ss hv => ?_) h)
    cases v with
    | list vs => exact congrArg Value.list (texts_of_items hv)
    | _ => cases hv
  | _ => cases h

end Kinds

/-! ## Rows of a table -/

@[simp] theorem get?_ite {c : Prop} [Decidable c] (key : String) (e f : Entries) :
    Entries.get? key (if c then e else f) = if c then Entries.get? key e else Entries.get? key f :=
  apply_ite (Entries.get? key) c e f

section Rows

variable {α : Type} {part : Entries} {table : List Field} {name : String} {kind : FieldKind}
  {read : Value → Decoded α} {write : α → Value} (e : Entries)

theorem problem?_of_accepts {field : Field} {v : Value} (hg : Entries.get? field.name e = some v)
    (hv : v ≠ .null) (ha : field.kind.accepts v = true) : field.problem? e = none := by
  unfold Field.problem?
  rw [hg]
  split
  · rename_i h
    cases h
  · rename_i h
    cases h
    exact absurd rfl hv
  · rename_i w _ h
    cases h
    exact if_pos ha

theorem problem?_congr {field : Field}
    (h : Entries.get? field.name e = Entries.get? field.name part) :
    field.problem? e = field.problem? part := by
  unfold Field.problem?
  rw [h]

theorem optional_of_some {v : Value} {a : α} (hg : Entries.get? name e = some v) (hv : v ≠ .null)
    (hread : read v = .ok a) : Decode.optional e name read = .ok (some a) := by
  unfold Decode.optional
  rw [hg]
  split
  · rename_i h
    cases h
  · rename_i h
    cases h
    exact absurd rfl hv
  · rename_i w _ h
    cases h
    rw [hread]
    rfl

/-- The value of a field that a part needs can be written back. -/
theorem Meets.carries_required {a : α} (hm : Meets part table) (hf : need name kind ∈ table)
    (hread : Decode.required part name read = .ok a) (hr : Restores part name kind read write) :
    Carries kind read write a := by
  rcases problem?_eq_none_cases (hm _ hf) with ⟨-, hreq⟩ | ⟨-, hreq, -⟩ | ⟨v, hg, hnull, ha⟩
  · cases hreq
  · cases hreq
  · simp only [need] at hg ha
    simp only [Decode.required, hg] at hread
    exact hr v a hg hnull ha hread

theorem Meets.carries_optional {a : α} (hm : Meets part table) (hf : may name kind ∈ table)
    (hread : Decode.optional part name read = .ok (some a))
    (hr : Restores part name kind read write) : Carries kind read write a := by
  obtain ⟨v, hg, hv⟩ := exists_of_optional hread
  rcases problem?_eq_none_cases (hm _ hf) with ⟨hnone, -⟩ | ⟨hnull, -, -⟩ | ⟨w, hw, hnull, ha⟩
  · simp only [may, hg] at hnone
    cases hnone
  · simp only [may] at hnull
    simp [Decode.optional, hnull] at hread
  · simp only [may, hg] at hw
    cases hw
    exact hr v a hg hnull ha hv

/-- The value of a field with a default can be written back, or is the default. -/
theorem Meets.carries_defaulted {a default : α} (hm : Meets part table)
    (hf : may name kind ∈ table) (hk : kind ≠ .any)
    (hread : Decode.defaulted part name default read = .ok a)
    (hr : Restores part name kind read write) :
    a = default ∨ Carries kind read write a := by
  unfold Decode.defaulted at hread
  split at hread
  · rename_i v hg
    obtain ⟨hnull, ha⟩ := hm.accepts ⟨false, hf⟩ hk hg
    exact .inr (hr v a hg hnull ha hread)
  · cases hread
    exact .inl rfl

/-- A field that a part needs holds a value that can be written back. -/
theorem Carries.required {a : α} (h : Carries kind read write a)
    (he : Entries.get? name e = some (write a)) :
    (need name kind).problem? e = none ∧ Decode.required e name read = .ok a := by
  refine ⟨problem?_of_accepts e he h.ne_null h.accepts, ?_⟩
  simp only [Decode.required, he]
  exact h.read

/-- A field with a default holds a value that can be written back. -/
theorem Carries.defaulted {a : α} (h : Carries kind read write a) (default : α)
    (he : Entries.get? name e = some (write a)) :
    (may name kind).problem? e = none ∧ Decode.defaulted e name default read = .ok a := by
  refine ⟨problem?_of_accepts e he h.ne_null h.accepts, ?_⟩
  simp only [Decode.defaulted, he]
  exact h.read

/-- A field that a part needs, once written. -/
theorem Meets.restore_required {a : α} (hm : Meets part table) (hf : need name kind ∈ table)
    (hread : Decode.required part name read = .ok a) (hr : Restores part name kind read write)
    (he : Entries.get? name e = some (write a)) :
    (need name kind).problem? e = none ∧ Decode.required e name read = .ok a :=
  (hm.carries_required hf hread hr).required e he

/-- A field that may be missing, once written where it is there. -/
theorem Meets.restore_optional {a : Option α} (hm : Meets part table)
    (hf : may name kind ∈ table) (hread : Decode.optional part name read = .ok a)
    (hr : Restores part name kind read write) (he : Entries.get? name e = a.map write) :
    (may name kind).problem? e = none ∧ Decode.optional e name read = .ok a := by
  cases a with
  | none =>
    have hnone : Entries.get? name e = none := he
    refine ⟨?_, ?_⟩
    · simp [Field.problem?, may, hnone]
    · simp [Decode.optional, hnone]
  | some a =>
    have h := hm.carries_optional hf hread hr
    have hsome : Entries.get? name e = some (write a) := he
    exact ⟨problem?_of_accepts e hsome h.ne_null h.accepts,
      optional_of_some e hsome h.ne_null h.read⟩

/-- A field with a default, once written. -/
theorem Meets.restore_defaulted {a default : α} (hm : Meets part table)
    (hf : may name kind ∈ table) (hk : kind ≠ .any)
    (hread : Decode.defaulted part name default read = .ok a)
    (hr : Restores part name kind read write) (hdefault : Carries kind read write default)
    (he : Entries.get? name e = some (write a)) :
    (may name kind).problem? e = none ∧ Decode.defaulted e name default read = .ok a := by
  rcases hm.carries_defaulted hf hk hread hr with rfl | h
  · exact hdefault.defaulted e a he
  · exact h.defaulted e default he

/-- A field with a default, once written where its value is another one. -/
theorem Meets.restore_omitted {a default : α} (hm : Meets part table)
    (hf : may name kind ∈ table) (hk : kind ≠ .any)
    (hread : Decode.defaulted part name default read = .ok a)
    (hr : Restores part name kind read write)
    (hempty : a = default → Entries.get? name e = none)
    (hfull : a ≠ default → Entries.get? name e = some (write a)) :
    (may name kind).problem? e = none ∧ Decode.defaulted e name default read = .ok a := by
  by_cases ha : a = default
  · have hnone := hempty ha
    refine ⟨?_, ?_⟩
    · simp [Field.problem?, may, hnone]
    · simp [Decode.defaulted, hnone, ha]
  · have h := (hm.carries_defaulted hf hk hread hr).resolve_left ha
    exact h.defaulted e default (hfull ha)

/-! ## Fields that stay -/

/-- A field that a part needs stands in the part as it is written. -/
theorem Meets.get?_of_required {a : α} (hm : Meets part table) (hf : need name kind ∈ table)
    (hk : kind ≠ .any) (hread : Decode.required part name read = .ok a)
    (hr : Keeps kind read write) : Entries.get? name part = some (write a) := by
  obtain ⟨v, hg, hv⟩ := exists_of_required hread
  rw [hg, hr v a (hm.accepts ⟨true, hf⟩ hk hg).2 hv]

/-- A field that may be missing stands in the part as it is written. -/
theorem Meets.get?_of_optional {a : Option α} (hm : Meets part table) (hf : may name kind ∈ table)
    (hk : kind ≠ .any) (hread : Decode.optional part name read = .ok a)
    (hr : Keeps kind read write) : Entries.get? name part = a.map write := by
  cases hg : Entries.get? name part with
  | none =>
    simp only [Decode.optional, hg] at hread
    cases hread
    rfl
  | some v =>
    obtain ⟨hnull, ha⟩ := hm.accepts ⟨false, hf⟩ hk hg
    obtain ⟨b, rfl⟩ := Option.isSome_iff_exists.1 (isSome_of_optional hread hg hnull)
    obtain ⟨w, hw, hread⟩ := exists_of_optional hread
    rw [hg] at hw
    cases hw
    rw [Option.map_some, hr v b ha hread]

end Rows

/-! ## Whole parts -/

section Parts

variable {e part : Entries} {table : List Field} {names : List String}

@[simp] theorem meets_nil : Meets e [] := fun _ h => absurd h List.not_mem_nil

@[simp] theorem meets_cons {field : Field} :
    Meets e (field :: table) ↔ field.problem? e = none ∧ Meets e table :=
  List.forall_mem_cons

theorem meets_append {more : List Field} :
    Meets e (table ++ more) ↔ Meets e table ∧ Meets e more :=
  List.forall_mem_append

/-- Parts agree on the fields of a table. -/
def Agrees (table : List Field) (e part : Entries) : Prop :=
  ∀ field ∈ table, Entries.get? field.name e = Entries.get? field.name part

theorem Agrees.meets (h : Agrees table e part) (hm : Meets part table) : Meets e table := by
  intro field hf
  rw [problem?_congr e (h field hf)]
  exact hm field hf

/-- A part has no fields but those of the names. -/
def Within (names : List String) (e : Entries) : Prop := ∀ key ∈ e.keys, key ∈ names

@[simp] theorem within_nil : Within names [] := fun _ h => absurd h List.not_mem_nil

@[simp] theorem within_cons {key : String} {v : Value} :
    Within names ((key, v) :: e) ↔ key ∈ names ∧ Within names e :=
  List.forall_mem_cons

@[simp] theorem within_append : Within names (e ++ part) ↔ Within names e ∧ Within names part := by
  unfold Within Entries.keys
  rw [List.map_append]
  exact List.forall_mem_append

@[simp] theorem within_optional {α : Type} {name : String} {encode : α → Value} {a : Option α} :
    Within names (Encode.optional name encode a) ↔ a = none ∨ name ∈ names := by
  cases a <;> simp [Encode.optional]

@[simp] theorem within_nonempty {α : Type} {name : String} {encode : α → Value} {as : List α} :
    Within names (Encode.nonempty name encode as) ↔ as = [] ∨ name ∈ names := by
  cases as <;> simp [Encode.nonempty]

@[simp] theorem within_ite {c : Prop} [Decidable c] :
    Within names (if c then e else part) ↔ (c → Within names e) ∧ (¬ c → Within names part) := by
  split <;> simp_all

theorem Within.mono {more : List String} (h : Within names e) (hn : names ⊆ more) :
    Within more e :=
  fun key hkey => hn (h key hkey)

theorem Within.get?_eq_none (h : Within names e) {key : String} (hkey : key ∉ names) :
    Entries.get? key e = none := by
  rw [← Option.not_isSome_iff_eq_none, Entries.get?_isSome_iff]
  exact fun hmem => hkey (h key hmem)

/-- A part with rows without problems and no further fields has no faults. -/
theorem checkFields_eq_nil {path owner : String} (hm : Meets e table)
    (hw : Within (table.map Field.name) e) : checkFields path e table owner = [] := by
  refine List.append_eq_nil_iff.2 ⟨List.flatMap_eq_nil_iff.2 fun field hf => ?_, ?_⟩
  · unfold Field.faults
    rw [hm field hf]
  · rw [List.map_eq_nil_iff, List.filter_eq_nil_iff]
    intro key hkey
    simp [hw key hkey]

end Parts

/-! ## Lists -/

section Lists

variable {α : Type} {read : Value → Decoded α} {encode : α → Value} {part : Entries}

/-- Items that are written back one by one are written back as a list. -/
theorem restore_items {check : String → Value → List Fault}
    (hr : ∀ path v a, check path v = [] → read v = .ok a →
      check path (encode a) = [] ∧ read (encode a) = .ok a)
    {path : String} {index : Nat} {vs : List Value} {as : List α}
    (h : checkItems check path index vs = []) (hread : items read vs = .ok as) :
    checkItems check path index (as.map encode) = [] ∧ items read (as.map encode) = .ok as := by
  rw [items_eq_ok_iff] at hread ⊢
  induction hread generalizing index with
  | nil => exact ⟨rfl, .nil⟩
  | cons ha _ ih =>
    obtain ⟨hv, hrest⟩ := List.append_eq_nil_iff.1 h
    obtain ⟨hfaults, hfirst⟩ := hr _ _ _ hv ha
    obtain ⟨hmore, hitems⟩ := ih hrest
    exact ⟨List.append_eq_nil_iff.2 ⟨hfaults, hmore⟩, .cons hfirst hitems⟩

/-- The same for a check that claims names: the same ones are claimed. -/
theorem restore_each {check : String → List String → Value → Checked}
    (hr : ∀ path names v a, (check path names v).1 = [] → read v = .ok a →
      check path names (encode a) = ([], (check path names v).2) ∧ read (encode a) = .ok a)
    {path : String} {index : Nat} {names : List String} {vs : List Value} {as : List α}
    (h : (checkEach check path index names vs).1 = []) (hread : items read vs = .ok as) :
    checkEach check path index names (as.map encode) =
        ([], (checkEach check path index names vs).2) ∧
      items read (as.map encode) = .ok as := by
  rw [items_eq_ok_iff] at hread ⊢
  induction hread generalizing index names with
  | nil => exact ⟨rfl, .nil⟩
  | cons ha _ ih =>
    obtain ⟨hv, hrest⟩ := List.append_eq_nil_iff.1 h
    obtain ⟨hfaults, hfirst⟩ := hr _ _ _ _ hv ha
    obtain ⟨hmore, hitems⟩ := ih hrest
    refine ⟨?_, .cons hfirst hitems⟩
    simp only [List.map_cons, checkEach, hfaults, hmore, List.append_nil]

/-- Entries that are written back one by one are written back as a map. -/
theorem restore_entries {check : String × Value → List Fault}
    (hr : ∀ key v a, check (key, v) = [] → read v = .ok a →
      check (key, encode a) = [] ∧ read (encode a) = .ok a)
    {es : Entries} {as : List (String × α)} (h : es.flatMap check = [])
    (hread : entries read es = .ok as) :
    (as.map fun (key, a) => (key, encode a)).flatMap check = [] ∧
      entries read (as.map fun (key, a) => (key, encode a)) = .ok as := by
  induction es generalizing as with
  | nil =>
    cases hread
    exact ⟨rfl, rfl⟩
  | cons entry rest ih =>
    simp only [entries, bind_eq_ok_iff] at hread
    obtain ⟨a, ha, more, hmore, hread⟩ := hread
    cases hread
    obtain ⟨hfirst, hrest⟩ := List.append_eq_nil_iff.1 h
    obtain ⟨hfaults, hdecode⟩ := hr _ _ _ hfirst ha
    obtain ⟨hmoreFaults, hmoreDecode⟩ := ih hrest hmore
    refine ⟨List.append_eq_nil_iff.2 ⟨hfaults, hmoreFaults⟩, ?_⟩
    simp only [List.map_cons, entries, bind_eq_ok_iff]
    exact ⟨_, hdecode, _, hmoreDecode, rfl⟩

/-- A list whose items are checked one by one can be written back. -/
theorem Restores.list {check : String → Value → List Fault} {key path : String} {index : Nat}
    (h : onList part key (checkItems check path index) = [])
    (hr : ∀ path v a, check path v = [] → read v = .ok a →
      check path (encode a) = [] ∧ read (encode a) = .ok a) :
    Restores part key .list (asList read) fun as => .list (as.map encode) := by
  intro v as hg _ haccepts hread
  obtain ⟨vs, rfl⟩ := list_of_accepts haccepts
  have hitems : checkItems check path index vs = [] := by simpa [onList, hg] using h
  exact ⟨by simp, rfl, (restore_items hr hitems hread).2⟩

end Lists

end ProcessTest.Validation
