import ProcessTest.Definition.Decoding
import ProcessTest.Proofs.Document.Words

/-!
# When reading succeeds

The readers of `Decode` fail one by one; here is when they do not.

* `Succeeds` — a reading has a result.  `Succeeds.bind` follows the readers of a record field by
  field, `succeeds_asList` and `succeeds_asMap` the items and entries of a part.
* `succeeds_asNat_of_wordSized` — a count of a tree whose whole numbers fit 64 bits is never out of
  the range of a 64-bit type.
* `bind_eq_ok_iff` — what a successful reading went through.
-/

set_option autoImplicit false

namespace ProcessTest

namespace Decode

variable {α β : Type}

/-! ## Steps of a reading -/

/-- What a successful computation in two steps, such as a reading, went through. -/
theorem bind_eq_ok_iff {ε : Type} {x : Except ε α} {f : α → Except ε β} {b : β} :
    x >>= f = .ok b ↔ ∃ a, x = .ok a ∧ f a = .ok b := by
  cases x with
  | error e => simp [bind, Except.bind]
  | ok a => simp [bind, Except.bind]

theorem map_eq_ok_iff {x : Decoded α} {f : α → β} {b : β} :
    x.map f = .ok b ↔ ∃ a, x = .ok a ∧ f a = b := by
  cases x with
  | error e => simp [Except.map]
  | ok a => simp [Except.map]

/-- The reading has a result. -/
def Succeeds (x : Decoded α) : Prop := ∃ a, x = .ok a

theorem Succeeds.ok (a : α) : Succeeds (.ok a) := ⟨a, rfl⟩

theorem Succeeds.bind {x : Decoded α} {f : α → Decoded β} (hx : Succeeds x)
    (hf : ∀ a, Succeeds (f a)) : Succeeds (x >>= f) := by
  obtain ⟨a, rfl⟩ := hx
  exact hf a

/-- Reading a record from a map goes on with the map. -/
theorem record_bind (names : List String) (es : Entries) (f : Entries → Decoded α) :
    record names (.map es) >>= f = f es := rfl

theorem Succeeds.record {fields : List String} {es : Entries} {f : Entries → Decoded α}
    (h : Succeeds (f es)) : Succeeds (Decode.record fields (.map es) >>= f) := h

theorem Succeeds.map {x : Decoded α} {f : α → β} (hx : Succeeds x) : Succeeds (x.map f) := by
  obtain ⟨a, rfl⟩ := hx
  exact ⟨f a, rfl⟩

/-! ## Lists and maps -/

theorem succeeds_items {read : Value → Decoded α} {vs : List Value}
    (h : ∀ v ∈ vs, Succeeds (read v)) : Succeeds (items read vs) := by
  induction vs with
  | nil => exact .ok []
  | cons v rest ih =>
    have hv := h v List.mem_cons_self
    have hrest := ih fun w hw => h w (List.mem_cons_of_mem v hw)
    exact hv.bind fun a => hrest.bind fun more => .ok (a :: more)

theorem succeeds_asList {read : Value → Decoded α} {vs : List Value}
    (h : ∀ v ∈ vs, Succeeds (read v)) : Succeeds (asList read (.list vs)) :=
  succeeds_items h

theorem succeeds_entries {read : Value → Decoded α} {es : Entries}
    (h : ∀ e ∈ es, Succeeds (read e.2)) : Succeeds (entries read es) := by
  induction es with
  | nil => exact .ok []
  | cons e rest ih =>
    have he := h e List.mem_cons_self
    have hrest := ih fun w hw => h w (List.mem_cons_of_mem e hw)
    exact he.bind fun a => hrest.bind fun more => .ok ((e.1, a) :: more)

theorem succeeds_asMap {read : Value → Decoded α} {es : Entries}
    (h : ∀ e ∈ es, Succeeds (read e.2)) : Succeeds (asMap read (.map es)) :=
  succeeds_entries h

/-! ## Numbers and names -/

theorem succeeds_asNat {bits n : Nat} (h : n < Nat.pow 2 bits) :
    Succeeds (asNat bits (.number (.int (.ofNat n)))) :=
  ⟨n, if_pos h⟩

/-- The natural number of a value, written out. -/
theorem eq_of_natural? {v : Value} {n : Nat} (h : v.natural? = some n) :
    v = .number (.int (.ofNat n)) := by
  unfold Value.natural? at h
  split at h
  · cases h; rfl
  · cases h

/-- A count of a tree whose whole numbers fit 64 bits is within the range of a 64-bit type. -/
theorem succeeds_asNat_of_wordSized {v : Value} (hw : v.WordSized)
    (hv : v.natural?.isSome = true) : Succeeds (asNat 64 v) := by
  obtain ⟨n, hn⟩ := Option.isSome_iff_exists.1 hv
  obtain rfl := eq_of_natural? hn
  have hlt : (n : Int) < (Nat.pow 2 64 : Nat) := hw.2
  exact succeeds_asNat (Int.ofNat_lt.1 hlt)

/-- A name of the list is a choice. -/
theorem succeeds_choice {place : Place} {all : List α} {name : α → String} {s : String}
    (h : s ∈ all.map name) : Succeeds (choice place all name (.text s)) := by
  obtain ⟨a, ha, rfl⟩ := List.mem_map.1 h
  have hfound : (all.find? fun b => decide (name b = name a)).isSome = true :=
    List.find?_isSome.2 ⟨a, ha, by simp⟩
  obtain ⟨b, hb⟩ := Option.isSome_iff_exists.1 hfound
  exact ⟨b, by simp [choice, hb]⟩

/-! ## Tagged records -/

/-- A map that names one of the kinds is read as a record of that kind. -/
theorem tagged_eq_ok {place : Place} {tag kind : String} {kinds : List String} {es : Entries}
    (ht : Entries.get? tag es = some (.text kind)) (hk : kind ∈ kinds) :
    tagged place tag kinds (.map es) = .ok (kind, .map es) := by
  simp [tagged, required, ht, kindOf, hk, bind, Except.bind, pure, Except.pure]

end Decode

end ProcessTest
