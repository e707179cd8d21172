import ProcessTest.Bindings
import Mathlib.Data.List.Nodup

/-!
# How bindings grow

Binding only ever appends: what is bound stays where it is, with its value.

* `Entries.fresh` — of some entries, those that binding them one after the other appends.
* `entries_bindAll` — the entries after binding a list of them, as an equation.
* `absorb_of_prefix` — absorbing a copy that has grown gives the copy.
* `mem_entries_iff` — an entry is what looking its name up finds.
* `entries_prefix_after` — no sequence of changes removes or moves an entry.
-/

set_option autoImplicit false

namespace ProcessTest

namespace Entries

/-- The entries with a name that is neither bound nor the name of an earlier entry. -/
def fresh (bound : List String) : Entries → Entries
  | [] => []
  | e :: rest => if e.1 ∈ bound then fresh bound rest else e :: fresh (bound ++ [e.1]) rest

theorem fresh_append (bound : List String) (es fs : Entries) :
    fresh bound (es ++ fs) =
      fresh bound es ++ fresh (bound ++ (fresh bound es).map Prod.fst) fs := by
  induction es generalizing bound with
  | nil => simp [fresh]
  | cons e rest ih =>
    by_cases h : e.1 ∈ bound
    · simp [fresh, h, ih]
    · simp [fresh, h, ih]

/-- Nothing is fresh among bound names. -/
theorem fresh_eq_nil {bound : List String} {es : Entries} (h : ∀ e ∈ es, e.1 ∈ bound) :
    fresh bound es = [] := by
  induction es with
  | nil => rfl
  | cons e rest ih =>
    have he : e.1 ∈ bound := h e List.mem_cons_self
    simp only [fresh, he, if_true]
    exact ih fun f hf => h f (List.mem_cons_of_mem _ hf)

theorem fresh_sublist (bound : List String) (es : Entries) : (fresh bound es).Sublist es := by
  induction es generalizing bound with
  | nil => exact List.Sublist.refl _
  | cons e rest ih =>
    unfold fresh
    split
    · exact (ih bound).cons e
    · exact (ih (bound ++ [e.1])).cons_cons e

/-- Unbound names that differ from each other are all fresh. -/
theorem fresh_eq_self {bound : List String} {es : Entries}
    (h : (bound ++ es.map Prod.fst).Nodup) : fresh bound es = es := by
  induction es generalizing bound with
  | nil => rfl
  | cons e rest ih =>
    have he : e.1 ∉ bound := by
      intro hb
      exact (List.nodup_append.1 h).2.2 e.1 hb e.1 (by simp) rfl
    have hrest : ((bound ++ [e.1]) ++ rest.map Prod.fst).Nodup := by
      simpa using h
    simp [fresh, he, ih hrest]

end Entries

namespace Bindings

variable {b c : Bindings} {name key : String} {v : Value}

theorem ext (h : b.entries = c.entries) : b = c := by
  obtain ⟨es, hes⟩ := b
  obtain ⟨fs, hfs⟩ := c
  subst h
  rfl

/-! ## One name -/

theorem bind_of_mem (h : name ∈ b.names) : b.bind name v = b := by
  unfold bind
  rw [dif_pos (binds_iff.2 h)]

theorem entries_bind_of_not_mem (h : name ∉ b.names) :
    (b.bind name v).entries = b.entries ++ [(name, v)] := by
  unfold bind
  rw [dif_neg fun hb => h (binds_iff.1 hb)]

theorem names_bind_of_not_mem (h : name ∉ b.names) :
    (b.bind name v).names = b.names ++ [name] := by
  unfold names
  rw [entries_bind_of_not_mem h]
  simp

theorem mem_names_bind : key ∈ (b.bind name v).names ↔ key ∈ b.names ∨ key = name := by
  by_cases h : name ∈ b.names
  · rw [bind_of_mem h]
    constructor
    · exact Or.inl
    · rintro (hk | rfl)
      · exact hk
      · exact h
  · rw [names_bind_of_not_mem h]
    simp

theorem entries_prefix_of_eq (h : c = b) : b.entries <+: c.entries := by
  subst h
  exact List.prefix_refl _

theorem entries_prefix_bind : b.entries <+: (b.bind name v).entries := by
  by_cases h : name ∈ b.names
  · exact entries_prefix_of_eq (bind_of_mem h)
  · rw [entries_bind_of_not_mem h]
    exact List.prefix_append _ _

/-! ## Many names -/

/-- **Binding entries appends exactly the fresh ones.** -/
theorem entries_bindAll (b : Bindings) (es : Entries) :
    (b.bindAll es).entries = b.entries ++ Entries.fresh b.names es := by
  unfold bindAll
  induction es generalizing b with
  | nil => simp [Entries.fresh]
  | cons e rest ih =>
    rw [List.foldl_cons, ih]
    by_cases h : e.1 ∈ b.names
    · rw [bind_of_mem h]
      simp [Entries.fresh, h]
    · rw [entries_bind_of_not_mem h, names_bind_of_not_mem h]
      simp [Entries.fresh, h]

theorem bindAll_append (b : Bindings) (es fs : Entries) :
    b.bindAll (es ++ fs) = (b.bindAll es).bindAll fs :=
  List.foldl_append

theorem bindAll_singleton (b : Bindings) (name : String) (v : Value) :
    b.bindAll [(name, v)] = b.bind name v := rfl

theorem mem_names_bindAll {es : Entries} :
    key ∈ (b.bindAll es).names ↔ key ∈ b.names ∨ key ∈ es.map Prod.fst := by
  unfold bindAll
  induction es generalizing b with
  | nil => simp
  | cons e rest ih =>
    rw [List.foldl_cons, ih, mem_names_bind, List.map_cons, List.mem_cons, or_assoc]

theorem names_bindAll_sublist (b : Bindings) (es : Entries) :
    (b.bindAll es).names.Sublist (b.names ++ es.map Prod.fst) := by
  unfold names
  rw [entries_bindAll, List.map_append]
  exact ((Entries.fresh_sublist _ es).map Prod.fst).append_left _

theorem entries_prefix_bindAll (b : Bindings) (es : Entries) :
    b.entries <+: (b.bindAll es).entries := by
  rw [entries_bindAll]
  exact List.prefix_append _ _

/-! ## Other bindings -/

/-- The bindings after absorbing others, without the count. -/
theorem absorb_fst (b c : Bindings) : (b.absorb c).1 = b.bindAll c.entries := by
  unfold absorb bindAll
  generalize 0 = n
  induction c.entries generalizing b n with
  | nil => rfl
  | cons e rest ih =>
    by_cases h : b.binds e.1 = true
    · simp only [List.foldl_cons, h, if_true]
      rw [ih, bind_of_mem (binds_iff.1 h)]
    · simp only [List.foldl_cons, h, Bool.false_eq_true, if_false]
      rw [ih]

theorem entries_prefix_absorb (b c : Bindings) : b.entries <+: (b.absorb c).1.entries := by
  rw [absorb_fst]
  exact entries_prefix_bindAll b c.entries

/-- **Absorbing a copy that has grown gives the copy.** -/
theorem absorb_of_prefix (h : b.entries <+: c.entries) : (b.absorb c).1 = c := by
  obtain ⟨added, hc⟩ := h
  have hn : (b.names ++ added.map Prod.fst).Nodup := by
    have hd := c.distinct
    rw [← hc, List.map_append] at hd
    exact hd
  have hb : Entries.fresh b.names b.entries = [] :=
    Entries.fresh_eq_nil fun e he => List.mem_map_of_mem he
  apply ext
  rw [absorb_fst, entries_bindAll, ← hc, Entries.fresh_append, hb]
  simp only [List.map_nil, List.append_nil, List.nil_append]
  rw [Entries.fresh_eq_self hn]

/-- Absorbing a copy that has bound more gives the copy. -/
theorem absorb_bindAll (b : Bindings) (es : Entries) : (b.absorb (b.bindAll es)).1 = b.bindAll es :=
  absorb_of_prefix (entries_prefix_bindAll b es)

/-! ## Looking names up -/

/-- An entry is what looking its name up finds. -/
theorem mem_entries_iff : (name, v) ∈ b.entries ↔ b.get? name = some v := by
  unfold get?
  have hd := b.distinct
  revert hd
  induction b.entries with
  | nil => simp [Entries.get?]
  | cons e rest ih =>
    intro hd
    obtain ⟨k, w⟩ := e
    obtain ⟨hk, hrest⟩ : k ∉ rest.map Prod.fst ∧ (rest.map Prod.fst).Nodup := by
      simpa using hd
    by_cases h : k = name
    · subst h
      have hv : (k, v) ∉ rest := fun hv => hk (List.mem_map_of_mem hv)
      simp [Entries.get?, hv, eq_comm]
    · simp [Entries.get?, h, Ne.symm h, ih hrest]

/-- What is bound stays bound to its value. -/
theorem get?_of_prefix (h : b.entries <+: c.entries) (hv : b.get? name = some v) :
    c.get? name = some v :=
  mem_entries_iff.1 (h.subset (mem_entries_iff.2 hv))

/-! ## Changes -/

/-- How bindings may be changed. -/
inductive Change where
  | bind (name : String) (v : Value)
  | absorb (other : Bindings)

/-- The bindings after a change. -/
def change (b : Bindings) : Change → Bindings
  | .bind name v => b.bind name v
  | .absorb other => (b.absorb other).1

/-- The bindings after changes, one after the other. -/
def after (b : Bindings) (changes : List Change) : Bindings := changes.foldl change b

theorem entries_prefix_change (b : Bindings) (ch : Change) :
    b.entries <+: (b.change ch).entries := by
  cases ch with
  | bind name v => exact entries_prefix_bind
  | absorb other => exact entries_prefix_absorb b other

theorem entries_prefix_after (b : Bindings) (changes : List Change) :
    b.entries <+: (b.after changes).entries := by
  unfold after
  induction changes generalizing b with
  | nil => exact List.prefix_refl _
  | cons ch rest ih => exact (entries_prefix_change b ch).trans (ih (b.change ch))

/-! ## Seeded names -/

/-- Nothing else is bound before anything runs. -/
theorem mem_seededNames_of_mem_seeded {s : Setting} {now : String}
    (h : name ∈ (seeded s now).names) : name ∈ seededNames := by
  unfold seeded ofSetting at h
  simp only [mem_names_bind, mem_names_bindAll] at h
  unfold seededNames
  rcases h with (h | h) | rfl
  · cases h
  · revert h
    cases s.clock <;> cases s.tenant <;> simp <;> grind
  · simp

end Bindings

end ProcessTest
