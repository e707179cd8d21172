import ProcessTest.Proofs.Bindings.Growth

/-!
# Absorbing bindings

Absorbing keeps what is bound, and appends what the other bindings have under free names, in
their order.  With nothing bound as the neutral element it is associative, and of several values
of a name the first one stays.

* `Bindings.lacking` — the entries that absorbing appends.
* `entries_absorb`, `absorb_snd` — the entries after absorbing, and their count.
* `absorb_assoc`, `get?_absorb` — the order of absorbing does not matter, that of the bindings
  does.
* `foldl_bindInCopy` — what is bound in a copy is not bound in the original.
* `absorption_laws` — all this, together with what absorbing a grown copy comes to.
-/

set_option autoImplicit false

namespace ProcessTest

/-- Among entries without a repeated name, the fresh ones are those whose names are not bound. -/
theorem Entries.fresh_eq_filter {bound : List String} {es : Entries}
    (h : (es.map Prod.fst).Nodup) : fresh bound es = es.filter (·.1 ∉ bound) := by
  induction es generalizing bound with
  | nil => rfl
  | cons e rest ih =>
    obtain ⟨he, hrest⟩ : e.1 ∉ rest.map Prod.fst ∧ (rest.map Prod.fst).Nodup :=
      List.nodup_cons.1 h
    by_cases hb : e.1 ∈ bound
    · rw [fresh, if_pos hb, List.filter_cons_of_neg (by simpa using hb), ih hrest]
    · rw [fresh, if_neg hb, List.filter_cons_of_pos (by simpa using hb), ih hrest]
      -- The name that is bound on the way is no name of the rest.
      have hname : ∀ f ∈ rest, f.1 ≠ e.1 := fun f hf heq => he (heq ▸ List.mem_map_of_mem hf)
      congr 1
      apply List.filter_congr
      intro f hf
      simp [hname f hf]

namespace Bindings

variable {a b c d : Bindings} {name : String} {es : Entries}

/-- The entries of other bindings whose names are free. -/
def lacking (b c : Bindings) : Entries := c.entries.filter (·.1 ∉ b.names)

/-! ## What is absorbed -/

/-- **Absorbing appends the entries whose names are free**, in their order. -/
theorem entries_absorb (b c : Bindings) :
    (b.absorb c).1.entries = b.entries ++ b.lacking c := by
  rw [absorb_fst, entries_bindAll, Entries.fresh_eq_filter c.distinct]
  rfl

theorem size_bind (b : Bindings) (name : String) (v : Value) :
    (b.bind name v).size = if b.binds name then b.size else b.size + 1 := by
  unfold size
  split
  · rename_i h
    rw [bind_of_mem (binds_iff.1 h)]
  · rename_i h
    rw [entries_bind_of_not_mem fun hm => h (binds_iff.2 hm), List.length_append]
    rfl

/-- Absorbing counts the entries that it appends. -/
theorem size_absorb (b c : Bindings) : (b.absorb c).1.size = b.size + (b.absorb c).2 := by
  suffices h : ∀ (es : Entries) (b : Bindings) (n : Nat),
      let p := es.foldl (fun (p : Bindings × Nat) e =>
        if p.1.binds e.1 then (p.1, p.2) else (p.1.bind e.1 e.2, p.2 + 1)) (b, n)
      p.1.size + n = b.size + p.2 from h c.entries b 0
  intro es
  induction es with
  | nil => exact fun b n => rfl
  | cons e rest ih =>
    intro b n
    rw [List.foldl_cons]
    by_cases he : b.binds e.1 = true
    · simpa [he] using ih b n
    · have hrest := ih (b.bind e.1 e.2) (n + 1)
      rw [size_bind, if_neg he] at hrest
      simp only [he, Bool.false_eq_true, if_false]
      omega

theorem absorb_snd (b c : Bindings) : (b.absorb c).2 = (b.lacking c).length := by
  have hsize := size_absorb b c
  unfold size at hsize
  rw [entries_absorb, List.length_append] at hsize
  omega

theorem mem_names_absorb : name ∈ (b.absorb c).1.names ↔ name ∈ b.names ∨ name ∈ c.names := by
  rw [absorb_fst]
  exact mem_names_bindAll

/-- Bindings have nothing that bindings with all their names lack. -/
theorem lacking_eq_nil (h : ∀ name ∈ c.names, name ∈ b.names) : b.lacking c = [] := by
  apply List.filter_eq_nil_iff.2
  intro e he
  simpa using h e.1 (List.mem_map_of_mem he)

/-- Nothing is absorbed if all names are bound. -/
theorem absorb_of_subset (h : ∀ name ∈ c.names, name ∈ b.names) : b.absorb c = (b, 0) := by
  apply Prod.ext
  · apply ext
    rw [entries_absorb, lacking_eq_nil h, List.append_nil]
  · rw [absorb_snd, lacking_eq_nil h]
    rfl

/-! ## The first value stays -/

theorem get?_lacking (h : name ∉ b.names) :
    Entries.get? name (b.lacking c) = Entries.get? name c.entries := by
  unfold lacking
  induction c.entries with
  | nil => rfl
  | cons e rest ih =>
    obtain ⟨key, v⟩ := e
    by_cases hkey : key ∈ b.names
    · have hne : key ≠ name := fun heq => h (heq ▸ hkey)
      rw [List.filter_cons_of_neg (by simpa using hkey), ih, Entries.get?, if_neg hne]
    · rw [List.filter_cons_of_pos (by simpa using hkey), Entries.get?, Entries.get?, ih]

/-- **The first value of a name stays.** -/
theorem get?_absorb (b c : Bindings) (name : String) :
    (b.absorb c).1.get? name = (b.get? name).or (c.get? name) := by
  unfold get?
  rw [entries_absorb, Entries.get?_append]
  by_cases h : name ∈ b.names
  · obtain ⟨v, hv⟩ := Option.isSome_iff_exists.1 (binds_iff.2 h)
    unfold get? at hv
    rw [hv]
    rfl
  · rw [get?_lacking h]

/-! ## Absorbing several bindings -/

/-- What is lacking after absorbing is what neither has. -/
theorem lacking_absorb (a b d : Bindings) :
    (a.absorb b).1.lacking d = (b.lacking d).filter (·.1 ∉ a.names) := by
  unfold lacking
  rw [List.filter_filter]
  apply List.filter_congr
  intro e _
  simp [mem_names_absorb]

/-- **Absorbing is associative**, in the entries and their order. -/
theorem absorb_assoc (a b d : Bindings) :
    ((a.absorb b).1.absorb d).1 = (a.absorb (b.absorb d).1).1 := by
  apply ext
  have hlacking : a.lacking (b.absorb d).1 = a.lacking b ++ (a.absorb b).1.lacking d := by
    rw [lacking_absorb]
    unfold lacking
    rw [entries_absorb, List.filter_append]
    rfl
  rw [entries_absorb, entries_absorb, entries_absorb a, hlacking, List.append_assoc]

/-! ## Copies -/

/-- Binds a name in the second of two bindings. -/
def bindInCopy (pair : Bindings × Bindings) (e : String × Value) : Bindings × Bindings :=
  (pair.1, pair.2.bind e.1 e.2)

/-- What is bound in a copy is not bound in the original. -/
theorem foldl_bindInCopy (b copy : Bindings) (es : Entries) :
    es.foldl bindInCopy (b, copy) = (b, copy.bindAll es) := by
  induction es generalizing copy with
  | nil => rfl
  | cons e rest ih => exact ih (copy.bind e.1 e.2)

/-- A grown copy is absorbed as itself, and what it has grown by is counted. -/
theorem absorb_bindAll_self (b : Bindings) (es : Entries) :
    b.absorb (b.bindAll es) = (b.bindAll es, (b.bindAll es).size - b.size) := by
  apply Prod.ext
  · exact absorb_bindAll b es
  · have hsize := size_absorb b (b.bindAll es)
    rw [absorb_bindAll] at hsize
    rw [hsize, Nat.add_sub_cancel_left]

/-- The laws of absorbing, for three bindings and what is bound in a copy of the first. -/
structure AbsorptionLaws (a b d : Bindings) (bound : Entries) : Prop where
  entries : (a.absorb b).1.entries = a.entries ++ b.entries.filter (·.1 ∉ a.names)
  count : (a.absorb b).2 = (b.entries.filter (·.1 ∉ a.names)).length
  /-- The first value of a name stays. -/
  value : ∀ name, (a.absorb b).1.get? name = (a.get? name).or (b.get? name)
  assoc : ((a.absorb b).1.absorb d).1 = (a.absorb (b.absorb d).1).1
  empty_left : empty.absorb a = (a, a.size)
  empty_right : a.absorb empty = (a, 0)
  again : (a.absorb b).1.absorb b = ((a.absorb b).1, 0)
  /-- What is bound in a copy does not reach the original.  Absorbing the copy gives the copy, and
  the number of names by which it has grown. -/
  taken : ∃ copy, bound.foldl bindInCopy (a, a) = (a, copy) ∧ a.size ≤ copy.size ∧
    a.absorb copy = (copy, copy.size - a.size)

/-- **Absorbing makes bindings a monoid in which order counts and the first value wins**; a copy
that has grown is absorbed as itself. -/
theorem absorption_laws (a b d : Bindings) (bound : Entries) : AbsorptionLaws a b d bound where
  entries := entries_absorb a b
  count := absorb_snd a b
  value := get?_absorb a b
  assoc := absorb_assoc a b d
  empty_left := by
    have hentries : (empty.absorb a).1 = a := absorb_of_prefix List.nil_prefix
    have hsize := size_absorb empty a
    rw [hentries] at hsize
    exact Prod.ext hentries (by rw [hsize]; exact (Nat.zero_add _).symm)
  empty_right := absorb_of_subset (by simp [names, empty])
  again := absorb_of_subset fun _ h => mem_names_absorb.2 (.inr h)
  taken := ⟨a.bindAll bound, foldl_bindInCopy a a bound,
    (entries_prefix_bindAll a bound).length_le, absorb_bindAll_self a bound⟩

end Bindings

end ProcessTest
