import ProcessTest.Proofs.Bindings.Growth
import ProcessTest.Proofs.Template.Walk
import ProcessTest.Proofs.Text.Blank
import ProcessTest.Proofs.Text.Digits

/-!
# What keys name

A document's setting gives texts only, so a key that it gives a value has no segments, and the
value is plain text wherever the setting is.

* `Setting.IsPlain` — no text of the setting is empty or has a brace.
* `Bindings.Extends` — bindings that have all of others, and further names that do not end in a
  brace.
* `lookup?_mono` — what a key names, it names in bindings with more names, too.
* `lookup?_ofSetting` — what the setting gives a key, bindings that extend it give it, too.
* `lookup?_eq_none_of_brace` — those bindings give nothing to a key that ends in a brace.
-/

set_option autoImplicit false

namespace ProcessTest

/-! ## The characters of keys that shift the clock -/

namespace Text

variable {cs : List Char} {c : Char} {n : Nat} {z : Int}

theorem isDigit_of_readNat? (h : readNat? cs = some n) (hc : c ∈ cs) : c.isDigit = true := by
  unfold readNat? at h
  split at h
  · cases h
  · rename_i hds
    simp only [Bool.or_eq_true, Bool.not_eq_true', not_or, Bool.not_eq_false] at hds
    exact List.all_eq_true.1 hds.2 c hc

theorem isDigit_or_plus_of_readUpTo? {most : Nat} (h : readUpTo? most cs = some n) (hc : c ∈ cs) :
    c.isDigit = true ∨ c = '+' := by
  unfold readUpTo? at h
  dsimp only at h
  split at h
  · rename_i m hread
    split at hread
    · rcases List.mem_cons.1 hc with rfl | hc
      · exact .inr rfl
      · exact .inl (isDigit_of_readNat? hread hc)
    · exact .inl (isDigit_of_readNat? hread hc)
  · cases h

theorem isDigit_or_sign_of_readInt64? (h : readInt64? cs = some z) (hc : c ∈ cs) :
    c.isDigit = true ∨ c = '+' ∨ c = '-' := by
  unfold readInt64? at h
  split at h
  · obtain ⟨m, hread, -⟩ := Option.bind_eq_some_iff.1 h
    rcases List.mem_cons.1 hc with rfl | hc
    · exact .inr (.inr rfl)
    · exact .inl (isDigit_of_readNat? hread hc)
  · obtain ⟨m, hread, -⟩ := Option.map_eq_some_iff.1 h
    exact (isDigit_or_plus_of_readUpTo? hread hc).imp_right .inl

end Text

namespace Clock

variable {brace : Char}

theorem not_mem_padded (hb : brace = '{' ∨ brace = '}') (width n : Nat) :
    brace ∉ (Text.padded width n).toList := by
  intro h
  have hdigit := Text.isDigit_of_mem_padded h
  rcases hb with rfl | rfl
  · cases hdigit
  · cases hdigit

theorem not_mem_fractionText (hb : brace = '{' ∨ brace = '}') (nanoseconds : Nat) :
    brace ∉ (fractionText nanoseconds).toList := by
  unfold fractionText
  split
  · simp
  · intro h
    simp only [String.toList_append, String.toList_ofList] at h
    rcases List.mem_append.1 h with h | h
    · rcases hb with rfl | rfl
      · simp at h
      · simp at h
    · rw [List.mem_reverse] at h
      exact not_mem_padded hb 9 nanoseconds
        (List.mem_reverse.1 ((List.dropWhile_sublist _).subset h))

theorem not_mem_offsetText (hb : brace = '{' ∨ brace = '}') (offset : Int) :
    brace ∉ (offsetText offset).toList := by
  unfold offsetText
  split
  · rcases hb with rfl | rfl
    · simp
    · simp
  · rcases hb with rfl | rfl
    · split <;> simp [not_mem_padded]
    · split <;> simp [not_mem_padded]

theorem not_mem_text (hb : brace = '{' ∨ brace = '}') (c : Clock) : brace ∉ c.text.toList := by
  have hpad := not_mem_padded hb
  have hfraction := not_mem_fractionText hb c.nanoseconds
  have hoffset := not_mem_offsetText hb c.offset
  rcases hb with rfl | rfl
  · simp [text, hpad, hfraction, hoffset]
  · simp [text, hpad, hfraction, hoffset]

/-- The text of an instant is plain. -/
theorem plain_text (c : Clock) : Text.Plain c.text.toList :=
  ⟨by simp [text], not_mem_text (.inl rfl) c, not_mem_text (.inr rfl) c⟩

end Clock

namespace Template

open Text (isBlank)

variable {b r : Bindings} {setting : Setting} {key : List Char} {c : Char} {z : Int} {v : Value}

theorem mem_of_offset? {cs : List Char} (h : offset? cs = some z) (hc : c ∈ cs) :
    isBlank c = true ∨ c.isDigit = true ∨ c = '+' ∨ c = '-' := by
  rw [or_iff_not_imp_left, Bool.not_eq_true]
  intro hblank
  have hmem := Text.mem_trim hc hblank
  unfold offset? at h
  split at h
  · rename_i rest htrim
    rw [htrim] at hmem
    rcases List.mem_cons.1 hmem with rfl | hmem
    · exact .inr (.inl rfl)
    · exact Text.isDigit_or_sign_of_readInt64? h (Text.mem_trim hmem hblank)
  · rename_i rest htrim
    rw [htrim] at hmem
    obtain ⟨seconds, hread, -⟩ := Option.map_eq_some_iff.1 h
    rcases List.mem_cons.1 hmem with rfl | hmem
    · exact .inr (.inr rfl)
    · exact Text.isDigit_or_sign_of_readInt64? hread (Text.mem_trim hmem hblank)
  · cases h

theorem mem_of_clockShift? (h : clockShift? key = some z) (hc : c ∈ key) :
    c ∈ "clock".toList ∨ isBlank c = true ∨ c.isDigit = true ∨ c = '+' ∨ c = '-' := by
  obtain ⟨rest, hmark, hoffset⟩ := Option.bind_eq_some_iff.1 h
  rw [Text.dropMark?_eq_some_iff.1 hmark] at hc
  exact (List.mem_append.1 hc).imp_right (mem_of_offset? hoffset)

theorem not_mem_of_clockShift? (h : clockShift? key = some z) : '.' ∉ key ∧ '}' ∉ key := by
  constructor
  · exact fun hc => absurd (mem_of_clockShift? h hc) (by decide)
  · exact fun hc => absurd (mem_of_clockShift? h hc) (by decide)

end Template

/-! ## Settings -/

/-- No text of the setting is empty or has a brace. -/
structure Setting.IsPlain (s : Setting) : Prop where
  organization : Text.Plain s.organization.toList
  currency : Text.Plain s.currency.toList
  locale : Text.Plain s.locale.toList
  tenant : ∀ tenant, s.tenant = some tenant → Text.Plain tenant.toList
  clock : ∀ clock, s.clock = some clock → Text.Plain clock.toList

namespace Bindings

variable {b r s : Bindings} {setting : Setting} {name : String} {v : Value}

/-- Bindings with all entries of others; further names do not end in a closing brace. -/
structure Extends (r s : Bindings) : Prop where
  entries : ∀ e ∈ s.entries, e ∈ r.entries
  names : ∀ name ∈ r.names, name ∉ s.names → name.toList.getLast? ≠ some '}'

theorem Extends.get? (h : r.Extends s) (hs : s.get? name = some v) : r.get? name = some v :=
  mem_entries_iff.1 (h.entries _ (mem_entries_iff.2 hs))

theorem Extends.refl (b : Bindings) : b.Extends b where
  entries := fun _ he => he
  names := fun _ hname hfree => absurd hname hfree

theorem Extends.bind (h : r.Extends s) (hname : name.toList.getLast? ≠ some '}') :
    (r.bind name v).Extends s where
  entries := fun e he => entries_prefix_bind.subset (h.entries e he)
  names := by
    intro other hother hfree
    rcases mem_names_bind.1 hother with hother | rfl
    · exact h.names other hother hfree
    · exact hname

/-- A run starts with bindings that extend the setting's. -/
theorem extends_seeded (setting : Setting) (now : String) :
    (seeded setting now).Extends (ofSetting setting) :=
  (Extends.refl _).bind (by decide)

theorem mem_of_mem_bindAll_empty {es : Entries} {e : String × Value}
    (h : e ∈ (empty.bindAll es).entries) : e ∈ es := by
  rw [entries_bindAll] at h
  rcases List.mem_append.1 h with h | h
  · cases h
  · exact (Entries.fresh_sublist _ es).subset h

/-- A plain setting binds plain texts. -/
theorem exists_text_of_get?_ofSetting (hplain : setting.IsPlain)
    (h : (ofSetting setting).get? name = some v) :
    ∃ w : String, v = .text w ∧ Text.Plain w.toList := by
  have hmem := mem_of_mem_bindAll_empty (mem_entries_iff.2 h)
  simp only [List.mem_append, List.mem_cons, List.not_mem_nil, or_false] at hmem
  rcases hmem with ((htime | horganization) | htenant) | hcurrency | hlocale
  · cases hclock : setting.clock with
    | none =>
      rw [hclock] at htime
      cases htime
    | some clock =>
      rw [hclock] at htime
      have hentry : (name = "timestamp" ∨ name = "clock") ∧ v = .text clock := by
        simpa [← or_and_right] using htime
      exact ⟨clock, hentry.2, hplain.clock clock hclock⟩
  · cases horganization
    exact ⟨_, rfl, hplain.organization⟩
  · cases htenant' : setting.tenant with
    | none =>
      rw [htenant'] at htenant
      cases htenant
    | some tenant =>
      rw [htenant', List.mem_singleton] at htenant
      cases htenant
      exact ⟨tenant, rfl, hplain.tenant tenant htenant'⟩
  · cases hcurrency
    exact ⟨_, rfl, hplain.currency⟩
  · cases hlocale
    exact ⟨_, rfl, hplain.locale⟩

theorem get?_eq_none_of_brace (hr : r.Extends (ofSetting setting))
    (hname : name.toList.getLast? = some '}') : r.get? name = none := by
  by_contra hne
  have hmem : name ∈ r.names := binds_iff.1 (Option.isSome_iff_ne_none.2 hne)
  by_cases hs : name ∈ (ofSetting setting).names
  · have hseeded : name ∈ seededNames :=
      @mem_seededNames_of_mem_seeded name setting "" (mem_names_bind.2 (.inl hs))
    have hends : ∀ name ∈ seededNames, name.toList.getLast? ≠ some '}' := by decide
    exact hends name hseeded hname
  · exact hr.names name hmem hs hname

end Bindings

namespace Template

variable {b r : Bindings} {setting : Setting} {key : List Char} {v : Value}

theorem lookup?_eq_get? (hpoint : '.' ∉ key) (hshift : clockShift? key = none) :
    lookup? b key = b.get? (String.ofList key) := by
  unfold lookup? Bindings.lookup?
  rw [hshift, String.toList_ofList, Text.splitAt_eq_singleton_iff.2 ⟨hpoint, rfl⟩]
  simp [Bindings.descend?]

/-- **What a key names, it names in all bindings that have no name with another value.** -/
theorem lookup?_mono (hr : ∀ name w, b.get? name = some w → r.get? name = some w)
    (h : lookup? b key = some v) : lookup? r key = some v := by
  unfold lookup? at h ⊢
  cases hshift : clockShift? key with
  | some seconds =>
    rw [hshift] at h
    simp only [Option.bind_eq_bind, Option.bind_eq_some_iff] at h ⊢
    obtain ⟨u, hu, hshifted⟩ := h
    exact ⟨u, hr _ _ hu, hshifted⟩
  | none =>
    rw [hshift] at h
    unfold Bindings.lookup? at h ⊢
    cases hsplit : Text.splitAt '.' (String.ofList key).toList with
    | nil => exact absurd hsplit (Text.splitAt_ne_nil '.' _)
    | cons head rest =>
      simp only [hsplit, Option.bind_eq_some_iff] at h ⊢
      obtain ⟨u, hu, hdescend⟩ := h
      exact ⟨u, hr _ _ hu, hdescend⟩

/-- **What the setting gives a key, bindings that extend it give it, too**; it is a plain text, and
the key has no segments. -/
theorem lookup?_ofSetting (hplain : setting.IsPlain) (hr : r.Extends (.ofSetting setting))
    (h : lookup? (.ofSetting setting) key = some v) :
    '.' ∉ key ∧ (∃ w : String, v = .text w ∧ Text.Plain w.toList) ∧ lookup? r key = some v := by
  suffices hkey : '.' ∉ key ∧ ∃ w : String, v = .text w ∧ Text.Plain w.toList from
    ⟨hkey.1, hkey.2, lookup?_mono (fun _ _ => hr.get?) h⟩
  unfold lookup? at h
  cases hshift : clockShift? key with
  | some seconds =>
    simp only [hshift, Option.bind_eq_bind, Option.bind_eq_some_iff, Option.map_eq_some_iff] at h
    obtain ⟨u, hu, clock, htext, shifted, hshifted, rfl⟩ := h
    obtain ⟨later, -, hlater⟩ := Option.map_eq_some_iff.1 hshifted
    exact ⟨(not_mem_of_clockShift? hshift).1, shifted, rfl, hlater ▸ Clock.plain_text later⟩
  | none =>
    unfold Bindings.lookup? at h
    rw [hshift, String.toList_ofList] at h
    cases hsplit : Text.splitAt '.' key with
    | nil => exact absurd hsplit (Text.splitAt_ne_nil '.' key)
    | cons head rest =>
      simp only [hsplit, Option.bind_eq_some_iff] at h
      obtain ⟨u, hu, hdescend⟩ := h
      obtain ⟨w, rfl, hw⟩ := Bindings.exists_text_of_get?_ofSetting hplain hu
      cases rest with
      | cons segment more => cases hdescend
      | nil =>
        cases hdescend
        exact ⟨(Text.splitAt_eq_singleton_iff.1 hsplit).1, w, rfl, hw⟩

/-- **Those bindings give nothing to a key that ends in a brace.** -/
theorem lookup?_eq_none_of_brace (hr : r.Extends (.ofSetting setting)) (hpoint : '.' ∉ key) :
    lookup? r (key ++ ['}']) = none := by
  have hshift : clockShift? (key ++ ['}']) = none := by
    rw [Option.eq_none_iff_forall_ne_some]
    intro seconds h
    exact (not_mem_of_clockShift? h).2 (by simp)
  rw [lookup?_eq_get? (by simp [hpoint]) hshift]
  exact Bindings.get?_eq_none_of_brace hr (by simp)

end Template

end ProcessTest
