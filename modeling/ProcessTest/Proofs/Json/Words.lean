import ProcessTest.Json.Reader
import ProcessTest.Proofs.Document.Words

/-!
# Whole numbers of JSON

The machine takes one character at a time, so one step keeps the values it holds word-sized and the
whole text follows by induction.

* `Machine.WordSized` — the invariant, `Machine.wordSized_step` one step.
* `wordSized_read?` — the tree of a text.
-/

set_option autoImplicit false

namespace ProcessTest.Json

/-! ## Words -/

/-- A lexeme is read as a whole number only if it fits. -/
theorem wordSized_number? {n : Numeral} {x : Number} (h : n.number? = some x) :
    (Value.number x).WordSized := by
  have hdouble : ∀ {o : Option Binary64}, o.map Number.double = some x →
      (Value.number x).WordSized := by
    intro o ho
    obtain ⟨y, -, rfl⟩ := Option.map_eq_some_iff.1 ho
    exact Value.wordSized_double y
  unfold Numeral.number? at h
  simp only at h
  split at h
  · rename_i hsize
    cases h
    simp only [Bool.and_eq_true, decide_eq_true_eq] at hsize
    have hmax : Text.maxWord = 18446744073709551615 := rfl
    simp only [Value.WordSized, Nat.pow_eq, Nat.reducePow]
    omega
  · split at h
    · rename_i hsize
      cases h
      simp only [Bool.and_eq_true, decide_eq_true_eq, Nat.pow_eq, Nat.reducePow] at hsize
      simp only [Value.WordSized, Nat.pow_eq, Nat.reducePow]
      omega
    · repeat' split at h
      all_goals first
        | exact hdouble h
        | cases h

theorem wordSized_word? {cs : List Char} {v : Value} (h : word? cs = some v) : v.WordSized := by
  unfold word? at h
  split at h
  · cases h; exact trivial
  · split at h
    · cases h; exact trivial
    · split at h
      · cases h; exact trivial
      · obtain ⟨x, hx, rfl⟩ := Option.map_eq_some_iff.1 h
        obtain ⟨n, -, hn⟩ := Option.bind_eq_some_iff.1 hx
        exact wordSized_number? hn

/-! ## The machine -/

/-- The values of an open list or map are word-sized. -/
def Frame.WordSized : Frame → Prop
  | .list items => Value.WordSizedItems items
  | .map entries _ => Value.WordSizedEntries entries

/-- All values that the machine holds are word-sized. -/
structure Machine.WordSized (m : Machine) : Prop where
  frames : ∀ frame ∈ m.frames, frame.WordSized
  result : ∀ v, m.result = some v → v.WordSized

namespace Machine

variable {m m' : Machine} {v : Value} {c : Char}

/-- What the machine is about to read does not matter. -/
theorem WordSized.of_frames {n : Machine} (h : m.WordSized) (hf : n.frames = m.frames)
    (hr : n.result = m.result) : n.WordSized :=
  ⟨by rw [hf]; exact h.frames, by rw [hr]; exact h.result⟩

theorem WordSized.push {n : Machine} {frame : Frame} {rest : List Frame}
    (hframe : frame.WordSized) (hrest : ∀ f ∈ rest, f.WordSized) (hf : n.frames = frame :: rest)
    (hr : ∀ v, n.result = some v → v.WordSized) : n.WordSized := by
  refine ⟨?_, hr⟩
  rw [hf, List.forall_mem_cons]
  exact ⟨hframe, hrest⟩

theorem wordSized_accept (h : m.WordSized) (hv : v.WordSized) (ha : m.accept v = some m') :
    m'.WordSized := by
  obtain ⟨hframes, hresult⟩ := h
  unfold accept at ha
  split at ha
  -- A value goes to the same place whether or not its list has just been opened, and so does a key.
  iterate 2
    · split at ha
      · cases ha
        refine ⟨hframes, ?_⟩
        intro w hw
        cases hw
        exact hv
      · rename_i items rest hf
        cases ha
        rw [hf, List.forall_mem_cons] at hframes
        have hframe : Frame.WordSized (.list (v :: items)) := ⟨hv, hframes.1⟩
        exact .push hframe hframes.2 rfl hresult
      · rename_i entries key rest hf
        cases ha
        rw [hf, List.forall_mem_cons] at hframes
        have hframe : Frame.WordSized (.map (entries.put key v) .none) :=
          Value.wordSizedEntries_put hv hframes.1
        exact .push hframe hframes.2 rfl hresult
      · cases ha
  iterate 2
    · split at ha
      · rename_i key entries rest hf
        cases ha
        rw [hf, List.forall_mem_cons] at hframes
        have hframe : Frame.WordSized (.map entries (some key)) := hframes.1
        exact .push hframe hframes.2 rfl hresult
      · cases ha
  · cases ha
  · cases ha

theorem wordSized_close (h : m.WordSized) (hc : m.close c = some m') : m'.WordSized := by
  unfold close at hc
  split at hc
  · rename_i items rest hf
    have hframes := h.frames
    rw [hf, List.forall_mem_cons] at hframes
    have hrest : Machine.WordSized { m with frames := rest, expect := .value } :=
      ⟨hframes.2, h.result⟩
    split at hc
    · exact wordSized_accept (v := .list items.reverse) hrest
        (Value.wordSizedItems_reverse hframes.1) hc
    · cases hc
  · rename_i entries key rest hf
    have hframes := h.frames
    rw [hf, List.forall_mem_cons] at hframes
    have hrest : Machine.WordSized { m with frames := rest, expect := .value } :=
      ⟨hframes.2, h.result⟩
    split at hc
    · exact wordSized_accept (v := .map entries) hrest hframes.1 hc
    · cases hc
  · cases hc

theorem wordSized_mark (h : m.WordSized) (hc : m.mark c = some m') : m'.WordSized := by
  have hopen : ∀ (frame : Frame) (expect : Expect), frame.WordSized →
      Machine.WordSized { m with expect, frames := frame :: m.frames } :=
    fun frame expect hframe => .push hframe h.frames rfl h.result
  unfold mark at hc
  split at hc
  · cases hc; exact h
  split at hc
  · split at hc
    · cases hc; exact h.of_frames rfl rfl
    · cases hc
  split at hc
  · split at hc
    · cases hc; exact hopen (.list []) .valueOrEnd trivial
    · cases hc
  split at hc
  · split at hc
    · cases hc; exact hopen (.map [] none) .keyOrEnd trivial
    · cases hc
  split at hc
  · exact wordSized_close h hc
  split at hc
  · split at hc
    · cases hc; exact h.of_frames rfl rfl
    · cases hc; exact h.of_frames rfl rfl
    · cases hc
  split at hc
  · split at hc
    · cases hc; exact h.of_frames rfl rfl
    · cases hc
  split at hc
  · cases hc; exact h.of_frames rfl rfl
  · cases hc

/-- A step keeps the values of the machine word-sized: only a word can bring a number. -/
theorem wordSized_step (h : m.WordSized) (hs : m.step c = some m') : m'.WordSized := by
  unfold step at hs
  split at hs
  · exact wordSized_mark h hs
  · split at hs
    · obtain ⟨v, hv, hs⟩ := Option.bind_eq_some_iff.1 hs
      obtain ⟨n, hn, hs⟩ := Option.bind_eq_some_iff.1 hs
      exact wordSized_mark (wordSized_accept h (wordSized_word? hv) hn) hs
    · cases hs; exact h.of_frames rfl rfl
  · split at hs
    · exact wordSized_accept (v := .text _) h trivial hs
    · split at hs
      · cases hs; exact h.of_frames rfl rfl
      · split at hs
        · cases hs
        · cases hs; exact h.of_frames rfl rfl
  · split at hs
    · cases hs; exact h.of_frames rfl rfl
    · obtain ⟨d, -, rfl⟩ := Option.map_eq_some_iff.1 hs
      exact h.of_frames rfl rfl
  · obtain ⟨digit, -, hs⟩ := Option.bind_eq_some_iff.1 hs
    simp only at hs
    split at hs
    · obtain ⟨lexeme, -, hs⟩ := Option.bind_eq_some_iff.1 hs
      cases hs; exact h.of_frames rfl rfl
    · cases hs; exact h.of_frames rfl rfl
  · split at hs
    · cases hs; exact h.of_frames rfl rfl
    · split at hs
      · cases hs; exact h.of_frames rfl rfl
      · cases hs

theorem wordSized_feed {cs : List Char} (h : m.WordSized) (hf : m.feed cs = some m') :
    m'.WordSized := by
  induction cs generalizing m with
  | nil => cases hf; exact h
  | cons c cs ih =>
    obtain ⟨n, hn, hf⟩ := Option.bind_eq_some_iff.1 hf
    exact ih (wordSized_step h hn) hf

end Machine

theorem wordSized_read? {s : String} {v : Value} (h : read? s = some v) : v.WordSized := by
  have hstart : Machine.start.WordSized := ⟨fun _ hf => absurd hf List.not_mem_nil, nofun⟩
  obtain ⟨⟨w, repeated⟩, hw, rfl⟩ := Option.map_eq_some_iff.1 h
  obtain ⟨m, hm, hw⟩ := Option.bind_eq_some_iff.1 hw
  obtain ⟨n, hn, hw⟩ := Option.bind_eq_some_iff.1 hw
  obtain ⟨u, hu, hw⟩ := Option.map_eq_some_iff.1 hw
  cases hw
  have hend := Machine.wordSized_step (Machine.wordSized_feed hstart hm) hn
  unfold Machine.value? at hu
  split at hu
  · exact hend.result _ hu
  · cases hu

end ProcessTest.Json
