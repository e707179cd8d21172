import Mathlib.Data.List.Chain
import Mathlib.Data.List.Infix
import ProcessTest.Text.Cut

/-!
# The first mark

Text is cut where a mark stands first.  Templates have marks of two equal characters.

* `cut?_eq_none_iff_absent`, `cut?_eq_some_iff_first` — there is no mark, or none begins
  before the cut.
* `infix_append_cons_iff` — a mark stands in front of a character that it has not, or behind it.
* `Single` — of two neighbours, at most one is the given character.
* `cut?_eq_none_iff`, `cut?_eq_some_iff` — there is no doubled mark, or the text before the first
  one runs up to it without another.
* `eq_or_eq_of_cut?_append_pair` — where the first mark of text with a mark at its end stands.
* `cut?_append` — text in which no mark begins does not change the cut behind it.
* `splitAt_eq_singleton_iff` — text without separators is one piece.
* `splitAt_append_cons` — a separator parts the pieces of a text.
* `splitAt_eq_splitOn`, `not_mem_of_mem_splitAt` — the pieces of a text, which have no separator.
* `span_append` — characters of one class end where one of another class follows.
-/

set_option autoImplicit false

namespace ProcessTest.Text

variable {a c : Char} {mark cs ds before rest : List Char}

/-! ## Any mark -/

theorem dropMark?_eq_none_iff : dropMark? mark cs = none ↔ ¬ mark <+: cs := by
  simp only [Option.eq_none_iff_forall_ne_some, ne_eq, dropMark?_eq_some_iff]
  exact ⟨fun h ⟨rest, heq⟩ => h rest heq.symm, fun h rest heq => h ⟨rest, heq.symm⟩⟩

theorem cut?_mark_append (mark rest : List Char) : cut? mark (mark ++ rest) = some ([], rest) := by
  cases mark with
  | nil => cases rest <;> rfl
  | cons m ms =>
    have hmark : dropMark? (m :: ms) (m :: (ms ++ rest)) = some rest :=
      dropMark?_eq_some_iff.2 rfl
    rw [List.cons_append, cut?, hmark]

theorem cut?_cons_of_not_start (h : ¬ mark <+: c :: cs) :
    cut? mark (c :: cs) = (cut? mark cs).map fun (before, rest) => (c :: before, rest) := by
  rw [cut?, dropMark?_eq_none_iff.2 h]

/-- There is no cut exactly if there is no mark. -/
theorem cut?_eq_none_iff_absent : cut? mark cs = none ↔ ¬ mark <:+: cs := by
  induction cs with
  | nil => simp [cut?]
  | cons c rest ih =>
    rw [List.infix_cons_iff, not_or]
    by_cases hstart : mark <+: c :: rest
    · obtain ⟨behind, heq⟩ := hstart
      rw [← heq, cut?_mark_append]
      exact iff_of_false (Option.some_ne_none _) fun h => h.1 (List.prefix_append _ _)
    · rw [cut?_cons_of_not_start hstart, Option.map_eq_none_iff, ih, and_iff_right hstart]

theorem holds_iff_occurs : holds mark cs = true ↔ mark <:+: cs := by
  unfold holds
  rw [Option.isSome_iff_ne_none, ne_eq, cut?_eq_none_iff_absent, not_not]

/-- Text up to a mark, and the mark but for its last character. -/
theorem append_dropLast_start (before mark rest : List Char) :
    before ++ mark.dropLast <+: before ++ mark ++ rest := by
  rw [List.append_assoc, List.prefix_append_right_inj]
  exact (List.dropLast_prefix mark).trans (List.prefix_append _ _)

/-- No mark begins before the cut, even if the one at the cut is not complete. -/
theorem not_occurs_of_cut? (hne : mark ≠ []) (h : cut? mark cs = some (before, rest)) :
    ¬ mark <:+: before ++ mark.dropLast := by
  induction cs generalizing before with
  | nil => simp [cut?, hne] at h
  | cons c tail ih =>
    by_cases hstart : mark <+: c :: tail
    · obtain ⟨behind, heq⟩ := hstart
      rw [← heq, cut?_mark_append] at h
      cases h
      intro hoccurs
      have hlength := hoccurs.length_le
      have hpos := List.length_pos_iff.2 hne
      simp only [List.nil_append, List.length_dropLast] at hlength
      omega
    · rw [cut?_cons_of_not_start hstart] at h
      obtain ⟨⟨b, r⟩, hcut, heq⟩ := Option.map_eq_some_iff.1 h
      cases heq
      rw [List.cons_append, List.infix_cons_iff, not_or]
      refine ⟨fun hmark => hstart (hmark.trans ?_), ih hcut⟩
      rw [append_of_cut? hcut, List.cons_prefix_cons]
      exact ⟨rfl, append_dropLast_start b mark rest⟩

/-- **The cut is at the first mark.** -/
theorem cut?_eq_some_iff_first (hne : mark ≠ []) :
    cut? mark cs = some (before, rest) ↔
      cs = before ++ mark ++ rest ∧ ¬ mark <:+: before ++ mark.dropLast := by
  refine ⟨fun h => ⟨append_of_cut? h, not_occurs_of_cut? hne h⟩, ?_⟩
  rintro ⟨rfl, h⟩
  induction before with
  | nil => exact cut?_mark_append mark rest
  | cons c tail ih =>
    have hshort := append_dropLast_start (c :: tail) mark rest
    simp only [List.cons_append] at h hshort ⊢
    have hmark : ¬ mark <+: c :: (tail ++ mark ++ rest) := by
      intro hstart
      refine h (List.prefix_of_prefix_length_le hstart hshort ?_).isInfix
      simp only [List.length_cons, List.length_append, List.length_dropLast]
      omega
    rw [cut?_cons_of_not_start hmark, ih fun hoccurs => h (List.infix_cons hoccurs)]
    rfl

/-- What follows any mark follows the first one, too. -/
theorem suffix_of_cut? (hne : mark ≠ []) (h : cut? mark (cs ++ mark ++ ds) = some (before, rest)) :
    ds <:+ rest := by
  have heq := append_of_cut? h
  have hds : ds <:+ cs ++ mark ++ ds := List.suffix_append _ _
  have hrest : rest <:+ cs ++ mark ++ ds := heq ▸ List.suffix_append _ _
  refine List.suffix_of_suffix_length_le hds hrest ?_
  by_contra hlong
  have hmark : cs ++ mark <+: cs ++ mark ++ ds := List.prefix_append _ _
  have hshort : before ++ mark.dropLast <+: cs ++ mark ++ ds :=
    heq ▸ append_dropLast_start before mark rest
  -- The given mark would begin before the first one.
  have hstart : cs ++ mark <+: before ++ mark.dropLast := by
    refine List.prefix_of_prefix_length_le hmark hshort ?_
    have hlength := congrArg List.length heq
    have hpos := List.length_pos_iff.2 hne
    simp only [List.length_append, List.length_dropLast] at hlength ⊢
    omega
  exact not_occurs_of_cut? hne h ((List.suffix_append cs mark).isInfix.trans hstart.isInfix)

theorem prefix_append_cons_iff (h : c ∉ mark) (cs ds : List Char) :
    mark <+: cs ++ c :: ds ↔ mark <+: cs := by
  refine ⟨fun hstart => ?_, fun hstart => hstart.trans (List.prefix_append _ _)⟩
  rcases List.prefix_or_prefix_of_prefix hstart (List.prefix_append cs (c :: ds)) with
    hcs | ⟨more, rfl⟩
  · exact hcs
  · rw [List.prefix_append_right_inj, List.prefix_cons_iff] at hstart
    rcases hstart with rfl | ⟨tail, rfl, -⟩
    · rw [List.append_nil]
    · exact absurd (List.mem_append_right cs List.mem_cons_self) h

/-- A mark that has not the character stands in front of it or behind it. -/
theorem infix_append_cons_iff (h : c ∉ mark) :
    mark <:+: cs ++ c :: ds ↔ mark <:+: cs ∨ mark <:+: ds := by
  induction cs with
  | nil =>
    have hstart : mark <+: c :: ds ↔ mark <+: [] := prefix_append_cons_iff h [] ds
    rw [List.nil_append, List.infix_cons_iff, hstart, List.prefix_nil, List.infix_nil]
  | cons d rest ih =>
    have hstart : mark <+: d :: (rest ++ c :: ds) ↔ mark <+: d :: rest :=
      prefix_append_cons_iff h (d :: rest) ds
    rw [List.cons_append, List.infix_cons_iff, List.infix_cons_iff, hstart, ih, or_assoc]

/-! ## Doubled marks -/

/-- Of two neighbours, at most one is the given character. -/
def Single (a : Char) (cs : List Char) : Prop := cs.IsChain fun c d => c = a → d ≠ a

theorem single_cons : Single a (c :: cs) ↔ (c = a → cs.head? ≠ some a) ∧ Single a cs := by
  unfold Single
  rw [List.isChain_cons]
  cases cs with
  | nil => simp
  | cons d rest => simp

theorem Single.of_append (h : Single a (cs ++ ds)) : Single a cs ∧ Single a ds :=
  ⟨(List.isChain_append.1 h).1, (List.isChain_append.1 h).2.1⟩

/-- No mark begins in text without the character. -/
theorem single_append_of_not_mem (h : a ∉ cs) : Single a (cs ++ [a]) := by
  induction cs with
  | nil => exact List.isChain_singleton a
  | cons c rest ih =>
    have hc : c ≠ a := fun heq => h (heq ▸ List.mem_cons_self)
    exact single_cons.2 ⟨fun heq => absurd heq hc, ih fun hm => h (List.mem_cons_of_mem c hm)⟩

/-! ## The first doubled mark -/

theorem dropMark?_pair (a c : Char) (cs : List Char) :
    dropMark? [a, a] (c :: cs) = if c = a ∧ cs.head? = some a then some cs.tail else none := by
  by_cases hc : c = a
  · subst hc
    cases cs with
    | nil => simp [dropMark?]
    | cons d rest => simp [dropMark?, eq_comm]
  · simp [dropMark?, hc, Ne.symm hc]

theorem cut?_pair_cons (a c : Char) (cs : List Char) :
    cut? [a, a] (c :: cs) = if c = a ∧ cs.head? = some a then some ([], cs.tail)
      else (cut? [a, a] cs).map fun (before, rest) => (c :: before, rest) := by
  rw [cut?, dropMark?_pair]
  split
  · rename_i heq
    split at heq
    · rename_i hmark
      cases heq
      rw [if_pos hmark]
    · cases heq
  · rename_i heq
    split at heq
    · cases heq
    · rename_i hmark
      rw [if_neg hmark]

/-- No two neighbours are the character exactly if there is no doubled mark. -/
theorem single_iff : Single a cs ↔ ¬ [a, a] <:+: cs := by
  induction cs with
  | nil => simp [Single]
  | cons c rest ih =>
    rw [single_cons, ih, List.infix_cons_iff, not_or]
    refine and_congr_left fun _ => ?_
    cases rest with
    | nil => simp
    | cons d more => simp [eq_comm]

/-- Another character parts a text in two. -/
theorem single_append_cons_iff (h : c ≠ a) :
    Single a (cs ++ c :: ds) ↔ Single a cs ∧ Single a ds := by
  have hmark : c ∉ [a, a] := by simp [h]
  rw [single_iff, single_iff, single_iff, infix_append_cons_iff hmark, not_or]

theorem cut?_eq_none_iff : cut? [a, a] cs = none ↔ Single a cs :=
  cut?_eq_none_iff_absent.trans single_iff.symm

theorem cut?_eq_some_iff :
    cut? [a, a] cs = some (before, rest) ↔
      cs = before ++ [a, a] ++ rest ∧ Single a (before ++ [a]) := by
  rw [cut?_eq_some_iff_first (List.cons_ne_nil _ _), single_iff]
  rfl

/-- No mark begins in front of text in which none does, whatever follows that text. -/
theorem not_mark_of_single (h : Single a (c :: (cs ++ [a]))) (ds : List Char) :
    ¬(c = a ∧ (cs ++ ds).head? = some a) := by
  rintro ⟨heq, hhead⟩
  refine (single_cons.1 h).1 heq ?_
  cases cs with
  | nil => rfl
  | cons d more => exact hhead

/-- Text in which no mark begins, whatever follows it, does not change the cut behind it. -/
theorem cut?_append (h : Single a (cs ++ [a])) (ds : List Char) :
    cut? [a, a] (cs ++ ds) =
      (cut? [a, a] ds).map fun (before, rest) => (cs ++ before, rest) := by
  induction cs with
  | nil => simp
  | cons c rest ih =>
    rw [List.cons_append] at h
    rw [List.cons_append, cut?_pair_cons, if_neg (not_mark_of_single h ds),
      ih (single_cons.1 h).2, Option.map_map]
    rfl

theorem cut?_mark (a : Char) (cs : List Char) : cut? [a, a] (a :: a :: cs) = some ([], cs) :=
  cut?_mark_append [a, a] cs

/-- Text without a mark, and a mark behind it: the cut leaves at most one character. -/
theorem eq_or_eq_of_cut?_append_pair (h : Single a cs)
    (hcut : cut? [a, a] (cs ++ [a, a]) = some (before, rest)) :
    (before = cs ∧ rest = []) ∨ (cs = before ++ [a] ∧ rest = [a]) := by
  induction cs generalizing before with
  | nil =>
    left
    simpa [cut?_pair_cons, eq_comm] using hcut
  | cons c tail ih =>
    obtain ⟨hc, htail⟩ := single_cons.1 h
    rw [List.cons_append, cut?_pair_cons] at hcut
    split at hcut
    · rename_i hmark
      obtain ⟨rfl, hhead⟩ := hmark
      cases tail with
      | nil =>
        right
        cases hcut
        exact ⟨rfl, rfl⟩
      | cons d more => exact absurd hhead (hc rfl)
    · obtain ⟨⟨b, r⟩, hb, heq⟩ := Option.map_eq_some_iff.1 hcut
      cases heq
      rcases ih htail hb with ⟨rfl, rfl⟩ | ⟨rfl, rfl⟩
      · exact .inl ⟨rfl, rfl⟩
      · exact .inr ⟨rfl, rfl⟩

theorem holds_eq_false_iff : holds [a, a] cs = false ↔ Single a cs := by
  unfold holds
  rw [Option.isSome_eq_false_iff, Option.isNone_iff_eq_none, cut?_eq_none_iff]

/-! ## Ends -/

theorem dropEnd?_eq_some_iff {mark : List Char} :
    dropEnd? mark cs = some rest ↔ cs = rest ++ mark := by
  unfold dropEnd?
  rw [Option.map_eq_some_iff]
  constructor
  · rintro ⟨front, h, rfl⟩
    rw [dropMark?_eq_some_iff] at h
    rw [← List.reverse_reverse cs, h]
    simp
  · rintro rfl
    exact ⟨rest.reverse, by simp [dropMark?_eq_some_iff], by simp⟩

/-! ## Pieces -/

/-- Text without separators is one piece. -/
theorem splitAt_eq_singleton_iff {sep : Char} {piece : List Char} :
    splitAt sep cs = [piece] ↔ sep ∉ cs ∧ piece = cs := by
  induction cs generalizing piece with
  | nil => simp [splitAt, eq_comm]
  | cons c rest ih =>
    unfold splitAt
    by_cases hc : c = sep
    · simp [hc, splitAt_ne_nil]
    · rw [if_neg hc]
      cases hrest : splitAt sep rest with
      | nil => exact absurd hrest (splitAt_ne_nil sep rest)
      | cons first more =>
        cases more with
        | nil =>
          obtain ⟨hsep, rfl⟩ := ih.1 hrest
          simp [hsep, Ne.symm hc, eq_comm]
        | cons second more =>
          have hmem : sep ∈ rest := by
            by_contra hno
            rw [ih.2 ⟨hno, rfl⟩] at hrest
            cases hrest
          simp [hmem]

theorem splitAt_eq_splitOn (sep : Char) (cs : List Char) : splitAt sep cs = cs.splitOn sep := by
  induction cs with
  | nil => rfl
  | cons c rest ih =>
    unfold List.splitOn at ih ⊢
    rw [splitAt, List.splitOnP_cons_eq_if_modifyHead, ih]
    by_cases hc : c = sep
    · simp [hc]
    · rw [if_neg hc, if_neg (by simpa using hc)]
      cases hrest : List.splitOnP (· == sep) rest with
      | nil => exact absurd hrest (List.splitOnP_ne_nil _ rest)
      | cons piece more => rfl

/-- No piece has a separator. -/
theorem not_mem_of_mem_splitAt {sep : Char} {piece : List Char} (h : piece ∈ splitAt sep cs) :
    sep ∉ piece := by
  induction cs generalizing piece with
  | nil => simp_all [splitAt]
  | cons c rest ih =>
    unfold splitAt at h
    split at h
    · rcases List.mem_cons.1 h with rfl | h
      · exact List.not_mem_nil
      · exact ih h
    · rename_i hc
      cases hrest : splitAt sep rest with
      | nil => exact absurd hrest (splitAt_ne_nil sep rest)
      | cons first more =>
        rw [hrest] at h ih
        rcases List.mem_cons.1 h with rfl | h
        · rw [List.mem_cons, not_or]
          exact ⟨Ne.symm hc, ih List.mem_cons_self⟩
        · exact ih (List.mem_cons_of_mem _ h)

/-- A separator parts the pieces in front of it from those behind it. -/
theorem splitAt_append_cons (sep : Char) (cs ds : List Char) :
    splitAt sep (cs ++ sep :: ds) = splitAt sep cs ++ splitAt sep ds := by
  induction cs with
  | nil => simp [splitAt]
  | cons c rest ih =>
    rw [List.cons_append, splitAt, splitAt, ih]
    split
    · rfl
    · cases hrest : splitAt sep rest with
      | nil => exact absurd hrest (splitAt_ne_nil sep rest)
      | cons piece more => rfl

/-! ## Classes of characters -/

/-- Characters of one class end where one of another class follows. -/
theorem span_append {p : Char → Bool} (h : ∀ c ∈ cs, p c = true)
    (hrest : ∀ c ∈ rest.head?, p c = false) :
    (cs ++ rest).takeWhile p = cs ∧ (cs ++ rest).dropWhile p = rest := by
  rw [List.takeWhile_append_of_pos h, List.dropWhile_append_of_pos h]
  cases rest with
  | nil => simp
  | cons c rest => simp [hrest c rfl]

end ProcessTest.Text
