import ProcessTest.Proofs.Text.Cut
import ProcessTest.Template

/-!
# How templates are walked

Both walks read a text the same way: up to the first opening mark, from there to the first closing
one, and on behind it.

* `Layout`, `layout` — the three ways in which a text goes on, and that every text is made so.
* `fillFrom_placeholder`, `keysFrom_placeholder` — what the walks do at a placeholder.
* `fillFrom_fillFrom` — filling twice is filling once, if what is put in first opens no placeholder.
* `fillFrom_of_keysFrom_eq_nil` — text without keys stays as it is.
* `fillFrom_eq_self_of_sole` — no text becomes a single placeholder by being filled.
-/

set_option autoImplicit false

namespace ProcessTest

/-- Some text without braces. -/
def Text.Plain (cs : List Char) : Prop := cs ≠ [] ∧ '{' ∉ cs ∧ '}' ∉ cs

instance (cs : List Char) : Decidable (Text.Plain cs) :=
  inferInstanceAs (Decidable (cs ≠ [] ∧ '{' ∉ cs ∧ '}' ∉ cs))

theorem Text.Plain.single {cs : List Char} (h : Text.Plain cs) : Text.Single '{' (cs ++ ['{']) :=
  Text.single_append_of_not_mem h.2.1

namespace Template

open Text (Single trim)

variable {value? more? : List Char → Option (List Char)} {c : Char}
  {cs ds before inner key rest : List Char}

/-! ## The layout of a text -/

/-- A text is verbatim, or verbatim up to an opening mark that nothing closes, or verbatim up to a
placeholder with a further text behind it. -/
inductive Layout : List Char → Prop where
  | verbatim {cs : List Char} (h : Single '{' cs) : Layout cs
  | unclosed {before inner : List Char} (hb : Single '{' (before ++ ['{']))
      (hi : Single '}' inner) : Layout (before ++ ('{' :: '{' :: inner))
  | placeholder {before key rest : List Char} (hb : Single '{' (before ++ ['{']))
      (hk : Single '}' (key ++ ['}'])) (hr : Layout rest) :
      Layout (before ++ ('{' :: '{' :: key ++ ['}', '}'] ++ rest))

/-- **Every text has a layout.** -/
theorem layout (cs : List Char) : Layout cs := by
  induction hn : cs.length using Nat.strongRecOn generalizing cs with
  | _ n ih =>
    cases hopen : Text.cut? ['{', '{'] cs with
    | none => exact .verbatim (Text.cut?_eq_none_iff.1 hopen)
    | some p =>
      obtain ⟨before, inner⟩ := p
      obtain ⟨rfl, hb⟩ := Text.cut?_eq_some_iff.1 hopen
      rw [List.append_assoc, List.cons_append, List.singleton_append]
      cases hclose : Text.cut? ['}', '}'] inner with
      | none => exact .unclosed hb (Text.cut?_eq_none_iff.1 hclose)
      | some p =>
        obtain ⟨key, rest⟩ := p
        obtain ⟨rfl, hk⟩ := Text.cut?_eq_some_iff.1 hclose
        refine .placeholder hb hk (ih rest.length ?_ rest rfl)
        simp only [List.length_append, List.length_cons, List.length_nil] at hn
        omega

/-! ## Filling -/

/-- What a placeholder becomes: its value, or else the placeholder itself. -/
def filling (value? : List Char → Option (List Char)) (key : List Char) : List Char :=
  (value? (trim key)).getD ('{' :: '{' :: key ++ ['}', '}'])

theorem fillFrom_none_cons (value? : List Char → Option (List Char)) (c : Char) (cs : List Char) :
    fillFrom value? none (c :: cs) =
      if c = '{' ∧ cs.head? = some '{' then fillFrom value? (some []) cs.tail
      else c :: fillFrom value? none cs := by
  split
  · rename_i h
    obtain ⟨rfl, hhead⟩ := h
    cases cs with
    | nil => cases hhead
    | cons d ds =>
      cases hhead
      rw [fillFrom]
      rfl
  · rename_i h
    refine fillFrom.eq_2 value? c cs ?_
    rintro ds rfl rfl
    exact h ⟨rfl, rfl⟩

theorem fillFrom_some_cons (value? : List Char → Option (List Char)) (key : List Char) (c : Char)
    (cs : List Char) :
    fillFrom value? (some key) (c :: cs) =
      if c = '}' ∧ cs.head? = some '}' then
        filling value? key.reverse ++ fillFrom value? none cs.tail
      else fillFrom value? (some (c :: key)) cs := by
  split
  · rename_i h
    obtain ⟨rfl, hhead⟩ := h
    cases cs with
    | nil => cases hhead
    | cons d ds =>
      cases hhead
      rw [fillFrom]
      rfl
  · rename_i h
    refine fillFrom.eq_5 value? key c cs ?_
    rintro ds rfl rfl
    exact h ⟨rfl, rfl⟩

/-- Text in which no opening mark begins stays as it is. -/
theorem fillFrom_append (h : Single '{' (cs ++ ['{'])) (ds : List Char) :
    fillFrom value? none (cs ++ ds) = cs ++ fillFrom value? none ds := by
  induction cs with
  | nil => rfl
  | cons c rest ih =>
    rw [List.cons_append] at h
    rw [List.cons_append, fillFrom_none_cons, if_neg (Text.not_mark_of_single h ds),
      ih (Text.single_cons.1 h).2]
    rfl

theorem fillFrom_verbatim (h : Single '{' cs) : fillFrom value? none cs = cs := by
  induction cs with
  | nil => rfl
  | cons c rest ih =>
    obtain ⟨hc, hrest⟩ := Text.single_cons.1 h
    rw [fillFrom_none_cons, if_neg fun hmark => hc hmark.1 hmark.2, ih hrest]

theorem fillFrom_unclosed (h : Single '}' inner) :
    fillFrom value? none ('{' :: '{' :: inner) = '{' :: '{' :: inner := by
  suffices hall : ∀ key, fillFrom value? (some key) inner = '{' :: '{' :: key.reverse ++ inner by
    rw [fillFrom]
    exact hall []
  induction inner with
  | nil => simp [fillFrom]
  | cons c rest ih =>
    intro key
    obtain ⟨hc, hrest⟩ := Text.single_cons.1 h
    rw [fillFrom_some_cons, if_neg fun hmark => hc hmark.1 hmark.2, ih hrest]
    simp

/-- **A placeholder is filled on its own.** -/
theorem fillFrom_placeholder (h : Single '}' (key ++ ['}'])) (rest : List Char) :
    fillFrom value? none ('{' :: '{' :: key ++ ['}', '}'] ++ rest) =
      filling value? key ++ fillFrom value? none rest := by
  suffices hall : ∀ front, fillFrom value? (some front) (key ++ '}' :: '}' :: rest) =
      filling value? (front.reverse ++ key) ++ fillFrom value? none rest by
    simpa [fillFrom] using hall []
  induction key with
  | nil =>
    intro front
    simp [fillFrom_some_cons]
  | cons c more ih =>
    intro front
    rw [List.cons_append] at h
    rw [List.cons_append, fillFrom_some_cons, if_neg (Text.not_mark_of_single h _),
      ih (Text.single_cons.1 h).2]
    simp

/-- Filling changes nothing, or leaves a character that is no closing brace. -/
theorem fillFrom_eq_self_or (hplain : ∀ key w, value? key = some w → Text.Plain w)
    (cs : List Char) :
    fillFrom value? none cs = cs ∨ ∃ c ∈ fillFrom value? none cs, c ≠ '}' := by
  cases layout cs with
  | verbatim h => exact .inl (fillFrom_verbatim h)
  | unclosed hb hi => exact .inl (by rw [fillFrom_append hb, fillFrom_unclosed hi])
  | @placeholder before key rest hb hk hr =>
    right
    rw [fillFrom_append hb, fillFrom_placeholder hk]
    unfold filling
    cases hw : value? (trim key) with
    | none => exact ⟨'{', by simp, by decide⟩
    | some w =>
      obtain ⟨hne, -, hclose⟩ := hplain _ _ hw
      obtain ⟨c, hc⟩ := List.exists_mem_of_ne_nil w hne
      exact ⟨c, by simp [hc], fun heq => hclose (heq ▸ hc)⟩

/-! ## Keys -/

theorem keysFrom_none_cons (c : Char) (cs : List Char) :
    keysFrom none (c :: cs) =
      if c = '{' ∧ cs.head? = some '{' then keysFrom (some []) cs.tail else keysFrom none cs := by
  split
  · rename_i h
    obtain ⟨rfl, hhead⟩ := h
    cases cs with
    | nil => cases hhead
    | cons d ds =>
      cases hhead
      rw [keysFrom]
      rfl
  · rename_i h
    refine keysFrom.eq_2 c cs ?_
    rintro ds rfl rfl
    exact h ⟨rfl, rfl⟩

theorem keysFrom_some_cons (key : List Char) (c : Char) (cs : List Char) :
    keysFrom (some key) (c :: cs) =
      if c = '}' ∧ cs.head? = some '}' then
        String.ofList (trim key.reverse) :: keysFrom none cs.tail
      else keysFrom (some (c :: key)) cs := by
  split
  · rename_i h
    obtain ⟨rfl, hhead⟩ := h
    cases cs with
    | nil => cases hhead
    | cons d ds =>
      cases hhead
      rw [keysFrom]
      rfl
  · rename_i h
    refine keysFrom.eq_4 key c cs ?_
    rintro ds rfl rfl
    exact h ⟨rfl, rfl⟩

theorem keysFrom_append (h : Single '{' (cs ++ ['{'])) (ds : List Char) :
    keysFrom none (cs ++ ds) = keysFrom none ds := by
  induction cs with
  | nil => rfl
  | cons c rest ih =>
    rw [List.cons_append] at h
    rw [List.cons_append, keysFrom_none_cons, if_neg (Text.not_mark_of_single h ds),
      ih (Text.single_cons.1 h).2]

/-- **A placeholder has its key.** -/
theorem keysFrom_placeholder (h : Single '}' (key ++ ['}'])) (rest : List Char) :
    keysFrom none ('{' :: '{' :: key ++ ['}', '}'] ++ rest) =
      String.ofList (trim key) :: keysFrom none rest := by
  suffices hall : ∀ front, keysFrom (some front) (key ++ '}' :: '}' :: rest) =
      String.ofList (trim (front.reverse ++ key)) :: keysFrom none rest by
    simpa [keysFrom] using hall []
  induction key with
  | nil =>
    intro front
    simp [keysFrom_some_cons]
  | cons c more ih =>
    intro front
    rw [List.cons_append] at h
    rw [List.cons_append, keysFrom_some_cons, if_neg (Text.not_mark_of_single h _),
      ih (Text.single_cons.1 h).2]
    simp

theorem keysFrom_verbatim (h : Single '{' cs) : keysFrom none cs = [] := by
  induction cs with
  | nil => rfl
  | cons c rest ih =>
    obtain ⟨hc, hrest⟩ := Text.single_cons.1 h
    rw [keysFrom_none_cons, if_neg fun hmark => hc hmark.1 hmark.2, ih hrest]

theorem keysFrom_unclosed (h : Single '}' inner) : keysFrom none ('{' :: '{' :: inner) = [] := by
  suffices hall : ∀ key, keysFrom (some key) inner = [] by
    rw [keysFrom]
    exact hall []
  induction inner with
  | nil => simp [keysFrom]
  | cons c rest ih =>
    intro key
    obtain ⟨hc, hrest⟩ := Text.single_cons.1 h
    rw [keysFrom_some_cons, if_neg fun hmark => hc hmark.1 hmark.2, ih hrest]

/-- **Filling twice is filling once**, if the second filling keeps what the first one puts in, and
none of that has an opening brace. -/
theorem fillFrom_fillFrom (hmore : ∀ key, String.ofList key ∈ keysFrom none cs →
    ∀ w, value? key = some w → '{' ∉ w ∧ more? key = some w) :
    fillFrom more? none (fillFrom value? none cs) = fillFrom more? none cs := by
  induction layout cs with
  | verbatim h => rw [fillFrom_verbatim h]
  | unclosed hb hi => rw [fillFrom_append hb, fillFrom_unclosed hi]
  | @placeholder before key rest hb hk hr ih =>
    rw [keysFrom_append hb, keysFrom_placeholder hk] at hmore
    have hbehind := ih fun more hmem => hmore more (List.mem_cons_of_mem _ hmem)
    rw [fillFrom_append hb, fillFrom_placeholder hk, fillFrom_append hb, fillFrom_append hb,
      fillFrom_placeholder hk]
    congr 1
    unfold filling
    cases hw : value? (trim key) with
    | none =>
      -- The placeholder is still there for the second filling.
      rw [Option.getD_none, fillFrom_placeholder hk, hbehind]
      rfl
    | some w =>
      obtain ⟨hbrace, hw'⟩ := hmore _ List.mem_cons_self w hw
      rw [Option.getD_some, hw', Option.getD_some,
        fillFrom_append (Text.single_append_of_not_mem hbrace), hbehind]

/-- Text without keys stays as it is. -/
theorem fillFrom_of_keysFrom_eq_nil (h : keysFrom none cs = []) :
    fillFrom value? none cs = cs := by
  cases layout cs with
  | verbatim h => exact fillFrom_verbatim h
  | unclosed hb hi => rw [fillFrom_append hb, fillFrom_unclosed hi]
  | placeholder hb hk hr =>
    rw [keysFrom_append hb, keysFrom_placeholder hk] at h
    cases h

/-! ## Text that is one placeholder -/

theorem sole?_eq_some_iff {s : String} :
    sole? s = some key ↔ ∃ inner, s.toList = '{' :: '{' :: inner ++ ['}', '}'] ∧
      Single '{' inner ∧ Single '}' inner ∧ key = trim inner := by
  unfold sole?
  simp only [Option.bind_eq_bind, Option.bind_eq_some_iff, Text.dropMark?_eq_some_iff,
    Text.dropEnd?_eq_some_iff, Option.ite_none_left_eq_some, Bool.or_eq_true, not_or,
    Bool.not_eq_true, Text.holds_eq_false_iff, Option.some.injEq]
  constructor
  · rintro ⟨_, hs, inner, rfl, ⟨hopen, hclose⟩, hkey⟩
    exact ⟨inner, hs, hopen, hclose, hkey.symm⟩
  · rintro ⟨inner, hs, hopen, hclose, hkey⟩
    exact ⟨_, hs, inner, rfl, ⟨hopen, hclose⟩, hkey.symm⟩

/-- The placeholder that such a text begins with: all of it, or all but a closing brace. -/
theorem exists_placeholder_of_sole (hi : Single '}' inner) :
    ∃ key rest, inner ++ ['}', '}'] = key ++ ['}', '}'] ++ rest ∧ Single '}' (key ++ ['}']) ∧
      ((key = inner ∧ rest = []) ∨ (inner = key ++ ['}'] ∧ rest = ['}'])) := by
  cases hclose : Text.cut? ['}', '}'] (inner ++ ['}', '}']) with
  | none =>
    have hpair := (Text.cut?_eq_none_iff.1 hclose).of_append.2
    exact absurd rfl ((Text.single_cons.1 hpair).1 rfl)
  | some p =>
    obtain ⟨key, rest⟩ := p
    obtain ⟨heq, hk⟩ := Text.cut?_eq_some_iff.1 hclose
    exact ⟨key, rest, heq, hk, Text.eq_or_eq_of_cut?_append_pair hi hclose⟩

/-- If such a text changes though it has no value, it ends in three braces, and what changes is the
placeholder without the last one. -/
theorem exists_key_of_fillFrom_ne_self (hi : Single '}' inner) (hnone : value? (trim inner) = none)
    (h : fillFrom value? none ('{' :: '{' :: inner ++ ['}', '}']) ≠
      '{' :: '{' :: inner ++ ['}', '}']) :
    ∃ key w, inner = key ++ ['}'] ∧ value? (trim key) = some w := by
  obtain ⟨key, rest, heq, hk, hends⟩ := exists_placeholder_of_sole hi
  have htext : '{' :: '{' :: inner ++ ['}', '}'] = '{' :: '{' :: key ++ ['}', '}'] ++ rest :=
    congrArg (fun cs => '{' :: '{' :: cs) heq
  rw [htext, fillFrom_placeholder hk] at h
  have hrest : fillFrom value? none rest = rest := by
    rcases hends with ⟨-, rfl⟩ | ⟨-, rfl⟩ <;> rfl
  cases hw : value? (trim key) with
  | none =>
    rw [filling, hw, hrest] at h
    exact absurd rfl h
  | some w =>
    rcases hends with ⟨rfl, -⟩ | ⟨hinner, -⟩
    · rw [hnone] at hw
      cases hw
    · exact ⟨key, w, hinner, hw⟩

theorem sole?_eq_none_of_keys_eq_nil {s : String} (h : keys s = []) : sole? s = none := by
  rw [Option.eq_none_iff_forall_ne_some]
  intro key hsole
  obtain ⟨inner, hs, -, hi, -⟩ := sole?_eq_some_iff.1 hsole
  obtain ⟨first, rest, heq, hk, -⟩ := exists_placeholder_of_sole hi
  have htext : s.toList = '{' :: '{' :: first ++ ['}', '}'] ++ rest :=
    hs.trans (congrArg (fun cs => '{' :: '{' :: cs) heq)
  rw [keys, htext, keysFrom_placeholder hk] at h
  cases h

/-- **No text becomes a single placeholder by being filled.** -/
theorem fillFrom_eq_self_of_sole (hplain : ∀ key w, value? key = some w → Text.Plain w)
    (hi : Single '}' inner)
    (h : fillFrom value? none cs = '{' :: '{' :: inner ++ ['}', '}']) :
    fillFrom value? none cs = cs := by
  cases layout cs with
  | verbatim h => exact fillFrom_verbatim h
  | unclosed hb hi => rw [fillFrom_append hb, fillFrom_unclosed hi]
  | @placeholder before key rest hb hk hr =>
    rw [fillFrom_append hb, fillFrom_placeholder hk] at h ⊢
    have hopen := Text.cut?_mark '{' (inner ++ ['}', '}'])
    rw [← List.cons_append, ← List.cons_append, ← h, Text.cut?_append hb] at hopen
    unfold filling at hopen ⊢
    cases hw : value? (trim key) with
    | some w =>
      -- The text would open with what has been put in.
      have hplain := hplain _ _ hw
      rw [hw, Option.getD_some, Text.cut?_append hplain.single, Option.map_map] at hopen
      obtain ⟨⟨front, _⟩, -, heq⟩ := Option.map_eq_some_iff.1 hopen
      simp [hplain.1] at heq
    | none =>
      rw [hw, Option.getD_none, List.cons_append, List.cons_append, List.cons_append,
        List.cons_append, Text.cut?_mark] at hopen
      obtain ⟨rfl, hinner⟩ : before = [] ∧ key ++ ['}', '}'] ++ fillFrom value? none rest =
          inner ++ ['}', '}'] := by
        simpa using hopen
      have hclose := Text.cut?_eq_some_iff.2 ⟨hinner.symm, hk⟩
      have hrest : fillFrom value? none rest = rest := by
        rcases fillFrom_eq_self_or hplain rest with hself | ⟨c, hc, hne⟩
        · exact hself
        · rcases Text.eq_or_eq_of_cut?_append_pair hi hclose with ⟨-, hr⟩ | ⟨-, hr⟩
          · rw [hr] at hc
            cases hc
          · rw [hr] at hc
            exact absurd (List.mem_singleton.1 hc) hne
      rw [Option.getD_none, hrest]

end Template

end ProcessTest
