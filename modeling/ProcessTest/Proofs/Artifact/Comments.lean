import ProcessTest.Artifact.Lines
import Mathlib.Data.List.Basic

/-!
# Comments on one line

A line comment of a script ends at the first line break in it, and what follows is code.  So a
generator must not put a break into a comment.

* `isBreak`, `OneLine` — line breaks, and texts without them.
* `oneLine_collapsed` — a text that was brought onto one line is one.
* `isComment` — lines that are comments; two marks open them, after spaces.
* `lead` — the first character of a line that is no space, by which code is told from comments.
* `Calm` — lines of which no comment has a break; `calm_append`, `calm_indented` and the others
  follow the operations on lines.
-/

set_option autoImplicit false

namespace ProcessTest.Artifact

/-! ## Texts on one line -/

/-- The characters that end a line of a script. -/
def breaks : List Char := ['\n', '\r', '\u2028', '\u2029']

def isBreak (c : Char) : Bool := breaks.contains c

theorem isBreak_eq_false_iff {c : Char} : isBreak c = false ↔ c ∉ breaks := by
  simp [isBreak]

/-- A character of a kind to which no break belongs is no break. -/
theorem not_break (kind : Char → Bool) {c : Char} (hbreaks : breaks.all (!kind ·) = true)
    (h : kind c = true) : isBreak c = false := by
  rw [isBreak_eq_false_iff]
  intro hc
  have hkind := List.all_eq_true.1 hbreaks c hc
  rw [h] at hkind
  cases hkind

/-- The text has no line break. -/
def OneLine (s : String) : Prop := ∀ c ∈ s.toList, isBreak c = false

instance (s : String) : Decidable (OneLine s) :=
  List.decidableBAll (fun c => isBreak c = false) s.toList

variable {s t : String} {mark : Char}

/-- A text that is written out has no break if none of its characters is one. -/
theorem oneLine_literal {cs : List Char} (h : cs.all (!isBreak ·) = true) :
    OneLine (String.ofList cs) := by
  intro c hc
  rw [String.toList_ofList] at hc
  simpa using List.all_eq_true.1 h c hc

theorem oneLine_append : OneLine (s ++ t) ↔ OneLine s ∧ OneLine t := by
  unfold OneLine
  rw [String.toList_append, List.forall_mem_append]

theorem oneLine_intercalate {lines : List String} (hs : OneLine s)
    (h : ∀ line ∈ lines, OneLine line) : OneLine (s.intercalate lines) := by
  induction lines with
  | nil => exact nofun
  | cons line rest ih =>
    obtain ⟨hline, hrest⟩ := List.forall_mem_cons.1 h
    cases rest with
    | nil => simpa using hline
    | cons next rest =>
      rw [String.intercalate_cons_cons, oneLine_append, oneLine_append]
      exact ⟨⟨hline, hs⟩, ih hrest⟩

theorem oneLine_nat (n : Nat) : OneLine (toString n) := by
  intro c hc
  rw [Nat.toString_eq_repr, Nat.toList_repr] at hc
  exact not_break Char.isDigit (by decide) (Nat.isDigit_of_mem_toDigits (by decide) (by decide) hc)

/-- A small letter is no break. -/
theorem not_break_toLower {c : Char} (h : c.isAlphanum = true) : isBreak c.toLower = false := by
  unfold Char.toLower
  split
  · rename_i hupper
    rw [isBreak_eq_false_iff]
    intro hc
    have hbreaks : breaks.all (fun d => d.val.toNat < 97 || 122 < d.val.toNat) = true := by decide
    have hval := List.all_eq_true.1 hbreaks _ hc
    simp [UInt32.le_iff_toNat_le] at hval hupper
    omega
  · exact not_break Char.isAlphanum (by decide) h

/-! ## Collapsed texts -/

/-- Words have no blanks. -/
theorem not_blank_of_mem_words {cs word : List Char} (h : word ∈ words cs) :
    ∀ c ∈ word, Text.isBlank c = false := by
  fun_induction words cs generalizing word with
  | case1 => cases h
  | case2 c hblank => cases h
  | case3 c hblank =>
    obtain rfl := List.mem_singleton.1 h
    simpa using hblank
  | case4 c d rest hblank ih => exact ih h
  | case5 c d rest hblank hnext ih =>
    rcases List.mem_cons.1 h with rfl | h
    · simpa using hblank
    · exact ih h
  | case6 c d rest hblank hnext first more hwords ih =>
    rw [hwords] at ih
    rcases List.mem_cons.1 h with rfl | h
    · simp only [List.forall_mem_cons]
      exact ⟨by simpa using hblank, ih List.mem_cons_self⟩
    · exact ih (List.mem_cons_of_mem _ h)
  | case7 c d rest hblank hnext hwords ih =>
    obtain rfl := List.mem_singleton.1 h
    simpa using hblank

/-- A text that was brought onto one line is on one line. -/
theorem oneLine_collapsed (s : String) : OneLine (oneLine s) := by
  refine oneLine_intercalate (oneLine_literal (by decide)) ?_
  intro word hword
  obtain ⟨cs, hcs, rfl⟩ := List.mem_map.1 hword
  intro c hc
  rw [String.toList_ofList] at hc
  have hblank := not_blank_of_mem_words hcs c hc
  exact not_break (!Text.isBlank ·) (by decide) (by rw [hblank]; rfl)

theorem oneLine_banner {d : Definition} : OneLine (banner d) ↔ OneLine d.id := by
  have hopening : OneLine s!"Generated by {programName} {programVersion} from '" := by decide
  have hclosing : OneLine "'. Do not edit." := oneLine_literal (by decide)
  unfold banner
  rw [oneLine_append, oneLine_append]
  exact (and_iff_left hclosing).trans (and_iff_right hopening)

/-! ## Lines of a script -/

/-- The characters of a line after the spaces in front. -/
def content (line : String) : List Char := line.toList.dropWhile (· == ' ')

/-- The line is a comment: after spaces, the mark stands twice. -/
def isComment (mark : Char) (line : String) : Bool := [mark, mark].isPrefixOf (content line)

/-- The first character of a line after the spaces in front. -/
def lead (line : String) : Option Char := (content line).head?

theorem lead_of_isComment {line : String} (h : isComment mark line = true) :
    lead line = some mark := by
  obtain ⟨rest, hrest⟩ := List.isPrefixOf_iff_prefix.1 h
  unfold lead
  rw [← hrest]
  rfl

theorem lead_append : lead (s ++ t) = (lead s).or (lead t) := by
  unfold lead content
  rw [String.toList_append, List.dropWhile_append]
  cases hs : s.toList.dropWhile (· == ' ') with
  | nil => rfl
  | cons c cs => rfl

/-- A text that is written out opens a comment if the mark stands twice in front. -/
theorem isComment_literal {cs : List Char}
    (h : [mark, mark].isPrefixOf (cs.dropWhile (· == ' ')) = true) :
    isComment mark (String.ofList cs) = true := by
  unfold isComment content
  rwa [String.toList_ofList]

theorem isComment_append (h : isComment mark s = true) : isComment mark (s ++ t) = true := by
  obtain ⟨rest, hrest⟩ := List.isPrefixOf_iff_prefix.1 h
  refine List.isPrefixOf_iff_prefix.2 ⟨rest ++ t.toList, ?_⟩
  unfold content at hrest ⊢
  rw [String.toList_append, List.dropWhile_append, ← hrest]
  rfl

/-- The line opens with another character than the mark, whatever follows. -/
def Opens (mark : Char) (line : String) : Prop := ∃ c, lead line = some c ∧ c ≠ mark

theorem Opens.literal {cs : List Char}
    (h : (cs.dropWhile (· == ' ')).head?.any (· != mark) = true) :
    Opens mark (String.ofList cs) := by
  obtain ⟨c, hc, hne⟩ := (Option.any_eq_true _ _).1 h
  refine ⟨c, ?_, by simpa using hne⟩
  unfold lead content
  rwa [String.toList_ofList]

theorem Opens.append (h : Opens mark s) : Opens mark (s ++ t) := by
  obtain ⟨c, hc, hne⟩ := h
  refine ⟨c, ?_, hne⟩
  rw [lead_append, hc]
  rfl

/-- Spaces in front do not count. -/
theorem Opens.behind (hs : lead s = none) (h : Opens mark t) : Opens mark (s ++ t) := by
  obtain ⟨c, hc, hne⟩ := h
  refine ⟨c, ?_, hne⟩
  rw [lead_append, hs, hc]
  rfl

theorem opens_nat (hmark : mark.isDigit = false) (n : Nat) : Opens mark (toString n) := by
  have hdigits : ∀ c ∈ (toString n).toList, c.isDigit = true := by
    intro c hc
    rw [Nat.toString_eq_repr, Nat.toList_repr] at hc
    exact Nat.isDigit_of_mem_toDigits (by decide) (by decide) hc
  have hne : (toString n).toList ≠ [] := by
    rw [Nat.toString_eq_repr, Nat.toList_repr]
    exact Nat.toDigits_ne_nil
  obtain ⟨c, cs, hcs⟩ := List.exists_cons_of_ne_nil hne
  have hc : c.isDigit = true := hdigits c (by rw [hcs]; exact List.mem_cons_self)
  refine ⟨c, ?_, ?_⟩
  · have hspace : c ≠ ' ' := by
      rintro rfl
      cases hc
    unfold lead content
    rw [hcs, List.dropWhile_cons_of_neg (by simpa using hspace)]
    rfl
  · rintro rfl
    rw [hmark] at hc
    cases hc

/-! ## Calm lines -/

/-- No comment among the lines has a line break. -/
def Calm (mark : Char) (lines : List String) : Prop :=
  ∀ line ∈ lines, isComment mark line = true → OneLine line

/-- The lines are no comments. -/
def IsCode (mark : Char) (lines : List String) : Prop := ∀ line ∈ lines, lead line ≠ some mark

theorem isCode_nil : IsCode mark [] := fun _ h => absurd h List.not_mem_nil

theorem isCode_cons {line : String} {lines : List String} (h : Opens mark line)
    (hlines : IsCode mark lines) : IsCode mark (line :: lines) := by
  obtain ⟨c, hc, hne⟩ := h
  refine List.forall_mem_cons.2 ⟨?_, hlines⟩
  rw [hc]
  exact fun heq => hne (Option.some.inj heq)

theorem isCode_singleton {line : String} (h : Opens mark line) : IsCode mark [line] :=
  isCode_cons h isCode_nil

theorem isCode_empty {lines : List String} (h : IsCode mark lines) : IsCode mark ("" :: lines) :=
  List.forall_mem_cons.2 ⟨nofun, h⟩

theorem isCode_append {lines more : List String} :
    IsCode mark (lines ++ more) ↔ IsCode mark lines ∧ IsCode mark more :=
  List.forall_mem_append

theorem IsCode.calm {lines : List String} (h : IsCode mark lines) : Calm mark lines :=
  fun line hline hcomment => absurd (lead_of_isComment hcomment) (h line hline)

section Calm

variable {lines more : List String} {line : String}

theorem calm_nil : Calm mark [] := fun _ h => absurd h List.not_mem_nil

theorem calm_append : Calm mark (lines ++ more) ↔ Calm mark lines ∧ Calm mark more :=
  List.forall_mem_append

theorem calm_append_code (h : IsCode mark more) : Calm mark (lines ++ more) ↔ Calm mark lines :=
  calm_append.trans (and_iff_left h.calm)

theorem calm_code_append (h : IsCode mark lines) : Calm mark (lines ++ more) ↔ Calm mark more :=
  calm_append.trans (and_iff_right h.calm)

theorem calm_empty_cons : Calm mark ("" :: lines) ↔ Calm mark lines :=
  calm_code_append (isCode_empty isCode_nil)

theorem calm_code_cons (h : Opens mark line) : Calm mark (line :: lines) ↔ Calm mark lines :=
  calm_code_append (isCode_singleton h)

theorem calm_cons : Calm mark (line :: lines) ↔ Calm mark [line] ∧ Calm mark lines := by
  rw [← List.singleton_append, calm_append]

theorem calm_cons_code (h : IsCode mark lines) : Calm mark (line :: lines) ↔ Calm mark [line] :=
  calm_cons.trans (and_iff_left h.calm)

theorem calm_flatMap {α : Type} {as : List α} {f : α → List String} :
    Calm mark (as.flatMap f) ↔ ∀ a ∈ as, Calm mark (f a) := by
  unfold Calm
  simp only [List.mem_flatMap]
  constructor
  · exact fun h a ha line hline => h line ⟨a, ha, hline⟩
  · rintro h line ⟨a, ha, hline⟩
    exact h a ha line hline

theorem calm_comment (h : isComment mark line = true) : Calm mark [line] ↔ OneLine line := by
  unfold Calm
  rw [List.forall_mem_singleton]
  exact forall_prop_of_true h

/-- A comment with a plain opening is on one line if the text behind it is. -/
theorem calm_opening {cs : List Char}
    (hmark : [mark, mark].isPrefixOf (cs.dropWhile (· == ' ')) = true)
    (h : cs.all (!isBreak ·) = true) : Calm mark [String.ofList cs ++ t] ↔ OneLine t :=
  (calm_comment (isComment_append (isComment_literal hmark))).trans
    (oneLine_append.trans (and_iff_right (oneLine_literal h)))

theorem toList_spaces (width : Nat) :
    ("".pushn ' ' width).toList = List.replicate width ' ' := by
  unfold String.pushn
  induction width with
  | zero => rfl
  | succ width ih =>
    rw [List.replicate_succ', ← ih]
    exact String.toList_push _

theorem content_indent (width : Nat) (line : String) :
    content ("".pushn ' ' width ++ line) = content line := by
  unfold content
  rw [String.toList_append, toList_spaces]
  induction width with
  | zero => rfl
  | succ width ih => exact ih

theorem oneLine_indent {width : Nat} : OneLine ("".pushn ' ' width ++ line) ↔ OneLine line := by
  refine oneLine_append.trans (and_iff_right ?_)
  intro c hc
  rw [toList_spaces] at hc
  obtain ⟨-, rfl⟩ := List.mem_replicate.1 hc
  rfl

/-- If an item's lines are calm exactly with the item, whatever its number, then the lines of all
items are calm exactly with all of them. -/
theorem calm_numbered {α : Type} {P : α → Prop} {f : Nat → α → List String}
    (h : ∀ index a, Calm mark (f index a) ↔ P a) (index : Nat) (as : List α) :
    Calm mark (numbered f index as).flatten ↔ ∀ a ∈ as, P a := by
  induction as generalizing index with
  | nil => exact iff_of_true calm_nil (List.forall_mem_nil P)
  | cons a rest ih =>
    rw [numbered, List.flatten_cons, calm_append, h, ih, List.forall_mem_cons]

/-- Indentation does not count. -/
theorem calm_indented {width : Nat} : Calm mark (indented width lines) ↔ Calm mark lines := by
  unfold Calm indented
  rw [List.forall_mem_map]
  refine forall₂_congr fun line hline => ?_
  split
  · rfl
  · unfold isComment
    rw [content_indent, oneLine_indent]

end Calm

end ProcessTest.Artifact
