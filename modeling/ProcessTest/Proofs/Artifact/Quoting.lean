import ProcessTest.Artifact.Sql

/-!
# Tokens in quotes

A token in quotes ends at the first quote that is not doubled, and a doubled quote inside stands
for one.  What was written with doubled quotes reads back, and no character of it ends the token.

* `unquote?` — the text of a token behind its opening quote, and what follows the token.
* `unquote?_doubled` — a token reads back, unless another quote follows it.
-/

set_option autoImplicit false

namespace ProcessTest.Artifact.Sql

variable {quote : Char} {cs rest text more : List Char}

/-- The text of a token from behind its opening quote, and what follows its closing quote. -/
def unquote? (quote : Char) : List Char → Option (List Char × List Char)
  | [] => none
  | [c] => if c = quote then some ([], []) else none
  | c :: d :: rest =>
    if c = quote then
      if d = quote then (unquote? quote rest).map fun (text, more) => (quote :: text, more)
      else some ([], d :: rest)
    else (unquote? quote (d :: rest)).map fun (text, more) => (c :: text, more)

theorem toList_enclosed (quote : Char) (s : String) :
    (enclosed quote s).toList = quote :: (doubled quote s.toList ++ [quote]) := by
  unfold enclosed
  rw [String.toList_ofList, List.cons_append]

theorem unquote?_closing (h : rest.head? ≠ some quote) :
    unquote? quote (quote :: rest) = some ([], rest) := by
  cases rest with
  | nil => simp [unquote?]
  | cons d rest =>
    have hd : d ≠ quote := fun heq => h (by rw [heq]; rfl)
    simp [unquote?, hd]

theorem unquote?_doubled_quote (rest : List Char) :
    unquote? quote (quote :: quote :: rest) =
      (unquote? quote rest).map fun (text, more) => (quote :: text, more) := by
  simp [unquote?]

theorem unquote?_cons_of_ne {c : Char} (h : c ≠ quote) (rest : List Char) :
    unquote? quote (c :: rest) =
      (unquote? quote rest).map fun (text, more) => (c :: text, more) := by
  cases rest with
  | nil => simp [unquote?, h]
  | cons d rest => simp [unquote?, h]

/-- **A token reads back**, unless another quote follows it. -/
theorem unquote?_doubled (h : rest.head? ≠ some quote) (cs : List Char) :
    unquote? quote (doubled quote cs ++ quote :: rest) = some (cs, rest) := by
  induction cs with
  | nil => exact unquote?_closing h
  | cons c cs ih =>
    unfold doubled
    split
    · rename_i heq
      rw [heq, List.cons_append, List.cons_append, unquote?_doubled_quote, ih]
      rfl
    · rename_i hne
      rw [List.cons_append, unquote?_cons_of_ne hne, ih]
      rfl

/-- What follows a token is shorter than the token and it. -/
theorem length_lt_of_unquote? (h : unquote? quote cs = some (text, more)) :
    more.length < cs.length := by
  fun_induction unquote? quote cs generalizing text more with
  | case1 => cases h
  | case2 => cases h; exact Nat.one_pos
  | case3 => cases h
  | case4 rest ih =>
    obtain ⟨⟨t, m⟩, hread, heq⟩ := Option.map_eq_some_iff.1 h
    cases heq
    have := ih hread
    simp only [List.length_cons]
    omega
  | case5 d rest hd =>
    cases h
    exact Nat.lt_succ_self _
  | case6 c d rest hc ih =>
    obtain ⟨⟨t, m⟩, hread, heq⟩ := Option.map_eq_some_iff.1 h
    cases heq
    have := ih hread
    simp only [List.length_cons] at this ⊢
    omega

end ProcessTest.Artifact.Sql
