import ProcessTest.Proofs.Document.Words
import ProcessTest.Toml.Reader

/-!
# Whole numbers of TOML

A whole number has 64 bits with a sign, or the text is refused.  Values are gathered twice: by the
lists and inline tables of one value, and by the tables that grow line by line.

* `wordSized_value?` — one value, by induction on how deep lists and inline tables may be nested.
* `Node.WordSized` — the values of a table that may still grow.  `Nodes.wordSized_place?` and
  `Nodes.wordSized_within?` keep them word-sized.
* `wordSized_read?` — the tree of a text.
-/

set_option autoImplicit false

namespace ProcessTest.Toml

/-- The reader gives word-sized values. -/
def GivesWords (value : Reader Value) : Prop :=
  ∀ cs v rest, value cs = some (v, rest) → v.WordSized

/-- What every step keeps holds behind a run of steps. -/
theorem invariant_foldlM {α β : Type} {P : β → Prop} {Q : α → Prop} {step : β → α → Option β}
    (hstep : ∀ b a b', Q a → P b → step b a = some b' → P b') {as : List α} {b b' : β}
    (ha : ∀ a ∈ as, Q a) (hb : P b) (h : as.foldlM step b = some b') : P b' := by
  induction as generalizing b with
  | nil => cases h; exact hb
  | cons a rest ih =>
    rw [List.foldlM_cons] at h
    obtain ⟨next, hnext, h⟩ := Option.bind_eq_some_iff.1 h
    rw [List.forall_mem_cons] at ha
    exact ih ha.2 (hstep _ _ _ ha.1 hb hnext) h

/-! ## Plain values -/

theorem wordSized_int64? {n : Int} {v : Value} (h : int64? n = some v) : v.WordSized := by
  unfold int64? at h
  split at h
  · rename_i hfits
    cases h
    simp only [Bool.and_eq_true, decide_eq_true_eq, Nat.pow_eq, Nat.reducePow] at hfits
    simp only [Value.WordSized, Nat.pow_eq, Nat.reducePow]
    omega
  · cases h

theorem wordSized_basedNumber? : GivesWords basedNumber? := by
  intro cs v rest h
  unfold basedNumber? at h
  split at h
  · obtain ⟨base, -, h⟩ := Option.bind_eq_some_iff.1 h
    obtain ⟨⟨ds, behind⟩, -, h⟩ := Option.bind_eq_some_iff.1 h
    obtain ⟨n, -, h⟩ := Option.bind_eq_some_iff.1 h
    obtain ⟨w, hw, h⟩ := Option.map_eq_some_iff.1 h
    cases h
    exact wordSized_int64? hw
  · cases h

theorem wordSized_wholeNumber? : GivesWords wholeNumber? := by
  intro cs v rest h
  unfold wholeNumber? at h
  split at h
  · rename_i done hd
    cases h
    exact wordSized_basedNumber? _ _ _ hd
  · obtain ⟨⟨ds, behind⟩, -, h⟩ := Option.bind_eq_some_iff.1 h
    obtain ⟨w, hw, h⟩ := Option.map_eq_some_iff.1 h
    cases h
    exact wordSized_int64? hw

theorem wordSized_floatNumber? : GivesWords floatNumber? := by
  intro cs v rest h
  unfold floatNumber? at h
  simp only at h
  split at h
  · cases h; exact trivial
  · cases h; exact trivial
  · obtain ⟨⟨whole, behind⟩, -, h⟩ := Option.bind_eq_some_iff.1 h
    obtain ⟨⟨part, end'⟩, -, h⟩ := Option.bind_eq_some_iff.1 h
    simp only at h
    split at h
    · cases h; exact Value.wordSized_double _
    · split at h
      · cases h; exact trivial
      · cases h

/-- A moment is a map with one text. -/
theorem wordSized_moment? : GivesWords moment? := by
  intro cs v rest h
  unfold moment? at h
  simp only at h
  split at h
  · split at h
    · cases h; exact ⟨trivial, trivial⟩
    · cases h; exact ⟨trivial, trivial⟩
  · obtain ⟨⟨text, behind⟩, -, h⟩ := Option.bind_eq_some_iff.1 h
    cases h
    exact ⟨trivial, trivial⟩

theorem wordSized_plainValue? : GivesWords plainValue? := by
  intro cs v rest h
  unfold plainValue? at h
  split at h
  · cases h
  simp only at h
  split at h
  · obtain ⟨⟨s, behind⟩, -, h⟩ := Option.map_eq_some_iff.1 h
    cases h; exact trivial
  split at h
  · rcases Option.or_eq_some_iff.1 h with h | ⟨-, h⟩
    · exact wordSized_moment? _ _ _ h
    · rcases Option.or_eq_some_iff.1 h with h | ⟨-, h⟩
      · exact wordSized_floatNumber? _ _ _ h
      · exact wordSized_wholeNumber? _ _ _ h
  split at h
  · obtain ⟨behind, -, h⟩ := Option.map_eq_some_iff.1 h
    cases h; exact trivial
  split at h
  · obtain ⟨behind, -, h⟩ := Option.map_eq_some_iff.1 h
    cases h; exact trivial
  split at h
  · exact wordSized_floatNumber? _ _ _ h
  · cases h

/-! ## Tables -/

mutual

/-- The values below a node are word-sized. -/
def Node.WordSized : Node → Prop
  | .value v => v.WordSized
  | .table _ inner => Nodes.WordSized inner
  | .tables latest => Nodes.AllWordSized latest

/-- The same for every entry of a table. -/
def Nodes.WordSized : List (String × Node) → Prop
  | [] => True
  | (_, n) :: rest => Node.WordSized n ∧ Nodes.WordSized rest

/-- The same for every table of a repeated header. -/
def Nodes.AllWordSized : List (List (String × Node)) → Prop
  | [] => True
  | nodes :: rest => Nodes.WordSized nodes ∧ Nodes.AllWordSized rest

end

namespace Nodes

variable {key : String} {n : Node} {nodes nodes' : Nodes}

theorem wordSized_iff : WordSized nodes ↔ ∀ e ∈ nodes, e.2.WordSized := by
  induction nodes with
  | nil => exact ⟨fun _ _ h => absurd h List.not_mem_nil, fun _ => trivial⟩
  | cons e rest ih =>
    rw [List.forall_mem_cons, ← ih]
    exact Iff.rfl

theorem wordSized_put (hn : n.WordSized) (h : WordSized nodes) : WordSized (nodes.put key n) := by
  induction nodes with
  | nil => exact ⟨hn, trivial⟩
  | cons e rest ih =>
    obtain ⟨k, m⟩ := e
    unfold put
    split
    · exact ⟨hn, h.2⟩
    · exact ⟨h.1, ih h.2⟩

theorem wordSized_concat (hn : n.WordSized) (h : WordSized nodes) :
    WordSized (nodes ++ [(key, n)]) := by
  rw [wordSized_iff] at h ⊢
  intro e he
  rcases List.mem_append.1 he with he | he
  · exact h e he
  · obtain rfl := List.mem_singleton.1 he
    exact hn

theorem wordSized_erase (h : WordSized nodes) : WordSized (nodes.erase key) := by
  rw [wordSized_iff] at h ⊢
  intro e he
  exact h e (List.mem_filter.1 he |>.1)

theorem wordSized_of_lookup (h : WordSized nodes) (hl : nodes.lookup key = some n) :
    n.WordSized := by
  induction nodes with
  | nil => cases hl
  | cons e rest ih =>
    obtain ⟨k, m⟩ := e
    rw [List.lookup_cons] at hl
    split at hl
    · cases hl; exact h.1
    · exact ih h.2 hl

/-- An entry goes to one table, and the tables above it are put back changed. -/
theorem wordSized_place? {v : Value} {path : List String} (hv : v.WordSized)
    (h : WordSized nodes) (hp : nodes.place? key v path = some nodes') : WordSized nodes' := by
  induction path generalizing nodes nodes' with
  | nil =>
    unfold place? at hp
    split at hp
    · cases hp
      exact wordSized_concat (n := .value v) hv h
    · cases hp
  | cons k path ih =>
    unfold place? at hp
    split at hp
    · obtain ⟨inner, hinner, rfl⟩ := Option.map_eq_some_iff.1 hp
      have hempty : WordSized [] := trivial
      exact wordSized_put (n := .table .dotted inner) (ih hempty hinner) h
    · rename_i origin inner hl
      have hbelow : Node.WordSized (.table origin inner) := wordSized_of_lookup h hl
      split at hp
      · cases hp
      · obtain ⟨inner', hinner, rfl⟩ := Option.map_eq_some_iff.1 hp
        exact wordSized_put (n := .table origin inner') (ih hbelow hinner) h
    · rename_i latest earlier hl
      have hbelow : Node.WordSized (.tables (latest :: earlier)) := wordSized_of_lookup h hl
      split at hp
      · cases hp
      · obtain ⟨latest', hlatest, rfl⟩ := Option.map_eq_some_iff.1 hp
        exact wordSized_put (n := .tables (latest' :: earlier))
          ⟨ih hbelow.1 hlatest, hbelow.2⟩ h
    · cases hp
    · cases hp

theorem wordSized_within? {change : Nodes → Option Nodes} {path : List String}
    (hc : ∀ before after, WordSized before → change before = some after → WordSized after)
    (h : WordSized nodes) (hw : nodes.within? change path = some nodes') : WordSized nodes' := by
  induction path generalizing nodes nodes' with
  | nil => exact hc _ _ h hw
  | cons k path ih =>
    unfold within? at hw
    split at hw
    · obtain ⟨inner, hinner, rfl⟩ := Option.map_eq_some_iff.1 hw
      have hempty : WordSized [] := trivial
      exact wordSized_put (n := .table .implied inner) (ih hempty hinner) h
    · rename_i origin inner hl
      have hbelow : Node.WordSized (.table origin inner) := wordSized_of_lookup h hl
      obtain ⟨inner', hinner, rfl⟩ := Option.map_eq_some_iff.1 hw
      exact wordSized_put (n := .table origin inner') (ih hbelow hinner) h
    · rename_i latest earlier hl
      have hbelow : Node.WordSized (.tables (latest :: earlier)) := wordSized_of_lookup h hl
      obtain ⟨latest', hlatest, rfl⟩ := Option.map_eq_some_iff.1 hw
      exact wordSized_put (n := .tables (latest' :: earlier)) ⟨ih hbelow.1 hlatest, hbelow.2⟩ h
    · cases hw
    · cases hw

theorem wordSized_openTable? (h : WordSized nodes) (ho : nodes.openTable? key = some nodes') :
    WordSized nodes' := by
  unfold openTable? at ho
  split at ho
  · cases ho
    exact wordSized_concat (n := .table .header []) trivial h
  · rename_i inner hl
    cases ho
    have hinner : Node.WordSized (.table .implied inner) := wordSized_of_lookup h hl
    exact wordSized_concat (n := .table .header inner) hinner (wordSized_erase h)
  · cases ho

theorem wordSized_openItem? (h : WordSized nodes) (ho : nodes.openItem? key = some nodes') :
    WordSized nodes' := by
  unfold openItem? at ho
  split at ho
  · cases ho
    exact wordSized_concat (n := .tables [[]]) ⟨trivial, trivial⟩ h
  · rename_i latest hl
    cases ho
    have hlatest : Node.WordSized (.tables latest) := wordSized_of_lookup h hl
    exact wordSized_put (n := .tables ([] :: latest)) ⟨trivial, hlatest⟩ h
  · cases ho

end Nodes

mutual

theorem Node.wordSized_toValue : ∀ {n : Node}, n.WordSized → n.toValue.WordSized
  | .value _, h => h
  | .table _ _, h => Nodes.wordSized_toEntries h
  | .tables _, h => Value.wordSizedItems_reverse (Nodes.wordSized_toMaps h)

theorem Nodes.wordSized_toEntries : ∀ {nodes : List (String × Node)}, Nodes.WordSized nodes →
    Value.WordSizedEntries (Nodes.toEntries nodes)
  | [], _ => trivial
  | _ :: _, h => ⟨Node.wordSized_toValue h.1, Nodes.wordSized_toEntries h.2⟩

theorem Nodes.wordSized_toMaps : ∀ {latest : List (List (String × Node))},
    Nodes.AllWordSized latest → Value.WordSizedItems (Nodes.toMaps latest)
  | [], _ => trivial
  | _ :: _, h => ⟨Nodes.wordSized_toEntries h.1, Nodes.wordSized_toMaps h.2⟩

end

/-! ## Values -/

section Nested

variable {value : Reader Value}

theorem wordSized_items? (hv : GivesWords value) {fuel : Nat} {cs rest : List Char}
    {vs : List Value} (h : items? value fuel cs = some (vs, rest)) : Value.WordSizedItems vs := by
  induction fuel generalizing cs vs with
  | zero => cases h
  | succ fuel ih =>
    unfold items? at h
    split at h
    · cases h; exact trivial
    · obtain ⟨⟨v, behind⟩, hread, h⟩ := Option.bind_eq_some_iff.1 h
      have hfirst := hv _ _ _ hread
      simp only at h
      split at h
      · obtain ⟨⟨ws, last⟩, hws, h⟩ := Option.bind_eq_some_iff.1 h
        cases h
        exact ⟨hfirst, ih hws⟩
      · cases h
        exact ⟨hfirst, trivial⟩
      · cases h

theorem wordSized_pair? (hv : GivesWords value) {cs rest : List Char} {p : Pair}
    (h : pair? value cs = some (p, rest)) : p.value.WordSized := by
  obtain ⟨⟨parts, behind⟩, -, h⟩ := Option.bind_eq_some_iff.1 h
  obtain ⟨after, -, h⟩ := Option.bind_eq_some_iff.1 h
  obtain ⟨⟨v, last⟩, hread, h⟩ := Option.bind_eq_some_iff.1 h
  obtain ⟨key, -, h⟩ := Option.bind_eq_some_iff.1 h
  cases h
  exact hv _ _ _ hread

theorem wordSized_pairs? (hv : GivesWords value) {fuel : Nat} {cs rest : List Char}
    {ps : List Pair} (h : pairs? value fuel cs = some (ps, rest)) :
    ∀ p ∈ ps, p.value.WordSized := by
  induction fuel generalizing cs ps with
  | zero => cases h
  | succ fuel ih =>
    obtain ⟨⟨p, behind⟩, hread, h⟩ := Option.bind_eq_some_iff.1 h
    have hfirst := wordSized_pair? hv hread
    simp only at h
    split at h
    · obtain ⟨⟨qs, last⟩, hqs, h⟩ := Option.bind_eq_some_iff.1 h
      cases h
      exact List.forall_mem_cons.2 ⟨hfirst, ih hqs⟩
    · cases h
      exact List.forall_mem_singleton.2 hfirst
    · cases h

theorem wordSized_placeAll? {pairs : List Pair} {nodes : Nodes}
    (hp : ∀ p ∈ pairs, p.value.WordSized) (h : placeAll? pairs = some nodes) :
    Nodes.WordSized nodes := by
  have hempty : Nodes.WordSized [] := trivial
  refine invariant_foldlM ?_ hp hempty h
  intro before p after hpv hb hstep
  exact Nodes.wordSized_place? hpv hb hstep

theorem wordSized_list? (hv : GivesWords value) : GivesWords (list? value) := by
  intro cs v rest h
  obtain ⟨⟨vs, last⟩, hvs, h⟩ := Option.bind_eq_some_iff.1 h
  cases h
  exact wordSized_items? hv hvs

theorem wordSized_inlineTable? (hv : GivesWords value) : GivesWords (inlineTable? value) := by
  intro cs v rest h
  unfold inlineTable? at h
  split at h
  · cases h; exact trivial
  · obtain ⟨⟨ps, last⟩, hps, h⟩ := Option.bind_eq_some_iff.1 h
    obtain ⟨nodes, hnodes, h⟩ := Option.bind_eq_some_iff.1 h
    cases h
    exact Nodes.wordSized_toEntries (wordSized_placeAll? (wordSized_pairs? hv hps) hnodes)

end Nested

theorem wordSized_value? (depth : Nat) : GivesWords (value? depth) := by
  induction depth with
  | zero => exact wordSized_plainValue?
  | succ depth ih =>
    intro cs v rest h
    unfold value? at h
    split at h
    · exact wordSized_list? ih _ _ _ h
    · exact wordSized_inlineTable? ih _ _ _ h
    · exact wordSized_plainValue? _ _ _ h

/-! ## Lines -/

/-- The value of an entry is word-sized; a header has none. -/
def Line.WordSized : Line → Prop
  | .header _ _ _ => True
  | .pair p => p.value.WordSized

theorem wordSized_line? {cs rest : List Char} {l : Line} (h : line? cs = some (l, rest)) :
    l.WordSized := by
  have hheader : ∀ {repeated closing cs}, header? repeated closing cs = some (l, rest) →
      l.WordSized := by
    intro repeated closing cs h
    obtain ⟨⟨parts, behind⟩, -, h⟩ := Option.bind_eq_some_iff.1 h
    obtain ⟨after, -, h⟩ := Option.bind_eq_some_iff.1 h
    obtain ⟨key, -, h⟩ := Option.bind_eq_some_iff.1 h
    cases h
    exact trivial
  unfold line? at h
  split at h
  · exact hheader h
  · exact hheader h
  · obtain ⟨⟨p, behind⟩, hp, h⟩ := Option.map_eq_some_iff.1 h
    cases h
    exact wordSized_pair? (wordSized_value? maxDepth) hp

theorem wordSized_lines? {fuel : Nat} {cs : List Char} {ls : List Line}
    (h : lines? fuel cs = some ls) : ∀ l ∈ ls, l.WordSized := by
  induction fuel generalizing cs ls with
  | zero => cases h
  | succ fuel ih =>
    unfold lines? at h
    split at h
    · cases h
      exact fun _ hl => absurd hl List.not_mem_nil
    · split at h
      · exact ih h
      · obtain ⟨⟨l, behind⟩, hl, h⟩ := Option.bind_eq_some_iff.1 h
        obtain ⟨after, -, h⟩ := Option.bind_eq_some_iff.1 h
        obtain ⟨more, hmore, h⟩ := Option.bind_eq_some_iff.1 h
        cases h
        exact List.forall_mem_cons.2 ⟨wordSized_line? hl, ih hmore⟩

/-- A line keeps the draft of a document word-sized. -/
theorem Draft.wordSized_add? {d d' : Draft} {l : Line} (hl : l.WordSized)
    (h : Nodes.WordSized d.root) (ha : d.add? l = some d') : Nodes.WordSized d'.root := by
  cases l with
  | header repeated path key =>
    obtain ⟨root, hroot, rfl⟩ := Option.map_eq_some_iff.1 ha
    refine Nodes.wordSized_within? ?_ h hroot
    intro before after hb hc
    cases repeated with
    | false => exact Nodes.wordSized_openTable? hb hc
    | true => exact Nodes.wordSized_openItem? hb hc
  | pair p =>
    obtain ⟨root, hroot, rfl⟩ := Option.map_eq_some_iff.1 ha
    exact Nodes.wordSized_within? (fun _ _ hb hc => Nodes.wordSized_place? hl hb hc) h hroot

theorem wordSized_read? {s : String} {v : Value} (h : read? s = some v) : v.WordSized := by
  obtain ⟨source, -, h⟩ := Option.bind_eq_some_iff.1 h
  obtain ⟨lines, hlines, h⟩ := Option.bind_eq_some_iff.1 h
  obtain ⟨draft, hdraft, h⟩ := Option.bind_eq_some_iff.1 h
  cases h
  have hempty : Nodes.WordSized [] := trivial
  have hroot : Nodes.WordSized draft.root := by
    refine invariant_foldlM (P := fun d => Nodes.WordSized d.root) ?_ (wordSized_lines? hlines)
      hempty hdraft
    intro before l after hl hb hstep
    exact Draft.wordSized_add? hl hb hstep
  exact Nodes.wordSized_toEntries hroot

end ProcessTest.Toml
