import ProcessTest.Proofs.Json.Unique
import ProcessTest.Proofs.Text.Digits

/-!
# JSON texts read back

The machine takes the text of a tree character by character.  Where a value may begin, the text of
a value leaves the machine where accepting the value does; so the text of a whole tree reads as the
tree, except that a double is what its lexeme reads as, which need not be the double.

* `reread?` — what a tree reads as.
* `Machine.feed_escape`, `Machine.feed_quoted`, `Machine.feed_word` — lexemes.
* `feed_compact`, `feed_afterItem`, `feed_afterEntry` — values, and what follows an item or entry.
* `readWithRepeats?_json` — the text of a tree that is not too deep and repeats no key in a map.
* `word?_digits` — whole numbers of 64 bits read back.
-/

set_option autoImplicit false

namespace ProcessTest.Json

variable {c : Char} {cs r : List Char} {v w : Value}

/-! ## What a tree reads as -/

mutual

/-- The tree that the text of a tree reads as: a number is what its lexeme reads as, if it reads as
anything, and all else is itself. -/
def reread? : Value → Option Value
  | .number n => word? n.text.toList
  | .list items => (rereadItems? items).map .list
  | .map entries => (rereadEntries? entries).map .map
  | v => some v

/-- The same for every item. -/
def rereadItems? : List Value → Option (List Value)
  | [] => some []
  | v :: rest => (reread? v).bind fun w => (rereadItems? rest).map fun ws => w :: ws

/-- The same for the value of every entry. -/
def rereadEntries? : List (String × Value) → Option Entries
  | [] => some []
  | (k, v) :: rest => (reread? v).bind fun w => (rereadEntries? rest).map fun es => (k, w) :: es

end

mutual

/-- How many lists and maps are open at once when a tree is read. -/
def depth : Value → Nat
  | .list items => depthOfItems items + 1
  | .map entries => depthOfEntries entries + 1
  | _ => 0

/-- The greatest depth of an item. -/
def depthOfItems : List Value → Nat
  | [] => 0
  | v :: rest => max (depth v) (depthOfItems rest)

/-- The greatest depth of the value of an entry. -/
def depthOfEntries : List (String × Value) → Nat
  | [] => 0
  | (_, v) :: rest => max (depth v) (depthOfEntries rest)

end

/-! ## Characters -/

/-- Whether a value may begin where this is expected. -/
def Expect.takesValue : Expect → Bool
  | .value | .valueOrEnd => true
  | _ => false

/-- Whether a text may begin where this is expected. -/
def Expect.takesText : Expect → Bool
  | .colon | .more => false
  | _ => true

/-- A character that ends words comes next. -/
def EndsWord (r : List Char) : Prop := ∃ c rest, r = c :: rest ∧ endsWord c = true

theorem endsWord_afterItem (items : List Value) (r : List Char) : EndsWord (afterItem items r) := by
  cases items with
  | nil => exact ⟨']', r, rfl, by decide⟩
  | cons v items => exact ⟨',', _, rfl, by decide⟩

theorem endsWord_afterEntry (entries : Entries) (r : List Char) :
    EndsWord (afterEntry entries r) := by
  cases entries with
  | nil => exact ⟨'}', r, rfl, by decide⟩
  | cons entry entries => exact ⟨',', _, rfl, by decide⟩

namespace Machine

variable {m n : Machine} {expect : Expect} {frames : List Frame}

/-- The machine without a lexeme under way, where the given frames are open. -/
def waiting (m : Machine) (expect : Expect) (frames : List Frame) : Machine :=
  ⟨.none, expect, frames, m.result, m.repeated⟩

theorem wantsValue_waiting (m : Machine) (expect : Expect) (frames : List Frame) :
    (m.waiting expect frames).wantsValue = expect.takesValue := by
  cases expect <;> rfl

theorem feed_append (m : Machine) (cs r : List Char) :
    m.feed (cs ++ r) = (m.feed cs).bind fun n => n.feed r := by
  induction cs generalizing m with
  | nil => rfl
  | cons c cs ih =>
    rw [List.cons_append, feed, feed, Option.bind_assoc]
    exact congrArg _ (funext fun n => ih n)

/-- An escape stands for its character. -/
theorem feed_escape (h : m.lexeme = .text cs) (c : Char) (r : List Char) :
    m.feed (escape c ++ r) = { m with lexeme := .text (c :: cs) }.feed r := by
  unfold escape
  split_ifs with h₁ h₂ h₃ h₄ h₅ h₆ h₇ h₈
  · simp [feed, step, h, shortEscape?, h₁]
  · simp [feed, step, h, shortEscape?, h₂]
  · simp [feed, step, h, shortEscape?, h₃]
  · simp [feed, step, h, shortEscape?, h₄]
  · simp [feed, step, h, shortEscape?, h₅]
  · simp [feed, step, h, shortEscape?, h₆]
  · simp [feed, step, h, shortEscape?, h₇]
  · have hc : 16 * (c.toNat / 16) + c.toNat % 16 = c.toNat := Nat.div_add_mod _ _
    have hzero : Text.hexValue? '0' = some 0 := by decide
    have hhigh := hexValue?_hexDigit (c.toNat / 16) (by omega)
    have hlow := hexValue?_hexDigit (c.toNat % 16) (by omega)
    have hlead : ¬55296 ≤ c.toNat := by omega
    have htrail : ¬56320 ≤ c.toNat := by omega
    simp [feed, step, h, unit?, hzero, hhigh, hlow, hc, hlead, htrail]
  · simp [feed, step, h, h₁, h₂, h₈]

/-- The characters up to the closing quote are the text. -/
theorem feed_escaped (h : m.lexeme = .text cs) (ds r : List Char) :
    m.feed (ds.flatMap escape ++ '"' :: r) =
      (m.accept (.text (String.ofList (cs.reverse ++ ds)))).bind fun n => n.feed r := by
  induction ds generalizing m cs with
  | nil =>
    have hstep : m.step '"' = m.accept (.text (String.ofList cs.reverse)) := by
      rw [step, h]
      rfl
    rw [List.flatMap_nil, List.nil_append, List.append_nil, feed, hstep]
  | cons d ds ih =>
    rw [List.flatMap_cons, List.append_assoc, feed_escape h, ih rfl, List.reverse_cons,
      List.append_assoc]
    rfl

/-- A text in quotes is accepted. -/
theorem feed_quoted (h : expect.takesText = true) (s : String) (r : List Char) :
    (m.waiting expect frames).feed (quoted s ++ r) =
      ((m.waiting expect frames).accept (.text s)).bind fun n => n.feed r := by
  have hmark : (m.waiting expect frames).step '"' =
      some { m.waiting expect frames with lexeme := .text [] } := by
    cases expect with
    | colon => cases h
    | more => cases h
    | _ => rfl
  rw [quoted, List.cons_append, List.cons_append, feed, hmark, Option.bind_some,
    List.append_assoc, List.singleton_append, feed_escaped rfl, List.reverse_nil,
    List.nil_append, String.ofList_toList]
  rfl

/-- What has been accepted leaves no lexeme. -/
theorem lexeme_of_accept (h : m.accept v = some n) : n.lexeme = .none := by
  unfold accept at h
  repeat' split at h
  all_goals cases h
  all_goals rfl

/-- The letters of a word are held up to the character that ends it. -/
theorem feed_letters {front : List Char} (h : m.lexeme = .word front)
    (hcs : ∀ d ∈ cs, endsWord d = false) (r : List Char) :
    m.feed (cs ++ r) = { m with lexeme := .word (cs.reverse ++ front) }.feed r := by
  induction cs generalizing m front with
  | nil =>
    rw [List.reverse_nil, List.nil_append, List.nil_append, ← h]
  | cons d cs ih =>
    obtain ⟨hd, hrest⟩ := List.forall_mem_cons.1 hcs
    have hstep : m.step d = some { m with lexeme := .word (d :: front) } := by
      simp [step, h, hd]
    rw [List.cons_append, feed, hstep, Option.bind_some, ih rfl hrest, List.reverse_cons,
      List.append_assoc]
    rfl

/-- A word is accepted as what it reads as, if a character that ends words follows. -/
theorem feed_word (hexpect : expect.takesValue = true) (hne : cs ≠ [])
    (hcs : ∀ d ∈ cs, endsWord d = false) (hr : EndsWord r) :
    (m.waiting expect frames).feed (cs ++ r) =
      (word? cs).bind fun w =>
        ((m.waiting expect frames).accept w).bind fun n => n.feed r := by
  obtain ⟨c, r, rfl, hc⟩ := hr
  cases cs with
  | nil => exact absurd rfl hne
  | cons d cs =>
    obtain ⟨hd, hrest⟩ := List.forall_mem_cons.1 hcs
    have hmark : (m.waiting expect frames).step d =
        some { m.waiting expect frames with lexeme := .word [d] } := by
      change (m.waiting expect frames).mark d = _
      simp only [endsWord, Bool.or_eq_false_iff, beq_eq_false_iff_ne] at hd
      simp [mark, wantsValue_waiting, hexpect, hd]
    have hend : { m.waiting expect frames with lexeme := .word (cs.reverse ++ [d]) }.step c =
        (word? (d :: cs)).bind fun w =>
          ((m.waiting expect frames).accept w).bind fun n => n.mark c := by
      simp only [step, hc, if_true, List.reverse_append, List.reverse_reverse]
      rfl
    rw [List.cons_append, feed, hmark, Option.bind_some, feed_letters rfl hrest, feed, hend,
      Option.bind_assoc]
    refine congrArg _ (funext fun w => ?_)
    rw [Option.bind_assoc]
    refine Option.bind_congr fun n hn => ?_
    rw [feed, step, lexeme_of_accept hn]

/-- Where a value may begin, it does not matter whether the list has just been opened. -/
theorem accept_waiting (h : expect.takesValue = true) (v : Value) :
    (m.waiting expect frames).accept v = (m.waiting .value frames).accept v := by
  cases expect with
  | value => rfl
  | valueOrEnd => rfl
  | _ => cases h

theorem takesText_of_takesValue (h : expect.takesValue = true) : expect.takesText = true := by
  cases expect with
  | value => rfl
  | valueOrEnd => rfl
  | _ => cases h

/-! ## Brackets -/

theorem feed_bracket (hexpect : expect.takesValue = true) (hlength : frames.length < maxDepth)
    (r : List Char) :
    (m.waiting expect frames).feed ('[' :: r) =
      (m.waiting .valueOrEnd (.list [] :: frames)).feed r := by
  have hframes : (m.waiting expect frames).frames.length < maxDepth := hlength
  have hstep : (m.waiting expect frames).mark '[' =
      some (m.waiting .valueOrEnd (.list [] :: frames)) := by
    simp [mark, isSpace, wantsValue_waiting, hexpect, hframes]
    rfl
  exact congrArg (Option.bind · _) hstep

theorem feed_brace (hexpect : expect.takesValue = true) (hlength : frames.length < maxDepth)
    (r : List Char) :
    (m.waiting expect frames).feed ('{' :: r) =
      (m.waiting .keyOrEnd (.map [] none :: frames)).feed r := by
  have hframes : (m.waiting expect frames).frames.length < maxDepth := hlength
  have hstep : (m.waiting expect frames).mark '{' =
      some (m.waiting .keyOrEnd (.map [] none :: frames)) := by
    simp [mark, isSpace, wantsValue_waiting, hexpect, hframes]
    rfl
  exact congrArg (Option.bind · _) hstep

theorem accept_item (hexpect : expect.takesValue = true) (acc : List Value) (w : Value) :
    (m.waiting expect (.list acc :: frames)).accept w =
      some (m.waiting .more (.list (w :: acc) :: frames)) := by
  rw [accept_waiting hexpect]
  rfl

/-- A key and the colon behind it. -/
theorem feed_key (hexpect : expect = .keyOrEnd ∨ expect = .key) (acc : Entries) (k : String)
    (r : List Char) :
    (m.waiting expect (.map acc none :: frames)).feed (quoted k ++ ':' :: r) =
      (m.waiting .value (.map acc (some k) :: frames)).feed r := by
  rcases hexpect with rfl | rfl
  · rw [feed_quoted rfl]
    rfl
  · rw [feed_quoted rfl]
    rfl

theorem accept_entry {acc : Entries} {k : String} (h : k ∉ acc.keys) (w : Value) :
    (m.waiting .value (.map acc (some k) :: frames)).accept w =
      some (m.waiting .more (.map (acc ++ [(k, w)]) none :: frames)) := by
  have hget : Entries.get? k acc = none := by
    rw [← Option.not_isSome_iff_eq_none, Entries.get?_isSome_iff]
    exact h
  have hput : Entries.put k w acc = acc ++ [(k, w)] := by
    clear hget
    induction acc with
    | nil => rfl
    | cons e acc ih =>
      simp only [Entries.keys, List.map_cons, List.mem_cons, not_or] at h
      rw [Entries.put, if_neg (Ne.symm h.1), ih h.2, List.cons_append]
  unfold waiting accept
  simp [hget, hput]

end Machine

/-! ## Trees -/

open Machine

theorem not_endsWord_of_isNumeral (h : isNumeral c = true) : endsWord c = false := by
  rw [Bool.eq_false_iff]
  intro hends
  simp only [endsWord, isSpace, Bool.or_eq_true, beq_iff_eq] at hends
  rcases hends with
    ((((((((((rfl | rfl) | rfl) | rfl) | rfl) | rfl) | rfl) | rfl) | rfl) | rfl) | rfl)
  all_goals cases h

mutual

/-- **The text of a value is accepted as what the value reads as**, if a character that ends words
follows. -/
theorem feed_compact {m : Machine} {expect : Expect} {frames : List Frame} {r : List Char}
    (hexpect : expect.takesValue = true) (hr : EndsWord r) :
    (v : Value) → v.distinctKeys → frames.length + depth v ≤ maxDepth →
      (m.waiting expect frames).feed (compact v ++ r) =
        (reread? v).bind fun w =>
          ((m.waiting expect frames).accept w).bind fun n => n.feed r
  | .null, _, _ => feed_word hexpect (by decide)
      (by simp [compact, scalar, endsWord, isSpace]) hr
  | .bool true, _, _ => feed_word hexpect (by decide)
      (by simp [compact, scalar, endsWord, isSpace]) hr
  | .bool false, _, _ => feed_word hexpect (by decide)
      (by simp [compact, scalar, endsWord, isSpace]) hr
  | .number n, _, _ => feed_word hexpect n.toList_text_ne_nil
      (fun d hd => not_endsWord_of_isNumeral (Number.isNumeral_of_mem_text hd)) hr
  | .text s, _, _ => feed_quoted (takesText_of_takesValue hexpect) s r
  | .list [], _, hdepth => by
    have hlength : frames.length < maxDepth := by
      simp only [depth] at hdepth
      omega
    rw [compact, List.cons_append, List.cons_append, feed_bracket hexpect hlength]
    simp only [reread?, rereadItems?, Option.map_some, Option.bind_some, accept_waiting hexpect]
    rfl
  | .list (v :: items), hkeys, hdepth => by
    simp only [depth, depthOfItems] at hdepth
    have hlength : frames.length < maxDepth := by omega
    have hv : (Frame.list [] :: frames).length + depth v ≤ maxDepth := by
      rw [List.length_cons]
      omega
    have hitems : frames.length + 1 + depthOfItems items ≤ maxDepth := by omega
    have htext : compact (.list (v :: items)) ++ r = '[' :: (compact v ++ afterItem items r) := by
      rw [← compactItems_cons, compact]
      simp
    have hopened : Expect.valueOrEnd.takesValue = true := rfl
    rw [htext, feed_bracket hexpect hlength,
      feed_compact hopened (endsWord_afterItem items r) v hkeys.1 hv]
    simp only [accept_item hopened, Option.bind_some, feed_afterItem items hkeys.2 hitems,
      reread?, rereadItems?, Option.bind_map, Option.bind_assoc, Function.comp_def,
      accept_waiting hexpect]
    rfl
  | .map [], _, hdepth => by
    have hlength : frames.length < maxDepth := by
      simp only [depth] at hdepth
      omega
    rw [compact, List.cons_append, List.cons_append, feed_brace hexpect hlength]
    simp only [reread?, rereadEntries?, Option.map_some, Option.bind_some, accept_waiting hexpect]
    rfl
  | .map ((k, v) :: entries), hkeys, hdepth => by
    simp only [depth, depthOfEntries] at hdepth
    obtain ⟨hdistinct, hv, hentries⟩ := hkeys
    have hlength : frames.length < maxDepth := by omega
    have hroom : (Frame.map [] (some k) :: frames).length + depth v ≤ maxDepth := by
      rw [List.length_cons]
      omega
    have hmore : frames.length + 1 + depthOfEntries entries ≤ maxDepth := by omega
    have htext : compact (.map ((k, v) :: entries)) ++ r =
        '{' :: (quoted k ++ ':' :: (compact v ++ afterEntry entries r)) := by
      rw [← compactEntries_cons, compact]
      simp
    have hvalue : Expect.value.takesValue = true := rfl
    have hnew : k ∉ Entries.keys [] := List.not_mem_nil
    have hkeys (w : Value) : (Entries.keys [(k, w)] ++ Entries.keys entries).Nodup := hdistinct
    have hafter (w : Value) := feed_afterEntry (m := m) (r := r) frames entries
      (hkeys w) hentries hmore
    rw [htext, feed_brace hexpect hlength, feed_key (.inl rfl),
      feed_compact hvalue (endsWord_afterEntry entries r) v hv hroom]
    simp only [accept_entry hnew, Option.bind_some, List.nil_append, hafter, reread?,
      rereadEntries?, Option.bind_map, Option.bind_assoc, Function.comp_def,
      accept_waiting hexpect]
    rfl

/-- What follows an item of a list is accepted item by item, and the list at its end. -/
theorem feed_afterItem {m : Machine} {acc : List Value} {frames : List Frame} {r : List Char} :
    (items : List Value) → Value.distinctKeysList items →
      frames.length + 1 + depthOfItems items ≤ maxDepth →
      (m.waiting .more (.list acc :: frames)).feed (afterItem items r) =
        (rereadItems? items).bind fun ws =>
          ((m.waiting .value frames).accept (.list (acc.reverse ++ ws))).bind fun n => n.feed r
  | [], _, _ => by
    simp only [rereadItems?, Option.bind_some, List.append_nil]
    rfl
  | v :: items, hkeys, hdepth => by
    simp only [depthOfItems] at hdepth
    have hv : (Frame.list acc :: frames).length + depth v ≤ maxDepth := by
      rw [List.length_cons]
      omega
    have hitems : frames.length + 1 + depthOfItems items ≤ maxDepth := by omega
    have hcomma : (m.waiting .more (.list acc :: frames)).feed (afterItem (v :: items) r) =
        (m.waiting .value (.list acc :: frames)).feed (compact v ++ afterItem items r) := by
      rw [← compactItems_cons]
      rfl
    have hvalue : Expect.value.takesValue = true := rfl
    rw [hcomma, feed_compact hvalue (endsWord_afterItem items r) v hkeys.1 hv]
    simp only [accept_item hvalue, Option.bind_some, feed_afterItem items hkeys.2 hitems,
      rereadItems?, Option.bind_assoc, Option.bind_map, Function.comp_def, List.reverse_cons,
      List.append_assoc]
    rfl

/-- What follows an entry of a map is accepted entry by entry, and the map at its end. -/
theorem feed_afterEntry {m : Machine} {acc : Entries} (frames : List Frame) {r : List Char} :
    (entries : List (String × Value)) → (acc.keys ++ Entries.keys entries).Nodup →
      Value.distinctKeysEntries entries →
      frames.length + 1 + depthOfEntries entries ≤ maxDepth →
      (m.waiting .more (.map acc none :: frames)).feed (afterEntry entries r) =
        (rereadEntries? entries).bind fun es =>
          ((m.waiting .value frames).accept (.map (acc ++ es))).bind fun n => n.feed r
  | [], _, _, _ => by
    simp only [rereadEntries?, Option.bind_some, List.append_nil]
    rfl
  | (k, v) :: entries, hdistinct, hkeys, hdepth => by
    simp only [depthOfEntries] at hdepth
    have hroom : (Frame.map acc (some k) :: frames).length + depth v ≤ maxDepth := by
      rw [List.length_cons]
      omega
    have hmore : frames.length + 1 + depthOfEntries entries ≤ maxDepth := by omega
    have hnew : k ∉ acc.keys := fun hmem =>
      List.disjoint_of_nodup_append hdistinct hmem List.mem_cons_self
    have hdistinct' (w : Value) :
        (Entries.keys (acc ++ [(k, w)]) ++ Entries.keys entries).Nodup := by
      simpa [Entries.keys] using hdistinct
    have hafter (w : Value) := feed_afterEntry (m := m) (r := r) frames entries
      (hdistinct' w) hkeys.2 hmore
    have hcomma : (m.waiting .more (.map acc none :: frames)).feed
          (afterEntry ((k, v) :: entries) r) =
        (m.waiting .key (.map acc none :: frames)).feed
          (quoted k ++ ':' :: (compact v ++ afterEntry entries r)) := by
      rw [← compactEntries_cons]
      rfl
    have hvalue : Expect.value.takesValue = true := rfl
    rw [hcomma, feed_key (.inr rfl),
      feed_compact hvalue (endsWord_afterEntry entries r) v hkeys.1 hroom]
    simp only [accept_entry hnew, Option.bind_some, hafter, rereadEntries?, Option.bind_map,
      Option.bind_assoc, Function.comp_def, List.append_assoc, List.cons_append, List.nil_append]

end

/-- **The text of a tree reads as the tree, but for its numbers**, with no key of it repeated. -/
theorem readWithRepeats?_json (hkeys : v.distinctKeys) (hdepth : depth v ≤ maxDepth) :
    readWithRepeats? v.json = (reread? v).map fun w => (w, []) := by
  have hblank : EndsWord [' '] := ⟨' ', [], rfl, by decide⟩
  have hvalue : Expect.value.takesValue = true := rfl
  have hroom : ([] : List Frame).length + depth v ≤ maxDepth := by
    rw [List.length_nil, Nat.zero_add]
    exact hdepth
  have hfeed : start.feed (compact v ++ [' ']) = (reread? v).bind fun w =>
      (start.accept w).bind fun n => n.feed [' '] :=
    feed_compact (m := start) hvalue hblank v hkeys hroom
  have hfinish : (start.feed (compact v)).bind Machine.finish =
      start.feed (compact v ++ [' ']) := by
    rw [feed_append]
    refine congrArg _ (funext fun n => ?_)
    exact (Option.bind_fun_some (n.step ' ')).symm
  have hread : readWithRepeats? v.json = ((start.feed (compact v)).bind Machine.finish).bind
      fun n => n.value?.map fun w => (w, n.repeated) := by
    rw [Option.bind_assoc, readWithRepeats?, Value.json, String.toList_ofList]
    rfl
  rw [hread, hfinish, hfeed, Option.bind_assoc, Option.map_eq_bind]
  rfl

/-! ## Whole numbers -/

theorem read?_digits (n : Nat) :
    Numeral.read? (Text.digits n) = some ⟨false, Text.digits n, none, none⟩ := by
  have hdigits : ∀ c ∈ Text.digits n, c.isDigit = true := fun c => Text.isDigit_of_mem_digits
  obtain ⟨d, ds, heq⟩ := List.exists_cons_of_ne_nil (Text.digits_ne_nil n)
  have hsign : d ≠ '-' := by
    rintro rfl
    have hd := hdigits '-' (heq ▸ List.mem_cons_self)
    cases hd
  have htake : (Text.digits n).takeWhile Char.isDigit = Text.digits n :=
    List.takeWhile_eq_self_iff.2 hdigits
  have hdrop : (Text.digits n).dropWhile Char.isDigit = [] :=
    List.dropWhile_eq_nil_iff.2 hdigits
  have hzero : (Text.digits n).length ≠ 1 → (Text.digits n).head? ≠ some '0' := by
    intro hlength
    apply Text.head?_digits_ne_zero
    rw [Nat.pos_iff_ne_zero]
    rintro rfl
    exact hlength rfl
  have hlead : ((Text.digits n).length != 1 && (Text.digits n).head? == some '0') = false := by
    by_cases hlength : (Text.digits n).length = 1
    · simp [hlength]
    · simp [hzero hlength]
  have hempty : (Text.digits n).isEmpty = false := by
    rw [heq]
    rfl
  unfold Numeral.read?
  split
  rename_i negative cs hsplit
  have hunsigned : (negative, cs) = (false, Text.digits n) := by
    rw [← hsplit]
    split
    · rename_i rest hrest
      rw [heq] at hrest
      cases hrest
      exact absurd rfl hsign
    · rfl
  cases hunsigned
  simp only [htake, hdrop, hlead, hempty]
  rfl

/-- The digits of a number of 64 bits read as the number. -/
theorem word?_digits {n : Nat} (h : n ≤ Text.maxWord) :
    word? (Text.digits n) = some (.ofNat n) := by
  obtain ⟨d, ds, heq⟩ := List.exists_cons_of_ne_nil (Text.digits_ne_nil n)
  have hd : d.isDigit = true := Text.isDigit_of_mem_digits (heq ▸ List.mem_cons_self)
  have hword : ∀ cs : List Char, cs.head?.any Char.isDigit = false → Text.digits n ≠ cs := by
    rintro cs hcs rfl
    rw [heq] at hcs
    exact absurd hd (by simpa using hcs)
  have hnumber : (⟨false, Text.digits n, none, none⟩ : Numeral).number? = some (.int n) := by
    simp [Numeral.number?, Text.ofDigits_digits, h]
  unfold word?
  rw [if_neg (hword _ (by decide)), if_neg (hword _ (by decide)), if_neg (hword _ (by decide)),
    read?_digits, Option.bind_some, hnumber]
  rfl

end ProcessTest.Json
