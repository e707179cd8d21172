import Mathlib.Data.Nat.Digits.Defs
import ProcessTest.Proofs.Text.Cut
import ProcessTest.SmartCode

/-!
# The grammar of smart codes

What a smart code is, said without the check: five segments and a version, joined by points.  The
check cuts a text at its points and looks at each part, so it accepts what the grammar allows and
names every part that is at fault.

* `Segment`, `Version`, `Written` — the grammar.
* `isSegment_iff`, `version?_eq_some_iff` — the two patterns.
* `Applies`, `Issue.place` — the issues of a text, and their order.
* `diagnosis_check` — the check decides the grammar, and lists what is wrong.
-/

set_option autoImplicit false

namespace ProcessTest.SmartCode

/-! ## Grammar -/

/-- A capital letter or a digit. -/
def Lead (c : Char) : Prop := ('A' ≤ c ∧ c ≤ 'Z') ∨ ('0' ≤ c ∧ c ≤ '9')

/-- A segment: a capital letter or a digit, then any number of these and of underscores. -/
inductive Segment : List Char → Prop
  | intro {c : Char} {cs : List Char} :
    Lead c → (∀ d ∈ cs, Lead d ∨ d = '_') → Segment (c :: cs)

/-- The number that digits denote. -/
def decimal (ds : List Char) : Nat := Nat.ofDigits 10 (ds.reverse.map fun d => d.toNat - '0'.toNat)

/-- A version with its number: `v` and digits, leading zeros allowed. -/
inductive Version : List Char → Nat → Prop
  | intro {ds : List Char} :
    ds ≠ [] → (∀ d ∈ ds, '0' ≤ d ∧ d ≤ '9') → decimal ds ≤ 2 ^ 32 - 1 →
      Version ('v' :: ds) (decimal ds)

/-- A smart code with the number of its version. -/
def Written (code : String) (n : Nat) : Prop :=
  ∃ (segments : List (List Char)) (last : List Char),
    segments.length = 5 ∧ (∀ segment ∈ segments, Segment segment) ∧ Version last n ∧
      code.toList = ['.'].intercalate (segments ++ [last])

variable {c : Char} {cs ds : List Char} {n : Nat}

theorem isUpper_iff : c.isUpper = true ↔ 'A' ≤ c ∧ c ≤ 'Z' := decide_eq_true_iff

theorem isDigit_iff : c.isDigit = true ↔ '0' ≤ c ∧ c ≤ '9' := by
  simp [Char.isDigit, Char.le_def]

theorem isLead_iff : isLead c = true ↔ Lead c :=
  Bool.or_eq_true_iff.trans (or_congr isUpper_iff isDigit_iff)

theorem isSegment_iff : isSegment cs = true ↔ Segment cs := by
  cases cs with
  | nil => exact iff_of_false Bool.false_ne_true nofun
  | cons c cs =>
    simp only [isSegment, Bool.and_eq_true, List.all_eq_true, Bool.or_eq_true, beq_iff_eq,
      isLead_iff]
    exact ⟨fun ⟨hlead, hrest⟩ => .intro hlead hrest, fun | .intro hlead hrest => ⟨hlead, hrest⟩⟩

theorem ofDigits_eq_decimal (ds : List Char) : Text.ofDigits ds = decimal ds := by
  unfold Text.ofDigits decimal
  rw [Nat.ofDigits_eq_foldr, List.map_reverse, List.foldr_reverse, List.foldl_map]
  simp only [Nat.cast_id, Text.digitValue, Nat.add_comm]

theorem version?_eq_some_iff : version? cs = some n ↔ Version cs n := by
  constructor
  · intro h
    unfold version? at h
    split at h
    · rename_i ds
      obtain ⟨m, hread, hbound⟩ := Option.bind_eq_some_iff.1 h
      unfold Text.readNat? at hread
      split at hread
      · cases hread
      · rename_i hdigits
        cases hread
        split at hbound
        · rename_i hlt
          cases hbound
          simp only [Bool.or_eq_true, List.isEmpty_iff, Bool.not_eq_true', not_or,
            Bool.not_eq_false, List.all_eq_true, isDigit_iff] at hdigits
          rw [ofDigits_eq_decimal, Nat.pow_eq] at hlt
          rw [ofDigits_eq_decimal]
          exact .intro hdigits.1 hdigits.2 (Nat.le_sub_one_of_lt hlt)
        · cases hbound
    · cases h
  · rintro ⟨hne, hdigits, hbound⟩
    rename_i ds
    have hall : ds.all Char.isDigit = true :=
      List.all_eq_true.2 fun d hd => isDigit_iff.2 (hdigits d hd)
    have hread : Text.readNat? ds = some (decimal ds) := by
      unfold Text.readNat?
      rw [hall, List.isEmpty_eq_false_iff.2 hne, ofDigits_eq_decimal]
      rfl
    have hlt : decimal ds < Nat.pow 2 32 := Nat.lt_of_le_pred (by decide) hbound
    simp only [version?, hread, Option.bind_some, if_pos hlt]

/-- A segment has no point. -/
theorem Segment.not_mem_point (h : Segment cs) : '.' ∉ cs := by
  obtain ⟨hlead, hrest⟩ := h
  have hpoint : ¬Lead '.' := by unfold Lead; decide
  rintro hmem
  rcases List.mem_cons.1 hmem with rfl | hmem
  · exact hpoint hlead
  · rcases hrest _ hmem with hlead | heq
    · exact hpoint hlead
    · cases heq

theorem Version.not_mem_point (h : Version cs n) : '.' ∉ cs := by
  obtain ⟨-, hdigits, -⟩ := h
  intro hmem
  rcases List.mem_cons.1 hmem with heq | hmem
  · cases heq
  · exact absurd (hdigits _ hmem) (by decide)

/-! ## Parts -/

/-- The parts of a text: what stands before its last point, cut at points, and what stands behind
it. -/
theorem exists_parts (code : String) : ∃ segments last,
    Text.splitAt '.' code.toList = segments ++ [last] ∧ '.' ∉ last ∧
      (∀ segment ∈ segments, '.' ∉ segment) ∧
      ['.'].intercalate (segments ++ [last]) = code.toList := by
  have hne := Text.splitAt_ne_nil '.' code.toList
  have hparts := List.dropLast_concat_getLast hne
  have hpoint := fun part (h : part ∈ Text.splitAt '.' code.toList) => Text.not_mem_of_mem_splitAt h
  rw [← hparts, List.forall_mem_append, List.forall_mem_singleton] at hpoint
  refine ⟨_, _, hparts.symm, hpoint.2, hpoint.1, ?_⟩
  rw [hparts, Text.splitAt_eq_splitOn, List.intercalate_splitOn]

/-- Parts without points are cut as they were joined. -/
theorem splitAt_of_parts {code : String} {segments : List (List Char)} {last : List Char}
    (hsegments : ∀ segment ∈ segments, '.' ∉ segment) (hlast : '.' ∉ last)
    (h : code.toList = ['.'].intercalate (segments ++ [last])) :
    Text.splitAt '.' code.toList = segments ++ [last] := by
  rw [h, Text.splitAt_eq_splitOn, List.splitOn_intercalate]
  · exact List.forall_mem_append.2 ⟨hsegments, List.forall_mem_singleton.2 hlast⟩
  · exact List.concat_ne_nil last segments

/-! ## Issues -/

/-- The issues of a text with the given segments and the given last part. -/
inductive Applies (segments : List String) (last : String) : Issue → Prop
  | tooFew : segments.length < 5 → Applies segments last (.tooFewSegments segments.length)
  | tooMany : 5 < segments.length → Applies segments last (.tooManySegments segments.length)
  | empty {index : Nat} :
    segments[index]? = some "" → Applies segments last (.emptySegment index)
  | bad {index : Nat} {segment : String} :
    segments[index]? = some segment → segment ≠ "" → ¬Segment segment.toList →
      Applies segments last (.badSegment index segment)
  | version : (¬∃ n, Version last.toList n) → Applies segments last (.badVersion last)

/-- The place of an issue in a report on so many segments: their number comes first, then the
segments in order, then the version. -/
def Issue.place (count : Nat) : Issue → Nat
  | .tooFewSegments _ | .tooManySegments _ => 0
  | .emptySegment index | .badSegment index _ => index + 1
  | .badVersion _ => count + 1

/-- The one issue stands before the other. -/
def Issue.Before (count : Nat) (issue later : Issue) : Prop := issue.place count < later.place count

/-- The issue of one segment. -/
def segmentIssue? (index : Nat) (segment : List Char) : Option Issue :=
  if segment = [] then some (.emptySegment index)
  else if isSegment segment then none
  else some (.badSegment index (String.ofList segment))

theorem segmentIssues_eq_filterMap (index : Nat) (segments : List (List Char)) :
    segmentIssues index segments =
      (segments.zipIdx index).filterMap fun e => segmentIssue? e.2 e.1 := by
  induction segments generalizing index with
  | nil => rfl
  | cons segment rest ih =>
    unfold segmentIssues segmentIssue?
    rw [List.zipIdx_cons, List.filterMap_cons, ih]
    cases segment with
    | nil => rfl
    | cons c cs => cases isSegment (c :: cs) <;> rfl

theorem segmentIssue?_eq_none_iff {index : Nat} {segment : List Char} :
    segmentIssue? index segment = none ↔ Segment segment := by
  rw [← isSegment_iff]
  unfold segmentIssue?
  split
  · rename_i hempty
    exact iff_of_false (Option.some_ne_none _) (by rw [hempty]; exact Bool.false_ne_true)
  · simp

theorem place_of_segmentIssue? {index count : Nat} {segment : List Char} {issue : Issue}
    (h : segmentIssue? index segment = some issue) : issue.place count = index + 1 := by
  unfold segmentIssue? at h
  split at h
  · cases h; rfl
  · split at h
    · cases h
    · cases h; rfl

variable {segments : List (List Char)} {last : List Char} {issue : Issue}

/-- The issues of the segments are those that apply to them. -/
theorem mem_segmentIssues_iff :
    issue ∈ segmentIssues 0 segments ↔
      ∃ index segment, segments[index]? = some segment ∧
        segmentIssue? index segment = some issue := by
  simp only [segmentIssues_eq_filterMap, List.mem_filterMap, Prod.exists,
    List.mk_mem_zipIdx_iff_getElem?]
  exact exists_comm

theorem pairwise_segmentIssues (count : Nat) (segments : List (List Char)) :
    (segmentIssues 0 segments).Pairwise (Issue.Before count) := by
  rw [segmentIssues_eq_filterMap, List.pairwise_filterMap]
  have hindices : (segments.zipIdx.map Prod.snd).Pairwise (· < ·) := by
    rw [List.zipIdx_map_snd]
    exact List.pairwise_lt_range'
  refine (List.pairwise_map.1 hindices).imp ?_
  intro e later hlt issue hissue next hnext
  rw [Issue.Before, place_of_segmentIssue? hissue, place_of_segmentIssue? hnext]
  exact Nat.succ_lt_succ hlt

theorem mem_countIssues_iff {found : Nat} :
    issue ∈ countIssues found ↔
      (found < 5 ∧ issue = .tooFewSegments found) ∨
        (5 < found ∧ issue = .tooManySegments found) := by
  unfold countIssues segmentCount
  split
  · rename_i hfew
    rw [List.mem_singleton, and_iff_right hfew, or_iff_left fun h => absurd h.1 hfew.asymm]
  · rename_i hfew
    rw [or_iff_right fun h => hfew h.1]
    split
    · rename_i hmany
      rw [List.mem_singleton, and_iff_right hmany]
    · rename_i hmany
      exact iff_of_false List.not_mem_nil fun h => hmany h.1

theorem mem_versionIssues_iff :
    issue ∈ versionIssues last ↔
      (¬∃ n, Version last n) ∧ issue = .badVersion (String.ofList last) := by
  simp only [← version?_eq_some_iff, ← Option.isSome_iff_exists, versionIssues]
  cases version? last with
  | none => simp
  | some n => simp

/-- The issues of all parts are those that apply. -/
theorem mem_issues_iff :
    issue ∈ countIssues segments.length ++ segmentIssues 0 segments ++ versionIssues last ↔
      Applies (segments.map String.ofList) (String.ofList last) issue := by
  have hlength : (segments.map String.ofList).length = segments.length := List.length_map _
  rw [List.mem_append, List.mem_append, mem_countIssues_iff, mem_segmentIssues_iff,
    mem_versionIssues_iff]
  constructor
  · rintro (((⟨hfew, rfl⟩ | ⟨hmany, rfl⟩) | ⟨index, segment, hsegment, hissue⟩) | ⟨hversion, rfl⟩)
    · exact hlength ▸ .tooFew (hlength.symm ▸ hfew)
    · exact hlength ▸ .tooMany (hlength.symm ▸ hmany)
    · have hget : (segments.map String.ofList)[index]? = some (String.ofList segment) := by
        rw [List.getElem?_map, hsegment, Option.map_some]
      unfold segmentIssue? at hissue
      split at hissue
      · rename_i hempty
        cases hissue
        exact .empty (by rw [hget, hempty])
      · rename_i hempty
        split at hissue
        · cases hissue
        · rename_i hbad
          cases hissue
          refine .bad hget (by simpa using hempty) ?_
          rwa [String.toList_ofList, ← isSegment_iff]
    · exact .version (by rwa [String.toList_ofList])
  · intro h
    cases h with
    | tooFew hfew => exact .inl (.inl (.inl ⟨hlength ▸ hfew, by rw [hlength]⟩))
    | tooMany hmany => exact .inl (.inl (.inr ⟨hlength ▸ hmany, by rw [hlength]⟩))
    | @empty index hget =>
      rw [List.getElem?_map, Option.map_eq_some_iff] at hget
      obtain ⟨segment, hsegment, hempty⟩ := hget
      refine .inl (.inr ⟨index, segment, hsegment, ?_⟩)
      unfold segmentIssue?
      rw [if_pos (by simpa using hempty)]
    | @bad index segment hget hne hbad =>
      rw [List.getElem?_map, Option.map_eq_some_iff] at hget
      obtain ⟨segment, hsegment, rfl⟩ := hget
      rw [String.toList_ofList, ← isSegment_iff] at hbad
      refine .inl (.inr ⟨index, segment, hsegment, ?_⟩)
      unfold segmentIssue?
      rw [if_neg (by simpa using hne), if_neg hbad]
    | version hversion => exact .inr ⟨by rwa [String.toList_ofList] at hversion, rfl⟩

/-- The issues stand in order, at most one at a place. -/
theorem pairwise_issues (segments : List (List Char)) (last : List Char) :
    (countIssues segments.length ++ segmentIssues 0 segments ++ versionIssues last).Pairwise
      (Issue.Before segments.length) := by
  have hcount : ∀ issue ∈ countIssues segments.length, issue.place segments.length = 0 := by
    intro issue h
    rcases mem_countIssues_iff.1 h with ⟨-, rfl⟩ | ⟨-, rfl⟩ <;> rfl
  have hsegments : ∀ issue ∈ segmentIssues 0 segments,
      0 < issue.place segments.length ∧ issue.place segments.length ≤ segments.length := by
    intro issue h
    obtain ⟨index, segment, hget, hissue⟩ := mem_segmentIssues_iff.1 h
    obtain ⟨hlt, -⟩ := List.getElem?_eq_some_iff.1 hget
    rw [place_of_segmentIssue? hissue]
    exact ⟨Nat.succ_pos index, hlt⟩
  have hversion : ∀ issue ∈ versionIssues last,
      issue.place segments.length = segments.length + 1 := by
    intro issue h
    obtain ⟨-, rfl⟩ := mem_versionIssues_iff.1 h
    rfl
  refine List.pairwise_append.2 ⟨List.pairwise_append.2 ⟨?_, ?_, ?_⟩, ?_, ?_⟩
  · unfold countIssues
    split_ifs <;> simp
  · exact pairwise_segmentIssues segments.length segments
  · intro issue h later hlater
    rw [Issue.Before, hcount issue h]
    exact (hsegments later hlater).1
  · unfold versionIssues
    split_ifs <;> simp
  · intro issue h later hlater
    rw [Issue.Before, hversion later hlater]
    rcases List.mem_append.1 h with h | h
    · rw [hcount issue h]
      exact Nat.succ_pos _
    · exact Nat.lt_succ_of_le (hsegments issue h).2

/-! ## The check -/

/-- What there is to say about a text. -/
structure Diagnosis (code : String) (v : Verdict) : Prop where
  /-- Accepted is what the grammar allows. -/
  valid : v.valid = true ↔ ∃ n, Written code n
  version : ∀ n, Written code n → v.version = some n
  /-- The segments and the last part make up the text, no issue is missing or made up, and the
  issues stand in order, with at most one at a place. -/
  parts : ∃ last, '.' ∉ last.toList ∧ (∀ segment ∈ v.segments, '.' ∉ segment.toList) ∧
    ".".intercalate (v.segments ++ [last]) = code ∧
    (∀ n, v.version = some n ↔ Version last.toList n) ∧
    (∀ issue, issue ∈ v.issues ↔ Applies v.segments last issue) ∧
    v.issues.Pairwise (Issue.Before v.segments.length)

theorem countIssues_eq_nil_iff {found : Nat} : countIssues found = [] ↔ found = 5 := by
  unfold countIssues segmentCount
  split_ifs <;> simp <;> omega

theorem segmentIssues_eq_nil_iff :
    segmentIssues 0 segments = [] ↔ ∀ segment ∈ segments, Segment segment := by
  rw [segmentIssues_eq_filterMap, List.filterMap_eq_nil_iff]
  simp only [segmentIssue?_eq_none_iff]
  conv_rhs => rw [← List.zipIdx_map_fst 0 segments, List.forall_mem_map]

theorem versionIssues_eq_nil_iff : versionIssues last = [] ↔ ∃ n, Version last n := by
  simp only [← version?_eq_some_iff, ← Option.isSome_iff_exists, versionIssues]
  cases version? last with
  | none => simp
  | some n => simp

section Parts

variable {code : String} (h : Text.splitAt '.' code.toList = segments ++ [last])

include h

theorem check_of_parts :
    check code =
      ⟨code, segments.map String.ofList, version? last,
        countIssues segments.length ++ segmentIssues 0 segments ++ versionIssues last⟩ := by
  simp only [check, h, List.dropLast_concat, List.getLast?_concat, Option.getD_some]

theorem written_iff_of_parts :
    Written code n ↔
      segments.length = 5 ∧ (∀ segment ∈ segments, Segment segment) ∧ Version last n := by
  constructor
  · rintro ⟨segments', last', hcount, hsegments, hversion, hjoined⟩
    have hparts := splitAt_of_parts (fun segment hs => (hsegments segment hs).not_mem_point)
      hversion.not_mem_point hjoined
    obtain ⟨rfl, hlast⟩ := List.append_inj' (h.symm.trans hparts) rfl
    cases hlast
    exact ⟨hcount, hsegments, hversion⟩
  · rintro ⟨hcount, hsegments, hversion⟩
    refine ⟨segments, last, hcount, hsegments, hversion, ?_⟩
    rw [← h, Text.splitAt_eq_splitOn, List.intercalate_splitOn]

end Parts

/-- **The check decides the grammar and reports all that is wrong.** -/
theorem diagnosis_check (code : String) : Diagnosis code (check code) := by
  obtain ⟨segments, last, hparts, hlast, hsegments, hjoined⟩ := exists_parts code
  have hwritten (n : Nat) := written_iff_of_parts (n := n) hparts
  rw [check_of_parts hparts]
  refine ⟨?_, ?_, String.ofList last, ?_, ?_, ?_, ?_, ?_, ?_⟩
  · simp only [hwritten, exists_and_left, Verdict.valid, List.isEmpty_iff, List.append_eq_nil_iff,
      countIssues_eq_nil_iff, segmentIssues_eq_nil_iff, versionIssues_eq_nil_iff, and_assoc]
  · intro n hn
    exact version?_eq_some_iff.2 ((hwritten n).1 hn).2.2
  · rwa [String.toList_ofList]
  · rw [List.forall_mem_map]
    intro segment hsegment
    rw [String.toList_ofList]
    exact hsegments segment hsegment
  · rw [← String.toList_inj, String.toList_intercalate, ← hjoined, List.map_append, List.map_map]
    simp
  · intro n
    rw [String.toList_ofList]
    exact version?_eq_some_iff
  · exact fun issue => mem_issues_iff
  · rw [List.length_map]
    exact pairwise_issues segments last

example : (check "HERA..crm.ENT.V1").issues =
    [.tooFewSegments 4, .emptySegment 1, .badSegment 2 "crm", .badVersion "V1"] := by
  decide +kernel

end ProcessTest.SmartCode
