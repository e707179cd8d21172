import ProcessTest.Proofs.Decoding.Success
import ProcessTest.Proofs.Json.Printable
import ProcessTest.Proofs.Json.RoundTrip
import ProcessTest.Proofs.Text.Cut
import ProcessTest.Run.Log

/-!
# Event logs read back

Each entry is a line of its own, since its text has no line break, and the text of an entry reads
as the entry.  Only a duration may come back as another double: it is read by rounding twice.

* `Binary64.ReadsBack` — a double that its text reads as.
* `LogEntry.readLine?_json` — the line of an entry reads as the entry, but for its duration.
* `lines_append` — an entry is one line more.
* `readLines_eq_ok_iff` — lines are read one by one.
* `read_foldl_append` — a log reads back what was appended to it.
-/

set_option autoImplicit false

namespace ProcessTest

open Decode

/-! ## Durations -/

/-- What the text of a double reads as. -/
def Binary64.reread? (x : Binary64) : Option Binary64 :=
  (Json.word? (Number.text (.double x)).toList).bind fun v => (Decode.asDouble v).toOption

/-- The text of a double reads as the double. -/
def Binary64.ReadsBack (x : Binary64) : Prop := x.reread? = some x

instance (x : Binary64) : Decidable x.ReadsBack := inferInstanceAs (Decidable (_ = _))

/-- The reader rounds the significand and the quotient, so `0.12345678901234565` does not. -/
example : ¬(⟨false, 4593560419847042653, by decide⟩ : Binary64).ReadsBack := by decide +kernel

/-! ## Counts -/

theorem Json.reread?_ofNat {bits n : Nat} (h : n < Nat.pow 2 bits) (hbits : bits ≤ 64) :
    reread? (.ofNat n) = some (.ofNat n) := by
  have hword : n ≤ Text.maxWord := by
    have hpow : Nat.pow 2 bits ≤ Nat.pow 2 64 := Nat.pow_le_pow_right (by decide) hbits
    unfold Text.maxWord
    omega
  have htext : (Number.text (.int n)).toList = Text.digits n := by
    rw [Number.text, if_neg (by omega), String.toList_ofList, Int.natAbs_natCast]
  rw [Value.ofNat, reread?, htext, word?_digits hword]
  rfl

theorem Decode.asNat_ofNat {bits n : Nat} (h : n < Nat.pow 2 bits) :
    asNat bits (.ofNat n) = .ok n := by
  unfold Value.ofNat asNat
  exact if_pos h

/-! ## Entries -/

namespace Occurrence

/-- Each count is in the range of its type. -/
def IsSized : Occurrence → Prop
  | .runStarted .. => True
  | .phaseCompleted _ actions _ => actions < Nat.pow 2 32
  | .stepStarted _ attempt | .stepPassed _ attempt _ | .stepFailed _ attempt _ =>
    attempt < Nat.pow 2 32
  | .assertionFailed index _ _ => index < Nat.pow 2 64
  | .runCompleted passed failed errors _ =>
    passed < Nat.pow 2 32 ∧ failed < Nat.pow 2 32 ∧ errors < Nat.pow 2 32

/-- The duration of an event that has one. -/
def seconds? : Occurrence → Option Binary64
  | .stepPassed _ _ seconds | .runCompleted _ _ _ seconds => some seconds
  | _ => none

/-- The fields of an event whose duration, if it has one, is written as the given value. -/
def fieldsWith (written : Value) : Occurrence → Entries
  | .stepPassed step attempt _ =>
    [("step", .text step), ("attempt", .ofNat attempt), ("duration_seconds", written)]
  | .runCompleted passed failed errors _ =>
    [("steps_passed", .ofNat passed), ("steps_failed", .ofNat failed), ("errors", .ofNat errors),
      ("total_seconds", written)]
  | o => o.fields

/-- The event with another duration, if it has one. -/
def withSeconds (seconds : Binary64) : Occurrence → Occurrence
  | .stepPassed step attempt _ => .stepPassed step attempt seconds
  | .runCompleted passed failed errors _ => .runCompleted passed failed errors seconds
  | o => o

end Occurrence

namespace LogEntry

variable {entry : LogEntry}

theorem distinctKeys_encode (entry : LogEntry) : entry.encode.distinctKeys := by
  obtain ⟨time, run, o⟩ := entry
  cases o <;> simp [encode, fields, RunEvent.fields, Occurrence.fields, Value.distinctKeys,
    Value.distinctKeysEntries, Occurrence.double, Value.ofNat]

theorem depth_encode (entry : LogEntry) : Json.depth entry.encode ≤ Json.maxDepth := by
  obtain ⟨time, run, o⟩ := entry
  cases o <;> simp [encode, fields, RunEvent.fields, Occurrence.fields, Json.depth,
    Json.depthOfEntries, Occurrence.double, Value.ofNat, Json.maxDepth]

/-- A line that was written for an entry reads as what its value reads as. -/
theorem readLine?_json_eq (entry : LogEntry) :
    Log.readLine? entry.encode.json =
      (Json.reread? entry.encode).bind fun v => (LogEntry.decode v).toOption := by
  unfold Log.readLine?
  rw [Json.readWithRepeats?_json (distinctKeys_encode entry) (depth_encode entry),
    Option.map_eq_bind]
  simp [Option.bind_assoc]

/-- The fields of an entry whose duration, if it has one, is written as the given value. -/
def fieldsWith (written : Value) (entry : LogEntry) : Entries :=
  ("ts", .text entry.time) :: ("event", .text entry.event.occurrence.kind) ::
    ("run_id", .text entry.event.run) :: entry.event.occurrence.fieldsWith written

/-- The entry with another duration, if it has one. -/
def withSeconds (seconds : Binary64) (entry : LogEntry) : LogEntry :=
  { entry with event.occurrence := entry.event.occurrence.withSeconds seconds }

/-- An entry is read by the kind that its fields name. -/
theorem decode_map {kind : String} (h : kind ∈ Occurrence.kinds) (time : String) (es : Entries) :
    decode (.map (("ts", .text time) :: ("event", .text kind) :: es)) =
      (RunEvent.decodeKind kind (.map (("ts", .text time) :: ("event", .text kind) :: es))).map
        fun e => ⟨time, e⟩ := by
  have htag : Entries.get? "event" (("ts", .text time) :: ("event", .text kind) :: es) =
      some (.text kind) := by
    simp [Entries.get?]
  simp only [decode, RunEvent.decode, tagged_eq_ok htag h, required, Entries.get?, if_true]
  rfl

theorem kind_mem (o : Occurrence) : o.kind ∈ Occurrence.kinds := by
  cases o <;> simp [Occurrence.kind, Occurrence.kinds]

/-- An entry without a duration is read from its fields. -/
theorem decode_encode (h : entry.event.occurrence.IsSized)
    (hnone : entry.event.occurrence.seconds? = none) : decode entry.encode = .ok entry := by
  obtain ⟨time, run, o⟩ := entry
  refine (decode_map (kind_mem o) time _).trans ?_
  cases o with
  | runStarted => rfl
  | phaseCompleted | stepStarted | stepFailed | assertionFailed =>
    have hcount := asNat_ofNat h
    simp [RunEvent.decodeKind, record, required, Entries.get?, asText, asBool, bind, Except.bind,
      pure, Except.pure, Except.map, Occurrence.kind, Occurrence.fields, hcount]
  | stepPassed | runCompleted => cases hnone

/-- An entry with a duration is read from its fields with that of the value written. -/
theorem decode_fieldsWith {x : Binary64} (h : entry.event.occurrence.IsSized)
    (hsome : entry.event.occurrence.seconds? = some x) (w : Value) :
    decode (.map (entry.fieldsWith w)) = (asDouble w).map fun y => entry.withSeconds y := by
  obtain ⟨time, run, o⟩ := entry
  refine (decode_map (kind_mem o) time _).trans ?_
  cases o with
  | stepPassed step attempt seconds =>
    have hattempt := asNat_ofNat h
    simp [RunEvent.decodeKind, record, required, Entries.get?, asText, bind, Except.bind, pure,
      Except.pure, Except.map, Occurrence.kind, Occurrence.fieldsWith, hattempt]
    cases asDouble w <;> rfl
  | runCompleted passed failed errors seconds =>
    have hpassed := asNat_ofNat h.1
    have hfailed := asNat_ofNat h.2.1
    have herrors := asNat_ofNat h.2.2
    simp [RunEvent.decodeKind, record, required, Entries.get?, asText, bind, Except.bind, pure,
      Except.pure, Except.map, Occurrence.kind, Occurrence.fieldsWith, hpassed, hfailed, herrors]
    cases asDouble w <;> rfl
  | _ => cases hsome

/-- The fields of an entry without a duration read as themselves. -/
theorem reread?_encode (h : entry.event.occurrence.IsSized)
    (hnone : entry.event.occurrence.seconds? = none) :
    Json.reread? entry.encode = some entry.encode := by
  obtain ⟨time, run, o⟩ := entry
  cases o with
  | runStarted => rfl
  | phaseCompleted | stepStarted | stepFailed | assertionFailed =>
    have hcount := Json.reread?_ofNat h (by decide)
    simp [encode, fields, RunEvent.fields, Occurrence.fields, Json.reread?, Json.rereadEntries?,
      hcount]
  | stepPassed | runCompleted => cases hnone

/-- Those of an entry with a duration do, but for the duration. -/
theorem reread?_encode_of_some {x : Binary64} (h : entry.event.occurrence.IsSized)
    (hsome : entry.event.occurrence.seconds? = some x) :
    Json.reread? entry.encode =
      (Json.word? (Number.text (.double x)).toList).map fun w => .map (entry.fieldsWith w) := by
  obtain ⟨time, run, o⟩ := entry
  cases o with
  | stepPassed step attempt seconds =>
    cases hsome
    have hattempt := Json.reread?_ofNat h (by decide)
    simp [encode, fields, RunEvent.fields, Occurrence.fields, Occurrence.double, fieldsWith,
      Occurrence.fieldsWith, Json.reread?, Json.rereadEntries?, hattempt]
    cases Json.word? (Number.text (.double x)).toList <;> rfl
  | runCompleted passed failed errors seconds =>
    cases hsome
    have hpassed := Json.reread?_ofNat h.1 (by decide)
    have hfailed := Json.reread?_ofNat h.2.1 (by decide)
    have herrors := Json.reread?_ofNat h.2.2 (by decide)
    simp [encode, fields, RunEvent.fields, Occurrence.fields, Occurrence.double, fieldsWith,
      Occurrence.fieldsWith, Json.reread?, Json.rereadEntries?, hpassed, hfailed, herrors]
    cases Json.word? (Number.text (.double x)).toList <;> rfl
  | _ => cases hsome

/-- What the line of an entry reads as: its duration may change or be lost. -/
def reread? (entry : LogEntry) : Option LogEntry :=
  match entry.event.occurrence.seconds? with
  | some x => x.reread?.map fun y => entry.withSeconds y
  | none => some entry

theorem readLine?_json (h : entry.event.occurrence.IsSized) :
    Log.readLine? entry.encode.json = entry.reread? := by
  rw [readLine?_json_eq, reread?]
  cases hseconds : entry.event.occurrence.seconds? with
  | none =>
    rw [reread?_encode h hseconds, Option.bind_some, decode_encode h hseconds]
    rfl
  | some x =>
    simp only [reread?_encode_of_some h hseconds, decode_fieldsWith h hseconds, Binary64.reread?,
      Option.bind_map, Option.map_bind, Function.comp_def]
    refine congrArg _ (funext fun w => ?_)
    cases asDouble w with
    | error e => rfl
    | ok y => rfl

/-- The line of an entry reads back exactly if its duration does. -/
theorem reread?_eq_self_iff : entry.reread? = some entry ↔
    ∀ x ∈ entry.event.occurrence.seconds?, x.ReadsBack := by
  obtain ⟨time, run, o⟩ := entry
  cases o with
  | stepPassed step attempt seconds =>
    simp [reread?, Occurrence.seconds?, withSeconds, Occurrence.withSeconds, Binary64.ReadsBack]
  | runCompleted passed failed errors seconds =>
    simp [reread?, Occurrence.seconds?, withSeconds, Occurrence.withSeconds, Binary64.ReadsBack]
  | _ => simp [reread?, Occurrence.seconds?]

end LogEntry

/-! ## Lines -/

namespace Log

variable {log : String} {entries earlier : List LogEntry}

/-- The last line of a log ends. -/
def Ended (log : String) : Prop := log = "" ∨ log.toList.getLast? = some '\n'

/-- In a log whose last line ends, what follows is a line of its own. -/
theorem exists_splitAt (h : Ended log) : ∃ pieces, Text.splitAt '\n' log.toList = pieces ++ [[]] ∧
    ∀ cs, '\n' ∉ cs →
      Text.splitAt '\n' (log.toList ++ (cs ++ ['\n'])) = pieces ++ [cs] ++ [[]] := by
  have hline : ∀ cs, '\n' ∉ cs → Text.splitAt '\n' (cs ++ ['\n']) = [cs] ++ [[]] := by
    intro cs hcs
    rw [Text.splitAt_append_cons, Text.splitAt_eq_singleton_iff.2 ⟨hcs, rfl⟩]
    rfl
  rcases h with rfl | h
  · exact ⟨[], rfl, hline⟩
  · obtain ⟨front, hfront⟩ := List.getLast?_eq_some_iff.1 h
    refine ⟨Text.splitAt '\n' front, ?_, fun cs hcs => ?_⟩
    · rw [hfront, Text.splitAt_append_cons]
      rfl
    · rw [hfront, List.append_assoc, List.singleton_append, Text.splitAt_append_cons, hline cs hcs,
        List.append_assoc]

theorem ended_append (log : String) (entry : LogEntry) : Ended (append log entry) := by
  right
  simp [append, line]

theorem lines_of_splitAt {pieces : List (List Char)}
    (h : Text.splitAt '\n' log.toList = pieces ++ [[]]) :
    lines log = (pieces.map dropReturn).map String.ofList := by
  unfold lines
  simp [h]

/-- An entry is one line more. -/
theorem lines_append (h : Ended log) (entry : LogEntry) :
    lines (append log entry) = lines log ++ [entry.encode.json] := by
  obtain ⟨pieces, hlog, hmore⟩ := exists_splitAt h
  have hprintable : Json.IsPrintable (Json.compact entry.encode) := Json.isPrintable_compact _
  have hbreak : '\n' ∉ Json.compact entry.encode := fun hmem =>
    absurd (hprintable _ hmem) (by decide)
  have hreturn : dropReturn (Json.compact entry.encode) = Json.compact entry.encode := by
    refine if_neg fun hlast => ?_
    exact absurd (hprintable _ (List.mem_of_getLast? hlast)) (by decide)
  have htext : (append log entry).toList = log.toList ++ (Json.compact entry.encode ++ ['\n']) := by
    simp [append, line, Value.json]
  have happended := hmore _ hbreak
  rw [← htext] at happended
  rw [lines_of_splitAt hlog, lines_of_splitAt happended, List.map_append, List.map_append,
    List.map_singleton, hreturn]
  rfl

theorem lines_foldl_append (h : Ended log) (entries : List LogEntry) :
    lines (entries.foldl append log) = lines log ++ entries.map fun entry => entry.encode.json := by
  induction entries generalizing log with
  | nil => simp
  | cons entry entries ih =>
    rw [List.foldl_cons, ih (ended_append log entry), lines_append h, List.append_assoc]
    rfl

theorem not_allBlank_json (entry : LogEntry) : Text.allBlank entry.encode.json = false := by
  have hopening : entry.encode.json.toList =
      '{' :: (Json.compactEntries entry.fields ++ ['}']) := by
    rw [Value.json, String.toList_ofList, LogEntry.encode, Json.compact]
    rfl
  have hbrace : Text.isBlank '{' = false := by decide
  unfold Text.allBlank
  rw [hopening, List.all_cons, hbrace, Bool.false_and]

/-- Lines are read as entries if each line is read as the entry in its place. -/
theorem readLines_eq_ok_iff {number : Nat} {ls : List String} :
    readLines number ls = .ok entries ↔
      List.Forall₂ (fun l entry => readLine? l = some entry) ls entries := by
  induction ls generalizing number entries with
  | nil =>
    rw [readLines, List.forall₂_nil_left_iff, Except.ok.injEq, eq_comm]
  | cons l ls ih =>
    rw [readLines, List.forall₂_cons_left_iff]
    cases hl : readLine? l with
    | none => simp
    | some entry =>
      simp only [bind_eq_ok_iff, ih]
      constructor
      · rintro ⟨more, hmore, h⟩
        cases h
        exact ⟨entry, more, rfl, hmore, rfl⟩
      · rintro ⟨first, more, hfirst, hmore, rfl⟩
        cases hfirst
        exact ⟨more, hmore, rfl⟩

theorem forall₂_append_iff {α β : Type} {R : α → β → Prop} {as more : List α} {bs later : List β}
    (h : List.Forall₂ R as bs) :
    List.Forall₂ R (as ++ more) (bs ++ later) ↔ List.Forall₂ R more later := by
  induction h with
  | nil => rfl
  | cons hab _ ih =>
    rw [List.cons_append, List.cons_append, List.forall₂_cons, ih]
    exact and_iff_right hab

/-- **A log reads back what was appended to it.**  Each entry is one line more, whatever its texts
are, and the log reads as its earlier entries and the appended ones exactly if their durations do
read back. -/
theorem read_foldl_append (hended : Ended log) (hread : read log = .ok earlier)
    (hsized : ∀ entry ∈ entries, entry.event.occurrence.IsSized) :
    lines (entries.foldl append log) = lines log ++ entries.map (fun entry => entry.encode.json) ∧
      (read (entries.foldl append log) = .ok (earlier ++ entries) ↔
        ∀ entry ∈ entries, ∀ x ∈ entry.event.occurrence.seconds?, x.ReadsBack) := by
  refine ⟨lines_foldl_append hended entries, ?_⟩
  have hall : (entries.map fun entry => entry.encode.json).filter
      (fun line => !Text.allBlank line) = entries.map fun entry => entry.encode.json := by
    rw [List.filter_eq_self]
    intro l hl
    obtain ⟨entry, -, rfl⟩ := List.mem_map.1 hl
    rw [not_allBlank_json]
    rfl
  rw [read, readLines_eq_ok_iff] at hread
  rw [read, readLines_eq_ok_iff, lines_foldl_append hended, List.filter_append, hall,
    forall₂_append_iff hread, List.forall₂_map_left_iff, List.forall₂_same]
  refine forall₂_congr fun entry hentry => ?_
  rw [LogEntry.readLine?_json (hsized entry hentry), LogEntry.reread?_eq_self_iff]

/-- A log with one entry and a blank line. -/
def visitLog : String :=
  "\x7b\"ts\":\"2026-01-31T09:00:00Z\",\"event\":\"step_started\",\"run_id\":\"r-1\"," ++
    "\"step\":\"greet\",\"attempt\":1\x7d\r\n \n"

def visitStart : LogEntry := ⟨"2026-01-31T09:00:00Z", ⟨"r-1", .stepStarted "greet" 1⟩⟩

/-- A quarter of a second. -/
def quarter : Binary64 := ⟨false, 1021 * Nat.pow 2 52, by decide⟩

/-- A failure whose text has line breaks and quotes, and an attempt that takes some time. -/
def visitEntries : List LogEntry :=
  [⟨"2026-01-31T09:00:01Z", ⟨"r-1", .stepFailed "greet" 1 "no \"guest\"\n\r\n\\n"⟩⟩,
    ⟨"2026-01-31T09:00:02Z", ⟨"r-1", .stepPassed "greet" 2 quarter⟩⟩]

theorem read_visitLog : Ended visitLog ∧ read visitLog = .ok [visitStart] ∧
    (∀ entry ∈ visitEntries, entry.event.occurrence.IsSized) ∧
    read (visitEntries.foldl append visitLog) = .ok (visitStart :: visitEntries) := by
  have hended : Ended visitLog := .inr (by decide +kernel)
  have hread : read visitLog = .ok [visitStart] := by decide +kernel
  have hsized : ∀ entry ∈ visitEntries, entry.event.occurrence.IsSized := by
    simp [visitEntries, Occurrence.IsSized]
  have hquarter : quarter.ReadsBack := by decide +kernel
  have hdurations : ∀ entry ∈ visitEntries, ∀ x ∈ entry.event.occurrence.seconds?,
      x.ReadsBack := by
    simp [visitEntries, Occurrence.seconds?, hquarter]
  exact ⟨hended, hread, hsized, (read_foldl_append hended hread hsized).2.2 hdurations⟩

end Log

end ProcessTest
