import ImageBatch.Event.Journal
import ImageBatch.Proofs.Binary64.Rounding
import ImageBatch.Proofs.Json.ReadBack
import ImageBatch.Proofs.Text.Lines
import ImageBatch.Proofs.Time.Stamp

/-!
# Entries are read back

The line of an entry is one line, whatever its texts hold, and it is read as the entry that it was.
-/

namespace ImageBatch

namespace Happening

/-- The counts of a happening are in their bounds. -/
def Fits : Happening → Prop
  | runStarted total attempt => total < countBound ∧ attempt < attemptBound
  | taskStarted _ attempt => attempt < attemptBound
  | taskRetrying _ attempt delay _ => attempt < attemptBound ∧ delay < countBound
  | taskSucceeded _ attempts => attempts < attemptBound
  | taskFailed _ attempts _ => attempts < attemptBound
  | taskSkipped .. => True
  | runCompleted succeeded failed skipped =>
    succeeded < countBound ∧ failed < countBound ∧ skipped < countBound

instance : DecidablePred Fits := fun what =>
  match what with
  | runStarted .. => inferInstanceAs (Decidable (_ ∧ _))
  | taskStarted .. => inferInstanceAs (Decidable (_ < _))
  | taskRetrying .. => inferInstanceAs (Decidable (_ ∧ _))
  | taskSucceeded .. => inferInstanceAs (Decidable (_ < _))
  | taskFailed .. => inferInstanceAs (Decidable (_ < _))
  | taskSkipped .. => inferInstanceAs (Decidable True)
  | runCompleted .. => inferInstanceAs (Decidable (_ ∧ _ ∧ _))

theorem readsBack_fields (what : Happening) : ∀ f ∈ what.fields, f.2.ReadsBack := by
  cases what with
  | runStarted total attempt =>
      simp [fields, Json.readsBack_ofNat]
  | taskStarted origin attempt =>
      simp [fields, Json.readsBack_ofNat, Json.readsBack_text]
  | taskRetrying origin attempt delay f =>
      simp [fields, Json.readsBack_ofNat, Json.readsBack_text]
  | taskSucceeded origin attempts =>
      simp [fields, Json.readsBack_ofNat, Json.readsBack_text]
  | taskFailed origin attempts f =>
      simp [fields, Json.readsBack_ofNat, Json.readsBack_text]
  | taskSkipped origin reason =>
      simp [fields, Json.readsBack_text, Json.readsBack_ofOption]
  | runCompleted succeeded failed skipped =>
      simp [fields, Json.readsBack_ofNat]

end Happening

namespace Json

theorem count?_ofNat {bound n : Nat} (h : n < bound) : count? bound (ofNat n) = some n := by
  simp [count?, ofNat, h]

theorem isSound_ofNat {n : Nat} (h : n < countBound) : (ofNat n).isSound = true := by
  obtain ⟨units, hfinite⟩ := Binary64.exists_ofDecimal_eq_finite false h
  simp only [ofNat, isSound, hfinite]

theorem isSound_ofOption (o : Option String) : (ofOption o).isSound = true := by
  cases o <;> simp [ofOption, isSound]

theorem isSound_record (fields : List (String × Json)) :
    (record fields).isSound = fields.all (fun f => f.2.isSound) := by
  rw [record, isSound]
  induction fields with
  | nil => rfl
  | cons f fs ih => simp [fieldsSound, ih]

theorem depth_record {fields : List (String × Json)} (h : ∀ f ∈ fields, f.2.depth = 0) :
    (record fields).depth = 1 := by
  rw [record, depth]
  induction fields with
  | nil => rfl
  | cons f fs ih =>
      obtain ⟨hf, hfs⟩ := List.forall_mem_cons.mp h
      have hrest := ih hfs
      simp only [List.map_cons, fieldsDepth, hf]
      omega

theorem required_cons {α : Type} (name n : String) (x : Json) (k : Known)
    (read : Json → Option α) :
    required ((n, x) :: k) name read = if name = n then read x else required k name read := by
  by_cases h : name = n
  · simp [required, h]
  · have hkey : (name == n) = false := beq_false_of_ne h
    simp [required, List.lookup_cons, h, hkey]

theorem withDefault_cons {α : Type} (name n : String) (x : Json) (k : Known) (default : α)
    (read : Json → Option α) :
    withDefault ((n, x) :: k) name default read =
      if name = n then read x else withDefault k name default read := by
  by_cases h : name = n
  · simp [withDefault, h]
  · have hkey : (name == n) = false := beq_false_of_ne h
    simp [withDefault, List.lookup_cons, h, hkey]

theorem nullable_ofOption (o : Option String) : nullable text? (ofOption o) = some o := by
  cases o <;> rfl

end Json

theorem Category.ofLabel?_label (c : Category) : ofLabel? c.label = some c := by
  cases c <;> decide

namespace Event

/-! ## Events -/

theorem readsBack_json (e : Event) : e.json.ReadsBack := by
  refine Json.readsBack_record ?_
  simp only [List.forall_mem_cons]
  exact ⟨Json.readsBack_text _, Json.readsBack_text _, e.what.readsBack_fields⟩

theorem isSound_json {e : Event} (h : e.what.Fits) : e.json.isSound = true := by
  have hattempt : ∀ {n}, n < attemptBound → n < countBound := fun hn => hn.trans (by decide)
  obtain ⟨runId, what⟩ := e
  rw [json, Json.isSound_record]
  cases what with
  | runStarted total attempt =>
      simp [Happening.fields, Json.isSound, Json.isSound_ofNat h.1,
        Json.isSound_ofNat (hattempt h.2)]
  | taskStarted origin attempt =>
      simp [Happening.fields, Json.isSound, Json.isSound_ofNat (hattempt h)]
  | taskRetrying origin attempt delay f =>
      simp [Happening.fields, Json.isSound, Json.isSound_ofNat (hattempt h.1),
        Json.isSound_ofNat h.2]
  | taskSucceeded origin attempts =>
      simp [Happening.fields, Json.isSound, Json.isSound_ofNat (hattempt h)]
  | taskFailed origin attempts f =>
      simp [Happening.fields, Json.isSound, Json.isSound_ofNat (hattempt h)]
  | taskSkipped origin reason =>
      simp [Happening.fields, Json.isSound, Json.isSound_ofOption]
  | runCompleted succeeded failed skipped =>
      simp [Happening.fields, Json.isSound, Json.isSound_ofNat h.1, Json.isSound_ofNat h.2.1,
        Json.isSound_ofNat h.2.2]

theorem depth_json (e : Event) : e.json.depth = 1 := by
  refine Json.depth_record ?_
  obtain ⟨runId, what⟩ := e
  cases what with
  | taskSkipped origin reason =>
      cases reason <;> simp [Happening.fields, Json.depth, Json.ofOption]
  | _ => simp [Happening.fields, Json.depth, Json.ofNat]

theorem ofJson?_json_eq (e : Event) : ofJson? e.json =
    ofKnown? e.what.label (e.what.fields.reverse ++ [("run_id", .text e.runId)]) := by
  obtain ⟨runId, what⟩ := e
  cases what <;>
    simp [json, Json.record, Happening.fields, ofJson?, Happening.label, Happening.fieldNames?,
      Json.pick]

theorem category?_label (c : Category) : category? (.text c.label) = some c :=
  Category.ofLabel?_label c

theorem happening?_fields {what : Happening} (h : what.Fits) (k : Json.Known) :
    happening? what.label (what.fields.reverse ++ k) = some what := by
  cases what with
  | runStarted total attempt =>
      simp [happening?, Happening.label, Happening.fields, Json.required_cons, count64?, count32?,
        Json.count?_ofNat h.1, Json.count?_ofNat h.2]
  | taskStarted origin attempt =>
      have hattempt : attempt < attemptBound := h
      simp [happening?, Happening.label, Happening.fields, Json.required_cons, Json.text?, count32?,
        Json.count?_ofNat hattempt]
  | taskRetrying origin attempt delay f =>
      simp [happening?, Happening.label, Happening.fields, Json.required_cons, Json.text?, count64?,
        count32?, Json.count?_ofNat h.1, Json.count?_ofNat h.2, category?_label]
  | taskSucceeded origin attempts =>
      have hattempts : attempts < attemptBound := h
      simp [happening?, Happening.label, Happening.fields, Json.required_cons, Json.text?, count32?,
        Json.count?_ofNat hattempts]
  | taskFailed origin attempts f =>
      have hattempts : attempts < attemptBound := h
      simp [happening?, Happening.label, Happening.fields, Json.required_cons, Json.text?, count32?,
        Json.count?_ofNat hattempts, category?_label]
  | taskSkipped origin reason =>
      simp [happening?, Happening.label, Happening.fields, Json.required_cons, Json.text?,
        Json.withDefault_cons, Json.nullable_ofOption]
  | runCompleted succeeded failed skipped =>
      simp [happening?, Happening.label, Happening.fields, Json.required_cons, count64?,
        Json.count?_ofNat h.1, Json.count?_ofNat h.2.1, Json.count?_ofNat h.2.2]

theorem required_runId (e : Event) :
    Json.required (e.what.fields.reverse ++ [("run_id", .text e.runId)]) "run_id" Json.text? =
      some e.runId := by
  obtain ⟨runId, what⟩ := e
  cases what <;> simp [Happening.fields, Json.required_cons, Json.text?]

theorem ofJson?_json {e : Event} (h : e.what.Fits) : ofJson? e.json = some e := by
  rw [ofJson?_json_eq, ofKnown?, required_runId, happening?_fields h]
  rfl

end Event

namespace LogEntry

/-! ## Entries -/

/-- The entry can be written by a clock and with counts as they are in a run. -/
structure IsWritable (e : LogEntry) : Prop where
  shown : e.written.IsShown
  fits : e.event.what.Fits

variable {e : LogEntry}

theorem readsBack_json (e : LogEntry) : e.json.ReadsBack := by
  refine Json.readsBack_record ?_
  simp only [List.forall_mem_cons]
  exact ⟨Json.readsBack_text _, e.event.readsBack_json, nofun⟩

theorem ofJson?_json (h : e.IsWritable) : ofJson? e.json = some e := by
  have hknown : e.json.known? ["ts", "event"] =
      some [("event", e.event.json), ("ts", .text e.written.stamp)] := by
    simp [json, Json.record, Json.known?, Json.pick]
  have hevent : (e.event.json.isSound && e.event.json.depth < depthLimit) = true := by
    rw [Event.isSound_json h.fits, Event.depth_json]
    decide
  rw [ofJson?, hknown]
  refine Option.bind_eq_some_iff.mpr ⟨_, rfl, ?_⟩
  refine Option.bind_eq_some_iff.mpr ⟨e.written.stamp, rfl, ?_⟩
  refine Option.bind_eq_some_iff.mpr ⟨e.event.json, rfl, ?_⟩
  refine Option.bind_eq_some_iff.mpr ⟨(), if_pos hevent, ?_⟩
  refine Option.bind_eq_some_iff.mpr ⟨e.written, Stamp.read_stamp h.shown, ?_⟩
  exact Option.bind_eq_some_iff.mpr ⟨e.event, Event.ofJson?_json h.fits, rfl⟩

theorem ofLine?_line (h : e.IsWritable) : ofLine? e.line = some e := by
  rw [ofLine?, line, Json.read?_write e.readsBack_json, Option.bind_some, ofJson?_json h]

theorem visible_line (e : LogEntry) : ∀ c ∈ e.line.toList, 32 ≤ c.toNat := by
  rw [line, Json.write, String.toList_ofList]
  exact e.readsBack_json.visible 0

theorem newline_not_mem_line (e : LogEntry) : '\n' ∉ e.line.toList := by
  intro h
  exact absurd (e.visible_line _ h) (by decide)

theorem chomp_line (e : LogEntry) : Text.chomp (e.line.toList ++ ['\n']) = e.line.toList := by
  apply Text.chomp_append
  intro h
  exact absurd (e.visible_line _ (List.mem_of_getLast? h)) (by decide)

theorem line_not_blank (e : LogEntry) : e.line.toList.all Text.isBlank = false := by
  obtain ⟨cs, hcs⟩ : ∃ cs, e.line.toList = '{' :: cs := by
    rw [line, Json.write, String.toList_ofList]
    exact ⟨_, rfl⟩
  rw [hcs, List.all_cons]
  rfl

end LogEntry

namespace Journal

/-- The text of a file with these entries. -/
def textOf (es : List LogEntry) : String := String.join (es.map (fun e => e.line ++ "\n"))

theorem entries_textOf {es : List LogEntry} (h : ∀ e ∈ es, e.IsWritable) :
    entries (textOf es) = es := by
  have htext : (textOf es).toList = Text.closedLines (es.map (fun e => e.line.toList)) := by
    simp [textOf, Text.closedLines, String.toList_join, List.flatMap_map]
  have hlines : Text.lines (textOf es).toList = es.map (fun e => e.line.toList) := by
    rw [htext, Text.lines_closedLines (by simpa using fun e _ => e.newline_not_mem_line),
      List.map_map]
    apply List.map_congr_left
    intro e _
    rw [Function.comp_apply, e.chomp_line]
  rw [entries, hlines, List.filterMap_map]
  refine (List.filterMap_congr ?_).trans List.filterMap_some
  intro e he
  simp only [Function.comp_apply, e.line_not_blank, String.ofList_toList,
    LogEntry.ofLine?_line (h e he), Bool.false_eq_true, if_false]

end Journal

end ImageBatch
