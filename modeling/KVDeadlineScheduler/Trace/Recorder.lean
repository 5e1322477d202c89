-- SUMMARY: The trace recorder and its JSONL files: writing a trace, reading one, and that a written trace is read back.
import KVDeadlineScheduler.Library.Lines
import KVDeadlineScheduler.Trace.Record

/-!
# Trace files

A trace is written as one JSON object a line. The file is text in UTF-8, with the
line separator of the platform.
-/

namespace KVMemoryIntent

structure IntentTraceRecorder where
  events : List MemoryIntentEvent

namespace IntentTraceRecorder

def record (recorder : IntentTraceRecorder) (event : MemoryIntentEvent) : IntentTraceRecorder where
  events := recorder.events ++ [event]

/-! ## Files -/

/-- The bytes of the file that a recorder writes. -/
def toJsonl (recorder : IntentTraceRecorder) (linesep : Lines.Linesep) : ByteArray :=
  let text := Lines.unlines (recorder.events.map fun event => event.toJson.toList)
  (String.ofList (Lines.writeNewlines linesep text)).toUTF8

/-- One line of a file. A blank one is skipped. -/
def readLine (recorder : IntentTraceRecorder) (line : List Char) : Except ReadFailure IntentTraceRecorder :=
  if Lines.strip line = [] then
    .ok recorder
  else
    (MemoryIntentEvent.fromJson (String.ofList line)).map recorder.record

def fromJsonl (file : ByteArray) : Except ReadFailure IntentTraceRecorder :=
  match String.fromUTF8? file with
  | none => .error .unicodeDecodeError
  | some text => (Lines.splitlines (Lines.readNewlines text.toList)).foldlM readLine { events := [] }

/-! ## Lines of a trace -/

theorem isLineBreak_of_printable {c : Char} (hc : Json.Printable c) : Lines.isLineBreak c = false := by
  by_contra hbreak
  have hmem : Lines.isLineBreak c = true := by simpa using hbreak
  simp only [Lines.isLineBreak, decide_eq_true_eq, List.mem_cons, List.not_mem_nil, or_false] at hmem
  rcases hmem with rfl | rfl | rfl | rfl | rfl | rfl | rfl | rfl | rfl | rfl <;> exact absurd hc (by decide)

theorem printable_toJson {e : MemoryIntentEvent} (hrecency : Double.IsDouble e.intent.recencyScore) :
    ∀ c ∈ e.toJson.toList, Json.Printable c :=
  Json.printable_dumps (e.doubles_toDict hrecency)

/-- Whatever its strings hold, an event is written on one line. -/
theorem isLineBreak_toJson {e : MemoryIntentEvent} (hrecency : Double.IsDouble e.intent.recencyScore) :
    ∀ c ∈ e.toJson.toList, Lines.isLineBreak c = false := by
  intro c hc
  exact isLineBreak_of_printable (printable_toJson hrecency c hc)

theorem readLine_toJson (recorder : IntentTraceRecorder) {e : MemoryIntentEvent}
    (hrecency : Double.IsDouble e.intent.recencyScore) :
    recorder.readLine e.toJson.toList = .ok (recorder.record e) := by
  obtain ⟨cs, hcs⟩ := Json.dumps_obj e.toDict
  have hstrip : Lines.strip e.toJson.toList ≠ [] := by
    rw [MemoryIntentEvent.toJson, hcs]
    exact Lines.strip_ne_nil (by decide) cs
  rw [readLine, if_neg hstrip, String.ofList_toList, MemoryIntentEvent.fromJson_toJson e hrecency]
  rfl

/-- Reading the lines of events appends the events. -/
theorem foldlM_readLine (events : List MemoryIntentEvent)
    (hrecency : ∀ e ∈ events, Double.IsDouble e.intent.recencyScore) (recorder : IntentTraceRecorder) :
    (events.map fun e => e.toJson.toList).foldlM readLine recorder =
      .ok { events := recorder.events ++ events } := by
  induction events generalizing recorder with
  | nil => simp; rfl
  | cons e events ih =>
    have hrest := ih fun f hf => hrecency f (List.mem_cons_of_mem e hf)
    rw [List.map_cons, List.foldlM_cons, readLine_toJson recorder (hrecency e List.mem_cons_self)]
    refine (hrest (recorder.record e)).trans ?_
    simp [record]

/-- The text of a file is read back from its bytes. -/
theorem fromUTF8?_toUTF8 (text : String) : String.fromUTF8? text.toUTF8 = some text :=
  dif_pos text.isValidUTF8

/-- A trace is read back from the file that it was written to. -/
theorem fromJsonl_toJsonl (recorder : IntentTraceRecorder) (linesep : Lines.Linesep)
    (hrecency : ∀ e ∈ recorder.events, Double.IsDouble e.intent.recencyScore) :
    fromJsonl (recorder.toJsonl linesep) = .ok recorder := by
  obtain ⟨lines, hlines⟩ : ∃ ls, ls = recorder.events.map fun event => event.toJson.toList := ⟨_, rfl⟩
  have hbreaks : ∀ l ∈ lines, ∀ c ∈ l, Lines.isLineBreak c = false := by
    intro l hl
    rw [hlines] at hl
    obtain ⟨e, he, rfl⟩ := List.mem_map.mp hl
    exact isLineBreak_toJson (hrecency e he)
  have hreturn := Lines.return_not_mem_unlines hbreaks
  rw [fromJsonl, toJsonl, fromUTF8?_toUTF8, ← hlines]
  simp only [String.toList_ofList]
  rw [Lines.readNewlines_writeNewlines linesep hreturn, Lines.splitlines_unlines lines hbreaks]
  have hfold := foldlM_readLine recorder.events hrecency { events := [] }
  rw [← hlines] at hfold
  split
  · rename_i hnil
    -- the only line of an empty trace is blank
    rw [hnil] at hfold
    exact hfold
  · exact hfold

/-- An intent with line separators in its name and a recency of one half. -/
def separatorIntent : MemoryIntent :=
  { sampleIntent "a\r\n\u2028b\x0c\u0085" {.hbm, .dram} .hbm with recencyScore := 1 / 2, slackUs := some 7 }

theorem separatorIntent_valid : separatorIntent.Valid := by
  decide +kernel

def separatorEvent : MemoryIntentEvent :=
  { sampleEvent 3 .accessed separatorIntent with reason := some "" }

theorem separatorEvent_recencyScore : separatorEvent.intent.recencyScore = 1 / 2 := by
  have hintent : separatorEvent.intent = separatorIntent := if_pos separatorIntent_valid
  rw [hintent]
  rfl

theorem fromJsonl_toJsonl_separatorEvent :
    fromJsonl (toJsonl { events := [separatorEvent, separatorEvent] } .crlf) =
      .ok { events := [separatorEvent, separatorEvent] } := by
  apply fromJsonl_toJsonl
  intro e he
  have hevent : e = separatorEvent := by simpa using he
  rw [hevent, separatorEvent_recencyScore]
  exact ⟨1, -1, by decide, by decide, by decide, by norm_num⟩

end IntentTraceRecorder

end KVMemoryIntent
