-- SUMMARY: Files of request traces: records as JSON objects, one a line, and that written files are read back, also one after another.
import KVDeadlineScheduler.Importer.Requests
import KVDeadlineScheduler.Library.Lines
import KVDeadlineScheduler.Trace.Fields

/-!
# Request trace files

A request trace is written like an intent trace: one JSON object a line, with the line
separator of the platform. Each file ends with a newline, so files may be put one after
another.
-/

namespace KVMemoryIntent

open Fields

/-- A record with its `model_name`, which only the file holds. -/
structure RequestTraceEntry extends RequestTraceRecord where
  modelName : Option String

namespace RequestTraceEntry

/-! ## Records -/

def toDict (r : RequestTraceEntry) : List (String × Json) := [
  ("request_id", .str r.requestId),
  ("arrival_ms", .int r.arrivalMs),
  ("start_ms", orNull .int r.startMs),
  ("end_ms", orNull .int r.endMs),
  ("prompt_tokens", .int r.promptTokens),
  ("generated_tokens", .int r.generatedTokens),
  ("request_priority", .int r.requestPriority),
  ("deadline_ms", orNull .int r.deadlineMs),
  ("model_name", orNull .str r.modelName),
  ("status", .str r.status)]

def fromDict (data : Json) : Except ReadFailure RequestTraceEntry := do
  let data ← members data
  let requestId ← str (← item data "request_id")
  let arrivalMs ← int (← item data "arrival_ms")
  let startMs ← optional int (given data "start_ms")
  let endMs ← optional int (given data "end_ms")
  let promptTokens ← int (← item data "prompt_tokens")
  let generatedTokens ← int (← item data "generated_tokens")
  let requestPriority ← int (itemD data "request_priority" (.int 50))
  let deadlineMs ← optional int (given data "deadline_ms")
  let modelName ← optional str (given data "model_name")
  let status ← str (itemD data "status" (.str "completed"))
  let record := RequestTraceRecord.postInit requestId arrivalMs startMs endMs promptTokens generatedTokens
    requestPriority deadlineMs status
  (record.map fun record => ⟨record, modelName⟩).mapError .refused

def toJson (r : RequestTraceEntry) : String := Json.dumps (.obj r.toDict)

def fromJson (value : String) : Except ReadFailure RequestTraceEntry :=
  match Json.loads value with
  | some data => fromDict data
  | none => .error .jsonDecodeError

theorem toDict_nodup (r : RequestTraceEntry) : (r.toDict.map Prod.fst).Nodup := by
  simp [toDict]

/-- A record holds no fractions. -/
theorem doubles_toDict (r : RequestTraceEntry) : Json.Doubles (.obj r.toDict) := by
  have horNull : ∀ i : Option ℤ, Json.Doubles (orNull .int i) := by
    intro i
    cases i <;> trivial
  have hmodel : Json.Doubles (orNull .str r.modelName) := by cases r.modelName <;> trivial
  simp [toDict, Json.Doubles, Json.DoublesMembers, horNull, hmodel]

/-- A dictionary that holds the fields of a record under their names is read as the record. -/
theorem fromDict_of_get? (r : RequestTraceEntry) {data : List (String × Json)}
    (hdata : ∀ field ∈ r.toDict, Json.get? data field.1 = some (Json.sortKeys field.2)) :
    fromDict (.obj data) = .ok r := by
  have horNull : ∀ i : Option ℤ, Json.sortKeys (orNull .int i) = orNull .int i := by
    intro i
    cases i <;> rfl
  have hmodel : Json.sortKeys (orNull .str r.modelName) = orNull .str r.modelName := by
    cases r.modelName <;> rfl
  simp only [toDict, List.forall_mem_cons, Json.sortKeys, horNull, hmodel] at hdata
  obtain ⟨requestId, arrivalMs, startMs, endMs, promptTokens, generatedTokens, requestPriority, deadlineMs,
    modelName, status, -⟩ := hdata
  simp only [fromDict, members, item_of_get? requestId, item_of_get? arrivalMs, optional_int startMs,
    optional_int endMs, item_of_get? promptTokens, item_of_get? generatedTokens,
    itemD_of_get? requestPriority, optional_int deadlineMs, optional_str modelName, itemD_of_get? status,
    str, int, ok_bind, RequestTraceRecord.postInit_eq]
  rfl

theorem fromJson_toJson (r : RequestTraceEntry) : fromJson r.toJson = .ok r := by
  rw [fromJson, toJson, Json.loads_dumps r.doubles_toDict]
  apply fromDict_of_get?
  intro field hfield
  exact Json.get?_sortMembers r.toDict_nodup hfield

/-! ## Files -/

/-- The bytes that `write_request_trace` leaves in the file. -/
def writeRequestTrace (linesep : Lines.Linesep) (records : List RequestTraceEntry) : ByteArray :=
  let text := Lines.unlines (records.map fun record => record.toJson.toList)
  (String.ofList (Lines.writeNewlines linesep text)).toUTF8

/-- One line of a file. A blank one is skipped. -/
def loadLine (records : List RequestTraceEntry) (line : List Char) :
    Except ReadFailure (List RequestTraceEntry) :=
  if Lines.strip line = [] then
    .ok records
  else
    (fromJson (String.ofList line)).map fun record => records ++ [record]

def loadRequestTrace (file : ByteArray) : Except ReadFailure (List RequestTraceEntry) :=
  match String.fromUTF8? file with
  | none => .error .unicodeDecodeError
  | some text => (Lines.splitlines (Lines.readNewlines text.toList)).foldlM loadLine []

/-- The lines of a written file. Without records there is a blank one. -/
def fileLines (records : List RequestTraceEntry) : List (List Char) :=
  if records = [] then [[]] else records.map fun record => record.toJson.toList

theorem isLineBreak_toJson (r : RequestTraceEntry) : ∀ c ∈ r.toJson.toList, Lines.isLineBreak c = false := by
  intro c hc
  have hprintable : Json.Printable c := Json.printable_dumps r.doubles_toDict c hc
  by_contra hbreak
  have hmem : Lines.isLineBreak c = true := by simpa using hbreak
  simp only [Lines.isLineBreak, decide_eq_true_eq, List.mem_cons, List.not_mem_nil, or_false] at hmem
  rcases hmem with rfl | rfl | rfl | rfl | rfl | rfl | rfl | rfl | rfl | rfl <;>
    exact absurd hprintable (by decide)

theorem loadLine_toJson (records : List RequestTraceEntry) (r : RequestTraceEntry) :
    loadLine records r.toJson.toList = .ok (records ++ [r]) := by
  obtain ⟨cs, hcs⟩ := Json.dumps_obj r.toDict
  have hstrip : Lines.strip r.toJson.toList ≠ [] := by
    rw [toJson, hcs]
    exact Lines.strip_ne_nil (by decide) cs
  rw [loadLine, if_neg hstrip, String.ofList_toList, fromJson_toJson]
  rfl

/-- Reading the lines of a file appends its records. -/
theorem foldlM_fileLines (records before : List RequestTraceEntry) :
    (fileLines records).foldlM loadLine before = .ok (before ++ records) := by
  have hlines : ∀ (records before : List RequestTraceEntry),
      (records.map fun record => record.toJson.toList).foldlM loadLine before = .ok (before ++ records) := by
    intro records
    induction records with
    | nil =>
      intro before
      rw [List.append_nil]
      rfl
    | cons r records ih =>
      intro before
      rw [List.map_cons, List.foldlM_cons, loadLine_toJson]
      refine (ih (before ++ [r])).trans ?_
      rw [List.append_assoc]
      rfl
  unfold fileLines
  split
  · rename_i hnil
    rw [hnil, List.append_nil]
    rfl
  · exact hlines records before

/-! ## Files one after another -/

/-- The text of files in a row, as the program that writes them has it. -/
def joinedText (traces : List (List RequestTraceEntry)) : List Char :=
  traces.flatMap fun records => Lines.unlines (records.map fun record => record.toJson.toList)

theorem joinedText_cons (records : List RequestTraceEntry) (traces : List (List RequestTraceEntry)) :
    joinedText (records :: traces) =
      Lines.unlines (records.map fun record => record.toJson.toList) ++ joinedText traces :=
  List.flatMap_cons

theorem concat_writeRequestTrace (linesep : Lines.Linesep) (traces : List (List RequestTraceEntry)) :
    (traces.map (writeRequestTrace linesep)).foldr (· ++ ·) ByteArray.empty =
      (String.ofList (Lines.writeNewlines linesep (joinedText traces))).toUTF8 := by
  induction traces with
  | nil => rfl
  | cons records traces ih =>
    rw [List.map_cons, List.foldr_cons, ih, joinedText_cons]
    simp only [writeRequestTrace, Lines.writeNewlines, List.flatMap_append, String.ofList_append]
    exact String.toByteArray_append.symm

theorem fileLines_ne_nil (records : List RequestTraceEntry) : fileLines records ≠ [] := by
  unfold fileLines
  split
  · exact List.cons_ne_nil _ _
  · rename_i hne
    simpa using hne

theorem isLineBreak_fileLines {records : List RequestTraceEntry} :
    ∀ l ∈ fileLines records, ∀ c ∈ l, Lines.isLineBreak c = false := by
  intro l hl
  unfold fileLines at hl
  split at hl
  · rw [List.mem_singleton.mp hl]
    exact fun c hc => absurd hc List.not_mem_nil
  · obtain ⟨r, -, rfl⟩ := List.mem_map.mp hl
    exact isLineBreak_toJson r

/-- A file without records is a blank line. -/
theorem unlines_fileLines (records : List RequestTraceEntry) :
    Lines.unlines (records.map fun record => record.toJson.toList) = Lines.unlines (fileLines records) := by
  unfold fileLines
  split
  · rename_i hnil
    rw [hnil]
    rfl
  · rfl

/-- Files end with a newline, so the lines of one do not run into the next. -/
theorem joinedText_eq_unlines {traces : List (List RequestTraceEntry)} (hne : traces ≠ []) :
    joinedText traces = Lines.unlines (traces.flatMap fileLines) := by
  induction traces with
  | nil => exact absurd rfl hne
  | cons records traces ih =>
    rw [joinedText_cons, List.flatMap_cons, unlines_fileLines]
    cases traces with
    | nil => simp [joinedText]
    | cons next traces =>
      have hrest : (next :: traces).flatMap fileLines ≠ [] := by
        rw [List.flatMap_cons]
        exact List.append_ne_nil_of_left_ne_nil (fileLines_ne_nil next) _
      rw [ih (List.cons_ne_nil next traces), Lines.unlines_append (fileLines_ne_nil records) hrest]

theorem isLineBreak_flatMap_fileLines (traces : List (List RequestTraceEntry)) :
    ∀ l ∈ traces.flatMap fileLines, ∀ c ∈ l, Lines.isLineBreak c = false := by
  intro l hl
  obtain ⟨records, -, hin⟩ := List.mem_flatMap.mp hl
  exact isLineBreak_fileLines l hin

/-- The text of the files comes back from the bytes as the lines of the files. -/
theorem splitlines_joinedText (linesep : Lines.Linesep) (traces : List (List RequestTraceEntry)) :
    Lines.splitlines (Lines.readNewlines (Lines.writeNewlines linesep (joinedText traces))) =
      traces.flatMap fileLines := by
  cases traces with
  | nil => rfl
  | cons records traces =>
    have hbreaks := isLineBreak_flatMap_fileLines (records :: traces)
    have hne : (records :: traces).flatMap fileLines ≠ [] := by
      rw [List.flatMap_cons]
      exact List.append_ne_nil_of_left_ne_nil (fileLines_ne_nil records) _
    rw [joinedText_eq_unlines (List.cons_ne_nil records traces),
      Lines.readNewlines_writeNewlines linesep (Lines.return_not_mem_unlines hbreaks),
      Lines.splitlines_unlines _ hbreaks, if_neg hne]

/-- Any number of written request traces, one behind the other in one file, are read as
their records in order. In particular a written trace is read back, and so is an empty
one, which is a blank line. -/
theorem load_concatenated (linesep : Lines.Linesep) (traces : List (List RequestTraceEntry)) :
    loadRequestTrace ((traces.map (writeRequestTrace linesep)).foldr (· ++ ·) ByteArray.empty) =
      .ok traces.flatten := by
  have hdecode : ∀ text : String, String.fromUTF8? text.toUTF8 = some text := fun text =>
    dif_pos text.isValidUTF8
  have hfold : ∀ (traces : List (List RequestTraceEntry)) (before : List RequestTraceEntry),
      (traces.flatMap fileLines).foldlM loadLine before = .ok (before ++ traces.flatten) := by
    intro traces
    induction traces with
    | nil =>
      intro before
      rw [List.flatten_nil, List.append_nil]
      rfl
    | cons records traces ih =>
      intro before
      rw [List.flatMap_cons, List.foldlM_append, foldlM_fileLines]
      refine (ih (before ++ records)).trans ?_
      rw [List.flatten_cons, List.append_assoc]
  rw [loadRequestTrace, concat_writeRequestTrace, hdecode]
  simp only [String.toList_ofList]
  rw [splitlines_joinedText]
  exact hfold traces []

end RequestTraceEntry

end KVMemoryIntent
