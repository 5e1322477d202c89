-- SUMMARY: Records of an external request trace, and the order in which they are imported.
import Mathlib.Data.Int.ConditionallyCompleteOrder
import Mathlib.Data.List.Sort
import Mathlib.Data.Prod.Lex
import Mathlib.Data.String.Basic
import KVDeadlineScheduler.Schema

namespace KVMemoryIntent

/-- One request, with what its constructor has checked. -/
structure RequestTraceRecord where
  requestId : String
  arrivalMs : ℤ
  startMs : Option ℤ
  endMs : Option ℤ
  promptTokens : ℤ
  generatedTokens : ℤ
  requestPriority : ℤ
  deadlineMs : Option ℤ
  status : String
  requestId_ne : requestId ≠ ""
  arrivalMs_nonneg : 0 ≤ arrivalMs
  promptTokens_nonneg : 0 ≤ promptTokens
  generatedTokens_nonneg : 0 ≤ generatedTokens
  requestPriority_range : 0 ≤ requestPriority ∧ requestPriority ≤ 100
  deadlineMs_pos : ∀ d ∈ deadlineMs, 0 < d

namespace RequestTraceRecord

/-- The constructor. -/
def postInit (requestId : String) (arrivalMs : ℤ) (startMs endMs : Option ℤ)
    (promptTokens generatedTokens : ℤ) (requestPriority : ℤ := 50) (deadlineMs : Option ℤ := none)
    (status : String := "completed") : Except Failure RequestTraceRecord :=
  if hid : requestId = "" then
    .error (.valueError "request_id must not be empty")
  else if harrival : arrivalMs < 0 then
    .error (.valueError "arrival_ms must be >= 0")
  else if hprompt : promptTokens < 0 then
    .error (.valueError "prompt_tokens must be >= 0")
  else if hgenerated : generatedTokens < 0 then
    .error (.valueError "generated_tokens must be >= 0")
  else if hpriority : ¬(0 ≤ requestPriority ∧ requestPriority ≤ 100) then
    .error (.valueError "request_priority must be in range 0..100")
  else if hdeadline : ∀ d ∈ deadlineMs, 0 < d then
    .ok {
      requestId := requestId
      arrivalMs := arrivalMs
      startMs := startMs
      endMs := endMs
      promptTokens := promptTokens
      generatedTokens := generatedTokens
      requestPriority := requestPriority
      deadlineMs := deadlineMs
      status := status
      requestId_ne := hid
      arrivalMs_nonneg := nonneg_of_not_neg harrival
      promptTokens_nonneg := nonneg_of_not_neg hprompt
      generatedTokens_nonneg := nonneg_of_not_neg hgenerated
      requestPriority_range := not_not.mp hpriority
      deadlineMs_pos := hdeadline }
  else
    .error (.valueError "deadline_ms must be > 0 when provided")

/-- The constructor accepts the fields of a record. -/
theorem postInit_eq (r : RequestTraceRecord) :
    postInit r.requestId r.arrivalMs r.startMs r.endMs r.promptTokens r.generatedTokens
      r.requestPriority r.deadlineMs r.status = .ok r := by
  rw [postInit, dif_neg r.requestId_ne, dif_neg (not_lt.mpr r.arrivalMs_nonneg),
    dif_neg (not_lt.mpr r.promptTokens_nonneg), dif_neg (not_lt.mpr r.generatedTokens_nonneg),
    dif_neg (not_not.mpr r.requestPriority_range), dif_pos r.deadlineMs_pos]

/-! ## Order of import -/

/-- Records are sorted by arrival, and by id among those that arrive together. -/
def key (r : RequestTraceRecord) : ℤ ×ₗ String := toLex (r.arrivalMs, r.requestId)

/-- The records in the order of their keys, those with equal keys as they come. -/
def sortedByKey (records : List RequestTraceRecord) : List RequestTraceRecord :=
  records.mergeSort fun a b => a.key ≤ b.key

theorem sortedByKey_perm (records : List RequestTraceRecord) : (sortedByKey records).Perm records :=
  List.mergeSort_perm records _

theorem sortedByKey_pairwise (records : List RequestTraceRecord) :
    (sortedByKey records).Pairwise fun a b => a.key ≤ b.key := by
  have htrans (a b c : RequestTraceRecord) (hab : decide (a.key ≤ b.key) = true)
      (hbc : decide (b.key ≤ c.key) = true) : decide (a.key ≤ c.key) = true :=
    decide_eq_true ((of_decide_eq_true hab).trans (of_decide_eq_true hbc))
  have htotal (a b : RequestTraceRecord) : (decide (a.key ≤ b.key) || decide (b.key ≤ a.key)) = true := by
    simp only [Bool.or_eq_true, decide_eq_true_eq]
    exact le_total a.key b.key
  apply (List.pairwise_mergeSort htrans htotal records).imp
  intro a b h
  exact of_decide_eq_true h

end RequestTraceRecord

end KVMemoryIntent
