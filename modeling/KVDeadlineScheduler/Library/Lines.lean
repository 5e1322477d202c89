-- SUMMARY: Texts as lines: splitting at every Unicode line boundary, newline translation in files, and that joined lines are split back.
import Mathlib.Data.List.DropRight

/-!
# Lines

`splitlines` ends a line at more characters than the newline that joins lines.
A file may hold another separator than the program writes, and reading turns
every separator back into a newline.
-/

namespace Lines

/-! ## Splitting -/

def isLineBreak (c : Char) : Bool :=
  c ∈ ['\n', '\r', '\x0b', '\x0c', '\x1c', '\x1d', '\x1e', '\u0085', '\u2028', '\u2029']

/-- `text.splitlines()`. A carriage return and the newline behind it end one line. -/
def splitlines : List Char → List (List Char)
  | [] => []
  | '\r' :: '\n' :: cs => [] :: splitlines cs
  | c :: cs =>
    if isLineBreak c then
      [] :: splitlines cs
    else
      match splitlines cs with
      | [] => [[c]]
      | l :: ls => (c :: l) :: ls

theorem splitlines_cons {c : Char} (hc : isLineBreak c = false) (cs : List Char) :
    splitlines (c :: cs) =
      match splitlines cs with
      | [] => [[c]]
      | l :: ls => (c :: l) :: ls := by
  rw [splitlines, hc]
  · rfl
  · intro cs' hreturn
    subst hreturn
    simp [isLineBreak] at hc

/-- A line without a boundary is split off as it stands. -/
theorem splitlines_append {l : List Char} (hl : ∀ c ∈ l, isLineBreak c = false) (rest : List Char) :
    splitlines (l ++ '\n' :: rest) = l :: splitlines rest := by
  induction l with
  | nil => simp [splitlines, isLineBreak]
  | cons c l ih =>
    rw [List.cons_append, splitlines_cons (hl c List.mem_cons_self),
      ih fun d hd => hl d (List.mem_cons_of_mem c hd)]

/-- `"\n".join(lines) + "\n"`. -/
def unlines (ls : List (List Char)) : List Char := ['\n'].intercalate ls ++ ['\n']

theorem unlines_cons_cons (l m : List Char) (ls : List (List Char)) :
    unlines (l :: m :: ls) = l ++ '\n' :: unlines (m :: ls) := by
  simp [unlines, List.intercalate]

/-- Joined lines end with a newline, so more of them may follow. -/
theorem unlines_append {ls ms : List (List Char)} (hls : ls ≠ []) (hms : ms ≠ []) :
    unlines (ls ++ ms) = unlines ls ++ unlines ms := by
  induction ls with
  | nil => exact absurd rfl hls
  | cons l ls ih =>
    cases ls with
    | nil =>
      obtain ⟨m, ms, rfl⟩ := List.exists_cons_of_ne_nil hms
      rw [List.singleton_append, unlines_cons_cons]
      simp [unlines]
    | cons k ls =>
      have hrest := ih (List.cons_ne_nil k ls)
      rw [List.cons_append] at hrest
      rw [List.cons_append, List.cons_append, unlines_cons_cons, unlines_cons_cons, hrest]
      simp

/-- Lines that are joined and ended by a newline are split back. Without lines, the
newline ends an empty one. -/
theorem splitlines_unlines (ls : List (List Char)) (hls : ∀ l ∈ ls, ∀ c ∈ l, isLineBreak c = false) :
    splitlines (unlines ls) = if ls = [] then [[]] else ls := by
  induction ls with
  | nil => rfl
  | cons l ls ih =>
    have hl := hls l List.mem_cons_self
    have hrest := ih fun m hm => hls m (List.mem_cons_of_mem l hm)
    cases ls with
    | nil =>
      have hunlines : unlines [l] = l ++ '\n' :: [] := by simp [unlines]
      rw [hunlines, splitlines_append hl]
      rfl
    | cons m ls =>
      rw [unlines_cons_cons, splitlines_append hl, hrest]
      rfl

/-- The only boundaries in joined lines are the newlines between them. -/
theorem return_not_mem_unlines {ls : List (List Char)} (hls : ∀ l ∈ ls, ∀ c ∈ l, isLineBreak c = false) :
    '\r' ∉ unlines ls := by
  induction ls with
  | nil => decide
  | cons l ls ih =>
    have hl : '\r' ∉ l := by
      intro hmem
      exact absurd (hls l List.mem_cons_self '\r' hmem) (by decide)
    have hrest := ih fun m hm => hls m (List.mem_cons_of_mem l hm)
    cases ls with
    | nil => simpa [unlines] using hl
    | cons m ls =>
      rw [unlines_cons_cons, List.mem_append, List.mem_cons]
      rintro (hmem | hmem | hmem)
      · exact hl hmem
      · exact absurd hmem (by decide)
      · exact hrest hmem

/-! ## Blank lines -/

def isWhitespace (c : Char) : Bool :=
  c ∈ ['\t', '\n', '\x0b', '\x0c', '\r', '\x1c', '\x1d', '\x1e', '\x1f', ' ', '\u0085', '\u00a0', '\u1680',
    '\u2028', '\u2029', '\u202f', '\u205f', '\u3000'] ∨ '\u2000' ≤ c ∧ c ≤ '\u200a'

/-- `text.strip()`. -/
def strip (cs : List Char) : List Char := (cs.dropWhile isWhitespace).rdropWhile isWhitespace

theorem strip_ne_nil {c : Char} (hc : isWhitespace c = false) (cs : List Char) : strip (c :: cs) ≠ [] := by
  intro hstrip
  have hdrop : (c :: cs).dropWhile isWhitespace = c :: cs := by simp [hc]
  rw [strip, hdrop, List.rdropWhile_eq_nil_iff] at hstrip
  exact Bool.false_ne_true (hc.symm.trans (hstrip c List.mem_cons_self))

/-! ## Newlines in files -/

/-- The line separator of the platform a file is written on. -/
inductive Linesep where
  | lf
  | crlf
  deriving DecidableEq, Repr

def Linesep.chars : Linesep → List Char
  | .lf => ['\n']
  | .crlf => ['\r', '\n']

/-- Writing a text file turns each newline into the separator. -/
def writeNewlines (linesep : Linesep) (cs : List Char) : List Char :=
  cs.flatMap fun c => if c = '\n' then linesep.chars else [c]

/-- Reading a text file turns each separator into a newline. -/
def readNewlines : List Char → List Char
  | [] => []
  | '\r' :: '\n' :: cs => '\n' :: readNewlines cs
  | c :: cs => (if c = '\r' then '\n' else c) :: readNewlines cs

theorem readNewlines_cons {c : Char} (hc : c ≠ '\r') (cs : List Char) :
    readNewlines (c :: cs) = c :: readNewlines cs := by
  rw [readNewlines, if_neg hc]
  intro cs' hreturn
  exact absurd hreturn hc

/-- A text without carriage returns comes back from a file. -/
theorem readNewlines_writeNewlines (linesep : Linesep) {cs : List Char} (hcs : '\r' ∉ cs) :
    readNewlines (writeNewlines linesep cs) = cs := by
  induction cs with
  | nil => rfl
  | cons c cs ih =>
    have hc : c ≠ '\r' := fun h => hcs (h ▸ List.mem_cons_self)
    have hrest := ih fun h => hcs (List.mem_cons_of_mem c h)
    rw [writeNewlines, List.flatMap_cons, ← writeNewlines]
    split
    · rename_i hnewline
      subst hnewline
      cases linesep with
      | lf => exact (readNewlines_cons hc _).trans (congrArg _ hrest)
      | crlf => exact congrArg _ hrest
    · exact (readNewlines_cons hc _).trans (congrArg _ hrest)

end Lines
