-- SUMMARY: Decimal literals: their value, how they are written, and that scanning a written literal gives it back.
import Mathlib.Algebra.Order.Field.Rat
import Mathlib.Data.Nat.Digits.Lemmas

/-!
# Decimal literals

A literal has a sign, an integer part, a fraction that may be empty, and an
exponent that may be missing. Digits are numbers below 10, the most significant
one first. The scanner takes the longest literal at the start of a text, as the
regular expression `-?(0|[1-9][0-9]*)(\.[0-9]+)?([eE][-+]?[0-9]+)?` does.
-/

namespace Decimal

/-! ## Digits -/

def natDigits (n : ℕ) : List ℕ := if n = 0 then [0] else (Nat.digits 10 n).reverse

/-- The number that the digits write. -/
def ofDigits (ds : List ℕ) : ℕ := Nat.ofDigits 10 ds.reverse

def digitValue (c : Char) : ℕ := c.toNat - '0'.toNat

/-- The digits at the start of a text, and the rest of it. -/
def spanDigits : List Char → List ℕ × List Char
  | [] => ([], [])
  | c :: cs => if c.isDigit then (digitValue c :: (spanDigits cs).1, (spanDigits cs).2) else ([], c :: cs)

/-- The text does not go on with a digit. -/
def NoDigit (cs : List Char) : Prop := ∀ c ∈ cs.head?, c.isDigit = false

theorem ofDigits_natDigits (n : ℕ) : ofDigits (natDigits n) = n := by
  unfold natDigits ofDigits
  split
  · rename_i hn
    rw [hn]
    rfl
  · rw [List.reverse_reverse, Nat.ofDigits_digits]

theorem lt_of_mem_natDigits {n d : ℕ} (hd : d ∈ natDigits n) : d < 10 := by
  unfold natDigits at hd
  split at hd
  · simp at hd
    omega
  · exact Nat.digits_lt_base (by omega) (List.mem_reverse.mp hd)

/-- A number has a first digit, which is 0 for 0 only. -/
theorem natDigits_eq_cons (n : ℕ) :
    ∃ d ds, natDigits n = d :: ds ∧ (d = 0 → ds = [] ∧ n = 0) := by
  unfold natDigits
  split
  · rename_i hn
    exact ⟨0, [], rfl, fun _ => ⟨rfl, hn⟩⟩
  · rename_i hn
    have hne : Nat.digits 10 n ≠ [] := Nat.digits_ne_nil_iff_ne_zero.mpr hn
    refine ⟨(Nat.digits 10 n).getLast hne, (Nat.digits 10 n).dropLast.reverse, ?_, fun hzero => ?_⟩
    · nth_rewrite 1 [← List.dropLast_append_getLast hne]
      rw [List.reverse_append]
      rfl
    · exact absurd hzero (Nat.getLast_digit_ne_zero 10 hn)

theorem ofDigits_append (ds es : List ℕ) : ofDigits (ds ++ es) = ofDigits ds * 10 ^ es.length + ofDigits es := by
  unfold ofDigits
  rw [List.reverse_append, Nat.ofDigits_append, List.length_reverse]
  ring

@[simp] theorem ofDigits_replicate_zero (k : ℕ) : ofDigits (List.replicate k 0) = 0 := by
  simp [ofDigits]

theorem isDigit_digitChar {d : ℕ} (hd : d < 10) : d.digitChar.isDigit = true := by
  simp [Nat.isDigit_digitChar, hd]

theorem digitValue_digitChar : ∀ d < 10, digitValue d.digitChar = d := by
  decide

theorem spanDigits_append {ds : List ℕ} {rest : List Char} (hds : ∀ d ∈ ds, d < 10)
    (hrest : NoDigit rest) : spanDigits (ds.map Nat.digitChar ++ rest) = (ds, rest) := by
  induction ds with
  | nil =>
    cases rest with
    | nil => rfl
    | cons c cs => simp [spanDigits, hrest c rfl]
  | cons d ds ih =>
    have hd := hds d List.mem_cons_self
    have hrec := ih fun e he => hds e (List.mem_cons_of_mem d he)
    simp [spanDigits, isDigit_digitChar hd, digitValue_digitChar d hd, hrec]

/-! ## Texts of integers -/

theorem natRepr_injective : Function.Injective Nat.repr := by
  intro m n h
  have hdigits : Nat.toDigits 10 m = Nat.toDigits 10 n := by
    rw [← Nat.toList_repr, h, Nat.toList_repr]
  have hread : ∀ k : ℕ, Nat.ofDigitChars 10 (Nat.toDigits 10 k) 0 = k := fun k =>
    Nat.ofDigitChars_toDigits (by decide) (by decide)
  rw [← hread m, hdigits, hread]

/-- The text of a natural number has no sign. -/
theorem natRepr_ne_neg (m n : ℕ) : Nat.repr m ≠ "-" ++ Nat.repr n := by
  intro h
  have hmem : '-' ∈ (Nat.repr m).toList := by simp [h]
  rw [Nat.toList_repr] at hmem
  exact absurd (Nat.isDigit_of_mem_toDigits (by decide) (by decide) hmem) (by decide)

/-- Integers are told apart by their texts. -/
theorem toString_injective : Function.Injective (toString : ℤ → String) := by
  intro a b h
  cases a with
  | ofNat m =>
    cases b with
    | ofNat n => exact congrArg Int.ofNat (natRepr_injective h)
    | negSucc n => exact absurd h (natRepr_ne_neg m (n + 1))
  | negSucc m =>
    cases b with
    | ofNat n => exact absurd h.symm (natRepr_ne_neg n (m + 1))
    | negSucc n =>
      have hdigits : m + 1 = n + 1 := natRepr_injective ((String.append_right_inj _).mp h)
      exact congrArg Int.negSucc (Nat.succ.inj hdigits)

/-! ## Literals -/

structure Literal where
  negative : Bool
  int : List ℕ
  frac : List ℕ := []
  exp : Option ℤ := none
  deriving DecidableEq, Repr

namespace Literal

/-- The parts are as the grammar asks. -/
structure WellFormed (l : Literal) : Prop where
  int_cons : ∃ d ds, l.int = d :: ds ∧ (d = 0 → ds = [])
  int_lt : ∀ d ∈ l.int, d < 10
  frac_lt : ∀ d ∈ l.frac, d < 10

def sign (negative : Bool) : ℤ := if negative then -1 else 1

/-- The number that a literal without a fraction or an exponent stands for. -/
def intValue (l : Literal) : ℤ := sign l.negative * ofDigits l.int

def value (l : Literal) : ℚ :=
  sign l.negative * ofDigits (l.int ++ l.frac) * 10 ^ (l.exp.getD 0 - l.frac.length)

def isFloat (l : Literal) : Bool := l.frac ≠ [] || l.exp.isSome

def ofInt (i : ℤ) : Literal where
  negative := i < 0
  int := natDigits i.natAbs

theorem ofInt_wellFormed (i : ℤ) : (ofInt i).WellFormed where
  int_cons := by
    obtain ⟨d, ds, hds, hzero⟩ := natDigits_eq_cons i.natAbs
    exact ⟨d, ds, hds, fun hd => (hzero hd).1⟩
  int_lt _ hd := lt_of_mem_natDigits hd
  frac_lt _ hd := absurd hd List.not_mem_nil

theorem intValue_ofInt (i : ℤ) : (ofInt i).intValue = i := by
  unfold intValue ofInt sign
  rw [ofDigits_natDigits]
  simp only [decide_eq_true_eq]
  split <;> omega

/-! ## Writing -/

/-- `e`, the sign, and at least two digits. -/
def writeExp (e : ℤ) : List Char :=
  'e' :: (if e < 0 then '-' else '+') ::
    ((if e.natAbs < 10 then [0] else []) ++ natDigits e.natAbs).map Nat.digitChar

def write (l : Literal) : List Char :=
  (if l.negative then ['-'] else []) ++ l.int.map Nat.digitChar ++
    (if l.frac = [] then [] else '.' :: l.frac.map Nat.digitChar) ++
    match l.exp with
    | none => []
    | some e => writeExp e

/-! ## Scanning -/

def scanSign : List Char → Bool × List Char
  | '-' :: cs => (true, cs)
  | cs => (false, cs)

/-- A single 0, or digits that do not start with 0. -/
def scanInt : List Char → Option (List ℕ × List Char)
  | [] => none
  | c :: cs => if c = '0' then some ([0], cs) else if c.isDigit then some (spanDigits (c :: cs)) else none

/-- A point without a digit behind it is left where it is. -/
def scanFrac (cs : List Char) : List ℕ × List Char :=
  match cs with
  | '.' :: rest => if (spanDigits rest).1 = [] then ([], cs) else spanDigits rest
  | _ => ([], cs)

/-- The sign of an exponent may be missing. -/
def scanExpSign : List Char → Bool × List Char
  | '-' :: cs => (true, cs)
  | '+' :: cs => (false, cs)
  | cs => (false, cs)

/-- An `e` without a digit behind it is left where it is. -/
def scanExp (cs : List Char) : Option ℤ × List Char :=
  match cs with
  | c :: rest =>
    if c = 'e' ∨ c = 'E' then
      let (negative, rest) := scanExpSign rest
      if (spanDigits rest).1 = [] then
        (none, cs)
      else
        (some (sign negative * ofDigits (spanDigits rest).1), (spanDigits rest).2)
    else
      (none, cs)
  | [] => (none, [])

def scan (cs : List Char) : Option (Literal × List Char) :=
  let (negative, cs) := scanSign cs
  (scanInt cs).map fun (int, cs) =>
    let (frac, cs) := scanFrac cs
    let (exp, cs) := scanExp cs
    ({ negative := negative, int := int, frac := frac, exp := exp }, cs)

/-! ## Scanning what was written -/

/-- The text does not go on with a part of a literal. -/
def Stops (cs : List Char) : Prop := ∀ c ∈ cs.head?, c.isDigit = false ∧ c ≠ '.' ∧ c ≠ 'e' ∧ c ≠ 'E'

theorem Stops.noDigit {cs : List Char} (h : Stops cs) : NoDigit cs := fun c hc => (h c hc).1

theorem stops_nil : Stops [] := fun _ hc => nomatch hc

theorem stops_cons {c : Char} {cs : List Char}
    (hc : c.isDigit = false ∧ c ≠ '.' ∧ c ≠ 'e' ∧ c ≠ 'E' := by decide) : Stops (c :: cs) := by
  rintro _ ⟨⟩
  exact hc

section Scan

variable {l : Literal} {rest : List Char}

theorem scanSign_of_ne {cs : List Char} (h : ∀ c ∈ cs.head?, c ≠ '-') : scanSign cs = (false, cs) := by
  unfold scanSign
  split
  · exact absurd rfl (h '-' rfl)
  · rfl

theorem scanSign_append {cs : List Char} (negative : Bool) (h : ∀ c ∈ cs.head?, c ≠ '-') :
    scanSign ((if negative then ['-'] else []) ++ cs) = (negative, cs) := by
  cases negative with
  | false => exact scanSign_of_ne h
  | true => rfl

theorem ne_of_isDigit {c d : Char} (hc : c.isDigit = true) (hd : d.isDigit = false) : c ≠ d := by
  rintro rfl
  rw [hc] at hd
  cases hd

theorem WellFormed.scanInt_append (h : l.WellFormed) (hrest : NoDigit rest) :
    scanInt (l.int.map Nat.digitChar ++ rest) = some (l.int, rest) := by
  obtain ⟨d, ds, hint, hzero⟩ := h.int_cons
  have hd : d < 10 := h.int_lt d (hint ▸ List.mem_cons_self)
  have hspan := spanDigits_append h.int_lt hrest
  rw [hint, List.map_cons, List.cons_append] at hspan ⊢
  by_cases hd0 : d = 0
  · rw [hzero hd0, hd0]
    rfl
  · have hne : d.digitChar ≠ '0' := by simpa using hd0
    rw [scanInt, if_neg hne, if_pos (isDigit_digitChar hd), hspan]

theorem scanFrac_append (h : l.WellFormed) (hrest : NoDigit rest) (hpoint : ∀ c ∈ rest.head?, c ≠ '.') :
    scanFrac ((if l.frac = [] then [] else '.' :: l.frac.map Nat.digitChar) ++ rest) = (l.frac, rest) := by
  by_cases hfrac : l.frac = []
  · rw [if_pos hfrac, hfrac, List.nil_append]
    unfold scanFrac
    split
    · exact absurd rfl (hpoint '.' rfl)
    · rfl
  · rw [if_neg hfrac, List.cons_append, scanFrac, spanDigits_append h.frac_lt hrest, if_neg hfrac]

/-- The digits of an exponent may start with a 0 that changes nothing. -/
theorem ofDigits_pad (n : ℕ) : ofDigits ((if n < 10 then [0] else []) ++ natDigits n) = n := by
  rw [ofDigits_append, ofDigits_natDigits]
  split <;> simp [ofDigits]

theorem scanExp_writeExp (e : ℤ) (hrest : NoDigit rest) :
    scanExp (writeExp e ++ rest) = (some e, rest) := by
  generalize hds : (if e.natAbs < 10 then [0] else []) ++ natDigits e.natAbs = ds
  have hvalue : ofDigits ds = e.natAbs := by rw [← hds, ofDigits_pad]
  have hlt : ∀ d ∈ ds, d < 10 := by
    intro d hd
    rw [← hds, List.mem_append] at hd
    rcases hd with hd | hd
    · split at hd
      · simp at hd
        omega
      · cases hd
    · exact lt_of_mem_natDigits hd
  have hne : ds ≠ [] := by
    obtain ⟨d, es, hes, -⟩ := natDigits_eq_cons e.natAbs
    rw [← hds, hes]
    simp
  have hspan := spanDigits_append hlt hrest
  have hexp : sign (decide (e < 0)) * (ofDigits ds : ℤ) = e := by
    rw [hvalue]
    unfold sign
    simp only [decide_eq_true_eq]
    split <;> omega
  rw [writeExp, hds]
  by_cases hneg : e < 0
  · simp only [hneg, decide_true] at hexp
    simp [scanExp, scanExpSign, hneg, hspan, hne, hexp]
  · simp only [hneg, decide_false] at hexp
    simp [scanExp, scanExpSign, hneg, hspan, hne, hexp]

theorem scanExp_of_stops (hrest : Stops rest) : scanExp rest = (none, rest) := by
  cases rest with
  | nil => rfl
  | cons c cs =>
    have hc := hrest c rfl
    rw [scanExp, if_neg]
    rintro (he | he)
    · exact hc.2.2.1 he
    · exact hc.2.2.2 he

/-- Scanning a written literal gives it back, with the text behind it. -/
theorem WellFormed.scan_write (h : l.WellFormed) (hrest : Stops rest) :
    scan (l.write ++ rest) = some (l, rest) := by
  generalize hexp : (match l.exp with | none => [] | some e => writeExp e) ++ rest = expText
  generalize hfrac : (if l.frac = [] then [] else '.' :: l.frac.map Nat.digitChar) ++ expText = fracText
  have hnoExp : NoDigit expText ∧ ∀ c ∈ expText.head?, c ≠ '.' := by
    rw [← hexp]
    cases l.exp with
    | none => exact ⟨hrest.noDigit, fun c hc => (hrest c hc).2.1⟩
    | some e =>
      constructor
      · rintro _ ⟨⟩
        decide
      · rintro _ ⟨⟩
        decide
  have hnoFrac : NoDigit fracText := by
    rw [← hfrac]
    split
    · exact hnoExp.1
    · rintro _ ⟨⟩
      decide
  have hscanExp : scanExp expText = (l.exp, rest) := by
    rw [← hexp]
    cases l.exp with
    | none => exact scanExp_of_stops hrest
    | some e => exact scanExp_writeExp e hrest.noDigit
  have hminus : ∀ c ∈ (l.int.map Nat.digitChar ++ fracText).head?, c ≠ '-' := by
    obtain ⟨d, ds, hint, -⟩ := h.int_cons
    rw [hint]
    rintro _ ⟨⟩
    exact ne_of_isDigit (isDigit_digitChar (h.int_lt d (hint ▸ List.mem_cons_self))) (by decide)
  have hwrite : l.write ++ rest =
      (if l.negative then ['-'] else []) ++ (l.int.map Nat.digitChar ++ fracText) := by
    rw [← hfrac, ← hexp, write]
    simp only [List.append_assoc]
  rw [hwrite, scan, scanSign_append _ hminus]
  simp only [h.scanInt_append hnoFrac, Option.map_some]
  rw [← hfrac, scanFrac_append h hnoExp.1 hnoExp.2, hscanExp]

end Scan

end Literal

end Decimal
