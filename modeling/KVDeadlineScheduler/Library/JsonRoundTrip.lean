-- SUMMARY: Parsing a written JSON value gives it back, and written values are printable ASCII.
import KVDeadlineScheduler.Library.Json
import KVDeadlineScheduler.Library.OrderedDict

/-!
# Round trip of JSON values

Each scanner is shown to undo the writer of its part, whatever text follows. The
text behind a number must not go on with it, which holds of the separators that
the writer puts behind a value.
-/

namespace Json

open Decimal

/-! ## Strings -/

theorem hexValue_hexDigit (n : ℕ) : hexValue (hexDigit n) = some (n % 16) := by
  have hall : ∀ d < 16, hexValue (Nat.digitChar d) = some d := by decide
  exact hall (n % 16) (Nat.mod_lt n (by decide))

theorem scanHex_digits {n : ℕ} (hn : n < 0x10000) (rest : List Char) :
    scanHex (hexDigit (n / 4096) :: hexDigit (n / 256) :: hexDigit (n / 16) :: hexDigit n :: rest) =
      some (n, rest) := by
  simp only [scanHex, hexValue_hexDigit, Option.bind_eq_bind, Option.bind_some]
  congr 2
  omega

/-- The character of a code point below 2^16 is not a surrogate. -/
theorem not_surrogate (c : Char) : c.toNat < 0xd800 ∨ 0xdfff < c.toNat := by
  rcases c.valid with h | ⟨h, -⟩
  · exact .inl h
  · exact .inr h

theorem scanUnicode_basic {c : Char} (hc : c.toNat < 0x10000) (rest : List Char) :
    scanUnicode (hexDigit (c.toNat / 4096) :: hexDigit (c.toNat / 256) :: hexDigit (c.toNat / 16) ::
      hexDigit c.toNat :: rest) = some (c, rest) := by
  have hsurrogate := not_surrogate c
  have hhigh : ¬(0xd800 ≤ c.toNat ∧ c.toNat ≤ 0xdbff) := by omega
  have hlow : ¬(0xdc00 ≤ c.toNat ∧ c.toNat ≤ 0xdfff) := by omega
  simp only [scanUnicode, scanHex_digits hc, Option.bind_eq_bind, Option.bind_some, if_neg hhigh, if_neg hlow,
    Char.ofNat_toNat]

/-- Two surrogate escapes are taken together. -/
theorem scanUnicode_surrogates {high low : ℕ} (hhigh : 0xd800 ≤ high ∧ high ≤ 0xdbff)
    (hlow : 0xdc00 ≤ low ∧ low ≤ 0xdfff) (rest : List Char) :
    scanUnicode (hexDigit (high / 4096) :: hexDigit (high / 256) :: hexDigit (high / 16) :: hexDigit high ::
      '\\' :: 'u' :: hexDigit (low / 4096) :: hexDigit (low / 256) :: hexDigit (low / 16) :: hexDigit low ::
      rest) = some (Char.ofNat (0x10000 + (high - 0xd800) * 0x400 + (low - 0xdc00)), rest) := by
  have hscanHigh := scanHex_digits (n := high) (by omega)
  have hscanLow := scanHex_digits (n := low) (by omega)
  simp only [scanUnicode, hscanHigh, hscanLow, Option.bind_eq_bind, Option.bind_some, if_pos hhigh,
    if_pos hlow]

theorem toNat_lt (c : Char) : c.toNat < 0x110000 := by
  rcases c.valid with h | ⟨-, h⟩
  · exact h.trans (by decide)
  · exact h

/-- The code point of a character beyond 2^16 is split into two surrogates. -/
theorem scanUnicode_pair {c : Char} (hc : 0x10000 ≤ c.toNat) (rest : List Char) :
    ∃ cs, unicodeEscape (0xd800 + (c.toNat - 0x10000) / 0x400) ++
        unicodeEscape (0xdc00 + (c.toNat - 0x10000) % 0x400) ++ rest = '\\' :: 'u' :: cs ∧
      scanUnicode cs = some (c, rest) := by
  have hmax := toNat_lt c
  obtain ⟨high, hhigh⟩ : ∃ high, high = 0xd800 + (c.toNat - 0x10000) / 0x400 := ⟨_, rfl⟩
  obtain ⟨low, hlow⟩ : ∃ low, low = 0xdc00 + (c.toNat - 0x10000) % 0x400 := ⟨_, rfl⟩
  have hcode : 0x10000 + (high - 0xd800) * 0x400 + (low - 0xdc00) = c.toNat := by omega
  have hhighRange : 0xd800 ≤ high ∧ high ≤ 0xdbff := by omega
  have hlowRange : 0xdc00 ≤ low ∧ low ≤ 0xdfff := by omega
  have hscan := scanUnicode_surrogates hhighRange hlowRange rest
  rw [hcode, Char.ofNat_toNat] at hscan
  rw [← hhigh, ← hlow]
  exact ⟨_, by simp only [unicodeEscape, List.cons_append, List.nil_append], hscan⟩

theorem scanChars_cons {c d : Char} {cs rest : List Char} (hquote : d ≠ '"')
    (hscan : scanChar d cs = some (c, rest)) (fuel : ℕ) :
    scanChars (fuel + 1) (d :: cs) = (scanChars fuel rest).map fun (s, cs) => (c :: s, cs) := by
  rw [scanChars, if_neg hquote, hscan]
  simp only [Option.bind_eq_bind, Option.bind_some]
  cases scanChars fuel rest <;> simp

theorem scanChar_unicode {c : Char} {cs rest : List Char} (h : scanUnicode cs = some (c, rest)) :
    scanChar '\\' ('u' :: cs) = some (c, rest) := h

/-- The scanner takes an escaped character as one. -/
theorem scanChars_escapeChar (c : Char) (fuel : ℕ) (rest : List Char) :
    scanChars (fuel + 1) (escapeChar c ++ rest) =
      (scanChars fuel rest).map fun (s, cs) => (c :: s, cs) := by
  have hbackslash : '\\' ≠ '"' := by decide
  unfold escapeChar
  -- the characters that are escaped by one letter
  iterate 7
    split
    · rename_i hc
      exact scanChars_cons hbackslash (by rw [hc]; rfl) fuel
  split
  · rename_i hquote hslash _ _ _ _ _ hprintable
    have hcontrol : ¬c.toNat < 0x20 := not_lt.mpr hprintable.1
    rw [List.singleton_append]
    exact scanChars_cons hquote (by rw [scanChar, if_neg hslash, if_neg hcontrol]) fuel
  split
  · rename_i hbasic
    exact scanChars_cons hbackslash (scanChar_unicode (scanUnicode_basic hbasic rest)) fuel
  · rename_i hbasic
    obtain ⟨cs, hcs, hscan⟩ := scanUnicode_pair (not_lt.mp hbasic) rest
    rw [hcs]
    exact scanChars_cons hbackslash (scanChar_unicode hscan) fuel

theorem escapeChar_ne_nil (c : Char) : escapeChar c ≠ [] := by
  unfold escapeChar unicodeEscape
  repeat' split
  all_goals simp

theorem scanChars_flatMap (s : List Char) {fuel : ℕ} (hfuel : s.length < fuel) (rest : List Char) :
    scanChars fuel (s.flatMap escapeChar ++ '"' :: rest) = some (s, rest) := by
  induction s generalizing fuel with
  | nil =>
    obtain ⟨fuel, rfl⟩ := Nat.exists_eq_succ_of_ne_zero hfuel.ne'
    rfl
  | cons c s ih =>
    obtain ⟨fuel, rfl⟩ := Nat.exists_eq_succ_of_ne_zero (Nat.ne_zero_of_lt hfuel)
    rw [List.flatMap_cons, List.append_assoc, scanChars_escapeChar, ih (Nat.lt_of_succ_lt_succ hfuel)]
    rfl

theorem length_le_flatMap (s : List Char) : s.length ≤ (s.flatMap escapeChar).length := by
  induction s with
  | nil => exact le_rfl
  | cons c s ih =>
    have hc := List.length_pos_of_ne_nil (escapeChar_ne_nil c)
    rw [List.flatMap_cons, List.length_append, List.length_cons]
    omega

/-- The scanner undoes the writer of strings, behind the opening quote. -/
theorem scanString_writeString (s : String) (rest : List Char) :
    ∃ cs, writeString s ++ rest = '"' :: cs ∧ scanString cs = some (s, rest) := by
  refine ⟨s.toList.flatMap escapeChar ++ '"' :: rest, by simp [writeString], ?_⟩
  have hlength : s.toList.length < (s.toList.flatMap escapeChar ++ '"' :: rest).length + 1 := by
    have hle := length_le_flatMap s.toList
    rw [List.length_append]
    omega
  rw [scanString, scanChars_flatMap _ hlength]
  simp

/-! ## Numbers -/

/-- How a literal starts. -/
def Starts (c : Char) : Prop := c = '-' ∨ c.isDigit = true

theorem Starts.ne {c d : Char} (hc : Starts c) (hminus : d ≠ '-') (hdigit : d.isDigit = false) : c ≠ d := by
  intro hcd
  subst hcd
  rcases hc with hc | hc
  · exact hminus hc
  · exact Bool.false_ne_true (hdigit.symm.trans hc)

theorem write_eq_cons {l : Literal} (h : l.WellFormed) :
    ∃ c cs, l.write = c :: cs ∧ Starts c := by
  obtain ⟨d, ds, hint, -⟩ := h.int_cons
  have hd := h.int_lt d (hint ▸ List.mem_cons_self)
  unfold Literal.write
  rw [hint]
  cases l.negative with
  | true => exact ⟨'-', _, rfl, .inl rfl⟩
  | false => exact ⟨d.digitChar, _, rfl, .inr (isDigit_digitChar hd)⟩

/-- A text that starts like a literal is not taken for another value. -/
theorem parse_cons {c : Char} (hc : Starts c) (fuel : ℕ) (cs : List Char) :
    parse (fuel + 1) (c :: cs) = scanNumber (c :: cs) := by
  have hquote : c ≠ '"' := hc.ne (by decide) (by decide)
  have hbrace : c ≠ '{' := hc.ne (by decide) (by decide)
  have hbracket : c ≠ '[' := hc.ne (by decide) (by decide)
  have hn : c ≠ 'n' := hc.ne (by decide) (by decide)
  have ht : c ≠ 't' := hc.ne (by decide) (by decide)
  have hf : c ≠ 'f' := hc.ne (by decide) (by decide)
  simp [parse, hquote, hbrace, hbracket, hn, ht, hf]

theorem parse_literal {l : Literal} (h : l.WellFormed) (fuel : ℕ) (rest : List Char) :
    parse (fuel + 1) (l.write ++ rest) = scanNumber (l.write ++ rest) := by
  obtain ⟨c, cs, hwrite, hc⟩ := write_eq_cons h
  rw [hwrite]
  exact parse_cons hc fuel (cs ++ rest)

theorem parse_int (i : ℤ) (fuel : ℕ) {rest : List Char} (hrest : Literal.Stops rest) :
    parse (fuel + 1) (write (.int i) ++ rest) = some (.int i, rest) := by
  have hwf := Literal.ofInt_wellFormed i
  have hint : (Literal.ofInt i).isFloat = false := rfl
  rw [write, parse_literal hwf, scanNumber, hwf.scan_write hrest]
  simp [hint, Literal.intValue_ofInt]

theorem parse_float {x : ℚ} (hx : Double.IsDouble x) (fuel : ℕ) {rest : List Char}
    (hrest : Literal.Stops rest) : parse (fuel + 1) (write (.float x) ++ rest) = some (.float x, rest) := by
  have hwf := Double.repr_wellFormed hx
  rw [write, parse_literal hwf, scanNumber, hwf.scan_write hrest]
  simp [Double.repr_isFloat hx, Double.nearest_value_repr hx, hx.abs_lt]

/-! ## Values -/

mutual

/-- Every number with a fraction is a double. -/
def Doubles : Json → Prop
  | .float x => Double.IsDouble x
  | .arr vs => DoublesElements vs
  | .obj ms => DoublesMembers ms
  | .null => True
  | .bool _ => True
  | .int _ => True
  | .str _ => True

def DoublesElements : List Json → Prop
  | [] => True
  | v :: vs => Doubles v ∧ DoublesElements vs

def DoublesMembers : List (String × Json) → Prop
  | [] => True
  | (_, v) :: ms => Doubles v ∧ DoublesMembers ms

end

/-- What the writer puts behind an element ends a number. -/
theorem stops_writeElements (vs : List Json) (rest : List Char) :
    Literal.Stops (writeElements vs ++ rest) := by
  cases vs <;> exact Literal.stops_cons (by decide)

theorem stops_writeMembers (ms : List (String × Json)) (rest : List Char) :
    Literal.Stops (writeMembers ms ++ rest) := by
  cases ms <;> exact Literal.stops_cons (by decide)

theorem skipSpace_cons {c : Char} (hc : isSpace c = false) (cs : List Char) : skipSpace (c :: cs) = c :: cs := by
  simp [skipSpace, hc]

theorem skipSpace_space (cs : List Char) : skipSpace (' ' :: cs) = skipSpace cs := by
  simp [skipSpace, isSpace]

/-- A value starts neither with white space nor with a closing bracket. -/
theorem write_eq_start {v : Json} (hv : Doubles v) :
    ∃ c cs, write v = c :: cs ∧ isSpace c = false ∧ c ≠ ']' := by
  have hliteral : ∀ {l : Literal}, l.WellFormed → ∃ c cs, l.write = c :: cs ∧ isSpace c = false ∧ c ≠ ']' := by
    intro l hl
    obtain ⟨c, cs, hwrite, hc⟩ := write_eq_cons hl
    have hspace : c ≠ ' ' := hc.ne (by decide) (by decide)
    have htab : c ≠ '\t' := hc.ne (by decide) (by decide)
    have hnewline : c ≠ '\n' := hc.ne (by decide) (by decide)
    have hreturn : c ≠ '\r' := hc.ne (by decide) (by decide)
    exact ⟨c, cs, hwrite, by simp [isSpace, hspace, htab, hnewline, hreturn], hc.ne (by decide) (by decide)⟩
  cases v with
  | int i => exact hliteral (Literal.ofInt_wellFormed i)
  | float x => exact hliteral (Double.repr_wellFormed hv)
  | null => exact ⟨'n', _, rfl, by decide, by decide⟩
  | bool b => cases b <;> exact ⟨_, _, rfl, by decide, by decide⟩
  | str s => exact ⟨'"', _, rfl, by decide, by decide⟩
  | arr vs => cases vs <;> exact ⟨'[', _, rfl, by decide, by decide⟩
  | obj ms => cases ms <;> exact ⟨'{', _, rfl, by decide, by decide⟩

theorem skipSpace_write {v : Json} (hv : Doubles v) (rest : List Char) :
    skipSpace (write v ++ rest) = write v ++ rest := by
  obtain ⟨c, cs, hwrite, hspace, -⟩ := write_eq_start hv
  rw [hwrite]
  exact skipSpace_cons hspace (cs ++ rest)

theorem parse_bracket {c : Char} (hspace : isSpace c = false) (hbracket : c ≠ ']') (fuel : ℕ)
    (cs : List Char) :
    parse (fuel + 1) ('[' :: c :: cs) = (parseElements fuel (c :: cs)).map fun (vs, cs) => (.arr vs, cs) := by
  rw [parse, skipSpace_cons hspace]
  split
  · rename_i hcs
    exact absurd (List.head_eq_of_cons_eq hcs) hbracket
  · rfl

theorem parse_brace {c : Char} (hspace : isSpace c = false) (hbrace : c ≠ '}') (fuel : ℕ)
    (cs : List Char) :
    parse (fuel + 1) ('{' :: c :: cs) = (parseMembers fuel (c :: cs)).map fun (ms, cs) => (.obj ms, cs) := by
  rw [parse, skipSpace_cons hspace]
  split
  · rename_i hcs
    exact absurd (List.head_eq_of_cons_eq hcs) hbrace
  · rfl

/-- The parser undoes the writer of values of a bounded length, whatever text follows
that does not go on with a number. -/
def ParsesValues (fuel : ℕ) : Prop :=
  ∀ v, Doubles v → (write v).length ≤ fuel → ∀ rest, Literal.Stops rest →
    parse fuel (write v ++ rest) = some (v, rest)

def ParsesElements (fuel : ℕ) : Prop :=
  ∀ v vs, Doubles v → DoublesElements vs → (write v).length + (writeElements vs).length ≤ fuel → ∀ rest,
    parseElements fuel (write v ++ (writeElements vs ++ rest)) = some (v :: vs, rest)

def ParsesMembers (fuel : ℕ) : Prop :=
  ∀ k v ms, Doubles v → DoublesMembers ms → (write v).length + (writeMembers ms).length ≤ fuel → ∀ rest,
    parseMembers fuel (writeString k ++ (':' :: ' ' :: (write v ++ (writeMembers ms ++ rest)))) =
      some ((k, v) :: ms, rest)

section

variable {fuel : ℕ}

theorem parsesValues_succ (helements : ParsesElements fuel) (hmembers : ParsesMembers fuel) :
    ParsesValues (fuel + 1) := by
  intro v hv hfuel rest hrest
  cases v with
  | null => rfl
  | bool b => cases b <;> rfl
  | int i => exact parse_int i fuel hrest
  | float x => exact parse_float hv fuel hrest
  | str s =>
    obtain ⟨cs, hcs, hscan⟩ := scanString_writeString s rest
    rw [write, hcs, parse, hscan]
    rfl
  | arr vs =>
    cases vs with
    | nil => rfl
    | cons v vs =>
      obtain ⟨d, ds, hd, hspace, hbracket⟩ := write_eq_start hv.1
      simp only [write, List.length_cons, List.length_append] at hfuel
      have hparse := helements v vs hv.1 hv.2 (by omega) rest
      rw [write, List.cons_append, List.append_assoc]
      rw [hd, List.cons_append] at hparse ⊢
      rw [parse_bracket hspace hbracket, hparse]
      rfl
  | obj ms =>
    cases ms with
    | nil => rfl
    | cons m ms =>
      obtain ⟨k, v⟩ := m
      simp only [write, List.length_cons, List.length_append] at hfuel
      have hparse := hmembers k v ms hv.1 hv.2 (by omega) rest
      simp only [write, List.cons_append, List.append_assoc]
      rw [writeString, List.cons_append] at hparse ⊢
      rw [parse_brace (by decide) (by decide), hparse]
      rfl

theorem parsesElements_succ (hvalues : ParsesValues fuel) (helements : ParsesElements fuel) :
    ParsesElements (fuel + 1) := by
  intro v vs hv hvs hfuel rest
  have hpos : 0 < (writeElements vs).length := by cases vs <;> simp [writeElements]
  have hfirst := hvalues v hv (by omega) (writeElements vs ++ rest) (stops_writeElements vs rest)
  rw [parseElements, hfirst]
  cases vs with
  | nil => rfl
  | cons w ws =>
    simp only [writeElements, List.length_cons, List.length_append] at hfuel
    have htail := helements w ws hvs.1 hvs.2 (by omega) rest
    have hskip := skipSpace_write hvs.1 (writeElements ws ++ rest)
    simp only [Option.bind_eq_bind, Option.bind_some, writeElements, List.cons_append, List.append_assoc]
    rw [skipSpace_cons (by decide)]
    simp only [skipSpace_space, hskip, htail]
    rfl

theorem parsesMembers_succ (hvalues : ParsesValues fuel) (hmembers : ParsesMembers fuel) :
    ParsesMembers (fuel + 1) := by
  intro k v ms hv hms hfuel rest
  have hpos : 0 < (writeMembers ms).length := by cases ms <;> simp [writeMembers]
  have hvalue := hvalues v hv (by omega) (writeMembers ms ++ rest) (stops_writeMembers ms rest)
  have hskip := skipSpace_write hv (writeMembers ms ++ rest)
  obtain ⟨cs, hcs, hscan⟩ := scanString_writeString k (':' :: ' ' :: (write v ++ (writeMembers ms ++ rest)))
  rw [hcs, parseMembers, hscan]
  simp only [Option.bind_eq_bind, Option.bind_some]
  rw [skipSpace_cons (by decide)]
  simp only [skipSpace_space, hskip, hvalue, Option.bind_some]
  cases ms with
  | nil => rfl
  | cons m ms =>
    obtain ⟨k', w⟩ := m
    simp only [writeMembers, List.length_cons, List.length_append] at hfuel
    have htail := hmembers k' w ms hms.1 hms.2 (by omega) rest
    simp only [writeMembers, List.cons_append, List.append_assoc]
    rw [skipSpace_cons (by decide)]
    have hquote : skipSpace (writeString k' ++ (':' :: ' ' :: (write w ++ (writeMembers ms ++ rest)))) =
        writeString k' ++ (':' :: ' ' :: (write w ++ (writeMembers ms ++ rest))) :=
      skipSpace_cons (by decide) _
    simp only [skipSpace_space, hquote, htail]
    rfl

end

theorem parses (fuel : ℕ) : ParsesValues fuel ∧ ParsesElements fuel ∧ ParsesMembers fuel := by
  induction fuel with
  | zero =>
    refine ⟨?_, ?_, ?_⟩
    · intro v hv hfuel
      obtain ⟨c, cs, hwrite, -⟩ := write_eq_start hv
      simp [hwrite] at hfuel
    · intro v vs hv hvs hfuel
      cases vs <;> simp [writeElements] at hfuel
    · intro k v ms hv hms hfuel
      cases ms <;> simp [writeMembers] at hfuel
  | succ fuel ih =>
    obtain ⟨hvalues, helements, hmembers⟩ := ih
    exact ⟨parsesValues_succ helements hmembers, parsesElements_succ hvalues helements,
      parsesMembers_succ hvalues hmembers⟩

/-! ## Sorted keys -/

theorem doublesMembers_iff (ms : List (String × Json)) : DoublesMembers ms ↔ ∀ m ∈ ms, Doubles m.2 := by
  induction ms with
  | nil => simp [DoublesMembers]
  | cons m ms ih => simp [DoublesMembers, ih]

mutual

theorem doubles_sortKeys : ∀ {v : Json}, Doubles v → Doubles (sortKeys v)
  | .null, _ => trivial
  | .bool _, _ => trivial
  | .int _, _ => trivial
  | .float _, h => h
  | .str _, _ => trivial
  | .arr _, h => doubles_sortElements h
  | .obj _, h => by
    rw [sortKeys, Doubles, doublesMembers_iff]
    intro m hm
    rw [List.mem_mergeSort] at hm
    exact (doublesMembers_iff _).mp (doubles_sortMembers h) m hm

theorem doubles_sortElements : ∀ {vs : List Json}, DoublesElements vs → DoublesElements (sortElements vs)
  | [], _ => trivial
  | _ :: _, h => ⟨doubles_sortKeys h.1, doubles_sortElements h.2⟩

theorem doubles_sortMembers : ∀ {ms : List (String × Json)}, DoublesMembers ms → DoublesMembers (sortMembers ms)
  | [], _ => trivial
  | _ :: _, h => ⟨doubles_sortKeys h.1, doubles_sortMembers h.2⟩

end

/-- The text of a value is read back as the value, with the keys of its objects sorted. -/
theorem loads_dumps {v : Json} (hv : Doubles v) : loads (dumps v) = some (sortKeys v) := by
  have hsorted := doubles_sortKeys hv
  have hskip := skipSpace_write hsorted []
  have hparse := (parses ((write (sortKeys v)).length + 1)).1 (sortKeys v) hsorted (by omega) [] Literal.stops_nil
  rw [List.append_nil] at hskip hparse
  have hnil : skipSpace [] = [] := rfl
  simp [loads, dumps, hskip, hparse, hnil]

example : dumps (.arr [.str "é\n", .int (-1), .null]) = "[\"\\u00e9\\n\", -1, null]" := by decide +kernel

theorem dumps_obj (ms : List (String × Json)) : ∃ cs, (dumps (.obj ms)).toList = '{' :: cs := by
  have hwrite : ∀ ms, ∃ cs, write (.obj ms) = '{' :: cs := by
    intro ms
    cases ms <;> exact ⟨_, rfl⟩
  rw [dumps, String.toList_ofList]
  exact hwrite _

/-- The value under a key. Of a key that stands twice the last value counts. -/
def get? (ms : List (String × Json)) (k : String) : Option Json := ms.reverse.lookup k

theorem get?_of_mem {ms : List (String × Json)} (hnd : (ms.map Prod.fst).Nodup) {k : String} {v : Json}
    (hm : (k, v) ∈ ms) : get? ms k = some v := by
  have hreverse : (ms.reverse.map Prod.fst).Nodup := by rwa [List.map_reverse, List.nodup_reverse]
  exact OrderedDict.lookup_of_mem hreverse (List.mem_reverse.mpr hm)

theorem sortMembers_eq_map (ms : List (String × Json)) : sortMembers ms = ms.map fun m => (m.1, sortKeys m.2) := by
  induction ms with
  | nil => rfl
  | cons m ms ih => rw [sortMembers, ih, List.map_cons]

/-- Sorting keeps what stands under each key. -/
theorem get?_sortMembers {ms : List (String × Json)} (hnd : (ms.map Prod.fst).Nodup) {k : String} {v : Json}
    (hm : (k, v) ∈ ms) : get? ((sortMembers ms).mergeSort fun a b => a.1 ≤ b.1) k = some (sortKeys v) := by
  apply get?_of_mem
  · have hperm := (List.mergeSort_perm (sortMembers ms) fun a b => a.1 ≤ b.1).map Prod.fst
    rw [hperm.nodup_iff, sortMembers_eq_map, List.map_map]
    exact hnd
  · rw [List.mem_mergeSort, sortMembers_eq_map]
    exact List.mem_map_of_mem (f := fun m : String × Json => (m.1, sortKeys m.2)) hm

/-! ## Printable text -/

def Printable (c : Char) : Prop := ' ' ≤ c ∧ c ≤ '~'

instance Printable.decidable (c : Char) : Decidable (Printable c) := inferInstanceAs (Decidable (_ ∧ _))

theorem printable_of_all {cs : List Char} (h : cs.all fun c => Printable c) : ∀ c ∈ cs, Printable c := by
  intro c hc
  simpa using List.all_eq_true.mp h c hc

theorem printable_digitChar {d : ℕ} (hd : d < 16) : Printable d.digitChar := by
  have hall : ∀ d < 16, Printable d.digitChar := by decide
  exact hall d hd

theorem printable_hexDigit (n : ℕ) : Printable (hexDigit n) := printable_digitChar (Nat.mod_lt n (by decide))

theorem printable_unicodeEscape (n : ℕ) : ∀ c ∈ unicodeEscape n, Printable c := by
  have hdigit := printable_hexDigit
  simp only [unicodeEscape, List.forall_mem_cons]
  exact ⟨by decide, by decide, hdigit _, hdigit _, hdigit _, hdigit _, by simp⟩

theorem printable_escapeChar (c : Char) : ∀ d ∈ escapeChar c, Printable d := by
  unfold escapeChar
  iterate 7
    split
    · exact printable_of_all (by decide)
  split
  · rename_i hprintable
    simpa [Printable] using hprintable
  split
  · exact printable_unicodeEscape _
  · intro d hd
    rcases List.mem_append.mp hd with hd | hd
    · exact printable_unicodeEscape _ d hd
    · exact printable_unicodeEscape _ d hd

theorem printable_writeString (s : String) : ∀ c ∈ writeString s, Printable c := by
  intro c hc
  simp only [writeString, List.mem_cons, List.mem_append, List.mem_flatMap, List.not_mem_nil, or_false] at hc
  rcases hc with rfl | ⟨d, -, hd⟩ | rfl
  · decide
  · exact printable_escapeChar d c hd
  · decide

theorem printable_digits {ds : List ℕ} (hds : ∀ d ∈ ds, d < 10) : ∀ c ∈ ds.map Nat.digitChar, Printable c := by
  intro c hc
  obtain ⟨d, hd, rfl⟩ := List.mem_map.mp hc
  exact printable_digitChar ((hds d hd).trans (by decide))

theorem printable_writeExp (e : ℤ) : ∀ c ∈ Literal.writeExp e, Printable c := by
  have hdigits : ∀ d ∈ (if e.natAbs < 10 then [0] else []) ++ natDigits e.natAbs, d < 10 := by
    intro d hd
    rcases List.mem_append.mp hd with hd | hd
    · split at hd
      · simp_all
      · simp at hd
    · exact lt_of_mem_natDigits hd
  simp only [Literal.writeExp, List.forall_mem_cons]
  refine ⟨by decide, ?_, printable_digits hdigits⟩
  split <;> decide

theorem printable_literal {l : Literal} (h : l.WellFormed) : ∀ c ∈ l.write, Printable c := by
  intro c hc
  simp only [Literal.write, List.mem_append] at hc
  rcases hc with ((hc | hc) | hc) | hc
  · split at hc
    · rw [List.mem_singleton.mp hc]
      decide
    · simp at hc
  · exact printable_digits h.int_lt c hc
  · split at hc
    · simp at hc
    · rcases List.mem_cons.mp hc with rfl | hc
      · decide
      · exact printable_digits h.frac_lt c hc
  · split at hc
    · simp at hc
    · exact printable_writeExp _ c hc

mutual

/-- The writer leaves nothing outside printable ASCII. -/
theorem printable_write : ∀ {v : Json}, Doubles v → ∀ c ∈ write v, Printable c
  | .null, _ => printable_of_all (by decide)
  | .bool true, _ => printable_of_all (by decide)
  | .bool false, _ => printable_of_all (by decide)
  | .int i, _ => printable_literal (Literal.ofInt_wellFormed i)
  | .float _, h => printable_literal (Double.repr_wellFormed h)
  | .str s, _ => printable_writeString s
  | .arr [], _ => printable_of_all (by decide)
  | .arr (_ :: _), h => by
    rw [write, List.forall_mem_cons, List.forall_mem_append]
    exact ⟨by decide, printable_write h.1, printable_writeElements h.2⟩
  | .obj [], _ => printable_of_all (by decide)
  | .obj ((k, _) :: _), h => by
    simp only [write, List.forall_mem_cons, List.forall_mem_append]
    exact ⟨by decide, printable_writeString k, by decide, by decide, printable_write h.1,
      printable_writeMembers h.2⟩

theorem printable_writeElements : ∀ {vs : List Json}, DoublesElements vs → ∀ c ∈ writeElements vs, Printable c
  | [], _ => printable_of_all (by decide)
  | _ :: _, h => by
    simp only [writeElements, List.forall_mem_cons, List.forall_mem_append]
    exact ⟨by decide, by decide, printable_write h.1, printable_writeElements h.2⟩

theorem printable_writeMembers : ∀ {ms : List (String × Json)}, DoublesMembers ms → ∀ c ∈ writeMembers ms, Printable c
  | [], _ => printable_of_all (by decide)
  | (k, _) :: _, h => by
    simp only [writeMembers, List.forall_mem_cons, List.forall_mem_append]
    exact ⟨by decide, by decide, printable_writeString k, by decide, by decide, printable_write h.1,
      printable_writeMembers h.2⟩

end

theorem printable_dumps {v : Json} (hv : Doubles v) : ∀ c ∈ (dumps v).toList, Printable c := by
  rw [dumps, String.toList_ofList]
  exact printable_write (doubles_sortKeys hv)

end Json
