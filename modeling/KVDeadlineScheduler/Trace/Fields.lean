-- SUMMARY: Fields of a serialised record: the string enumerations with their values, access by key, and the conversions of the fields that are read.
import KVDeadlineScheduler.Library.JsonRoundTrip
import KVDeadlineScheduler.Schema

/-!
# Fields

A record is written as a JSON object and read from one. Each field that is read
is converted to its type first. The conversions take every value that JSON has,
apart from numbers given as strings and the text of a list or an object.
-/

namespace KVMemoryIntent

/-- What ends the reading of a trace early. -/
inductive ReadFailure where
  | unicodeDecodeError
  | jsonDecodeError
  | keyError (key : String)
  | typeError (message : String)
  | overflowError (message : String)
  /-- `ValueError`: the value is not one of the enumeration. -/
  | notAMember (value enumeration : String)
  /-- A constructor refused the fields. -/
  | refused (failure : Failure)
  /-- A conversion outside the model. -/
  | unmodelled
  deriving DecidableEq, Repr

/-! ## String enumerations -/

/-- A `StrEnum`: its members, and the values that stand for them in texts. -/
structure StrEnum (α : Type) where
  name : String
  members : List α
  value : α → String
  mem_members : ∀ a, a ∈ members
  value_injective : Function.Injective value

namespace StrEnum

variable {α : Type} (E : StrEnum α)

/-- The member of a value: the call of the enumeration on it. -/
def ofValue (value : String) : Except ReadFailure α :=
  match E.members.find? fun a => E.value a = value with
  | some a => .ok a
  | none => .error (.notAMember value E.name)

theorem ofValue_value (a : α) : E.ofValue (E.value a) = .ok a := by
  have hfound : (E.members.find? fun b => E.value b = E.value a).isSome := by
    rw [List.find?_isSome]
    exact ⟨a, E.mem_members a, by simp⟩
  obtain ⟨b, hb⟩ := Option.isSome_iff_exists.mp hfound
  have hvalue : E.value b = E.value a := by simpa using List.find?_some hb
  rw [ofValue, hb, E.value_injective hvalue]

end StrEnum

def ObjectType.value : ObjectType → String
  | .kvCache => "KV_CACHE"
  | .weight => "WEIGHT"
  | .activation => "ACTIVATION"
  | .scratch => "SCRATCH"

def Tier.value : Tier → String
  | .hbm => "HBM"
  | .dram => "DRAM"
  | .cxl => "CXL"
  | .nvme => "NVME"

def EventType.value : EventType → String
  | .allocated => "ALLOCATED"
  | .accessed => "ACCESSED"
  | .committed => "COMMITTED"
  | .markedDecodeCritical => "MARKED_DECODE_CRITICAL"
  | .markedCold => "MARKED_COLD"
  | .spilled => "SPILLED"
  | .prefetched => "PREFETCHED"
  | .miss => "MISS"
  | .evicted => "EVICTED"
  | .freed => "FREED"

def ObjectType.members : List ObjectType := [.kvCache, .weight, .activation, .scratch]

theorem ObjectType.mem_members (a : ObjectType) : a ∈ ObjectType.members := by cases a <;> decide

theorem ObjectType.value_injective : Function.Injective ObjectType.value := by
  intro a b h
  cases a <;> cases b <;> first | rfl | exact absurd h (by decide)

def ObjectType.strEnum : StrEnum ObjectType where
  name := "ObjectType"
  members := ObjectType.members
  value := ObjectType.value
  mem_members := ObjectType.mem_members
  value_injective := ObjectType.value_injective

def Phase.members : List Phase := [.prefill, .decode, .verify, .rollback, .done, .idle]

theorem Phase.mem_members (a : Phase) : a ∈ Phase.members := by cases a <;> decide

theorem Phase.value_injective : Function.Injective Phase.value := by
  intro a b h
  cases a <;> cases b <;> first | rfl | exact absurd h (by decide)

def Phase.strEnum : StrEnum Phase where
  name := "Phase"
  members := Phase.members
  value := Phase.value
  mem_members := Phase.mem_members
  value_injective := Phase.value_injective

def Priority.members : List Priority := [.decodeCritical, .hot, .warm, .cold]

theorem Priority.mem_members (a : Priority) : a ∈ Priority.members := by cases a <;> decide

theorem Priority.value_injective : Function.Injective Priority.value := by
  intro a b h
  cases a <;> cases b <;> first | rfl | exact absurd h (by decide)

def Priority.strEnum : StrEnum Priority where
  name := "Priority"
  members := Priority.members
  value := Priority.value
  mem_members := Priority.mem_members
  value_injective := Priority.value_injective

def Tier.members : List Tier := [.hbm, .dram, .cxl, .nvme]

theorem Tier.mem_members (a : Tier) : a ∈ Tier.members := by cases a <;> decide

theorem Tier.value_injective : Function.Injective Tier.value := by
  intro a b h
  cases a <;> cases b <;> first | rfl | exact absurd h (by decide)

def Tier.strEnum : StrEnum Tier where
  name := "Tier"
  members := Tier.members
  value := Tier.value
  mem_members := Tier.mem_members
  value_injective := Tier.value_injective

def EventType.members : List EventType :=
  [.allocated, .accessed, .committed, .markedDecodeCritical, .markedCold, .spilled,
    .prefetched, .miss, .evicted, .freed]

theorem EventType.mem_members (a : EventType) : a ∈ EventType.members := by cases a <;> decide

theorem EventType.value_injective : Function.Injective EventType.value := by
  intro a b h
  cases a <;> cases b <;> first | rfl | exact absurd h (by decide)

def EventType.strEnum : StrEnum EventType where
  name := "EventType"
  members := EventType.members
  value := EventType.value
  mem_members := EventType.mem_members
  value_injective := EventType.value_injective

namespace Fields

/-! ## Access by key -/

/-- `data[key]`. -/
def item (data : List (String × Json)) (key : String) : Except ReadFailure Json :=
  match Json.get? data key with
  | some v => .ok v
  | none => .error (.keyError key)

/-- `data.get(key, default)`. -/
def itemD (data : List (String × Json)) (key : String) (default : Json) : Json :=
  (Json.get? data key).getD default

/-- `data.get(key)`, where a null stands for a missing value as well. -/
def given (data : List (String × Json)) (key : String) : Option Json :=
  match Json.get? data key with
  | some .null => none
  | v => v

/-! ## Conversions -/

/-- The name of the type that a JSON value is parsed to. -/
def typeName : Json → String
  | .null => "NoneType"
  | .bool _ => "bool"
  | .int _ => "int"
  | .float _ => "float"
  | .str _ => "str"
  | .arr _ => "list"
  | .obj _ => "dict"

def str : Json → Except ReadFailure String
  | .str s => .ok s
  | .null => .ok "None"
  | .bool b => .ok (if b then "True" else "False")
  | .int i => .ok (String.ofList (Decimal.Literal.ofInt i).write)
  | .float x => .ok (String.ofList (Double.repr x).write)
  | .arr _ => .error .unmodelled
  | .obj _ => .error .unmodelled

def int : Json → Except ReadFailure ℤ
  | .int i => .ok i
  | .bool b => .ok (if b then 1 else 0)
  | .float x => .ok (x.num.tdiv x.den)
  | .str _ => .error .unmodelled
  | v => .error (.typeError
      ("int() argument must be a string, a bytes-like object or a real number, not '" ++ typeName v ++ "'"))

def float : Json → Except ReadFailure ℚ
  | .float x => .ok x
  | .int i =>
    if |Double.nearest i| < 2 ^ 1024 then
      .ok (Double.nearest i)
    else
      .error (.overflowError "int too large to convert to float")
  | .bool b => .ok (if b then 1 else 0)
  | .str _ => .error .unmodelled
  | v => .error (.typeError
      ("float() argument must be a string or a real number, not '" ++ typeName v ++ "'"))

/-- The truth of a value. -/
def bool : Json → Bool
  | .null => false
  | .bool b => b
  | .int i => i ≠ 0
  | .float x => x ≠ 0
  | .str s => s ≠ ""
  | .arr vs => vs.length ≠ 0
  | .obj ms => ms.length ≠ 0

/-- The values that a loop over a value meets. -/
def elements : Json → Except ReadFailure (List Json)
  | .arr vs => .ok vs
  | .obj ms => .ok (ms.map fun m => .str m.1)
  | .str s => .ok (s.toList.map fun c => .str (String.ofList [c]))
  | v => .error (.typeError ("'" ++ typeName v ++ "' object is not iterable"))

/-- `dict(value)`. -/
def dict : Json → Except ReadFailure (List (String × Json))
  | .obj ms => .ok ms
  | .arr [] => .ok []
  | .str "" => .ok []
  | .arr _ => .error .unmodelled
  | .str _ => .error .unmodelled
  | v => .error (.typeError ("'" ++ typeName v ++ "' object is not iterable"))

/-- The members of a value that is asked for one of them by its key. -/
def members : Json → Except ReadFailure (List (String × Json))
  | .obj ms => .ok ms
  | .arr _ => .error (.typeError "list indices must be integers or slices, not str")
  | .str _ => .error (.typeError "string indices must be integers, not 'str'")
  | v => .error (.typeError ("'" ++ typeName v ++ "' object is not subscriptable"))

/-- A conversion of a value that may be missing. -/
def optional {α : Type} (convert : Json → Except ReadFailure α) :
    Option Json → Except ReadFailure (Option α)
  | none => .ok none
  | some v => (convert v).map some

/-- A member of an enumeration, from the text of a value. -/
def read {α : Type} (E : StrEnum α) (v : Json) : Except ReadFailure α := do
  E.ofValue (← str v)

/-! ## Reading what was written -/

theorem ok_bind {α β : Type} (a : α) (f : α → Except ReadFailure β) : (Except.ok a >>= f) = f a := rfl

theorem read_value {α : Type} (E : StrEnum α) (a : α) : read E (.str (E.value a)) = .ok a := E.ofValue_value a

theorem mapM_read {α : Type} (E : StrEnum α) (as : List α) :
    (as.map fun a => Json.str (E.value a)).mapM (read E) = .ok as := by
  induction as with
  | nil => rfl
  | cons a as ih =>
    rw [List.map_cons, List.mapM_cons, read_value, ih]
    rfl

/-- How an optional field is written. -/
def orNull {α : Type} (toJson : α → Json) : Option α → Json
  | none => .null
  | some a => toJson a

section

variable {data : List (String × Json)} {key : String} {v : Json}

theorem item_of_get? (h : Json.get? data key = some v) : item data key = .ok v := by
  rw [item, h]

theorem itemD_of_get? (h : Json.get? data key = some v) (default : Json) : itemD data key default = v := by
  rw [itemD, h]
  rfl

/-- An optional field is read back, whatever its conversion, when no value is written as null. -/
theorem optional_given {α : Type} {convert : Json → Except ReadFailure α} {toJson : α → Json}
    (hconvert : ∀ a, convert (toJson a) = .ok a) (hnull : ∀ a, toJson a ≠ .null) {a : Option α}
    (h : Json.get? data key = some (orNull toJson a)) : optional convert (given data key) = .ok a := by
  cases a with
  | none =>
    rw [given, h]
    rfl
  | some a =>
    have hgiven : given data key = some (toJson a) := by
      rw [given, h, orNull]
      split
      · rename_i hv
        exact absurd (Option.some.inj hv) (hnull a)
      · rfl
    rw [hgiven, optional, hconvert]
    rfl

theorem optional_int {i : Option ℤ} (h : Json.get? data key = some (orNull .int i)) :
    optional int (given data key) = .ok i := by
  have hconvert : ∀ j, int (.int j) = .ok j := fun _ => rfl
  have hnull : ∀ j, Json.int j ≠ .null := fun _ => nofun
  exact optional_given hconvert hnull h

theorem optional_str {s : Option String} (h : Json.get? data key = some (orNull .str s)) :
    optional str (given data key) = .ok s := by
  have hconvert : ∀ t, str (.str t) = .ok t := fun _ => rfl
  have hnull : ∀ t, Json.str t ≠ .null := fun _ => nofun
  exact optional_given hconvert hnull h

end

end Fields

end KVMemoryIntent
