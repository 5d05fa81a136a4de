import LlmGate.Shared.Json
import Mathlib.Data.Char
import Mathlib.Data.List.Lex

set_option autoImplicit false

namespace LlmGate

namespace Json

-- What a member adds to the map of the members behind it: `BTreeMap::insert` replaces the value of
-- an equal key.
def insertField (key : Str) (value : Json) : List (Str × Json) → List (Str × Json)
  | [] => [(key, value)]
  | (other, kept) :: rest =>
    if key = other then (other, kept) :: rest
    else if key < other then (key, value) :: (other, kept) :: rest
    else (other, kept) :: insertField key value rest

/-- A tree as serde_json keeps it: an object is a `BTreeMap`. -/
def canonical : Json → Json
  | .arr items => .arr (canonicalItems items)
  | .obj fields => .obj (canonicalFields fields)
  | .null => .null
  | .bool flag => .bool flag
  | .num n => .num n
  | .str text => .str text
where
  canonicalItems : List Json → List Json
    | [] => []
    | item :: rest => canonical item :: canonicalItems rest
  canonicalFields : List (Str × Json) → List (Str × Json)
    | [] => []
    | (key, value) :: rest => insertField key (canonical value) (canonicalFields rest)

theorem lookup_field {V : Type} (key wanted : Str) (value : V) (rest : List (Str × V)) :
    ((key, value) :: rest).lookup wanted =
      if wanted = key then some value else rest.lookup wanted := by
  rw [List.lookup_cons]
  by_cases same : wanted = key
  · rw [if_pos same, beq_iff_eq.mpr same]
  · rw [if_neg same, beq_eq_false_iff_ne.mpr same]

theorem lookupLast_none {V : Type} {fields : List (Str × V)} {wanted : Str}
    (absent : wanted ∉ fields.map Prod.fst) : lookupLast fields wanted = none := by
  induction fields with
  | nil => rfl
  | cons field rest ih =>
    obtain ⟨other, later⟩ := not_or.mp (mt List.mem_cons.mpr absent)
    rw [lookupLast, ih later, if_neg other]
    rfl

theorem lookupLast_append {V : Type} (first second : List (Str × V)) (wanted : Str) :
    lookupLast (first ++ second) wanted =
      (lookupLast second wanted).or (lookupLast first wanted) := by
  induction first with
  | nil => exact Option.or_none.symm
  | cons field rest ih =>
    rw [List.cons_append, lookupLast, lookupLast, ih, Option.or_assoc]

theorem lookupLast_insertField (key wanted : Str) (value : Json) (fields : List (Str × Json)) :
    lookupLast (insertField key value fields) wanted =
      (lookupLast fields wanted).or (if wanted = key then some value else none) := by
  induction fields with
  | nil => rfl
  | cons field rest ih =>
    obtain ⟨other, kept⟩ := field
    unfold insertField
    split
    next equal =>
      subst equal
      unfold lookupLast
      by_cases same : wanted = key
      · rw [if_pos same, if_pos same, Option.or_assoc]
        rfl
      · rw [if_neg same, if_neg same, Option.or_assoc]
        rfl
    next different =>
      split
      next => rfl
      next =>
        unfold lookupLast
        rw [ih, Option.or_assoc, Option.or_assoc]
        by_cases same : wanted = other
        · rw [if_pos same, if_neg (same ▸ Ne.symm different)]
          rfl
        · rw [if_neg same, Option.or_none, Option.none_or]

theorem lookupLast_canonicalFields (fields : List (Str × Json)) (wanted : Str) :
    lookupLast (canonical.canonicalFields fields) wanted =
      (lookupLast fields wanted).map canonical := by
  induction fields with
  | nil => rfl
  | cons field rest ih =>
    obtain ⟨key, value⟩ := field
    rw [canonical.canonicalFields, lookupLast_insertField, lookupLast, ih]
    cases lookupLast rest wanted with
    | some later => rfl
    | none =>
      rw [Option.map_none, Option.none_or, Option.none_or]
      split <;> rfl

theorem keys_insertField (key other : Str) (value : Json) (fields : List (Str × Json)) :
    other ∈ (insertField key value fields).map Prod.fst ↔
      other = key ∨ other ∈ fields.map Prod.fst := by
  induction fields with
  | nil => simp [insertField]
  | cons field rest ih =>
    obtain ⟨first, kept⟩ := field
    unfold insertField
    split
    next equal => simp [equal]
    next =>
      split
      next => simp
      next =>
        rw [List.map_cons, List.mem_cons, ih, List.map_cons, List.mem_cons]
        exact or_left_comm

theorem keys_canonicalFields (fields : List (Str × Json)) (key : Str) :
    key ∈ (canonical.canonicalFields fields).map Prod.fst ↔ key ∈ fields.map Prod.fst := by
  induction fields with
  | nil => rfl
  | cons field rest ih =>
    rw [canonical.canonicalFields, keys_insertField, ih, List.map_cons, List.mem_cons]

theorem sorted_insertField (key : Str) (value : Json) {fields : List (Str × Json)}
    (sorted : (fields.map Prod.fst).Pairwise (· < ·)) :
    ((insertField key value fields).map Prod.fst).Pairwise (· < ·) := by
  induction fields with
  | nil => exact List.pairwise_singleton _ _
  | cons field rest ih =>
    obtain ⟨other, kept⟩ := field
    have behind := List.pairwise_cons.mp sorted
    unfold insertField
    split
    next => exact sorted
    next different =>
      split
      next less =>
        refine List.pairwise_cons.mpr ⟨fun later member => ?_, sorted⟩
        rcases List.mem_cons.mp member with rfl | member
        · exact less
        · exact less.trans (behind.1 later member)
      next greater =>
        have above : other < key := lt_of_le_of_ne (not_lt.mp greater) (Ne.symm different)
        refine List.pairwise_cons.mpr ⟨fun later member => ?_, ih behind.2⟩
        rcases (keys_insertField _ _ _ _).mp member with rfl | member
        · exact above
        · exact behind.1 later member

theorem sorted_canonicalFields (fields : List (Str × Json)) :
    ((canonical.canonicalFields fields).map Prod.fst).Pairwise (· < ·) := by
  induction fields with
  | nil => exact List.Pairwise.nil
  | cons field rest ih => exact sorted_insertField _ _ ih

theorem lookupLast_sorted {fields : List (Str × Json)}
    (sorted : (fields.map Prod.fst).Pairwise (· < ·)) {key : Str} {value : Json}
    (member : (key, value) ∈ fields) : lookupLast fields key = some value := by
  induction fields with
  | nil => exact absurd member List.not_mem_nil
  | cons field rest ih =>
    obtain ⟨before, behind⟩ := List.pairwise_cons.mp sorted
    rcases List.mem_cons.mp member with rfl | member
    · have alone : lookupLast rest key = none :=
        lookupLast_none fun inside => lt_irrefl _ (before key inside)
      rw [lookupLast, alone, if_pos rfl]
      rfl
    · rw [lookupLast, ih behind member]
      rfl

@[simp] theorem canonicalItems_eq (items : List Json) :
    canonical.canonicalItems items = items.map canonical := by
  induction items with
  | nil => rfl
  | cons item rest ih => rw [canonical.canonicalItems, ih, List.map_cons]

theorem filterMap_canonical {α : Type} {write : α → Json} {read : Json → Option α}
    {items : List α} (each : ∀ item ∈ items, read (write item).canonical = some item) :
    ((items.map write).map canonical).filterMap read = items := by
  rw [List.map_map, List.filterMap_map]
  have same : ∀ item ∈ items, (read ∘ canonical ∘ write) item = some item := each
  rw [List.filterMap_congr same, List.filterMap_some]

theorem filterMap_asStr (texts : List Str) :
    ((texts.map str).map canonical).filterMap asStr = texts :=
  filterMap_canonical fun _ _ => rfl

@[simp] theorem get_canonical (value : Json) (key : Str) :
    value.canonical.get key = (value.get key).map canonical := by
  cases value with
  | obj fields => exact lookupLast_canonicalFields fields key
  | _ => rfl

@[simp] theorem asStr_canonical (value : Json) : value.canonical.asStr = value.asStr := by
  cases value <;> rfl

@[simp] theorem asBool_canonical (value : Json) : value.canonical.asBool = value.asBool := by
  cases value <;> rfl

@[simp] theorem asU64_canonical (value : Json) : value.canonical.asU64 = value.asU64 := by
  cases value <;> rfl

@[simp] theorem asArray_canonical (value : Json) :
    value.canonical.asArray = value.asArray.map (List.map canonical) := by
  cases value with
  | arr items => exact congrArg some (canonicalItems_eq items)
  | _ => rfl

@[simp] theorem asObject_canonical (value : Json) :
    value.canonical.asObject = value.asObject.map canonical.canonicalFields := by
  cases value <;> rfl

@[simp] theorem getStr_canonical (value : Json) (key : Str) :
    value.canonical.getStr key = value.getStr key := by
  cases found : value.get key <;> simp [getStr, found]

@[simp] theorem getBool_canonical (value : Json) (key : Str) :
    value.canonical.getBool key = value.getBool key := by
  cases found : value.get key <;> simp [getBool, found]

@[simp] theorem getU64_canonical (value : Json) (key : Str) :
    value.canonical.getU64 key = value.getU64 key := by
  cases found : value.get key <;> simp [getU64, found]

@[simp] theorem getArray_canonical (value : Json) (key : Str) :
    value.canonical.getArray key = (value.getArray key).map (List.map canonical) := by
  cases found : value.get key <;> simp [getArray, found]

-- What a `serde_json::Value` can be.
def Canonical (value : Json) : Prop := value.canonical = value

-- `Value::as_f64`, by the bits.
def asF64 : Json → Option UInt64
  | .num (.float bits) => some bits
  | .num (.uint n) => some (Float.ofNat n).toBits
  | .num (.negInt magnitude) => some (-Float.ofNat magnitude).toBits
  | _ => none

def getF64 (value : Json) (key : Str) : Option UInt64 := (value.get key).bind asF64

@[simp] theorem asF64_canonical (value : Json) : value.canonical.asF64 = value.asF64 := by
  cases value <;> rfl

@[simp] theorem getF64_canonical (value : Json) (key : Str) :
    value.canonical.getF64 key = value.getF64 key := by
  cases found : value.get key <;> simp [getF64, found]

def finiteBits (bits : UInt64) : Bool := (bits >>> 52) &&& 0x7ff ≠ 0x7ff

-- `json!` of an `f64`.
def ofF64 (bits : UInt64) : Json := if finiteBits bits then .num (.float bits) else .null

end Json

/-- `serde_json::from_str`, with the text of its error, and `serde_json::to_string`. -/
structure SerdeJson where
  fromStr : Str → Except Str Json
  toStr : Json → Str

-- A value that is written reads back.
def SerdeJson.Reads (serde : SerdeJson) (value : Json) : Prop :=
  serde.fromStr (serde.toStr value) = .ok value.canonical

def SerdeJson.parse (serde : SerdeJson) (text : Str) : Option Json :=
  (serde.fromStr text).toOption

theorem SerdeJson.Reads.parse {serde : SerdeJson} {value : Json} (reads : serde.Reads value) :
    serde.parse (serde.toStr value) = some value.canonical := by
  rw [SerdeJson.parse, reads]
  rfl

-- The text of a value without floats.
def Json.toText (value : Json) : Str := value.canonical.render fun _ => []

/-- A `serde_json` that only reads what it writes for the recorded values, none with a float. -/
def SerdeJson.recorded (values : List Json) : SerdeJson where
  fromStr text :=
    match values.find? fun value => value.toText = text with
    | some value => .ok value.canonical
    | none => .error "expected value at line 1 column 1"
  toStr := Json.toText

theorem find?_distinct {α β : Type} [DecidableEq β] {key : α → β} {items : List α}
    (distinct : items.Pairwise fun first second => key first ≠ key second) {item : α}
    (member : item ∈ items) : (items.find? fun other => key other = key item) = some item := by
  obtain ⟨before, after, rfl⟩ := List.append_of_mem member
  have earlier : ∀ other ∈ before, key other ≠ key item := fun other inside =>
    (List.pairwise_append.mp distinct).2.2 other inside item List.mem_cons_self
  have skipped : (before.find? fun other => key other = key item) = none := by simpa using earlier
  simp [List.find?_append, skipped]

theorem SerdeJson.recorded_reads (values : List Json)
    (distinct : values.Pairwise fun first second => first.toText ≠ second.toText) :
    ∀ value ∈ values, (SerdeJson.recorded values).Reads value := by
  intro value member
  have found := find?_distinct distinct member
  simp [SerdeJson.Reads, SerdeJson.recorded, found]

theorem SerdeJson.recorded_parses (values : List Json)
    (distinct : values.Pairwise fun first second => first.toText ≠ second.toText) :
    (values.map Json.toText).filterMap (SerdeJson.recorded values).parse =
      values.map Json.canonical := by
  have reads := SerdeJson.recorded_reads values distinct
  rw [List.filterMap_map, ← List.filterMap_eq_map]
  exact List.filterMap_congr fun value member => (reads value member).parse

end LlmGate
