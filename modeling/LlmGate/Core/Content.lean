import LlmGate.Core.Neutral
import LlmGate.Shared.Serde

set_option autoImplicit false

namespace LlmGate

def ContentBlock.text? : ContentBlock → Option Str
  | .text content => some content
  | _ => none

def ContentBlock.isImage : ContentBlock → Bool
  | .image _ _ => true
  | _ => false

def ContentBlock.isToolResult : ContentBlock → Bool
  | .toolResult _ _ _ => true
  | _ => false

-- The reasoning that OpenAI's serializers join.
def ContentBlock.thinking? : ContentBlock → Option Str
  | .thinking content _ => some content
  | _ => none

def ContentBlock.call? : ContentBlock → Option (Str × Str × Json)
  | .toolUse id name input => some (id, name, input)
  | _ => none

def ContentBlock.result? : ContentBlock → Option (Str × Str)
  | .toolResult toolUseId content _ => some (toolUseId, content)
  | _ => none

-- `[String]::join("\n")`.
def joinLines (texts : List Str) : Str := List.intercalate ['\n'] texts

-- A user message that mixes results with other blocks is split, the results first.
def userMessages (blocks : List ContentBlock) : List NeutralMessage :=
  let results := blocks.filter (·.isToolResult)
  let rest := blocks.filter (!·.isToolResult)
  if results = [] then [⟨.user, blocks⟩]
  else ⟨.tool, results⟩ :: if rest = [] then [] else [⟨.user, rest⟩]

theorem userMessages_plain {blocks : List ContentBlock}
    (plain : ∀ block ∈ blocks, block.isToolResult = false) :
    userMessages blocks = [⟨.user, blocks⟩] := by
  have none : blocks.filter (·.isToolResult) = [] := by
    apply List.filter_eq_nil_iff.mpr
    intro block member
    rw [plain block member]
    exact Bool.false_ne_true
  exact if_pos none

theorem userMessages_results {blocks : List ContentBlock} (some_ : blocks ≠ [])
    (results : ∀ block ∈ blocks, block.isToolResult = true) :
    userMessages blocks = [⟨.tool, blocks⟩] := by
  have all : blocks.filter (·.isToolResult) = blocks := List.filter_eq_self.mpr results
  have none : blocks.filter (!·.isToolResult) = [] := by
    apply List.filter_eq_nil_iff.mpr
    intro block member
    rw [results block member]
    exact Bool.false_ne_true
  unfold userMessages
  dsimp only
  rw [all, none, if_neg some_]
  rfl

-- How every body parser starts.
def parseObject (serde : SerdeJson) (body : Str) : Except AdapterError Json :=
  match serde.fromStr body with
  | .error failure => .error (.invalidRequest ("invalid JSON: " ++ failure))
  | .ok root =>
    match root.asObject with
    | some _ => .ok root
    | none => .error (.invalidRequest "expected a JSON object")

theorem parseObject_reads {serde : SerdeJson} {fields : List (Str × Json)}
    (reads : serde.Reads (.obj fields)) :
    parseObject serde (serde.toStr (.obj fields)) = .ok (Json.obj fields).canonical := by
  rw [parseObject, reads]
  rfl

def field (key : Str) (value : Json) : List (Str × Json) := [(key, value)]

def fieldOf {T : Type} (key : Str) (write : T → Json) (value : Option T) : List (Str × Json) :=
  match value with
  | some value => [(key, write value)]
  | none => []

section Present

def present (sections : List (Str × Option Json)) : List (Str × Json) :=
  sections.filterMap fun entry => entry.2.map fun value => (entry.1, value)

theorem present_append (first second : List (Str × Option Json)) :
    present (first ++ second) = present first ++ present second :=
  List.filterMap_append

theorem field_present (key : Str) (value : Json) :
    field key value = present [(key, some value)] := by
  simp [field, present]

theorem fieldOf_present {T : Type} (key : Str) (write : T → Json) (value : Option T) :
    fieldOf key write value = present [(key, value.map write)] := by
  cases value <;> rfl

theorem lookup_present (sections : List (Str × Option Json))
    (distinct : (sections.map Prod.fst).Nodup) (key : Str) :
    Json.lookupLast (present sections) key = (sections.lookup key).join := by
  induction sections with
  | nil => rfl
  | cons entry rest ih =>
    obtain ⟨other, value⟩ := entry
    obtain ⟨fresh, later⟩ := List.nodup_cons.mp distinct
    have absent (same : key = other) : rest.lookup key = none := by
      apply List.lookup_eq_none_iff.mpr
      intro entry member
      have listed := List.mem_map_of_mem (f := Prod.fst) member
      have apart : key ≠ entry.1 := by
        intro equal
        rw [same] at equal
        exact fresh (equal ▸ listed)
      simpa using apart
    rw [Json.lookup_field]
    cases value with
    | none =>
      change Json.lookupLast (present rest) key = _
      rw [ih later]
      split
      next same =>
        rw [absent same]
        rfl
      next => rfl
    | some value =>
      change Json.lookupLast ((other, value) :: present rest) key = _
      rw [Json.lookupLast, ih later]
      split
      next same =>
        rw [absent same]
        rfl
      next => exact Option.or_none

theorem get_present {sections : List (Str × Option Json)}
    (distinct : (sections.map Prod.fst).Nodup) (key : Str) :
    (Json.obj (present sections)).get key = (sections.lookup key).join :=
  lookup_present sections distinct key

end Present

end LlmGate
