import LlmGate.Core.Neutral
import LlmGate.Shared.Program
import LlmGate.Shared.Split
import LlmGate.Shared.Utf8
import Mathlib.Data.List.DropRight

set_option autoImplicit false

namespace LlmGate.Gemini

open Text Utf8

section Urls

def isAsciiAlphanumeric (byte : UInt8) : Bool :=
  (0x30 ≤ byte && byte ≤ 0x39) || (0x41 ≤ byte && byte ≤ 0x5A) || (0x61 ≤ byte && byte ≤ 0x7A)

-- `-`, `.`, `_`, `~` and `/`.
def isPathByte (byte : UInt8) : Bool :=
  isAsciiAlphanumeric byte || ([0x2D, 0x2E, 0x5F, 0x7E, 0x2F] : Bytes).contains byte

def resourcePath (model : Str) : Str :=
  if ("models/" : Str).isPrefixOf model || ("tunedModels/" : Str).isPrefixOf model then model
  else "models/" ++ model

-- `{model:?}`.
variable (debug : Str → Str)

def validateModelSegment (model : Str) : Except AdapterError Unit :=
  if model = [] then .error (.invalidRequest "model name must not be empty")
  else if ¬(toUtf8 model).all isPathByte then
    .error (.invalidRequest
      ("model name contains characters not allowed in a URL path segment: " ++ debug model))
  else
    (model.splitOn '/').forM fun segment =>
      if segment = [] ∨ segment = "." ∨ segment = ".." then
        .error (.invalidRequest
          ("model name must not contain empty or '.'/'..' path segments: " ++ debug model))
      else .ok ()

def trimEndMatches (c : Char) (text : Str) : Str := text.rdropWhile (· == c)

-- The URLs differ by what follows the resource.
def resourceUrl (action base model : Str) : Except AdapterError Str :=
  match validateModelSegment debug model with
  | .error failure => .error failure
  | .ok () => .ok (trimEndMatches '/' base ++ "/v1beta/" ++ resourcePath model ++ action)

def conversationUrl : Str → Str → Except AdapterError Str := resourceUrl debug ":generateContent"

def streamConversationUrl : Str → Str → Except AdapterError Str :=
  resourceUrl debug ":streamGenerateContent?alt=sse"

end Urls

section Segments

def IsUnreserved (c : Char) : Prop :=
  ('A' ≤ c ∧ c ≤ 'Z') ∨ ('a' ≤ c ∧ c ≤ 'z') ∨ ('0' ≤ c ∧ c ≤ '9') ∨
    c = '-' ∨ c = '.' ∨ c = '_' ∨ c = '~'

instance (c : Char) : Decidable (IsUnreserved c) := inferInstanceAs (Decidable (_ ∨ _))

/-- A path segment that stands for itself. -/
structure SafeSegment (segment : Str) : Prop where
  nonempty : segment ≠ []
  unreserved : ∀ c ∈ segment, IsUnreserved c
  notHere : segment ≠ "."
  notUp : segment ≠ ".."

def SafePath (path : Str) : Prop :=
  ∃ segments, segments ≠ [] ∧ path = ['/'].intercalate segments ∧
    ∀ segment ∈ segments, SafeSegment segment

theorem pathByte_char : ∀ n < 256, isPathByte (UInt8.ofNat n) = true →
    n < 0x80 ∧ (Char.ofNat n = '/' ∨ IsUnreserved (Char.ofNat n)) := by
  decide +kernel

theorem char_pathByte : ∀ n < 0x80, (Char.ofNat n = '/' ∨ IsUnreserved (Char.ofNat n)) →
    isPathByte (UInt8.ofNat n) = true := by
  decide +kernel

theorem unreserved_ascii {c : Char} (safe : IsUnreserved c) : c.toNat < 0x80 := by
  have below {last : Char} (within : c ≤ last) (small : last.toNat < 0x80) : c.toNat < 0x80 :=
    (UInt32.le_iff_toNat_le.mp within).trans_lt small
  rcases safe with ⟨-, upper⟩ | ⟨-, lower⟩ | ⟨-, digit⟩ | rfl | rfl | rfl | rfl
  · exact below upper (by decide)
  · exact below lower (by decide)
  · exact below digit (by decide)
  all_goals decide

theorem encodeChar_path (c : Char) :
    (encodeChar c).all isPathByte = true ↔ c = '/' ∨ IsUnreserved c := by
  constructor
  · intro safe
    obtain ⟨byte, member⟩ := List.exists_mem_of_ne_nil _ (encodeChar_ne_nil c)
    have path : isPathByte (UInt8.ofNat byte.toNat) = true := by
      rw [UInt8.ofNat_toNat]
      exact List.all_eq_true.mp safe byte member
    obtain ⟨small, char⟩ := pathByte_char byte.toNat byte.toNat_lt path
    rwa [← mem_encodeChar small member, Char.ofNat_toNat] at char
  · intro char
    have small : c.toNat < 0x80 := by
      rcases char with rfl | safe
      · decide
      · exact unreserved_ascii safe
    have single : encodeChar c = [UInt8.ofNat c.toNat] := if_pos small
    rw [single, List.all_cons, List.all_nil, Bool.and_true]
    exact char_pathByte c.toNat small (by rwa [Char.ofNat_toNat])

theorem toUtf8_path (model : Str) :
    (toUtf8 model).all isPathByte = true ↔ ∀ c ∈ model, c = '/' ∨ IsUnreserved c := by
  rw [toUtf8, List.all_flatMap, List.all_eq_true]
  exact forall₂_congr fun c _ => encodeChar_path c

variable (debug : Str → Str)

theorem safePath_iff (path : Str) :
    SafePath path ↔ ∀ segment ∈ path.splitOn '/', SafeSegment segment := by
  constructor
  · rintro ⟨segments, nonempty, rfl, safe⟩
    rwa [List.splitOn_intercalate '/' _ nonempty]
    exact fun segment member slash => absurd ((safe segment member).unreserved _ slash) (by decide)
  · exact fun safe =>
      ⟨path.splitOn '/', List.splitOn_ne_nil _ _, (List.intercalate_splitOn '/').symm, safe⟩

theorem safePath_char {path : Str} (safe : SafePath path) {c : Char} (member : c ∈ path) :
    c = '/' ∨ IsUnreserved c := by
  by_cases slash : c = '/'
  · exact .inl slash
  · obtain ⟨segment, cut, inside⟩ := mem_splitOn member slash
    exact .inr (((safePath_iff path).mp safe segment cut).unreserved c inside)

theorem validate_ok (model : Str) :
    validateModelSegment debug model = .ok () ↔ SafePath model := by
  unfold validateModelSegment
  by_cases empty : model = []
  · rw [if_pos empty, safePath_iff, empty, List.splitOn_nil, List.forall_mem_singleton]
    exact iff_of_false (by simp) fun safe => safe.nonempty rfl
  · rw [if_neg empty]
    by_cases bytes : (toUtf8 model).all isPathByte = true
    · rw [if_neg (not_not.mpr bytes), forM_ok, safePath_iff]
      refine forall₂_congr fun segment cut => ?_
      have unreserved : ∀ c ∈ segment, IsUnreserved c := fun c member =>
        have inside := mem_of_mem_splitOn cut member
        ((toUtf8_path model).mp bytes c inside.1).resolve_left inside.2
      split
      next bad =>
        refine iff_of_false (by simp) fun safe => ?_
        rcases bad with none | here | up
        · exact safe.nonempty none
        · exact safe.notHere here
        · exact safe.notUp up
      next good =>
        obtain ⟨nonempty, good⟩ := not_or.mp good
        obtain ⟨notHere, notUp⟩ := not_or.mp good
        exact iff_of_true rfl ⟨nonempty, unreserved, notHere, notUp⟩
    · rw [if_pos bytes]
      exact iff_of_false (by simp) fun safe =>
        bytes ((toUtf8_path model).mpr fun c member => safePath_char safe member)

end Segments

section Located

/-- The URL of a model: the base without trailing slashes, the resource path, and the action. -/
def Located (base model action url : Str) : Prop :=
  ∃ root slashes path, base = root ++ slashes ∧ (∀ c ∈ slashes, c = '/') ∧
    root.getLast? ≠ some '/' ∧
    path = (if ("models/" : Str) <+: model ∨ ("tunedModels/" : Str) <+: model then model
      else "models/" ++ model) ∧
    SafePath path ∧
    (∀ c ∈ path, c ∉ (['?', '#', '%', '@', ':', '\\'] : List Char) ∧ isWhitespace c = false) ∧
    url = root ++ "/v1beta/" ++ path ++ action

theorem trimEndMatches_split (c : Char) (text : Str) :
    ∃ rest, text = trimEndMatches c text ++ rest ∧ (∀ other ∈ rest, other = c) ∧
      (trimEndMatches c text).getLast? ≠ some c := by
  refine ⟨text.rtakeWhile (· == c), List.rdropWhile_append_rtakeWhile.symm,
    fun other member => ?_, fun last => ?_⟩
  · have same : (other == c) = true := List.mem_rtakeWhile_imp (p := (· == c)) member
    exact eq_of_beq same
  · have nonempty : trimEndMatches c text ≠ [] := fun empty => by
      rw [empty] at last
      cases last
    rw [List.getLast?_eq_some_getLast nonempty, Option.some_inj] at last
    exact List.rdropWhile_last_not (· == c) text nonempty (beq_iff_eq.mpr last)

theorem resourcePath_safe {model : Str} (safe : SafePath model) :
    SafePath (resourcePath model) := by
  unfold resourcePath
  split
  next => exact safe
  next =>
    have shape : ("models/" ++ model : Str) = "models" ++ '/' :: model := rfl
    rw [shape, safePath_iff, List.splitOn_append_cons_self_of_not_mem (by decide)]
    refine List.forall_mem_cons.mpr ⟨?_, (safePath_iff model).mp safe⟩
    have plain : ("models" : Str).all (fun c => decide (IsUnreserved c)) = true := by decide
    exact ⟨by decide, fun c member => of_decide_eq_true (List.all_eq_true.mp plain c member),
      by decide, by decide⟩

theorem safe_char {c : Char} (safe : c = '/' ∨ IsUnreserved c) :
    c ∉ (['?', '#', '%', '@', ':', '\\'] : List Char) ∧ isWhitespace c = false := by
  have ascii : ∀ n < 0x80, (Char.ofNat n = '/' ∨ IsUnreserved (Char.ofNat n)) →
      Char.ofNat n ∉ (['?', '#', '%', '@', ':', '\\'] : List Char) ∧
        isWhitespace (Char.ofNat n) = false := by decide +kernel
  have small : c.toNat < 0x80 := by
    rcases safe with rfl | safe
    · decide
    · exact unreserved_ascii safe
  rw [← Char.ofNat_toNat c] at safe ⊢
  exact ascii c.toNat small safe

theorem resourceUrl_ok (debug : Str → Str) (action base model : Str) :
    ((∃ url, resourceUrl debug action base model = .ok url) ↔ SafePath model) ∧
      ∀ url, resourceUrl debug action base model = .ok url → Located base model action url := by
  have valid := validate_ok debug model
  unfold resourceUrl
  cases held : validateModelSegment debug model with
  | error failure =>
    rw [held] at valid
    refine ⟨iff_of_false (by simp) fun safe => ?_, fun url same => ?_⟩
    · cases valid.mpr safe
    · cases same
  | ok done =>
    have safe := valid.mp held
    refine ⟨iff_of_true ⟨_, rfl⟩ safe, fun url same => ?_⟩
    obtain ⟨slashes, split, all, last⟩ := trimEndMatches_split '/' base
    have path : resourcePath model =
        if ("models/" : Str) <+: model ∨ ("tunedModels/" : Str) <+: model then model
        else "models/" ++ model := by
      unfold resourcePath
      simp only [Bool.or_eq_true, List.isPrefixOf_iff_prefix]
    exact ⟨_, slashes, _, split, all, last, path, resourcePath_safe safe,
      fun c member => safe_char (safePath_char (resourcePath_safe safe) member),
      (Except.ok.inj same).symm⟩

/-- Both URLs accept exactly the models that are safe paths, and hold them as their own segments. -/
theorem model_contained (debug : Str → Str) (base model : Str) :
    (((∃ url, conversationUrl debug base model = .ok url) ↔ SafePath model) ∧
      ((∃ url, streamConversationUrl debug base model = .ok url) ↔ SafePath model)) ∧
    (∀ url, conversationUrl debug base model = .ok url →
      Located base model ":generateContent" url) ∧
    ∀ url, streamConversationUrl debug base model = .ok url →
      Located base model ":streamGenerateContent?alt=sse" url := by
  obtain ⟨accepts, located⟩ := resourceUrl_ok debug ":generateContent" base model
  obtain ⟨streams, streamed⟩ := resourceUrl_ok debug ":streamGenerateContent?alt=sse" base model
  exact ⟨⟨accepts, streams⟩, located, streamed⟩

end Located

end LlmGate.Gemini
