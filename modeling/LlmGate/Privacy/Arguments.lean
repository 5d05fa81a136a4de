import LlmGate.Privacy.Channels
import LlmGate.Shared.Compact
import LlmGate.Shared.Serde

set_option autoImplicit false

namespace LlmGate

namespace Json

mutual
def mapKeys (f : Str → Str) : Json → Json
  | .arr items => .arr (mapItemKeys f items)
  | .obj fields => .obj (mapFieldKeys f fields)
  | .str text => .str text
  | .null => .null
  | .bool flag => .bool flag
  | .num n => .num n
def mapItemKeys (f : Str → Str) : List Json → List Json
  | [] => []
  | item :: rest => mapKeys f item :: mapItemKeys f rest
def mapFieldKeys (f : Str → Str) : List (Str × Json) → List (Str × Json)
  | [] => []
  | (key, value) :: rest => (f key, mapKeys f value) :: mapFieldKeys f rest
end

mutual
def keys : Json → List Str
  | .arr items => itemKeys items
  | .obj fields => fieldKeys fields
  | .str _ => []
  | .null => []
  | .bool _ => []
  | .num _ => []
def itemKeys : List Json → List Str
  | [] => []
  | item :: rest => keys item ++ itemKeys rest
def fieldKeys : List (Str × Json) → List Str
  | [] => []
  | (key, value) :: rest => key :: (keys value ++ fieldKeys rest)
end

mutual
theorem mapKeys_fixed {f : Str → Str} (value : Json) (fixed : ∀ key ∈ keys value, f key = key) :
    mapKeys f value = value := by
  cases value with
  | arr items => exact congrArg Json.arr (mapItemKeys_fixed items fixed)
  | obj fields => exact congrArg Json.obj (mapFieldKeys_fixed fields fixed)
  | _ => rfl
theorem mapItemKeys_fixed {f : Str → Str} (items : List Json)
    (fixed : ∀ key ∈ itemKeys items, f key = key) : mapItemKeys f items = items := by
  cases items with
  | nil => rfl
  | cons item rest =>
    rw [mapItemKeys, mapKeys_fixed item fun key member => fixed key (List.mem_append_left _ member),
      mapItemKeys_fixed rest fun key member => fixed key (List.mem_append_right _ member)]
theorem mapFieldKeys_fixed {f : Str → Str} (fields : List (Str × Json))
    (fixed : ∀ key ∈ fieldKeys fields, f key = key) : mapFieldKeys f fields = fields := by
  cases fields with
  | nil => rfl
  | cons field rest =>
    obtain ⟨key, value⟩ := field
    have inside (other : Str) (member : other ∈ keys value ++ fieldKeys rest) : f other = other :=
      fixed other (List.mem_cons_of_mem _ member)
    rw [mapFieldKeys, fixed key List.mem_cons_self,
      mapKeys_fixed value fun other member => inside other (List.mem_append_left _ member),
      mapFieldKeys_fixed rest fun other member => inside other (List.mem_append_right _ member)]
end

mutual
theorem keys_mapStrings (f : Str → Str) (value : Json) : keys (value.mapStrings f) = keys value := by
  cases value with
  | arr items => exact itemKeys_mapItems f items
  | obj fields => exact fieldKeys_mapFields f fields
  | _ => rfl
theorem itemKeys_mapItems (f : Str → Str) (items : List Json) :
    itemKeys (mapItems f items) = itemKeys items := by
  cases items with
  | nil => rfl
  | cons item rest => rw [mapItems, itemKeys, itemKeys, keys_mapStrings, itemKeys_mapItems]
theorem fieldKeys_mapFields (f : Str → Str) (fields : List (Str × Json)) :
    fieldKeys (mapFields f fields) = fieldKeys fields := by
  cases fields with
  | nil => rfl
  | cons field rest => rw [mapFields, fieldKeys, fieldKeys, keys_mapStrings, fieldKeys_mapFields]
end

theorem mapFields_insertField (f : Str → Str) (key : Str) (value : Json)
    (fields : List (Str × Json)) :
    mapFields f (insertField key value fields) =
      insertField key (value.mapStrings f) (mapFields f fields) := by
  induction fields with
  | nil => rfl
  | cons field rest ih =>
    obtain ⟨other, kept⟩ := field
    rw [insertField, mapFields, insertField]
    split
    next => rfl
    next =>
      split
      next => rfl
      next => rw [mapFields, ih]

mutual
theorem canonical_mapStrings (f : Str → Str) (value : Json) :
    (value.mapStrings f).canonical = value.canonical.mapStrings f := by
  cases value with
  | arr items => exact congrArg Json.arr (canonicalItems_mapItems f items)
  | obj fields => exact congrArg Json.obj (canonicalFields_mapFields f fields)
  | _ => rfl
theorem canonicalItems_mapItems (f : Str → Str) (items : List Json) :
    canonical.canonicalItems (mapItems f items) = mapItems f (canonical.canonicalItems items) := by
  cases items with
  | nil => rfl
  | cons item rest =>
    rw [mapItems, canonical.canonicalItems, canonical.canonicalItems, mapItems,
      canonical_mapStrings, canonicalItems_mapItems]
theorem canonicalFields_mapFields (f : Str → Str) (fields : List (Str × Json)) :
    canonical.canonicalFields (mapFields f fields) =
      mapFields f (canonical.canonicalFields fields) := by
  cases fields with
  | nil => rfl
  | cons field rest =>
    rw [mapFields, canonical.canonicalFields, canonical.canonicalFields, mapFields_insertField,
      canonical_mapStrings, canonicalFields_mapFields]
end

theorem keys_mapFieldKeys (f : Str → Str) (fields : List (Str × Json)) :
    (mapFieldKeys f fields).map Prod.fst = (fields.map Prod.fst).map f := by
  induction fields with
  | nil => rfl
  | cons field rest ih => rw [mapFieldKeys, List.map_cons, ih, List.map_cons, List.map_cons]

theorem mem_fieldKeys {key : Str} {fields : List (Str × Json)}
    (member : key ∈ fields.map Prod.fst) : key ∈ fieldKeys fields := by
  induction fields with
  | nil => exact member
  | cons field rest ih =>
    rcases List.mem_cons.mp member with same | later
    · exact List.mem_cons.mpr (.inl same)
    · exact List.mem_cons_of_mem _ (List.mem_append_right _ (ih later))

theorem lookupLast_mapFieldKeys {f : Str → Str} {fields : List (Str × Json)}
    (fixed : ∀ key ∈ fields.map Prod.fst, f key = key) (wanted : Str) :
    lookupLast (mapFieldKeys f fields) wanted = (lookupLast fields wanted).map (mapKeys f) := by
  induction fields with
  | nil => rfl
  | cons field rest ih =>
    rw [mapFieldKeys, lookupLast, lookupLast, fixed field.1 List.mem_cons_self,
      ih fun key member => fixed key (List.mem_cons_of_mem _ member)]
    cases lookupLast rest wanted with
    | some later => rfl
    | none =>
      rw [Option.map_none, Option.none_or, Option.none_or]
      split <;> rfl

-- The keys of an object are moved onto themselves, so a settled one stays where it is, and each
-- member is that of its own key again.
theorem members_same {f : Str → Str} {fields : List (Str × Json)}
    (built : canonical.canonicalFields fields = fields)
    (settle : ∀ key ∈ fields.map Prod.fst, f (f key) = f key)
    (same : canonical.canonicalFields (mapFieldKeys f fields) = fields) {key : Str} {value : Json}
    (member : (key, value) ∈ fields) :
    f key = key ∧ value.Canonical ∧ (value.mapKeys f).canonical = value := by
  have fixed : ∀ key ∈ fields.map Prod.fst, f key = key := by
    intro key inside
    have moved : key ∈ (fields.map Prod.fst).map f := by
      rw [← keys_mapFieldKeys, ← keys_canonicalFields, same]
      exact inside
    obtain ⟨source, known, rfl⟩ := List.mem_map.mp moved
    exact settle source known
  have found : lookupLast fields key = some value :=
    lookupLast_sorted (built ▸ sorted_canonicalFields fields) member
  refine ⟨fixed key (List.mem_map_of_mem member), ?_, ?_⟩
  · have again := lookupLast_canonicalFields fields key
    rw [built, found] at again
    exact (Option.some.inj again).symm
  · have again := lookupLast_canonicalFields (mapFieldKeys f fields) key
    rw [same, lookupLast_mapFieldKeys fixed, found] at again
    exact (Option.some.inj again).symm

mutual
theorem keys_fixed {f : Str → Str} (value : Json) (built : value.Canonical)
    (settle : ∀ key ∈ keys value, f (f key) = f key) (same : (mapKeys f value).canonical = value) :
    ∀ key ∈ keys value, f key = key := by
  cases value with
  | arr items => exact itemKeys_fixed items (Json.arr.inj built) settle (Json.arr.inj same)
  | obj fields =>
    exact fieldKeys_fixed fields settle fun key value member =>
      members_same (Json.obj.inj built) (fun key inside => settle key (mem_fieldKeys inside))
        (Json.obj.inj same) member
  | _ => exact fun key absent => absurd absent List.not_mem_nil
theorem itemKeys_fixed {f : Str → Str} (items : List Json)
    (built : canonical.canonicalItems items = items)
    (settle : ∀ key ∈ itemKeys items, f (f key) = f key)
    (same : canonical.canonicalItems (mapItemKeys f items) = items) :
    ∀ key ∈ itemKeys items, f key = key := by
  cases items with
  | nil => exact fun key absent => absurd absent List.not_mem_nil
  | cons item rest =>
    have first := keys_fixed item (List.cons.inj built).1
      (fun key member => settle key (List.mem_append_left _ member)) (List.cons.inj same).1
    have later := itemKeys_fixed rest (List.cons.inj built).2
      (fun key member => settle key (List.mem_append_right _ member)) (List.cons.inj same).2
    exact fun key member => (List.mem_append.mp member).elim (first key) (later key)
theorem fieldKeys_fixed {f : Str → Str} (fields : List (Str × Json))
    (settle : ∀ key ∈ fieldKeys fields, f (f key) = f key)
    (each : ∀ key value, (key, value) ∈ fields →
      f key = key ∧ value.Canonical ∧ (value.mapKeys f).canonical = value) :
    ∀ key ∈ fieldKeys fields, f key = key := by
  cases fields with
  | nil => exact fun key absent => absurd absent List.not_mem_nil
  | cons field rest =>
    obtain ⟨name, value⟩ := field
    have inside (key : Str) (member : key ∈ keys value ++ fieldKeys rest) : f (f key) = f key :=
      settle key (List.mem_cons_of_mem _ member)
    obtain ⟨kept, built, same⟩ := each name value List.mem_cons_self
    have first := keys_fixed value built
      (fun key member => inside key (List.mem_append_left _ member)) same
    have later := fieldKeys_fixed rest
      (fun key member => inside key (List.mem_append_right _ member))
      fun key value member => each key value (List.mem_cons_of_mem _ member)
    intro key member
    rcases List.mem_cons.mp member with rfl | member
    · exact kept
    · exact (List.mem_append.mp member).elim (first key) (later key)
end

theorem escape_append (first second : Str) :
    escape (first ++ second) = escape first ++ escape second := List.flatMap_append

theorem escapeChar_cases (c : Char) : escapeChar c = [c] ∨
    '<' ∉ escapeChar c ∧ ∃ code, escapeChar c = '\\' :: code := by
  have digit : ∀ n < 16, hexDigit n ≠ '<' := by decide
  refine escapeChar_elim (motive := fun written =>
    written = [c] ∨ '<' ∉ written ∧ ∃ code, written = '\\' :: code) c ?_ ?_ ?_
  · exact fun _ => .inl rfl
  · intro code member
    have apart : code ≠ '<' := fun same => absurd member (by rw [same]; decide)
    have plain : '<' ∉ ['\\', code] := by simp [apart.symm]
    exact .inr ⟨plain, _, rfl⟩
  · intro high low first second
    have plain : '<' ∉ ['\\', 'u', '0', '0', hexDigit high, hexDigit low] := by
      simp [(digit high first).symm, (digit low second).symm]
    exact .inr ⟨plain, _, rfl⟩

end Json

namespace Privacy

open Substitution Text Json

def TokenShaped (word : Str) : Prop :=
  ∃ body, word = '<' :: (body ++ ['>']) ∧ body.all isNameChar = true

theorem TokenShaped.plain {word : Str} (shaped : TokenShaped word) {c : Char} (member : c ∈ word) :
    isNameChar c = true ∨ c = '<' ∨ c = '>' := by
  obtain ⟨body, rfl, named⟩ := shaped
  rcases List.mem_cons.mp member with opening | member
  · exact .inr (.inl opening)
  · rcases List.mem_append.mp member with inside | closing
    · exact .inl (List.all_eq_true.mp named c inside)
    · exact .inr (.inr (List.mem_singleton.mp closing))

theorem mint_tokenShaped {template : Str} (grammatical : Grammatical template) (n : Nat) :
    TokenShaped (mint template n) := by
  obtain ⟨name, rfl, -, valid⟩ := grammatical
  refine ⟨name ++ decimal n, by rw [mint_eq valid, List.append_assoc], ?_⟩
  rw [List.all_append, valid, Bool.true_and, List.all_eq_true]
  exact fun c member => not_digit_isNameChar (decimal_isDigit member)

theorem TokenShaped.escapeChar_eq {word : Str} (shaped : TokenShaped word) {c : Char}
    (member : c ∈ word) : escapeChar c = [c] := by
  have plain := shaped.plain member
  have other (d : Char) (bad : isNameChar d = false ∧ d ≠ '<' ∧ d ≠ '>') : c ≠ d := by
    rintro rfl
    rcases plain with named | opening | closing
    · exact absurd (bad.1.symm.trans named) Bool.false_ne_true
    · exact bad.2.1 opening
    · exact bad.2.2 closing
  have control (n : Nat) (small : n < 32) : isNameChar (Char.ofNat n) = false ∧
      Char.ofNat n ≠ '<' ∧ Char.ofNat n ≠ '>' := by
    revert n
    decide
  have printed : ¬ c.toNat < 32 := fun small =>
    other _ (control c.toNat small) (Char.ofNat_toNat c).symm
  rw [escapeChar, if_neg (other _ (by decide)), if_neg (other _ (by decide)),
    if_neg (other _ (by decide)), if_neg (other _ (by decide)), if_neg (other _ (by decide)),
    if_neg (other _ (by decide)), if_neg (other _ (by decide)), if_neg printed]

theorem escape_plain {word : Str} (plain : ∀ c ∈ word, escapeChar c = [c]) :
    escape word = word := by
  induction word with
  | nil => rfl
  | cons c rest ih =>
    have shape : escape (c :: rest) = escapeChar c ++ escape rest := rfl
    rw [shape, plain c List.mem_cons_self,
      ih fun other member => plain other (List.mem_cons_of_mem _ member)]
    rfl

-- A text without escapes starts a written text only if it starts the text itself.
theorem prefix_of_escape {word text : Str} (plain : ∀ c ∈ word, escapeChar c = [c])
    (starts : word <+: escape text) : word <+: text := by
  induction word generalizing text with
  | nil => exact List.nil_prefix
  | cons c rest ih =>
    cases text with
    | nil => exact absurd (List.prefix_nil.mp starts) (List.cons_ne_nil _ _)
    | cons head tail =>
      have shape : escape (head :: tail) = escapeChar head ++ escape tail := rfl
      rw [shape] at starts
      rcases escapeChar_cases head with same | ⟨-, code, escaped⟩
      · rw [same, List.singleton_append, List.cons_prefix_cons] at starts
        obtain ⟨rfl, later⟩ := starts
        exact List.cons_prefix_cons.mpr
          ⟨rfl, ih (fun other member => plain other (List.mem_cons_of_mem _ member)) later⟩
      · rw [escaped, List.cons_append, List.cons_prefix_cons] at starts
        have slash := plain c List.mem_cons_self
        rw [starts.1] at slash
        exact absurd slash (by decide)

section Written

variable {engine : RedactionEngine} {vault : Vault}

theorem Vault.Sound.tokenShaped (valid : engine.Valid) (sound : vault.Sound engine) {word : Str}
    (present : vault.table.Word word) : TokenShaped word := by
  obtain ⟨rule, member, n, -, -, rfl⟩ := sound.present (AList.lookup_isSome.mp present)
  exact mint_tokenShaped (valid.grammatical rule member) n

theorem escapedTable_eq (word : Str) : vault.escapedTable word = (vault.table word).map escape := rfl

theorem escapedTable_word {word : Str} : vault.escapedTable.Word word ↔ vault.table.Word word := by
  rw [Table.Word, escapedTable_eq, Option.isSome_map, Table.Word]

theorem subst_escape (valid : engine.Valid) (sound : vault.Sound engine) (text : Str) :
    subst vault.escapedTable (escape text) = escape (subst vault.table text) := by
  have separated := sound.separated valid
  have escaped : vault.escapedTable.Separated := splicedTable_true vault ▸
    sound.spliced_separated valid true
  induction size : text.length using Nat.strong_induction_on generalizing text with
  | _ n ih =>
    cases text with
    | nil => rfl
    | cons head rest =>
      cases found : wordAt vault.table (head :: rest) with
      | some word =>
        obtain ⟨⟨tail, split⟩, present⟩ := wordAt_some found
        have unchanged := escape_plain fun c => (sound.tokenShaped valid present).escapeChar_eq
        obtain ⟨original, stored⟩ := Option.isSome_iff_exists.mp present
        have shorter : tail.length < n := by
          have positive := separated.length_pos present
          rw [← size, ← split, List.length_append]
          omega
        rw [← split, escape_append, unchanged, subst_word separated present,
          subst_word escaped (escapedTable_word.mpr present), escape_append,
          ih _ shorter tail rfl, escapedTable_eq, stored]
        rfl
      | none =>
        have absent := wordAt_none.mp found
        have shape (c : Char) (more : Str) : escape (c :: more) = escapeChar c ++ escape more := rfl
        have later := ih rest.length (by rw [← size]; exact Nat.lt_succ_self _) rest rfl
        rw [subst_cons found, shape, shape, ← later]
        rcases escapeChar_cases head with same | ⟨unopened, -⟩
        · have none : wordAt vault.escapedTable (head :: escape rest) = none := by
            refine wordAt_none.mpr fun word starts present => ?_
            have known := escapedTable_word.mp present
            refine absent word (prefix_of_escape
              (fun c => (sound.tokenShaped valid known).escapeChar_eq) ?_) known
            rwa [shape, same]
          rw [same, List.singleton_append, subst_cons none, List.singleton_append]
        · refine subst_skip (fun word present => ⟨'<', unopened, ?_⟩) _
          obtain ⟨body, opened, -⟩ := sound.tokenShaped valid (escapedTable_word.mp present)
          rw [opened]
          rfl

theorem mark_outside (valid : engine.Valid) (sound : vault.Sound engine) {mark : Char}
    (plain : isNameChar mark = false ∧ mark ≠ '<' ∧ mark ≠ '>') :
    ∀ word, vault.escapedTable.Word word → mark ∉ word := by
  intro word present member
  rcases (sound.tokenShaped valid (escapedTable_word.mp present)).plain member with
    named | opening | closing
  · exact absurd (plain.1.symm.trans named) Bool.false_ne_true
  · exact plain.2.1 opening
  · exact plain.2.2 closing

theorem subst_mark (valid : engine.Valid) (sound : vault.Sound engine) (mark : Char)
    (plain : isNameChar mark = false ∧ mark ≠ '<' ∧ mark ≠ '>') (first rest : Str) :
    subst vault.escapedTable (first ++ mark :: rest) =
      subst vault.escapedTable first ++ mark :: subst vault.escapedTable rest :=
  subst_break (splicedTable_true vault ▸ sound.spliced_separated valid true)
    (mark_outside valid sound plain) first rest

theorem subst_quote (valid : engine.Valid) (sound : vault.Sound engine) (text : Str) :
    subst vault.escapedTable (quote text) = quote (subst vault.table text) := by
  have opened := subst_mark valid sound '"' (by decide) [] (escape text ++ ['"'])
  have closed := subst_mark valid sound '"' (by decide) (escape text) []
  rw [closed, subst_escape valid sound] at opened
  exact opened

theorem subst_unopened (valid : engine.Valid) (sound : vault.Sound engine) {text : Str}
    (unopened : '<' ∉ text) : subst vault.escapedTable text = text := by
  have passed : subst vault.escapedTable (text ++ []) = text ++ subst vault.escapedTable [] := by
    refine subst_skip (fun word present => ⟨'<', unopened, ?_⟩) []
    obtain ⟨body, opened, -⟩ := sound.tokenShaped valid (escapedTable_word.mp present)
    rw [opened]
    rfl
  rwa [List.append_nil, subst_nil, List.append_nil] at passed

theorem renderNumber_unopened {float : UInt64 → Str} (plain : ∀ bits, '<' ∉ float bits)
    (number : Number) : '<' ∉ renderNumber float number := by
  have digits (n : Nat) : '<' ∉ decimal n := fun member =>
    absurd (decimal_isDigit member) (by decide)
  cases number with
  | uint value => exact digits value
  | negInt magnitude =>
    intro member
    rcases List.mem_cons.mp member with sign | member
    · exact absurd sign (by decide)
    · exact digits magnitude member
  | float bits => exact plain bits

-- Restoring with escapes inside a JSON text restores the strings of the value, and its keys.
mutual
theorem subst_render (valid : engine.Valid) (sound : vault.Sound engine) {float : UInt64 → Str}
    (plain : ∀ bits, '<' ∉ float bits) (value : Json) :
    subst vault.escapedTable (value.render float) =
      ((value.mapStrings (subst vault.table)).mapKeys (subst vault.table)).render float := by
  cases value with
  | null =>
    have word : '<' ∉ "null".toList := by decide
    exact subst_unopened valid sound word
  | bool flag =>
    have yes : '<' ∉ "true".toList := by decide
    have no : '<' ∉ "false".toList := by decide
    cases flag with
    | true => exact subst_unopened valid sound yes
    | false => exact subst_unopened valid sound no
  | num number => exact subst_unopened valid sound (renderNumber_unopened plain number)
  | str text => exact subst_quote valid sound text
  | arr items =>
    have opened := subst_mark valid sound '[' (by decide) []
      (renderItems float items ++ [']'])
    rw [subst_mark valid sound ']' (by decide),
      subst_renderItems valid sound plain items] at opened
    exact opened
  | obj fields =>
    have opened := subst_mark valid sound '\x7b' (by decide) []
      (renderFields float fields ++ ['\x7d'])
    rw [subst_mark valid sound '\x7d' (by decide),
      subst_renderFields valid sound plain fields] at opened
    exact opened
theorem subst_renderItems (valid : engine.Valid) (sound : vault.Sound engine)
    {float : UInt64 → Str} (plain : ∀ bits, '<' ∉ float bits) (items : List Json) :
    subst vault.escapedTable (renderItems float items) =
      renderItems float (mapItemKeys (subst vault.table)
        (mapItems (subst vault.table) items)) := by
  cases items with
  | nil => rfl
  | cons item rest =>
    have first := subst_render valid sound plain item
    cases rest with
    | nil => exact first
    | cons next rest =>
      have later := subst_renderItems valid sound plain (next :: rest)
      have whole := subst_mark valid sound ',' (by decide) (item.render float)
        (renderItems float (next :: rest))
      rw [first, later] at whole
      exact whole
theorem subst_renderFields (valid : engine.Valid) (sound : vault.Sound engine)
    {float : UInt64 → Str} (plain : ∀ bits, '<' ∉ float bits) (fields : List (Str × Json)) :
    subst vault.escapedTable (renderFields float fields) =
      renderFields float (mapFieldKeys (subst vault.table)
        (mapFields (subst vault.table) fields)) := by
  cases fields with
  | nil => rfl
  | cons field rest =>
    obtain ⟨key, value⟩ := field
    have first := subst_mark valid sound ':' (by decide) (quote key) (value.render float)
    rw [subst_quote valid sound, subst_render valid sound plain value] at first
    cases rest with
    | nil => exact first
    | cons next rest =>
      have later := subst_renderFields valid sound plain (next :: rest)
      have whole := subst_mark valid sound ',' (by decide)
        (quote key ++ ':' :: value.render float) (renderFields float (next :: rest))
      rw [first, later] at whole
      exact whole
end

end Written

section Fragments

variable (ac : Searcher Char) (vault : Vault)

def RestoreStream.step (stream : RestoreStream) (fragment : Str) : RestoreStream × List Str :=
  let (out, stream) := stream.feed ac vault fragment
  (stream, [out])

-- All that `new_json` makes of some fragments, `finish` included.
def restoreFragments (engine : RedactionEngine) (fragments : List Str) : Str :=
  let ran := Machine.run (RestoreStream.step ac vault) (.newJson engine) fragments
  ran.2.flatten ++ ran.1.finish.1

variable {vault}

theorem run_holding {engine : RedactionEngine} (valid : engine.Valid) (sound : vault.Sound engine)
    {stream : RestoreStream} {emitted consumed : Str}
    (holding : Holding engine vault true stream emitted consumed) (fragments : List Str) :
    let ran := Machine.run (RestoreStream.step ac vault) stream fragments
    Holding engine vault true ran.1 (emitted ++ ran.2.flatten) (consumed ++ fragments.flatten) := by
  induction fragments generalizing stream emitted consumed with
  | nil => simpa using holding
  | cons fragment rest ih =>
    have later := ih (feed_holding ac valid sound holding fragment)
    simpa [RestoreStream.step, List.append_assoc] using later

theorem restoreFragments_eq {engine : RedactionEngine} (valid : engine.Valid)
    (sound : vault.Sound engine) (fragments : List Str) :
    restoreFragments ac vault engine fragments = subst vault.escapedTable fragments.flatten := by
  have held := run_holding ac valid sound (holding_new valid sound true) fragments
  have flushed := held.flush
  rw [splicedTable_true, List.nil_append] at flushed
  exact flushed.symm

end Fragments

-- No object key has anything to restore.
def KeysKept (ac : Searcher Char) (vault : Vault) (value : Json) : Prop :=
  ∀ key ∈ value.keys, restoreText ac vault key = key

-- Nothing in a restored key is restored again.
def KeysSettle (ac : Searcher Char) (vault : Vault) (value : Json) : Prop :=
  ∀ key ∈ value.keys,
    restoreText ac vault (restoreText ac vault key) = restoreText ac vault key

theorem keysKept_of_absent {engine : RedactionEngine} {vault : Vault} (valid : engine.Valid)
    (sound : vault.Sound engine) (ac : Searcher Char) {value : Json}
    (absent : ∀ key ∈ value.keys, ∀ word index, vault.table.Word word →
      ¬ OccursAt word key index) : KeysKept ac vault value := by
  intro key member
  rw [restoreText_eq valid sound]
  exact subst_plain key (absent key member)

/-- The streamed arguments always are a JSON text. It reads as what `restore_json` makes of the value
where no object key has anything to restore, and only there unless restored keys are restored
again. -/
theorem restoreFragments_agrees {compile : Compile} {config : PrivacyConfig}
    {engine : RedactionEngine} (accepted : RedactionEngine.new compile config = .ok engine)
    (ac : Searcher Char) (calls : List Call) (serde : SerdeJson) (float : UInt64 → Str)
    (plain : ∀ bits, '<' ∉ float bits) (value : Json) (built : value.Canonical)
    (written : serde.toStr value = value.render float) (fragments : List Str)
    (cut : fragments.flatten = serde.toStr value) :
    let vault := performAll ac engine .empty calls
    let sent := (restoreJson ac vault value).mapKeys (restoreText ac vault)
    let read := serde.fromStr (restoreFragments ac vault engine fragments)
    serde.fromStr (sent.render float) = .ok sent.canonical →
    read.isOk = true ∧
      (KeysKept ac vault value → read = .ok (restoreJson ac vault value)) ∧
      (KeysSettle ac vault value → read = .ok (restoreJson ac vault value) →
        KeysKept ac vault value) := by
  intro vault sent read reads
  have valid := new_valid accepted
  have sound : vault.Sound engine := (performAll_accounted valid ac calls).sound
  have restores : restoreText ac vault = subst vault.table :=
    funext fun text => restoreText_eq valid sound ac text
  have text : restoreFragments ac vault engine fragments = sent.render float := by
    rw [restoreFragments_eq ac valid sound, cut, written, subst_render valid sound plain]
    exact congrArg (fun f => ((value.mapStrings f).mapKeys f).render float) restores.symm
  have streamed : read = .ok sent.canonical := (congrArg serde.fromStr text).trans reads
  have restored : (restoreJson ac vault value).Canonical := by
    rw [Canonical, restoreJson, canonical_mapStrings, built]
  have same : (restoreJson ac vault value).keys = value.keys := keys_mapStrings _ value
  refine ⟨by rw [streamed]; rfl, fun kept => ?_, fun settle agrees => ?_⟩
  · have fixed : ∀ key ∈ (restoreJson ac vault value).keys, restoreText ac vault key = key :=
      same ▸ kept
    exact streamed.trans (congrArg Except.ok
      ((congrArg canonical (mapKeys_fixed _ fixed)).trans restored))
  · have neutral := Except.ok.inj (streamed.symm.trans agrees)
    have fixed := keys_fixed _ restored (fun key member => settle key (same ▸ member)) neutral
    exact fun key member => fixed key (same ▸ member)

def cardSession : Vault := performAll .naive cardEngine .empty [.redactText "pay 4111"]

def tokenValue : Json :=
  .obj [("<CARD_2>", .arr [.str "<CARD_1>", .obj [("note", .str "pay <CARD_1>, \"now\"")]])]

def tokenFragments : List Str :=
  ["\x7b\"<CARD_2>\":[\"<CA", "RD_1>\",\x7b\"note\":\"pay <CARD_", "1>, \\\"now\\\"\"\x7d]\x7d"]

def restoredTokens : Json :=
  .obj [("<CARD_2>", .arr [.str "4111", .obj [("note", .str "pay 4111, \"now\"")]])]

theorem restoreFragments_agrees_value :
    (SerdeJson.recorded [restoredTokens]).fromStr
        (restoreFragments .naive cardSession cardEngine tokenFragments) =
      .ok (restoreJson .naive cardSession tokenValue) := by
  obtain ⟨-, agrees, -⟩ := restoreFragments_agrees cardEngine_accepted .naive
    [.redactText "pay 4111"] (.recorded [restoredTokens]) (fun _ => [])
    (fun _ => List.not_mem_nil) tokenValue (by rfl) (by rfl) tokenFragments (by decide) (by rfl)
  have kept : ∀ key ∈ tokenValue.keys, restoreText .naive cardSession key = key := by decide
  exact agrees kept

def tokenKey : Json := .obj [("<CARD_1>", .bool true)]

theorem restoreFragments_key :
    let serde := SerdeJson.recorded [.obj [("4111", .bool true)]]
    [serde.toStr tokenKey].flatten = serde.toStr tokenKey ∧
      serde.fromStr (restoreFragments .naive cardSession cardEngine [serde.toStr tokenKey]) ≠
        .ok (restoreJson .naive cardSession tokenKey) := by
  refine ⟨rfl, fun same => ?_⟩
  have keys := congrArg (fun read => read.toOption.map Json.keys) same
  revert keys
  decide

end Privacy

end LlmGate
