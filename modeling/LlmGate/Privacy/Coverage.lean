import LlmGate.Privacy.Reversible

set_option autoImplicit false

namespace LlmGate.Privacy

open Substitution Text

section Idle

variable (ac : Searcher Char) (engine : RedactionEngine)

-- A match that is left as it is: it overlaps a token of the session or the allow-list has it.
def Spared (out : Str) (spans : List Span) (found : Span) : Prop :=
  overlaps spans found = true ∨ engine.isAllowed (slice out found) = true

/-- No rule finds anything in the text that it would replace. -/
def Bare (vault : Vault) (text : Str) : Prop :=
  ∀ rule ∈ engine.rules, ∀ found ∈ rule.regex.findIter text,
    Spared engine text (tokenSpans ac vault.tokens text) found

variable {ac engine} {vault current later last : Vault} {rule : CompiledRule} {out : Str}
  {progress next : Progress} {found : Span} {spans : List Span}

-- A loop that has changed nothing has its input for its text.
def Progress.Honest (progress : Progress) (out : Str) : Prop :=
  progress.changed = false → progress.text out = out

theorem redactMatch_honest (honest : progress.Honest out)
    (ran : (redactMatch engine rule out spans progress found).run serve current =
      (.ok next, later)) : next.Honest out := by
  unfold redactMatch at ran
  split at ran
  next =>
    cases ran
    exact honest
  next =>
    obtain ⟨written, middle, -, finished⟩ := Program.run_bind_ok ran
    cases finished
    exact fun unchanged => absurd unchanged (by simp)

theorem redactMatches_honest (founds : List Span) (honest : progress.Honest out)
    (ran : (founds.foldlM (redactMatch engine rule out spans) progress).run serve current =
      (.ok next, later)) : next.Honest out := by
  induction founds generalizing progress current with
  | nil =>
    cases ran
    exact honest
  | cons found rest ih =>
    rw [List.foldlM_cons] at ran
    obtain ⟨step, middle, first, rest⟩ := Program.run_bind_ok ran
    exact ih (redactMatch_honest honest first) rest

def ruleLoop (ac : Searcher Char) (engine : RedactionEngine) (rule : CompiledRule) (out : Str)
    (vault : Vault) : Except AdapterError Progress × Vault :=
  ((rule.regex.findIter out).foldlM
    (redactMatch engine rule out (tokenSpans ac vault.tokens out)) ⟨[], 0, false⟩).run serve vault

theorem applyRule_run : (applyRule ac engine out rule).run serve vault =
    match ruleLoop ac engine rule out vault with
    | (.ok final, later) => (.ok (final.text out), later)
    | (.error failure, later) => (.error failure, later) := by
  have asked : (applyRule ac engine out rule).run serve vault =
      ((rule.regex.findIter out).foldlM
        (redactMatch engine rule out (tokenSpans ac vault.tokens out)) ⟨[], 0, false⟩ >>=
          fun final : Progress => (pure (if final.changed then
            final.result ++ out.drop final.last else out) : Redaction Str)).run serve vault := rfl
  rw [asked, Program.run_bind, ← ruleLoop]
  rcases ran : ruleLoop ac engine rule out vault with ⟨failure | final, later⟩
  · rfl
  · have honest : final.Honest out := redactMatches_honest _ (fun _ => rfl) ran
    dsimp only
    cases changed : final.changed with
    | true => rfl
    | false => rw [honest changed]; rfl

theorem spared_matches (founds : List Span) (same : progress.text out = out)
    (ordered : OrderedFrom out.length progress.last founds)
    (spared : ∀ found ∈ founds, Spared engine out spans found) :
    ∃ final, (founds.foldlM (redactMatch engine rule out spans) progress).run serve vault =
      (.ok final, vault) ∧ final.text out = out := by
  induction founds generalizing progress with
  | nil => exact ⟨progress, rfl, same⟩
  | cons found rest ih =>
    obtain ⟨after, inOrder, -, remaining⟩ := ordered
    have others := fun other member => spared other (List.mem_cons_of_mem _ member)
    rw [List.foldlM_cons, Program.run_bind]
    unfold redactMatch
    by_cases shielded : overlaps spans found = true
    · rw [if_pos shielded]
      exact ih same (remaining.mono (after.trans inOrder)) others
    · have allowed := (spared found List.mem_cons_self).resolve_left shielded
      have joined := progress.split out after inOrder
      rw [same] at joined
      rw [if_neg shielded, replacement, if_pos allowed]
      refine ih ?_ remaining others
      rw [Progress.text]
      simp only [List.append_assoc] at joined ⊢
      exact joined.symm

theorem applyRule_spared (spared : ∀ found ∈ rule.regex.findIter out,
      Spared engine out (tokenSpans ac vault.tokens out) found) :
    (applyRule ac engine out rule).run serve vault = (.ok out, vault) := by
  obtain ⟨final, ran, same⟩ : ∃ final, ruleLoop ac engine rule out vault = (.ok final, vault) ∧
      final.text out = out := spared_matches _ rfl (rule.regex.ordered out) spared
  rw [applyRule_run, ran]
  dsimp only
  rw [same]

theorem rules_bare {rules : List CompiledRule} (spared : ∀ rule ∈ rules,
      ∀ found ∈ rule.regex.findIter out, Spared engine out (tokenSpans ac vault.tokens out) found) :
    (rules.foldlM (applyRule ac engine) out).run serve vault = (.ok out, vault) := by
  induction rules with
  | nil => rfl
  | cons rule rest ih =>
    rw [List.foldlM_cons, Program.run_bind, applyRule_spared (spared rule List.mem_cons_self)]
    exact ih fun other member => spared other (List.mem_cons_of_mem _ member)

theorem redactText_bare (bare : Bare ac engine vault out) :
    (redactText ac engine out).run serve vault = (.ok out, vault) := rules_bare bare

end Idle

section Mass

def erasing (table : Table Char) : Table Char :=
  fun word => if table.Word word then some [] else none

theorem erasing_word {table : Table Char} {word : Str} :
    (erasing table).Word word ↔ table.Word word := by
  change (if table.Word word then some ([] : Str) else none).isSome = true ↔ table.Word word
  split <;> simp_all

theorem erasing_separated {table : Table Char} (separated : table.Separated) :
    (erasing table).Separated where
  nonempty present := separated.nonempty (erasing_word.mp present)
  apart text first second i j left right :=
    separated.apart text first second i j (erasing_word.mp left) (erasing_word.mp right)

def wordMass (table : Table Char) (text : Str) : Int :=
  text.length - (subst (erasing table) text).length

theorem wordMass_swap {table : Table Char} (separated : table.Separated)
    {before word value after : Str} (present : table.Word word)
    (untouched : Untouched table (before ++ (value ++ after)) before.length
      (before.length + value.length)) :
    wordMass table (before ++ (word ++ after)) =
      wordMass table (before ++ (value ++ after)) + word.length := by
  have here : OccursAt word (before ++ (word ++ after)) before.length := by
    rw [OccursAt, List.drop_left]
    exact List.prefix_append _ _
  have erased := erasing_separated separated
  have deleted : erasing table word = some [] := if_pos present
  have outside : Untouched (erasing table) (before ++ (value ++ after)) before.length
      (before.length + value.length) := fun other index otherPresent =>
    untouched other index (erasing_word.mp otherPresent)
  have cut := (clean_of_occurs erased (erasing_word.mpr present) here).1
  rw [wordMass, wordMass, subst_untouched erased outside, subst_append erased _ _ cut,
    subst_word erased (erasing_word.mpr present), deleted]
  simp only [List.length_append, Option.getD_some, List.length_nil, Nat.cast_add]
  omega

variable {ac : Searcher Char} {engine : RedactionEngine} {last vault current later : Vault}
  {rule : CompiledRule} {out : Str} {progress next : Progress} {found : Span}

theorem match_mass (valid : engine.Valid) (member : rule ∈ engine.rules)
    (lastSound : last.Sound engine) (sound : vault.Sound engine)
    (shielded : ∀ word index, last.table.Word word → OccursAt word out index →
      vault.table.Word word)
    (currentSound : current.Sound engine) (kept : Kept last current out progress)
    (after : progress.last ≤ found.start) (ordered : found.start ≤ found.stop)
    (inside : found.stop ≤ out.length)
    (ran : (redactMatch engine rule out (tokenSpans ac vault.tokens out) progress found).run serve
      current = (.ok next, later))
    (grown : last.Extends later) :
    wordMass last.table (progress.text out) ≤ wordMass last.table (next.text out) ∧
      (wordMass last.table (next.text out) ≤ wordMass last.table (progress.text out) →
        Spared engine out (tokenSpans ac vault.tokens out) found) := by
  have separated := lastSound.separated valid
  have split := progress.split out after ordered
  unfold redactMatch at ran
  split at ran
  next overlapping =>
    cases ran
    exact ⟨le_refl _, fun _ => .inl overlapping⟩
  next free =>
    have untouched := kept.untouched valid sound shielded after ordered inside (by simpa using free)
    obtain ⟨written, middle, wrote, finished⟩ := Program.run_bind_ok ran
    cases finished
    have shape : Progress.text ⟨progress.result ++ (slice out ⟨progress.last, found.start⟩ ++ written),
        found.stop, true⟩ out = (progress.result ++ slice out ⟨progress.last, found.start⟩) ++
          (written ++ out.drop found.stop) := by
      rw [Progress.text]
      simp only [List.append_assoc]
    rw [shape, split]
    rw [split] at untouched
    unfold replacement at wrote
    split at wrote
    next allowed =>
      cases wrote
      exact ⟨le_refl _, fun _ => .inr allowed⟩
    next =>
      have minted := askToken_ok valid currentSound member wrote
      have present : last.table.Word written := by
        have stored : last.table written = some (slice out found) := grown.tokens _ _ minted
        simp [Table.Word, stored]
      have positive := separated.length_pos present
      rw [wordMass_swap separated present untouched]
      exact ⟨by omega, fun lighter => by omega⟩

theorem matches_mass (valid : engine.Valid) (member : rule ∈ engine.rules)
    (lastSound : last.Sound engine) (sound : vault.Sound engine)
    (shielded : ∀ word index, last.table.Word word → OccursAt word out index →
      vault.table.Word word)
    (founds : List Span) (currentSound : current.Sound engine)
    (kept : Kept last current out progress)
    (ordered : OrderedFrom out.length progress.last founds) {final : Progress}
    (ran : (founds.foldlM (redactMatch engine rule out (tokenSpans ac vault.tokens out))
      progress).run serve current = (.ok final, later))
    (grown : last.Extends later) :
    wordMass last.table (progress.text out) ≤ wordMass last.table (final.text out) ∧
      (wordMass last.table (final.text out) ≤ wordMass last.table (progress.text out) →
        ∀ found ∈ founds, Spared engine out (tokenSpans ac vault.tokens out) found) := by
  induction founds generalizing progress current with
  | nil =>
    cases ran
    exact ⟨le_refl _, fun _ found none => absurd none List.not_mem_nil⟩
  | cons found rest ih =>
    rw [List.foldlM_cons] at ran
    obtain ⟨next, middle, first, rest⟩ := Program.run_bind_ok ran
    obtain ⟨after, inOrder, inside, remaining⟩ := ordered
    have step := run_keeps valid (redactMatch_asks engine member out _ progress found)
      currentSound first
    have tail := run_keeps valid (Program.asks_foldlM _ (fun found _ progress =>
      redactMatch_asks engine member out _ progress found) _) step.1 rest
    obtain ⟨held, before⟩ := kept_match valid member lastSound sound shielded currentSound kept
      after inOrder inside first (grown.trans tail.2)
    obtain ⟨here, spared⟩ := match_mass valid member lastSound sound shielded currentSound kept
      after inOrder inside first (grown.trans tail.2)
    obtain ⟨later, others⟩ := ih step.1 held (remaining.mono before) rest
    refine ⟨here.trans later, fun lighter other listed => ?_⟩
    rcases List.mem_cons.mp listed with rfl | listed
    · exact spared (later.trans lighter)
    · exact others (lighter.trans here) other listed

theorem rule_mass (valid : engine.Valid) (member : rule ∈ engine.rules)
    (lastSound : last.Sound engine) (sound : vault.Sound engine)
    (shielded : ∀ word index, last.table.Word word → OccursAt word out index →
      vault.table.Word word) {written : Str}
    (ran : (applyRule ac engine out rule).run serve vault = (.ok written, later))
    (grown : last.Extends later) :
    wordMass last.table out ≤ wordMass last.table written ∧
      (wordMass last.table written ≤ wordMass last.table out →
        ∀ found ∈ rule.regex.findIter out,
          Spared engine out (tokenSpans ac vault.tokens out) found) := by
  rw [applyRule_run] at ran
  rcases loop : ruleLoop ac engine rule out vault with ⟨failure | final, middle⟩
  · rw [loop] at ran
    cases ran
  · rw [loop] at ran
    cases ran
    have initial : Kept last vault out ⟨[], 0, false⟩ := by
      refine ⟨fun word index _ _ => .inl (Nat.zero_le index), ?_, rfl⟩
      simpa [Progress.text] using shielded
    exact matches_mass valid member lastSound sound shielded _ sound initial
      (rule.regex.ordered out) loop grown

theorem rules_mass (valid : engine.Valid) (lastSound : last.Sound engine)
    {rules : List CompiledRule} (listed : ∀ rule ∈ rules, rule ∈ engine.rules)
    (sound : vault.Sound engine)
    (shielded : ∀ word index, last.table.Word word → OccursAt word out index →
      vault.table.Word word) {written : Str}
    (ran : (rules.foldlM (applyRule ac engine) out).run serve vault = (.ok written, later))
    (grown : last.Extends later) :
    wordMass last.table out ≤ wordMass last.table written := by
  induction rules generalizing out vault with
  | nil =>
    cases ran
    exact le_refl _
  | cons rule rest ih =>
    rw [List.foldlM_cons] at ran
    obtain ⟨next, middle, first, ran⟩ := Program.run_bind_ok ran
    have member := listed rule List.mem_cons_self
    have others := fun other inside => listed other (List.mem_cons_of_mem _ inside)
    have step := run_keeps valid (applyRule_asks ac engine member out) sound first
    have tail := run_keeps valid (Program.asks_foldlM rest (fun rule inside out =>
      applyRule_asks ac engine (others rule inside) out) next) step.1 ran
    have known := (applyRule_kept valid member lastSound sound shielded first
      (grown.trans tail.2)).2
    exact (rule_mass valid member lastSound sound shielded first (grown.trans tail.2)).1.trans
      (ih others step.1 known ran)

-- Rules that add nothing to the mass have spared every match.
theorem rules_spared (valid : engine.Valid) (sound : vault.Sound engine)
    {rules : List CompiledRule} (listed : ∀ rule ∈ rules, rule ∈ engine.rules)
    (ran : (rules.foldlM (applyRule ac engine) out).run serve vault = (.ok out, vault)) :
    ∀ rule ∈ rules, ∀ found ∈ rule.regex.findIter out,
      Spared engine out (tokenSpans ac vault.tokens out) found := by
  induction rules with
  | nil => exact fun rule none => absurd none List.not_mem_nil
  | cons rule rest ih =>
    rw [List.foldlM_cons] at ran
    obtain ⟨next, middle, first, ran⟩ := Program.run_bind_ok ran
    have member := listed rule List.mem_cons_self
    have others := fun other inside => listed other (List.mem_cons_of_mem _ inside)
    have step := run_keeps valid (applyRule_asks ac engine member out) sound first
    have tail := run_keeps valid (Program.asks_foldlM rest (fun rule inside out =>
      applyRule_asks ac engine (others rule inside) out) next) step.1 ran
    have known := (applyRule_kept valid member sound sound (fun _ _ present _ => present) first
      tail.2).2
    have lighter := rules_mass valid sound others step.1 known ran (.refl vault)
    have spared := (rule_mass valid member sound sound (fun _ _ present _ => present) first
      tail.2).2 lighter
    rw [applyRule_spared spared] at first
    cases first
    intro other inside
    rcases List.mem_cons.mp inside with rfl | inside
    · exact spared
    · exact ih others ran other inside

/-- `redact_text` leaves a text and the session as they are if and only if the text is bare. -/
theorem redactText_idle (valid : engine.Valid) (sound : vault.Sound engine) :
    (redactText ac engine out).run serve vault = (.ok out, vault) ↔ Bare ac engine vault out :=
  ⟨rules_spared valid sound fun _ member => member, redactText_bare⟩

end Mass

/-- A string of a request: an object key, or one that the code scans. -/
inductive Leaf
  | key (text : Str)
  | scanned (text : Str)

def Leaf.text : Leaf → Str
  | .key text => text
  | .scanned text => text

section Leaves

-- The strings of a tree in document order, keys included.
mutual
def jsonLeaves : Json → List Leaf
  | .str text => [.scanned text]
  | .arr items => itemLeaves items
  | .obj fields => fieldLeaves fields
  | .null => []
  | .bool _ => []
  | .num _ => []
def itemLeaves : List Json → List Leaf
  | [] => []
  | item :: rest => jsonLeaves item ++ itemLeaves rest
def fieldLeaves : List (Str × Json) → List Leaf
  | [] => []
  | (key, value) :: rest => .key key :: jsonLeaves value ++ fieldLeaves rest
end

def blockLeaves : ContentBlock → List Leaf
  | .text text => [.scanned text]
  | .thinking thinking _ => [.scanned thinking]
  | .toolUse _ _ input => jsonLeaves input
  | .toolResult _ content _ => [.scanned content]
  | .image _ _ => []
  | .redactedThinking _ => []

def messageLeaves (message : NeutralMessage) : List Leaf := message.content.flatMap blockLeaves

def requestLeaves (request : NeutralRequest) : List Leaf := request.messages.flatMap messageLeaves

def texts (leaves : List Leaf) : List Str := leaves.map Leaf.text

-- A tree without its strings.
mutual
def blankJson : Json → Json
  | .str _ => .str []
  | .arr items => .arr (blankItems items)
  | .obj fields => .obj (blankFields fields)
  | .null => .null
  | .bool flag => .bool flag
  | .num n => .num n
def blankItems : List Json → List Json
  | [] => []
  | item :: rest => blankJson item :: blankItems rest
def blankFields : List (Str × Json) → List (Str × Json)
  | [] => []
  | (_, value) :: rest => ([], blankJson value) :: blankFields rest
end

def blankBlock : ContentBlock → ContentBlock
  | .text _ => .text []
  | .thinking _ signature => .thinking [] signature
  | .toolUse id name input => .toolUse id name (blankJson input)
  | .toolResult toolUseId _ isError => .toolResult toolUseId [] isError
  | .image mediaType base64 => .image mediaType base64
  | .redactedThinking data => .redactedThinking data

def blankMessage (message : NeutralMessage) : NeutralMessage :=
  { message with content := message.content.map blankBlock }

def blankRequest (request : NeutralRequest) : NeutralRequest :=
  { request with messages := request.messages.map blankMessage }

mutual
theorem blankJson_idem (value : Json) : blankJson (blankJson value) = blankJson value := by
  cases value with
  | arr items => simp only [blankJson, blankItems_idem]
  | obj fields => simp only [blankJson, blankFields_idem]
  | _ => rfl
theorem blankItems_idem (items : List Json) : blankItems (blankItems items) = blankItems items := by
  cases items with
  | nil => rfl
  | cons item rest => simp only [blankItems, blankJson_idem, blankItems_idem]
theorem blankFields_idem (fields : List (Str × Json)) :
    blankFields (blankFields fields) = blankFields fields := by
  cases fields with
  | nil => rfl
  | cons field rest => simp only [blankFields, blankJson_idem, blankFields_idem]
end

theorem blankBlock_idem (block : ContentBlock) :
    blankBlock (blankBlock block) = blankBlock block := by
  cases block with
  | toolUse id name input => simp only [blankBlock, blankJson_idem]
  | _ => rfl

theorem blankMessage_idem (message : NeutralMessage) :
    blankMessage (blankMessage message) = blankMessage message := by
  simp [blankMessage, blankBlock_idem]

end Leaves

section Turns

variable (ac : Searcher Char) (engine : RedactionEngine)

-- What the code does with a string: keys are not looked at.
def Leaf.redact : Leaf → Redaction Str
  | .key text => pure text
  | .scanned text => redactText ac engine text

def redactLeaves (leaves : List Leaf) : Redaction (List Str) :=
  leaves.mapM (Leaf.redact ac engine)

/-- A string when its turn comes: the session before, what is sent in its place and the session
after. -/
structure Turn where
  before : Vault
  leaf : Leaf
  sent : Str
  after : Vault

def turns : Vault → List Leaf → List Turn
  | _, [] => []
  | vault, leaf :: rest =>
    match (leaf.redact ac engine).run serve vault with
    | (.ok sent, after) => ⟨vault, leaf, sent, after⟩ :: turns after rest
    | (.error _, _) => []

-- A redaction rewrites the strings of a value one after another, and nothing else of it.
def Rewrites {A : Type} (leaves : A → List Leaf) (blank : A → A) (program : Redaction A)
    (original : A) : Prop :=
  ∀ vault later sent, program.run serve vault = (.ok sent, later) →
    (redactLeaves ac engine (leaves original)).run serve vault = (.ok (texts (leaves sent)), later) ∧
      blank sent = blank original

variable {ac engine}

theorem redactLeaves_append {first second : List Leaf} {vault middle later : Vault}
    {sent others : List Str}
    (left : (redactLeaves ac engine first).run serve vault = (.ok sent, middle))
    (right : (redactLeaves ac engine second).run serve middle = (.ok others, later)) :
    (redactLeaves ac engine (first ++ second)).run serve vault = (.ok (sent ++ others), later) := by
  unfold redactLeaves at left right ⊢
  rw [List.mapM_append, Program.run_bind, left]
  dsimp only
  rw [Program.run_bind, right]
  rfl

theorem redactLeaves_one (leaf : Leaf) {vault later : Vault} {sent : Str}
    (ran : (leaf.redact ac engine).run serve vault = (.ok sent, later)) :
    (redactLeaves ac engine [leaf]).run serve vault = (.ok [sent], later) := by
  rw [redactLeaves, List.mapM_cons, Program.run_bind, ran]
  rfl

theorem Rewrites.none {A : Type} {leaves : A → List Leaf} {blank : A → A} {original : A}
    (empty : leaves original = []) : Rewrites ac engine leaves blank (pure original) original := by
  intro vault later sent ran
  cases ran
  rw [empty]
  exact ⟨rfl, rfl⟩

theorem Rewrites.scanned {A : Type} {leaves : A → List Leaf} {blank : A → A} (text : Str)
    (wrap : Str → A) (one : ∀ text, leaves (wrap text) = [.scanned text])
    (blanked : ∀ text, blank (wrap text) = blank (wrap [])) :
    Rewrites ac engine leaves blank
      (redactText ac engine text >>= fun text => pure (wrap text)) (wrap text) := by
  intro vault later sent ran
  obtain ⟨written, middle, first, finished⟩ := Program.run_bind_ok ran
  cases finished
  rw [one, one, blanked, blanked text]
  exact ⟨redactLeaves_one (.scanned text) first, rfl⟩

theorem Rewrites.map {A B : Type} {leaves : A → List Leaf} {blank : A → A}
    {outer : B → List Leaf} {outerBlank : B → B} {program : Redaction A} {original : A}
    (rewrites : Rewrites ac engine leaves blank program original) (wrap : A → B)
    (same : ∀ value, outer (wrap value) = leaves value)
    (blanked : ∀ value, outerBlank (wrap value) = outerBlank (wrap (blank value))) :
    Rewrites ac engine outer outerBlank (program >>= fun value => pure (wrap value))
      (wrap original) := by
  intro vault later sent ran
  obtain ⟨value, middle, first, finished⟩ := Program.run_bind_ok ran
  cases finished
  obtain ⟨told, equal⟩ := rewrites vault later value first
  rw [same, same, blanked, equal, ← blanked]
  exact ⟨told, rfl⟩

theorem Rewrites.cons {A B : Type} {leaves : A → List Leaf} {blank : A → A}
    {all : List B → List Leaf} {blankAll : List B → List B} {first : Redaction A}
    {rest : Redaction (List B)} {original : A} {originals : List B}
    (head : Rewrites ac engine leaves blank first original)
    (tail : Rewrites ac engine all blankAll rest originals) (wrap : A → B)
    (before : List Leaf)
    (kept : ∀ vault, (redactLeaves ac engine before).run serve vault = (.ok (texts before), vault))
    (split : ∀ value values, all (wrap value :: values) = before ++ leaves value ++ all values)
    (blanked : ∀ value values, blankAll (wrap value :: values) =
      blankAll [wrap (blank value)] ++ blankAll values) :
    Rewrites ac engine all blankAll
      (first >>= fun value => rest >>= fun values => pure (wrap value :: values))
      (wrap original :: originals) := by
  intro vault later sent ran
  obtain ⟨value, middle, ranFirst, ran⟩ := Program.run_bind_ok ran
  obtain ⟨values, final, ranRest, finished⟩ := Program.run_bind_ok ran
  cases finished
  obtain ⟨here, same⟩ := head vault middle value ranFirst
  obtain ⟨there, others⟩ := tail middle _ values ranRest
  rw [split, split, texts, List.map_append, List.map_append, blanked, same, others, ← blanked]
  exact ⟨redactLeaves_append (redactLeaves_append (kept vault) here) there, rfl⟩

theorem redactLeaves_key (key : Str) (vault : Vault) :
    (redactLeaves ac engine [.key key]).run serve vault = (.ok [key], vault) :=
  redactLeaves_one (.key key) rfl

mutual
theorem redactJson_rewrites (value : Json) :
    Rewrites ac engine jsonLeaves blankJson (redactJson ac engine value) value := by
  cases value with
  | str text => exact .scanned text Json.str (fun _ => rfl) fun _ => rfl
  | arr items =>
    exact (redactItems_rewrites items).map Json.arr (fun _ => rfl) fun items => by
      simp only [blankJson, blankItems_idem]
  | obj fields =>
    exact (redactFields_rewrites fields).map Json.obj (fun _ => rfl) fun fields => by
      simp only [blankJson, blankFields_idem]
  | null => exact .none rfl
  | bool flag => exact .none rfl
  | num n => exact .none rfl
theorem redactItems_rewrites (items : List Json) :
    Rewrites ac engine itemLeaves blankItems (redactItems ac engine items) items := by
  cases items with
  | nil => exact .none rfl
  | cons item rest =>
    exact (redactJson_rewrites item).cons (redactItems_rewrites rest) id [] (fun _ => rfl)
      (fun _ _ => rfl) fun value values => by simp [blankItems, blankJson_idem]
theorem redactFields_rewrites (fields : List (Str × Json)) :
    Rewrites ac engine fieldLeaves blankFields (redactFields ac engine fields) fields := by
  cases fields with
  | nil => exact .none rfl
  | cons field rest =>
    exact (redactJson_rewrites field.2).cons (redactFields_rewrites rest)
      (fun value => (field.1, value)) [.key field.1] (redactLeaves_key field.1)
      (fun _ _ => rfl) fun value values => by simp [blankFields, blankJson_idem]
end

theorem redactBlock_rewrites (block : ContentBlock) :
    Rewrites ac engine blockLeaves blankBlock (redactBlock ac engine block) block := by
  cases block with
  | text text => exact .scanned text ContentBlock.text (fun _ => rfl) fun _ => rfl
  | thinking thinking signature =>
    exact .scanned thinking (ContentBlock.thinking · signature) (fun _ => rfl) fun _ => rfl
  | toolResult toolUseId content isError =>
    exact .scanned content (ContentBlock.toolResult toolUseId · isError) (fun _ => rfl) fun _ => rfl
  | toolUse id name input =>
    exact (redactJson_rewrites input).map (ContentBlock.toolUse id name) (fun _ => rfl) fun value => by
      simp only [blankBlock, blankJson_idem]
  | image mediaType base64 => exact .none rfl
  | redactedThinking data => exact .none rfl

theorem Rewrites.mapM {A : Type} {leaves : A → List Leaf} {blank : A → A}
    {f : A → Redaction A} (each : ∀ value, Rewrites ac engine leaves blank (f value) value)
    (idem : ∀ value, blank (blank value) = blank value) (values : List A) :
    Rewrites ac engine (List.flatMap leaves) (List.map blank) (values.mapM f) values := by
  induction values with
  | nil => exact .none rfl
  | cons value rest ih =>
    rw [List.mapM_cons]
    exact (each value).cons ih id [] (fun _ => rfl) (fun _ _ => rfl) fun value values => by
      simp [idem]

theorem redactMessage_rewrites (message : NeutralMessage) :
    Rewrites ac engine messageLeaves blankMessage (redactMessage ac engine message) message :=
  (Rewrites.mapM redactBlock_rewrites blankBlock_idem message.content).map
    (NeutralMessage.mk message.role) (fun _ => rfl) fun blocks => by
      simp [blankMessage, blankBlock_idem]

theorem redactRequest_rewrites (request : NeutralRequest) :
    Rewrites ac engine requestLeaves blankRequest (redactRequest ac engine request) request :=
  (Rewrites.mapM redactMessage_rewrites blankMessage_idem request.messages).map
    (fun messages => { request with messages }) (fun _ => rfl) fun messages => by
      simp [blankRequest, blankMessage_idem]

theorem turns_sent {leaves : List Leaf} {vault later : Vault} {sent : List Str}
    (ran : (redactLeaves ac engine leaves).run serve vault = (.ok sent, later)) :
    (turns ac engine vault leaves).map Turn.sent = sent := by
  induction leaves generalizing vault sent with
  | nil =>
    cases ran
    rfl
  | cons leaf rest ih =>
    rw [redactLeaves, List.mapM_cons] at ran
    obtain ⟨here, middle, first, ran⟩ := Program.run_bind_ok ran
    obtain ⟨others, final, tail, finished⟩ := Program.run_bind_ok ran
    cases finished
    rw [turns, first, List.map_cons, ih tail]

theorem turns_redact {leaves : List Leaf} {vault : Vault} :
    ∀ turn ∈ turns ac engine vault leaves,
      (turn.leaf.redact ac engine).run serve turn.before = (.ok turn.sent, turn.after) := by
  induction leaves generalizing vault with
  | nil => exact fun turn none => absurd none List.not_mem_nil
  | cons leaf rest ih =>
    intro turn member
    rw [turns] at member
    rcases ran : (leaf.redact ac engine).run serve vault with ⟨failure | sent, after⟩
    · rw [ran] at member
      exact absurd member List.not_mem_nil
    · rw [ran] at member
      rcases List.mem_cons.mp member with rfl | member
      · exact ran
      · exact ih turn member

theorem Leaf.redact_asks (leaf : Leaf) :
    (leaf.redact ac engine).Asks (Request.Of engine) := by
  cases leaf with
  | key text => trivial
  | scanned text => exact redactText_asks ac engine text

theorem turns_sound (valid : engine.Valid) {leaves : List Leaf} {vault : Vault}
    (sound : vault.Sound engine) :
    ∀ turn ∈ turns ac engine vault leaves, turn.before.Sound engine := by
  induction leaves generalizing vault with
  | nil => exact fun turn none => absurd none List.not_mem_nil
  | cons leaf rest ih =>
    intro turn member
    rw [turns] at member
    rcases ran : (leaf.redact ac engine).run serve vault with ⟨failure | sent, after⟩
    · rw [ran] at member
      exact absurd member List.not_mem_nil
    · rw [ran] at member
      rcases List.mem_cons.mp member with rfl | member
      · exact sound
      · exact ih (run_keeps valid leaf.redact_asks sound ran).1 turn member

variable (ac engine)

def Turn.Redacted (turn : Turn) : Prop :=
  (redactText ac engine turn.leaf.text).run serve turn.before = (.ok turn.sent, turn.after)

/-- The request sent is the original with `redact_text` applied to every string, keys included, in
document order and under one session: in one run over all of them, and to each of them as the
session stands when its turn comes. -/
structure Covers (vault : Vault) (request sent : NeutralRequest) (later : Vault) : Prop where
  rest : blankRequest sent = blankRequest request
  strings : ((requestLeaves request).mapM fun leaf => redactText ac engine leaf.text).run serve
    vault = (.ok (texts (requestLeaves sent)), later)
  turnwise : ∀ turn ∈ turns ac engine vault (requestLeaves request), turn.Redacted ac engine

/-- When the turn of an object key comes, no rule finds anything in it that it would replace. -/
def KeysBare (vault : Vault) (request : NeutralRequest) : Prop :=
  ∀ turn ∈ turns ac engine vault (requestLeaves request), ∀ text, turn.leaf = .key text →
    Bare ac engine turn.before text

-- `redact_request`, with what the caller's request is afterwards.
def redactInPlace (vault : Vault) (request : NeutralRequest) :
    Except AdapterError Unit × NeutralRequest × Vault :=
  match (redactRequest ac engine request).run serve vault with
  | (.ok work, later) => (.ok (), work, later)
  | (.error failure, later) => (.error failure, request, later)

variable {ac engine}

theorem turns_redacted_iff (valid : engine.Valid) {vault : Vault} (sound : vault.Sound engine)
    (request : NeutralRequest) :
    (∀ turn ∈ turns ac engine vault (requestLeaves request), turn.Redacted ac engine) ↔
      KeysBare ac engine vault request := by
  -- At a key's turn nothing is sent but the key, and the session stays as it is.
  have atKey {before after : Vault} {text sent : Str}
      (member : ⟨before, .key text, sent, after⟩ ∈ turns ac engine vault (requestLeaves request)) :
      sent = text ∧ after = before := by
    have kept : (Except.ok text, before) = (Except.ok sent, after) := turns_redact _ member
    cases kept
    exact ⟨rfl, rfl⟩
  constructor
  · rintro redacted ⟨before, leaf, sent, after⟩ member text rfl
    obtain ⟨rfl, rfl⟩ := atKey member
    exact (redactText_idle valid (turns_sound valid sound _ member)).mp (redacted _ member)
  · rintro bare ⟨before, leaf, sent, after⟩ member
    cases leaf with
    | scanned text => exact turns_redact _ member
    | key text =>
      obtain ⟨rfl, rfl⟩ := atKey member
      exact redactText_bare (bare _ member _ rfl)

theorem strings_redacted {leaves : List Leaf} {vault later : Vault} {sent : List Str}
    (ran : (redactLeaves ac engine leaves).run serve vault = (.ok sent, later))
    (redacted : ∀ turn ∈ turns ac engine vault leaves, turn.Redacted ac engine) :
    (leaves.mapM fun leaf => redactText ac engine leaf.text).run serve vault =
      (.ok sent, later) := by
  induction leaves generalizing vault sent with
  | nil => exact ran
  | cons leaf rest ih =>
    rw [redactLeaves, List.mapM_cons] at ran
    obtain ⟨here, middle, first, ran⟩ := Program.run_bind_ok ran
    obtain ⟨others, final, tail, finished⟩ := Program.run_bind_ok ran
    cases finished
    rw [turns, first] at redacted
    have head : (redactText ac engine leaf.text).run serve vault = (.ok here, middle) :=
      redacted _ List.mem_cons_self
    have remaining := ih tail fun turn member => redacted turn (List.mem_cons_of_mem _ member)
    rw [List.mapM_cons, Program.run_bind, head]
    dsimp only
    rw [Program.run_bind, remaining]
    rfl

end Turns

/-- A request that is redacted is covered if and only if its object keys are bare; one that is not
redacted is left as it was. -/
theorem redactInPlace_covers {compile : Compile} {config : PrivacyConfig} {engine : RedactionEngine}
    (accepted : RedactionEngine.new compile config = .ok engine) (ac : Searcher Char)
    (calls : List Call) (request : NeutralRequest) :
    let vault := performAll ac engine .empty calls
    match redactInPlace ac engine vault request with
    | (.ok _, sent, later) =>
      Covers ac engine vault request sent later ↔ KeysBare ac engine vault request
    | (.error _, kept, _) => kept = request := by
  intro vault
  have valid := new_valid accepted
  have sound : vault.Sound engine := (performAll_accounted valid ac calls).sound
  rw [redactInPlace]
  rcases ran : (redactRequest ac engine request).run serve vault with ⟨failure | sent, later⟩
  · rfl
  · obtain ⟨told, same⟩ := redactRequest_rewrites request vault later sent ran
    dsimp only
    rw [← turns_redacted_iff valid sound request]
    exact ⟨fun covers => covers.turnwise,
      fun redacted => ⟨same, strings_redacted told redacted, redacted⟩⟩

def cardCall (input : Json) : NeutralRequest :=
  { cardRequest [] with messages := [⟨.assistant, [.toolUse "call_1" "pay" input]⟩] }

theorem redactInPlace_covers_value :
    Covers .naive cardEngine .empty (cardCall (.obj [("card", .str "4111")]))
      (cardCall (.obj [("card", .str "<CARD_1>")]))
      (Vault.empty.record ⟨"card", .literal "4111" (by decide), "<CARD_\x7bn\x7d>"⟩ "4111") := by
  have covers := redactInPlace_covers cardEngine_accepted .naive []
    (cardCall (.obj [("card", .str "4111")]))
  have ran : redactInPlace .naive cardEngine .empty (cardCall (.obj [("card", .str "4111")])) =
      (.ok (), cardCall (.obj [("card", .str "<CARD_1>")]),
        Vault.empty.record ⟨"card", .literal "4111" (by decide), "<CARD_\x7bn\x7d>"⟩ "4111") := rfl
  have start : performAll .naive cardEngine .empty [] = .empty := rfl
  dsimp only at covers
  rw [start, ran] at covers
  refine covers.mpr fun turn member text isKey rule listed found => ?_
  rcases List.mem_cons.mp member with rfl | member
  · cases isKey
    cases List.mem_singleton.mp listed
    exact fun none => absurd none List.not_mem_nil
  · cases List.mem_singleton.mp member
    cases isKey

theorem redactInPlace_key :
    (redactInPlace .naive cardEngine .empty (cardCall (.obj [("4111", .str "card")]))).2.1 =
        cardCall (.obj [("4111", .str "card")]) ∧
      ¬ Covers .naive cardEngine .empty (cardCall (.obj [("4111", .str "card")]))
        (cardCall (.obj [("4111", .str "card")])) .empty := by
  refine ⟨rfl, fun covers => ?_⟩
  have told := congrArg (fun run => run.1.toOption) covers.strings
  exact absurd told (by decide)

end LlmGate.Privacy
