import LlmGate.Privacy.Restore

set_option autoImplicit false

namespace LlmGate.Privacy

open Substitution Text

theorem OrderedFrom.mono {size origin earlier : Nat} {spans : List Span} (before : earlier ≤ origin)
    (ordered : OrderedFrom size origin spans) : OrderedFrom size earlier spans := by
  cases spans with
  | nil => trivial
  | cons found rest => exact ⟨before.trans ordered.1, ordered.2⟩

-- The text a rule's loop has reached: what it has written, then the rest of its input.
def Progress.text (progress : Progress) (out : Str) : Str :=
  progress.result ++ out.drop progress.last

/-- The loop of one rule, seen from a later vault that restores: its text restores as its input
does, no token of that vault lies across the seam, and those that occur are known already. -/
structure Kept (last current : Vault) (out : Str) (progress : Progress) : Prop where
  seam : Clean last.table (progress.text out) progress.result.length
  known : ∀ word index, last.table.Word word → OccursAt word (progress.text out) index →
    current.table.Word word
  same : subst last.table (progress.text out) = subst last.table out

section Pass

variable {ac : Searcher Char} {engine : RedactionEngine} {last vault current later : Vault}
  {rule : CompiledRule} {out : Str} {progress : Progress} {found : Span}

theorem Vault.Extends.word (grown : later.Extends vault) {word : Str}
    (present : vault.table.Word word) : later.table.Word word := by
  obtain ⟨value, stored⟩ := Option.isSome_iff_exists.mp present
  have kept : later.table word = some value := grown.tokens word value stored
  simp [Table.Word, kept]

theorem Progress.split (progress : Progress) (out : Str) {found : Span}
    (after : progress.last ≤ found.start) (ordered : found.start ≤ found.stop) :
    progress.text out = (progress.result ++ slice out ⟨progress.last, found.start⟩) ++
      (slice out found ++ out.drop found.stop) := by
  rw [Progress.text, drop_eq_slice_append out after, drop_eq_slice_append out ordered,
    List.append_assoc]

theorem Kept.untouched (valid : engine.Valid) (sound : vault.Sound engine)
    (shielded : ∀ word index, last.table.Word word → OccursAt word out index →
      vault.table.Word word)
    (kept : Kept last current out progress) (after : progress.last ≤ found.start)
    (ordered : found.start ≤ found.stop) (inside : found.stop ≤ out.length)
    (free : overlaps (tokenSpans ac vault.tokens out) found = false) :
    Untouched last.table (progress.text out)
      (progress.result ++ slice out ⟨progress.last, found.start⟩).length
      ((progress.result ++ slice out ⟨progress.last, found.start⟩).length +
        (slice out found).length) := by
  intro word index present occurs
  rw [List.length_append, slice_length _ _ inside, slice_length _ _ (by simp; omega)]
  rcases kept.seam word index present occurs with late | early
  · -- The occurrence lies in the part of the input that is still unread.
    have unread : OccursAt word out (progress.last + (index - progress.result.length)) := by
      rw [← OccursAt.drop]
      rw [← Nat.add_sub_cancel' late, ← OccursAt.drop, Progress.text, List.drop_left] at occurs
      exact occurs
    have spanned := tokenSpans_complete valid sound ac (shielded word _ present unread) unread
    have apart := List.any_eq_false.mp free _ spanned
    simp only [Bool.and_eq_true, decide_eq_true_eq, not_and_or, Nat.not_lt] at apart
    rcases apart with before | behind
    · left; simp only at before ⊢; omega
    · right; simp only at behind ⊢; omega
  · left; simp only; omega

-- An allowed match is copied: the text is the same, the seam moves past the match.
theorem Kept.copied (separated : last.table.Separated) (kept : Kept last current out progress)
    (after : progress.last ≤ found.start) (ordered : found.start ≤ found.stop)
    (untouched : Untouched last.table (progress.text out)
      (progress.result ++ slice out ⟨progress.last, found.start⟩).length
      ((progress.result ++ slice out ⟨progress.last, found.start⟩).length +
        (slice out found).length)) :
    Kept last current out ⟨progress.result ++
      (slice out ⟨progress.last, found.start⟩ ++ slice out found), found.stop, true⟩ := by
  have same : Progress.text ⟨progress.result ++
      (slice out ⟨progress.last, found.start⟩ ++ slice out found), found.stop, true⟩ out =
        progress.text out := by
    rw [progress.split out after ordered, Progress.text]
    simp only [List.append_assoc]
  refine ⟨?_, by rw [same]; exact kept.known, by rw [same]; exact kept.same⟩
  rw [same]
  intro word index present occurs
  have positive := separated.length_pos present
  simp only [List.length_append] at untouched ⊢
  rcases untouched word index present occurs with early | late
  · right; omega
  · left; omega

-- A replaced match restores to itself, and its token meets no other token at the seams.
theorem Kept.replaced (separated : last.table.Separated) (kept : Kept last current out progress)
    (after : progress.last ≤ found.start) (ordered : found.start ≤ found.stop)
    (untouched : Untouched last.table (progress.text out)
      (progress.result ++ slice out ⟨progress.last, found.start⟩).length
      ((progress.result ++ slice out ⟨progress.last, found.start⟩).length +
        (slice out found).length))
    {written : Str} (stored : last.table written = some (slice out found))
    (grown : later.Extends current) (minted : later.table.Word written) :
    Kept last later out ⟨progress.result ++ (slice out ⟨progress.last, found.start⟩ ++ written),
      found.stop, true⟩ := by
  have present : last.table.Word written := by simp [Table.Word, stored]
  have split := progress.split out after ordered
  have shape : Progress.text ⟨progress.result ++
      (slice out ⟨progress.last, found.start⟩ ++ written), found.stop, true⟩ out =
        (progress.result ++ slice out ⟨progress.last, found.start⟩) ++
          (written ++ out.drop found.stop) := by
    rw [Progress.text]
    simp only [List.append_assoc]
  rw [split] at untouched
  refine ⟨?_, ?_, ?_⟩
  · have here : OccursAt written ((progress.result ++ slice out ⟨progress.last, found.start⟩) ++
        (written ++ out.drop found.stop))
        (progress.result ++ slice out ⟨progress.last, found.start⟩).length := by
      rw [OccursAt, List.drop_left]
      exact List.prefix_append _ _
    have cut := (clean_of_occurs separated present here).2
    rw [shape]
    simpa [Nat.add_assoc] using cut
  · intro word index otherPresent occurs
    have inText {offset : Nat} (was : OccursAt word (progress.text out) offset) :
        later.table.Word word :=
      grown.word (kept.known word offset otherPresent was)
    rw [shape] at occurs
    rcases occursAt_around separated present otherPresent occurs with
      rfl | before | ⟨offset, behind, -⟩
    · exact minted
    · have within := before.start_le (separated.length_pos otherPresent)
      apply inText
      rw [split]
      exact before.append_right within _
    · apply inText
      rw [split, ← List.append_assoc, ← OccursAt.shift]
      exact behind
  · rw [shape, subst_swap separated stored untouched, ← split]
    exact kept.same

theorem kept_match (valid : engine.Valid) (member : rule ∈ engine.rules)
    (lastSound : last.Sound engine) (sound : vault.Sound engine)
    (shielded : ∀ word index, last.table.Word word → OccursAt word out index →
      vault.table.Word word)
    (currentSound : current.Sound engine) (kept : Kept last current out progress)
    (after : progress.last ≤ found.start) (ordered : found.start ≤ found.stop)
    (inside : found.stop ≤ out.length) {next : Progress}
    (ran : (redactMatch engine rule out (tokenSpans ac vault.tokens out) progress found).run serve
      current = (.ok next, later))
    (grown : last.Extends later) :
    Kept last later out next ∧ next.last ≤ found.stop := by
  have separated := lastSound.separated valid
  have extended := (run_keeps valid (redactMatch_asks engine member out _ progress found)
    currentSound ran).2
  unfold redactMatch at ran
  split at ran
  next =>
    cases ran
    exact ⟨kept, after.trans ordered⟩
  next free =>
    have untouched := kept.untouched valid sound shielded after ordered inside
      (by simpa using free)
    obtain ⟨written, middle, wrote, finished⟩ := Program.run_bind_ok ran
    cases finished
    refine ⟨?_, Nat.le_refl _⟩
    unfold replacement at wrote
    split at wrote
    next =>
      cases wrote
      exact kept.copied separated after ordered untouched
    next =>
      have minted := askToken_ok valid currentSound member wrote
      have stored : last.table written = some (slice out found) := grown.tokens _ _ minted
      exact kept.replaced separated after ordered untouched stored extended
        (by simp [Table.Word, Vault.table, minted])

theorem kept_matches (valid : engine.Valid) (member : rule ∈ engine.rules)
    (lastSound : last.Sound engine) (sound : vault.Sound engine)
    (shielded : ∀ word index, last.table.Word word → OccursAt word out index →
      vault.table.Word word)
    (spans : List Span) (currentSound : current.Sound engine)
    (kept : Kept last current out progress)
    (ordered : OrderedFrom out.length progress.last spans) {final : Progress}
    (ran : (spans.foldlM (redactMatch engine rule out (tokenSpans ac vault.tokens out))
      progress).run serve current = (.ok final, later))
    (grown : last.Extends later) : Kept last later out final := by
  induction spans generalizing progress current with
  | nil =>
    cases ran
    exact kept
  | cons found rest ih =>
    rw [List.foldlM_cons] at ran
    obtain ⟨next, middle, first, rest⟩ := Program.run_bind_ok ran
    obtain ⟨after, inOrder, inside, remaining⟩ := ordered
    have step := run_keeps valid (redactMatch_asks engine member out _ progress found)
      currentSound first
    have tail := run_keeps valid (Program.asks_foldlM _ (fun found _ progress =>
      redactMatch_asks engine member out _ progress found) _) step.1 rest
    obtain ⟨held, before⟩ := kept_match valid member lastSound sound shielded currentSound kept
      after inOrder inside first (grown.trans tail.2)
    exact ih step.1 held (remaining.mono before) rest

theorem applyRule_kept (valid : engine.Valid) (member : rule ∈ engine.rules)
    (lastSound : last.Sound engine) (sound : vault.Sound engine)
    (shielded : ∀ word index, last.table.Word word → OccursAt word out index →
      vault.table.Word word) {written : Str}
    (ran : (applyRule ac engine out rule).run serve vault = (.ok written, later))
    (grown : last.Extends later) :
    subst last.table written = subst last.table out ∧
      ∀ word index, last.table.Word word → OccursAt word written index →
        later.table.Word word := by
  have extended := (run_keeps valid (applyRule_asks ac engine member out) sound ran).2
  obtain ⟨tokens, middle, asked, ran⟩ := Program.run_bind_ok ran
  cases asked
  obtain ⟨final, middle, loop, finished⟩ := Program.run_bind_ok ran
  cases finished
  have initial : Kept last vault out ⟨[], 0, false⟩ := by
    refine ⟨fun word index _ _ => .inl (Nat.zero_le index), ?_, rfl⟩
    simpa [Progress.text] using shielded
  have kept := kept_matches valid member lastSound sound shielded _ sound initial
    (rule.regex.ordered out) loop grown
  split
  next => exact ⟨kept.same, kept.known⟩
  next =>
    exact ⟨rfl, fun word index present occurs =>
      extended.word (shielded word index present occurs)⟩

theorem redactText_kept (valid : engine.Valid) (lastSound : last.Sound engine)
    (rules : List CompiledRule) (listed : ∀ rule ∈ rules, rule ∈ engine.rules)
    (sound : vault.Sound engine)
    (shielded : ∀ word index, last.table.Word word → OccursAt word out index →
      vault.table.Word word) {written : Str}
    (ran : (rules.foldlM (applyRule ac engine) out).run serve vault = (.ok written, later))
    (grown : last.Extends later) : subst last.table written = subst last.table out := by
  induction rules generalizing out vault with
  | nil =>
    cases ran
    rfl
  | cons rule rest ih =>
    rw [List.foldlM_cons] at ran
    obtain ⟨next, middle, first, ran⟩ := Program.run_bind_ok ran
    have member := listed rule (by simp)
    have step := run_keeps valid (applyRule_asks ac engine member out) sound first
    have tail := run_keeps valid (Program.asks_foldlM rest (fun rule inside out =>
      applyRule_asks ac engine (listed rule (List.mem_cons_of_mem _ inside)) out) next) step.1 ran
    obtain ⟨same, known⟩ := applyRule_kept valid member lastSound sound shielded first
      (grown.trans tail.2)
    rw [ih (fun rule inside => listed rule (by simp [inside])) step.1 known ran, same]

end Pass

-- No template of the engine occurs with its slot filled by a numeral.
def RedactionEngine.NoTokens (engine : RedactionEngine) (text : Str) : Prop :=
  ∀ rule ∈ engine.rules, ∀ n, ¬ mint rule.template n <:+: text

-- No token of the vault occurs in the text.
def Vault.Absent (vault : Vault) (text : Str) : Prop :=
  ∀ word index, vault.table.Word word → ¬ OccursAt word text index

section Requests

variable {ac : Searcher Char} {engine : RedactionEngine} {last vault later : Vault}

theorem RedactionEngine.NoTokens.absent {text : Str} (none : engine.NoTokens text)
    (sound : last.Sound engine) : last.Absent text := by
  intro word index present occurs
  obtain ⟨rule, member, n, -, -, rfl⟩ := sound.present (AList.lookup_isSome.mp present)
  exact none rule member n (occurs.isInfix.trans (List.drop_suffix index text).isInfix)

theorem redactText_restored (valid : engine.Valid) (lastSound : last.Sound engine)
    (sound : vault.Sound engine) {text written : Str} (absent : last.Absent text)
    (ran : (redactText ac engine text).run serve vault = (.ok written, later))
    (grown : last.Extends later) : restoreText ac last written = text := by
  rw [restoreText_eq valid lastSound, redactText_kept valid lastSound engine.rules
    (fun _ member => member) sound (fun word index present occurs =>
      absurd occurs (absent word index present)) ran grown]
  exact subst_plain text absent

-- A redaction of one value that a restore with any later vault undoes.
def Undone {A : Type} (engine : RedactionEngine) (last : Vault) (program : Redaction A)
    (restore : A → A) (original : A) : Prop :=
  ∀ vault later written, vault.Sound engine → program.run serve vault = (.ok written, later) →
    last.Extends later → restore written = original

theorem Undone.map {A B : Type} {program : Redaction A} {restore : A → A} {original : A}
    (undone : Undone engine last program restore original) (wrap : A → B) {unwrap : B → B}
    (natural : ∀ value, unwrap (wrap value) = wrap (restore value)) :
    Undone engine last (program >>= fun value => pure (wrap value)) unwrap (wrap original) := by
  intro vault later written sound ran grown
  obtain ⟨value, middle, first, finished⟩ := Program.run_bind_ok ran
  cases finished
  rw [natural, undone vault later value sound first grown]

theorem Undone.cons {A B : Type} (valid : engine.Valid) (wrap : A → B) {first : Redaction A}
    {rest : Redaction (List B)} {restore : A → A} {restoreAll : List B → List B} {original : A}
    {originals : List B} (head : Undone engine last first restore original)
    (tail : Undone engine last rest restoreAll originals)
    (firstAsks : first.Asks (Request.Of engine)) (restAsks : rest.Asks (Request.Of engine))
    {unwrap : List B → List B}
    (natural : ∀ value values,
      unwrap (wrap value :: values) = wrap (restore value) :: restoreAll values) :
    Undone engine last (first >>= fun value => rest >>= fun values => pure (wrap value :: values))
      unwrap (wrap original :: originals) := by
  intro vault later written sound ran grown
  obtain ⟨value, middle, ranFirst, ran⟩ := Program.run_bind_ok ran
  obtain ⟨values, final, ranRest, finished⟩ := Program.run_bind_ok ran
  cases finished
  have step := run_keeps valid firstAsks sound ranFirst
  have later := run_keeps valid restAsks step.1 ranRest
  rw [natural, head vault middle value sound ranFirst (grown.trans later.2),
    tail middle _ values step.1 ranRest grown]

theorem Undone.mapM {A : Type} (valid : engine.Valid) {f : A → Redaction A} {restore : A → A}
    (inputs : List A) (asks : ∀ input ∈ inputs, (f input).Asks (Request.Of engine))
    (each : ∀ input ∈ inputs, Undone engine last (f input) restore input) :
    Undone engine last (inputs.mapM f) (List.map restore) inputs := by
  induction inputs with
  | nil =>
    intro vault later written _ ran _
    cases ran
    rfl
  | cons input rest ih =>
    rw [List.mapM_cons]
    have restAsks : ∀ item ∈ rest, (f item).Asks (Request.Of engine) := fun item inside =>
      asks item (List.mem_cons_of_mem _ inside)
    exact Undone.cons valid id (each input (by simp))
      (ih restAsks fun item inside => each item (List.mem_cons_of_mem _ inside))
      (asks input (by simp)) (Program.asks_mapM rest restAsks) fun _ _ => rfl

theorem redactText_undone (valid : engine.Valid) (lastSound : last.Sound engine) {text : Str}
    (absent : last.Absent text) :
    Undone engine last (redactText ac engine text) (restoreText ac last) text :=
  fun _ _ _ sound ran grown => redactText_restored valid lastSound sound absent ran grown

mutual
theorem redactJson_undone (valid : engine.Valid) (lastSound : last.Sound engine) (value : Json)
    (absent : ∀ text ∈ value.strings, last.Absent text) :
    Undone engine last (redactJson ac engine value) (restoreJson ac last) value := by
  cases value with
  | str text =>
    exact (redactText_undone valid lastSound (absent text (by simp [Json.strings]))).map
      Json.str fun _ => rfl
  | arr items =>
    exact (redactItems_undone valid lastSound items absent).map Json.arr fun _ => rfl
  | obj fields =>
    exact (redactFields_undone valid lastSound fields absent).map Json.obj fun _ => rfl
  | null =>
    intro vault later written _ ran _
    cases ran
    rfl
  | bool flag =>
    intro vault later written _ ran _
    cases ran
    rfl
  | num n =>
    intro vault later written _ ran _
    cases ran
    rfl
theorem redactItems_undone (valid : engine.Valid) (lastSound : last.Sound engine)
    (items : List Json) (absent : ∀ text ∈ Json.itemStrings items, last.Absent text) :
    Undone engine last (redactItems ac engine items)
      (Json.mapItems (restoreText ac last)) items := by
  cases items with
  | nil =>
    intro vault later written _ ran _
    cases ran
    rfl
  | cons item rest =>
    simp only [Json.itemStrings, List.mem_append] at absent
    exact Undone.cons valid id
      (redactJson_undone valid lastSound item fun text member => absent text (.inl member))
      (redactItems_undone valid lastSound rest fun text member => absent text (.inr member))
      (redactJson_asks ac engine item) (redactItems_asks ac engine rest) fun _ _ => rfl
theorem redactFields_undone (valid : engine.Valid) (lastSound : last.Sound engine)
    (fields : List (Str × Json))
    (absent : ∀ text ∈ Json.fieldStrings fields, last.Absent text) :
    Undone engine last (redactFields ac engine fields)
      (Json.mapFields (restoreText ac last)) fields := by
  cases fields with
  | nil =>
    intro vault later written _ ran _
    cases ran
    rfl
  | cons field rest =>
    simp only [Json.fieldStrings, List.mem_append] at absent
    exact Undone.cons valid (fun value => (field.1, value))
      (redactJson_undone valid lastSound field.2 fun text member => absent text (.inl member))
      (redactFields_undone valid lastSound rest fun text member => absent text (.inr member))
      (redactJson_asks ac engine field.2) (redactFields_asks ac engine rest) fun _ _ => rfl
end

theorem redactBlock_undone (valid : engine.Valid) (lastSound : last.Sound engine)
    (block : ContentBlock) (absent : ∀ text ∈ blockStrings block, last.Absent text) :
    Undone engine last (redactBlock ac engine block) (restoreBlock ac last) block := by
  cases block with
  | text text =>
    have inner : Undone engine last (redactText ac engine text) (restoreText ac last) text :=
      redactText_undone valid lastSound (absent text (by simp [blockStrings]))
    exact inner.map ContentBlock.text fun _ => rfl
  | thinking thinking signature =>
    have inner : Undone engine last (redactText ac engine thinking) (restoreText ac last) thinking :=
      redactText_undone valid lastSound (absent thinking (by simp [blockStrings]))
    exact inner.map (ContentBlock.thinking · signature) fun _ => rfl
  | toolResult toolUseId content isError =>
    have inner : Undone engine last (redactText ac engine content) (restoreText ac last) content :=
      redactText_undone valid lastSound (absent content (by simp [blockStrings]))
    exact inner.map (ContentBlock.toolResult toolUseId · isError) fun _ => rfl
  | toolUse id name input =>
    exact (redactJson_undone valid lastSound input absent).map (ContentBlock.toolUse id name) fun _ => rfl
  | image mediaType base64 =>
    intro vault later written _ ran _
    cases ran
    rfl
  | redactedThinking data =>
    intro vault later written _ ran _
    cases ran
    rfl

theorem redactMessage_asks (message : NeutralMessage) :
    (redactMessage ac engine message).Asks (Request.Of engine) :=
  Program.asks_bind (Program.asks_mapM _ fun block _ => redactBlock_asks ac engine block)
    fun _ => trivial

theorem redactMessage_undone (valid : engine.Valid) (lastSound : last.Sound engine)
    (message : NeutralMessage)
    (absent : ∀ text ∈ message.content.flatMap blockStrings, last.Absent text) :
    Undone engine last (redactMessage ac engine message) (restoreMessage ac last) message := by
  have blocks : Undone engine last (message.content.mapM (redactBlock ac engine))
      (List.map (restoreBlock ac last)) message.content :=
    Undone.mapM valid _ (fun block _ => redactBlock_asks ac engine block) fun block member =>
      redactBlock_undone valid lastSound block fun text scanned =>
        absent text (List.mem_flatMap.mpr ⟨block, member, scanned⟩)
  exact blocks.map (NeutralMessage.mk message.role) fun _ => rfl

theorem redactRequest_undone (valid : engine.Valid) (lastSound : last.Sound engine)
    (request : NeutralRequest) (absent : ∀ text ∈ requestStrings request, last.Absent text) :
    Undone engine last (redactRequest ac engine request) (restoreRequest ac last) request := by
  have messages : Undone engine last (request.messages.mapM (redactMessage ac engine))
      (List.map (restoreMessage ac last)) request.messages :=
    Undone.mapM valid _ (fun message _ => redactMessage_asks message) fun message member =>
      redactMessage_undone valid lastSound message fun text scanned =>
        absent text (List.mem_flatMap.mpr ⟨message, member, scanned⟩)
  intro vault later written sound ran grown
  obtain ⟨redacted, middle, first, finished⟩ := Program.run_bind_ok ran
  cases finished
  have same := messages vault later redacted sound first grown
  exact congrArg (fun messages => { request with messages }) same

end Requests

/-- Redaction is reversible: restoring with the final vault of a fresh session gives back the
request, whatever its rules match, if no scanned string looks like a token. -/
theorem redactRequest_restored {compile : Compile} {config : PrivacyConfig}
    {engine : RedactionEngine} (accepted : RedactionEngine.new compile config = .ok engine)
    (ac : Searcher Char) (request : NeutralRequest)
    (none : ∀ text ∈ requestStrings request, engine.NoTokens text) {redacted : NeutralRequest}
    {vault : Vault} (ran : (redactRequest ac engine request).run serve .empty =
      (.ok redacted, vault)) :
    restoreRequest ac vault redacted = request := by
  have valid := new_valid accepted
  have fresh := Vault.empty_sound engine
  have held := run_keeps valid (redactRequest_asks ac engine request) fresh ran
  exact redactRequest_undone valid held.1 request
    (fun text scanned => (none text scanned).absent held.1) .empty vault redacted fresh ran
    (.refl vault)

theorem RedactionEngine.Valid.noTokens {engine : RedactionEngine} (valid : engine.Valid)
    {text : Str} (absent : '<' ∉ text) : engine.NoTokens text := by
  intro rule member n inside
  obtain ⟨body, shape, -, -⟩ := mint_delimited (valid.grammatical rule member) n
  exact absent (inside.subset (by rw [shape]; simp))

def cardRequest (text : Str) : NeutralRequest where
  model := "model"
  messages := [⟨.user, [.text text]⟩]
  tools := []
  maxTokens := none
  maxCompletionTokens := none
  temperature := none
  topP := none
  topK := none
  stop := none
  stream := false

theorem redactRequest_restored_card :
    restoreRequest .naive
        (Vault.empty.record ⟨"card", .literal "4111" (by decide), "<CARD_\x7bn\x7d>"⟩ "4111")
        (cardRequest "pay <CARD_1>") =
      cardRequest "pay 4111" :=
  redactRequest_restored cardEngine_accepted .naive (cardRequest "pay 4111")
    (by
      have strings : requestStrings (cardRequest "pay 4111") = [("pay 4111" : Str)] := rfl
      intro text member
      apply (new_valid cardEngine_accepted).noTokens
      rw [strings, List.mem_singleton] at member
      rw [member]
      decide)
    rfl

end LlmGate.Privacy
