import LlmGate.Core.Neutral

set_option autoImplicit false

namespace LlmGate.Privacy

open Substitution Text

def MAX_SESSION_TOKENS : Nat := 4096

-- Ordered, non-overlapping spans of a text, as an iterator of matches yields them.
def OrderedFrom (size : Nat) : Nat → List Span → Prop
  | _, [] => True
  | origin, found :: rest =>
    origin ≤ found.start ∧ found.start ≤ found.stop ∧ found.stop ≤ size ∧
      OrderedFrom size found.stop rest

/-- A compiled regular expression, by what it finds; of the matcher itself only the order of
its matches is known. -/
structure Regex where
  findIter : Str → List Span
  isMatch : Str → Bool
  ordered : ∀ text, OrderedFrom text.length 0 (findIter text)

theorem ordered_of_allMatches {words : List Str} {text : Str} {origin : Nat} {spans : List Span}
    (all : AllMatches words text origin spans) : OrderedFrom text.length origin spans := by
  induction spans generalizing origin with
  | nil => trivial
  | cons found rest ih =>
    obtain ⟨⟨before, ordered, inside, -, -⟩, later⟩ := all
    exact ⟨before, ordered, inside, ih later⟩

-- A pattern without metacharacters matches itself.
def Regex.literal (word : Str) (nonempty : word ≠ []) : Regex where
  findIter text := Searcher.naive.findIter [word] text
  isMatch text := Searcher.naive.findIter [word] text ≠ []
  ordered text := ordered_of_allMatches
    (Searcher.naive.findIter_all [word] text (by simpa using nonempty.symm))

structure RuleConfig where
  name : Str
  pattern : Str
  replacement : Str

structure AllowListConfig where
  domains : List Str := []
  patterns : List Str := []

structure PrivacyConfig where
  enabled : Bool := false
  vault : Str := "memory"
  rules : List RuleConfig := []
  allowList : AllowListConfig := {}

structure CompiledRule where
  name : Str
  regex : Regex
  template : Str

structure RedactionEngine where
  rules : List CompiledRule
  allowDomains : List Str
  allowPatterns : List Regex
  maxTokenLen : Nat

inductive ConfigError
  | unsupportedBackend (vault : Str)
  | builtInRule (name message : Str)
  | emptyRuleName
  | template (rule what : Str)
  | invalidPattern (rule message : Str)
  | matchesEmpty (rule : Str)
  | sameTemplate (first second template : Str)
  | collidingTemplates (first second firstTemplate secondTemplate : Str)
  | invalidAllowPattern (message : Str)
deriving DecidableEq, Repr

def slot : Str := ['{', 'n', '}']

def DEFAULT_RULES : List (Str × Str × Str) :=
  [("EMAIL", "\\b[A-Za-z0-9._%+-]+@[A-Za-z0-9.-]+\\.[A-Za-z]\x7b2,\x7d\\b", "<EMAIL_\x7bn\x7d>"),
    ("IPV4",
      "\\b(?:(?:25[0-5]|2[0-4]\\d|1?\\d?\\d)\\.)\x7b3\x7d(?:25[0-5]|2[0-4]\\d|1?\\d?\\d)\\b",
      "<IP_\x7bn\x7d>"),
    ("PHONE", "\\b\\d\x7b3\x7d[-.)]\\d\x7b3\x7d[-.]\\d\x7b4\x7d\\b", "<PHONE_\x7bn\x7d>"),
    ("API_KEY", "\\b(?:sk|pk)-[A-Za-z0-9]\x7b20,64\x7d\\b", "<SECRET_\x7bn\x7d>")]

def canMatchEmpty (regex : Regex) : Bool :=
  (([ "a", "a b", " a", "a ", "123", "é", " " ] : List Str).any fun probe =>
      (regex.findIter probe).any fun found => found.start == found.stop) ||
    regex.isMatch []

def isNameChar (c : Char) : Bool := c.isAlphanum || c == '_'

def validateTemplate (rule : RuleConfig) : Except ConfigError Unit :=
  let bad (what : Str) : Except ConfigError Unit := .error (.template rule.name what)
  match stripPrefix "<" rule.replacement with
  | none => bad "must start with a single '<'"
  | some rest =>
    match stripSuffix ">" rest with
    | none => bad "must end with a single '>'"
    | some rest =>
      if rest.count '{' ≠ 1 ∨ rest.count '}' ≠ 1 ∨ ¬ slot.isSuffixOf rest then
        bad "must contain exactly one \x7b\x7bn\x7d\x7d slot immediately before the closing '>'"
      else
        let name := rest.take (rest.length - 3)
        if name = [] ∨ ¬ name.all isNameChar then
          bad ("name must be non-empty and use only [A-Za-z0-9_] (no '<', '>', spaces, or " ++
            "punctuation)")
        else .ok ()

-- Everything between the leading '<' and the trailing slot.
def templatePrefix (template : Str) : Str := (template.take (template.length - 4)).drop 1

def digitSuffixCollides (pa pb : Str) : Bool :=
  let (long, short) := if pa.length ≥ pb.length then (pa, pb) else (pb, pa)
  if ¬ short.isPrefixOf long then false
  else
    let suffix := long.drop short.length
    suffix ≠ [] && suffix.all Char.isDigit && suffix.head? ≠ some '0'

def checkPair (a b : CompiledRule) : Except ConfigError Unit :=
  let pa := templatePrefix a.template
  let pb := templatePrefix b.template
  if pa = pb then .error (.sameTemplate a.name b.name a.template)
  else if digitSuffixCollides pa pb then
    .error (.collidingTemplates a.name b.name a.template b.template)
  else .ok ()

def checkNamespaces : List CompiledRule → Except ConfigError Unit
  | [] => .ok ()
  | a :: rest => do
    rest.forM (checkPair a)
    checkNamespaces rest

-- `Regex::new`, from the regex crate.
abbrev Compile := Str → Except Str Regex

-- `Regex::new` on the non-empty patterns without metacharacters.
def literals : Compile := fun pattern =>
  if nonempty : pattern ≠ [] then .ok (.literal pattern nonempty) else .error "empty pattern"

def compileRule (compile : Compile) (rule : RuleConfig) : Except ConfigError CompiledRule :=
  if trim rule.name = [] then .error .emptyRuleName
  else do
    validateTemplate rule
    match compile rule.pattern with
    | .error message => .error (.invalidPattern rule.name message)
    | .ok regex =>
      if canMatchEmpty regex then .error (.matchesEmpty rule.name)
      else .ok { name := rule.name, regex, template := rule.replacement }

-- A built-in pattern that does not compile panics; no engine is built either way.
def compileDefault (compile : Compile) (rule : Str × Str × Str) : Except ConfigError CompiledRule :=
  match compile rule.2.1 with
  | .error message => .error (.builtInRule rule.1 message)
  | .ok regex => .ok { name := rule.1, regex, template := rule.2.2 }

def compileAllowed (compile : Compile) (pattern : Str) : Except ConfigError Regex :=
  match compile pattern with
  | .error message => .error (.invalidAllowPattern message)
  | .ok regex => .ok regex

-- The longest template, its slot widened to twelve digits.
def longestToken (rules : List CompiledRule) : Nat :=
  let lengths := rules.map fun rule => (byteLen rule.template - 3) + 12
  max (lengths.max?.getD 16) 16

def compileRules (compile : Compile) (rules : List RuleConfig) :
    Except ConfigError (List CompiledRule) :=
  if rules = [] then DEFAULT_RULES.mapM (compileDefault compile)
  else rules.mapM (compileRule compile)

def RedactionEngine.new (compile : Compile) (config : PrivacyConfig) :
    Except ConfigError RedactionEngine :=
  if config.vault ≠ "memory" then .error (.unsupportedBackend config.vault)
  else do
    let rules ← compileRules compile config.rules
    checkNamespaces rules
    let allowPatterns ← config.allowList.patterns.mapM (compileAllowed compile)
    pure
      { rules, allowDomains := config.allowList.domains, allowPatterns,
        maxTokenLen := longestToken rules }

def RedactionEngine.isAllowed (engine : RedactionEngine) (matched : Str) : Bool :=
  if engine.allowPatterns.any (·.isMatch matched) then true
  else if engine.allowDomains = [] then false
  else
    let candidate :=
      if matched.contains '@' then afterLast '@' matched
      else
        match splitOnce "://" matched with
        | some (_, rest) => beforeAny ['/', '?', '#'] rest
        | none => matched
    let candidate := trim candidate
    engine.allowDomains.any fun domain =>
      let domain := trim domain
      domain ≠ [] && (candidate = domain || ('.' :: domain).isSuffixOf candidate)

end LlmGate.Privacy
