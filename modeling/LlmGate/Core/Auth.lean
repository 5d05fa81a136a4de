import LlmGate.Shared.Program
import LlmGate.Shared.Split
import LlmGate.Shared.Utf8
import Mathlib.Data.List.AList
import Mathlib.Data.Nat.Bitwise

set_option autoImplicit false

namespace LlmGate.Auth

open Text Utf8

-- What the http and url crates decide.
structure Http where
  toStr : Bytes → Option Str
  fromStr : Str → Option Bytes
  isHeaderName : Str → Bool
  urlScheme : Str → Except Str Str

section Config

structure AuthConfig where
  apiKeys : List Str

structure UpstreamConfig where
  url : Str
  extraHeaders : List (Str × Str)

structure ModelsConfig where
  prefixes : List Str

structure MemoryConfig where
  enabled : Bool
  path : Option Str

structure Config where
  auth : AuthConfig
  upstream : UpstreamConfig
  models : ModelsConfig
  memory : MemoryConfig

inductive ConfigError
  | emptyKey
  | invalidKey (key : Str)
  | paddedKey (key : Str)
  | invalidUrl (url message : Str)
  | unsupportedScheme (url : Str)
  | invalidHeaderName (name : Str)
  | emptyPrefix
  | missingMemoryPath
deriving DecidableEq, Repr

variable (http : Http)

def validateKey (key : Str) : Except ConfigError Unit :=
  if trim key = [] then .error .emptyKey
  else if ((http.fromStr key).bind http.toStr).isNone then .error (.invalidKey key)
  else if key ≠ trim key then .error (.paddedKey key)
  else .ok ()

def validateUrl (url : Str) : Except ConfigError Unit :=
  match http.urlScheme url with
  | .error message => .error (.invalidUrl url message)
  | .ok scheme =>
    if scheme = "http" ∨ scheme = "https" then .ok () else .error (.unsupportedScheme url)

-- The warning about an open proxy is only logged.
def Config.validate (config : Config) : Except ConfigError Unit := do
  config.auth.apiKeys.forM (validateKey http)
  validateUrl http config.upstream.url
  config.upstream.extraHeaders.forM fun header =>
    if http.isHeaderName header.1 then .ok () else .error (.invalidHeaderName header.1)
  config.models.prefixes.forM fun affix => if affix = [] then .error .emptyPrefix else .ok ()
  if config.memory.enabled ∧ (config.memory.path.map trim).getD [] = [] then
    .error .missingMemoryPath
  else .ok ()

theorem validate_nonempty {config : Config} (valid : config.validate http = .ok ()) :
    [] ∉ config.auth.apiKeys := by
  intro member
  obtain ⟨⟨⟩, checked, -⟩ := ok_of_bind valid
  have failed : validateKey http [] = .error .emptyKey := if_pos rfl
  rw [forM_ok.mp checked [] member] at failed
  cases failed

end Config

section Compare

-- Both texts are read up to the length of the longer one.
def ctEq (a b : Str) : Bool :=
  let aa := toUtf8 a
  let ab := toUtf8 b
  let diff := (List.range (max aa.length ab.length)).foldl
    (fun diff i => diff ||| ((aa.getD i 0).toNat ^^^ (ab.getD i 0).toNat))
    (aa.length ^^^ ab.length)
  diff == 0

theorem foldl_or (f : Nat → Nat) (indices : List Nat) (diff : Nat) :
    indices.foldl (fun diff i => diff ||| f i) diff = 0 ↔ diff = 0 ∧ ∀ i ∈ indices, f i = 0 := by
  induction indices generalizing diff with
  | nil => simp
  | cons index rest ih =>
    rw [List.foldl_cons, ih, Nat.or_eq_zero_iff, List.forall_mem_cons, and_assoc]

theorem ctEq_iff (a b : Str) : ctEq a b = true ↔ a = b := by
  unfold ctEq
  dsimp only
  rw [beq_iff_eq, foldl_or]
  constructor
  · rintro ⟨lengths, bytes⟩
    have length := Nat.xor_eq_zero_iff.mp lengths
    refine toUtf8_injective (List.ext_getElem length fun i inside other => ?_)
    have byte := bytes i (List.mem_range.mpr (lt_max_of_lt_left inside))
    have same := Nat.xor_eq_zero_iff.mp byte
    rw [List.getD_eq_getElem _ _ inside, List.getD_eq_getElem _ _ other] at same
    exact UInt8.toNat_inj.mp same
  · rintro rfl
    exact ⟨Nat.xor_self _, fun i _ => Nat.xor_self _⟩

end Compare

section Request

/-- A header map with at most one value a header, under lower-case names. -/
abbrev HeaderMap := AList fun _ : Str => Bytes

structure Request (B : Type) where
  headers : HeaderMap
  body : B

structure Reply where
  status : Nat
  headers : List (Str × Str)
  body : Str
deriving DecidableEq, Repr

def credentialHeaders : List Str := ["authorization", "api-key", "x-api-key"]

def stripCredentialHeaders (headers : HeaderMap) : HeaderMap :=
  (["api-key", "x-api-key"] : List Str).foldl (fun headers name => headers.erase name)
    (headers.erase "authorization")

-- `split_once(char::is_whitespace)`.
def splitWhitespace (text : Str) : Option (Str × Str) :=
  match text.dropWhile (!isWhitespace ·) with
  | [] => none
  | _ :: rest => some (text.takeWhile (!isWhitespace ·), rest)

def eqIgnoreAsciiCase (a b : Str) : Bool := a.map Char.toLower == b.map Char.toLower

variable (http : Http)

def extractKey (headers : HeaderMap) : Option Str :=
  credentialHeaders.findSome? fun name =>
    match ((headers.lookup name).bind http.toStr).map trim with
    | none => none
    | some value =>
      if name = "authorization" then
        match splitWhitespace value with
        | none => none
        | some (scheme, creds) =>
          if !eqIgnoreAsciiCase scheme "Bearer" then none
          else
            let creds := trim creds
            if creds ≠ [] then some creds else none
      else if value ≠ [] then some value
      else none

def unauthorized : Reply where
  status := 401
  headers := [("content-type", "application/json"), ("www-authenticate", "Bearer")]
  body := "\x7b\"error\":\x7b\"message\":\"invalid or missing api key\"\x7d\x7d"

variable {B : Type}

def requireAuth (config : Config) (request : Request B) : Except Reply (Request B) :=
  if config.auth.apiKeys = [] then .ok request
  else
    match extractKey http request.headers with
    | none => .error unauthorized
    | some presented =>
      let maxKeyLen := ((config.auth.apiKeys.map fun key => (toUtf8 key).length).max?).getD 0
      if (toUtf8 presented).length > maxKeyLen then .error unauthorized
      else
        -- All keys are compared.
        let keyOk := config.auth.apiKeys.foldl (fun ok key => ok || ctEq key presented) false
        if keyOk then .ok { request with headers := stripCredentialHeaders request.headers }
        else .error unauthorized

end Request

section Credentials

variable (http : Http)

def credentialOf (name value : Str) : Option Str :=
  if name = "authorization" then
    (splitWhitespace (trim value)).bind fun found =>
      if eqIgnoreAsciiCase found.1 "Bearer" then some (trim found.2) else none
  else some (trim value)

/-- The credentials that a request presents; a value that is no text presents none. -/
def presented (headers : HeaderMap) : List Str :=
  credentialHeaders.filterMap fun name =>
    ((headers.lookup name).bind http.toStr).bind (credentialOf name)

theorem findSome?_filter {A : Type} (present : A → Option Str) (items : List A) :
    (items.findSome? fun item => (present item).filter (· ≠ [])) =
      (items.filterMap present).find? (· ≠ []) := by
  induction items with
  | nil => rfl
  | cons item rest ih =>
    rw [List.findSome?_cons]
    cases held : present item with
    | none =>
      rw [List.filterMap_cons_none held]
      exact ih
    | some text =>
      rw [List.filterMap_cons_some held]
      cases text with
      | nil => exact ih
      | cons => rfl

theorem extractKey_eq (headers : HeaderMap) :
    extractKey http headers = (presented http headers).find? (· ≠ []) := by
  rw [presented, ← findSome?_filter, extractKey]
  congr 1
  funext name
  cases (headers.lookup name).bind http.toStr with
  | none => rfl
  | some value =>
    rw [Option.map_some, Option.bind_some, credentialOf]
    dsimp only
    split
    next =>
      cases splitWhitespace (trim value) with
      | none => rfl
      | some found =>
        obtain ⟨scheme, creds⟩ := found
        dsimp only
        rw [Option.bind_some]
        dsimp only
        cases eqIgnoreAsciiCase scheme "Bearer" with
        | false => rfl
        | true => cases trim creds <;> rfl
    next => cases trim value <;> rfl

/-- The first credential that is not empty is no key, and a later one is. -/
def Shadowed (keys credentials : List Str) : Prop :=
  ∃ before wrong after, credentials = before ++ wrong :: after ∧ (∀ blank ∈ before, blank = []) ∧
    wrong ≠ [] ∧ wrong ∉ keys ∧ ∃ credential ∈ after, credential ∈ keys

theorem shadowed_blank (keys rest : List Str) :
    Shadowed keys ([] :: rest) ↔ Shadowed keys rest := by
  constructor
  · rintro ⟨before, wrong, after, split, blanks, filled, unknown, key⟩
    cases before with
    | nil =>
      cases split
      exact absurd rfl filled
    | cons blank before =>
      cases split
      exact ⟨before, wrong, after, rfl, (List.forall_mem_cons.mp blanks).2, filled, unknown, key⟩
  · rintro ⟨before, wrong, after, split, blanks, filled, unknown, key⟩
    exact ⟨[] :: before, wrong, after, congrArg _ split, List.forall_mem_cons.mpr ⟨rfl, blanks⟩,
      filled, unknown, key⟩

theorem shadowed_filled {keys : List Str} {first : Str} (filled : first ≠ []) (rest : List Str) :
    Shadowed keys (first :: rest) ↔ first ∉ keys ∧ ∃ credential ∈ rest, credential ∈ keys := by
  constructor
  · rintro ⟨before, wrong, after, split, blanks, -, unknown, key⟩
    cases before with
    | nil =>
      cases split
      exact ⟨unknown, key⟩
    | cons blank before =>
      cases split
      exact absurd (blanks _ List.mem_cons_self) filled
  · rintro ⟨unknown, key⟩
    exact ⟨[], first, rest, rfl, fun blank member => absurd member List.not_mem_nil, filled,
      unknown, key⟩

theorem first_decides {keys : List Str} (nonempty : [] ∉ keys) (credentials : List Str) :
    ((∃ key ∈ keys, credentials.find? (· ≠ []) = some key) ↔
      ∃ credential ∈ credentials, credential ∈ keys) ↔ ¬Shadowed keys credentials := by
  induction credentials with
  | nil =>
    refine iff_of_true (iff_of_false ?_ ?_) ?_
    · rintro ⟨key, -, none⟩
      cases none
    · rintro ⟨credential, member, -⟩
      cases member
    · rintro ⟨before, wrong, after, split, -⟩
      cases before <;> cases split
  | cons first rest ih =>
    by_cases filled : first = []
    · subst filled
      rw [shadowed_blank, ← ih, List.find?_cons_of_neg (by simp), List.exists_mem_cons_iff]
      simp only [nonempty, false_or]
    · rw [shadowed_filled filled, List.find?_cons_of_pos (by simpa using filled),
        List.exists_mem_cons_iff]
      have same : (∃ key ∈ keys, some first = some key) ↔ first ∈ keys := by
        constructor
        · rintro ⟨key, member, same⟩
          exact Option.some.inj same ▸ member
        · exact fun member => ⟨first, member, rfl⟩
      rw [same]
      by_cases known : first ∈ keys <;> simp [known]

end Credentials

section Accepted

variable (http : Http) {B : Type}

theorem any_key (presented : Str) (keys : List Str) (ok : Bool) :
    keys.foldl (fun ok key => ok || ctEq key presented) ok = (ok || decide (presented ∈ keys)) := by
  induction keys generalizing ok with
  | nil => simp
  | cons key rest ih =>
    have compared : ctEq key presented = decide (presented = key) :=
      Bool.eq_iff_iff.mpr ((ctEq_iff key presented).trans
        (eq_comm.trans decide_eq_true_iff.symm))
    rw [List.foldl_cons, ih, compared, Bool.or_assoc, ← Bool.decide_or]
    congr 1
    exact decide_eq_decide.mpr List.mem_cons.symm

def keyAccepted (keys : List Str) (presented : Str) : Bool :=
  let maxKeyLen := ((keys.map fun key => (toUtf8 key).length).max?).getD 0
  if (toUtf8 presented).length > maxKeyLen then false
  else keys.foldl (fun ok key => ok || ctEq key presented) false

-- The bound on the length turns no configured key away.
theorem keyAccepted_iff (keys : List Str) (presented : Str) :
    keyAccepted keys presented = true ↔ presented ∈ keys := by
  unfold keyAccepted
  dsimp only
  rw [any_key, Bool.false_or]
  by_cases known : presented ∈ keys
  · have within : ¬(toUtf8 presented).length >
        ((keys.map fun key => (toUtf8 key).length).max?).getD 0 :=
      Nat.not_lt.mpr (List.le_max?_getD_of_mem (List.mem_map_of_mem known))
    rw [if_neg within, decide_eq_true_iff]
  · rw [decide_eq_false known, ite_self]
    exact iff_of_false Bool.false_ne_true known

theorem requireAuth_eq (config : Config) (request : Request B) :
    requireAuth http config request =
      if config.auth.apiKeys = [] then .ok request
      else
        match extractKey http request.headers with
        | none => .error unauthorized
        | some presented =>
          if keyAccepted config.auth.apiKeys presented then
            .ok { request with headers := stripCredentialHeaders request.headers }
          else .error unauthorized := by
  unfold requireAuth keyAccepted
  split
  next => rfl
  next =>
    cases extractKey http request.headers with
    | none => rfl
    | some presented =>
      dsimp only
      split <;> rfl

/-- The key that a request presents is accepted if and only if it is byte for byte a configured
one. -/
theorem keys_decide (config : Config) (request : Request B) :
    (∀ presented, keyAccepted config.auth.apiKeys presented = true ↔
      ∃ key ∈ config.auth.apiKeys, toUtf8 key = toUtf8 presented) ∧
    requireAuth http config request =
      if config.auth.apiKeys = [] then .ok request
      else
        match extractKey http request.headers with
        | none => .error unauthorized
        | some presented =>
          if keyAccepted config.auth.apiKeys presented then
            .ok { request with headers := stripCredentialHeaders request.headers }
          else .error unauthorized := by
  refine ⟨fun presented => ?_, requireAuth_eq http config request⟩
  rw [keyAccepted_iff]
  constructor
  · exact fun known => ⟨presented, known, rfl⟩
  · rintro ⟨key, known, same⟩
    exact toUtf8_injective same ▸ known

-- A byte past the end of the shorter text counts as zero, and the lengths still differ.
example : keyAccepted ["k", "long"] "k\x00" = false ∧ keyAccepted ["k", "long"] "k" = true := by
  decide

theorem requireAuth_ok {config : Config} (enabled : config.auth.apiKeys ≠ [])
    {request passed : Request B} :
    requireAuth http config request = .ok passed ↔
      (∃ key ∈ config.auth.apiKeys, extractKey http request.headers = some key) ∧
        passed = { request with headers := stripCredentialHeaders request.headers } := by
  rw [requireAuth_eq, if_neg enabled]
  cases extractKey http request.headers with
  | none =>
    refine iff_of_false (by simp) ?_
    rintro ⟨⟨key, -, none⟩, -⟩
    cases none
  | some presented =>
    dsimp only
    rw [if_congr (keyAccepted_iff config.auth.apiKeys presented) rfl rfl]
    by_cases known : presented ∈ config.auth.apiKeys
    · rw [if_pos known]
      exact ⟨fun same => ⟨⟨presented, known, rfl⟩, (Except.ok.inj same).symm⟩,
        fun same => congrArg Except.ok same.2.symm⟩
    · refine iff_of_false ?_ ?_
      · rw [if_neg known]
        simp
      · rintro ⟨⟨key, member, same⟩, -⟩
        exact known (Option.some.inj same ▸ member)

theorem lookup_erase (headers : HeaderMap) (removed name : Str) :
    (headers.erase removed).lookup name =
      if name = removed then none else headers.lookup name := by
  split
  next same =>
    rw [same]
    exact AList.lookup_erase removed headers
  next other => exact AList.lookup_erase_ne other

theorem lookup_eraseAll (headers : HeaderMap) (removed : List Str) (name : Str) :
    (removed.foldl (fun headers name => headers.erase name) headers).lookup name =
      if name ∈ removed then none else headers.lookup name := by
  induction removed generalizing headers with
  | nil => rfl
  | cons first rest ih =>
    rw [List.foldl_cons, ih, lookup_erase]
    by_cases later : name ∈ rest
    · rw [if_pos later, if_pos (List.mem_cons_of_mem _ later)]
    · rw [if_neg later]
      exact if_congr (by rw [List.mem_cons, or_iff_left later]) rfl rfl

theorem lookup_strip (headers : HeaderMap) (name : Str) :
    (stripCredentialHeaders headers).lookup name =
      if name ∈ credentialHeaders then none else headers.lookup name :=
  lookup_eraseAll headers credentialHeaders name

/-- The requests that present a key pass, and only they, without the credential headers. -/
def AuthExact (config : Config) (request : Request B) : Prop :=
  ((∃ passed, requireAuth http config request = .ok passed) ↔
    ∃ credential ∈ presented http request.headers, credential ∈ config.auth.apiKeys) ∧
  ∀ passed, requireAuth http config request = .ok passed →
    passed.body = request.body ∧ ∀ name,
      (name ∈ credentialHeaders → passed.headers.lookup name = none) ∧
      (name ∉ credentialHeaders → passed.headers.lookup name = request.headers.lookup name)

/-- Authentication is exact if and only if no credential shadows a key. -/
theorem authentication_exact {config : Config} (valid : config.validate http = .ok ())
    (enabled : config.auth.apiKeys ≠ []) (request : Request B) :
    AuthExact http config request ↔
      ¬Shadowed config.auth.apiKeys (presented http request.headers) := by
  have accepted : (∃ passed, requireAuth http config request = .ok passed) ↔
      ∃ key ∈ config.auth.apiKeys,
        (presented http request.headers).find? (· ≠ []) = some key := by
    rw [← extractKey_eq]
    constructor
    · rintro ⟨passed, same⟩
      exact ((requireAuth_ok http enabled).mp same).1
    · exact fun known => ⟨_, (requireAuth_ok http enabled).mpr ⟨known, rfl⟩⟩
  rw [AuthExact, accepted, first_decides (validate_nonempty http valid)]
  refine and_iff_left fun passed same => ?_
  obtain ⟨-, rfl⟩ := (requireAuth_ok http enabled).mp same
  refine ⟨rfl, fun name => ⟨fun credential => ?_, fun other => ?_⟩⟩
  · exact (lookup_strip request.headers name).trans (if_pos credential)
  · exact (lookup_strip request.headers name).trans (if_neg other)

-- Values and names that are visible ASCII texts, and URLs by what stands before `://`.
def asciiHttp : Http where
  toStr value := (fromUtf8 value).filter (·.all fun c => ' ' ≤ c && c ≤ '~')
  fromStr text := some (toUtf8 text)
  isHeaderName name := name.all fun c => c.isAlphanum || c == '-'
  urlScheme url :=
    match splitOnce "://" url with
    | some (scheme, _) => .ok scheme
    | none => .error "relative URL without a base"

def keyedConfig : Config where
  auth := ⟨["sk-1"]⟩
  upstream := ⟨"https://api.example.com", [("x-api-key", "v")]⟩
  models := ⟨["gateway/"]⟩
  memory := ⟨false, none⟩

def headersOf (values : List (Str × Str)) : HeaderMap :=
  (values.map fun value => (⟨value.1, toUtf8 value.2⟩ : (_ : Str) × Bytes)).toAList

def threefold : HeaderMap :=
  headersOf [("authorization", "bearer sk-1"), ("api-key", " "), ("x-api-key", "other")]

theorem authentication_exact_threefold :
    AuthExact asciiHttp keyedConfig (⟨threefold, ()⟩ : Request Unit) := by
  have valid : keyedConfig.validate asciiHttp = .ok () := by decide
  have shown : presented asciiHttp threefold = [("sk-1" : Str), [], "other"] := by decide
  refine (authentication_exact asciiHttp valid (by decide) _).mpr ?_
  change ¬Shadowed keyedConfig.auth.apiKeys (presented asciiHttp threefold)
  rw [shown, shadowed_filled (by decide)]
  decide

/-- A wrong `Authorization` header hides the key of an `x-api-key` header. -/
theorem authentication_shadowed :
    keyedConfig.validate asciiHttp = .ok () ∧
      ¬AuthExact asciiHttp keyedConfig
        (⟨headersOf [("authorization", "Bearer other"), ("x-api-key", "sk-1")], ()⟩ :
          Request Unit) := by
  refine ⟨by decide, fun exact_ => ?_⟩
  obtain ⟨passed, same⟩ := exact_.1.mpr ⟨"sk-1", by decide, by decide⟩
  obtain ⟨⟨key, member, found⟩, -⟩ := (requireAuth_ok asciiHttp (by decide)).mp same
  have first : extractKey asciiHttp
      (headersOf [("authorization", "Bearer other"), ("x-api-key", "sk-1")]) =
        some ("other" : Str) := by decide
  cases first.symm.trans found
  exact absurd member (by decide)

end Accepted

end LlmGate.Auth
