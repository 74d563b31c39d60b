import TalaPala.News.Urls

namespace TalaPala.News

structure FetchPolicy where
  maxBytes : ℕ
  maxDecompressedBytes : ℕ
  maxCompressionRatio : ℚ
  compressionRatioFloorBytes : ℕ
  maxRedirects : ℤ
  maxAttempts : ℤ
  courtesyDelay : ℚ
  allowedPorts : List ℕ
  allowedContentTypes : List Text
  userAgent : Text
  accept : Text
  allowIpLiterals : Bool

def defaultPolicy : FetchPolicy where
  maxBytes := 4 * 1024 * 1024
  maxDecompressedBytes := 16 * 1024 * 1024
  maxCompressionRatio := 100
  compressionRatioFloorBytes := 1024 * 1024
  maxRedirects := 3
  maxAttempts := 3
  courtesyDelay := 1
  allowedPorts := [443]
  allowedContentTypes := ["application/atom+xml", "application/json", "application/rss+xml",
    "application/xhtml+xml", "application/xml", "text/html", "text/json", "text/plain",
    "text/xml"].map String.toList
  userAgent := "IranGoldPredictor/1.0 (+self-hosted analytics)".toList
  accept := ("application/rss+xml, application/atom+xml, application/xml;q=0.9, " ++
    "application/json;q=0.9, text/xml;q=0.8, */*;q=0.1").toList
  allowIpLiterals := false

/-- The properties of an address that the code asks `ipaddress` for. -/
structure AddressFlags where
  isUnspecified : Bool
  isLoopback : Bool
  isLinkLocal : Bool
  isMulticast : Bool
  isPrivate : Bool
  isReserved : Bool
  isGlobal : Bool

structure Address where
  flags : AddressFlags
  ipv4Mapped : Option AddressFlags

/-- The standard library's part. -/
structure Platform extends Strings where
  ipAddress : Text → Option Address
  urljoin : Text → Text → Option Text

inductive Reason
  | notAnAddress
  | unspecified
  | loopback
  | linkLocal
  | multicast
  | privateRange
  | reserved
  | nonGlobal
  deriving DecidableEq

inductive Block
  | noAllowedHosts
  | notHttps
  | credentials
  | noHost
  | notInAllowlist (host : Text)
  | invalidPort
  | portNotAllowed (port : ℕ)
  | ipLiteral (host : Text)
  | cannotResolve (host : Text)
  | noAddresses (host : Text)
  | notPublic (host address : Text) (reason : Reason)
  | tooManyRedirects
  | noContentType
  | contentType (mediaType : Text)
  | undecodable

/-- An exception of the HTTP client. `fetch` catches the first two kinds only. -/
inductive Failure
  | timeout
  | transport
  | uncaught
  deriving DecidableEq

inductive Ending
  | result (status : ℕ)
  | blocked (block : Block)
  | tooLarge
  | http (status : ℕ) (retryable : Bool)
  | fails (failure : Failure)

inductive Resolution
  | addresses (l : List Text)
  | osError
  | raises

abbrev Resolver := Text → Resolution

section Target

variable (lib : Platform)

def classifyAddress (raw : Text) : Option Reason :=
  match lib.ipAddress raw with
  | none => some .notAnAddress
  | some address =>
    let flags := address.ipv4Mapped.getD address.flags
    if flags.isUnspecified then some .unspecified
    else if flags.isLoopback then some .loopback
    else if flags.isLinkLocal then some .linkLocal
    else if flags.isMulticast then some .multicast
    else if flags.isPrivate then some .privateRange
    else if flags.isReserved then some .reserved
    else if !flags.isGlobal then some .nonGlobal
    else none

def hostAllowed (host : Text) (allowedHosts : List Text) : Bool :=
  allowedHosts.any (fun entry ↦
    match normalizeHost lib.toStrings entry with
    | [] => false
    | '.' :: rest => host = rest || ('.' :: rest).isSuffixOf host
    | candidate => host = candidate)

def checkAddresses (resolve : Resolver) (host : Text) (isIpLiteral : Bool) :
    Except Ending (List Text) :=
  match if isIpLiteral then .addresses [host] else resolve host with
  | .osError => .error (.blocked (.cannotResolve host))
  | .raises => .error (.fails .uncaught)
  | .addresses [] => .error (.blocked (.noAddresses host))
  | .addresses (first :: rest) =>
    match (first :: rest).findSome? (fun address ↦
      (classifyAddress lib address).map (fun reason ↦ (address, reason))) with
    | some (address, reason) => .error (.blocked (.notPublic host address reason))
    | none => .ok (first :: rest)

def https : Text := ['h', 't', 't', 'p', 's']

def checkParts (allowedHosts : List Text) (policy : FetchPolicy) (parts : Parts) :
    Except Block Text :=
  let host := normalizeHost lib.toStrings (parts.hostname lib.toStrings)
  if parts.scheme ≠ https then .error .notHttps
  else if parts.username ≠ [] ∨ parts.password ≠ [] then .error .credentials
  else if host = [] then .error .noHost
  else if !hostAllowed lib host allowedHosts then .error (.notInAllowlist host)
  else match parts.port with
    | none => .error .invalidPort
    | some port =>
      match port.filter (fun n ↦ n ∉ policy.allowedPorts) with
      | some n => .error (.portNotAllowed n)
      | none =>
        if classifyAddress lib host ≠ some .notAnAddress ∧ !policy.allowIpLiterals then
          .error (.ipLiteral host)
        else .ok host

def validateTarget (allowedHosts : List Text) (policy : FetchPolicy) (resolve : Resolver)
    (url : Text) : Except Ending (Text × List Text) :=
  match urlsplit lib.toStrings (strip url) with
  | none => .error (.fails .uncaught)
  | some parts =>
    match checkParts lib allowedHosts policy parts with
    | .error block => .error (.blocked block)
    | .ok host =>
      (checkAddresses lib resolve host (classifyAddress lib host ≠ some .notAnAddress)).map
        (fun addresses ↦ (host, addresses))

end Target

structure Chunk where
  length : ℕ
  wire : ℕ

structure Response where
  status : ℕ
  location : Text
  contentLength : Option ℕ
  contentType : Text
  chunks : List Chunk
  bodyFails : Option Failure
  decodes : Bool

inductive Answer
  | fails (failure : Failure)
  | response (response : Response)

structure Exchange where
  answer : Answer
  resolve : Resolver

def redirectStatuses : List ℕ := [301, 302, 303, 307, 308]

def neverRetryStatuses : List ℕ := [401, 403, 407, 451]

section Body

def mediaType (lib : Platform) (contentType : Text) : Text :=
  lib.lower (strip (before ';' contentType))

def checkContentType (policy : FetchPolicy) (mediaType : Text) : Except Block Unit :=
  if mediaType = [] then .error .noContentType
  else if mediaType ∈ policy.allowedContentTypes then .ok ()
  else if ("application/".toList.isPrefixOf mediaType || "text/".toList.isPrefixOf mediaType) &&
      ("+json".toList.isSuffixOf mediaType || "+xml".toList.isSuffixOf mediaType) then .ok ()
  else .error (.contentType mediaType)

def overflows (policy : FetchPolicy) : ℕ → List Chunk → Bool
  | _, [] => false
  | decoded, chunk :: rest =>
    let decoded := decoded + chunk.length
    decide (policy.maxBytes < chunk.wire) || decide (policy.maxDecompressedBytes < decoded) ||
      (decide (policy.compressionRatioFloorBytes < decoded) && decide (0 < chunk.wire) &&
        decide (policy.maxCompressionRatio < (decoded : ℚ) / chunk.wire)) ||
      overflows policy decoded rest

def readCapped (policy : FetchPolicy) (r : Response) : Except Ending Unit :=
  if r.contentLength.any (fun length ↦ policy.maxBytes < length) then .error .tooLarge
  else if overflows policy 0 r.chunks then .error .tooLarge
  else match r.bodyFails with
    | some failure => .error (.fails failure)
    | none => .ok ()

def readBody (lib : Platform) (policy : FetchPolicy) (r : Response) : Ending :=
  if r.status = 304 then .result r.status
  else match checkContentType policy (mediaType lib r.contentType) with
    | .error block => .blocked block
    | .ok () =>
      match readCapped policy r with
      | .error ending => ending
      | .ok () => if r.decodes then .result r.status else .blocked .undecodable

end Body

abbrev Headers := List (Text × Text)

def credentialHeaders : List Text :=
  ["authorization".toList, "cookie".toList, "proxy-authorization".toList]

def isCredential (lib : Platform) (header : Text × Text) : Bool :=
  lib.lower header.1 ∈ credentialHeaders

def stripCredentialHeaders (lib : Platform) (headers : Headers) : Headers :=
  headers.filter (fun header ↦ !isCredential lib header)

/-- Where `_attempt` stands between two requests. -/
structure Walk where
  current : Text
  originHost : Text
  headers : Headers
  chain : List Text
  resolved : List Text

structure Wire where
  url : Text
  headers : Headers
  addresses : List Text

structure Attempt where
  requests : List Wire
  ending : Ending

section Fetch

variable (lib : Platform) (allowedHosts : List Text) (policy : FetchPolicy)

def follow (w : Walk) (r : Response) (resolve : Resolver) : Except Ending Walk :=
  if r.location = [] then .error (.http r.status false)
  else match lib.urljoin w.current r.location with
    | none => .error (.fails .uncaught)
    | some target =>
      if policy.maxRedirects < w.chain.length then .error (.blocked .tooManyRedirects)
      else (validateTarget lib allowedHosts policy resolve target).map (fun (host, resolved) ↦
        { current := target
          originHost := host
          headers := if host ≠ w.originHost then stripCredentialHeaders lib w.headers
            else w.headers
          chain := w.chain ++ [target]
          resolved := resolved })

/-- What `_attempt` makes of one response. -/
def react (w : Walk) (r : Response) (resolve : Resolver) : Except Ending Walk :=
  if r.status ∈ redirectStatuses then follow lib allowedHosts policy w r resolve
  else if r.status ∈ neverRetryStatuses then .error (.http r.status false)
  else if r.status = 429 ∨ 500 ≤ r.status then .error (.http r.status true)
  else if 400 ≤ r.status then .error (.http r.status false)
  else .error (readBody lib policy r)

/-- The client connects to what `urlsplit` reads of the string it is given, and
puts nothing on the wire where that is no web address. -/
def connects (url : Text) : Bool :=
  match urlsplit lib.toStrings url with
  | none => false
  | some parts =>
    (parts.scheme = https || parts.scheme = ['h', 't', 't', 'p']) &&
      parts.hostname lib.toStrings ≠ [] && parts.port.isSome

def Walk.wire (w : Walk) : Wire := ⟨w.current, w.headers, w.resolved⟩

def hops (world : ℕ → Exchange) : ℕ → ℕ → Walk → Attempt
  | 0, _, _ => ⟨[], .blocked .tooManyRedirects⟩
  | remaining + 1, hop, w =>
    if !connects lib w.current then
      match (world hop).answer with
      | .fails failure => ⟨[], .fails failure⟩
      | .response _ => ⟨[], .fails .transport⟩
    else match (world hop).answer with
      | .fails failure => ⟨[w.wire], .fails failure⟩
      | .response r =>
        match react lib allowedHosts policy w r (world hop).resolve with
        | .error ending => ⟨[w.wire], ending⟩
        | .ok next =>
          let rest := hops world remaining (hop + 1) next
          ⟨w.wire :: rest.requests, rest.ending⟩

def attempt (headers : Headers) (resolve : Resolver) (world : ℕ → Exchange) (url : Text) :
    Attempt :=
  match validateTarget lib allowedHosts policy resolve url with
  | .error ending => ⟨[], ending⟩
  | .ok (host, resolved) =>
    hops lib allowedHosts policy world (policy.maxRedirects + 1).toNat 0
      ⟨url, host, headers, [url], resolved⟩

def Ending.retried : Ending → Bool
  | .http _ retryable => retryable
  | .fails failure => failure ≠ .uncaught
  | _ => false

/-- `dict.update`. -/
def updateHeaders (headers extra : Headers) : Headers :=
  extra.foldl (fun acc header ↦
    if acc.any (fun other ↦ other.1 = header.1) then
      acc.map (fun other ↦ if other.1 = header.1 then header else other)
    else acc ++ [header]) headers

def requestHeaders (headers : Headers) : Headers :=
  updateHeaders [("User-Agent".toList, policy.userAgent), ("Accept".toList, policy.accept),
    ("Accept-Encoding".toList, "gzip, deflate".toList)] headers

def attempts (headers : Headers) (resolve : ℕ → Resolver) (world : ℕ → ℕ → Exchange)
    (url : Text) : ℕ → ℕ → List Attempt
  | 0, _ => []
  | remaining + 1, i =>
    let a := attempt lib allowedHosts policy headers (resolve i) (world i) url
    a :: if a.ending.retried then attempts headers resolve world url remaining (i + 1) else []

def fetch (headers : Headers) (resolve : ℕ → Resolver) (world : ℕ → ℕ → Exchange) (url : Text) :
    List Attempt :=
  if allowedHosts = [] then [⟨[], .blocked .noAllowedHosts⟩]
  else attempts lib allowedHosts policy (requestHeaders policy headers) resolve world url
    (max 1 policy.maxAttempts).toNat 0

end Fetch

end TalaPala.News
