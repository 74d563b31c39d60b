import TalaPala.News.FetchSafety
import TalaPala.News.Payloads

namespace TalaPala.News

/-- What a caller is left with; `other` passes an `except FetchError`. -/
inductive Outcome
  | value
  | fetchError
  | other
  deriving DecidableEq

def Ending.outcome : Ending → Outcome
  | .result _ => .value
  | .fails .uncaught => .other
  | _ => .fetchError

def fetchOutcome (l : List Attempt) : Outcome :=
  match l.getLast? with
  | some a => a.ending.outcome
  | none => .fetchError

def parserOutcome {α : Type*} : Except Raised α → Outcome
  | .ok _ => .value
  | .error .other => .other
  | .error _ => .fetchError

inductive PageAnswer
  | fails (failure : Failure)
  | page (p : Page)

structure PageExchange where
  answer : PageAnswer
  resolve : Resolver

section Outcomes

theorem outcome_eq_other_iff {ending : Ending} :
    ending.outcome = .other ↔ ending = .fails .uncaught := by
  cases ending with
  | fails failure => cases failure <;> simp [Ending.outcome]
  | _ => simp [Ending.outcome]

theorem fetchOutcome_singleton (a : Attempt) : fetchOutcome [a] = a.ending.outcome := rfl

theorem fetchOutcome_cons_cons (a second : Attempt) (rest : List Attempt) :
    fetchOutcome (a :: second :: rest) = fetchOutcome (second :: rest) := by
  rw [fetchOutcome, fetchOutcome, List.getLast?_cons_cons]

theorem outcome_of_retried {ending : Ending} (h : ending.retried) : ending.outcome ≠ .other := by
  rw [ne_eq, outcome_eq_other_iff]
  rintro rfl
  cases h

end Outcomes

section Quiet

variable (lib : Platform) (codecs : Codecs) (allowedHosts : List Text) (policy : FetchPolicy)

def PageExchange.exchange (x : PageExchange) : Exchange where
  answer := match x.answer with
    | .fails failure => .fails failure
    | .page p => .response (p.response lib codecs)
  resolve := x.resolve

/-- The URL can be split, and where its host is looked up the resolver raises an OSError
or nothing. -/
def QuietTarget (resolve : Resolver) (url : Text) : Prop :=
  ∃ parts, urlsplit lib.toStrings (strip url) = some parts ∧
    ∀ host, checkParts lib allowedHosts policy parts = .ok host →
      classifyAddress lib host = some .notAnAddress → resolve host ≠ .raises

def QuietRedirect (w : Walk) (p : Page) (resolve : Resolver) : Prop :=
  p.location ≠ [] → ∃ target, lib.urljoin w.current p.location = some target ∧
    (w.chain.length ≤ policy.maxRedirects → QuietTarget lib allowedHosts policy resolve target)

/-- Where the body is read, the declared length is a number, the client raises only what
is caught, and so does the decoder. -/
def QuietBody (p : Page) : Prop :=
  p.status ≠ 304 → checkContentType policy (mediaType lib p.contentType) = .ok () →
    ∃ length, p.declaredLength codecs = some length ∧
      (length.any (policy.maxBytes < ·) = false → overflows policy 0 p.chunks = false →
        p.bodyFails ≠ some .uncaught ∧ (p.bodyFails = none → p.decoded lib codecs ≠ .raises))

def QuietPage (w : Walk) (p : Page) (resolve : Resolver) : Prop :=
  if p.status ∈ redirectStatuses then QuietRedirect lib allowedHosts policy w p resolve
  else p.status < 400 → QuietBody lib codecs policy p

/-- What comes back for the request of `w` raises nothing that is not caught. -/
def QuietStep (w : Walk) (x : PageExchange) : Prop :=
  match x.answer with
  | .fails failure => failure ≠ .uncaught
  | .page p => connects lib w.current → QuietPage lib codecs allowedHosts policy w p x.resolve

/-- The loop comes from `w` and `hop` to the request of `v` at the hop `j`. -/
inductive Visits (world : ℕ → PageExchange) : ℕ → ℕ → Walk → ℕ → Walk → Prop
  | here {remaining hop : ℕ} {w : Walk} : Visits world (remaining + 1) hop w hop w
  | onward {remaining hop j : ℕ} {w next v : Walk} {p : Page} :
    connects lib w.current → (world hop).answer = .page p →
      react lib allowedHosts policy w (p.response lib codecs) (world hop).resolve = .ok next →
      Visits world remaining (hop + 1) next j v → Visits world (remaining + 1) hop w j v

end Quiet

section Uncaught

variable {lib : Platform} {codecs : Codecs} {allowedHosts : List Text} {policy : FetchPolicy}

theorem checkAddresses_uncaught_iff {resolve : Resolver} {host : Text} {isIpLiteral : Bool} :
    checkAddresses lib resolve host isIpLiteral = .error (.fails .uncaught) ↔
      isIpLiteral = false ∧ resolve host = .raises := by
  cases isIpLiteral with
  | true =>
    rw [checkAddresses]
    simp only [if_true, Bool.true_eq_false, false_and, iff_false]
    split <;> exact fun h ↦ nomatch h
  | false =>
    rw [checkAddresses]
    simp only [Bool.false_eq_true, if_false, true_and]
    cases resolve host with
    | osError => simp
    | raises => simp
    | addresses l =>
      cases l with
      | nil => simp
      | cons first rest =>
        simp only [reduceCtorEq, iff_false]
        split <;> exact fun h ↦ nomatch h

theorem validateTarget_uncaught_iff {resolve : Resolver} {url : Text} :
    validateTarget lib allowedHosts policy resolve url = .error (.fails .uncaught) ↔
      ¬ QuietTarget lib allowedHosts policy resolve url := by
  rw [validateTarget, QuietTarget]
  cases urlsplit lib.toStrings (strip url) with
  | none => simp
  | some parts =>
    simp only [Option.some.injEq, exists_eq_left']
    cases checkParts lib allowedHosts policy parts with
    | error block => simp
    | ok host =>
      have hmap : ∀ e : Except Ending (List Text),
          e.map (fun addresses ↦ (host, addresses)) = .error (.fails .uncaught) ↔
            e = .error (.fails .uncaught) := by
        rintro (ending | addresses) <;> simp [Except.map]
      simp [hmap, checkAddresses_uncaught_iff]

theorem follow_uncaught_iff {w : Walk} {p : Page} {resolve : Resolver} :
    follow lib allowedHosts policy w (p.response lib codecs) resolve = .error (.fails .uncaught) ↔
      ¬ QuietRedirect lib allowedHosts policy w p resolve := by
  rw [follow, QuietRedirect, response_location, response_status]
  by_cases hlocation : p.location = []
  · simp [hlocation]
  rw [if_neg hlocation]
  cases lib.urljoin w.current p.location with
  | none => simp [hlocation]
  | some target =>
    simp only [Option.some.injEq, exists_eq_left', Classical.not_imp]
    by_cases hmany : policy.maxRedirects < w.chain.length
    · simp [hmany]
    rw [if_neg hmany, ← validateTarget_uncaught_iff]
    cases validateTarget lib allowedHosts policy resolve target with
    | error ending => simp [Except.map, hlocation, not_lt.mp hmany]
    | ok found => simp [Except.map]

theorem read_uncaught_iff {p : Page} :
    p.read lib codecs policy = .fails .uncaught ↔ ¬ QuietBody lib codecs policy p := by
  rw [Page.read, QuietBody]
  by_cases hunchanged : p.status = 304
  · simp [hunchanged]
  rw [if_neg hunchanged]
  cases checkContentType policy (mediaType lib p.contentType) with
  | error block => simp
  | ok =>
    simp only [ne_eq, hunchanged, not_false_eq_true, true_implies, Page.readCapped]
    cases p.declaredLength codecs with
    | none => simp
    | some length =>
      simp only [Option.some.injEq, exists_eq_left']
      cases length.any (policy.maxBytes < ·) with
      | true => simp
      | false =>
        cases overflows policy 0 p.chunks with
        | true => simp
        | false =>
          cases p.bodyFails with
          | some failure => simp
          | none => cases p.decoded lib codecs <;> simp

theorem react_uncaught_iff {w : Walk} {p : Page} {resolve : Resolver} :
    react lib allowedHosts policy w (p.response lib codecs) resolve = .error (.fails .uncaught) ↔
      ¬ QuietPage lib codecs allowedHosts policy w p resolve := by
  rw [react, QuietPage, response_status]
  by_cases hredirect : p.status ∈ redirectStatuses
  · rw [if_pos hredirect, if_pos hredirect, follow_uncaught_iff]
  rw [if_neg hredirect, if_neg hredirect]
  by_cases hnever : p.status ∈ neverRetryStatuses
  · have herror : ¬ p.status < 400 := by
      simp only [neverRetryStatuses, List.mem_cons, List.not_mem_nil, or_false] at hnever
      omega
    simp [hnever, herror]
  rw [if_neg hnever]
  by_cases hserver : p.status = 429 ∨ 500 ≤ p.status
  · have herror : ¬ p.status < 400 := by omega
    simp [hserver, herror]
  rw [if_neg hserver]
  by_cases herror : 400 ≤ p.status
  · simp [herror]
  · simp [herror, not_le.mp herror, readBody_response, read_uncaught_iff]

theorem forall_visits_succ {world : ℕ → PageExchange} {remaining hop : ℕ} {w : Walk}
    {P : ℕ → Walk → Prop} :
    (∀ j v, Visits lib codecs allowedHosts policy world (remaining + 1) hop w j v → P j v) ↔
      P hop w ∧ (connects lib w.current → ∀ p, (world hop).answer = .page p → ∀ next,
        react lib allowedHosts policy w (p.response lib codecs) (world hop).resolve = .ok next →
        ∀ j v, Visits lib codecs allowedHosts policy world remaining (hop + 1) next j v →
          P j v) := by
  refine ⟨fun h ↦ ⟨h _ _ .here, fun hconnects p hpage next hreact j v hv ↦
    h j v (.onward hconnects hpage hreact hv)⟩, fun ⟨hhere, honward⟩ j v hv ↦ ?_⟩
  cases hv with
  | here => exact hhere
  | onward hconnects hpage hreact hv => exact honward hconnects _ hpage _ hreact j v hv

theorem hops_quiet_iff {world : ℕ → PageExchange} (remaining hop : ℕ) (w : Walk) :
    (hops lib allowedHosts policy (fun j ↦ (world j).exchange lib codecs) remaining hop w).ending ≠
        .fails .uncaught ↔
      ∀ j v, Visits lib codecs allowedHosts policy world remaining hop w j v →
        QuietStep lib codecs allowedHosts policy v (world j) := by
  induction remaining generalizing hop w with
  | zero =>
    constructor
    · exact fun _ _ _ hv ↦ nomatch hv
    · exact fun _ h ↦ nomatch h
  | succ remaining ih =>
    rw [forall_visits_succ, hops, QuietStep, PageExchange.exchange]
    cases (world hop).answer with
    | fails failure => cases connects lib w.current <;> simp
    | page p =>
      cases connects lib w.current with
      | false => simp
      | true =>
        simp only [Bool.not_true, Bool.false_eq_true, if_false, true_implies,
          PageAnswer.page.injEq, forall_eq']
        have hquiet : react lib allowedHosts policy w (p.response lib codecs)
            (world hop).resolve = .error (.fails .uncaught) ↔
            ¬ QuietPage lib codecs allowedHosts policy w p (world hop).resolve :=
          react_uncaught_iff
        cases hreact : react lib allowedHosts policy w (p.response lib codecs)
            (world hop).resolve with
        | error ending =>
          rw [hreact, Except.error.injEq] at hquiet
          simp [hquiet]
        | ok next =>
          have hstep : QuietPage lib codecs allowedHosts policy w p (world hop).resolve :=
            not_not.mp (fun h ↦ by simpa [hreact] using hquiet.mpr h)
          simp only [Except.ok.injEq, forall_eq', hstep, true_and]
          exact ih (hop + 1) next

end Uncaught

section Attempts

variable (lib : Platform) (codecs : Codecs) (allowedHosts : List Text) (policy : FetchPolicy)
  (headers : Headers) (resolve : ℕ → Resolver) (world : ℕ → ℕ → PageExchange) (url : Text)

/-- The attempt with the number `i`. -/
def attemptAt (i : ℕ) : Attempt :=
  attempt lib allowedHosts policy headers (resolve i) (fun j ↦ (world i j).exchange lib codecs) url

/-- From the attempt `i` the fetch comes to the attempt `k`. -/
inductive Tries : ℕ → ℕ → ℕ → Prop
  | here {remaining i : ℕ} : Tries (remaining + 1) i i
  | again {remaining i k : ℕ} :
    (attemptAt lib codecs allowedHosts policy headers resolve world url i).ending.retried →
      Tries remaining (i + 1) k → Tries (remaining + 1) i k

/-- Where the loop of the attempt `i` begins. -/
def Starts (i : ℕ) (w : Walk) : Prop :=
  ∃ host resolved, validateTarget lib allowedHosts policy (resolve i) url = .ok (host, resolved) ∧
    w = ⟨url, host, headers, [url], resolved⟩

structure QuietAttempt (i : ℕ) : Prop where
  target : QuietTarget lib allowedHosts policy (resolve i) url
  step : ∀ w, Starts lib allowedHosts policy headers resolve url i w →
    ∀ j v, Visits lib codecs allowedHosts policy (world i) (policy.maxRedirects + 1).toNat 0 w j v →
      QuietStep lib codecs allowedHosts policy v (world i j)

variable {lib codecs allowedHosts policy headers resolve world url}

theorem attempt_quiet_iff {i : ℕ} :
    (attemptAt lib codecs allowedHosts policy headers resolve world url i).ending ≠
        .fails .uncaught ↔
      QuietAttempt lib codecs allowedHosts policy headers resolve world url i := by
  have htarget : validateTarget lib allowedHosts policy (resolve i) url =
      .error (.fails .uncaught) ↔ ¬ QuietTarget lib allowedHosts policy (resolve i) url :=
    validateTarget_uncaught_iff
  rw [attemptAt, attempt]
  cases hvalid : validateTarget lib allowedHosts policy (resolve i) url with
  | error ending =>
    rw [hvalid, Except.error.injEq] at htarget
    rw [ne_eq, htarget, not_not]
    refine ⟨fun hquiet ↦ ⟨hquiet, fun w hw ↦ ?_⟩, QuietAttempt.target⟩
    obtain ⟨_, _, hfound, -⟩ := hw
    rw [hvalid] at hfound
    cases hfound
  | ok found =>
    obtain ⟨host, resolved⟩ := found
    have hquiet : QuietTarget lib allowedHosts policy (resolve i) url :=
      not_not.mp (fun h ↦ by simpa [hvalid] using htarget.mpr h)
    refine (hops_quiet_iff _ _ _).trans ⟨fun h ↦ ⟨hquiet, fun w hw ↦ ?_⟩, fun h ↦ ?_⟩
    · obtain ⟨_, _, hfound, rfl⟩ := hw
      rw [hvalid] at hfound
      cases hfound
      exact h
    · exact h.step _ ⟨host, resolved, hvalid, rfl⟩

theorem attempts_succ (remaining i : ℕ) :
    attempts lib allowedHosts policy headers resolve (fun i j ↦ (world i j).exchange lib codecs) url
        (remaining + 1) i =
      attemptAt lib codecs allowedHosts policy headers resolve world url i ::
        if (attemptAt lib codecs allowedHosts policy headers resolve world url i).ending.retried then
          attempts lib allowedHosts policy headers resolve
            (fun i j ↦ (world i j).exchange lib codecs) url remaining (i + 1)
        else [] := rfl

theorem attempts_quiet_iff (remaining i : ℕ) :
    fetchOutcome (attempts lib allowedHosts policy headers resolve
        (fun i j ↦ (world i j).exchange lib codecs) url remaining i) ≠ .other ↔
      ∀ k, Tries lib codecs allowedHosts policy headers resolve world url remaining i k →
        QuietAttempt lib codecs allowedHosts policy headers resolve world url k := by
  induction remaining generalizing i with
  | zero =>
    constructor
    · exact fun _ _ hk ↦ nomatch hk
    · exact fun _ h ↦ nomatch h
  | succ remaining ih =>
    have hfirst : (attemptAt lib codecs allowedHosts policy headers resolve world url
        i).ending.outcome ≠ .other ↔
        QuietAttempt lib codecs allowedHosts policy headers resolve world url i := by
      rw [ne_eq, outcome_eq_other_iff]
      exact attempt_quiet_iff
    rw [attempts_succ]
    by_cases hretried : (attemptAt lib codecs allowedHosts policy headers resolve world url
        i).ending.retried
    · have hquiet := hfirst.mp (outcome_of_retried hretried)
      have hrest : (∀ k, Tries lib codecs allowedHosts policy headers resolve world url
          (remaining + 1) i k →
            QuietAttempt lib codecs allowedHosts policy headers resolve world url k) ↔
          ∀ k, Tries lib codecs allowedHosts policy headers resolve world url remaining (i + 1) k →
            QuietAttempt lib codecs allowedHosts policy headers resolve world url k := by
        refine ⟨fun h k hk ↦ h k (.again hretried hk), fun h k hk ↦ ?_⟩
        cases hk with
        | here => exact hquiet
        | again _ hk => exact h k hk
      rw [if_pos hretried, hrest, ← ih (i + 1)]
      cases remaining with
      | zero => exact iff_of_true (outcome_of_retried hretried) (fun h ↦ nomatch h)
      | succ remaining => rw [attempts_succ, fetchOutcome_cons_cons]
    · rw [if_neg hretried, fetchOutcome_singleton, hfirst]
      refine ⟨fun h k hk ↦ ?_, fun h ↦ h i .here⟩
      cases hk with
      | here => exact h
      | again hagain _ => exact absurd hagain hretried

end Attempts

section Parsers

variable {codecs : Codecs} {α : Type*}

theorem parserOutcome_of_prepared (fromstring : Bytes → Option α) (prepared : Bytes × CodePoints) :
    parserOutcome (if rejectsDoctype prepared.2 then .error .blocked
      else match fromstring prepared.1 with
        | none => .error .parseError
        | some root => .ok root) ≠ .other := by
  split
  · rintro ⟨⟩
  · split <;> rintro ⟨⟩

theorem parseXmlSafely_quiet_iff {fromstring : Bytes → Option α} {data : Payload} {maxBytes : ℤ} :
    parserOutcome (parseXmlSafely codecs fromstring data maxBytes) ≠ .other ↔
      (data.length ≤ maxBytes → ∀ s, data = .str s → (codecs.encode s).isSome) := by
  have hparsed := parserOutcome_of_prepared fromstring
  rw [parseXmlSafely]
  by_cases hlong : maxBytes < data.length
  · rw [if_pos hlong]
    exact iff_of_true (by rintro ⟨⟩) (fun h ↦ absurd h (not_le.mpr hlong))
  rw [if_neg hlong]
  cases data with
  | bytes b =>
    exact iff_of_true (hparsed (b, codecs.decodeReplacing b)) (by rintro _ _ ⟨⟩)
  | str s =>
    rw [prepareXmlBytes]
    cases hencoded : codecs.encode s with
    | none =>
      refine iff_of_false (fun h ↦ h rfl) (fun h ↦ ?_)
      have hsome := h (not_lt.mp hlong) s rfl
      rw [hencoded] at hsome
      cases hsome
    | some encoded =>
      refine iff_of_true (hparsed _) (fun _ s' hs' ↦ ?_)
      cases hs'
      rw [hencoded]
      rfl

theorem parseJsonSafely_quiet_iff {loads : CodePoints → Loaded α} {data : Payload}
    {maxBytes maxDepth : ℤ} :
    parserOutcome (parseJsonSafely codecs loads data maxBytes maxDepth) ≠ .other ↔
      (data.length ≤ maxBytes → ∃ text, payloadText codecs data = some text ∧
        (jsonDepthOk text maxDepth → loads text ≠ .raises)) := by
  rw [parseJsonSafely]
  by_cases hlong : maxBytes < data.length
  · rw [if_pos hlong]
    exact iff_of_true (fun h ↦ nomatch h) (fun h ↦ absurd h (not_le.mpr hlong))
  rw [if_neg hlong]
  simp only [not_lt.mp hlong, true_implies]
  cases payloadText codecs data with
  | none => exact iff_of_false (fun h ↦ h rfl) (fun ⟨_, htext, _⟩ ↦ nomatch htext)
  | some text =>
    simp only [Option.some.injEq, exists_eq_left']
    cases jsonDepthOk text maxDepth with
    | false => exact iff_of_true (fun h ↦ nomatch h) (fun h ↦ nomatch h)
    | true => cases loads text <;> simp [parserOutcome]

end Parsers

section OneClause

variable (lib : Platform) (codecs : Codecs) (allowedHosts : List Text) (policy : FetchPolicy)
  (headers : Headers) (resolve : ℕ → Resolver) (world : ℕ → ℕ → PageExchange) (url : Text)
  {α β : Type*} (fromstring : Bytes → Option α) (loads : CodePoints → Loaded β) (data : Payload)
  (maxBytes maxDepth : ℤ)

/-- No other exception leaves a fetch exactly if every target and step it comes to is
quiet, and none leaves the parsers exactly if the string can be encoded and the bytes are
UTF-8. -/
theorem one_except_clause_iff :
    (fetchOutcome (fetch lib allowedHosts policy headers resolve
        (fun i j ↦ (world i j).exchange lib codecs) url) ≠ .other ↔
      (allowedHosts ≠ [] → ∀ i,
        Tries lib codecs allowedHosts policy (requestHeaders policy headers) resolve world url
          (max 1 policy.maxAttempts).toNat 0 i →
        QuietAttempt lib codecs allowedHosts policy (requestHeaders policy headers) resolve world
          url i)) ∧
    (parserOutcome (parseXmlSafely codecs fromstring data maxBytes) ≠ .other ↔
      (data.length ≤ maxBytes → ∀ s, data = .str s → (codecs.encode s).isSome)) ∧
    (parserOutcome (parseJsonSafely codecs loads data maxBytes maxDepth) ≠ .other ↔
      (data.length ≤ maxBytes → ∃ text, payloadText codecs data = some text ∧
        (jsonDepthOk text maxDepth → loads text ≠ .raises))) := by
  refine ⟨?_, parseXmlSafely_quiet_iff, parseJsonSafely_quiet_iff⟩
  rw [fetch]
  by_cases hnone : allowedHosts = []
  · rw [if_pos hnone]
    exact iff_of_true (by rintro ⟨⟩) (absurd hnone)
  · rw [if_neg hnone, attempts_quiet_iff]
    exact ⟨fun h _ ↦ h, fun h ↦ h hnone⟩

/-- The standard library's part where a bracket without its partner raises. -/
def bracketPlatform : Platform :=
  { asciiPlatform with netlocAccepted := fun netloc ↦ decide ('[' ∈ netloc ↔ ']' ∈ netloc) }

def asciiCodecs : Codecs where
  decode content _ :=
    if content.all (· < 128) then .text (content.map UInt8.toNat) else .unicodeDecodeError
  decodeReplacing content := content.map (fun b ↦ if b < 128 then b.toNat else 0xfffd)
  encode s := if s.all (· < 128) then some (s.map UInt8.ofNat) else none
  isDigit s := s.all isAsciiDigit
  int s := some (digitsValue s)

/-- A bracket that is not closed, a lone surrogate and a byte that is not UTF-8. -/
theorem other_exceptions_escape :
    fetchOutcome (fetch bracketPlatform ["example.org".toList] defaultPolicy []
        (fun _ ↦ oneAddress) (fun _ _ ↦ unchanged) "https://[".toList) = .other ∧
      parserOutcome (parseXmlSafely asciiCodecs (fun _ ↦ some ()) (.str [0xd800]) 16) = .other ∧
      parserOutcome (parseJsonSafely asciiCodecs (fun _ ↦ Loaded.value ()) (.bytes [0xff]) 16 64) =
        .other := by
  decide

end OneClause

end TalaPala.News
