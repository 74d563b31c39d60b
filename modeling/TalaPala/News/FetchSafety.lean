import TalaPala.News.SafeFetch

namespace TalaPala.News

open List

variable (lib : Platform) (allowedHosts : List Text) (policy : FetchPolicy)

structure AddressFlags.Public (flags : AddressFlags) : Prop where
  isGlobal : flags.isGlobal
  not_unspecified : flags.isUnspecified = false
  not_loopback : flags.isLoopback = false
  not_linkLocal : flags.isLinkLocal = false
  not_multicast : flags.isMulticast = false
  not_private : flags.isPrivate = false
  not_reserved : flags.isReserved = false

def PublicAddress (raw : Text) : Prop :=
  ∃ address, lib.ipAddress raw = some address ∧
    (address.ipv4Mapped.getD address.flags).Public

def hostOf (url : Text) : Text :=
  match urlsplit lib.toStrings url with
  | none => []
  | some parts => normalizeHost lib.toStrings (parts.hostname lib.toStrings)

def Asked (resolve : ℕ → Resolver) (world : ℕ → ℕ → Exchange) (r : Resolver) : Prop :=
  ∃ i, r = resolve i ∨ ∃ j, r = (world i j).resolve

def Resolved (asked : Resolver → Prop) (host : Text) (addresses : List Text) : Prop :=
  (∀ a ∈ addresses, PublicAddress lib a) ∧ addresses ≠ [] ∧
    ((lib.ipAddress host ≠ none ∧ addresses = [host]) ∨
      ∃ resolve, asked resolve ∧ resolve host = .addresses addresses)

/-- An https URL without credentials, with a host of the allowlist and public
addresses. `portOk` is what is asked of its port. -/
def Guarded (asked : Resolver → Prop) (portOk : Option ℕ → Prop) (r : Wire) : Prop :=
  ∃ parts port, urlsplit lib.toStrings r.url = some parts ∧ parts.scheme = https ∧
    parts.username = [] ∧ parts.password = [] ∧
    hostAllowed lib (hostOf lib r.url) allowedHosts ∧ parts.port = some port ∧ portOk port ∧
    Resolved lib asked (hostOf lib r.url) r.addresses

def Safe (asked : Resolver → Prop) (r : Wire) : Prop :=
  Guarded lib allowedHosts asked (fun port ↦ port.getD 443 ∈ policy.allowedPorts) r

def NamesPort (r : Wire) : Prop :=
  ∃ parts n, urlsplit lib.toStrings r.url = some parts ∧ parts.port = some (some n)

section Validation

variable {lib allowedHosts policy}

theorem classifyAddress_eq_none {raw : Text} (h : classifyAddress lib raw = none) :
    PublicAddress lib raw := by
  rw [classifyAddress] at h
  split at h
  · cases h
  · rename_i address haddress
    refine ⟨address, haddress, ?_⟩
    generalize address.ipv4Mapped.getD address.flags = flags at h ⊢
    simp only [Bool.not_eq_true'] at h
    split_ifs at h with hunspecified hloopback hlinkLocal hmulticast hprivate hreserved hglobal
    simp only [Bool.not_eq_true, Bool.not_eq_false] at *
    exact ⟨hglobal, hunspecified, hloopback, hlinkLocal, hmulticast, hprivate, hreserved⟩

theorem checkParts_ok {parts : Parts} {host : Text}
    (h : checkParts lib allowedHosts policy parts = .ok host) :
    parts.scheme = https ∧ parts.username = [] ∧ parts.password = [] ∧ host ≠ [] ∧
      host = normalizeHost lib.toStrings (parts.hostname lib.toStrings) ∧
      hostAllowed lib host allowedHosts ∧
      ∃ port, parts.port = some port ∧ ∀ n, port = some n → n ∈ policy.allowedPorts := by
  unfold checkParts at h
  simp only at h
  split at h
  · cases h
  split at h
  · cases h
  split at h
  · cases h
  split at h
  · cases h
  rename_i hscheme hcredentials hhost hallowed
  split at h
  · cases h
  rename_i port hport
  split at h
  · cases h
  rename_i hfilter
  split at h
  · cases h
  cases h
  simp only [ne_eq, not_not, not_or] at hscheme hcredentials
  refine ⟨hscheme, hcredentials.1, hcredentials.2, hhost, rfl, by simpa using hallowed, port,
    hport, fun n hn ↦ ?_⟩
  by_contra hnot
  simp [hn, hnot] at hfilter

theorem checkAddresses_ok {resolve : Resolver} {host : Text} {isIpLiteral : Bool}
    {addresses : List Text} (h : checkAddresses lib resolve host isIpLiteral = .ok addresses) :
    (∀ a ∈ addresses, PublicAddress lib a) ∧ addresses ≠ [] ∧
      ((isIpLiteral ∧ addresses = [host]) ∨ resolve host = .addresses addresses) := by
  unfold checkAddresses at h
  split at h
  · cases h
  · cases h
  · cases h
  rename_i first rest haddresses
  split at h
  · cases h
  rename_i hnone
  cases h
  refine ⟨fun a ha ↦ ?_, cons_ne_nil _ _, ?_⟩
  · have hclass := findSome?_eq_none_iff.mp hnone a ha
    exact classifyAddress_eq_none (Option.map_eq_none_iff.mp hclass)
  · cases isIpLiteral with
    | true =>
      have heq : Resolution.addresses [host] = .addresses (first :: rest) := haddresses
      cases heq
      exact .inl ⟨rfl, rfl⟩
    | false => exact .inr haddresses

theorem validateTarget_ok {resolve : Resolver} {url host : Text} {addresses : List Text}
    (h : validateTarget lib allowedHosts policy resolve url = .ok (host, addresses)) :
    ∃ parts, urlsplit lib.toStrings (strip url) = some parts ∧
      checkParts lib allowedHosts policy parts = .ok host ∧
      checkAddresses lib resolve host (classifyAddress lib host ≠ some .notAnAddress) =
        .ok addresses := by
  unfold validateTarget at h
  split at h
  · cases h
  rename_i parts hparts
  split at h
  · cases h
  rename_i checked hchecked
  cases hresult : checkAddresses lib resolve checked
      (classifyAddress lib checked ≠ some .notAnAddress) with
  | error ending => rw [hresult] at h; cases h
  | ok found =>
    rw [hresult] at h
    cases h
    exact ⟨parts, hparts, hchecked, hresult⟩

theorem connects_parts {url : Text} (h : connects lib url) :
    ∃ parts port, urlsplit lib.toStrings url = some parts ∧ parts.scheme ≠ [] ∧
      parts.port = some port := by
  unfold connects at h
  split at h
  · cases h
  rename_i parts hparts
  simp only [Bool.and_eq_true, Bool.or_eq_true, decide_eq_true_eq] at h
  obtain ⟨⟨hscheme, -⟩, hport⟩ := h
  obtain ⟨port, hport⟩ := Option.isSome_iff_exists.mp hport
  refine ⟨parts, port, hparts, ?_, hport⟩
  rcases hscheme with h | h <;> rw [h] <;> exact cons_ne_nil _ _

theorem guarded_of_validated {asked : Resolver → Prop} {resolve : Resolver} (hasked : asked resolve)
    {url host : Text} {addresses : List Text}
    (h : validateTarget lib allowedHosts policy resolve url = .ok (host, addresses))
    (hconnects : connects lib url) (headers : Headers) :
    hostOf lib url = host ∧ Guarded lib allowedHosts asked
      (fun port ↦ ∀ n, port = some n → n ∈ policy.allowedPorts) ⟨url, headers, addresses⟩ := by
  obtain ⟨p, hp, hchecked, haddresses⟩ := validateTarget_ok h
  obtain ⟨hscheme, husername, hpassword, hhost, rfl, hallowed, port, hport, hports⟩ :=
    checkParts_ok hchecked
  obtain ⟨q, port', hq, hread, hport'⟩ := connects_parts hconnects
  have hnetloc : p.netloc ≠ [] := by
    intro hempty
    refine hhost ?_
    have hhostinfo : p.hostinfo = [] := by
      rw [Parts.hostinfo, hempty]
      rfl
    simp [Parts.hostname, hhostinfo, before, normalizeHost, strip, lib.lower_nil]
  obtain ⟨hsame, hpadded⟩ := urlsplit_strip hp (by rw [hscheme]; exact cons_ne_nil _ _)
    hnetloc hq hread
  have hhostOf : hostOf lib url = normalizeHost lib.toStrings (p.hostname lib.toStrings) := by
    rw [hostOf, hq]
    exact hpadded.hostname.normalizeHost lib.toStrings
  have huserinfo := hpadded.userinfo
  have hsamePort : port' = port := by
    have hread' := hpadded.portText.readPort hport'
    exact Option.some.inj (hread'.symm.trans hport)
  obtain ⟨hpublic, hne, hfrom⟩ := checkAddresses_ok haddresses
  refine ⟨hhostOf, q, port', hq, hsame.trans hscheme, ?_, ?_, hhostOf ▸ hallowed, hport',
    hsamePort ▸ hports, hpublic, hne, ?_⟩
  · rw [Parts.username, huserinfo]
    exact husername
  · rw [Parts.password, huserinfo]
    exact hpassword
  · rw [hhostOf]
    rcases hfrom with ⟨hliteral, haddresses⟩ | haddresses
    · refine .inl ⟨fun hnone ↦ ?_, haddresses⟩
      simp [classifyAddress, hnone] at hliteral
    · exact .inr ⟨resolve, hasked, haddresses⟩

end Validation

section Walks

variable {lib allowedHosts policy}

theorem react_ok {w next : Walk} {r : Response} {resolve : Resolver}
    (h : react lib allowedHosts policy w r resolve = .ok next) :
    validateTarget lib allowedHosts policy resolve next.current =
        .ok (next.originHost, next.resolved) ∧
      next.headers = if next.originHost ≠ w.originHost then stripCredentialHeaders lib w.headers
        else w.headers := by
  rw [react] at h
  split_ifs at h
  rw [follow] at h
  split at h
  · cases h
  split at h
  · cases h
  rename_i target _
  split at h
  · cases h
  cases hvalid : validateTarget lib allowedHosts policy resolve target with
  | error ending => rw [hvalid] at h; cases h
  | ok found =>
    rw [hvalid] at h
    cases h
    exact ⟨hvalid, rfl⟩

variable (lib allowedHosts policy) in
structure Walk.Checked (asked : Resolver → Prop) (first : Text) (w : Walk) : Prop where
  valid : ∃ resolve, asked resolve ∧
    validateTarget lib allowedHosts policy resolve w.current = .ok (w.originHost, w.resolved)
  credentials : (∃ header ∈ w.headers, isCredential lib header) → w.originHost = first

variable {asked : Resolver → Prop} {first : Text}

theorem Walk.Checked.next {w next : Walk} (hw : w.Checked lib allowedHosts policy asked first)
    {r : Response} {resolve : Resolver} (hasked : asked resolve)
    (h : react lib allowedHosts policy w r resolve = .ok next) :
    next.Checked lib allowedHosts policy asked first := by
  obtain ⟨hvalid, hheaders⟩ := react_ok h
  refine ⟨⟨resolve, hasked, hvalid⟩, ?_⟩
  rintro ⟨header, hmem, hcredential⟩
  rw [hheaders] at hmem
  split_ifs at hmem with hhost
  · have hkept := of_mem_filter hmem
    rw [hcredential] at hkept
    cases hkept
  · rw [not_not.mp hhost]
    exact hw.credentials ⟨header, hmem, hcredential⟩

variable (lib allowedHosts policy) in
def Kept (asked : Resolver → Prop) (first : Text) (r : Wire) : Prop :=
  Guarded lib allowedHosts asked (fun port ↦ ∀ n, port = some n → n ∈ policy.allowedPorts) r ∧
    ((∃ header ∈ r.headers, isCredential lib header) → hostOf lib r.url = first)

theorem Walk.Checked.kept {w : Walk} (hw : w.Checked lib allowedHosts policy asked first)
    (hconnects : connects lib w.current) : Kept lib allowedHosts policy asked first w.wire := by
  obtain ⟨⟨resolve, hasked, hvalid⟩, hcredentials⟩ := hw
  obtain ⟨hhost, hguarded⟩ := guarded_of_validated hasked hvalid hconnects w.headers
  exact ⟨hguarded, fun h ↦ hhost.trans (hcredentials h)⟩

theorem hops_kept {world : ℕ → Exchange} (hasked : ∀ j, asked (world j).resolve) (remaining : ℕ)
    {hop : ℕ} {w : Walk} (hw : w.Checked lib allowedHosts policy asked first) :
    ∀ r ∈ (hops lib allowedHosts policy world remaining hop w).requests,
      Kept lib allowedHosts policy asked first r := by
  induction remaining generalizing hop w with
  | zero => exact fun _ hr ↦ nomatch hr
  | succ remaining ih =>
    rw [hops]
    split_ifs with hconnects
    · split <;> exact fun _ hr ↦ nomatch hr
    have hkept := hw.kept (by simpa using hconnects)
    split
    · exact forall_mem_singleton.mpr hkept
    split
    · exact forall_mem_singleton.mpr hkept
    · rename_i next hnext
      exact forall_mem_cons.mpr ⟨hkept, ih (hw.next (hasked hop) hnext)⟩

theorem length_hops_le (world : ℕ → Exchange) (remaining hop : ℕ) (w : Walk) :
    (hops lib allowedHosts policy world remaining hop w).requests.length ≤ remaining := by
  induction remaining generalizing hop w with
  | zero => exact le_rfl
  | succ remaining ih =>
    rw [hops]
    split_ifs
    · split <;> exact Nat.zero_le _
    split
    · exact Nat.le_add_left _ _
    split
    · exact Nat.le_add_left _ _
    · exact Nat.succ_le_succ (ih _ _)

theorem hostOf_strip {resolve : Resolver} {url host : Text} {addresses : List Text}
    (h : validateTarget lib allowedHosts policy resolve url = .ok (host, addresses)) :
    hostOf lib (strip url) = host := by
  obtain ⟨parts, hparts, hchecked, -⟩ := validateTarget_ok h
  obtain ⟨-, -, -, -, rfl, -⟩ := checkParts_ok hchecked
  rw [hostOf, hparts]

theorem attempt_kept {headers : Headers} {resolve : Resolver} {world : ℕ → Exchange} {url : Text}
    (hresolve : asked resolve) (hworld : ∀ j, asked (world j).resolve) :
    ∀ r ∈ (attempt lib allowedHosts policy headers resolve world url).requests,
      Kept lib allowedHosts policy asked (hostOf lib (strip url)) r := by
  rw [attempt]
  split
  · exact fun _ hr ↦ nomatch hr
  · rename_i host resolved hvalid
    refine hops_kept hworld _ ⟨⟨resolve, hresolve, hvalid⟩, fun _ ↦ ?_⟩
    exact (hostOf_strip hvalid).symm

theorem length_attempt_le (headers : Headers) (resolve : Resolver) (world : ℕ → Exchange)
    (url : Text) : (attempt lib allowedHosts policy headers resolve world url).requests.length ≤
      (policy.maxRedirects + 1).toNat := by
  rw [attempt]
  split
  · exact Nat.zero_le _
  · exact length_hops_le _ _ _ _

end Walks

def Ending.Transient : Ending → Prop
  | .http status _ => status = 429 ∨ 500 ≤ status
  | .fails failure => failure ≠ .uncaught
  | _ => False

section Endings

variable {lib allowedHosts policy}

theorem checkAddresses_error {resolve : Resolver} {host : Text} {isIpLiteral : Bool}
    {ending : Ending} (h : checkAddresses lib resolve host isIpLiteral = .error ending) :
    ending.retried = false := by
  unfold checkAddresses at h
  split at h
  · cases h; rfl
  · cases h; rfl
  · cases h; rfl
  · split at h <;> cases h
    rfl

theorem validateTarget_error {resolve : Resolver} {url : Text} {ending : Ending}
    (h : validateTarget lib allowedHosts policy resolve url = .error ending) :
    ending.retried = false := by
  unfold validateTarget at h
  split at h
  · cases h; rfl
  split at h
  · cases h; rfl
  rename_i host _
  cases hresult : checkAddresses lib resolve host (classifyAddress lib host ≠ some .notAnAddress)
    with
  | error found => rw [hresult] at h; cases h; exact checkAddresses_error hresult
  | ok found => rw [hresult] at h; cases h

theorem transient_fails (failure : Failure) :
    (Ending.fails failure).retried → (Ending.fails failure).Transient :=
  fun h ↦ of_decide_eq_true (p := failure ≠ .uncaught) h

theorem readCapped_transient {r : Response} {ending : Ending}
    (h : readCapped policy r = .error ending) : ending.retried → ending.Transient := by
  rw [readCapped] at h
  split_ifs at h
  · cases h; exact fun h ↦ nomatch h
  · cases h; exact fun h ↦ nomatch h
  · split at h <;> cases h
    exact transient_fails _

theorem readBody_transient (r : Response) :
    (readBody lib policy r).retried → (readBody lib policy r).Transient := by
  unfold readBody
  split
  · exact fun h ↦ nomatch h
  split
  · exact fun h ↦ nomatch h
  split
  · rename_i hread
    exact readCapped_transient hread
  · split <;> exact fun h ↦ nomatch h

theorem follow_error {w : Walk} {r : Response} {resolve : Resolver} {ending : Ending}
    (h : follow lib allowedHosts policy w r resolve = .error ending) : ending.retried = false := by
  rw [follow] at h
  split at h
  · cases h; rfl
  split at h
  · cases h; rfl
  rename_i target _
  split at h
  · cases h; rfl
  cases hvalid : validateTarget lib allowedHosts policy resolve target with
  | error found => rw [hvalid] at h; cases h; exact validateTarget_error hvalid
  | ok found => rw [hvalid] at h; cases h

theorem react_error {w : Walk} {r : Response} {resolve : Resolver} {ending : Ending}
    (h : react lib allowedHosts policy w r resolve = .error ending) :
    ending.retried → ending.Transient := by
  rw [react] at h
  split_ifs at h with _ _ hstatus
  · rw [follow_error h]
    exact fun h ↦ nomatch h
  · cases h; exact fun h ↦ nomatch h
  · cases h; exact fun _ ↦ hstatus
  · cases h; exact fun h ↦ nomatch h
  · cases h; exact readBody_transient r

theorem hops_ending {world : ℕ → Exchange} (remaining hop : ℕ) (w : Walk) :
    (hops lib allowedHosts policy world remaining hop w).ending.retried →
      (hops lib allowedHosts policy world remaining hop w).ending.Transient := by
  induction remaining generalizing hop w with
  | zero => exact fun h ↦ nomatch h
  | succ remaining ih =>
    rw [hops]
    split
    · split <;> exact transient_fails _
    split
    · exact transient_fails _
    split
    · rename_i hreact
      exact react_error hreact
    · exact ih _ _

theorem attempt_ending {headers : Headers} {resolve : Resolver} {world : ℕ → Exchange}
    {url : Text} : (attempt lib allowedHosts policy headers resolve world url).ending.retried →
      (attempt lib allowedHosts policy headers resolve world url).ending.Transient := by
  rw [attempt]
  split
  · rename_i hvalid
    rw [validateTarget_error hvalid]
    exact fun h ↦ nomatch h
  · exact hops_ending _ _ _

end Endings

section Retries

variable {lib allowedHosts policy} {headers : Headers} {resolve : ℕ → Resolver}
  {world : ℕ → ℕ → Exchange} {url : Text}

theorem mem_attempts {remaining i : ℕ} {a : Attempt}
    (h : a ∈ attempts lib allowedHosts policy headers resolve world url remaining i) :
    ∃ j, a = attempt lib allowedHosts policy headers (resolve j) (world j) url := by
  induction remaining generalizing i with
  | zero => cases h
  | succ remaining ih =>
    rw [attempts] at h
    rcases mem_cons.mp h with rfl | h
    · exact ⟨i, rfl⟩
    · split at h
      · exact ih h
      · cases h

theorem length_attempts_le (remaining i : ℕ) :
    (attempts lib allowedHosts policy headers resolve world url remaining i).length ≤
      remaining := by
  induction remaining generalizing i with
  | zero => exact le_rfl
  | succ remaining ih =>
    rw [attempts]
    split
    · exact Nat.succ_le_succ (ih _)
    · exact Nat.le_add_left _ _

theorem retried_of_mem_dropLast (remaining i : ℕ) :
    ∀ a ∈ (attempts lib allowedHosts policy headers resolve world url remaining i).dropLast,
      a.ending.retried := by
  induction remaining generalizing i with
  | zero => exact fun _ ha ↦ nomatch ha
  | succ remaining ih =>
    rw [attempts]
    split
    · rename_i hretried
      cases hrest : attempts lib allowedHosts policy headers resolve world url remaining (i + 1) with
      | nil => exact fun _ ha ↦ nomatch ha
      | cons second rest =>
        rw [dropLast_cons_cons, ← hrest]
        exact forall_mem_cons.mpr ⟨hretried, ih _⟩
    · exact fun _ ha ↦ nomatch ha

variable (lib allowedHosts policy headers resolve world url)

theorem fetch_kept : ∀ a ∈ fetch lib allowedHosts policy headers resolve world url,
    a.requests.length ≤ (policy.maxRedirects + 1).toNat ∧ ∀ r ∈ a.requests,
      Kept lib allowedHosts policy (Asked resolve world) (hostOf lib (strip url)) r := by
  intro a ha
  rw [fetch] at ha
  split at ha
  · obtain rfl := mem_singleton.mp ha
    exact ⟨Nat.zero_le _, fun _ hr ↦ nomatch hr⟩
  · obtain ⟨i, rfl⟩ := mem_attempts ha
    exact ⟨length_attempt_le _ _ _ _, attempt_kept ⟨i, .inl rfl⟩ (fun j ↦ ⟨i, .inr ⟨j, rfl⟩⟩)⟩

theorem fetch_retries :
    (fetch lib allowedHosts policy headers resolve world url).length ≤
        (max 1 policy.maxAttempts).toNat ∧
      ∀ a ∈ (fetch lib allowedHosts policy headers resolve world url).dropLast,
        a.ending.Transient := by
  rw [fetch]
  split
  · have hone : 1 ≤ (max 1 policy.maxAttempts).toNat := by omega
    exact ⟨hone, fun _ ha ↦ nomatch ha⟩
  · refine ⟨length_attempts_le _ _, fun a ha ↦ ?_⟩
    obtain ⟨i, rfl⟩ := mem_attempts (dropLast_subset _ ha)
    exact attempt_ending (retried_of_mem_dropLast _ _ _ ha)

/-- Every request is guarded, its port included, exactly if the default port is allowed or
every requested URL names its port. -/
theorem fetch_guarded_iff :
    ((∀ a ∈ fetch lib allowedHosts policy headers resolve world url, ∀ r ∈ a.requests,
        Safe lib allowedHosts policy (Asked resolve world) r) ↔
      443 ∈ policy.allowedPorts ∨
        ∀ a ∈ fetch lib allowedHosts policy headers resolve world url, ∀ r ∈ a.requests,
          NamesPort lib r) ∧
    (fetch lib allowedHosts policy headers resolve world url).length ≤
      (max 1 policy.maxAttempts).toNat ∧
    (∀ a ∈ fetch lib allowedHosts policy headers resolve world url,
      a.requests.length ≤ (policy.maxRedirects + 1).toNat ∧ ∀ r ∈ a.requests,
        (∃ header ∈ r.headers, isCredential lib header) →
          hostOf lib r.url = hostOf lib (strip url)) ∧
    ∀ a ∈ (fetch lib allowedHosts policy headers resolve world url).dropLast,
      a.ending.Transient := by
  have hkept := fetch_kept lib allowedHosts policy headers resolve world url
  obtain ⟨hlength, hretries⟩ := fetch_retries lib allowedHosts policy headers resolve world url
  refine ⟨⟨fun hsafe ↦ ?_, fun hports a ha r hr ↦ ?_⟩, hlength,
    fun a ha ↦ ⟨(hkept a ha).1, fun r hr ↦ ((hkept a ha).2 r hr).2⟩, hretries⟩
  · refine or_iff_not_imp_left.mpr (fun hdefault a ha r hr ↦ ?_)
    obtain ⟨parts, port, hparts, -, -, -, -, hport, hallowed, -⟩ := hsafe a ha r hr
    cases port with
    | none => exact absurd hallowed hdefault
    | some n => exact ⟨parts, n, hparts, hport⟩
  · obtain ⟨parts, port, hparts, hscheme, husername, hpassword, hhost, hport, hnamed, hresolved⟩ :=
      ((hkept a ha).2 r hr).1
    refine ⟨parts, port, hparts, hscheme, husername, hpassword, hhost, hport, ?_, hresolved⟩
    cases port with
    | some n => exact hnamed n rfl
    | none =>
      rcases hports with hdefault | hnames
      · exact hdefault
      · obtain ⟨parts', n, hparts', hport'⟩ := hnames a ha r hr
        rw [hparts, Option.some.injEq] at hparts'
        rw [← hparts', hport] at hport'
        cases hport'

end Retries

section DefaultPort

theorem toLower_of_isSpace {c : Char} (h : isSpace c) : c.toLower = c := by
  have hblank := isSpace_toNat h
  refine dif_neg ?_
  rintro ⟨hlow, hhigh⟩
  have hlow' : 65 ≤ c.toNat := hlow
  have hhigh' : c.toNat ≤ 90 := hhigh
  omega

def asciiPlatform : Platform where
  lower s := s.map Char.toLower
  lower_nil := rfl
  lower_append s v hv := by
    rw [map_append, map_congr_left (fun c hc ↦ toLower_of_isSpace (hv c hc)), map_id']
  idna _ := none
  netlocAccepted _ := true
  ipAddress raw :=
    if raw = "8.8.8.8".toList then
      some ⟨⟨false, false, false, false, false, false, true⟩, none⟩
    else none
  urljoin _ location := some location

def otherPortPolicy : FetchPolicy := { defaultPolicy with allowedPorts := [8443] }

def oneAddress : Resolver := fun _ ↦ .addresses ["8.8.8.8".toList]

def unchanged : Exchange where
  answer := .response ⟨304, [], none, [], [], none, true⟩
  resolve := oneAddress

def plainUrl : Text := "https://example.org/".toList

theorem default_port_unchecked :
    ∃ a ∈ fetch asciiPlatform ["example.org".toList] otherPortPolicy [] (fun _ ↦ oneAddress)
      (fun _ _ ↦ unchanged) plainUrl, ∃ r ∈ a.requests, r.url = plainUrl ∧
        ¬ Safe asciiPlatform ["example.org".toList] otherPortPolicy
          (Asked (fun _ ↦ oneAddress) (fun _ _ ↦ unchanged)) r := by
  refine ⟨_, mem_singleton.mpr rfl, _, mem_singleton.mpr rfl, rfl, ?_⟩
  rintro ⟨parts, port, hparts, -, -, -, -, hport, hallowed, -⟩
  obtain rfl : ⟨https, "example.org".toList⟩ = parts := Option.some.inj hparts
  obtain rfl : none = port := Option.some.inj hport
  exact absurd hallowed (by decide)

end DefaultPort

end TalaPala.News
