import TalaPala.Library.UrlSplit
import Mathlib.Data.List.Lex
import Mathlib.Data.Prod.Lex
import Mathlib.Data.List.Sort

namespace TalaPala.Dedupe

open Library.Urllib List

section Canonical

def trackingPrefix : Points := points "utm_"

def trackingParams : List Points :=
  ["fbclid", "gclid", "dclid", "msclkid", "igshid", "mc_cid", "mc_eid", "ref", "ref_src",
    "referrer", "src", "source", "cmpid", "ncid", "s_cid", "spm", "at_medium",
    "at_campaign"].map points

/-- `DEFAULT_PORTS.get(scheme)`. -/
def defaultPort (scheme : Points) : Option Points :=
  if scheme = points "http" then some (points "80")
  else if scheme = points "https" then some (points "443")
  else none

def www : Points := points "www."

def dropWww (host : Points) : Points := if www.isPrefixOf host then host.drop 4 else host

/-- `sorted` of pairs of strings. -/
def sorted (kept : List (Points × Points)) : List (Points × Points) :=
  ((kept.map toLex).insertionSort (· ≤ ·)).map ofLex

variable (l : Lowering) (isIPv6 : Points → Bool)

def isTracking (key : Points) : Bool :=
  trackingParams.contains (l.lower key) || trackingPrefix.isPrefixOf (l.lower key)

def hostOf (parts : Parts) : Points := l.lower (parts.hostname l)

def portSuffix (parts : Parts) : Points :=
  match parts.port with
  | some (some port) =>
    if some (decimal port) ≠ defaultPort (l.lower parts.scheme) then 58 :: decimal port else []
  | _ => []

def netlocOf (parts : Parts) : Points := dropWww (hostOf l parts) ++ portSuffix l parts

def pathOf (parts : Parts) : Points :=
  let path := parts.path
  let path :=
    if 1 < path.length ∧ path.getLast? = some 47 then path.rdropWhile (· = 47) else path
  if path = [47] then [] else path

def kept (parts : Parts) : List (Points × Points) :=
  (parseQsl parts.query).filter (fun (key, _) ↦ !isTracking l key)

def parsed (raw : Points) : Option Parts := do
  let parts ← urlsplit l isIPv6 raw
  if parts.scheme = [] then urlsplit l isIPv6 (points "https://" ++ raw.dropWhile (· = 47))
  else some parts

def keyOf (parts : Parts) : Option Points := do
  let _ ← parts.port
  let query ← urlencode (sorted (kept l parts))
  some (urlunsplit ⟨l.lower parts.scheme, netlocOf l parts, pathOf parts, query, []⟩)

def canonicalUrl (url : Points) : Option Points :=
  let raw := strip url
  if raw = [] then some [] else (parsed l isIPv6 raw).bind (keyOf l)

end Canonical

section Collector

/-- What is read of an entry of the answer, each field as `str` gives it. -/
structure Item (J : Type*) where
  url : Points
  title : Points
  seendate : Points
  language : Points
  domain : Points
  sourcecountry : Points
  urlMobile : Points
  tone : Option J

structure Provenance (J : Type*) where
  queryText : Points
  gdeltSeendate : Points
  gdeltSeenAt : Option ℤ
  gdeltDomain : Points
  gdeltLanguage : Points
  gdeltSourceCountry : Points
  gdeltUrlMobile : Points
  unverifiedTone : Option J

structure CollectedArticle (J : Type*) where
  sourceCode : Points
  canonical : Points
  url : Points
  title : Points
  summary : Points
  availableAt : ℤ
  externalId : Points
  language : Points
  queryId : Option ℤ
  provenance : Provenance J

def languageCodes : List (Points × Points) :=
  [("english", "en"), ("persian", "fa"), ("farsi", "fa"), ("arabic", "ar"), ("french", "fr"),
    ("german", "de"), ("russian", "ru"), ("chinese", "zh"), ("turkish", "tr"),
    ("spanish", "es")].map (fun (name, code) ↦ (points name, points code))

variable {J : Type*} (l : Lowering) (isIPv6 : Points → Bool) (parseCompactUtc : Points → Option ℤ)
  (queryText : Points) (queryId : Option ℤ) (fetchedAt : ℤ)

def articleOf (item : Item J) (canonical : Points) : CollectedArticle J where
  sourceCode := points "gdelt"
  canonical := canonical
  url := strip item.url
  title := strip item.title
  summary := []
  availableAt := fetchedAt
  externalId := strip item.url
  language := (languageCodes.lookup (l.lower (strip item.language))).getD (points "und")
  queryId := queryId
  provenance :=
    { queryText := queryText
      gdeltSeendate := strip item.seendate
      gdeltSeenAt := parseCompactUtc (strip item.seendate)
      gdeltDomain := item.domain
      gdeltLanguage := strip item.language
      gdeltSourceCountry := item.sourcecountry
      gdeltUrlMobile := item.urlMobile
      unverifiedTone := item.tone }

/-- The articles of a list; an entry that is not an object is `none`. -/
def articlesOf : List (Option (Item J)) → Option (List (CollectedArticle J))
  | [] => some []
  | none :: rest => articlesOf rest
  | some item :: rest =>
    if strip item.url = [] ∨ strip item.title = [] then articlesOf rest
    else (canonicalUrl l isIPv6 (strip item.url)).bind (fun canonical ↦
      (articlesOf rest).map
        (articleOf l parseCompactUtc queryText queryId fetchedAt item canonical :: ·))

/-- A document without a list of articles is `none`. -/
def parseArticles (document : Option (List (Option (Item J)))) :
    Option (List (CollectedArticle J)) :=
  match document with
  | none => some []
  | some items => articlesOf l isIPv6 parseCompactUtc queryText queryId fetchedAt items

end Collector

section Claimed

variable (l : Lowering) (isIPv6 : Points → Bool)

def view (url : Points) : Option Parts := if strip url = [] then none else parsed l isIPv6 (strip url)

/-- Lower-case hosts that are equal up to one leading `www.`. -/
def SameHost (host other : Points) : Prop :=
  host = other ∨ host = www ++ other ∨ other = www ++ host

def statedPort (parts : Parts) : Option ℕ :=
  parts.port.join.filter (fun port ↦ some (decimal port) ≠ defaultPort (l.lower parts.scheme))

/-- Parts that differ at most in the case of scheme and host, a leading `www.`, the default port,
userinfo, fragment, tracking parameters, the order of the query and trailing slashes. -/
structure SameParts (p q : Parts) : Prop where
  scheme : l.lower p.scheme = l.lower q.scheme
  host : SameHost (hostOf l p) (hostOf l q)
  port : statedPort l p = statedPort l q
  path : p.path.rdropWhile (· = 47) = q.path.rdropWhile (· = 47)
  query : (kept l p).Perm (kept l q)

def Same (url other : Points) : Prop :=
  strip url = [] ∧ strip other = [] ∨
    ∃ p q, view l isIPv6 url = some p ∧ view l isIPv6 other = some q ∧ SameParts l p q

def Normal (url : Points) : Prop :=
  ∃ key, canonicalUrl l isIPv6 url = some key ∧ canonicalUrl l isIPv6 key = some key ∧
    Same l isIPv6 url key

/-- A netloc that `urlsplit` accepts, a port that is a number up to 65535 or absent, and no lone
surrogate in a pair that survives. -/
def Readable (url : Points) : Prop :=
  strip url = [] ∨ ∃ p, view l isIPv6 url = some p ∧ p.port.isSome ∧ (kept l p).all isEncodable

/-- A host without a colon, a bracket or a second `www.`, and no blank where the key ends. -/
structure Regular (p : Parts) : Prop where
  plainHost : 58 ∉ hostOf l p ∧ 91 ∉ hostOf l p ∧ 93 ∉ hostOf l p
  oneWww : ¬ www ++ www <+: hostOf l p
  filledEnd : kept l p = [] →
    ∀ c ∈ (hostOf l p ++ portSuffix l p ++ pathOf p).getLast?, isBlank c = false

def RegularUrl (url : Points) : Prop := ∀ p, view l isIPv6 url = some p → Regular l p

end Claimed

section Pieces

variable {l : Lowering} {isIPv6 : Points → Bool} {p : Parts} {url : Points}

theorem isScheme_https (l : Lowering) : IsScheme l (points "https") where
  text := by decide
  lower := by
    rw [l.lower_ascii _ (by decide)]
    decide

structure Shaped (l : Lowering) (isIPv6 : Points → Bool) (p : Parts) : Prop where
  wellFormed : p.WellFormed l isIPv6
  scheme : IsScheme l p.scheme

theorem parsed_shaped {raw : Points} (h : parsed l isIPv6 raw = some p) : Shaped l isIPv6 p := by
  obtain ⟨first, hfirst, h⟩ := Option.bind_eq_some_iff.mp h
  split_ifs at h with hscheme
  · have hhttps : points "https://" ++ raw.dropWhile (· = 47) =
        points "https" ++ 58 :: (47 :: 47 :: raw.dropWhile (· = 47)) := rfl
    refine ⟨urlsplit_wellFormed h, ?_⟩
    rw [hhttps] at h
    rw [urlsplit_scheme (isScheme_https l) h]
    exact isScheme_https l
  · obtain rfl := Option.some_inj.mp h
    have hwell := urlsplit_wellFormed hfirst
    exact ⟨hwell, hwell.scheme.resolve_left hscheme⟩

theorem view_eq_some : view l isIPv6 url = some p ↔
    strip url ≠ [] ∧ parsed l isIPv6 (strip url) = some p := by
  unfold view
  split_ifs with h <;> simp [h]

theorem canonicalUrl_blank (h : strip url = []) : canonicalUrl l isIPv6 url = some [] := if_pos h

theorem canonicalUrl_eq_bind (h : strip url ≠ []) :
    canonicalUrl l isIPv6 url = (view l isIPv6 url).bind (keyOf l) := by
  rw [view, if_neg h]
  exact if_neg h

theorem keyOf_eq_some {key : Points} : keyOf l p = some key ↔
    p.port.isSome ∧ ∃ query, urlencode (sorted (kept l p)) = some query ∧
      urlunsplit ⟨l.lower p.scheme, netlocOf l p, pathOf p, query, []⟩ = key := by
  unfold keyOf
  cases p.port with
  | none => simp
  | some port => simp [Option.bind_eq_some_iff]

theorem pathOf_eq (p : Parts) : pathOf p = p.path.rdropWhile (· = 47) := by
  unfold pathOf
  dsimp only
  split_ifs with hlong hslash hslash
  · have hlast := rdropWhile_last_not (· = 47) p.path (by rw [hslash]; simp)
    simp [hslash] at hlast
  · rfl
  · rw [hslash]
    rfl
  · symm
    rw [rdropWhile_eq_self_iff]
    intro hne hlast
    have hlast47 : p.path.getLast hne = 47 := of_decide_eq_true hlast
    rcases hpath : p.path with _ | ⟨c, _ | ⟨d, rest⟩⟩
    · exact hne hpath
    · have hc : c = 47 := by simpa [hpath] using hlast47
      exact hslash (by rw [hpath, hc])
    · exact hlong ⟨by simp [hpath], by rw [getLast?_eq_getLast_of_ne_nil hne, hlast47]⟩

theorem sorted_perm (kept : List (Points × Points)) : (sorted kept).Perm kept := by
  have hperm := (perm_insertionSort (· ≤ ·) (kept.map toLex)).map ofLex
  rwa [map_map, show (ofLex ∘ toLex : Points × Points → Points × Points) = id from rfl,
    map_id] at hperm

theorem sorted_eq_iff {kept kept' : List (Points × Points)} :
    sorted kept = sorted kept' ↔ kept.Perm kept' := by
  constructor
  · intro h
    exact (sorted_perm kept).symm.trans (h ▸ sorted_perm kept')
  · intro h
    refine congrArg (List.map ofLex) (List.Perm.eq_of_pairwise'
      (pairwise_insertionSort (· ≤ ·) _) (pairwise_insertionSort (· ≤ ·) _) ?_)
    exact (perm_insertionSort _ _).trans
      ((h.map toLex).trans (perm_insertionSort _ _).symm)

theorem sorted_sorted (kept : List (Points × Points)) : sorted (sorted kept) = sorted kept :=
  sorted_eq_iff.mpr (sorted_perm kept)

end Pieces

section Host

variable {l : Lowering} {isIPv6 : Points → Bool} {p : Parts} {c : ℕ}

structure HostChar (l : Lowering) (c : ℕ) : Prop where
  netloc : isNetlocChar c
  notAt : c ≠ 64
  spelled : spellsDelimiter c = false
  lower : l.lower [c] = [c]

theorem isNetlocChar_of_not_plain (h : isPlain c = false) : isNetlocChar c := by
  have hnot : ∀ d < 128, isAlpha d = false → c ≠ d := by
    rintro d hd halpha rfl
    rw [isPlain_of_ascii hd halpha] at h
    cases h
  refine isNetlocChar_iff.mpr ⟨?_, ?_⟩
  · rw [← Bool.not_eq_true, endsNetloc_iff]
    rintro (rfl | rfl | rfl)
    · exact hnot 47 (by decide) rfl rfl
    · exact hnot 63 (by decide) rfl rfl
    · exact hnot 35 (by decide) rfl rfl
  · simp only [isRemoved, Bool.or_eq_false_iff, decide_eq_false_iff_not]
    exact ⟨⟨hnot 9 (by decide) rfl, hnot 10 (by decide) rfl⟩, hnot 13 (by decide) rfl⟩

theorem hostChar_ascii (hlow : 32 < c) (hhigh : c < 64) (hends : endsNetloc c = false) :
    HostChar l c where
  netloc := by
    refine isNetlocChar_iff.mpr ⟨hends, ?_⟩
    simp only [isRemoved, Bool.or_eq_false_iff, decide_eq_false_iff_not]
    omega
  notAt := by omega
  spelled := spellsDelimiter_of_ascii (by omega)
  lower := by
    refine l.lower_singleton (by omega) ?_
    rw [← Bool.not_eq_true, isUpper_iff]
    omega

theorem hostChar_of_mem (hp : Shaped l isIPv6 p) (hc : c ∈ hostOf l p) : HostChar l c := by
  have hplain : isPlain c → c ∈ p.hostText := fun h ↦ Parts.mem_hostText_of_lower h hc
  have haccepts := hp.wellFormed.accepts
  rw [acceptsNetloc, Bool.and_eq_true, Bool.not_eq_true', any_eq_false] at haccepts
  refine ⟨?_, ?_, ?_, l.lower_lower _ c hc⟩
  · cases h : isPlain c with
    | true => exact hp.wellFormed.netloc c (Parts.mem_netloc_of_hostText (hplain h))
    | false => exact isNetlocChar_of_not_plain h
  · rintro rfl
    exact p.at_not_mem_hostText (hplain rfl)
  · rw [← Bool.not_eq_true]
    intro h
    refine haccepts.2 c (Parts.mem_netloc_of_hostText (hplain ?_)) h
    rw [isPlain, h, Bool.or_true]

theorem portSuffix_eq (l : Lowering) (p : Parts) :
    portSuffix l p = (statedPort l p).elim [] (fun n ↦ 58 :: decimal n) := by
  unfold portSuffix statedPort
  rcases p.port with _ | _ | n
  · rfl
  · rfl
  · dsimp only [Option.join_some]
    rw [Option.filter_some]
    by_cases hdefault : some (decimal n) = defaultPort (l.lower p.scheme) <;> simp [hdefault]

theorem statedPort_le {n : ℕ} (h : statedPort l p = some n) : n ≤ 65535 := by
  obtain ⟨hport, -⟩ := Option.filter_eq_some_iff.mp h
  exact Parts.port_le (Option.join_eq_some_iff.mp hport)

theorem portSuffix_cases (l : Lowering) (p : Parts) :
    portSuffix l p = [] ∧ statedPort l p = none ∨
      ∃ n ≤ 65535, portSuffix l p = 58 :: decimal n ∧ statedPort l p = some n := by
  rw [portSuffix_eq]
  cases hport : statedPort l p with
  | none => exact .inl ⟨rfl, rfl⟩
  | some n => exact .inr ⟨n, statedPort_le hport, rfl, rfl⟩

theorem hostChar_portSuffix (hc : c ∈ portSuffix l p) : HostChar l c := by
  obtain ⟨hnone, -⟩ | ⟨n, -, hsome, -⟩ := portSuffix_cases l p
  · rw [hnone] at hc
    cases hc
  · rw [hsome] at hc
    rcases mem_cons.mp hc with rfl | hc
    · exact hostChar_ascii (by decide) (by decide) rfl
    · have hdigit := isDigit_iff.mp (isDigit_decimal n c hc)
      refine hostChar_ascii (by omega) (by omega) ?_
      rw [← Bool.not_eq_true, endsNetloc_iff]
      omega

theorem dropWww_cases (host : Points) :
    host = www ++ dropWww host ∨ ¬ www <+: host ∧ dropWww host = host := by
  unfold dropWww
  split_ifs with h
  · obtain ⟨rest, rfl⟩ := isPrefixOf_iff_prefix.mp h
    exact .inl rfl
  · exact .inr ⟨fun hprefix ↦ h (List.isPrefixOf_iff_prefix.mpr hprefix), rfl⟩

theorem dropWww_www (host : Points) : dropWww (www ++ host) = host := by
  rw [dropWww, if_pos (List.isPrefixOf_iff_prefix.mpr (prefix_append _ _))]
  rfl

theorem dropWww_suffix (host : Points) : dropWww host <:+ host := by
  unfold dropWww
  split_ifs
  · exact drop_suffix _ _
  · exact suffix_refl _

theorem hostChar_netlocOf (hp : Shaped l isIPv6 p) (hc : c ∈ netlocOf l p) : HostChar l c := by
  rcases mem_append.mp hc with hc | hc
  · exact hostChar_of_mem hp ((dropWww_suffix _).subset hc)
  · exact hostChar_portSuffix hc

theorem netlocOf_nil (h : p.netloc = []) : netlocOf l p = [] := by
  have hinfo : p.hostinfo = [] := by rw [Parts.hostinfo_of_not_mem (by simp [h]), h]
  have htext : p.hostText = [] := by
    rw [Parts.hostText, hinfo]
    rfl
  have hport : p.port = some none := by
    refine Parts.port_none ?_
    rw [Parts.portText, hinfo]
    rfl
  have hhost : hostOf l p = [] := by
    rw [hostOf, Parts.hostname_fixed (by simp [htext]), htext, l.lower_nil]
  rw [netlocOf, portSuffix, hport, hhost]
  rfl

end Host

section Path

variable {l : Lowering} {isIPv6 : Points → Bool} {p : Parts}

theorem pathOf_isPrefix (p : Parts) : pathOf p <+: p.path := by
  rw [pathOf_eq]
  exact rdropWhile_prefix _ _

theorem pathOf_shape (hp : Shaped l isIPv6 p) (h : netlocOf l p ≠ []) :
    pathOf p = [] ∨ (pathOf p).head? = some 47 := by
  obtain ⟨rest, hrest⟩ := pathOf_isPrefix p
  cases hpath : pathOf p with
  | nil => exact .inl rfl
  | cons c path =>
    have hshape := hp.wellFormed.shape (fun hnil ↦ h (netlocOf_nil hnil))
    rw [← hrest, hpath] at hshape
    exact .inr (hshape.resolve_left (by simp))

theorem isPathChar_pathOf (hp : Shaped l isIPv6 p) : ∀ c ∈ pathOf p, isPathChar c :=
  fun c hc ↦ hp.wellFormed.path c ((pathOf_isPrefix p).subset hc)

end Path

section Key

variable {l : Lowering} {isIPv6 : Points → Bool} {p : Parts} {url key query : Points}

theorem urlChar_of_urlencode {pairs : List (Points × Points)} (h : urlencode pairs = some query) :
    ∀ c ∈ query, c ≠ 35 ∧ isRemoved c = false ∧ isBlank c = false := by
  intro c hc
  have hbounds : 35 < c ∧ c < 128 := by
    rcases mem_urlencode h c hc with hquoted | rfl | rfl
    · rw [isQuoted_iff, isAlwaysSafe_iff] at hquoted
      omega
    · decide
    · decide
  refine ⟨by omega, ?_, isBlank_of_ascii (by omega) hbounds.2⟩
  simp only [isRemoved, Bool.or_eq_false_iff, decide_eq_false_iff_not]
  omega

theorem rdropWhile_eq_self {x : Points} (h : ∀ c ∈ x.getLast?, isBlank c = false) :
    x.rdropWhile isBlank = x := by
  refine rdropWhile_eq_self_iff.mpr (fun hne ↦ ?_)
  rw [h _ (getLast?_eq_getLast_of_ne_nil hne)]
  exact Bool.false_ne_true

theorem key_text (hp : Shaped l isIPv6 p) (query : Points) :
    ∃ lead, Leads (netlocOf l p) lead (pathOf p) ∧
      urlunsplit ⟨l.lower p.scheme, netlocOf l p, pathOf p, query, []⟩ =
        p.scheme ++ 58 :: (lead ++ (pathOf p ++ queryTail query)) := by
  obtain ⟨lead, hhier, hleads⟩ := hier_leads p.scheme (pathOf_shape hp)
  refine ⟨lead, hleads, ?_⟩
  rw [hp.scheme.lower, urlunsplit_eq hp.scheme.ne_nil, hhier, append_assoc]

structure KeyEnd (l : Lowering) (p : Parts) (query netloc path : Points) : Prop where
  whole : query ≠ [] → netloc = netlocOf l p ∧ path = pathOf p
  path : query = [] → path = (pathOf p).rdropWhile isBlank
  filled : query = [] → pathOf p ≠ [] → netloc = netlocOf l p
  bare : query = [] → pathOf p = [] → netloc = (netlocOf l p).rdropWhile isBlank

theorem KeyEnd.netloc_prefix {netloc path : Points} (h : KeyEnd l p query netloc path) :
    netloc <+: netlocOf l p := by
  by_cases hquery : query = []
  · by_cases hpath : pathOf p = []
    · rw [h.bare hquery hpath]
      exact rdropWhile_prefix _ _
    · rw [h.filled hquery hpath]
  · rw [(h.whole hquery).1]

theorem KeyEnd.path_prefix {netloc path : Points} (h : KeyEnd l p query netloc path) :
    path <+: pathOf p := by
  by_cases hquery : query = []
  · rw [h.path hquery]
    exact rdropWhile_prefix _ _
  · rw [(h.whole hquery).2]

theorem exists_keyEnd {lead : Points} (hleads : Leads (netlocOf l p) lead (pathOf p))
    (hquery : urlencode (sorted (kept l p)) = some query) :
    ∃ netloc lead' path, KeyEnd l p query netloc path ∧ Leads netloc lead' path ∧
      (lead ++ (pathOf p ++ queryTail query)).rdropWhile isBlank =
        lead' ++ (path ++ queryTail query) := by
  by_cases hempty : query = []
  · obtain ⟨netloc, lead', hdrop, hleads', hnetloc⟩ := Leads.rdropWhile hleads
    refine ⟨netloc, lead', _, ⟨fun h ↦ absurd hempty h, fun _ ↦ rfl, fun _ hpath ↦ ?_,
      fun _ hpath ↦ ?_⟩, hleads', ?_⟩
    · rw [hnetloc, if_neg hpath]
    · rw [hnetloc, if_pos hpath]
    · rw [queryTail, if_neg (not_not.mpr hempty), append_nil, append_nil, hdrop]
  · refine ⟨netlocOf l p, lead, pathOf p, ⟨fun _ ↦ ⟨rfl, rfl⟩, fun h ↦ absurd h hempty,
      fun h ↦ absurd h hempty, fun h ↦ absurd h hempty⟩, hleads, ?_⟩
    refine rdropWhile_eq_self (fun c hc ↦ ?_)
    rw [queryTail, if_pos hempty, ← append_assoc, append_cons,
      getLast?_append_of_ne_nil _ hempty] at hc
    exact (urlChar_of_urlencode hquery c (mem_of_getLast? hc)).2.2

theorem strip_scheme {scheme rest : Points} (h : IsScheme l scheme) :
    strip (scheme ++ 58 :: rest) = scheme ++ 58 :: rest.rdropWhile isBlank := by
  obtain ⟨⟨first, tail, hfirst, -⟩, hchars⟩ := isSchemeText_iff.mp h.text
  have hbounds := isSchemeChar_bounds (hchars first (hfirst ▸ mem_cons_self))
  have hcolon := rdropWhile_cons_of_not_blank (c := 58) rfl rest
  rw [hfirst, cons_append, strip_cons (isBlank_of_ascii hbounds.1 hbounds.2.1),
    ← cons_append, rdropWhile_append_left (by rw [hcolon]; simp), hcolon]

theorem view_key (hp : Shaped l isIPv6 p) (hquery : urlencode (sorted (kept l p)) = some query) :
    ∃ netloc path, KeyEnd l p query netloc path ∧
      view l isIPv6 (urlunsplit ⟨l.lower p.scheme, netlocOf l p, pathOf p, query, []⟩) =
        if acceptsNetloc isIPv6 netloc then some ⟨p.scheme, netloc, path, query, []⟩ else none := by
  obtain ⟨lead, hleads, htext⟩ := key_text hp query
  obtain ⟨netloc, lead', path, hend, hleads', hdrop⟩ := exists_keyEnd hleads hquery
  have hsplit : urlsplit l isIPv6 (p.scheme ++ 58 :: (lead' ++ (path ++ queryTail query))) =
      if acceptsNetloc isIPv6 netloc then some ⟨p.scheme, netloc, path, query, []⟩ else none :=
    urlsplit_leads hp.scheme hleads'
      (fun c hc ↦ (hostChar_netlocOf hp (hend.netloc_prefix.subset hc)).netloc)
      (fun c hc ↦ isPathChar_pathOf hp c (hend.path_prefix.subset hc))
      (fun c hc ↦ (urlChar_of_urlencode hquery c hc).imp_right And.left)
  refine ⟨netloc, path, hend, ?_⟩
  rw [htext, view, strip_scheme hp.scheme, hdrop, if_neg (by simp), parsed, hsplit]
  split_ifs with haccepts
  · exact if_neg hp.scheme.ne_nil
  · rfl

end Key

section Reread

variable {l : Lowering} {isIPv6 : Points → Bool} {p q : Parts} {query : Points}

structure Reread (l : Lowering) (p q : Parts) : Prop where
  scheme : q.scheme = p.scheme
  host : hostOf l q = dropWww (hostOf l p)
  port : q.port.isSome
  suffix : portSuffix l q = portSuffix l p
  stated : statedPort l q = statedPort l p
  path : pathOf q = pathOf p
  query : kept l q = sorted (kept l p)

def keyParts (l : Lowering) (p : Parts) (query : Points) : Parts :=
  ⟨p.scheme, netlocOf l p, pathOf p, query, []⟩

theorem mem_hostOf_of_netlocOf {c : ℕ} (hlarge : 64 < c) (hc : c ∈ netlocOf l p) :
    c ∈ hostOf l p := by
  rcases mem_append.mp hc with hc | hc
  · exact (dropWww_suffix _).subset hc
  · obtain ⟨hnone, -⟩ | ⟨n, -, hsome, -⟩ := portSuffix_cases l p
    · rw [hnone] at hc
      cases hc
    · rw [hsome] at hc
      rcases mem_cons.mp hc with rfl | hc
      · omega
      · have := isDigit_iff.mp (isDigit_decimal n c hc)
        omega

theorem plain_netlocOf (hp : Shaped l isIPv6 p) (hopen : 91 ∉ hostOf l p) (hclose : 93 ∉ hostOf l p) :
    64 ∉ netlocOf l p ∧ 91 ∉ netlocOf l p ∧ 93 ∉ netlocOf l p :=
  ⟨fun h ↦ (hostChar_netlocOf hp h).notAt rfl,
    fun h ↦ hopen (mem_hostOf_of_netlocOf (by decide) h),
    fun h ↦ hclose (mem_hostOf_of_netlocOf (by decide) h)⟩

theorem acceptsNetloc_netlocOf (hp : Shaped l isIPv6 p) (hopen : 91 ∉ hostOf l p)
    (hclose : 93 ∉ hostOf l p) : acceptsNetloc isIPv6 (netlocOf l p) := by
  obtain ⟨-, hopen, hclose⟩ := plain_netlocOf hp hopen hclose
  have hspelled : (netlocOf l p).any spellsDelimiter = false := by
    refine any_eq_false.mpr (fun c hc ↦ ?_)
    rw [(hostChar_netlocOf hp hc).spelled]
    exact Bool.false_ne_true
  rw [acceptsNetloc, hspelled, Bool.and_eq_true, Bool.and_eq_true]
  refine ⟨⟨decide_eq_true (iff_of_false hopen hclose), ?_⟩, rfl⟩
  rw [Bool.or_eq_true, Bool.not_eq_true', ← Bool.not_eq_true, contains_iff_mem]
  exact .inl hopen

theorem host_keyParts (hp : Shaped l isIPv6 p)
    (hplain : 58 ∉ hostOf l p ∧ 91 ∉ hostOf l p ∧ 93 ∉ hostOf l p) (query : Points) :
    (keyParts l p query).hostText = dropWww (hostOf l p) ∧
      (keyParts l p query).port = some (statedPort l p) := by
  obtain ⟨hcolon, hopen, hclose⟩ := hplain
  obtain ⟨hat, hopen, -⟩ := plain_netlocOf hp hopen hclose
  have hcolon : 58 ∉ dropWww (hostOf l p) := fun h ↦ hcolon ((dropWww_suffix _).subset h)
  rw [netlocOf] at hat hopen
  obtain ⟨hnone, hstated⟩ | ⟨n, hn, hsome, hstated⟩ := portSuffix_cases l p
  · rw [hnone, append_nil] at hat hopen
    have hnetloc : (keyParts l p query).netloc = dropWww (hostOf l p) := by
      rw [keyParts, netlocOf, hnone, append_nil]
    obtain ⟨hhost, htext⟩ := Parts.host_alone hnetloc hat hopen hcolon
    exact ⟨hhost, by rw [Parts.port_none htext, hstated]⟩
  · rw [hsome] at hat hopen
    have hnetloc : (keyParts l p query).netloc = dropWww (hostOf l p) ++ 58 :: decimal n := by
      rw [keyParts, netlocOf, hsome]
    obtain ⟨hhost, htext⟩ := Parts.host_and_port hnetloc hat hopen hcolon
    exact ⟨hhost, by rw [Parts.port_decimal htext hn, hstated]⟩

theorem reread_keyParts (hp : Shaped l isIPv6 p)
    (hplain : 58 ∉ hostOf l p ∧ 91 ∉ hostOf l p ∧ 93 ∉ hostOf l p)
    (hquery : urlencode (sorted (kept l p)) = some query) : Reread l p (keyParts l p query) := by
  obtain ⟨hhost, hport⟩ := host_keyParts hp hplain query
  have hfixed : ∀ c ∈ dropWww (hostOf l p), l.lower [c] = [c] := fun c hc ↦
    (hostChar_of_mem hp ((dropWww_suffix _).subset hc)).lower
  have hstated : statedPort l (keyParts l p query) = statedPort l p := by
    rw [statedPort, hport, Option.join_some]
    cases hport : statedPort l p with
    | none => rfl
    | some n => exact if_pos (Option.filter_eq_some_iff.mp hport).2
  refine ⟨rfl, ?_, by rw [hport]; rfl, ?_, hstated, ?_, ?_⟩
  · rw [hostOf, Parts.hostname_fixed (by rwa [hhost]), hhost, l.lower_fixed _ hfixed]
  · rw [portSuffix_eq, portSuffix_eq, hstated]
  · rw [pathOf_eq, pathOf_eq, keyParts, pathOf_eq, rdropWhile_idempotent]
  · rw [kept, keyParts, parseQsl_urlencode hquery, filter_eq_self]
    intro pair hpair
    exact (mem_filter.mp ((sorted_perm _).mem_iff.mp hpair)).2

end Reread

end TalaPala.Dedupe
