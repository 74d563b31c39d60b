import TalaPala.News.CanonicalUrl

namespace TalaPala.Dedupe

open Library.Urllib List

section Sound

variable {l : Lowering} {isIPv6 : Points → Bool} {p q : Parts} {url key query netloc path : Points}

theorem kept_eq_nil (hquery : urlencode (sorted (kept l p)) = some []) : kept l p = [] := by
  have hperm := sorted_perm (kept l p)
  rw [urlencode_eq_nil hquery] at hperm
  exact hperm.symm.eq_nil

theorem mem_getLast?_of_suffix {x y : Points} (h : x <:+ y) : ∀ c ∈ x.getLast?, c ∈ y.getLast? := by
  obtain ⟨front, rfl⟩ := h
  intro c hc
  rw [getLast?_append, Option.mem_def.mp hc]
  rfl

theorem netlocOf_suffix (l : Lowering) (p : Parts) :
    netlocOf l p <:+ hostOf l p ++ portSuffix l p := by
  obtain ⟨front, hfront⟩ := dropWww_suffix (hostOf l p)
  exact ⟨front, by rw [netlocOf, ← append_assoc, hfront]⟩

theorem KeyEnd.whole_of_filled (hend : KeyEnd l p query netloc path)
    (hquery : urlencode (sorted (kept l p)) = some query)
    (hfilled : kept l p = [] →
      ∀ c ∈ (hostOf l p ++ portSuffix l p ++ pathOf p).getLast?, isBlank c = false) :
    netloc = netlocOf l p ∧ path = pathOf p := by
  by_cases hempty : query = []
  · have hfilled := hfilled (kept_eq_nil (hempty ▸ hquery))
    have hpath := rdropWhile_eq_self (x := pathOf p) (fun c hc ↦
      hfilled c (mem_getLast?_of_suffix (suffix_append _ _) c hc))
    refine ⟨?_, (hend.path hempty).trans hpath⟩
    by_cases hbare : pathOf p = []
    · rw [hbare, append_nil] at hfilled
      exact (hend.bare hempty hbare).trans (rdropWhile_eq_self (fun c hc ↦
        hfilled c (mem_getLast?_of_suffix (netlocOf_suffix l p) c hc)))
    · exact hend.filled hempty hbare
  · exact hend.whole hempty

theorem dropWww_dropWww {host : Points} (h : ¬ www ++ www <+: host) :
    dropWww (dropWww host) = dropWww host := by
  rcases dropWww_cases host with hhost | ⟨-, hhost⟩
  · rcases dropWww_cases (dropWww host) with htwice | ⟨-, htwice⟩
    · refine absurd ?_ h
      rw [hhost, htwice, ← append_assoc]
      exact prefix_append _ _
    · exact htwice
  · rw [hhost, hhost]

theorem sameHost_dropWww (host : Points) : SameHost host (dropWww host) :=
  (dropWww_cases host).elim (fun h ↦ .inr (.inl h)) (fun h ↦ .inl h.2.symm)

theorem Reread.sameParts (h : Reread l p q) : SameParts l p q where
  scheme := by rw [h.scheme]
  host := h.host ▸ sameHost_dropWww _
  port := h.stated.symm
  path := by rw [← pathOf_eq, ← pathOf_eq, h.path]
  query := h.query ▸ (sorted_perm _).symm

theorem key_of_regular (hp : Shaped l isIPv6 p) (hregular : Regular l p)
    (hquery : urlencode (sorted (kept l p)) = some query)
    (hkey : urlunsplit ⟨l.lower p.scheme, netlocOf l p, pathOf p, query, []⟩ = key) :
    view l isIPv6 key = some (keyParts l p query) ∧ keyOf l (keyParts l p query) = some key := by
  obtain ⟨netloc, path, hend, hview⟩ := view_key hp hquery
  obtain ⟨rfl, rfl⟩ := hend.whole_of_filled hquery hregular.filledEnd
  have hreread := reread_keyParts hp hregular.plainHost hquery
  refine ⟨?_, keyOf_eq_some.mpr ⟨hreread.port, query, ?_, ?_⟩⟩
  · rw [← hkey, hview, if_pos (acceptsNetloc_netlocOf hp hregular.plainHost.2.1
      hregular.plainHost.2.2)]
    rfl
  · rw [hreread.query, sorted_sorted, hquery]
  · rw [hreread.scheme, hreread.path, netlocOf, hreread.host, hreread.suffix,
      dropWww_dropWww hregular.oneWww, ← hkey, netlocOf]

theorem canonicalUrl_eq_some : canonicalUrl l isIPv6 url = some key ↔
    strip url = [] ∧ key = [] ∨ ∃ p, view l isIPv6 url = some p ∧ keyOf l p = some key := by
  by_cases hblank : strip url = []
  · have hview : view l isIPv6 url = none := if_pos hblank
    rw [canonicalUrl_blank hblank, hview]
    simp [hblank, eq_comm]
  · rw [canonicalUrl_eq_bind hblank, Option.bind_eq_some_iff]
    simp [hblank]

theorem exists_urlencode : (∃ query, urlencode (sorted (kept l p)) = some query) ↔
    (kept l p).all isEncodable := by
  simp only [urlencode_eq_some, all_eq_true, (sorted_perm _).mem_iff, exists_and_left,
    exists_eq', and_true]

theorem canonicalUrl_isSome_iff : (canonicalUrl l isIPv6 url).isSome ↔ Readable l isIPv6 url := by
  rw [Option.isSome_iff_exists, Readable]
  simp only [canonicalUrl_eq_some, keyOf_eq_some, ← exists_urlencode]
  constructor
  · rintro ⟨key, ⟨hblank, -⟩ | ⟨p, hview, hport, query, hquery, -⟩⟩
    · exact .inl hblank
    · exact .inr ⟨p, hview, hport, query, hquery⟩
  · rintro (hblank | ⟨p, hview, hport, query, hquery⟩)
    · exact ⟨[], .inl ⟨hblank, rfl⟩⟩
    · exact ⟨_, .inr ⟨p, hview, hport, query, hquery, rfl⟩⟩

theorem shaped_of_view (h : view l isIPv6 url = some p) : Shaped l isIPv6 p :=
  parsed_shaped (view_eq_some.mp h).2

theorem normal_of_regular (hreadable : Readable l isIPv6 url) (hregular : RegularUrl l isIPv6 url) :
    Normal l isIPv6 url := by
  rcases hreadable with hblank | ⟨p, hview, hport, hkept⟩
  · exact ⟨[], canonicalUrl_blank hblank, canonicalUrl_blank rfl, .inl ⟨hblank, rfl⟩⟩
  · have hp := shaped_of_view hview
    have hregular := hregular p hview
    obtain ⟨query, hquery⟩ := exists_urlencode.mpr hkept
    obtain ⟨hviewed, hkey⟩ := key_of_regular hp hregular hquery rfl
    have hsame := (reread_keyParts hp hregular.plainHost hquery).sameParts
    refine ⟨_, canonicalUrl_eq_some.mpr (.inr ⟨p, hview, ?_⟩),
      canonicalUrl_eq_some.mpr (.inr ⟨_, hviewed, hkey⟩), .inr ⟨p, _, hview, hviewed, hsame⟩⟩
    exact keyOf_eq_some.mpr ⟨hport, query, hquery, rfl⟩

theorem dropWww_eq_of_sameHost {host other : Points} (h : SameHost host other)
    (hone : ¬ www ++ www <+: host) (hone' : ¬ www ++ www <+: other) :
    dropWww host = dropWww other := by
  rcases h with rfl | rfl | rfl
  · rfl
  · rw [← dropWww_dropWww hone, dropWww_www]
  · rw [← dropWww_dropWww hone', dropWww_www]

theorem sameHost_of_dropWww_eq {host other : Points} (h : dropWww host = dropWww other) :
    SameHost host other := by
  rcases dropWww_cases host with hhost | ⟨-, hhost⟩ <;>
    rcases dropWww_cases other with hother | ⟨-, hother⟩
  · exact .inl (hhost.trans (h ▸ hother.symm))
  · exact .inr (.inl (hhost.trans (by rw [h, hother])))
  · exact .inr (.inr (hother.trans (by rw [← h, hhost])))
  · exact .inl (hhost.symm.trans (h.trans hother))

theorem keyOf_congr (h : SameParts l p q) (hp : Regular l p) (hq : Regular l q)
    (hport : p.port.isSome) (hport' : q.port.isSome) : keyOf l p = keyOf l q := by
  have hnetloc : netlocOf l p = netlocOf l q := by
    rw [netlocOf, netlocOf, portSuffix_eq, portSuffix_eq, h.port,
      dropWww_eq_of_sameHost h.host hp.oneWww hq.oneWww]
  have hpath : pathOf p = pathOf q := by rw [pathOf_eq, pathOf_eq, h.path]
  refine Option.ext (fun key ↦ ?_)
  rw [keyOf_eq_some, keyOf_eq_some, sorted_eq_iff.mpr h.query, hnetloc, hpath, h.scheme, hport,
    hport']

theorem Reread.same {r : Parts} (h : Reread l p r) (h' : Reread l q r) : SameParts l p q where
  scheme := by rw [← h.scheme, h'.scheme]
  host := sameHost_of_dropWww_eq (h.host.symm.trans h'.host)
  port := h.stated.symm.trans h'.stated
  path := by rw [← pathOf_eq, ← pathOf_eq, ← h.path, h'.path]
  query := sorted_eq_iff.mp (h.query.symm.trans h'.query)

theorem key_ne_nil (hp : Shaped l isIPv6 p) (hkey : keyOf l p = some key) : key ≠ [] := by
  obtain ⟨-, query, -, rfl⟩ := keyOf_eq_some.mp hkey
  obtain ⟨lead, -, htext⟩ := key_text hp query
  rw [htext]
  simp

theorem keyOf_eq_iff (hp : Shaped l isIPv6 p) (hq : Shaped l isIPv6 q) (hregular : Regular l p)
    (hregular' : Regular l q) (hport : p.port.isSome) (hport' : q.port.isSome)
    (hkept : (kept l p).all isEncodable) (hkept' : (kept l q).all isEncodable) :
    SameParts l p q ↔ keyOf l p = keyOf l q := by
  refine ⟨fun h ↦ keyOf_congr h hregular hregular' hport hport', fun h ↦ ?_⟩
  obtain ⟨query, hquery⟩ := exists_urlencode.mpr hkept
  obtain ⟨query', hquery'⟩ := exists_urlencode.mpr hkept'
  have hkey := keyOf_eq_some.mpr ⟨hport, query, hquery, rfl⟩
  have hkey' := keyOf_eq_some.mpr ⟨hport', query', hquery', rfl⟩
  have hsame := Option.some_inj.mp (hkey'.symm.trans (h.symm.trans hkey))
  have hview := (key_of_regular hp hregular hquery rfl).1
  have hview' := (key_of_regular hq hregular' hquery' hsame).1
  have hparts : keyParts l p query = keyParts l q query' :=
    Option.some_inj.mp (hview.symm.trans hview')
  exact (reread_keyParts hp hregular.plainHost hquery).same
    (hparts ▸ reread_keyParts hq hregular'.plainHost hquery')

theorem same_iff_of_view {other : Points} (hp : view l isIPv6 url = some p)
    (hq : view l isIPv6 other = some q) : Same l isIPv6 url other ↔ SameParts l p q := by
  have hfilled := (view_eq_some.mp hp).1
  simp only [Same, hfilled, false_and, false_or, hp, hq, Option.some_inj]
  exact ⟨fun ⟨_, _, hp, hq, h⟩ ↦ hp ▸ hq ▸ h, fun h ↦ ⟨p, q, rfl, rfl, h⟩⟩

theorem same_blank_iff {other : Points} (hblank : strip url = []) :
    Same l isIPv6 url other ↔ strip other = [] := by
  have hview : view l isIPv6 url = none := if_pos hblank
  simp [Same, hblank, hview]

theorem Same.symm {other : Points} (h : Same l isIPv6 url other) : Same l isIPv6 other url := by
  rcases h with h | ⟨p, q, hp, hq, h⟩
  · exact .inl h.symm
  · refine .inr ⟨q, p, hq, hp, h.scheme.symm, ?_, h.port.symm, h.path.symm, h.query.symm⟩
    rcases h.host with h | h | h
    · exact .inl h.symm
    · exact .inr (.inr h)
    · exact .inr (.inl h)

theorem key_blank_iff {other : Points} (hblank : strip url = []) :
    Same l isIPv6 url other ↔ canonicalUrl l isIPv6 url = canonicalUrl l isIPv6 other := by
  rw [same_blank_iff hblank, canonicalUrl_blank hblank]
  refine ⟨fun h ↦ (canonicalUrl_blank h).symm, fun h ↦ ?_⟩
  rcases canonicalUrl_eq_some.mp h.symm with ⟨hother, -⟩ | ⟨p, hview, hkey⟩
  · exact hother
  · exact absurd rfl (key_ne_nil (shaped_of_view hview) hkey)

theorem key_eq_iff {other : Points} (hreadable : Readable l isIPv6 url)
    (hregular : RegularUrl l isIPv6 url) (hreadable' : Readable l isIPv6 other)
    (hregular' : RegularUrl l isIPv6 other) :
    Same l isIPv6 url other ↔ canonicalUrl l isIPv6 url = canonicalUrl l isIPv6 other := by
  rcases hreadable with hblank | ⟨p, hview, hport, hkept⟩
  · exact key_blank_iff hblank
  · rcases hreadable' with hblank | ⟨q, hview', hport', hkept'⟩
    · exact ⟨fun h ↦ ((key_blank_iff hblank).mp h.symm).symm,
        fun h ↦ ((key_blank_iff hblank).mpr h.symm).symm⟩
    · rw [same_iff_of_view hview hview', canonicalUrl_eq_bind (view_eq_some.mp hview).1,
        canonicalUrl_eq_bind (view_eq_some.mp hview').1, hview, hview', Option.bind_some,
        Option.bind_some]
      exact keyOf_eq_iff (shaped_of_view hview) (shaped_of_view hview') (hregular p hview)
        (hregular' q hview') hport hport' hkept hkept'

end Sound

section Exact

variable {l : Lowering} {isIPv6 : Points → Bool} {p q : Parts} {url key query netloc path : Points}

theorem length_rdropWhile_lt {x : Points} {c : ℕ} (hc : c ∈ x.getLast?) (hblank : isBlank c) :
    (x.rdropWhile isBlank).length < x.length := by
  refine lt_of_le_of_ne (List.rdropWhile_prefix _ _).length_le (fun hlen ↦ ?_)
  have hself := (List.rdropWhile_prefix isBlank x).eq_of_length hlen
  have hne : x ≠ [] := by
    rintro rfl
    cases hc
  rw [Option.mem_def, getLast?_eq_getLast_of_ne_nil hne, Option.some_inj] at hc
  exact rdropWhile_eq_self_iff.mp hself hne (hc ▸ hblank)

theorem length_hostOf_le (hp : Shaped l isIPv6 p) (hq : q.netloc <+: netlocOf l p) :
    (hostOf l q).length ≤ q.netloc.length := by
  have hfixed : ∀ c ∈ q.hostText, l.lower [c] = [c] := fun c hc ↦
    (hostChar_netlocOf hp (hq.subset (Parts.mem_netloc_of_hostText hc))).lower
  rw [hostOf, Parts.hostname_fixed hfixed, l.lower_fixed _ hfixed]
  exact q.hostText_length_le

theorem getLast?_dropWww {host : Points} {c : ℕ} (hc : c ∈ host.getLast?) (hblank : isBlank c) :
    c ∈ (dropWww host).getLast? := by
  rcases dropWww_cases host with hhost | ⟨-, hhost⟩
  · cases hrest : dropWww host with
    | nil =>
      rw [hhost, hrest] at hc
      obtain rfl := Option.some_inj.mp hc
      cases hblank
    | cons d rest =>
      rw [hhost, hrest, getLast?_append_of_ne_nil _ (cons_ne_nil _ _)] at hc
      exact hc
  · rwa [hhost]

theorem not_sameHost_of_lt {host other : Points} (h : other.length < (dropWww host).length) :
    ¬ SameHost host other := by
  have hle := (dropWww_suffix host).length_le
  rintro (rfl | rfl | rfl)
  · omega
  · rw [dropWww_www] at h
    omega
  · rw [length_append] at h
    omega

theorem filled_of_same (hp : Shaped l isIPv6 p)
    (hquery : urlencode (sorted (kept l p)) = some query) (hend : KeyEnd l p query q.netloc q.path)
    (hsame : SameParts l p q) (hkept : kept l p = []) :
    ∀ c ∈ (hostOf l p ++ portSuffix l p ++ pathOf p).getLast?, isBlank c = false := by
  intro c hc
  rw [← Bool.not_eq_true]
  intro hblank
  have hempty : query = [] := by
    rw [hkept] at hquery
    exact (Option.some_inj.mp hquery).symm
  by_cases hbare : pathOf p = []
  · rw [hbare, append_nil] at hc
    obtain ⟨hsuffix, -⟩ | ⟨n, -, hsuffix, -⟩ := portSuffix_cases l p
    · rw [hsuffix, append_nil] at hc
      have hnetloc : q.netloc = (dropWww (hostOf l p)).rdropWhile isBlank := by
        rw [hend.bare hempty hbare, netlocOf, hsuffix, append_nil]
      have hlt := length_rdropWhile_lt (getLast?_dropWww hc hblank) hblank
      have hle := length_hostOf_le hp hend.netloc_prefix
      exact not_sameHost_of_lt (by rw [hnetloc] at hle; omega) hsame.host
    · rw [hsuffix, getLast?_append_of_ne_nil _ (cons_ne_nil _ _),
        getLast?_cons_of_ne_nil (decimal_ne_nil n)] at hc
      have hdigit := isDigit_iff.mp (isDigit_decimal n c (mem_of_getLast? hc))
      have := isBlank_bounds hblank
      omega
  · rw [getLast?_append_of_ne_nil _ hbare] at hc
    have hlt := length_rdropWhile_lt hc hblank
    have hpath : pathOf p = q.path.rdropWhile (· = 47) := (pathOf_eq p).trans hsame.path
    have hle := (List.rdropWhile_prefix (· = 47) q.path).length_le
    rw [← hpath, hend.path hempty] at hle
    omega

theorem mem_dropWww {host : Points} {c : ℕ} (hc : c ∈ host) (hwww : c ∉ www) : c ∈ dropWww host := by
  rcases dropWww_cases host with hhost | ⟨-, hhost⟩
  · rw [hhost] at hc
    exact (mem_append.mp hc).resolve_left hwww
  · rwa [hhost]

theorem mem_netlocOf_of_hostOf {c : ℕ} (hc : c ∈ hostOf l p) (hwww : c ∉ www) :
    c ∈ netlocOf l p :=
  mem_append_left _ (mem_dropWww hc hwww)

theorem bracket_not_mem_of_accepts (haccepts : acceptsNetloc isIPv6 (netlocOf l p)) :
    91 ∉ hostOf l p ∧ 93 ∉ hostOf l p := by
  rw [acceptsNetloc, Bool.and_eq_true, Bool.and_eq_true, decide_eq_true_eq] at haccepts
  have hiff : 91 ∈ hostOf l p ↔ 93 ∈ hostOf l p :=
    ⟨fun h ↦ mem_hostOf_of_netlocOf (by decide)
      (haccepts.1.1.mp (mem_netlocOf_of_hostOf h (by decide))),
    fun h ↦ mem_hostOf_of_netlocOf (by decide)
      (haccepts.1.1.mpr (mem_netlocOf_of_hostOf h (by decide)))⟩
  have hnever : ¬ (91 ∈ hostOf l p ∧ 93 ∈ hostOf l p) := fun h ↦
    p.bracket_not_mem_hostText.elim (· (Parts.mem_hostText_of_lower rfl h.1))
      (· (Parts.mem_hostText_of_lower rfl h.2))
  exact ⟨fun h ↦ hnever ⟨h, hiff.mp h⟩, fun h ↦ hnever ⟨hiff.mpr h, h⟩⟩

theorem colon_not_mem_of_same (hnetloc : 91 ∉ q.netloc)
    (hsame : SameHost (hostOf l p) (hostOf l q)) : 58 ∉ hostOf l p := by
  have hopen : 91 ∉ q.hostinfo := fun h ↦ hnetloc ((pastLast_suffix _ _).subset h)
  have hcolon : 58 ∉ hostOf l q := by
    intro h
    have htext : 58 ∈ q.hostText := Parts.mem_hostText_of_lower rfl h
    rw [Parts.hostText, if_neg hopen] at htext
    exact not_mem_upTo 58 _ htext
  intro h
  rcases hsame with heq | heq | heq
  · exact hcolon (heq ▸ h)
  · rw [heq] at h
    exact hcolon ((mem_append.mp h).resolve_left (by decide))
  · rw [heq] at hcolon
    exact hcolon (mem_append_right _ h)

theorem oneWww_of_fixed (hp : Shaped l isIPv6 p)
    (hplain : 58 ∉ hostOf l p ∧ 91 ∉ hostOf l p ∧ 93 ∉ hostOf l p)
    (hquery : urlencode (sorted (kept l p)) = some query)
    (hkey : keyOf l (keyParts l p query) =
      some (urlunsplit ⟨l.lower p.scheme, netlocOf l p, pathOf p, query, []⟩)) :
    ¬ www ++ www <+: hostOf l p := by
  rintro ⟨rest, hrest⟩
  have hreread := reread_keyParts hp hplain hquery
  obtain ⟨-, query', hquery', htext⟩ := keyOf_eq_some.mp hkey
  rw [hreread.query, sorted_sorted, hquery] at hquery'
  obtain rfl := Option.some_inj.mp hquery'
  have hhost : dropWww (hostOf l p) = www ++ rest := by
    rw [← hrest, append_assoc, dropWww_www]
  have hlt : (netlocOf l (keyParts l p query)).length < (netlocOf l p).length := by
    rw [netlocOf, netlocOf, hreread.host, hreread.suffix, hhost, dropWww_www, length_append,
      length_append, length_append]
    have : www.length = 4 := rfl
    omega
  have hlength := congrArg List.length htext
  rw [hreread.scheme, hreread.path, hp.scheme.lower, urlunsplit_eq hp.scheme.ne_nil,
    urlunsplit_eq hp.scheme.ne_nil] at hlength
  have hhier : (hier p.scheme (netlocOf l (keyParts l p query)) (pathOf p)).length <
      (hier p.scheme (netlocOf l p) (pathOf p)).length := length_hier_lt hlt
  simp only [length_append, length_cons] at hlength
  omega

theorem regular_of_normal (h : Normal l isIPv6 url) :
    Readable l isIPv6 url ∧ RegularUrl l isIPv6 url := by
  obtain ⟨key, hkey, hfixed, hsame⟩ := h
  refine ⟨canonicalUrl_isSome_iff.mp (by rw [hkey]; rfl), fun p hview ↦ ?_⟩
  have hp := shaped_of_view hview
  rw [canonicalUrl_eq_bind (view_eq_some.mp hview).1, hview, Option.bind_some] at hkey
  have hfilled := key_ne_nil hp hkey
  obtain ⟨-, query, hquery, rfl⟩ := keyOf_eq_some.mp hkey
  obtain ⟨q, hviewed, hfixed⟩ :=
    (canonicalUrl_eq_some.mp hfixed).resolve_left (fun h ↦ hfilled h.2)
  rw [same_iff_of_view hview hviewed] at hsame
  obtain ⟨netloc, path, hend, hread⟩ := view_key hp hquery
  rw [hviewed] at hread
  obtain ⟨haccepts, hq⟩ := Option.ite_none_right_eq_some.mp hread.symm
  obtain rfl := Option.some_inj.mp hq
  have hend' := fun h ↦ filled_of_same hp hquery hend hsame h
  obtain ⟨rfl, rfl⟩ := hend.whole_of_filled hquery hend'
  have hbracket := bracket_not_mem_of_accepts haccepts
  have hplain := plain_netlocOf hp hbracket.1 hbracket.2
  have hcolon := colon_not_mem_of_same hplain.2.1 hsame.host
  exact ⟨⟨hcolon, hbracket⟩, oneWww_of_fixed hp ⟨hcolon, hbracket⟩ hquery hfixed, hend'⟩

end Exact

section Articles

variable {J : Type*} {l : Lowering} {isIPv6 : Points → Bool}

theorem readable_strip {url : Points} :
    Readable l isIPv6 (strip url) ↔ Readable l isIPv6 url := by
  rw [Readable, Readable, view, view, strip_strip]

theorem articlesOf_isSome_iff (parseCompactUtc : Points → Option ℤ) (queryText : Points)
    (queryId : Option ℤ) (fetchedAt : ℤ) (items : List (Option (Item J))) :
    (articlesOf l isIPv6 parseCompactUtc queryText queryId fetchedAt items).isSome ↔
      ∀ item, some item ∈ items → strip item.url ≠ [] → strip item.title ≠ [] →
        Readable l isIPv6 item.url := by
  induction items with
  | nil => simp [articlesOf]
  | cons entry rest ih =>
    cases entry with
    | none =>
      rw [articlesOf, ih]
      simp
    | some item =>
      have hsplit : (∀ other, some other ∈ some item :: rest → strip other.url ≠ [] →
          strip other.title ≠ [] → Readable l isIPv6 other.url) ↔
          (strip item.url ≠ [] → strip item.title ≠ [] → Readable l isIPv6 item.url) ∧
            ∀ other, some other ∈ rest → strip other.url ≠ [] → strip other.title ≠ [] →
              Readable l isIPv6 other.url := by
        simp [or_imp, forall_and]
      rw [articlesOf, hsplit]
      split_ifs with hdropped
      · rw [ih]
        refine ⟨fun h ↦ ⟨fun hurl htitle ↦ ?_, h⟩, And.right⟩
        exact (hdropped.elim hurl htitle).elim
      · obtain ⟨hurl, htitle⟩ := not_or.mp hdropped
        rw [Option.isSome_bind, Option.any_eq_true]
        simp only [Option.isSome_map, ih]
        rw [← readable_strip, ← canonicalUrl_isSome_iff, Option.isSome_iff_exists]
        constructor
        · rintro ⟨key, hkey, hrest⟩
          exact ⟨fun _ _ ↦ ⟨key, hkey⟩, hrest⟩
        · rintro ⟨hitem, hrest⟩
          obtain ⟨key, hkey⟩ := hitem hurl htitle
          exact ⟨key, hkey, hrest⟩

end Articles

/-- The key is a normal form of regular URLs and of no others, and the collector's parser raises on
no readable URL and on every other. -/
theorem canonicalUrl_normalForm {J : Type*} (l : Lowering) (isIPv6 : Points → Bool)
    (parseCompactUtc : Points → Option ℤ) (queryText : Points) (queryId : Option ℤ)
    (fetchedAt : ℤ) :
    (∀ url other, Normal l isIPv6 url ∧ Normal l isIPv6 other ∧
          (Same l isIPv6 url other ↔ canonicalUrl l isIPv6 url = canonicalUrl l isIPv6 other) ↔
        (Readable l isIPv6 url ∧ RegularUrl l isIPv6 url) ∧
          Readable l isIPv6 other ∧ RegularUrl l isIPv6 other) ∧
      ∀ document : Option (List (Option (Item J))),
        (parseArticles l isIPv6 parseCompactUtc queryText queryId fetchedAt document).isSome ↔
          ∀ items, document = some items → ∀ item, some item ∈ items → strip item.url ≠ [] →
            strip item.title ≠ [] → Readable l isIPv6 item.url := by
  refine ⟨fun url other ↦ ⟨fun ⟨h, h', _⟩ ↦ ⟨regular_of_normal h, regular_of_normal h'⟩, ?_⟩, ?_⟩
  · rintro ⟨⟨hreadable, hregular⟩, hreadable', hregular'⟩
    exact ⟨normal_of_regular hreadable hregular, normal_of_regular hreadable' hregular',
      key_eq_iff hreadable hregular hreadable' hregular'⟩
  · rintro (_ | items)
    · simp [parseArticles]
    · rw [parseArticles, articlesOf_isSome_iff]
      simp

def farPort : Item Unit where
  url := points "http://h:99999/"
  title := points "t"
  seendate := []
  language := []
  domain := []
  sourcecountry := []
  urlMobile := []
  tone := none

theorem farPort_raises : canonicalUrl .ascii (fun _ ↦ false) farPort.url = none ∧
    (parseArticles .ascii (fun _ ↦ false) (fun _ ↦ none) [] none 0
      (some [some farPort])).isNone := by
  decide +kernel

end TalaPala.Dedupe
