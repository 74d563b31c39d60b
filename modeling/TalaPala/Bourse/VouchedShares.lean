import TalaPala.Bourse.FlowOrder
import TalaPala.Bourse.MarketCalendar

namespace TalaPala.Bourse

open Library List

structure FileSession where
  code : String
  idx : ℕ
  value : ℚ

def FlowTier.traded (t : FlowTier) : Bool := t ≠ .noTrade

namespace CoverageAcc

def ofSessions (carried : FileSession → Bool) (shown : List FileSession) : CoverageAcc where
  dayFile := shown.length
  withFlow := (shown.filter carried).length
  dayValue := (shown.map FileSession.value).sum
  withFlowValue := ((shown.filter carried).map FileSession.value).sum

variable {carried : FileSession → Bool}

theorem ofSessions_append (l l' : List FileSession) :
    ofSessions carried (l ++ l') = (ofSessions carried l).merge (ofSessions carried l') := by
  simp [ofSessions, merge]

theorem merge_assoc (a b c : CoverageAcc) : (a.merge b).merge c = a.merge (b.merge c) := by
  simp only [merge, add_assoc]

theorem merge_comm (a b : CoverageAcc) : a.merge b = b.merge a := by
  rw [merge, merge]
  ext <;> exact add_comm _ _

theorem empty_merge (a : CoverageAcc) : empty.merge a = a := by
  simp only [merge, empty, zero_add]

instance : Add CoverageAcc := ⟨merge⟩

instance : Zero CoverageAcc := ⟨empty⟩

instance : AddCommMonoid CoverageAcc where
  add_assoc := merge_assoc
  zero_add := empty_merge
  add_zero a := (merge_comm a empty).trans (empty_merge a)
  add_comm := merge_comm
  nsmul := nsmulRec

theorem ofSessions_flatMap {ι : Type*} (f : ι → List FileSession) (l : List ι) :
    (l.map (fun i ↦ ofSessions carried (f i))).sum = ofSessions carried (l.flatMap f) := by
  induction l with
  | nil => rfl
  | cons i rest ih =>
    rw [map_cons, sum_cons, ih, flatMap_cons, ofSessions_append]
    rfl

theorem add_eq (c : CoverageAcc) (s : FileSession) :
    c.add s.value (carried s) = c + ofSessions carried [s] := by
  have hmerge : c.add s.value (carried s) = c.merge (ofSessions carried [s]) := by
    cases h : carried s <;> simp [add, merge, ofSessions, h]
  exact hmerge

theorem meets_ofSessions (shown : List FileSession) : (ofSessions carried shown).meets = true ↔
    minFlowCoverage * shown.length ≤ (shown.filter carried).length ∧
      (0 < (shown.map FileSession.value).sum →
        minFlowCoverage * (shown.map FileSession.value).sum ≤
          ((shown.filter carried).map FileSession.value).sum) := by
  rw [meets, decide_eq_true_iff]
  simp only [ofSessions]
  constructor
  · rintro (hnone | ⟨hcount, hvalue⟩)
    · rw [length_eq_zero_iff.mp hnone]
      exact ⟨by norm_num, fun h ↦ absurd h (lt_irrefl 0)⟩
    · exact ⟨hcount, fun hpos ↦ hvalue.resolve_left (not_le.mpr hpos)⟩
  · rintro ⟨hcount, hvalue⟩
    exact .inr ⟨hcount, (le_or_gt _ 0).imp_right hvalue⟩

end CoverageAcc

namespace TieredFlowSummary

variable (s : TieredFlowSummary) (g : GroupShare) (hasPrevious : Bool)

def supported (g : GroupShare) : Bool := g.cov.meets ∧ g.enclosing.all CoverageAcc.meets

theorem setCoveredValueShare_supported (h : supported g) :
    (s.setCoveredValueShare g hasPrevious).valueSharePct = valueShare g.cur g.whole := by
  obtain ⟨hcov, henclosing⟩ := of_decide_eq_true h
  have hfilter : g.enclosing.filter (fun c ↦ !c.meets) = none := by
    refine Option.filter_eq_none_iff.mpr (fun c hc ↦ ?_)
    rw [hc] at henclosing
    simpa using henclosing
  unfold setCoveredValueShare
  simp only [hcov, hfilter, not_true_eq_false, if_false]
  split
  · rw [valueSharePct_setValueShare]
  · split
    · rw [valueSharePct_setValueShare]
    · split <;> rw [valueSharePct_setValueShare]

theorem setCoveredValueShare_unsupported (h : ¬supported g) :
    (s.setCoveredValueShare g hasPrevious).valueSharePct = s.valueSharePct ∧
      (s.setCoveredValueShare g hasPrevious).valueShareReason.isSome := by
  unfold setCoveredValueShare
  cases hcov : g.cov.meets with
  | false => exact ⟨rfl, rfl⟩
  | true =>
    simp only [not_true_eq_false, if_false]
    cases henclosing : g.enclosing.filter (fun c ↦ !c.meets) with
    | some c => exact ⟨rfl, rfl⟩
    | none =>
      refine absurd (decide_eq_true ⟨hcov, ?_⟩) h
      cases hg : g.enclosing with
      | none => rfl
      | some c =>
        have hc := Option.filter_eq_none_iff.mp henclosing c hg
        simpa using hc

end TieredFlowSummary

namespace SectorFlowInput

variable (inp : SectorFlowInput)

section Sessions

def shownAt (code : String) (n i : ℕ) : List FileSession :=
  if i < n then ((inp.dayFileOf code i).map (fun v ↦ ⟨code, i, v⟩)).toList else []

def fileSessionsOf (code : String) (n : ℕ) : List FileSession :=
  (List.range inp.calendar.sessions.length).flatMap (inp.shownAt code n)

def fileSessions (codes : List String) (n : ℕ) : List FileSession :=
  codes.flatMap (fun code ↦ inp.fileSessionsOf code n)

def carries (kind : FlowTier → Bool) (s : FileSession) : Bool :=
  (inp.byShare s.code).any (fun r ↦ kind r.tier ∧ r.idx = s.idx)

def Covered (kind : FlowTier → Bool) (codes : List String) (n : ℕ) : Prop :=
  let shown := inp.fileSessions codes n
  let held := shown.filter (inp.carries kind)
  minFlowCoverage * shown.length ≤ held.length ∧
    (0 < (shown.map FileSession.value).sum →
      minFlowCoverage * (shown.map FileSession.value).sum ≤ (held.map FileSession.value).sum)

instance (kind : FlowTier → Bool) (codes : List String) (n : ℕ) :
    Decidable (inp.Covered kind codes n) := by
  unfold Covered
  infer_instance

def Summed (codes : List String) (n : ℕ) : Prop :=
  ∃ code ∈ codes, ∃ r ∈ inp.byShare code, r.idx < n ∧ r.tier.accepted

def Unexcluded (codes : List String) (n : ℕ) : Prop :=
  ∀ code ∈ codes, ∀ r ∈ inp.byShare code, r.idx < n → r.tier ≠ .excluded

theorem mem_fileSessions {codes : List String} {n : ℕ} {s : FileSession}
    (h : s ∈ inp.fileSessions codes n) : s.code ∈ codes ∧ s.idx < n := by
  obtain ⟨code, hcode, hs⟩ := mem_flatMap.mp h
  obtain ⟨i, -, hi⟩ := mem_flatMap.mp hs
  rw [shownAt] at hi
  split at hi
  · rename_i hlt
    obtain ⟨v, -, rfl⟩ := Option.map_eq_some_iff.mp (Option.mem_toList.mp hi)
    exact ⟨hcode, hlt⟩
  · cases hi

theorem coverageIn_step (code : String) (n : ℕ) (c : CoverageAcc × CoverageAcc) (i : ℕ) :
    (match inp.dayFileOf code i with
      | none => c
      | some v =>
        if i < n then (c.1.add v (inp.flowed code i), c.2)
        else if i < 2 * n then (c.1, c.2.add v (inp.flowed code i))
        else c).1 =
    c.1 + .ofSessions (inp.carries FlowTier.traded) (inp.shownAt code n i) := by
  have hflowed : ∀ v, inp.flowed code i = inp.carries FlowTier.traded ⟨code, i, v⟩ := by
    intro v
    simp [flowed, carries, FlowTier.traded]
  have hnone : c.1 = c.1 + .ofSessions (inp.carries FlowTier.traded) [] := (add_zero _).symm
  rw [shownAt]
  cases inp.dayFileOf code i with
  | none =>
    rw [Option.map_none, Option.toList_none, ite_self]
    exact hnone
  | some v =>
    by_cases hi : i < n
    · simp only [if_pos hi]
      rw [hflowed v]
      exact c.1.add_eq ⟨code, i, v⟩
    · simp only [if_neg hi]
      split <;> exact hnone

theorem coverageIn_eq (code : String) (n : ℕ) : (inp.coverageIn code n).1 =
    .ofSessions (inp.carries FlowTier.traded) (inp.fileSessionsOf code n) := by
  refine (foldl_post Prod.fst (inp.coverageIn_step code n) _ _).trans ?_
  rw [CoverageAcc.ofSessions_flatMap]
  exact zero_add _

theorem coverageOver_eq (codes : List String) (n : ℕ) : (inp.coverageOver codes n).1 =
    .ofSessions (inp.carries FlowTier.traded) (inp.fileSessions codes n) := by
  have hstep : ∀ (c : CoverageAcc × CoverageAcc) (code : String),
      c.1.merge (inp.coverageIn code n).1 =
        c.1 + .ofSessions (inp.carries FlowTier.traded) (inp.fileSessionsOf code n) := by
    intro c code
    rw [coverageIn_eq]
    rfl
  refine (foldl_post Prod.fst hstep _ _).trans ?_
  rw [CoverageAcc.ofSessions_flatMap]
  exact zero_add _

theorem meets_coverageOver (codes : List String) (n : ℕ) :
    (inp.coverageOver codes n).1.meets = true ↔ inp.Covered FlowTier.traded codes n := by
  rw [coverageOver_eq, CoverageAcc.meets_ofSessions]
  rfl

theorem meets_coverageIn (code : String) (n : ℕ) :
    (inp.coverageIn code n).1.meets = true ↔ inp.Covered FlowTier.traded [code] n := by
  rw [coverageIn_eq, CoverageAcc.meets_ofSessions, Covered, fileSessions, flatMap_singleton]

def turnedDown (s : FileSession) : Bool :=
  inp.carries FlowTier.traded s && !inp.carries FlowTier.accepted s

theorem carried_split (l : List FileSession) (f : FileSession → ℚ) :
    ((l.filter (inp.carries FlowTier.traded)).map f).sum =
      ((l.filter (inp.carries FlowTier.accepted)).map f).sum +
        ((l.filter inp.turnedDown).map f).sum := by
  have hone : ∀ s, inp.carries FlowTier.accepted s → inp.carries FlowTier.traded s := by
    intro s h
    obtain ⟨r, hr, hkind⟩ := any_eq_true.mp h
    obtain ⟨haccepted, hidx⟩ := of_decide_eq_true hkind
    refine any_eq_true.mpr ⟨r, hr, decide_eq_true ⟨?_, hidx⟩⟩
    revert haccepted
    cases r.tier <;> decide
  rw [sum_filter, sum_filter, sum_filter, ← sum_map_add]
  refine congrArg List.sum (map_congr_left (fun s _ ↦ ?_))
  rw [turnedDown]
  cases haccepted : inp.carries FlowTier.accepted s with
  | true => simp [hone s haccepted]
  | false => simp

theorem covered_accepted {codes : List String} {n : ℕ} (hrows : inp.Unexcluded codes n)
    (h : inp.Covered FlowTier.traded codes n) : inp.Covered FlowTier.accepted codes n := by
  have hsame : (inp.fileSessions codes n).filter (inp.carries FlowTier.traded) =
      (inp.fileSessions codes n).filter (inp.carries FlowTier.accepted) := by
    refine filter_congr (fun s hs ↦ ?_)
    obtain ⟨hcode, hidx⟩ := inp.mem_fileSessions hs
    rw [carries, carries, Bool.eq_iff_iff, any_eq_true, any_eq_true]
    refine exists_congr (fun r ↦ and_congr_right (fun hr ↦ ?_))
    have hkind : r.idx = s.idx → r.tier.traded = r.tier.accepted := by
      intro he
      have hne := hrows s.code hcode r hr (he ▸ hidx)
      revert hne
      cases r.tier <;> decide
    by_cases he : r.idx = s.idx
    · simp [he, hkind he]
    · simp [he]
  simpa only [Covered, hsame] using h

end Sessions

section Sums

theorem mem_byShare_entries {code : String} {r : TieredRow} :
    r ∈ inp.byShare code ↔ ∃ p ∈ inp.entries, p.code = code ∧ p.row = r := by
  rw [mem_byShare]
  simp only [entries, posting, mem_filterMap, Option.map_eq_some_iff]
  constructor
  · rintro ⟨row, hrow, rfl, hplace⟩
    exact ⟨_, ⟨row, hrow, r, hplace, rfl⟩, rfl, rfl⟩
  · rintro ⟨-, ⟨row, hrow, t, hplace, rfl⟩, rfl, rfl⟩
    exact ⟨row, hrow, rfl, hplace⟩

theorem consistent_shareAcc {code : String} {n : ℕ} (hn : (inp.window n).available) :
    (inp.shareAcc code n).consistent ≠ 0 ↔
      ∃ r ∈ inp.byShare code, r.idx < n ∧ r.tier.accepted := by
  have htier : ∀ t, (inp.shareAcc code n).inTier t ≠ 0 ↔
      ∃ r ∈ inp.byShare code, r.idx < n ∧ r.tier = t := by
    intro t
    rw [shareAcc_eq, inTier_total, countP_filter, Ne, countP_eq_zero]
    push Not
    constructor
    · rintro ⟨p, hp, hall⟩
      simp only [inWindow, hn, true_and, Bool.and_eq_true, decide_eq_true_eq] at hall
      exact ⟨p.row, inp.mem_byShare_entries.mpr ⟨p, hp, hall.2.1, rfl⟩, hall.2.2, hall.1⟩
    · rintro ⟨r, hr, hidx, ht⟩
      obtain ⟨p, hp, hcode, rfl⟩ := inp.mem_byShare_entries.mp hr
      refine ⟨p, hp, ?_⟩
      simp only [inWindow, hn, true_and, Bool.and_eq_true, decide_eq_true_eq]
      exact ⟨ht, hcode, hidx⟩
  have hsplit : (inp.shareAcc code n).consistent ≠ 0 ↔
      (inp.shareAcc code n).inTier .barChecked ≠ 0 ∨
        (inp.shareAcc code n).inTier .identityOnly ≠ 0 := by
    rw [FlowAcc.consistent]
    simp only [FlowAcc.inTier]
    omega
  rw [hsplit, htier, htier]
  constructor
  · rintro (⟨r, hr, hidx, ht⟩ | ⟨r, hr, hidx, ht⟩)
    · exact ⟨r, hr, hidx, by rw [ht]; rfl⟩
    · exact ⟨r, hr, hidx, by rw [ht]; rfl⟩
  · rintro ⟨r, hr, hidx, haccepted⟩
    rcases of_decide_eq_true haccepted with ht | ht
    · exact .inl ⟨r, hr, hidx, ht⟩
    · exact .inr ⟨r, hr, hidx, ht⟩

theorem consistent_sum {codes : List String} {n : ℕ} (hn : (inp.window n).available) :
    (codes.map (fun code ↦ inp.shareAcc code n)).sum.consistent ≠ 0 ↔ inp.Summed codes n := by
  rw [read_sum FlowAcc.consistent rfl FlowAcc.consistent_add, map_map, Ne, sum_eq_zero_iff]
  constructor
  · intro h
    by_contra hnone
    refine h (fun x hx ↦ ?_)
    obtain ⟨code, hcode, rfl⟩ := mem_map.mp hx
    by_contra hx
    exact hnone ⟨code, hcode, (inp.consistent_shareAcc hn).mp hx⟩
  · rintro ⟨code, hcode, hrow⟩ hzero
    exact (inp.consistent_shareAcc hn).mpr hrow (hzero _ (mem_map.mpr ⟨code, hcode, rfl⟩))

theorem value_sum_pos {codes : List String} {n : ℕ} (hn : (inp.window n).available) :
    0 < (codes.map (fun code ↦ inp.shareAcc code n)).sum.value ↔ inp.Summed codes n := by
  rw [← inp.consistent_sum hn]
  have hsound := inp.sum_sound codes n
  constructor
  · intro hpos hzero
    exact hpos.ne' (hsound.idle hzero).2.1
  · exact hsound.traded

end Sums

section Vouched

/-- What a group's part of the traded value over window `n` rests on: some row of the
whole was summed, and flow is stored for enough of each group it depends on. -/
structure Vouched (n : ℕ) (groups : List (List String)) (whole : Prop)
    (s : TieredFlowSummary) : Prop where
  stated : s.valueSharePct.isSome ↔
    whole ∧ ∀ codes ∈ groups, inp.Covered FlowTier.traded codes n
  withheld : whole → s.valueSharePct = none → s.valueShareReason.isSome
  accepted : s.valueSharePct.isSome → ∀ codes ∈ groups, inp.Unexcluded codes n →
    inp.Covered FlowTier.accepted codes n

theorem vouched_of {n : ℕ} {groups : List (List String)} {whole : Prop} {s : TieredFlowSummary}
    {g : GroupShare} (hasPrevious : Bool) (hs : s.valueSharePct = none)
    (hwhole : 0 < g.whole ↔ whole)
    (hg : TieredFlowSummary.supported g = true ↔
      ∀ codes ∈ groups, inp.Covered FlowTier.traded codes n) :
    inp.Vouched n groups whole (s.setCoveredValueShare g hasPrevious) := by
  have hstated : (s.setCoveredValueShare g hasPrevious).valueSharePct.isSome ↔
      whole ∧ ∀ codes ∈ groups, inp.Covered FlowTier.traded codes n := by
    rw [← hwhole, ← hg]
    by_cases hsupported : TieredFlowSummary.supported g
    · rw [s.setCoveredValueShare_supported g hasPrevious hsupported, valueShare]
      split
      · rename_i hle
        simp [not_lt.mpr hle]
      · rename_i hpos
        simp [not_le.mp hpos, hsupported]
    · rw [(s.setCoveredValueShare_unsupported g hasPrevious hsupported).1, hs]
      simp [hsupported]
  refine ⟨hstated, fun hw hnone ↦ ?_, fun hsome codes hcodes hrows ↦ ?_⟩
  · have hsupported : ¬TieredFlowSummary.supported g := by
      intro hsupported
      have hsome := hstated.mpr ⟨hw, hg.mp hsupported⟩
      rw [hnone] at hsome
      cases hsome
    exact (s.setCoveredValueShare_unsupported g hasPrevious hsupported).2
  · exact inp.covered_accepted hrows ((hstated.mp hsome).2 codes hcodes)

theorem available_of_mem_spans {n : ℕ} {w : Span} (h : (n, w) ∈ inp.spans) :
    (inp.window n).available := by
  obtain ⟨k, -, hk⟩ := mem_filterMap.mp h
  obtain ⟨w', hw, he⟩ := Option.map_eq_some_iff.mp hk
  obtain ⟨rfl, -⟩ := Prod.mk.inj he
  rw [SessionWindow.available, hw]
  rfl

theorem vouched_shareItem {code sec : String} {n : ℕ} (hn : (inp.window n).available) (w : Span)
    (hsec : (inp.metaOf code).sectorCode = sec) :
    inp.Vouched n [[code], inp.sectorMembers sec] (inp.Summed (inp.sectorMembers sec) n)
      (inp.shareItem code n w).summary := by
  subst hsec
  refine inp.vouched_of false (inp.valueSharePct_tally _ _ [code] n) ?_ ?_
  · rw [← inp.value_sum_pos hn, ← sectorAcc_eq_sum]
  · rw [TieredFlowSummary.supported, decide_eq_true_iff, Option.all_some, meets_coverageIn,
      sectorCov, meets_coverageOver]
    simp

theorem vouched_sectorSummary {sec : String} {n : ℕ} (hn : (inp.window n).available) :
    inp.Vouched n [inp.sectorMembers sec] (inp.Summed (inp.sectorMembers sec) n)
      (inp.sectorSummary sec n) := by
  have hsum : 0 < (inp.sectorAcc sec n).consistent ↔ inp.Summed (inp.sectorMembers sec) n := by
    rw [← inp.consistent_sum hn, ← sectorAcc_eq_sum, Nat.pos_iff_ne_zero]
  have hnone := inp.valueSharePct_tally (inp.sectorAcc sec n) (inp.window n)
    (inp.sectorMembers sec) n
  by_cases hc : 0 < (inp.sectorAcc sec n).consistent
  · -- a sector with something summed is in a market with something summed
    have hmarket : 0 < (inp.marketAcc n).value ↔ inp.Summed (inp.sectorMembers sec) n := by
      refine ⟨fun _ ↦ hsum.mp hc, fun ⟨code, hcode, hrow⟩ ↦ ?_⟩
      rw [marketAcc_eq_sum_shares, inp.value_sum_pos hn]
      exact ⟨code, mem_of_mem_filter hcode, hrow⟩
    rw [sectorSummary, if_pos hc]
    refine inp.vouched_of _ hnone hmarket ?_
    rw [TieredFlowSummary.supported, decide_eq_true_iff, Option.all_none, sectorCov,
      meets_coverageOver]
    simp
  · have hidle : ¬inp.Summed (inp.sectorMembers sec) n := fun h ↦ hc (hsum.mpr h)
    have hpct : (inp.sectorSummary sec n).valueSharePct = none := by
      rw [valueSharePct_sectorSummary, if_neg (fun h ↦ hc h.1)]
    refine ⟨?_, fun h ↦ absurd h hidle, fun h ↦ ?_⟩
    · rw [hpct]
      simp [hidle]
    · rw [hpct] at h
      cases h

theorem vouched_companyItem {key shown : String} {n : ℕ} (hn : (inp.window n).available)
    (w : Span) (hacc : (inp.companyAcc key n).consistent ≠ 0) :
    inp.Vouched n [inp.companyMembers key] True (inp.companyItem key shown n w).summary := by
  refine inp.vouched_of false (inp.valueSharePct_tally _ _ (inp.companyMembers key) n) ?_ ?_
  · obtain ⟨code, hcode, hrow⟩ : inp.Summed (inp.companyMembers key) n := by
      rw [← inp.consistent_sum hn, ← companyAcc_eq_sum]
      exact hacc
    refine iff_true_intro ?_
    have hmarket : 0 < (inp.marketAcc n).value := by
      rw [marketAcc_eq_sum_shares, inp.value_sum_pos hn]
      exact ⟨code, mem_of_mem_filter hcode, hrow⟩
    exact hmarket
  · rw [TieredFlowSummary.supported, decide_eq_true_iff, Option.all_none, meets_coverageOver]
    simp

end Vouched

end SectorFlowInput

theorem mem_topOf {companies : List CompanyFlowItem} {k : ℕ} {c : CompanyFlowItem}
    (h : c ∈ (topOf companies k).inflow ++ (topOf companies k).outflow) : c ∈ companies := by
  rcases mem_append.mp h with h | h
  · exact mem_of_mem_filter ((mem_insertionSort _).mp (mem_of_mem_take h))
  · exact mem_of_mem_filter ((mem_insertionSort _).mp (mem_of_mem_take h))

def lopsided (value : ℚ) : FlowSession := { traded value with sellNVolume := 2 * value }

/-- One session: `a` traded 10, `b` is stored at 90 and turned down, and `c` did not trade. -/
def turnedDownSession : SectorFlowInput where
  calendar := buildMarketCalendar [⟨0, 200, 200, true, 200, 190, 1000, 950⟩] 120
  rows := [⟨"a", traded 10, none⟩, ⟨"b", lopsided 90, none⟩, ⟨"c", traded 0, none⟩]
  prices := []
  dayFiles := [⟨"a", 0, 10⟩, ⟨"b", 0, 90⟩]
  shares := [member "a" "s", member "b" "s", member "c" "t"]
  sectors := []
  sectorIndex := fun _ ↦ ""
  indexSeries := fun _ ↦ none

theorem mem_sectors_turnedDownSession {sec : String} (h : sec ∈ turnedDownSession.secCodes) :
    turnedDownSession.sectorItem sec ∈ (buildSectorFlows turnedDownSession).resp.sectors := by
  rw [buildSectorFlows, if_neg (by decide +kernel)]
  exact mem_map.mpr ⟨sec, h, rfl⟩

end TalaPala.Bourse
