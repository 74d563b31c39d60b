import TalaPala.Bourse.FlowTotals
import Mathlib.Algebra.Order.BigOperators.Group.List

namespace TalaPala.Bourse

open Library List

inductive Figure
  | rows
  | excluded
  | noTrade
  | consistent
  | barChecked
  | identityOnly
  | netIndividual
  | netInstitutional
  | totalValue
  | listingSessions
  | inflowSessions
  | outflowSessions
  | instrumentsTraded
  | inflowInstruments
  | outflowInstruments

def TieredFlowSummary.figure (s : TieredFlowSummary) : Figure → ℚ
  | .rows => s.rows
  | .excluded => s.excluded
  | .noTrade => s.noTrade
  | .consistent => s.consistent
  | .barChecked => s.barChecked
  | .identityOnly => s.identityOnly
  | .netIndividual => s.netIndividualToman.getD 0
  | .netInstitutional => s.netInstitutionalToman.getD 0
  | .totalValue => s.totalValueToman.getD 0
  | .listingSessions => s.listingSessions
  | .inflowSessions => s.inflowSessions
  | .outflowSessions => s.outflowSessions
  | .instrumentsTraded => s.instrumentsTraded
  | .inflowInstruments => s.inflowInstruments
  | .outflowInstruments => s.outflowInstruments

namespace Figure

def ofAccepted : Figure → Bool
  | .rows | .excluded | .noTrade => false
  | _ => true

def ofAcc (f : Figure) (a : FlowAcc) : ℚ :=
  match f with
  | .rows => a.rows
  | .excluded => a.excluded
  | .noTrade => a.noTrade
  | .consistent => a.consistent
  | .barChecked => a.barChecked
  | .identityOnly => a.identityOnly
  | .netIndividual => a.net
  | .netInstitutional => -a.net
  | .totalValue => a.value
  | .listingSessions => a.listing
  | .inflowSessions => a.inflowRows
  | .outflowSessions => a.outflowRows
  | .instrumentsTraded => if a.consistent = 0 then 0 else 1
  | .inflowInstruments => if a.consistent = 0 then 0 else if a.net > 0 then 1 else 0
  | .outflowInstruments => if a.consistent = 0 then 0 else if a.net < 0 then 1 else 0

def isTally : Figure → Bool
  | .instrumentsTraded | .inflowInstruments | .outflowInstruments => true
  | _ => false

theorem ofAcc_zero (f : Figure) : f.ofAcc 0 = 0 := by
  cases f <;> rfl

theorem ofAcc_add {f : Figure} (h : f.isTally = false) (a b : FlowAcc) :
    f.ofAcc (a + b) = f.ofAcc a + f.ofAcc b := by
  cases f <;>
    first
    | exact absurd h (by decide)
    | (simp only [ofAcc, FlowAcc.consistent_add, FlowAcc.rows_add, FlowAcc.excluded_add,
        FlowAcc.noTrade_add, FlowAcc.barChecked_add, FlowAcc.identityOnly_add, FlowAcc.net_add,
        FlowAcc.value_add, FlowAcc.listing_add, FlowAcc.inflowRows_add, FlowAcc.outflowRows_add]
        <;> push_cast <;> ring)

theorem ofAcc_idle {f : Figure} (hf : f.ofAccepted = true) {a : FlowAcc} (ha : a.Sound)
    (h : a.consistent = 0) : f.ofAcc a = 0 := by
  obtain ⟨hnet, hvalue, hin, hout, hlisting⟩ := ha.idle h
  have hsplit : a.barChecked = 0 ∧ a.identityOnly = 0 := Nat.add_eq_zero_iff.mp h
  cases f <;> simp_all [ofAcc, ofAccepted]

end Figure

namespace TieredFlowSummary

variable (s : TieredFlowSummary)

theorem figure_countInstrument {f : Figure} (a : FlowAcc) :
    (s.countInstrument a).figure f = s.figure f + if f.isTally then f.ofAcc a else 0 := by
  by_cases h : a.consistent = 0
  · cases f <;> simp [countInstrument, figure, Figure.ofAcc, Figure.isTally, h]
  · cases f <;> simp [countInstrument, figure, Figure.ofAcc, Figure.isTally, h]

theorem figure_setValueShare (cur curWhole : ℚ) (prev : Option (ℚ × ℚ)) (f : Figure) :
    (s.setValueShare cur curWhole prev).figure f = s.figure f := by
  unfold setValueShare
  split
  · cases f <;> rfl
  · dsimp only
    split <;> cases f <;> rfl

theorem figure_setCoveredValueShare (g : GroupShare) (hasPrevious : Bool) (f : Figure) :
    (s.setCoveredValueShare g hasPrevious).figure f = s.figure f := by
  unfold setCoveredValueShare
  split
  · cases f <;> rfl
  · split
    · cases f <;> rfl
    · split
      · rw [figure_setValueShare]
        cases f <;> rfl
      · split
        · rw [figure_setValueShare]
          cases f <;> rfl
        · split <;> rw [figure_setValueShare] <;> cases f <;> rfl

theorem valueSharePct_setValueShare (cur whole : ℚ) (prev : Option (ℚ × ℚ)) :
    (s.setValueShare cur whole prev).valueSharePct = valueShare cur whole := by
  unfold setValueShare
  split
  · rfl
  · dsimp only
    split <;> rfl

theorem valueSharePct_setCoveredValueShare {g : GroupShare} (hasPrevious : Bool)
    (h : g.enclosing = none) : (s.setCoveredValueShare g hasPrevious).valueSharePct =
      if g.cov.meets then valueShare g.cur g.whole else s.valueSharePct := by
  unfold setCoveredValueShare
  rw [h]
  cases g.cov.meets with
  | false => rfl
  | true =>
    simp only [not_true_eq_false, if_false, Option.filter_none, if_true]
    split
    · rw [valueSharePct_setValueShare]
    · split
      · rw [valueSharePct_setValueShare]
      · split <;> rw [valueSharePct_setValueShare]

end TieredFlowSummary

theorem figure_summarizeAcc {a : FlowAcc} (ha : a.Sound) (w : SessionWindow) (f : Figure) :
    (summarizeAcc a w).figure f = if f.isTally then 0 else f.ofAcc a := by
  by_cases h : a.consistent = 0
  · obtain ⟨hnet, hvalue, -, -, -⟩ := ha.idle h
    cases f <;> simp [summarizeAcc, TieredFlowSummary.figure, Figure.ofAcc, Figure.isTally, h, hnet,
      hvalue]
  · cases f <;> simp [summarizeAcc, TieredFlowSummary.figure, Figure.ofAcc, Figure.isTally, h, fv]

namespace SectorFlowInput

variable (inp : SectorFlowInput)

section Figures

theorem figure_tally (s : TieredFlowSummary) (codes : List String) (n : ℕ) (f : Figure) :
    (inp.tally s codes n).figure f = s.figure f +
      (codes.map (fun code ↦ if f.isTally then f.ofAcc (inp.shareAcc code n) else 0)).sum := by
  have hstep : ∀ (s : TieredFlowSummary) (code : String),
      (s.countInstrument (inp.shareAcc code n)).figure f =
        s.figure f + if f.isTally then f.ofAcc (inp.shareAcc code n) else 0 :=
    fun s code ↦ s.figure_countInstrument _
  rw [tally]
  exact foldl_post (fun s ↦ TieredFlowSummary.figure s f) hstep codes s

theorem figure_group {codes : List String} {a : FlowAcc} {n : ℕ}
    (ha : a = (codes.map (fun code ↦ inp.shareAcc code n)).sum) (w : SessionWindow) (f : Figure) :
    (inp.tally (summarizeAcc a w) codes n).figure f =
      (codes.map (fun code ↦ f.ofAcc (inp.shareAcc code n))).sum := by
  have hsound : a.Sound := ha ▸ inp.sum_sound codes n
  rw [figure_tally, figure_summarizeAcc hsound]
  cases hf : f.isTally with
  | true => simp
  | false =>
    rw [ha, read_sum f.ofAcc f.ofAcc_zero (Figure.ofAcc_add hf), map_map]
    simp [Function.comp_def]

theorem figure_marketSummary (n : ℕ) (f : Figure) :
    (inp.marketSummary n).figure f =
      (inp.codes.map (fun code ↦ f.ofAcc (inp.shareAcc code n))).sum := by
  rw [← inp.figure_group (inp.marketAcc_eq_sum_shares n) (inp.window n) f]
  cases f <;> rfl

theorem figure_sectorSummary (sec : String) (n : ℕ) (f : Figure) :
    (inp.sectorSummary sec n).figure f =
      ((inp.sectorMembers sec).map (fun code ↦ f.ofAcc (inp.shareAcc code n))).sum := by
  rw [← inp.figure_group (inp.sectorAcc_eq_sum sec n) (inp.window n) f, sectorSummary]
  split_ifs
  · rw [TieredFlowSummary.figure_setCoveredValueShare]
    cases f <;> rfl
  · cases f <;> rfl

theorem figure_shareItem (code : String) (n : ℕ) (w : Span) (f : Figure) :
    (inp.shareItem code n w).summary.figure f = f.ofAcc (inp.shareAcc code n) := by
  rw [shareItem, TieredFlowSummary.figure_setCoveredValueShare,
    TieredFlowSummary.figure_countInstrument, figure_summarizeAcc (inp.shareAcc_sound code n)]
  cases f.isTally <;> simp

theorem figure_companyItem (key shown : String) (n : ℕ) (w : Span) (f : Figure) :
    (inp.companyItem key shown n w).summary.figure f =
      ((inp.companyMembers key).map (fun code ↦ f.ofAcc (inp.shareAcc code n))).sum := by
  rw [companyItem, TieredFlowSummary.figure_setCoveredValueShare,
    inp.figure_group (inp.companyAcc_eq_sum key n)]

theorem market_figure_eq_sectors (n : ℕ) (f : Figure) :
    (inp.marketSummary n).figure f =
      (inp.secCodes.map (fun sec ↦ (inp.sectorSummary sec n).figure f)).sum := by
  simp only [figure_marketSummary, figure_sectorSummary]
  exact (inp.sum_sectors _).symm

theorem sector_figure_eq_shares (sec : String) (n : ℕ) (w : Span) (f : Figure) :
    (inp.sectorSummary sec n).figure f =
      ((inp.shareItems sec n w).map (fun it ↦ it.summary.figure f)).sum := by
  have hperm : (inp.shareItems sec n w).Perm
      ((inp.sectorMembers sec).map (fun code ↦ inp.shareItem code n w)) :=
    perm_insertionSort _ _
  rw [(hperm.map (fun it ↦ it.summary.figure f)).sum_eq, map_map, figure_sectorSummary]
  refine congrArg List.sum (map_congr_left (fun code _ ↦ ?_))
  exact (inp.figure_shareItem code n w f).symm

end Figures

section Companies

theorem mostTraded_ne_none (n : ℕ) (held : Option String) (code : String) :
    inp.mostTraded n held code ≠ none := by
  cases held <;> simp [mostTraded]

theorem foldl_mostTraded_isSome (n : ℕ) {codes : List String} (h : codes ≠ []) :
    (codes.foldl (inp.mostTraded n) none).isSome := by
  have hall : ∀ (l : List String) (held : Option String), held.isSome →
      (l.foldl (inp.mostTraded n) held).isSome := by
    intro l
    induction l with
    | nil => exact fun _ h ↦ h
    | cons code rest ih =>
      intro held _
      exact ih _ (Option.isSome_iff_ne_none.mpr (inp.mostTraded_ne_none n held code))
  cases codes with
  | nil => exact absurd rfl h
  | cons code rest => exact hall rest _ rfl

theorem shownOf_isSome {key : String} (h : key ∈ inp.companyKeys) (n : ℕ) :
    (inp.shownOf key n).isSome := by
  obtain ⟨code, hcode, hkey⟩ := mem_keys.mp h
  have hne : inp.companyMembers key ≠ [] :=
    ne_nil_of_mem (mem_filter.mpr ⟨hcode, decide_eq_true hkey⟩)
  rw [shownOf]
  cases inp.mainBoard key n with
  | none => exact inp.foldl_mostTraded_isSome n hne
  | some shown => rfl

def returnedKeys (n : ℕ) : List String :=
  inp.companyKeys.filter (fun key ↦ (inp.companyAcc key n).consistent ≠ 0)

theorem sum_buildCompanies (n : ℕ) (w : Span) (f : Figure) :
    ((inp.buildCompanies n w).map (fun c ↦ c.summary.figure f)).sum =
      ((inp.returnedKeys n).map (fun key ↦
        ((inp.companyMembers key).map (fun code ↦ f.ofAcc (inp.shareAcc code n))).sum)).sum := by
  have hmap : ∀ l : List String, (∀ key ∈ l, key ∈ inp.companyKeys) →
      (l.filterMap (fun key ↦ (inp.shownOf key n).map (fun shown ↦
        inp.companyItem key shown n w))).map (fun c ↦ c.summary.figure f) =
      l.map (fun key ↦
        ((inp.companyMembers key).map (fun code ↦ f.ofAcc (inp.shareAcc code n))).sum) := by
    intro l hl
    induction l with
    | nil => rfl
    | cons key rest ih =>
      obtain ⟨shown, hshown⟩ := Option.isSome_iff_exists.mp
        (inp.shownOf_isSome (hl key mem_cons_self) n)
      rw [filterMap_cons_some (by rw [hshown]; rfl), map_cons, map_cons,
        figure_companyItem, ih (fun k hk ↦ hl k (mem_cons_of_mem key hk))]
  rw [buildCompanies, hmap _ (fun key hkey ↦ mem_of_mem_filter hkey), returnedKeys]

theorem member_idle {key : String} {n : ℕ} (h : (inp.companyAcc key n).consistent = 0)
    {code : String} (hcode : code ∈ inp.companyMembers key) :
    (inp.shareAcc code n).consistent = 0 := by
  rw [companyAcc_eq_sum, read_sum FlowAcc.consistent rfl FlowAcc.consistent_add,
    map_map, sum_eq_zero_iff] at h
  exact h _ (mem_map.mpr ⟨code, hcode, rfl⟩)

theorem market_figure_eq_companies (n : ℕ) (w : Span) {f : Figure} (hf : f.ofAccepted = true) :
    (inp.marketSummary n).figure f =
      ((inp.buildCompanies n w).map (fun c ↦ c.summary.figure f)).sum := by
  have hdropped : ∀ key ∈ inp.companyKeys,
      ((inp.companyMembers key).map (fun code ↦ f.ofAcc (inp.shareAcc code n))).sum =
        if decide ((inp.companyAcc key n).consistent ≠ 0) then
          ((inp.companyMembers key).map (fun code ↦ f.ofAcc (inp.shareAcc code n))).sum else 0 := by
    intro key _
    by_cases hc : (inp.companyAcc key n).consistent = 0
    · rw [if_neg (by simp [hc])]
      refine sum_eq_zero (fun x hx ↦ ?_)
      obtain ⟨code, hcode, rfl⟩ := mem_map.mp hx
      exact Figure.ofAcc_idle hf (inp.shareAcc_sound code n) (inp.member_idle hc hcode)
    · rw [if_pos (decide_eq_true hc)]
  rw [sum_buildCompanies, figure_marketSummary, ← inp.sum_companies,
    map_congr_left hdropped, returnedKeys, sum_filter]

end Companies

section ValueShares

def exactShare (sec : String) (n : ℕ) : ℚ :=
  (inp.sectorAcc sec n).value / (inp.marketAcc n).value * 100

def withheld (n : ℕ) : List String := inp.secCodes.filter (fun sec ↦
  (inp.sectorAcc sec n).consistent > 0 ∧ ¬(inp.sectorCov sec n).1.meets)

def stated (n : ℕ) : List String := inp.secCodes.filter (fun sec ↦
  (inp.sectorSummary sec n).valueSharePct.isSome)

theorem valueSharePct_tally (a : FlowAcc) (w : SessionWindow) (codes : List String) (n : ℕ) :
    (inp.tally (summarizeAcc a w) codes n).valueSharePct = none := by
  have hstep : ∀ (codes : List String) (s : TieredFlowSummary),
      (inp.tally s codes n).valueSharePct = s.valueSharePct := by
    intro codes
    induction codes with
    | nil => exact fun _ ↦ rfl
    | cons code rest ih =>
      intro s
      rw [tally, foldl_cons, ← tally, ih, TieredFlowSummary.countInstrument]
      split <;> rfl
  rw [hstep, summarizeAcc]
  dsimp only
  split <;> rfl

theorem valueSharePct_sectorSummary (sec : String) (n : ℕ) :
    (inp.sectorSummary sec n).valueSharePct =
      if (inp.sectorAcc sec n).consistent > 0 ∧ (inp.sectorCov sec n).1.meets then
        valueShare (inp.sectorAcc sec n).value (inp.marketAcc n).value else none := by
  have hnone := inp.valueSharePct_tally (inp.sectorAcc sec n) (inp.window n)
    (inp.sectorMembers sec) n
  rw [sectorSummary]
  split
  · rename_i hc
    rw [TieredFlowSummary.valueSharePct_setCoveredValueShare _ _ rfl]
    simp [hc, hnone]
  · rename_i hc
    rw [if_neg (fun h ↦ hc h.1)]
    exact hnone

theorem sectorAcc_sound (sec : String) (n : ℕ) : (inp.sectorAcc sec n).Sound := by
  rw [sectorAcc_eq]
  exact inp.total_sound _

theorem marketAcc_sound (n : ℕ) : (inp.marketAcc n).Sound := by
  rw [marketAcc_eq]
  exact inp.total_sound _

theorem valueSharePct_of_stated {sec : String} {n : ℕ} (h : sec ∈ inp.stated n) :
    (inp.sectorSummary sec n).valueSharePct = some (fp (inp.exactShare sec n)) := by
  have hsome := (mem_filter.mp h).2
  rw [valueSharePct_sectorSummary] at hsome ⊢
  split at hsome
  · rename_i hc
    rw [if_pos hc]
    rw [valueShare] at hsome ⊢
    split at hsome
    · cases hsome
    · rename_i hwhole
      rw [if_neg hwhole, exactShare]
  · cases hsome

theorem sum_exactShare {n : ℕ} (h : (inp.marketAcc n).consistent ≠ 0) :
    ((inp.stated n).map (fun sec ↦ inp.exactShare sec n)).sum +
      ((inp.withheld n).map (fun sec ↦ inp.exactShare sec n)).sum = 100 := by
  have hmarket := (inp.marketAcc_sound n).traded h
  have hsplit : ∀ sec ∈ inp.secCodes, inp.exactShare sec n =
      (if (inp.sectorSummary sec n).valueSharePct.isSome then inp.exactShare sec n else 0) +
      if decide ((inp.sectorAcc sec n).consistent > 0 ∧ ¬(inp.sectorCov sec n).1.meets) then
        inp.exactShare sec n else 0 := by
    intro sec _
    rw [valueSharePct_sectorSummary]
    by_cases hc : (inp.sectorAcc sec n).consistent = 0
    · have hzero : inp.exactShare sec n = 0 := by
        rw [exactShare, ((inp.sectorAcc_sound sec n).idle hc).2.1, zero_div, zero_mul]
      simp [hc, hzero]
    · cases hm : (inp.sectorCov sec n).1.meets <;>
        simp [Nat.pos_of_ne_zero hc, valueShare, not_le.mpr hmarket]
  have hall : (inp.secCodes.map (fun sec ↦ inp.exactShare sec n)).sum = 100 := by
    have hread := read_sum (fun a : FlowAcc ↦ a.value / (inp.marketAcc n).value * 100)
      (by simp only [show (0 : FlowAcc).value = 0 from rfl, zero_div, zero_mul])
      (fun a b ↦ by rw [FlowAcc.value_add, add_div, add_mul])
      (inp.secCodes.map (fun sec ↦ inp.sectorAcc sec n))
    rw [← marketAcc_eq_sum_sectors, map_map] at hread
    calc (inp.secCodes.map (fun sec ↦ inp.exactShare sec n)).sum
        = (inp.marketAcc n).value / (inp.marketAcc n).value * 100 := hread.symm
      _ = 100 := by rw [div_self hmarket.ne', one_mul]
  rw [stated, withheld, sum_filter, sum_filter, ← sum_map_add, ← map_congr_left hsplit, hall]

theorem exactShare_pos_of_withheld {sec : String} {n : ℕ} (h : sec ∈ inp.withheld n) :
    0 < inp.exactShare sec n := by
  obtain ⟨hmem, hp⟩ := mem_filter.mp h
  have hc : (inp.sectorAcc sec n).consistent ≠ 0 := (of_decide_eq_true hp).1.ne'
  have hvalue := (inp.sectorAcc_sound sec n).traded hc
  have hmarket : (inp.marketAcc n).consistent ≠ 0 := by
    rw [marketAcc_eq_sum_sectors, read_sum FlowAcc.consistent rfl FlowAcc.consistent_add, map_map]
    intro hzero
    exact hc (sum_eq_zero_iff.mp hzero _ (mem_map.mpr ⟨sec, hmem, rfl⟩))
  exact mul_pos (div_pos hvalue ((inp.marketAcc_sound n).traded hmarket)) (by norm_num)

theorem sum_stated_eq_iff {n : ℕ} (h : (inp.marketAcc n).consistent ≠ 0) :
    ((inp.stated n).map (fun sec ↦ inp.exactShare sec n)).sum = 100 ↔ inp.withheld n = [] := by
  have hsum := inp.sum_exactShare h
  constructor
  · intro hall
    rw [hall, add_eq_left] at hsum
    by_contra hne
    have hpos := sum_pos ((inp.withheld n).map (fun sec ↦ inp.exactShare sec n))
      (fun x hx ↦ by
        obtain ⟨sec, hsec, rfl⟩ := mem_map.mp hx
        exact inp.exactShare_pos_of_withheld hsec) (by simpa using hne)
    exact hpos.ne' hsum
  · intro hnone
    rwa [hnone, map_nil, sum_nil, add_zero] at hsum

theorem abs_sum_valueSharePct_sub_le (n : ℕ) :
    |((inp.stated n).map (fun sec ↦ ((inp.sectorSummary sec n).valueSharePct).getD 0)).sum -
      ((inp.stated n).map (fun sec ↦ inp.exactShare sec n)).sum| ≤
      (inp.stated n).length * (1 / 2 / 10 ^ 6) := by
  have hstated : ∀ sec ∈ inp.stated n, ((inp.sectorSummary sec n).valueSharePct).getD 0 =
      fp (inp.exactShare sec n) := by
    intro sec hsec
    rw [inp.valueSharePct_of_stated hsec, Option.getD_some]
  rw [map_congr_left hstated]
  generalize inp.stated n = l
  induction l with
  | nil => simp
  | cons sec rest ih =>
    have hfp := abs_fp_sub_le (inp.exactShare sec n)
    have hadd := abs_add_le (fp (inp.exactShare sec n) - inp.exactShare sec n)
      ((rest.map (fun sec ↦ fp (inp.exactShare sec n))).sum -
        (rest.map (fun sec ↦ inp.exactShare sec n)).sum)
    rw [map_cons, map_cons, sum_cons, sum_cons, length_cons, add_sub_add_comm]
    push_cast
    linarith

end ValueShares

end SectorFlowInput

end TalaPala.Bourse
