import TalaPala.Bourse.FlowFigures

namespace TalaPala.Bourse

open Library List

structure Reordered (inp inp' : SectorFlowInput) : Prop where
  calendar : inp'.calendar = inp.calendar
  sectors : inp'.sectors = inp.sectors
  sectorIndex : inp'.sectorIndex = inp.sectorIndex
  indexSeries : inp'.indexSeries = inp.indexSeries
  rows : inp.rows.Perm inp'.rows
  prices : inp.prices.Perm inp'.prices
  dayFiles : inp.dayFiles.Perm inp'.dayFiles
  shares : inp.shares.Perm inp'.shares

structure Keyed (inp : SectorFlowInput) : Prop where
  prices : (inp.prices.map (fun p ↦ (p.insCode, p.day))).Nodup
  dayFiles : (inp.dayFiles.map (fun r ↦ (r.insCode, dayFloor r.day))).Nodup
  shares : (inp.shares.map ShareMeta.insCode).Nodup

theorem SectorFlowInput.getElem?_of_pos (inp : SectorFlowInput) {d : Instant} {i : ℕ}
    (h : inp.pos d = some i) : inp.calendar.sessions[i]? = some d := by
  obtain ⟨⟨d', i'⟩, hlast, rfl⟩ := Option.map_eq_some_iff.mp h
  obtain ⟨hmem, hd⟩ := mem_of_lastOf hlast
  rw [← show d' = d from of_decide_eq_true hd]
  exact mem_zipIdx_iff_getElem?.mp hmem

section Companies

namespace SectorFlowInput

variable (inp : SectorFlowInput)

def boardKey (n : ℕ) (code : String) : Lex (Bool × Lex (ℚ × String)) :=
  toLex (!(inp.metaOf code).listed, toLex (-inp.valueOf code n, code))

theorem better_iff (n : ℕ) (a b : String) :
    inp.better n a b = true ↔ ¬inp.boardKey n b ≤ inp.boardKey n a := by
  rw [not_le, boardKey, boardKey, Prod.Lex.toLex_lt_toLex, Prod.Lex.toLex_lt_toLex, better]
  by_cases hv : inp.valueOf a n = inp.valueOf b n
  · cases (inp.metaOf a).listed <;> cases (inp.metaOf b).listed <;> simp [hv]
  · cases (inp.metaOf a).listed <;> cases (inp.metaOf b).listed <;> simp [hv]

theorem eq_of_boardKey (n : ℕ) {a b : String} (h : inp.boardKey n a = inp.boardKey n b) : a = b :=
  (Prod.ext_iff.mp (Prod.ext_iff.mp h).2).2

theorem foldl_better_perm (n : ℕ) {codes codes' : List String} (h : codes.Perm codes') :
    codes.foldl (keepBetter (inp.better n)) none =
      codes'.foldl (keepBetter (inp.better n)) none := by
  have : Std.Total (fun a b ↦ inp.boardKey n a ≤ inp.boardKey n b) := ⟨fun _ _ ↦ le_total _ _⟩
  have : IsTrans String (fun a b ↦ inp.boardKey n a ≤ inp.boardKey n b) :=
    ⟨fun _ _ _ ↦ le_trans⟩
  exact foldl_keepBetter_perm (r := fun a b ↦ inp.boardKey n a ≤ inp.boardKey n b)
    (inp.better_iff n) (fun a b hab hba ↦ inp.eq_of_boardKey n (le_antisymm hab hba)) h

theorem mem_of_foldl_mostTraded {n : ℕ} {codes : List String} {held : Option String}
    {shown : String} (h : codes.foldl (inp.mostTraded n) held = some shown) :
    shown ∈ codes ∨ held = some shown := by
  induction codes generalizing held with
  | nil => exact .inr h
  | cons code rest ih =>
    obtain hmem | hheld := ih h
    · exact .inl (mem_cons_of_mem code hmem)
    · cases held with
      | none => exact .inl (mem_cons.mpr (.inl (Option.some.inj hheld).symm))
      | some first =>
        have hshown := Option.some.inj hheld
        split at hshown
        · exact .inl (mem_cons.mpr (.inl hshown.symm))
        · exact .inr (congrArg some hshown)

theorem keyOf_shown {key shown : String} {n : ℕ} (h : inp.shownOf key n = some shown) :
    inp.keyOf shown = key := by
  rw [shownOf] at h
  cases hmain : inp.mainBoard key n with
  | some main =>
    rw [hmain] at h
    obtain rfl : main = shown := Option.some.inj h
    have : Std.Total (fun a b ↦ inp.boardKey n a ≤ inp.boardKey n b) := ⟨fun _ _ ↦ le_total _ _⟩
    have : IsTrans String (fun a b ↦ inp.boardKey n a ≤ inp.boardKey n b) :=
      ⟨fun _ _ _ ↦ le_trans⟩
    obtain ⟨hmem, -, -⟩ := foldl_keepBetter (r := fun a b ↦ inp.boardKey n a ≤ inp.boardKey n b)
      (inp.better_iff n) hmain
    have hboard := hmem.resolve_right (by simp)
    exact (of_decide_eq_true (mem_filter.mp hboard).2).2
  | none =>
    rw [hmain] at h
    have hmem := (inp.mem_of_foldl_mostTraded h).resolve_right (by simp)
    exact of_decide_eq_true (mem_filter.mp hmem).2

theorem nodup_buildCompanies (n : ℕ) (w : Span) :
    ((inp.buildCompanies n w).map CompanyFlowItem.insCode).Nodup := by
  have hshown : (inp.buildCompanies n w).map CompanyFlowItem.insCode =
      (inp.returnedKeys n).filterMap (fun key ↦ inp.shownOf key n) := by
    rw [buildCompanies, map_filterMap, returnedKeys]
    refine filterMap_congr (fun key _ ↦ ?_)
    rw [Option.map_map]
    exact Option.map_id'
  rw [hshown]
  refine (inp.nodup_companyKeys.filter _).filterMap (fun key key' shown hk hk' ↦ ?_)
  rw [← inp.keyOf_shown hk, ← inp.keyOf_shown hk']

end SectorFlowInput

theorem topOf_perm {companies companies' : List CompanyFlowItem} (h : companies.Perm companies')
    (hcodes : (companies.map CompanyFlowItem.insCode).Nodup) (k : ℕ) :
    topOf companies' k = topOf companies k := by
  have hsort : ∀ (flow : CompanyFlowItem → ℚ) (p : CompanyFlowItem → Bool),
      (companies'.filter p).insertionSort (CompanyFlowItem.Before flow) =
        (companies.filter p).insertionSort (CompanyFlowItem.Before flow) := by
    intro flow p
    have : Std.Total (CompanyFlowItem.Before flow) := ⟨fun _ _ ↦ le_total _ _⟩
    have : IsTrans CompanyFlowItem (CompanyFlowItem.Before flow) := ⟨fun _ _ _ ↦ le_trans⟩
    have hperm := ((perm_insertionSort (CompanyFlowItem.Before flow) _).trans
      (h.filter p).symm).trans (perm_insertionSort (CompanyFlowItem.Before flow) _).symm
    refine hperm.eq_of_pairwise (fun a b ha hb hab hba ↦ ?_)
      (pairwise_insertionSort _ _) (pairwise_insertionSort _ _)
    have ha' := h.mem_iff.mpr (mem_of_mem_filter ((mem_insertionSort _).mp ha))
    have hb' := mem_of_mem_filter ((mem_insertionSort _).mp hb)
    have hkey := le_antisymm hab hba
    have hins : a.insCode = b.insCode :=
      (Prod.ext_iff.mp (Prod.ext_iff.mp (Prod.ext_iff.mp hkey).2).2).2
    exact inj_on_of_nodup_map hcodes ha' hb' hins
  rw [topOf, topOf, hsort, hsort]

end Companies

namespace Reordered

variable {inp inp' : SectorFlowInput} (h : Reordered inp inp') (hk : Keyed inp)

section Inputs

include h

theorem pos_eq : inp'.pos = inp.pos := by
  funext d
  rw [SectorFlowInput.pos, SectorFlowInput.pos, h.calendar]

theorem window_eq : inp'.window = inp.window := by
  funext n
  rw [SectorFlowInput.window, SectorFlowInput.window, h.calendar]

theorem place_eq : inp'.place = inp.place := by
  funext r
  rw [SectorFlowInput.place, SectorFlowInput.place, h.pos_eq]

theorem nBlocks_eq : inp'.nBlocks = inp.nBlocks := by
  rw [SectorFlowInput.nBlocks, SectorFlowInput.nBlocks, h.calendar]

theorem blockSpans_eq : inp'.blockSpans = inp.blockSpans := by
  rw [SectorFlowInput.blockSpans, SectorFlowInput.blockSpans, h.calendar, h.nBlocks_eq]

theorem hasPrevious_eq : inp'.hasPrevious = inp.hasPrevious := by
  funext n
  rw [SectorFlowInput.hasPrevious, SectorFlowInput.hasPrevious, h.window_eq]

theorem oldestSession_eq : inp'.oldestSession = inp.oldestSession := by
  rw [SectorFlowInput.oldestSession, SectorFlowInput.oldestSession, h.calendar]

theorem newestSession_eq : inp'.newestSession = inp.newestSession := by
  rw [SectorFlowInput.newestSession, SectorFlowInput.newestSession, h.calendar]

theorem sectorName_eq : inp'.sectorName = inp.sectorName := by
  funext sec
  rw [SectorFlowInput.sectorName, SectorFlowInput.sectorName, h.sectors]

theorem placedRows_perm (code : String) : (inp.placedRows code).Perm (inp'.placedRows code) := by
  rw [SectorFlowInput.placedRows, SectorFlowInput.placedRows, h.place_eq]
  exact (h.rows.filter _).filterMap _

theorem byShare_perm (code : String) : (inp.byShare code).Perm (inp'.byShare code) :=
  ((perm_insertionSort _ _).trans (h.placedRows_perm code)).trans
    (perm_insertionSort _ _).symm

theorem withRows_eq : inp'.withRows = inp.withRows := by
  funext code
  rw [SectorFlowInput.withRows, SectorFlowInput.withRows, (h.placedRows_perm code).isEmpty_eq]

theorem codes_eq : inp'.codes = inp.codes := by
  refine keys_congr (fun code ↦ ?_)
  rw [h.place_eq]
  exact ((((h.rows.filter _).map _).append ((h.shares.filter _).map _)).mem_iff).symm

theorem thinTraded_perm (code : String) : (inp.thinTraded code).Perm (inp'.thinTraded code) := by
  rw [SectorFlowInput.thinTraded, SectorFlowInput.thinTraded, h.pos_eq, h.oldestSession_eq,
    h.newestSession_eq]
  exact ((h.rows.filter _).filter _).map _

theorem flowed_eq : inp'.flowed = inp.flowed := by
  funext code i
  exact (h.byShare_perm code).any_eq.symm

theorem tradedDays_perm (code : String) (n : ℕ) :
    (inp.tradedDays code n).Perm (inp'.tradedDays code n) :=
  ((h.byShare_perm code).filter _).map _

theorem tradedIn_perm (code : String) (n : ℕ) (w : Span) :
    (inp.tradedIn code n w).Perm (inp'.tradedIn code n w) :=
  (h.tradedDays_perm code n).append ((h.thinTraded_perm code).filter _)

include hk

theorem metaOf_eq : inp'.metaOf = inp.metaOf := by
  funext code
  have hone : ∀ a ∈ inp.shares, ∀ b ∈ inp.shares, decide (a.insCode = code) →
      decide (b.insCode = code) → a = b := by
    intro a ha b hb hac hbc
    exact inj_on_of_nodup_map hk.shares ha hb
      ((of_decide_eq_true hac).trans (of_decide_eq_true hbc).symm)
  rw [SectorFlowInput.metaOf, SectorFlowInput.metaOf, lastOf_perm h.shares hone]

theorem pricesOf_eq : inp'.pricesOf = inp.pricesOf := by
  funext code
  have hnodup : ((inp.prices.filter (fun p ↦ p.insCode = code)).map PriceRow.day).Nodup := by
    have hpairs := hk.prices.sublist ((filter_sublist (p := fun p : PriceRow ↦
      p.insCode = code) (l := inp.prices)).map (fun p ↦ (p.insCode, p.day)))
    rw [nodup_iff_pairwise_ne, pairwise_map] at hpairs ⊢
    refine hpairs.imp_of_mem (fun {a b} ha hb hne hday ↦ hne ?_)
    have ha' : a.insCode = code := of_decide_eq_true (mem_filter.mp ha).2
    have hb' : b.insCode = code := of_decide_eq_true (mem_filter.mp hb).2
    rw [ha', hb', hday]
  exact (ascending_congr (h.prices.filter _) hnodup).symm

theorem dayFileOf_eq : inp'.dayFileOf = inp.dayFileOf := by
  funext code i
  have hone : ∀ a ∈ inp.dayFiles, ∀ b ∈ inp.dayFiles,
      decide (a.insCode = code ∧ inp.pos (dayFloor a.day) = some i) →
      decide (b.insCode = code ∧ inp.pos (dayFloor b.day) = some i) → a = b := by
    intro a ha b hb hac hbc
    obtain ⟨hac, hai⟩ := of_decide_eq_true hac
    obtain ⟨hbc, hbi⟩ := of_decide_eq_true hbc
    refine inj_on_of_nodup_map hk.dayFiles ha hb (Prod.ext (hac.trans hbc.symm) ?_)
    exact Option.some.inj ((inp.getElem?_of_pos hai).symm.trans (inp.getElem?_of_pos hbi))
  rw [SectorFlowInput.dayFileOf, SectorFlowInput.dayFileOf, h.pos_eq, lastOf_perm h.dayFiles hone]

theorem listing_eq : inp'.listing = inp.listing := by
  funext code
  rw [SectorFlowInput.listing, SectorFlowInput.listing, h.oldestSession_eq, h.metaOf_eq hk,
    h.pricesOf_eq hk]

theorem pricedIn_eq : inp'.pricedIn = inp.pricedIn := by
  funext code n
  simp only [SectorFlowInput.pricedIn, SectorFlowInput.pricedSessions, h.pricesOf_eq hk, h.pos_eq,
    h.flowed_eq]

theorem coverageIn_eq : inp'.coverageIn = inp.coverageIn := by
  funext code n
  simp only [SectorFlowInput.coverageIn, h.dayFileOf_eq hk, h.flowed_eq, h.calendar]

theorem changeIn_eq : inp'.changeIn = inp.changeIn := by
  funext code n w
  rw [SectorFlowInput.changeIn, SectorFlowInput.changeIn, h.pricesOf_eq hk, h.listing_eq hk]
  exact (chainLinkedChange_traded_perm (h.tradedIn_perm code n w) w _).symm

theorem entries_perm : inp.entries.Perm inp'.entries := by
  have hposting : inp'.posting = inp.posting := by
    funext r
    rw [SectorFlowInput.posting, SectorFlowInput.posting, h.place_eq, h.metaOf_eq hk,
      h.listing_eq hk]
  rw [SectorFlowInput.entries, SectorFlowInput.entries, hposting]
  exact h.rows.filterMap _

theorem sum_entries {M : Type*} [AddCommMonoid M] (q : Posting → Bool) (f : Posting → M) :
    ((inp'.entries.filter q).map f).sum = ((inp.entries.filter q).map f).sum :=
  (((h.entries_perm hk).filter q).map f).sum_eq.symm

theorem books_eq : inp'.books = inp.books := by
  have hwindow : inp'.inWindow = inp.inWindow := by
    funext n p
    rw [SectorFlowInput.inWindow, SectorFlowInput.inWindow, h.window_eq]
  have hprevious : inp'.inPrevious = inp.inPrevious := by
    funext n p
    rw [SectorFlowInput.inPrevious, SectorFlowInput.inPrevious, h.window_eq]
  have hblock : inp'.inBlock = inp.inBlock := by
    funext b p
    rw [SectorFlowInput.inBlock, SectorFlowInput.inBlock, h.nBlocks_eq]
  refine Books.ext (funext fun code ↦ funext fun n ↦ ?_) (funext fun sec ↦ funext fun n ↦ ?_)
    (funext fun sec ↦ funext fun n ↦ ?_) (funext fun n ↦ ?_) (funext fun sec ↦ funext fun b ↦ ?_)
    (funext fun b ↦ ?_)
  · have h' := inp'.shareAcc_eq code n
    rw [hwindow] at h'
    exact h'.trans ((h.sum_entries hk _ _).trans (inp.shareAcc_eq code n).symm)
  · rw [inp'.sectorPrev_eq, inp.sectorPrev_eq, hprevious, h.sum_entries hk]
  · rw [inp'.sectorPrevRows_eq, inp.sectorPrevRows_eq, hprevious, h.sum_entries hk]
  · rw [inp'.marketPrev_eq, inp.marketPrev_eq, hprevious, h.sum_entries hk]
  · rw [inp'.sectorBlocks_eq, inp.sectorBlocks_eq, hblock]
    exact h.sum_entries hk _ _
  · rw [inp'.marketBlocks_eq, inp.marketBlocks_eq, hblock]
    exact h.sum_entries hk _ _

end Inputs

section Sums

include h hk

theorem shareAcc_eq : inp'.shareAcc = inp.shareAcc := by
  funext code n
  rw [SectorFlowInput.shareAcc, SectorFlowInput.shareAcc, h.books_eq hk]

theorem secCodes_eq : inp'.secCodes = inp.secCodes := by
  rw [SectorFlowInput.secCodes, SectorFlowInput.secCodes, h.metaOf_eq hk, h.codes_eq]

theorem sectorMembers_eq : inp'.sectorMembers = inp.sectorMembers := by
  funext sec
  rw [SectorFlowInput.sectorMembers, SectorFlowInput.sectorMembers, h.metaOf_eq hk, h.codes_eq]

theorem sectorAcc_eq : inp'.sectorAcc = inp.sectorAcc := by
  funext sec n
  rw [SectorFlowInput.sectorAcc, SectorFlowInput.sectorAcc, h.sectorMembers_eq hk, h.shareAcc_eq hk]

theorem marketAcc_eq : inp'.marketAcc = inp.marketAcc := by
  funext n
  rw [SectorFlowInput.marketAcc, SectorFlowInput.marketAcc, h.secCodes_eq hk, h.sectorAcc_eq hk]

theorem coverageOver_eq : inp'.coverageOver = inp.coverageOver := by
  funext codes n
  rw [SectorFlowInput.coverageOver, SectorFlowInput.coverageOver, h.coverageIn_eq hk]

theorem sectorCov_eq : inp'.sectorCov = inp.sectorCov := by
  funext sec n
  rw [SectorFlowInput.sectorCov, SectorFlowInput.sectorCov, h.coverageOver_eq hk,
    h.sectorMembers_eq hk]

theorem marketCov_eq : inp'.marketCov = inp.marketCov := by
  funext n
  rw [SectorFlowInput.marketCov, SectorFlowInput.marketCov, h.secCodes_eq hk, h.sectorCov_eq hk]

theorem tally_eq : inp'.tally = inp.tally := by
  funext s codes n
  rw [SectorFlowInput.tally, SectorFlowInput.tally, h.shareAcc_eq hk]

theorem marketSummary_eq : inp'.marketSummary = inp.marketSummary := by
  funext n
  simp only [SectorFlowInput.marketSummary, h.tally_eq hk, h.marketAcc_eq hk, h.window_eq,
    h.codes_eq, h.marketCov_eq hk, h.hasPrevious_eq]

theorem sectorSummary_eq : inp'.sectorSummary = inp.sectorSummary := by
  funext sec n
  simp only [SectorFlowInput.sectorSummary, h.sectorAcc_eq hk, h.sectorCov_eq hk, h.tally_eq hk,
    h.window_eq, h.sectorMembers_eq hk, h.hasPrevious_eq, h.marketAcc_eq hk, h.books_eq hk]

theorem sectorItem_eq : inp'.sectorItem = inp.sectorItem := by
  funext sec
  simp only [SectorFlowInput.sectorItem, SectorFlowInput.windows, h.sectorName_eq, h.sectorIndex,
    h.indexSeries, h.sectorMembers_eq hk, h.withRows_eq, h.shares.countP_eq, h.window_eq,
    h.sectorSummary_eq hk, h.blockSpans_eq, h.books_eq hk]

theorem shareItems_eq : inp'.shareItems = inp.shareItems := by
  have hitem : inp'.shareItem = inp.shareItem := by
    funext code n w
    simp only [SectorFlowInput.shareItem, h.metaOf_eq hk, h.shareAcc_eq hk, h.window_eq,
      h.sectorAcc_eq hk, h.coverageIn_eq hk, h.sectorCov_eq hk, h.changeIn_eq hk, h.pricedIn_eq hk]
  have hbefore : inp'.itemBefore = inp.itemBefore := by
    funext n a b
    rw [SectorFlowInput.itemBefore, SectorFlowInput.itemBefore, h.shareAcc_eq hk]
  funext sec n w
  simp only [SectorFlowInput.shareItems, hitem, hbefore, h.sectorMembers_eq hk]

theorem buildCompanies_eq : inp'.buildCompanies = inp.buildCompanies := by
  have hvalue : inp'.valueOf = inp.valueOf := by
    funext code n
    rw [SectorFlowInput.valueOf, SectorFlowInput.valueOf, h.codes_eq, h.shareAcc_eq hk]
  have hbetter : inp'.better = inp.better := by
    funext n a b
    rw [SectorFlowInput.better, SectorFlowInput.better, h.metaOf_eq hk, hvalue]
  have hkey : inp'.keyOf = inp.keyOf := by
    funext code
    rw [SectorFlowInput.keyOf, SectorFlowInput.keyOf, h.metaOf_eq hk]
  have hmain : inp'.mainBoard = inp.mainBoard := by
    funext key n
    have hboards : (inp'.mainBoards key).Perm (inp.mainBoards key) := by
      rw [SectorFlowInput.mainBoards, SectorFlowInput.mainBoards, h.metaOf_eq hk, hkey]
      exact ((h.shares.map _).dedup.filter _).symm
    rw [SectorFlowInput.mainBoard, SectorFlowInput.mainBoard, hbetter]
    exact inp.foldl_better_perm n hboards
  have hmembers : inp'.companyMembers = inp.companyMembers := by
    funext key
    rw [SectorFlowInput.companyMembers, SectorFlowInput.companyMembers, h.codes_eq, hkey]
  have hshown : inp'.shownOf = inp.shownOf := by
    funext key n
    have hmost : inp'.mostTraded n = inp.mostTraded n := by
      funext held code
      cases held <;> simp only [SectorFlowInput.mostTraded, hvalue]
    rw [SectorFlowInput.shownOf, SectorFlowInput.shownOf, hmain, hmembers, hmost]
  have hacc : inp'.companyAcc = inp.companyAcc := by
    funext key n
    rw [SectorFlowInput.companyAcc, SectorFlowInput.companyAcc, hmembers, h.shareAcc_eq hk]
  have hboards : inp'.boardsOf = inp.boardsOf := by
    funext key n
    simp only [SectorFlowInput.boardsOf, hmembers, h.shareAcc_eq hk, h.metaOf_eq hk]
  have hitem : inp'.companyItem = inp.companyItem := by
    funext key shown n w
    simp only [SectorFlowInput.companyItem, h.metaOf_eq hk, hacc, hmembers, h.sectorName_eq,
      hboards, h.tally_eq hk, h.window_eq, h.marketAcc_eq hk, h.coverageOver_eq hk, h.codes_eq,
      h.changeIn_eq hk, h.pricesOf_eq hk]
  funext n w
  rw [SectorFlowInput.buildCompanies, SectorFlowInput.buildCompanies,
    SectorFlowInput.companyKeys, SectorFlowInput.companyKeys, hkey, h.codes_eq, hacc, hshown, hitem]

omit hk in
theorem coverage_eq (cal : MarketCalendar) :
    buildCoverage cal inp'.shares = buildCoverage cal inp.shares := by
  simp only [buildCoverage, h.shares.length_eq, h.shares.countP_eq]

theorem build_eq : buildSectorFlows inp' = buildSectorFlows inp := by
  have hspans : inp'.spans = inp.spans := by
    rw [SectorFlowInput.spans, SectorFlowInput.spans, h.window_eq]
  simp only [buildSectorFlows, hspans, h.coverage_eq, h.calendar, h.window_eq,
    h.marketSummary_eq hk, h.secCodes_eq hk, h.sectorItem_eq hk, h.blockSpans_eq, h.books_eq hk,
    h.buildCompanies_eq hk, h.shareItems_eq hk]

end Sums

end Reordered

/-- Every row posted is in one tier, every level adds up to the one above, the value
shares are the whole but for what is withheld, and no order of input shows. -/
theorem sector_flows_account (inp : SectorFlowInput) :
    (∀ q : Posting → Bool, (inp.total q).rows = (inp.entries.filter q).length ∧
      (∀ t, (inp.total q).inTier t = (inp.entries.filter q).countP (fun p ↦ p.row.tier = t)) ∧
      (inp.total q).rows = (inp.total q).barChecked + (inp.total q).identityOnly +
        (inp.total q).excluded + (inp.total q).noTrade) ∧
    (∀ n, inp.marketAcc n = inp.total (inp.inWindow n) ∧
      inp.marketAcc n = (inp.secCodes.map (fun sec ↦ inp.sectorAcc sec n)).sum ∧
      (∀ sec, inp.sectorAcc sec n = inp.total (fun p ↦ p.sec = sec ∧ inp.inWindow n p) ∧
        inp.sectorAcc sec n =
          ((inp.sectorMembers sec).map (fun code ↦ inp.shareAcc code n)).sum) ∧
      (∀ code, inp.shareAcc code n = inp.total (fun p ↦ p.code = code ∧ inp.inWindow n p)) ∧
      inp.marketAcc n = (inp.companyKeys.map (fun key ↦ inp.companyAcc key n)).sum ∧
      ∀ key, inp.companyAcc key n =
        ((inp.companyMembers key).map (fun code ↦ inp.shareAcc code n)).sum) ∧
    (∀ (n : ℕ) (w : Span) (f : Figure), (inp.marketSummary n).figure f =
        (inp.secCodes.map (fun sec ↦ (inp.sectorSummary sec n).figure f)).sum ∧
      (∀ sec, (inp.sectorSummary sec n).figure f =
        ((inp.shareItems sec n w).map (fun it ↦ it.summary.figure f)).sum) ∧
      (f.ofAccepted = true → (inp.marketSummary n).figure f =
        ((inp.buildCompanies n w).map (fun c ↦ c.summary.figure f)).sum)) ∧
    (∀ n, (inp.marketAcc n).consistent ≠ 0 →
      ((inp.stated n).map (fun sec ↦ inp.exactShare sec n)).sum +
        ((inp.withheld n).map (fun sec ↦ inp.exactShare sec n)).sum = 100 ∧
      (((inp.stated n).map (fun sec ↦ inp.exactShare sec n)).sum = 100 ↔
        inp.withheld n = []) ∧
      |((inp.stated n).map (fun sec ↦ ((inp.sectorSummary sec n).valueSharePct).getD 0)).sum -
        ((inp.stated n).map (fun sec ↦ inp.exactShare sec n)).sum| ≤
        (inp.stated n).length * (1 / 2 / 10 ^ 6)) ∧
    (Keyed inp → ∀ inp', Reordered inp inp' → buildSectorFlows inp' = buildSectorFlows inp) ∧
    ∀ (n : ℕ) (w : Span) (companies : List CompanyFlowItem),
      (inp.buildCompanies n w).Perm companies →
        topOf companies topCompanies = topOf (inp.buildCompanies n w) topCompanies := by
  refine ⟨fun q ↦ ⟨inp.rows_total q, inp.inTier_total q, inp.rows_eq_tiers q⟩, fun n ↦ ?_,
    fun n w f ↦ ?_, fun n h ↦ ?_, fun hk inp' h ↦ h.build_eq hk, fun n w companies h ↦ ?_⟩
  · exact ⟨inp.marketAcc_eq n, inp.marketAcc_eq_sum_sectors n,
      fun sec ↦ ⟨inp.sectorAcc_eq sec n, inp.sectorAcc_eq_sum sec n⟩,
      fun code ↦ inp.shareAcc_eq code n, inp.marketAcc_eq_sum_companies n,
      fun key ↦ inp.companyAcc_eq_sum key n⟩
  · exact ⟨inp.market_figure_eq_sectors n f, fun sec ↦ inp.sector_figure_eq_shares sec n w f,
      inp.market_figure_eq_companies n w⟩
  · exact ⟨inp.sum_exactShare h, inp.sum_stated_eq_iff h, inp.abs_sum_valueSharePct_sub_le n⟩
  · exact topOf_perm h (inp.nodup_buildCompanies n w) topCompanies

def traded (value : ℚ) : FlowSession :=
  ⟨0, 1, 1, value, 0, value, 0, value, 0, value, 0, none⟩

def oneSession : MarketCalendar where
  sessions := [0]
  counts := []
  newestStored := none
  thinAfterNewest := 0
  newestThin := none
  thinSkipped := 0
  newestDayFile := none
  dayFiles := 0

def member (code sector : String) : ShareMeta :=
  ⟨code, code, "", "", "main", code, sector, true, false, "", none⟩

def mixedSession : SectorFlowInput where
  calendar := oneSession
  rows := [⟨"a", traded 30, none⟩, ⟨"b", traded 0, none⟩, ⟨"c", traded 10, none⟩]
  prices := []
  dayFiles := [⟨"c", 0, 10⟩, ⟨"d", 0, 90⟩]
  shares := [member "a" "s", member "b" "s", member "c" "t", member "d" "t"]
  sectors := []
  sectorIndex := fun _ ↦ ""
  indexSeries := fun _ ↦ none

def equalThirds : SectorFlowInput where
  calendar := oneSession
  rows := [⟨"a", traded 1, none⟩, ⟨"b", traded 1, none⟩, ⟨"c", traded 1, none⟩]
  prices := []
  dayFiles := []
  shares := [member "a" "s", member "b" "t", member "c" "u"]
  sectors := []
  sectorIndex := fun _ ↦ ""
  indexSeries := fun _ ↦ none

theorem mixedSession_in_any_order :
    buildSectorFlows { mixedSession with rows := mixedSession.rows.reverse } =
      buildSectorFlows mixedSession ∧
    ((mixedSession.stated 1).map (fun sec ↦ mixedSession.exactShare sec 1)).sum +
      ((mixedSession.withheld 1).map (fun sec ↦ mixedSession.exactShare sec 1)).sum = 100 ∧
    (mixedSession.marketSummary 1).figure .totalValue =
      ((mixedSession.buildCompanies 1 ⟨0, 0⟩).map (fun c ↦ c.summary.figure .totalValue)).sum ∧
    topOf (mixedSession.buildCompanies 1 ⟨0, 0⟩) topCompanies =
      topOf (mixedSession.buildCompanies 1 ⟨0, 0⟩) topCompanies := by
  obtain ⟨-, -, hfigures, hshares, horder, htop⟩ := sector_flows_account mixedSession
  refine ⟨horder ?_ _ ?_, (hshares 1 (by decide +kernel)).1,
    (hfigures 1 ⟨0, 0⟩ .totalValue).2.2 rfl, htop 1 ⟨0, 0⟩ _ (List.Perm.refl _)⟩
  · exact ⟨by decide +kernel, by decide +kernel, by decide +kernel⟩
  · exact ⟨rfl, rfl, rfl, rfl, (reverse_perm _).symm, .refl _, .refl _, .refl _⟩

/-- The idle company is not returned, the short sector's share is withheld, three thirds
are rounded, and of two rows of one key the last written counts. -/
theorem mixedSession_account_short :
    (mixedSession.marketSummary 1).figure .rows = 3 ∧
    ((mixedSession.buildCompanies 1 ⟨0, 0⟩).map (fun c ↦ c.summary.figure .rows)).sum = 2 ∧
    mixedSession.secCodes.map (fun sec ↦ (mixedSession.sectorSummary sec 1).valueSharePct) =
      [some 75, none] ∧
    (equalThirds.secCodes.map (fun sec ↦
      ((equalThirds.sectorSummary sec 1).valueSharePct).getD 0)).sum = 99999999 / 1000000 ∧
    buildSectorFlows { mixedSession with dayFiles := [⟨"d", 0, 90⟩, ⟨"c", 0, 10⟩, ⟨"d", 0, 10⟩] } ≠
      buildSectorFlows
        { mixedSession with dayFiles := [⟨"d", 0, 10⟩, ⟨"c", 0, 10⟩, ⟨"d", 0, 90⟩] } := by
  refine ⟨by decide +kernel, by decide +kernel, by decide +kernel, by decide +kernel, fun h ↦ ?_⟩
  have hsectors := congrArg (fun built ↦ built.resp.sectors) h
  revert hsectors
  decide +kernel

end TalaPala.Bourse
