import TalaPala.Bourse.SectorFlows
import Mathlib.Data.Prod.Lex

namespace TalaPala.Bourse

open Library

structure MarketRow where
  insCode : String
  flow : FlowSession
  sessionValue : Option ℚ

structure DayFileRow where
  insCode : String
  day : Instant
  value : ℚ

structure SectorName where
  code : String
  nameFA : String
  nameEN : String

structure SectorFlowInput where
  calendar : MarketCalendar
  rows : List MarketRow
  prices : List PriceRow
  dayFiles : List DayFileRow
  shares : List ShareMeta
  sectors : List SectorName
  sectorIndex : String → String
  indexSeries : String → Option IndexSeries

/-- A row placed on the calendar, `0` the newest session. -/
structure TieredRow where
  idx : ℕ
  day : Instant
  flow : FlowSession
  tier : FlowTier

def companyKey (m : ShareMeta) : String :=
  if m.companyCode ≠ "" then m.companyCode else "ins:" ++ m.insCode

namespace SectorFlowInput

variable (inp : SectorFlowInput)

def window (n : ℕ) : SessionWindow := windowOn inp.calendar n

def pos (d : Instant) : Option ℕ :=
  (lastOf (fun p ↦ p.1 = d) inp.calendar.sessions.zipIdx).map Prod.snd

def place (r : MarketRow) : Option TieredRow :=
  (inp.pos (dayFloor r.flow.day)).map (fun i ↦
    ⟨i, dayFloor r.flow.day, r.flow, (classifyFlow r.flow r.sessionValue).1⟩)

def placedRows (code : String) : List TieredRow :=
  (inp.rows.filter (fun r ↦ r.insCode = code)).filterMap inp.place

def byShare (code : String) : List TieredRow :=
  (inp.placedRows code).insertionSort (fun a b ↦ b.idx ≤ a.idx)

def withRows (code : String) : Bool := !(inp.placedRows code).isEmpty

/-- What the map holds of a share; a code with rows alone stands for itself. -/
def metaOf (code : String) : ShareMeta :=
  (lastOf (fun m ↦ m.insCode = code) inp.shares).getD
    ⟨code, code, "", "", "", "", "", false, false, "", none⟩

def codes : List String :=
  keys id ((inp.rows.filter (fun r ↦ (inp.place r).isSome)).map MarketRow.insCode ++
    (inp.shares.filter ShareMeta.listed).map ShareMeta.insCode)

def newestSession : Option Instant := inp.calendar.sessions.head?

def oldestSession : Option Instant := inp.calendar.sessions.getLast?

/-- The days between the oldest and the newest session that are none of them and on
which a share's flow shows a trade, as the rows arrive. -/
def thinTraded (code : String) : List Instant :=
  ((inp.rows.filter (fun r ↦ r.insCode = code)).filter (fun r ↦
    let d := dayFloor r.flow.day
    inp.pos d = none ∧ inp.oldestSession.any (· ≤ d) ∧ inp.newestSession.any (d ≤ ·) ∧
      r.flow.buy + r.flow.sell > 0)).map (fun r ↦ dayFloor r.flow.day)

def pricesOf (code : String) : List PriceRow :=
  ascending PriceRow.day (inp.prices.filter (fun p ↦ p.insCode = code))

def dayFileOf (code : String) (i : ℕ) : Option ℚ :=
  (lastOf (fun r ↦ r.insCode = code ∧ inp.pos (dayFloor r.day) = some i) inp.dayFiles).map
    DayFileRow.value

def nBlocks : ℕ := min (inp.calendar.sessions.length / blockSessions) blockCount

def listing (code : String) : Option Instant :=
  inp.oldestSession.bind (listingSession (inp.metaOf code) (inp.pricesOf code))

def pricedSessions (code : String) : List ℕ :=
  (inp.pricesOf code).filterMap (fun p ↦ inp.pos (dayFloor p.day))

def flowed (code : String) (i : ℕ) : Bool :=
  (inp.byShare code).any (fun r ↦ r.tier ≠ .noTrade ∧ r.idx = i)

def tradedDays (code : String) (n : ℕ) : List Instant :=
  ((inp.byShare code).filter (fun r ↦ r.idx < n ∧ r.tier ≠ .noTrade)).map TieredRow.day

def coverageIn (code : String) (n : ℕ) : CoverageAcc × CoverageAcc :=
  (List.range inp.calendar.sessions.length).foldl (fun c i ↦
    match inp.dayFileOf code i with
    | none => c
    | some v =>
      if i < n then (c.1.add v (inp.flowed code i), c.2)
      else if i < 2 * n then (c.1, c.2.add v (inp.flowed code i))
      else c) (.empty, .empty)

def pricedIn (code : String) (n : ℕ) : ℕ × ℕ :=
  let priced := (inp.pricedSessions code).filter (fun i ↦ i < n)
  (priced.length, priced.countP (fun i ↦ !inp.flowed code i))

def tradedIn (code : String) (n : ℕ) (w : Span) : List Instant :=
  inp.tradedDays code n ++ (inp.thinTraded code).filter (fun d ↦ w.start ≤ d ∧ d ≤ w.stop)

def changeIn (code : String) (n : ℕ) (w : Span) : PriceChange :=
  chainLinkedChange (inp.pricesOf code) (inp.tradedIn code n w) w (inp.listing code)

end SectorFlowInput

section Posting

structure Posting where
  code : String
  sec : String
  listing : Bool
  row : TieredRow

def FlowAcc.addRow (a : FlowAcc) (p : Posting) : FlowAcc := a.add p.row.flow p.row.tier p.listing

@[ext] structure Books where
  acc : String → ℕ → FlowAcc
  sectorPrev : String → ℕ → ℚ
  sectorPrevRows : String → ℕ → ℕ
  marketPrev : ℕ → ℚ
  sectorBlocks : String → ℕ → FlowAcc
  marketBlocks : ℕ → FlowAcc

def Books.empty : Books :=
  ⟨fun _ _ ↦ .empty, fun _ _ ↦ 0, fun _ _ ↦ 0, fun _ ↦ 0, fun _ _ ↦ .empty, fun _ ↦ .empty⟩

namespace SectorFlowInput

variable (inp : SectorFlowInput)

def postings : List Posting :=
  inp.codes.flatMap (fun code ↦ (inp.byShare code).map (fun r ↦
    ⟨code, (inp.metaOf code).sectorCode, inp.listing code = some r.day, r⟩))

def inWindow (n : ℕ) (p : Posting) : Bool := (inp.window n).available ∧ p.row.idx < n

def inPrevious (n : ℕ) (p : Posting) : Bool :=
  (inp.window n).available ∧ ¬p.row.idx < n ∧ p.row.idx < 2 * n ∧
    (inp.window n).previous.isSome ∧ p.row.tier.accepted

def inBlock (b : ℕ) (p : Posting) : Bool :=
  p.row.idx / blockSessions = b ∧ b < inp.nBlocks

def post (s : Books) (p : Posting) : Books where
  acc code n :=
    if p.code = code ∧ inp.inWindow n p then (s.acc code n).addRow p else s.acc code n
  sectorPrev sec n :=
    if p.sec = sec ∧ inp.inPrevious n p then s.sectorPrev sec n + p.row.flow.buy
    else s.sectorPrev sec n
  sectorPrevRows sec n :=
    if p.sec = sec ∧ inp.inPrevious n p then s.sectorPrevRows sec n + 1
    else s.sectorPrevRows sec n
  marketPrev n :=
    if inp.inPrevious n p then s.marketPrev n + p.row.flow.buy else s.marketPrev n
  sectorBlocks sec b :=
    if p.sec = sec ∧ inp.inBlock b p then (s.sectorBlocks sec b).addRow p
    else s.sectorBlocks sec b
  marketBlocks b :=
    if inp.inBlock b p then (s.marketBlocks b).addRow p else s.marketBlocks b

def books : Books := inp.postings.foldl inp.post .empty

def shareAcc (code : String) (n : ℕ) : FlowAcc := inp.books.acc code n

def secCodes : List String := keys (fun code ↦ (inp.metaOf code).sectorCode) inp.codes

def sectorMembers (sec : String) : List String :=
  inp.codes.filter (fun code ↦ (inp.metaOf code).sectorCode = sec)

def sectorAcc (sec : String) (n : ℕ) : FlowAcc :=
  (inp.sectorMembers sec).foldl (fun a code ↦ a.merge (inp.shareAcc code n)) .empty

def marketAcc (n : ℕ) : FlowAcc :=
  inp.secCodes.foldl (fun a sec ↦ a.merge (inp.sectorAcc sec n)) .empty

def coverageOver (codes : List String) (n : ℕ) : CoverageAcc × CoverageAcc :=
  codes.foldl (fun c code ↦
    (c.1.merge (inp.coverageIn code n).1, c.2.merge (inp.coverageIn code n).2)) (.empty, .empty)

def sectorCov (sec : String) (n : ℕ) : CoverageAcc × CoverageAcc :=
  inp.coverageOver (inp.sectorMembers sec) n

def marketCov (n : ℕ) : CoverageAcc × CoverageAcc :=
  inp.secCodes.foldl (fun c sec ↦
    (c.1.merge (inp.sectorCov sec n).1, c.2.merge (inp.sectorCov sec n).2)) (.empty, .empty)

end SectorFlowInput

end Posting

section Reporting

structure FlowBlock where
  span : Date × Date
  rows : ℕ
  consistent : ℕ
  excluded : ℕ
  netIndividualToman : Option ℚ
  netIndividualPctOfValue : Option ℚ
  totalValueToman : Option ℚ
  valueSharePct : Option ℚ
  deriving DecidableEq

def blockOf (a market : FlowAcc) (span : Span) : FlowBlock :=
  let b : FlowBlock := ⟨span.days, a.rows, a.consistent, a.excluded, none, none, none, none⟩
  if a.consistent = 0 then b
  else
    { b with
      netIndividualToman := fv a.net
      totalValueToman := fv a.value
      netIndividualPctOfValue := if a.value > 0 then some (fp (a.net / a.value * 100)) else none
      valueSharePct := valueShare a.value market.value }

structure SectorWindowItem where
  summary : TieredFlowSummary
  indexReturn : Option ℚ × Option ReturnReason
  deriving DecidableEq

structure SectorFlowItem where
  sectorCode : String
  nameFA : String
  nameEN : String
  indexInsCode : String
  instruments : ℕ
  listed : ℕ
  shares : ℕ
  windows : List (ℕ × SectorWindowItem)
  blocks : List FlowBlock
  deriving DecidableEq

structure ShareFlowItem where
  insCode : String
  symbol : String
  nameFA : String
  market : String
  board : String
  companyCode : String
  sectorCode : String
  listed : Bool
  inRoster : Bool
  rosterSymbol : Option String
  summary : TieredFlowSummary
  change : PriceChange
  tradedSessions : ℕ
  flowNotStored : ℕ

structure CompanyFlowItem where
  companyCode : String
  insCode : String
  symbol : String
  nameFA : String
  board : String
  sectorCode : String
  sectorNameFA : String
  sectorNameEN : String
  boards : List String
  inRoster : Bool
  rosterSymbol : Option String
  summary : TieredFlowSummary
  change : PriceChange

namespace SectorFlowInput

variable (inp : SectorFlowInput)

def sectorName (sec : String) : SectorName :=
  (lastOf (fun s ↦ s.code = sec) inp.sectors).getD ⟨"", "", ""⟩

def tally (s : TieredFlowSummary) (codes : List String) (n : ℕ) : TieredFlowSummary :=
  codes.foldl (fun s code ↦ s.countInstrument (inp.shareAcc code n)) s

def hasPrevious (n : ℕ) : Bool := (inp.window n).previous.isSome

def marketSummary (n : ℕ) : TieredFlowSummary :=
  { inp.tally (summarizeAcc (inp.marketAcc n) (inp.window n)) inp.codes n with
    valueSharePct := if (inp.marketAcc n).value > 0 then some (fp 100) else none
    coverage := some (coverageItem (inp.marketCov n).1 (inp.marketCov n).2 (inp.hasPrevious n)) }

def sectorSummary (sec : String) (n : ℕ) : TieredFlowSummary :=
  let a := inp.sectorAcc sec n
  let cov := inp.sectorCov sec n
  let s := inp.tally (summarizeAcc a (inp.window n)) (inp.sectorMembers sec) n
  let s := { s with coverage := some (coverageItem cov.1 cov.2 (inp.hasPrevious n)) }
  if a.consistent > 0 then
    s.setCoveredValueShare
      { who := .sector, cur := a.value, whole := (inp.marketAcc n).value
        prev := inp.books.sectorPrev sec n, prevWhole := inp.books.marketPrev n
        prevRows := inp.books.sectorPrevRows sec n, cov := cov.1, prevCov := cov.2
        enclosing := none, enclosingWho := .itsSector } (inp.hasPrevious n)
  else s

def windows : List ℕ := flowWindows.filter (fun n ↦ (inp.window n).available)

def blockSpans : List (ℕ × Span) :=
  (List.range inp.nBlocks).reverse.filterMap (fun b ↦
    (spanOf inp.calendar.sessions (b * blockSessions) blockSessions).map (b, ·))

def sectorItem (sec : String) : SectorFlowItem where
  sectorCode := sec
  nameFA := (inp.sectorName sec).nameFA
  nameEN := (inp.sectorName sec).nameEN
  indexInsCode := inp.sectorIndex sec
  instruments := (inp.sectorMembers sec).countP inp.withRows
  listed := inp.shares.countP (fun m ↦ m.listed ∧ m.sectorCode = sec)
  shares := (inp.sectorMembers sec).length
  windows := inp.windows.map (fun n ↦ (n, ⟨inp.sectorSummary sec n,
    sectorIndexReturn (inp.sectorIndex sec) inp.indexSeries (inp.window n)⟩))
  blocks := inp.blockSpans.map (fun b ↦
    blockOf (inp.books.sectorBlocks sec b.1) (inp.books.marketBlocks b.1) b.2)

def shareItem (code : String) (n : ℕ) (w : Span) : ShareFlowItem :=
  let m := inp.metaOf code
  let a := inp.shareAcc code n
  let sec := m.sectorCode
  { insCode := code, symbol := m.symbol, nameFA := m.nameFA, market := m.market, board := m.board
    companyCode := m.companyCode, sectorCode := sec, listed := m.listed, inRoster := m.inRoster
    rosterSymbol := if m.inRoster then some m.rosterSymbol else none
    summary := ((summarizeAcc a (inp.window n)).countInstrument a).setCoveredValueShare
      { who := .share, cur := a.value, whole := (inp.sectorAcc sec n).value
        prev := 0, prevWhole := 0, prevRows := 0, cov := (inp.coverageIn code n).1
        prevCov := .empty, enclosing := some (inp.sectorCov sec n).1
        enclosingWho := .itsSector } false
    change := inp.changeIn code n w
    tradedSessions := (inp.pricedIn code n).1
    flowNotStored := (inp.pricedIn code n).2 }

def itemBefore (n : ℕ) (a b : ShareFlowItem) : Prop :=
  (inp.shareAcc b.insCode n).value < (inp.shareAcc a.insCode n).value ∨
    ((inp.shareAcc a.insCode n).value = (inp.shareAcc b.insCode n).value ∧ a.symbol ≤ b.symbol)

instance (n : ℕ) : DecidableRel (inp.itemBefore n) := fun _ _ ↦ by
  unfold itemBefore
  infer_instance

def shareItems (sec : String) (n : ℕ) (w : Span) : List ShareFlowItem :=
  ((inp.sectorMembers sec).map (fun code ↦ inp.shareItem code n w)).insertionSort
    (inp.itemBefore n)

end SectorFlowInput

end Reporting

section Companies

namespace SectorFlowInput

variable (inp : SectorFlowInput)

def keyOf (code : String) : String := companyKey (inp.metaOf code)

def valueOf (code : String) (n : ℕ) : ℚ :=
  if code ∈ inp.codes then (inp.shareAcc code n).value else 0

/-- `a` is a better main board to show than `b`. -/
def better (n : ℕ) (a b : String) : Bool :=
  if (inp.metaOf a).listed ≠ (inp.metaOf b).listed then (inp.metaOf a).listed
  else if inp.valueOf a n ≠ inp.valueOf b n then inp.valueOf b n < inp.valueOf a n
  else a < b

def mainBoards (key : String) : List String :=
  ((inp.shares.map ShareMeta.insCode).dedup).filter (fun code ↦
    (inp.metaOf code).board = "main" ∧ inp.keyOf code = key)

def mainBoard (key : String) (n : ℕ) : Option String :=
  (inp.mainBoards key).foldl (keepBetter (inp.better n)) none

def companyKeys : List String := keys inp.keyOf inp.codes

def companyMembers (key : String) : List String :=
  inp.codes.filter (fun code ↦ inp.keyOf code = key)

def companyAcc (key : String) (n : ℕ) : FlowAcc :=
  (inp.companyMembers key).foldl (fun a code ↦ a.merge (inp.shareAcc code n)) .empty

def boardOrder (board : String) : ℕ :=
  if board = "block" then 1 else if board = "secondary" then 2 else if board = "other" then 3 else 0

def boardsOf (key : String) (n : ℕ) : List String :=
  let named := (inp.companyMembers key).filter (fun code ↦ (inp.shareAcc code n).consistent > 0)
  (named.foldl (fun boards code ↦
    let b := (inp.metaOf code).board
    if b ∈ boards then boards else boards ++ [b]) []).insertionSort
      (fun a b ↦ boardOrder a ≤ boardOrder b)

def mostTraded (n : ℕ) : Option String → String → Option String
  | none, code => some code
  | some shown, code => some (if inp.valueOf shown n < inp.valueOf code n then code else shown)

def shownOf (key : String) (n : ℕ) : Option String :=
  (inp.mainBoard key n).orElse (fun _ ↦ (inp.companyMembers key).foldl (inp.mostTraded n) none)

def companyItem (key shown : String) (n : ℕ) (w : Span) : CompanyFlowItem :=
  let m := inp.metaOf shown
  let acc := inp.companyAcc key n
  let members := inp.companyMembers key
  { companyCode := m.companyCode, insCode := shown, symbol := m.symbol, nameFA := m.nameFA
    board := m.board, sectorCode := m.sectorCode
    sectorNameFA := (inp.sectorName m.sectorCode).nameFA
    sectorNameEN := (inp.sectorName m.sectorCode).nameEN
    boards := inp.boardsOf key n, inRoster := m.inRoster
    rosterSymbol := if m.inRoster then some m.rosterSymbol else none
    summary := (inp.tally (summarizeAcc acc (inp.window n)) members n).setCoveredValueShare
      { who := .company, cur := acc.value, whole := (inp.marketAcc n).value
        prev := 0, prevWhole := 0, prevRows := 0, cov := (inp.coverageOver members n).1
        prevCov := .empty, enclosing := none, enclosingWho := .itsSector } false
    change :=
      if shown ∈ inp.codes then inp.changeIn shown n w
      else chainLinkedChange (inp.pricesOf shown) [] w none }

def buildCompanies (n : ℕ) (w : Span) : List CompanyFlowItem :=
  (inp.companyKeys.filter (fun key ↦ (inp.companyAcc key n).consistent ≠ 0)).filterMap (fun key ↦
    (inp.shownOf key n).map (fun shown ↦ inp.companyItem key shown n w))

end SectorFlowInput

namespace CompanyFlowItem

def net (c : CompanyFlowItem) : ℚ := c.summary.netIndividualToman.getD 0

def value (c : CompanyFlowItem) : ℚ := c.summary.totalValueToman.getD 0

def Before (flow : CompanyFlowItem → ℚ) (a b : CompanyFlowItem) : Prop :=
  toLex (-flow a, toLex (-a.value, toLex (a.symbol, a.insCode))) ≤
    toLex (-flow b, toLex (-b.value, toLex (b.symbol, b.insCode)))

instance (flow : CompanyFlowItem → ℚ) : DecidableRel (Before flow) := fun _ _ ↦ by
  unfold Before
  infer_instance

end CompanyFlowItem

structure TopFlows where
  inflow : List CompanyFlowItem
  outflow : List CompanyFlowItem

def topOf (companies : List CompanyFlowItem) (k : ℕ) : TopFlows where
  inflow := ((companies.filter (fun c ↦ c.net > 0)).insertionSort
    (CompanyFlowItem.Before CompanyFlowItem.net)).take k
  outflow := ((companies.filter (fun c ↦ c.net < 0)).insertionSort
    (CompanyFlowItem.Before (fun c ↦ -c.net))).take k

end Companies

section Response

structure DateCoverage where
  date : Date
  tradedShares : ℕ
  dayFile : Bool
  dayFileTradedShares : ℕ
  withFlow : ℕ
  sharePct : Option ℚ
  valuePct : Option ℚ
  reason : Option WhyNot

def coverageOf (x : SessionCount) : DateCoverage where
  date := dayString x.day
  tradedShares := x.traded
  dayFile := x.dayFile
  dayFileTradedShares := x.dayTraded
  withFlow := x.covered
  sharePct := x.shareCoverage.map (fun p ↦ fp (p * 100))
  valuePct := x.valueCoverage.map (fun p ↦ fp (p * 100))
  reason := if x.marketSession then none else some x.whyNot

structure SectorFlowCoverage where
  marketWide : Bool
  newest : Option DateCoverage
  newestSession : Option Date
  instrumentsWithRowsNewest : ℕ
  sessionsAvailable : ℕ
  instrumentsKnown : ℕ
  instrumentsListed : ℕ
  rosterInstruments : ℕ
  newestStored : Option DateCoverage
  thinDatesAfterNewest : ℕ
  newestThin : Option DateCoverage
  thinDatesSkipped : ℕ
  newestDayFile : Option DateCoverage
  dayFilesStored : ℕ

def MarketCalendar.marketWide (c : MarketCalendar) : Bool := !c.sessions.isEmpty

def buildCoverage (cal : MarketCalendar) (shares : List ShareMeta) : SectorFlowCoverage where
  marketWide := cal.marketWide
  newest := if cal.marketWide then cal.counts.head?.map coverageOf else none
  newestSession := cal.sessions.head?.map dayString
  instrumentsWithRowsNewest :=
    if cal.marketWide then (cal.counts.head?.map SessionCount.rows).getD 0 else 0
  sessionsAvailable := cal.sessions.length
  instrumentsKnown := shares.length
  instrumentsListed := shares.countP ShareMeta.listed
  rosterInstruments := shares.countP ShareMeta.inRoster
  newestStored := cal.newestStored.map coverageOf
  thinDatesAfterNewest := cal.thinAfterNewest
  newestThin := cal.newestThin.map coverageOf
  thinDatesSkipped := cal.thinSkipped
  newestDayFile := cal.newestDayFile.map coverageOf
  dayFilesStored := cal.dayFiles

inductive DayFileNote
  | nothingSaid
  | noneStored
  | newest (day : Date) (why : WhyNot) (stored : ℕ)

inductive Note
  | notIngested
  | notMarketSession (day : Date) (why : WhyNot) (files : DayFileNote)
  | zeroSum
  | checkedBefore (identityPct barPct : ℚ)
  | sessionRule (minShares : ℕ) (coveragePct : ℚ)
  | membership
  | delisted
  | boards
  | chained
  | buyerPower
  | noForecast
  | thinAfter (dates : ℕ) (after newest : Date) (why : WhyNot)
  | thinBetween (dates minShares : ℕ) (coveragePct : ℚ)

def notMarketWideNotes (cal : MarketCalendar) : List Note :=
  match cal.newestStored with
  | none => [.notIngested, .zeroSum]
  | some x =>
    let files : DayFileNote := match cal.newestDayFile with
      | none => .noneStored
      | some f =>
        if f.day = x.day then .nothingSaid else .newest (dayString f.day) f.whyNot cal.dayFiles
    [.notMarketSession (dayString x.day) x.whyNot files, .zeroSum]

def marketWideNotes (cal : MarketCalendar) : List Note :=
  [.zeroSum, .checkedBefore (identityTolerance * 100) (barTolerance * 100),
    .sessionRule minMarketShares (minFlowCoverage * 100), .membership, .delisted, .boards,
    .chained, .buyerPower, .noForecast] ++
  (match cal.newestThin, cal.sessions.head? with
    | some x, some newest =>
      if cal.thinAfterNewest > 0 then
        [.thinAfter cal.thinAfterNewest (dayString newest) (dayString x.day) x.whyNot]
      else []
    | _, _ => []) ++
  (if cal.thinSkipped > 0 then
    [.thinBetween cal.thinSkipped minMarketShares (minFlowCoverage * 100)]
  else [])

structure SectorFlowsResponse where
  sessions : List (ℕ × SessionWindowItem)
  market : List (ℕ × TieredFlowSummary)
  sectors : List SectorFlowItem
  blocks : List (Date × Date)
  marketBlocks : List FlowBlock
  top : List (ℕ × TopFlows)
  coverage : SectorFlowCoverage
  identityTolerancePct : ℚ
  sessionValueTolerancePct : ℚ
  notes : List Note

structure SectorFlowsBuilt where
  resp : SectorFlowsResponse
  newest : Option Instant
  windows : List (ℕ × SessionWindow)
  shares : List (String × List (ℕ × List ShareFlowItem))

def SectorFlowInput.spans (inp : SectorFlowInput) : List (ℕ × Span) :=
  flowWindows.filterMap (fun n ↦ (inp.window n).span.map (n, ·))

def buildSectorFlows (inp : SectorFlowInput) : SectorFlowsBuilt :=
  let cal := inp.calendar
  let sessions := flowWindows.map (fun n ↦ (n, (inp.window n).item cal.sessions.length))
  let windows := flowWindows.map (fun n ↦ (n, inp.window n))
  let coverage := buildCoverage cal inp.shares
  if ¬cal.marketWide then
    { resp :=
        { sessions := sessions, market := [], sectors := [], blocks := [], marketBlocks := []
          top := [], coverage := coverage, identityTolerancePct := identityTolerance * 100
          sessionValueTolerancePct := barTolerance * 100, notes := notMarketWideNotes cal }
      newest := cal.newestStored.map SessionCount.day
      windows := windows
      shares := [] }
  else
    { resp :=
        { sessions := sessions
          market := inp.spans.map (fun w ↦ (w.1, inp.marketSummary w.1))
          sectors := inp.secCodes.map inp.sectorItem
          blocks := inp.blockSpans.map (fun b ↦ b.2.days)
          marketBlocks := inp.blockSpans.map (fun b ↦
            blockOf (inp.books.marketBlocks b.1) (inp.books.marketBlocks b.1) b.2)
          top := inp.spans.map (fun w ↦
            (w.1, topOf (inp.buildCompanies w.1 w.2) topCompanies))
          coverage := coverage, identityTolerancePct := identityTolerance * 100
          sessionValueTolerancePct := barTolerance * 100, notes := marketWideNotes cal }
      newest := cal.sessions.head?
      windows := windows
      shares := inp.secCodes.map (fun sec ↦
        (sec, inp.spans.map (fun w ↦ (w.1, inp.shareItems sec w.1 w.2)))) }

end Response

end TalaPala.Bourse
