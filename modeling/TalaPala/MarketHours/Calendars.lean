import TalaPala.Library.Rounding

namespace TalaPala.MarketHours

open Library

/-- A session bound as the settings hold it, `HH:MM`. -/
structure HHMM where
  hour : ℕ
  minute : ℕ
  hour_lt : hour < 24
  minute_lt : minute < 60

def HHMM.minutes (t : HHMM) : ℤ := t.hour * 60 + t.minute

def tseOpen : HHMM := ⟨12, 0, by decide, by decide⟩

def tseClose : HHMM := ⟨18, 0, by decide, by decide⟩

def sourceTGJUHistory : String := "tgju_history"

def sourceTSETMCCloses : String := "tsetmc_cdn"

def dailyCloseStaleDays : ℤ := 4

def weeklyFetchStaleDays : ℤ := 10

namespace Go

/-! Instants and durations are nanoseconds here, as in `time.Time` and
`time.Duration`. -/

def alwaysOpen : List String := ["IR_GOLD_18K", "USD_IRT"]

def iranian : List String :=
  ["IR_COIN_EMAMI", "IR_SILVER_999", "IR_COIN_BAHAR", "IR_COIN_HALF", "IR_COIN_QUARTER",
    "IR_COIN_GERAMI", "IR_GOLD_24K", "IR_GOLD_MESGHAL"]

def tgjuDailyCloses : List String :=
  ["IR_SILVER_999", "IR_COIN_BAHAR", "IR_COIN_HALF", "IR_COIN_QUARTER", "IR_COIN_GERAMI",
    "IR_GOLD_24K", "IR_GOLD_MESGHAL"]

def weeklyFetchCloses : List String :=
  ["IR_SILVER_FUND_SILVER", "IR_SILVER_FUND_SIMIN", "IR_GOLD_FUND_KAHRABA"]

def isTSEFund (symbol : String) : Bool :=
  let parts := symbol.splitOn "_"
  decide (3 ≤ parts.length) && parts[0]? = some "IR" && parts[2]? = some "FUND"

def day : ℤ := 86400000000000

def hour : ℤ := 3600000000000

def minute : ℤ := 60000000000

def tehran : ℤ := 3 * hour + 30 * minute

/-- `Weekday` of a day since the epoch, Sunday 0. -/
def weekday (d : ℤ) : ℤ := (d + 4) % 7

def clockHour (t : ℤ) : ℤ := t % day / hour

def clockMinute (t : ℤ) : ℤ := t % hour / minute

def isOffDay (d : ℤ) : Bool := weekday d = 4 || weekday d = 5

/-- Whether the wall clock `lt` stands in a session of an open day. -/
def inSession (lt openM closeM : ℤ) : Bool :=
  if isOffDay (lt / day) then false
  else
    let m := clockHour lt * 60 + clockMinute lt
    decide (openM ≤ m) && decide (m < closeM)

def isOpen (symbol : String) (at' : ℤ) (open' close : HHMM) : Bool :=
  if alwaysOpen.contains symbol then true
  else if isTSEFund symbol then inSession (at' + tehran) tseOpen.minutes tseClose.minutes
  else if iranian.contains symbol then inSession (at' + tehran) open'.minutes close.minutes
  else if weekday (at' / day) = 5 then decide (clockHour at' < 21)
  else if weekday (at' / day) = 6 then false
  else if weekday (at' / day) = 0 then decide (22 ≤ clockHour at')
  else true

/-- The newest close of an open day at or before `at'`, in the last nine days. -/
def lastClose (at' closeM : ℤ) : ℤ :=
  ((List.range 9).findSome? (fun (i : ℕ) ↦
    let d := (at' + tehran) / day - i
    let closeT := d * day - tehran + closeM * minute
    if isOffDay d then none else if closeT ≤ at' then some closeT else none)).getD at'

def closureStartedAt (symbol : String) (at' : ℤ) (open' close : HHMM) : ℤ :=
  if isOpen symbol at' open' close then at'
  else if isTSEFund symbol then lastClose at' tseClose.minutes
  else if iranian.contains symbol then lastClose at' close.minutes
  else
    let daysBack := (weekday (at' / day) - 5 + 7).tmod 7
    let fri := (at' / day - daysBack) * day + 21 * hour
    if at' < fri then fri - 7 * day else fri

def dailyClose (symbol source : String) : Option ℤ :=
  if !(tgjuDailyCloses.contains symbol || weeklyFetchCloses.contains symbol) then none
  else if source = sourceTGJUHistory then some dailyCloseStaleDays
  else if source = sourceTSETMCCloses then some weeklyFetchStaleDays
  else if source = "" then
    if weeklyFetchCloses.contains symbol then some weeklyFetchStaleDays
    else some dailyCloseStaleDays
  else none

/-- `Sub` saturates; a whole number of days comes back whole from its hours. -/
def dailyCloseAgeDays (observedAt at' : ℤ) : ℤ :=
  (saturate64 (((at' + tehran) / day - observedAt / day) * day)).tdiv day

def acceptablyFreshFrom (symbol source : String) (observedAt at' staleMinutes : ℤ)
    (open' close : HHMM) : Bool :=
  match dailyClose symbol source with
  | some maxAge => decide (dailyCloseAgeDays observedAt at' ≤ maxAge)
  | none =>
    -- A product of two int64 durations keeps only its low 64 bits.
    let stale := wrap64 (staleMinutes * minute)
    if isOpen symbol at' open' close then decide (saturate64 (at' - observedAt) ≤ stale)
    else decide (closureStartedAt symbol at' open' close + wrap64 (-stale) ≤ observedAt)

end Go

namespace Python

/-! Instants and durations are microseconds here, as in `datetime`. -/

def alwaysOpenSymbols : List String := ["IR_GOLD_18K", "USD_IRT"]

def iranianSymbols : List String :=
  ["IR_COIN_EMAMI", "IR_SILVER_999", "IR_COIN_BAHAR", "IR_COIN_HALF", "IR_COIN_QUARTER",
    "IR_COIN_GERAMI", "IR_GOLD_24K", "IR_GOLD_MESGHAL"]

def globalSymbols : List String := ["XAUUSD", "XAGUSD", "BRENT_OIL", "DXY", "US10Y"]

def tgjuDailyCloses : List String :=
  ["IR_SILVER_999", "IR_COIN_BAHAR", "IR_COIN_HALF", "IR_COIN_QUARTER", "IR_COIN_GERAMI",
    "IR_GOLD_24K", "IR_GOLD_MESGHAL"]

def weeklyFetchCloses : List String :=
  ["IR_SILVER_FUND_SILVER", "IR_SILVER_FUND_SIMIN", "IR_GOLD_FUND_KAHRABA"]

def isTseFund (symbol : String) : Bool :=
  let parts := symbol.splitOn "_"
  decide (3 ≤ parts.length) && parts[0]? = some "IR" && parts[2]? = some "FUND"

def day : ℤ := 86400000000

def hour : ℤ := 3600000000

def minute : ℤ := 60000000

def tehran : ℤ := 3 * hour + 30 * minute

/-- `weekday()` of a day since the epoch, Monday 0. -/
def weekday (d : ℤ) : ℤ := (d + 3) % 7

def isOffDay (d : ℤ) : Bool := weekday d = 3 || weekday d = 4

def inSession (local' openT closeT : ℤ) : Bool :=
  if isOffDay (local' / day) then false
  else decide (openT ≤ local' % day) && decide (local' % day < closeT)

structure Settings where
  marketTehranOpen : HHMM
  marketTehranClose : HHMM
  marketTseOpen : HHMM
  marketTseClose : HHMM
  staleMinutes : ℤ

def isMarketOpen (symbol : String) (atUtc : ℤ) (settings : Settings) : Bool :=
  if alwaysOpenSymbols.contains symbol then true
  else if isTseFund symbol then
    inSession (atUtc + tehran) (settings.marketTseOpen.minutes * minute)
      (settings.marketTseClose.minutes * minute)
  else if iranianSymbols.contains symbol then
    inSession (atUtc + tehran) (settings.marketTehranOpen.minutes * minute)
      (settings.marketTehranClose.minutes * minute)
  else if globalSymbols.contains symbol then
    if weekday (atUtc / day) = 4 ∧ 21 * hour ≤ atUtc % day then false
    else if weekday (atUtc / day) = 5 then false
    else if weekday (atUtc / day) = 6 ∧ atUtc % day < 22 * hour then false
    else true
  else true

def lastClose (atUtc closeT : ℤ) : ℤ :=
  ((List.range 9).findSome? (fun (i : ℕ) ↦
    let d := (atUtc + tehran - i * day) / day
    let candidate := d * day + closeT - tehran
    if isOffDay d then none else if candidate ≤ atUtc then some candidate else none)).getD atUtc

def closureStartedAt (symbol : String) (atUtc : ℤ) (settings : Settings) : Option ℤ :=
  if isMarketOpen symbol atUtc settings then none
  else if isTseFund symbol then
    some (lastClose atUtc (settings.marketTseClose.minutes * minute))
  else if iranianSymbols.contains symbol then
    some (lastClose atUtc (settings.marketTehranClose.minutes * minute))
  else if globalSymbols.contains symbol then
    let daysBack := (weekday (atUtc / day) - 4) % 7
    let candidate := (atUtc - daysBack * day) / day * day + 21 * hour
    some (if atUtc < candidate then candidate - 7 * day else candidate)
  else none

def dailyCloseMaxAge (symbol : String) (source : Option String) : Option ℤ :=
  if !(tgjuDailyCloses.contains symbol || weeklyFetchCloses.contains symbol) then none
  else if source = some sourceTGJUHistory then some dailyCloseStaleDays
  else if source = some sourceTSETMCCloses then some weeklyFetchStaleDays
  else if source = none ∨ source = some "" then
    if weeklyFetchCloses.contains symbol then some weeklyFetchStaleDays
    else some dailyCloseStaleDays
  else none

def isAcceptablyFresh (symbol : String) (observedAt atUtc : ℤ) (settings : Settings)
    (source : Option String) : Bool :=
  match dailyCloseMaxAge symbol source with
  | some maxAge => decide ((atUtc + tehran) / day - observedAt / day ≤ maxAge)
  | none =>
    let tolerance := settings.staleMinutes * minute
    match closureStartedAt symbol atUtc settings with
    | none => decide (atUtc - observedAt ≤ tolerance)
    | some closureStart => decide (closureStart - tolerance ≤ observedAt)

end Python

def shared (symbol : String) : Bool :=
  Python.alwaysOpenSymbols.contains symbol || Python.iranianSymbols.contains symbol ||
    Python.isTseFund symbol || Python.globalSymbols.contains symbol

end TalaPala.MarketHours
