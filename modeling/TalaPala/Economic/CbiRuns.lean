import TalaPala.Economic.CbiEditions
import TalaPala.Library.Checked

namespace TalaPala.Economic

open Library List

section Site

structure MonthLink where
  edition : Edition
  excel : Bool

/-- The month list of a year, as `parse_month_list` reads it. -/
structure YearPage where
  year : ℤ
  months : List MonthLink
  failure : Option String
  of_year : ∀ link ∈ months, link.edition.year = year
  ascending : months.Pairwise (fun a b ↦ a.edition < b.edition)

structure Download where
  url : String
  filename : String
  contentSha256 : String

structure CbiSite where
  sectionFailure : Option String
  years : List YearPage
  ascending : years.Pairwise (fun a b ↦ a.year < b.year)
  download : Edition → Except String Download

def excelOf (links : List MonthLink) : List Edition :=
  (links.filter (fun link ↦ link.excel)).map MonthLink.edition

def CbiSite.excelEditions (site : CbiSite) : List Edition :=
  site.years.flatMap (fun page ↦ excelOf page.months)

def YearPage.since (page : YearPage) (since : Edition) : Except String (List Edition) :=
  match page.failure with
  | some reason => .error reason
  | none => .ok (excelOf (page.months.filter (fun link ↦ since ≤ link.edition)))

/-- The years before the first one that is asked for are not read. -/
def listedEditions (site : CbiSite) (since : Edition) : Except String (List Edition) :=
  match site.sectionFailure with
  | some reason => .error reason
  | none =>
    match (site.years.filter (fun page ↦ since.year ≤ page.year)).mapM
        (fun page ↦ page.since since) with
    | .error reason => .error reason
    | .ok pages => .ok pages.flatten

end Site

section Run

inductive RunMode
  | fetchLatest
  | backfill (start : Option Edition)

def RunMode.isBackfill : RunMode → Bool
  | .fetchLatest => false
  | .backfill _ => true

structure WebsiteRun where
  site : CbiSite
  mode : RunMode
  dryRun : Bool
  switchedOff : Bool
  clock : Edition → Instant
  finished : Instant
  interrupted : Edition → Bool

inductive EditionFailure
  | fetch (reason : String)
  | interrupted
  | ingest (e : CbiError)

inductive RunRefusal
  | switchedOff
  | backfillRequired
  | notAMonth
  | listing (reason : String)

def sinceEdition (db : Database) (mode : RunMode) : Except RunRefusal Edition :=
  match mode with
  | .fetchLatest =>
    match newestStoredEdition db with
    | none => .error .backfillRequired
    | some newest => .ok newest
  | .backfill none => .error .notAMonth
  | .backfill (some start) =>
    let requested := if start < firstExcelEdition then firstExcelEdition else start
    match newestStoredEdition db with
    | some newest => .ok (if requested < newest then newest else requested)
    | none => .ok requested

def runLinks (db : Database) (run : WebsiteRun) : Except RunRefusal (List Edition) :=
  if run.switchedOff then .error .switchedOff
  else
    match sinceEdition db run.mode with
    | .error e => .error e
    | .ok since =>
      match listedEditions run.site since with
      | .error reason => .error (.listing reason)
      | .ok links => .ok links

def WebsiteRun.post (run : WebsiteRun) (edition : Edition) (download : Download) : EditionPost where
  contentSha256 := download.contentSha256
  filename := download.filename
  url := download.url
  backfill := run.mode.isBackfill
  expected := some edition
  started := run.clock edition

variable (files : String → Except String EditionFile)

def ingestLink (run : WebsiteRun) (db : Database) (edition : Edition) :
    Except EditionFailure (Database × EditionReport) :=
  match run.site.download edition with
  | .error reason => .error (.fetch reason)
  | .ok download =>
    if run.interrupted edition then .error .interrupted
    else
      match ingestEditionFile files db (run.post edition download) with
      | .error e => .error (.ingest e)
      | .ok result => .ok result

structure Session where
  committed : Database
  working : Database

def Session.ingest (run : WebsiteRun) (session : Session) (edition : Edition) :
    Except EditionFailure (Session × EditionReport) :=
  match ingestLink files run session.working edition with
  | .error e => .error e
  | .ok (db, report) =>
    .ok (if run.dryRun then { session with working := db } else ⟨db, db⟩, report)

structure RunReport where
  newestStoredBefore : Option Edition
  editions : List EditionReport
  failed : Option (Edition × EditionFailure)
  totals : Counts

def ingestCbiMonetary (db : Database) (run : WebsiteRun) :
    Except RunRefusal (Database × RunReport) :=
  match runLinks db run with
  | .error e => .error e
  | .ok links =>
    let worked := workThrough (Session.ingest files run) ⟨db, db⟩ links
    .ok (worked.1.committed,
      { newestStoredBefore := newestStoredEdition db
        editions := worked.2.1
        failed := worked.2.2
        totals := (worked.2.1.map EditionReport.totals).foldl Counts.add .zero })

end Run

section Listing

variable {site : CbiSite} {since : Edition} {links : List Edition}

theorem excelOf_filter (l : List MonthLink) :
    excelOf (l.filter (fun link ↦ since ≤ link.edition)) =
      (excelOf l).filter (fun e ↦ since ≤ e) := by
  rw [excelOf, excelOf, filter_map, filter_filter, filter_filter]
  refine congrArg _ (filter_congr (fun link _ ↦ ?_))
  exact Bool.and_comm _ _

theorem mem_excelOf {l : List MonthLink} {e : Edition} (h : e ∈ excelOf l) :
    ∃ link ∈ l, link.edition = e := by
  obtain ⟨link, hlink, rfl⟩ := mem_map.mp h
  exact ⟨link, (mem_filter.mp hlink).1, rfl⟩

theorem listedEditions_ok (h : listedEditions site since = .ok links) :
    links = site.excelEditions.filter (fun e ↦ since ≤ e) := by
  rw [listedEditions] at h
  split at h
  · cases h
  · split at h
    · cases h
    · rename_i pages hpages
      obtain rfl := Except.ok.inj h
      have hread := forall₂_of_mapM hpages
      rw [CbiSite.excelEditions, filter_flatMap]
      generalize site.years = years at hread
      clear hpages h
      induction years generalizing pages with
      | nil =>
        cases hread
        rfl
      | cons page years ih =>
        rw [filter_cons] at hread
        by_cases hyear : since.year ≤ page.year
        · rw [if_pos (decide_eq_true hyear)] at hread
          cases hread with
          | cons hpage hrest =>
            rw [flatten_cons, ih _ hrest, flatMap_cons]
            congr 1
            rw [YearPage.since] at hpage
            split at hpage
            · cases hpage
            · rw [← Except.ok.inj hpage, excelOf_filter]
        · rw [if_neg (by simpa using hyear)] at hread
          rw [ih _ hread, flatMap_cons]
          have hnone : (excelOf page.months).filter (fun e ↦ since ≤ e) = [] := by
            refine filter_eq_nil_iff.mpr (fun e he hle ↦ ?_)
            obtain ⟨link, hlink, rfl⟩ := mem_excelOf he
            have hof := page.of_year link hlink
            have hle := Edition.le_iff.mp (of_decide_eq_true hle)
            omega
          rw [hnone, nil_append]

theorem runLinks_ok {db : Database} {run : WebsiteRun} (h : runLinks db run = .ok links) :
    ∃ since, sinceEdition db run.mode = .ok since ∧
      links = run.site.excelEditions.filter (fun e ↦ since ≤ e) := by
  rw [runLinks] at h
  split at h
  · cases h
  · split at h
    · cases h
    · rename_i since hsince
      split at h
      · cases h
      · rename_i listed hlisted
        obtain rfl := Except.ok.inj h
        exact ⟨since, hsince, listedEditions_ok hlisted⟩

theorem excelOf_ascending (page : YearPage) : (excelOf page.months).Pairwise (· < ·) := by
  rw [excelOf, pairwise_map]
  exact page.ascending.sublist filter_sublist

theorem CbiSite.excelEditions_ascending (site : CbiSite) :
    site.excelEditions.Pairwise (· < ·) := by
  rw [CbiSite.excelEditions, pairwise_flatMap]
  refine ⟨fun page _ ↦ excelOf_ascending page, site.ascending.imp (fun {a b} hlt e he f hf ↦ ?_)⟩
  obtain ⟨link, hlink, rfl⟩ := mem_excelOf he
  obtain ⟨link', hlink', rfl⟩ := mem_excelOf hf
  rw [← not_le, Edition.le_iff, a.of_year link hlink, b.of_year link' hlink']
  omega

theorem runLinks_ascending {db : Database} {run : WebsiteRun} (h : runLinks db run = .ok links) :
    links.Pairwise (· < ·) := by
  obtain ⟨since, -, rfl⟩ := runLinks_ok h
  exact run.site.excelEditions_ascending.sublist filter_sublist

end Listing

end TalaPala.Economic
