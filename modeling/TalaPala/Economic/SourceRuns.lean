import TalaPala.Economic.TwoSources

namespace TalaPala.Economic

open Library Library.Transition List

section Overlap

variable {db : Database} {code : CbiCode} {history : List HistoryPoint} {asOf : Instant}
  {overlap : CbiCode → List HistoryPoint} {codes : List CbiCode}

theorem checkOverlap_error (hcode : code ∈ codes) (hstrict : code ∈ strictOverlapCodes)
    (h : (overlapOf db code (overlap code) asOf).disagreements ≠ []) :
    ∃ e, checkOverlap db overlap asOf codes = .error e := by
  induction codes with
  | nil => cases hcode
  | cons code' codes ih =>
    rw [checkOverlap]
    rcases mem_cons.mp hcode with rfl | hcode
    · split
      · exact ⟨_, if_pos hstrict⟩
      · rename_i hnil
        exact absurd hnil h
    · obtain ⟨e, he⟩ := ih hcode
      rw [he]
      split
      · split
        · exact ⟨_, rfl⟩
        · exact ⟨e, rfl⟩
      · exact ⟨e, rfl⟩

theorem disagreements_ne_nil {point : HistoryPoint} {item : Observation} {excel : ℚ}
    (hpoint : point ∈ history) (hitem : item ∈ db.pointInTime (.cbi code) asOf)
    (hlabel : item.refPeriodLabel = point.refPeriodLabel)
    (honly : ∀ other ∈ db.pointInTime (.cbi code) asOf,
      other.refPeriodLabel = point.refPeriodLabel → other = item)
    (hvalue : item.value = .finite excel) (hfar : overlapTolerance < |point.value - excel|) :
    (overlapOf db code history asOf).disagreements ≠ [] := by
  have hlast : lastOf (fun item ↦ item.refPeriodLabel = point.refPeriodLabel)
      (db.pointInTime (.cbi code) asOf) = some item := by
    cases hfound : lastOf (fun item ↦ item.refPeriodLabel = point.refPeriodLabel)
        (db.pointInTime (.cbi code) asOf) with
    | none => exact absurd hlabel (of_decide_eq_false (lastOf_eq_none.mp hfound item hitem))
    | some other =>
      obtain ⟨hother, hsame⟩ := mem_of_lastOf hfound
      rw [honly other hother (of_decide_eq_true hsame)]
  refine ne_nil_of_mem (a := Compared.mk point item.value item.method) ?_
  refine mem_filter.mpr ⟨mem_filterMap.mpr ⟨point, hpoint, ?_⟩, ?_⟩
  · rw [hlast, Option.map_some]
  · rw [Compared.agrees, hvalue]
    simpa using hfar

end Overlap

section Invariant

variable {files : String → SourceFile} {s : SourcesRun} {db db' : Database} {code : CbiCode}
  {start : Date} {r : Observation} {call : SourceCall}

def Database.mediaOf (db : Database) (row : Observation) : Option String :=
  (db.documentOf row).map Document.mediaType

structure Placed (db : Database) (start : Date) (r : Observation) (year month : ℤ) (value : ℚ) :
    Prop where
  month_mem : 1 ≤ month ∧ month ≤ 12
  start_eq : start = monthStart year month
  label : r.refPeriodLabel = periodLabel year month
  value_eq : r.value = .finite value
  source : db.mediaOf r = some (mediaTypeOf (excelCanCarry year month))

variable (files) in
def lastStated (accepted : List String) (code : CbiCode) (start : Date) : Option CbiObservation :=
  lastOf (fun p ↦ p.start = start) (accepted.flatMap (fun sha ↦ (files sha).states code))

variable (files s) in
structure SourcesRun.Inv : Prop where
  sound : s.db.Sound
  catalogued : ∀ d ∈ s.db.documents, d.providerCode = .cbi →
    d.mediaType = mediaTypeOf (files d.contentSha256).isWorkbook
  placed : ∀ code start, ∀ r ∈ s.db.rowsOf (.cbi code) start,
    ∃ year month value, Placed s.db start r year month value
  served : ∀ code start p, lastStated files s.accepted code start = some p →
    s.db.Says (.cbi code) start (.finite p.value) p.method

theorem SourcesRun.Inv.initial (hdb : db.Sound)
    (hempty : ∀ code start, db.rowsOf (.cbi code) start = [])
    (hdocuments : ∀ d ∈ db.documents, d.providerCode ≠ .cbi) :
    (SourcesRun.mk db []).Inv files where
  sound := hdb
  catalogued d hd hprovider := absurd hprovider (hdocuments d hd)
  placed code start r hr := by
    have hnil : db.rowsOf (.cbi code) start = [] := hempty code start
    rw [hnil] at hr
    cases hr
  served _ _ _ h := by cases h

theorem Placed.of_prefix {year month : ℤ} {value : ℚ} (h : Placed db start r year month value)
    (hdocuments : db.documents <+: db'.documents) : Placed db' start r year month value := by
  refine { h with source := ?_ }
  obtain ⟨d, hd, hmedia⟩ := Option.map_eq_some_iff.mp h.source
  exact Option.map_eq_some_iff.mpr ⟨d, documentOf_extended hdocuments hd, hmedia⟩

theorem SourcesRun.Inv.document (h : s.Inv files) {document : Document}
    (hprovider : document.providerCode = .cbi)
    (hmedia : document.mediaType = mediaTypeOf (files document.contentSha256).isWorkbook) :
    (∀ d ∈ (recordSourceDocument s.db document).1.documents, d.providerCode = .cbi →
      d.mediaType = mediaTypeOf (files d.contentSha256).isWorkbook) ∧
      ∃ d, (recordSourceDocument s.db document).1.documents[
        (recordSourceDocument s.db document).2.1]? = some d ∧
          d.mediaType = mediaTypeOf (files document.contentSha256).isWorkbook := by
  have hall : ∀ d ∈ (recordSourceDocument s.db document).1.documents, d.providerCode = .cbi →
      d.mediaType = mediaTypeOf (files d.contentSha256).isWorkbook := by
    intro d hd hcbi
    rcases mem_recordSourceDocument hd with hd | rfl
    · exact h.catalogued d hd hcbi
    · exact hmedia
  obtain ⟨d, hd, hget, hsame, -⟩ := recordSourceDocument_document s.db document
  rw [Document.sameContent, Bool.and_eq_true, decide_eq_true_eq, decide_eq_true_eq] at hsame
  exact ⟨hall, d, hget, hsame.2 ▸ hall d hd (hsame.1.trans hprovider)⟩

theorem lastStated_append (accepted : List String) (sha : String) :
    lastStated files (accepted ++ [sha]) code start =
      (lastOf (fun p ↦ p.start = start) ((files sha).states code)).or
        (lastStated files accepted code start) := by
  rw [lastStated, flatMap_append, flatMap_singleton, lastOf_append]
  rfl

theorem SourcesRun.Inv.post (h : s.Inv files) (hfirst : FromFirstEdition files call) :
    (s.post files call).Inv files := by
  rw [SourcesRun.post]
  split
  · exact h
  · rename_i db' hingest
    cases hdry : call.dryRun with
    | true => exact h
    | false =>
      rw [if_neg Bool.false_ne_true]
      obtain ⟨document, hprovider, hsha, hmedia, henters, hprinted⟩ :=
        ingestSource_ok hingest hdry hfirst
      rw [← hsha] at henters hprinted hmedia
      obtain ⟨hsound, hdocuments, -⟩ := henters.sound h.sound
      obtain ⟨hcatalogued, d, hget, hkind⟩ := h.document hprovider hmedia
      have hprefix : s.db.documents <+: db'.documents := hdocuments ▸ recordSourceDocument_prefix
      refine ⟨hsound, hdocuments ▸ hcatalogued, fun code start r hr ↦ ?_,
        fun code start p hlast ↦ ?_⟩
      · rcases henters.rowsOf h.sound hr with hold | ⟨p, hp, hstart, hlabel, hvalue, hsource⟩
        · obtain ⟨year, month, value, hplaced⟩ := h.placed code start r hold
          exact ⟨year, month, value, hplaced.of_prefix hprefix⟩
        · obtain ⟨hmonth, hmonth_start, hcarried⟩ := hprinted code p hp
          refine ⟨p.year, p.month, p.value, hmonth, hstart ▸ hmonth_start, hlabel, hvalue, ?_⟩
          dsimp only
          rw [Database.mediaOf, Database.documentOf, hsource, Option.bind_some, hdocuments, hget,
            Option.map_some, hkind, hcarried]
      · rw [← hsha, lastStated_append] at hlast
        cases hprints : lastOf (fun p ↦ p.start = start)
            ((files document.contentSha256).states code) with
        | none =>
          rw [hprints] at hlast
          exact (h.served code start p hlast).congr (henters.frame h.sound hprints)
        | some q =>
          rw [hprints] at hlast
          obtain rfl := Option.some.inj hlast
          exact henters.serves h.sound hprints

end Invariant

section Apart

variable {files : String → SourceFile} {s : SourcesRun} {db : Database} {call : SourceCall}
  {rows : List PayloadRow} {asOf : Instant}

def SourcesRun.OneSource (s : SourcesRun) : Prop :=
  ∀ code start, ∃ isWorkbook, ∀ r ∈ s.db.rowsOf (.cbi code) start,
    s.db.mediaOf r = some (mediaTypeOf isWorkbook)

variable (files s) in
def SourcesRun.StillStates (sha : String) : Prop :=
  ∀ code, ∀ p ∈ (files sha).states code, ∀ q,
    lastStated files s.accepted code p.start = some q → q.value = p.value ∧ q.method = p.method

def DisagreesWith (db : Database) (rows : List PayloadRow) (asOf : Instant) : Prop :=
  ∃ row code month value item excel, .object row ∈ rows ∧ codeOf row.category = some code ∧
    code ∈ strictOverlapCodes ∧ row.Usable month value ∧
      excelCanCarry month.1 month.2 = true ∧
        db.ServedAsOf (.cbi code) (monthStart month.1 month.2) asOf item ∧
          item.value = .finite excel ∧ overlapTolerance < |value - excel|

theorem SourcesRun.Inv.oneSource (h : s.Inv files) : s.OneSource := by
  intro code start
  cases hrows : s.db.rowsOf (.cbi code) start with
  | nil => exact ⟨false, fun r hr ↦ absurd hr not_mem_nil⟩
  | cons first rest =>
    have hfirst : first ∈ s.db.rowsOf (.cbi code) start := hrows ▸ mem_cons_self
    obtain ⟨year, month, _, hplaced⟩ := h.placed code start first hfirst
    refine ⟨excelCanCarry year month, fun r hr ↦ ?_⟩
    obtain ⟨year', month', _, hplaced'⟩ := h.placed code start r (hrows ▸ hr)
    obtain ⟨rfl, rfl⟩ := monthStart_inj hplaced.month_mem hplaced'.month_mem
      (hplaced.start_eq.symm.trans hplaced'.start_eq)
    exact hplaced'.source

theorem SourcesRun.Inv.post_again (h : s.Inv files) (hfirst : FromFirstEdition files call)
    (haccepted : call.contentSha256 ∈ s.accepted)
    (hstill : s.StillStates files call.contentSha256) :
    (s.post files call).db.rows = s.db.rows := by
  rw [SourcesRun.post]
  split
  · rfl
  · rename_i db' hingest
    cases hdry : call.dryRun with
    | true => rfl
    | false =>
      rw [if_neg Bool.false_ne_true]
      obtain ⟨document, -, -, -, henters, -⟩ := ingestSource_ok hingest hdry hfirst
      refine henters.unchanged h.sound (fun code p hp ↦ ?_)
      cases hlast : lastStated files s.accepted code p.start with
      | none =>
        have hmem : p ∈ s.accepted.flatMap (fun sha ↦ (files sha).states code) :=
          mem_flatMap.mpr ⟨call.contentSha256, haccepted, hp⟩
        exact absurd rfl (of_decide_eq_false (lastOf_eq_none.mp hlast p hmem))
      | some q =>
        obtain ⟨hvalue, hmethod⟩ := hstill code p hp q hlast
        rw [← hvalue, ← hmethod]
        exact h.served code p.start q hlast

theorem SourcesRun.Inv.served_label (h : s.Inv files) {code : CbiCode} {month : Month}
    {item : Observation} (hmonth : 1 ≤ month.2 ∧ month.2 ≤ 12)
    (hitem : s.db.ServedAsOf (.cbi code) (monthStart month.1 month.2) asOf item) :
    item ∈ s.db.pointInTime (.cbi code) asOf ∧
      item.refPeriodLabel = periodLabel month.1 month.2 := by
  have hstart := (mem_rowsOf.mp hitem.mem).2.2
  obtain ⟨year, month', _, hplaced⟩ := h.placed _ _ item hitem.mem
  obtain ⟨rfl, rfl⟩ := monthStart_inj hmonth hplaced.month_mem hplaced.start_eq
  exact ⟨h.sound.mem_pointInTime_iff.mpr (hstart.symm ▸ hitem), hplaced.label⟩

theorem SourcesRun.Inv.only_item (h : s.Inv files) {code : CbiCode} {month : Month}
    {item other : Observation} (hmonth : 1 ≤ month.2 ∧ month.2 ≤ 12)
    (hitem : s.db.ServedAsOf (.cbi code) (monthStart month.1 month.2) asOf item)
    (hother : other ∈ s.db.pointInTime (.cbi code) asOf)
    (hlabel : other.refPeriodLabel = periodLabel month.1 month.2) : other = item := by
  obtain ⟨hmem, -⟩ := h.served_label hmonth hitem
  obtain ⟨year, month', _, hplaced⟩ :=
    h.placed _ _ other (h.sound.mem_pointInTime_iff.mp hother).mem
  obtain ⟨hyear, hmonth'⟩ := periodLabel_inj hplaced.month_mem hmonth
    (hplaced.label.symm.trans hlabel)
  refine inj_on_of_nodup_map pointInTime_starts hother hmem ?_
  rw [hplaced.start_eq, hyear, hmonth', (mem_rowsOf.mp hitem.mem).2.2]

theorem SourcesRun.Inv.refuses (h : s.Inv files) {post : HistoryPost}
    (hbad : ∀ file rows, files post.contentSha256 = .payload file → file.payload = .list rows →
      ¬ Passes rows ∨ DisagreesWith s.db rows post.started) :
    ∃ e, ingestSource files s.db (.history post) = .error e := by
  suffices hrefused : ∃ e, ingestCbiHistory (fun sha ↦ (files sha).history) s.db post =
      .error e by
    obtain ⟨e, he⟩ := hrefused
    exact ⟨.history e, by rw [ingestSource, he]⟩
  rw [ingestCbiHistory]
  split
  · exact ⟨_, rfl⟩
  · rename_i file hfile
    split
    · exact ⟨_, rfl⟩
    · rename_i points shape hparse
      obtain ⟨rows, hrows, hpasses, hmem⟩ := parseHistory_ok hparse
      rcases hbad file rows (SourceFile.history_ok hfile) hrows with hfails | hoff
      · exact absurd hpasses hfails
      · obtain ⟨row, code, month, value, item, excel, hrow, hcode, hstrict, husable, hcarry,
          hitem, hvalue, hfar⟩ := hoff
        have hmonth : 1 ≤ month.2 ∧ month.2 ≤ 12 := husable.month_mem
        obtain ⟨hserved, hlabel⟩ := h.served_label hmonth hitem
        have hpoint : HistoryPoint.mk code month.1 month.2 value ∈
            overlappingMonths points code :=
          mem_filter.mpr ⟨(hmem code _).mpr ⟨rfl, row, hrow, hcode, husable⟩, hcarry⟩
        have hlisted : code ∈ categoryCodes := by cases code <;> decide
        obtain ⟨e, he⟩ := checkOverlap_error hlisted hstrict (disagreements_ne_nil hpoint hserved
          hlabel (fun other hother hsame ↦ h.only_item hmonth hitem hother hsame) hvalue hfar)
        rw [he]
        exact ⟨e, rfl⟩

/-- The two sources never meet in a period, a file that still states what is
stored adds nothing, and a payload that is refused writes nothing. -/
theorem two_sources_apart (hdb : db.Sound)
    (hempty : ∀ code start, db.rowsOf (.cbi code) start = [])
    (hdocuments : ∀ d ∈ db.documents, d.providerCode ≠ .cbi) {calls : List SourceCall}
    (hrun : Run (fun s call ↦ some (s.post files call)) (fun _ call ↦ FromFirstEdition files call)
      ⟨db, []⟩ calls s) :
    s.OneSource ∧
    (∀ year month, 1 ≤ month ∧ month ≤ 12 → (excelCanCarry year month = true ↔
      ∃ e : Edition, (1 ≤ e.month ∧ e.month ≤ 12) ∧ firstExcelEdition ≤ e ∧
        (year, month) ∈ e.columns)) ∧
    (∀ call, FromFirstEdition files call → call.contentSha256 ∈ s.accepted →
      s.StillStates files call.contentSha256 → (s.post files call).db.rows = s.db.rows) ∧
    ∀ post : HistoryPost, (∀ file rows, files post.contentSha256 = .payload file →
      file.payload = .list rows → ¬ Passes rows ∨ DisagreesWith s.db rows post.started) →
        (∃ e, ingestSource files s.db (.history post) = .error e) ∧
          s.post files (.history post) = s := by
  have hinv : s.Inv files := by
    refine hrun.preserves (fun s call t hs hfirst hnext ↦ ?_)
      (.initial hdb hempty hdocuments)
    obtain rfl := Option.some.inj hnext
    exact hs.post hfirst
  refine ⟨hinv.oneSource, fun year month hmonth ↦ excelCanCarry_iff hmonth,
    fun call hfirst haccepted hstill ↦ hinv.post_again hfirst haccepted hstill, fun post hbad ↦ ?_⟩
  obtain ⟨e, he⟩ := hinv.refuses hbad
  exact ⟨⟨e, he⟩, by rw [SourcesRun.post, he]⟩

end Apart

section Example

def esfandRow (code : CbiCode) (value : ℚ) : PayloadRow :=
  .object
    { category := categoryId code
      amount := .number (.finite value)
      subFrequencyId := some quarterlySubfrequencyId
      unitId := some thousandBillionRialUnitId
      khDate := some (1396, 12)
      datePerYear := .number 1396 }

def esfandPayload (m2 : ℚ) : PayloadFile where
  payload := .list [esfandRow .liquidity m2, esfandRow .baseMoney 2000, esfandRow .moneyM1 1900,
    esfandRow .quasiMoney 13400]
  byteSize := 1024

def esfandFiles (sha256 : String) : SourceFile :=
  if sha256 = "history" then .payload (esfandPayload 15300)
  else if sha256 = "restated" then .payload (esfandPayload 15400)
  else if sha256 = "1399-04" then .workbook ⟨firstSpringEdition, 1024, none⟩
  else .unreadable "neither"

def esfandPost (sha256 : String) (started : Instant) : SourceCall :=
  .history { contentSha256 := sha256, started := started }

def springPost (started : Instant) : SourceCall :=
  .edition { contentSha256 := "1399-04", started := started } false

def mixedState : SourcesRun :=
  ((SourcesRun.mk .empty []).post esfandFiles (springPost 0)).post esfandFiles
    (esfandPost "history" 1)

def restatedState : SourcesRun := mixedState.post esfandFiles (esfandPost "restated" 2)

theorem esfandPost_from (sha256 : String) (started : Instant) :
    FromFirstEdition esfandFiles (esfandPost sha256 started) := by
  intro post dryRun hcall
  cases hcall

theorem springPost_from (started : Instant) :
    FromFirstEdition esfandFiles (springPost started) := by
  intro post dryRun hcall file hfile
  obtain ⟨rfl, -⟩ := SourceCall.edition.inj hcall
  have hworkbook : esfandFiles "1399-04" = .workbook ⟨firstSpringEdition, 1024, none⟩ := by
    rw [esfandFiles, if_neg (by decide), if_neg (by decide), if_pos rfl]
  obtain rfl := SourceFile.workbook.inj (hworkbook.symm.trans hfile)
  exact le_rfl

theorem two_sources_apart_mixed : mixedState.db.rows.length = 16 ∧ mixedState.OneSource := by
  have hrun : Run (fun s call ↦ some (s.post esfandFiles call))
      (fun _ call ↦ FromFirstEdition esfandFiles call) ⟨.empty, []⟩
      [springPost 0, esfandPost "history" 1] mixedState :=
    .cons (springPost_from 0) rfl (.cons (esfandPost_from "history" 1) rfl (.nil _))
  have hapart := two_sources_apart .empty (fun _ _ ↦ rfl)
    (fun _ hd ↦ absurd hd not_mem_nil) hrun
  exact ⟨by decide +kernel, hapart.1⟩

/-- A history that restates a stored quarter is a new vintage, and so is the
older one when it is posted again. -/
theorem restated_history_written :
    (mixedState.db.Says (.cbi .liquidity) (monthStart 1396 12) (.finite 15300) none ∧
      overlapTolerance < |(15400 : ℚ) - 15300| ∧
        restatedState.db.rows ≠ mixedState.db.rows) ∧
      "history" ∈ restatedState.accepted ∧
        (restatedState.post esfandFiles (esfandPost "history" 3)).db.rows ≠
          restatedState.db.rows := by
  decide +kernel

end Example

end TalaPala.Economic
