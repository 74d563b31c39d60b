import TalaPala.Portfolio.ExportReadsBack

namespace TalaPala.Portfolio

open Library Economic Liquidity.Float64

section Definitions

def ImportRow.request (row : ImportRow) : TxRequest :=
  ⟨row.tx.type, row.tx.grams, row.tx.karat, row.tx.pricePerGram, row.tx.currency, row.tx.fees,
    formatDate row.txDate, row.notes⟩

structure Admissible (row : ImportRow) : Prop where
  grams : ∃ q > 0, row.tx.grams = .finite q
  pricePerGram : ∃ q > 0, row.tx.pricePerGram = .finite q
  fees : ∃ q ≥ 0, row.tx.fees = .finite q
  accepted : validateTxRequest row.request = []

variable (letters : Letters) (floats : FloatText)

def headerAccepted (header : Csv.Record) : Bool :=
  match header.result with
  | .error _ => false
  | .ok cols => cols.map (fun col ↦ trimSpace (col.map letters.toLower)) = csvColumns

def dataRecords (text : Text) : List Csv.Record :=
  match Csv.read csvColumns.length text with
  | [] => []
  | header :: rest => if headerAccepted letters header then rest else []

def rejected (r : Csv.Record) : Bool :=
  match r.result with
  | .error _ => true
  | .ok rec => !(validateImportRecord letters floats rec).isOk

def refused (text : Text) : List ℕ :=
  match Csv.read csvColumns.length text with
  | [] => [0]
  | header :: rest =>
    if headerAccepted letters header then
      ((rest.zipIdx 1).filter (fun x ↦ rejected letters floats x.1)).map Prod.snd
    else [0]

/-- The physical line on which the `i`-th record of a file starts. -/
def physicalLine (text : Text) (i : ℕ) : ℕ :=
  (((Csv.read csvColumns.length text)[i]?).map Csv.Record.startLine).getD 1

structure SafeImport (text : Text) : Prop where
  rows : ∀ row ∈ (parseImportCSV letters floats text).1, Admissible row
  totals : ∀ price target, IsFinite price → IsFinite target →
    (compute ((parseImportCSV letters floats text).1.map ImportRow.tx) price target).Finite
  lines : (parseImportCSV letters floats text).2.map RowError.line =
    (refused letters floats text).map (physicalLine text)

def unbounded (v : Value) : Prop := v = .nan ∨ v = .infinite false

def ReadsAs (s : Text) (asked : ℚ → Prop) : Prop :=
  ∃ v, floats.parseFloat s = some v ∧ (unbounded v ∨ ∃ q, asked q ∧ v = .finite q)

def ReadsUnbounded (s : Text) : Prop := ∃ v, floats.parseFloat s = some v ∧ unbounded v

structure OtherwiseValid (rec : List Text) : Prop where
  length : rec.length = csvColumns.length
  type : (cell rec 0).map letters.toLower = "buy".toList ∨
    (cell rec 0).map letters.toLower = "sell".toList
  grams : ReadsAs floats (cell rec 1) (0 < ·)
  karat : ∃ k, atoi (cell rec 2) = some k ∧ validKarat k = true
  price : ReadsAs floats (cell rec 3) (0 < ·)
  currency : (cell rec 4).map letters.toUpper = "IRT".toList ∨
    (cell rec 4).map letters.toUpper = "IRR".toList
  fees : cell rec 5 = [] ∨ ReadsAs floats (cell rec 5) (0 ≤ ·)
  txDate : parseDate (cell rec 6) ≠ none
  notes_plain : isFormulaInjection (cell rec 7) = false
  notes_short : byteLength (cell rec 7) ≤ maxNotes

def Unbounded (rec : List Text) : Prop :=
  OtherwiseValid letters floats rec ∧ (ReadsUnbounded floats (cell rec 1) ∨
    ReadsUnbounded floats (cell rec 3) ∨
    (cell rec 5 ≠ [] ∧ ReadsUnbounded floats (cell rec 5)))

end Definitions

section Numbers

variable {v : Value}

theorem le_zero_eq_false_iff :
    le v (.finite 0) = false ↔ unbounded v ∨ ∃ q, 0 < q ∧ v = .finite q := by
  cases v with
  | finite x =>
    have hle : le (.finite x) (.finite 0 : Value) = (decide (x < 0) ||
        (decide ((.finite x : Value) = .finite 0) && decide ((.finite x : Value) ≠ .nan))) := rfl
    rw [hle]
    simp only [unbounded, Value.finite.injEq, reduceCtorEq, or_self, false_or, exists_eq_right',
      ne_eq, not_false_eq_true, decide_true, Bool.and_true, Bool.or_eq_false_iff,
      decide_eq_false_iff_not, not_lt]
    constructor
    · rintro ⟨hx, hne⟩
      exact lt_of_le_of_ne hx (Ne.symm hne)
    · exact fun hx ↦ ⟨hx.le, hx.ne'⟩
  | infinite n => cases n <;> simp [unbounded, le, Liquidity.ltValue]
  | nan => simp [unbounded, le, Liquidity.ltValue]

theorem lt_zero_eq_false_iff :
    lt v (.finite 0) = false ↔ unbounded v ∨ ∃ q, 0 ≤ q ∧ v = .finite q := by
  cases v with
  | finite x =>
    have hlt : lt (.finite x) (.finite 0 : Value) = decide (x < 0) := rfl
    rw [hlt, decide_eq_false_iff_not, not_lt]
    simp [unbounded]
  | infinite n => cases n <;> simp [unbounded, lt, Liquidity.ltValue]
  | nan => simp [unbounded, lt, Liquidity.ltValue]

theorem not_isFinite_of_unbounded (h : unbounded v) : ¬IsFinite v := by
  rintro ⟨q, rfl⟩
  rcases h with h | h <;> cases h

end Numbers

section Rows

variable {letters : Letters} {floats : FloatText} {rec : List Text} {row : ImportRow}

theorem otherwiseValid_iff :
    OtherwiseValid letters floats rec ↔ ∃ row, Admits letters floats rec row := by
  constructor
  · intro h
    obtain ⟨grams, hgrams, hgrams'⟩ := h.grams
    obtain ⟨karat, hkarat, hvalid⟩ := h.karat
    obtain ⟨price, hprice, hprice'⟩ := h.price
    obtain ⟨date, hdate⟩ := Option.ne_none_iff_exists'.mp h.txDate
    obtain ⟨fees, hfees⟩ : ∃ fees, if cell rec 5 = [] then fees = Value.finite 0
        else floats.parseFloat (cell rec 5) = some fees ∧ lt fees (.finite 0) = false := by
      split_ifs with hempty
      · exact ⟨_, rfl⟩
      · obtain ⟨fees, hfees, hfees'⟩ := h.fees.resolve_left hempty
        exact ⟨fees, hfees, lt_zero_eq_false_iff.mpr hfees'⟩
    exact ⟨⟨⟨_, grams, karat, price, fees, _⟩, date, _⟩, h.length, rfl, h.type, hgrams,
      le_zero_eq_false_iff.mpr hgrams', hkarat, hvalid, hprice, le_zero_eq_false_iff.mpr hprice',
      rfl, h.currency, hfees, hdate, rfl, h.notes_plain, h.notes_short⟩
  · rintro ⟨row, h⟩
    refine ⟨h.length, h.type ▸ h.type_valid, ⟨_, h.grams, le_zero_eq_false_iff.mp h.grams_pos⟩,
      ⟨_, h.karat, h.karat_valid⟩, ⟨_, h.price, le_zero_eq_false_iff.mp h.price_pos⟩,
      h.currency ▸ h.currency_valid, ?_, h.txDate ▸ Option.some_ne_none _,
      h.notes ▸ h.notes_plain, h.notes ▸ h.notes_short⟩
    have hfees := h.fees
    split_ifs at hfees with hempty
    · exact .inl hempty
    · exact .inr ⟨_, hfees.1, lt_zero_eq_false_iff.mp hfees.2⟩

theorem Admits.fees_nonneg (h : Admits letters floats rec row) :
    lt row.tx.fees (.finite 0) = false := by
  have hfees := h.fees
  split_ifs at hfees
  · rw [hfees]
    decide
  · exact hfees.2

theorem Admits.readsUnbounded_iff {s : Text} {v : Value} (h : floats.parseFloat s = some v) :
    ReadsUnbounded floats s ↔ unbounded v := by
  constructor
  · rintro ⟨w, hw, hunbounded⟩
    rw [h] at hw
    exact Option.some_inj.mp hw ▸ hunbounded
  · exact fun hunbounded ↦ ⟨v, h, hunbounded⟩

theorem Admits.unbounded_iff (h : Admits letters floats rec row) :
    Unbounded letters floats rec ↔
      unbounded row.tx.grams ∨ unbounded row.tx.pricePerGram ∨ unbounded row.tx.fees := by
  have hfees : (cell rec 5 ≠ [] ∧ ReadsUnbounded floats (cell rec 5)) ↔ unbounded row.tx.fees := by
    have hfees := h.fees
    split_ifs at hfees with hempty
    · refine iff_of_false (fun hcell ↦ hcell.1 hempty) ?_
      rw [hfees]
      rintro (hzero | hzero) <;> cases hzero
    · rw [readsUnbounded_iff hfees.1]
      exact and_iff_right hempty
  rw [Unbounded, readsUnbounded_iff h.grams, readsUnbounded_iff h.price, hfees]
  exact and_iff_right (otherwiseValid_iff.mpr ⟨row, h⟩)

theorem Admits.accepted (h : Admits letters floats rec row) :
    validateTxRequest row.request = [] := by
  rw [validateTxRequest_eq_nil_iff]
  refine ⟨h.type_valid, h.grams_pos, h.karat_valid, h.price_pos, h.currency_valid, h.fees_nonneg,
    ?_, h.notes_short⟩
  rw [ImportRow.request, parseDate_formatDate h.txDate]
  exact Option.some_ne_none _

theorem Admits.admissible_iff (h : Admits letters floats rec row) :
    Admissible row ↔ ¬Unbounded letters floats rec := by
  rw [h.unbounded_iff]
  constructor
  · rintro ⟨⟨q, -, hgrams⟩, ⟨q', -, hprice⟩, ⟨q'', -, hfees⟩, -⟩ hunbounded
    rcases hunbounded with hv | hv | hv
    · exact not_isFinite_of_unbounded hv ⟨q, hgrams⟩
    · exact not_isFinite_of_unbounded hv ⟨q', hprice⟩
    · exact not_isFinite_of_unbounded hv ⟨q'', hfees⟩
  · intro hbounded
    rw [not_or, not_or] at hbounded
    exact ⟨(le_zero_eq_false_iff.mp h.grams_pos).resolve_left hbounded.1,
      (le_zero_eq_false_iff.mp h.price_pos).resolve_left hbounded.2.1,
      (lt_zero_eq_false_iff.mp h.fees_nonneg).resolve_left hbounded.2.2, h.accepted⟩

theorem Admissible.finite (h : Admissible row) : row.tx.Finite := by
  obtain ⟨⟨q, -, hgrams⟩, ⟨q', -, hprice⟩, ⟨q'', -, hfees⟩, -⟩ := h
  exact ⟨⟨q, hgrams⟩, ⟨q', hprice⟩, ⟨q'', hfees⟩⟩

theorem mem_importRecords (line : ℕ) (records : List Csv.Record) :
    row ∈ (importRecords letters floats line records).1 ↔
      ∃ r ∈ records, ∃ rec, r.result = .ok rec ∧ Admits letters floats rec row := by
  induction records generalizing line with
  | nil => simp [importRecords]
  | cons r records ih =>
    rw [importRecords, List.exists_mem_cons_iff, ← ih (line + 1)]
    cases hresult : r.result with
    | error e => simp
    | ok rec =>
      simp only [Except.ok.injEq, exists_eq_left']
      rw [← validateImportRecord_eq_ok_iff]
      cases hvalidate : validateImportRecord letters floats rec with
      | error reason => simp
      | ok row' => simp [eq_comm]

theorem lines_importRecords (line : ℕ) (records : List Csv.Record) :
    (importRecords letters floats line records).2.map RowError.line =
      ((records.zipIdx line).filter (fun x ↦ rejected letters floats x.1)).map Prod.snd := by
  induction records generalizing line with
  | nil => rfl
  | cons r records ih =>
    rw [importRecords, List.zipIdx_cons, List.filter_cons]
    cases hresult : r.result with
    | error e => simp [rejected, hresult, ih]
    | ok rec =>
      cases hvalidate : validateImportRecord letters floats rec with
      | error reason => simp [rejected, hresult, hvalidate, ih, Except.isOk, Except.toBool]
      | ok row' => simp [rejected, hresult, hvalidate, ih, Except.isOk, Except.toBool]

end Rows

section Whole

variable {letters : Letters} {floats : FloatText} {text : Text}

theorem parseImportCSV_of_accepted {header : Csv.Record} {rest : List Csv.Record}
    (hread : Csv.read csvColumns.length text = header :: rest)
    (h : headerAccepted letters header = true) :
    parseImportCSV letters floats text = importRecords letters floats 2 rest := by
  rw [parseImportCSV, hread]
  obtain ⟨startLine, error | cols⟩ := header
  · cases h
  · exact if_pos (of_decide_eq_true h)

theorem parseImportCSV_of_refused (floats : FloatText) {header : Csv.Record} {rest : List Csv.Record}
    (hread : Csv.read csvColumns.length text = header :: rest)
    (h : headerAccepted letters header = false) :
    ∃ reason, parseImportCSV letters floats text = headerError reason := by
  rw [parseImportCSV, hread]
  obtain ⟨startLine, error | cols⟩ := header
  · exact ⟨_, rfl⟩
  · exact ⟨_, if_neg (of_decide_eq_false h)⟩

theorem mem_rows {row : ImportRow} : row ∈ (parseImportCSV letters floats text).1 ↔
    ∃ r ∈ dataRecords letters text, ∃ rec, r.result = .ok rec ∧ Admits letters floats rec row := by
  rw [dataRecords]
  cases hread : Csv.read csvColumns.length text with
  | nil =>
    rw [parseImportCSV, hread]
    simp [headerError]
  | cons header rest =>
    cases hheader : headerAccepted letters header with
    | true =>
      rw [parseImportCSV_of_accepted hread hheader]
      simpa only [hheader, if_true] using mem_importRecords 2 rest
    | false =>
      obtain ⟨reason, hrefused⟩ := parseImportCSV_of_refused floats hread hheader
      rw [hrefused]
      simp [headerError, hheader]

theorem lines_errors : (parseImportCSV letters floats text).2.map RowError.line =
    (refused letters floats text).map (· + 1) := by
  rw [refused]
  cases hread : Csv.read csvColumns.length text with
  | nil =>
    rw [parseImportCSV, hread]
    rfl
  | cons header rest =>
    cases hheader : headerAccepted letters header with
    | true =>
      have hlines := @lines_importRecords letters floats 2 rest
      have hshift : rest.zipIdx 2 = (rest.zipIdx 1).map (Prod.map id (· + 1)) := by
        rw [List.map_snd_add_zipIdx_eq_zipIdx]
      rw [parseImportCSV_of_accepted hread hheader, hlines, hshift, List.filter_map, List.map_map]
      simp only [hheader, if_true, List.map_map]
      rfl
    | false =>
      obtain ⟨reason, hrefused⟩ := parseImportCSV_of_refused floats hread hheader
      rw [hrefused]
      simp [headerError, hheader]

theorem physicalLine_eq (text : Text) (i : ℕ) : physicalLine text i =
    (((Csv.straysBefore text)[i]?).map (fun strays ↦ i + 1 + strays)).getD 1 := by
  have hlines := congrArg (·[i]?) (Csv.startLine_read (n := csvColumns.length) text)
  rw [List.getElem?_map, List.getElem?_mapIdx] at hlines
  rw [physicalLine, hlines]

theorem lt_of_mem_refused {i : ℕ} (h : i ∈ refused letters floats text) :
    i = 0 ∨ i < (Csv.straysBefore text).length := by
  have hlength := congrArg List.length (Csv.startLine_read (n := csvColumns.length) text)
  rw [List.length_map, List.length_mapIdx] at hlength
  rw [← hlength]
  rw [refused] at h
  cases hread : Csv.read csvColumns.length text with
  | nil => simp_all
  | cons header rest =>
    simp only [hread] at h
    split_ifs at h
    · obtain ⟨⟨r, i⟩, hmem, rfl⟩ := List.mem_map.mp h
      have hmem := List.mem_zipIdx (List.mem_of_mem_filter hmem)
      rw [List.length_cons]
      exact .inr (by omega)
    · exact .inl (List.mem_singleton.mp h)

theorem line_right_iff {i : ℕ} (h : i ∈ refused letters floats text) :
    i + 1 = physicalLine text i ↔ (Csv.straysBefore text).getD i 0 = 0 := by
  rw [physicalLine_eq, List.getD_eq_getElem?_getD]
  cases hstrays : (Csv.straysBefore text)[i]? with
  | none =>
    have hzero : i = 0 := (lt_of_mem_refused h).resolve_right
      (not_lt.mpr (List.getElem?_eq_none_iff.mp hstrays))
    simp [hzero]
  | some strays =>
    simp only [Option.map_some, Option.getD_some]
    omega

end Whole

section SafeImport

variable (letters : Letters) (floats : FloatText)

/-- An import is safe when no record brings a number without bounds and no refused one has
a blank line, or a line break between quotes, before it. -/
theorem safeImport_iff (text : Text) : SafeImport letters floats text ↔
    (∀ r ∈ dataRecords letters text, ∀ rec, r.result = .ok rec → ¬Unbounded letters floats rec) ∧
      ∀ i ∈ refused letters floats text, (Csv.straysBefore text).getD i 0 = 0 := by
  have hlines : (parseImportCSV letters floats text).2.map RowError.line =
      (refused letters floats text).map (physicalLine text) ↔
      ∀ i ∈ refused letters floats text, (Csv.straysBefore text).getD i 0 = 0 := by
    rw [lines_errors, List.map_inj_left]
    exact forall₂_congr (fun i hi ↦ line_right_iff hi)
  have hrows : (∀ row ∈ (parseImportCSV letters floats text).1, Admissible row) ↔
      ∀ r ∈ dataRecords letters text, ∀ rec, r.result = .ok rec →
        ¬Unbounded letters floats rec := by
    constructor
    · intro hadmissible r hr rec hrec hunbounded
      obtain ⟨row, hrow⟩ := otherwiseValid_iff.mp hunbounded.1
      exact hrow.admissible_iff.mp (hadmissible row (mem_rows.mpr ⟨r, hr, rec, hrec, hrow⟩)) hunbounded
    · intro hbounded row hmem
      obtain ⟨r, hr, rec, hrec, hrow⟩ := mem_rows.mp hmem
      exact hrow.admissible_iff.mpr (hbounded r hr rec hrec)
  rw [← hlines, ← hrows]
  constructor
  · exact fun h ↦ ⟨h.rows, h.lines⟩
  · rintro ⟨hadmissible, hright⟩
    refine ⟨hadmissible, fun price target hprice htarget ↦ ?_, hright⟩
    refine compute_finite (fun t ht ↦ ?_) hprice htarget
    obtain ⟨row, hrow, rfl⟩ := List.mem_map.mp ht
    exact (hadmissible row hrow).finite

def withHeader (rows : String) : Text :=
  ("tx_type,grams,karat,price_per_gram,currency,fees,tx_date,notes\n" ++ rows).toList

def nanFile : Text := withHeader "buy,NaN,18,1,IRT,0,2026-01-01,\n"

def blankLineFile : Text := withHeader "\nhold,1,18,1,IRT,0,2026-01-01,\n"

theorem grams_nanFile :
    (parseImportCSV .ascii fewFloats nanFile).1.map (·.tx.grams) = [.nan] := by
  decide +kernel

theorem lines_blankLineFile :
    (parseImportCSV .ascii fewFloats blankLineFile).2.map RowError.line = [2] ∧
      (refused .ascii fewFloats blankLineFile).map (physicalLine blankLineFile) = [3] := by
  decide +kernel

/-- A weight that is not a number is imported, and a bad type behind a blank line is
reported one line too early. -/
theorem unsafe_imports :
    ¬SafeImport .ascii fewFloats nanFile ∧
      ¬SafeImport .ascii fewFloats blankLineFile := by
  constructor
  · intro h
    obtain ⟨row, hrows, hnan⟩ := List.map_eq_singleton_iff.mp grams_nanFile
    obtain ⟨q, -, hfinite⟩ := (h.rows row (by rw [hrows]; exact List.mem_singleton_self row)).grams
    rw [hnan] at hfinite
    cases hfinite
  · intro h
    have hlines := h.lines
    rw [lines_blankLineFile.1, lines_blankLineFile.2] at hlines
    exact absurd hlines (by decide)

end SafeImport

end TalaPala.Portfolio
