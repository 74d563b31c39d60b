import TalaPala.Library.Checked
import TalaPala.Library.Csv
import TalaPala.Portfolio.Totals

namespace TalaPala.Portfolio

open Library Economic Liquidity.Float64

def csvColumns : List Text :=
  ["tx_type", "grams", "karat", "price_per_gram", "currency", "fees", "tx_date", "notes"].map
    String.toList

/-- What the code uses of `strconv` on floats: `ParseFloat`, `FormatFloat` in the shortest
plain form, and that a number of a float's precision comes back whole. -/
structure FloatText where
  parseFloat : Text → Option Value
  formatFloat : Value → Text
  IsFloat : ℚ → Prop
  parseFloat_formatFloat : ∀ x, IsFloat x →
    parseFloat (formatFloat (.finite x)) = some (.finite x)
  formatFloat_ne_nil : ∀ x, IsFloat x → formatFloat (.finite x) ≠ []
  formatFloat_plain : ∀ x, IsFloat x →
    ∀ c ∈ formatFloat (.finite x), c.isDigit = true ∨ c = '.' ∨ c = '-'

structure ImportRow where
  tx : Tx
  txDate : Civil
  notes : Text

structure RowError where
  line : ℕ
  reason : String

def isFormulaInjection (cell : Text) : Bool :=
  match cell with
  | [] => false
  | c :: _ => c = '=' || c = '+' || c = '-' || c = '@' || c = '\t' || c = '\r'

def sanitizeCSVCell (cell : Text) : Text := if isFormulaInjection cell then '\'' :: cell else cell

/-- `TrimSpace` of a cell. -/
def cell (rec : List Text) (i : ℕ) : Text := trimSpace (rec.getD i [])

/-- Goes on with a value that is there, else gives the record up for `reason`. -/
def require {α : Type} (value : Option α) (reason : String) : Except String α :=
  match value with
  | some a => .ok a
  | none => .error reason

section Import

variable (letters : Letters) (floats : FloatText)

def validateImportRecord (rec : List Text) : Except String ImportRow := do
  let rec ← require (Option.guard (·.length = csvColumns.length) rec)
    ("expected " ++ toString csvColumns.length ++ " columns, got " ++ toString rec.length)
  let txType ← require (Option.guard (fun s ↦ s = "buy".toList || s = "sell".toList)
    ((cell rec 0).map letters.toLower)) "tx_type must be buy or sell"
  let grams ← require ((floats.parseFloat (cell rec 1)).filter (!le · (.finite 0)))
    "grams must be a positive number"
  let karat ← require ((atoi (cell rec 2)).filter validKarat) "karat must be one of 18, 21, 22, 24"
  let price ← require ((floats.parseFloat (cell rec 3)).filter (!le · (.finite 0)))
    "price_per_gram must be a positive number"
  let currency ← require (Option.guard (fun s ↦ s = "IRT".toList || s = "IRR".toList)
    ((cell rec 4).map letters.toUpper)) "currency must be IRT or IRR"
  let fees ← require (if cell rec 5 = [] then some (.finite 0)
    else (floats.parseFloat (cell rec 5)).filter (!lt · (.finite 0)))
    "fees must be a non-negative number"
  let txDate ← require (parseDate (cell rec 6)) "tx_date must be YYYY-MM-DD"
  let notes ← require (Option.guard (!isFormulaInjection ·) (cell rec 7))
    "notes must not start with =, +, -, @ (formula injection)"
  let notes ← require (Option.guard (byteLength · ≤ maxNotes) notes)
    "notes too long (max 1000 chars)"
  return ⟨⟨txType, grams, karat, price, fees, currency⟩, txDate, notes⟩

def headerError (reason : String) : List ImportRow × List RowError := ([], [⟨1, reason⟩])

def importRecords : ℕ → List Csv.Record → List ImportRow × List RowError
  | _, [] => ([], [])
  | line, r :: rest =>
    let (rows, errs) := importRecords (line + 1) rest
    match r.result with
    | .error e => (rows, ⟨line, e.text⟩ :: errs)
    | .ok rec =>
      match validateImportRecord letters floats rec with
      | .error reason => (rows, ⟨line, reason⟩ :: errs)
      | .ok row => (row :: rows, errs)

def parseImportCSV (text : Text) : List ImportRow × List RowError :=
  match Csv.read csvColumns.length text with
  | [] => headerError "cannot read header: EOF"
  | header :: rest =>
    match header.result with
    | .error e => headerError ("cannot read header: " ++ e.text)
    | .ok cols =>
      if cols.map (fun col ↦ trimSpace (col.map letters.toLower)) = csvColumns then
        importRecords letters floats 2 rest
      else headerError ("header must be exactly: " ++
        ",".intercalate (csvColumns.map String.ofList))

end Import

section Admits

structure Admits (letters : Letters) (floats : FloatText) (rec : List Text) (row : ImportRow) :
    Prop where
  length : rec.length = csvColumns.length
  type : (cell rec 0).map letters.toLower = row.tx.type
  type_valid : row.tx.type = "buy".toList ∨ row.tx.type = "sell".toList
  grams : floats.parseFloat (cell rec 1) = some row.tx.grams
  grams_pos : le row.tx.grams (.finite 0) = false
  karat : atoi (cell rec 2) = some row.tx.karat
  karat_valid : validKarat row.tx.karat = true
  price : floats.parseFloat (cell rec 3) = some row.tx.pricePerGram
  price_pos : le row.tx.pricePerGram (.finite 0) = false
  currency : (cell rec 4).map letters.toUpper = row.tx.currency
  currency_valid : row.tx.currency = "IRT".toList ∨ row.tx.currency = "IRR".toList
  fees : if cell rec 5 = [] then row.tx.fees = .finite 0
    else floats.parseFloat (cell rec 5) = some row.tx.fees ∧ lt row.tx.fees (.finite 0) = false
  txDate : parseDate (cell rec 6) = some row.txDate
  notes : cell rec 7 = row.notes
  notes_plain : isFormulaInjection row.notes = false
  notes_short : byteLength row.notes ≤ maxNotes

variable {letters : Letters} {floats : FloatText} {rec : List Text} {row : ImportRow}

theorem require_eq_ok {α : Type} {value : Option α} {reason : String} {a : α} :
    require value reason = .ok a ↔ value = some a := by
  cases value <;> simp [require]

theorem validateImportRecord_eq_ok_iff :
    validateImportRecord letters floats rec = .ok row ↔ Admits letters floats rec row := by
  simp only [validateImportRecord, bind_eq_ok, require_eq_ok, Option.guard_eq_some_iff,
    Option.filter_eq_some_iff, decide_eq_true_eq, Bool.or_eq_true, Bool.not_eq_true']
  constructor
  · rintro ⟨_, ⟨rfl, hlength⟩, txType, ⟨htype, htype'⟩, grams, ⟨hgrams, hgrams'⟩, karat,
      ⟨hkarat, hkarat'⟩, price, ⟨hprice, hprice'⟩, currency, ⟨hcurrency, hcurrency'⟩, fees, hfees,
      date, hdate, _, ⟨rfl, hplain⟩, _, ⟨rfl, hshort⟩, hrow⟩
    obtain rfl := Except.ok.inj hrow
    refine ⟨hlength, htype, htype ▸ htype', hgrams, hgrams', hkarat, hkarat', hprice, hprice',
      hcurrency, hcurrency ▸ hcurrency', ?_, hdate, rfl, hplain, hshort⟩
    split_ifs at hfees ⊢ with hempty
    · exact (Option.some_inj.mp hfees).symm
    · simpa [Option.filter_eq_some_iff] using hfees
  · intro h
    refine ⟨rec, ⟨rfl, h.length⟩, _, ⟨h.type, h.type.symm ▸ h.type_valid⟩, _,
      ⟨h.grams, h.grams_pos⟩, _, ⟨h.karat, h.karat_valid⟩, _, ⟨h.price, h.price_pos⟩, _,
      ⟨h.currency, h.currency.symm ▸ h.currency_valid⟩, row.tx.fees, ?_, _, h.txDate, _,
      ⟨rfl, h.notes.symm ▸ h.notes_plain⟩, _, ⟨rfl, h.notes.symm ▸ h.notes_short⟩, ?_⟩
    · have hfees := h.fees
      split_ifs at hfees ⊢ with hempty
      · rw [hfees]
      · simpa [Option.filter_eq_some_iff] using hfees
    · rw [h.notes]
      rfl

end Admits

section Export

variable (floats : FloatText)

def exportRecord (t : TxRequest) : List Text :=
  [sanitizeCSVCell t.txType, floats.formatFloat t.grams, itoa t.karat,
    floats.formatFloat t.pricePerGram, sanitizeCSVCell t.currency, floats.formatFloat t.fees,
    sanitizeCSVCell t.txDate, sanitizeCSVCell t.notes]

def export' (list : List TxRequest) : Text :=
  Csv.write (csvColumns :: list.map (exportRecord floats))

end Export

open Library.Csv (unixBreaks)

section Texts

theorem length_unixBreaks_le (s : Text) : (unixBreaks s).length ≤ s.length := by
  fun_induction unixBreaks s with
  | case1 s ih => exact (Nat.succ_le_succ ih).trans (Nat.le_succ _)
  | case2 c s hbreak ih => exact Nat.succ_le_succ ih
  | case3 => exact le_rfl

theorem unixBreaks_eq_self_iff {s : Text} : unixBreaks s = s ↔ ¬['\r', '\n'] <:+: s := by
  fun_induction unixBreaks s with
  | case1 s ih =>
    refine iff_of_false (fun heq ↦ ?_) (not_not.mpr ⟨[], s, rfl⟩)
    have hle := length_unixBreaks_le s
    have hlength := congrArg List.length heq
    simp only [List.length_cons] at hlength
    omega
  | case2 c s hbreak ih =>
    rw [List.cons_inj_right, List.infix_cons_iff, not_or]
    refine ih.trans (and_iff_right ?_).symm
    rintro ⟨t, ht⟩
    exact hbreak t (List.cons.inj ht).1.symm (List.cons.inj ht).2.symm
  | case3 => exact iff_of_true rfl (by simp)

theorem head?_unixBreaks {s : Text} {c : Char} (h : s.head? = some c) (hc : c ≠ '\r') :
    (unixBreaks s).head? = some c := by
  cases s with
  | nil => cases h
  | cons d s =>
    obtain rfl : d = c := Option.some_inj.mp h
    rw [Csv.unixBreaks_cons_of_ne hc, List.head?_cons]

theorem getLast?_unixBreaks (s : Text) : (unixBreaks s).getLast? = s.getLast? := by
  fun_induction unixBreaks s with
  | case1 s ih => rw [List.getLast?_cons_cons, List.getLast?_cons, List.getLast?_cons, ih]
  | case2 c s hbreak ih => rw [List.getLast?_cons, List.getLast?_cons, ih]
  | case3 => rfl

theorem isSpace_of_isDigit {c : Char} (h : c.isDigit = true) : isSpace c = false := by
  rw [Char.isDigit_iff_toNat] at h
  have hzero : '0'.toNat = 48 := rfl
  have hnine : '9'.toNat = 57 := rfl
  simp only [isSpace, Bool.or_eq_false_iff, Bool.and_eq_false_iff, decide_eq_false_iff_not]
  omega

def Plain (s : Text) : Prop := ∀ c ∈ s, c.isDigit = true ∨ c = '.' ∨ c = '-'

theorem Plain.isSpace {s : Text} (h : Plain s) {c : Char} (hc : c ∈ s) : isSpace c = false := by
  rcases h c hc with hdigit | rfl | rfl
  · exact isSpace_of_isDigit hdigit
  · decide
  · decide

theorem Plain.read {s : Text} (h : Plain s) : trimSpace (unixBreaks s) = s := by
  have hbreaks : unixBreaks s = s :=
    Csv.unixBreaks_of_not_mem (fun hmem ↦ absurd (h.isSpace hmem) (by decide))
  rw [hbreaks]
  exact trimSpace_eq_self (fun c hc ↦ h.isSpace (List.mem_of_head? hc))
    (fun c hc ↦ h.isSpace (List.mem_of_getLast? hc))

theorem isDigit_of_digitsValue {s : Text} (h : digitsValue s ≠ none) :
    s ≠ [] ∧ ∀ c ∈ s, c.isDigit = true := by
  rw [digitsValue] at h
  rw [← List.all_eq_true]
  by_contra hnot
  exact h (if_neg hnot)

theorem date_plain {s : Text} (h : parseDate s ≠ none) :
    Plain s ∧ isFormulaInjection s = false := by
  unfold parseDate at h
  split at h
  next y₁ y₂ y₃ y₄ m₁ m₂ d₁ d₂ =>
    have hyear : digitsValue [y₁, y₂, y₃, y₄] ≠ none := by
      rintro hnone
      simp [hnone] at h
    have hmonth : digitsValue [m₁, m₂] ≠ none := by
      rintro hnone
      simp [hnone] at h
    have hday : digitsValue [d₁, d₂] ≠ none := by
      rintro hnone
      simp [hnone] at h
    have hyear := (isDigit_of_digitsValue hyear).2
    have hmonth := (isDigit_of_digitsValue hmonth).2
    have hday := (isDigit_of_digitsValue hday).2
    constructor
    · intro c hc
      have hparts : c ∈ [y₁, y₂, y₃, y₄] ++ '-' :: ([m₁, m₂] ++ '-' :: [d₁, d₂]) := hc
      rcases List.mem_append.mp hparts with hc | hc
      · exact .inl (hyear c hc)
      rcases List.mem_cons.mp hc with rfl | hc
      · exact .inr (.inr rfl)
      rcases List.mem_append.mp hc with hc | hc
      · exact .inl (hmonth c hc)
      rcases List.mem_cons.mp hc with rfl | hc
      · exact .inr (.inr rfl)
      · exact .inl (hday c hc)
    · have hdigit := hyear y₁ List.mem_cons_self
      have hne {c : Char} (hc : c.isDigit = false) : y₁ ≠ c := fun heq ↦ by
        rw [heq, hc] at hdigit
        cases hdigit
      simp [isFormulaInjection, hne (c := '=') rfl, hne (c := '+') rfl, hne (c := '-') rfl,
        hne (c := '@') rfl, hne (c := '\t') rfl, hne (c := '\r') rfl]
  next => exact absurd rfl h

end Texts

section Notes

def exportedNotes (notes : Text) : Text := unixBreaks (sanitizeCSVCell notes)

theorem isFormulaInjection_eq_false {s : Text} {c : Char} (h : s.head? = some c) :
    isFormulaInjection s = false ↔
      c ≠ '=' ∧ c ≠ '+' ∧ c ≠ '-' ∧ c ≠ '@' ∧ c ≠ '\t' ∧ c ≠ '\r' := by
  cases s with
  | nil => cases h
  | cons d s =>
    obtain rfl : d = c := Option.some_inj.mp h
    simp [isFormulaInjection, and_assoc]

theorem exportedNotes_eq_self_iff (notes : Text) : exportedNotes notes = notes ↔
    isFormulaInjection notes = false ∧ ¬['\r', '\n'] <:+: notes := by
  rw [exportedNotes, sanitizeCSVCell]
  split_ifs with h
  · refine iff_of_false (fun heq ↦ ?_) (fun hnot ↦ by rw [h] at hnot; cases hnot.1)
    cases notes with
    | nil => cases h
    | cons c notes =>
      rw [Csv.unixBreaks_cons_of_ne (by decide)] at heq
      obtain rfl : '\'' = c := (List.cons.inj heq).1
      revert h
      simp [isFormulaInjection]
  · rw [unixBreaks_eq_self_iff]
    exact (and_iff_right (Bool.not_eq_true _ ▸ h)).symm

variable {notes : Text}

theorem head?_exportedNotes (h : trimSpace notes = notes) :
    exportedNotes notes = [] ∨ ∃ c, (exportedNotes notes).head? = some c ∧ isSpace c = false ∧
      isFormulaInjection (exportedNotes notes) = false := by
  rw [exportedNotes, sanitizeCSVCell]
  split_ifs with hformula
  · refine .inr ⟨'\'', head?_unixBreaks rfl (by decide), by decide, ?_⟩
    rw [isFormulaInjection_eq_false (head?_unixBreaks rfl (by decide))]
    decide
  · cases notes with
    | nil => exact .inl rfl
    | cons c notes =>
      have hplain := (isFormulaInjection_eq_false (List.head?_cons)).mp
        (Bool.not_eq_true _ ▸ hformula)
      have hhead := head?_unixBreaks (s := c :: notes) rfl hplain.2.2.2.2.2
      refine .inr ⟨c, hhead, ?_, (isFormulaInjection_eq_false hhead).mpr hplain⟩
      exact head?_trimSpace (s := c :: notes) (by rw [h]; rfl)

theorem isFormulaInjection_exportedNotes (h : trimSpace notes = notes) :
    isFormulaInjection (exportedNotes notes) = false := by
  rcases head?_exportedNotes h with hnil | ⟨c, -, -, hplain⟩
  · rw [hnil]
    rfl
  · exact hplain

theorem trimSpace_exportedNotes (h : trimSpace notes = notes) :
    trimSpace (exportedNotes notes) = exportedNotes notes := by
  refine trimSpace_eq_self (fun c hc ↦ ?_) (fun c hc ↦ ?_)
  · rcases head?_exportedNotes h with hnil | ⟨d, hhead, hspace, -⟩
    · rw [hnil] at hc
      cases hc
    · rw [hhead] at hc
      exact Option.some_inj.mp hc ▸ hspace
  · rw [exportedNotes, getLast?_unixBreaks, sanitizeCSVCell] at hc
    split_ifs at hc with hformula
    · cases notes with
      | nil => cases hformula
      | cons d notes =>
        rw [List.getLast?_cons_cons] at hc
        exact getLast?_trimSpace (s := d :: notes) (by rw [h]; exact hc)
    · exact getLast?_trimSpace (s := notes) (by rw [h]; exact hc)

end Notes

section Rows

variable {letters : Letters} {floats : FloatText}

structure Decoded (floats : FloatText) (t : TxRequest) : Prop where
  grams : ∃ x, floats.IsFloat x ∧ t.grams = .finite x
  pricePerGram : ∃ x, floats.IsFloat x ∧ t.pricePerGram = .finite x
  fees : ∃ x, floats.IsFloat x ∧ t.fees = .finite x

structure Restored (t : TxRequest) (row : ImportRow) : Prop where
  tx : row.tx = ⟨t.txType, t.grams, t.karat, t.pricePerGram, t.fees, t.currency⟩
  txDate : parseDate t.txDate = some row.txDate
  notes : row.notes = exportedNotes t.notes

theorem cell_formatFloat {v : Value} (h : ∃ x, floats.IsFloat x ∧ v = .finite x) :
    trimSpace (unixBreaks (floats.formatFloat v)) ≠ [] ∧
      floats.parseFloat (trimSpace (unixBreaks (floats.formatFloat v))) = some v := by
  obtain ⟨x, hx, rfl⟩ := h
  rw [Plain.read (floats.formatFloat_plain x hx)]
  exact ⟨floats.formatFloat_ne_nil x hx, floats.parseFloat_formatFloat x hx⟩

theorem map_toLower {s : Text} (h : s.all (fun c ↦ c.toNat < 128) = true) :
    s.map letters.toLower = s.map Char.toLower :=
  List.map_congr_left (fun c hc ↦
    letters.toLower_ascii c (of_decide_eq_true (List.all_eq_true.mp h c hc)))

theorem map_toUpper {s : Text} (h : s.all (fun c ↦ c.toNat < 128) = true) :
    s.map letters.toUpper = s.map Char.toUpper :=
  List.map_congr_left (fun c hc ↦
    letters.toUpper_ascii c (of_decide_eq_true (List.all_eq_true.mp h c hc)))

theorem cell_txType {s : Text} (h : s = "buy".toList ∨ s = "sell".toList) :
    (trimSpace (unixBreaks (sanitizeCSVCell s))).map letters.toLower = s := by
  rcases h with rfl | rfl
  · rw [map_toLower (by decide)]
    decide
  · rw [map_toLower (by decide)]
    decide

theorem cell_currency {s : Text} (h : s = "IRT".toList ∨ s = "IRR".toList) :
    (trimSpace (unixBreaks (sanitizeCSVCell s))).map letters.toUpper = s := by
  rcases h with rfl | rfl
  · rw [map_toUpper (by decide)]
    decide
  · rw [map_toUpper (by decide)]
    decide

theorem cell_karat {k : ℤ} (h : validKarat k = true) :
    atoi (trimSpace (unixBreaks (itoa k))) = some k := by
  simp only [validKarat, Bool.or_eq_true, decide_eq_true_eq] at h
  rcases h with ((rfl | rfl) | rfl) | rfl <;> decide

theorem cell_txDate {s : Text} (h : parseDate s ≠ none) :
    trimSpace (unixBreaks (sanitizeCSVCell s)) = s := by
  obtain ⟨hplain, hformula⟩ := date_plain h
  rw [sanitizeCSVCell, hformula, if_neg Bool.false_ne_true, hplain.read]

theorem validateImportRecord_exportRecord {t : TxRequest} {row : ImportRow}
    (hdecoded : Decoded floats t) (haccepted : Accepted t) (htrim : trimSpace t.notes = t.notes)
    (hfits : byteLength (exportedNotes t.notes) ≤ maxNotes) (hrow : Restored t row) :
    validateImportRecord letters floats ((exportRecord floats t).map unixBreaks) = .ok row := by
  obtain ⟨htx, hdate, hnotes⟩ := hrow
  obtain ⟨tx, date, notes⟩ := row
  dsimp only at htx hdate hnotes
  subst htx hnotes
  obtain ⟨hfees, hparse⟩ := cell_formatFloat hdecoded.fees
  rw [validateImportRecord_eq_ok_iff]
  exact
    { length := rfl
      type := cell_txType haccepted.txType
      type_valid := haccepted.txType
      grams := (cell_formatFloat hdecoded.grams).2
      grams_pos := haccepted.grams
      karat := cell_karat haccepted.karat
      karat_valid := haccepted.karat
      price := (cell_formatFloat hdecoded.pricePerGram).2
      price_pos := haccepted.pricePerGram
      currency := cell_currency haccepted.currency
      currency_valid := haccepted.currency
      fees := (if_neg hfees).mpr ⟨hparse, haccepted.fees⟩
      txDate := (congrArg parseDate (cell_txDate haccepted.txDate)).trans hdate
      notes := trimSpace_exportedNotes htrim
      notes_plain := isFormulaInjection_exportedNotes htrim
      notes_short := hfits }

theorem importRecords_of_ok {records : List Csv.Record} {recs : List (List Text)}
    {rows : List ImportRow} (h : records.map Csv.Record.result = recs.map .ok)
    (hrows : List.Forall₂ (fun rec row ↦ validateImportRecord letters floats rec = .ok row) recs
      rows) (line : ℕ) : importRecords letters floats line records = (rows, []) := by
  induction hrows generalizing records line with
  | nil =>
    rw [List.map_nil, List.map_eq_nil_iff] at h
    rw [h, importRecords]
  | cons hrow _ ih =>
    cases records with
    | nil => cases h
    | cons r records =>
      rw [List.map_cons, List.map_cons, List.cons.injEq] at h
      simp only [importRecords, ih h.2 (line + 1), h.1, hrow]

theorem parseImportCSV_write {recs : List (List Text)} {rows : List ImportRow}
    (hlength : ∀ rec ∈ recs, rec.length = csvColumns.length)
    (hrows : List.Forall₂ (fun rec row ↦ validateImportRecord letters floats rec = .ok row)
      (recs.map (List.map unixBreaks)) rows) :
    parseImportCSV letters floats (Csv.write (csvColumns :: recs)) = (rows, []) := by
  have hlengths : ∀ rec ∈ csvColumns :: recs, rec.length = csvColumns.length :=
    List.forall_mem_cons.mpr ⟨rfl, hlength⟩
  have hread := Csv.read_write (by decide) hlengths
  rw [parseImportCSV]
  cases hrecords : Csv.read csvColumns.length (Csv.write (csvColumns :: recs)) with
  | nil =>
    rw [hrecords] at hread
    cases hread
  | cons header rest =>
    rw [hrecords, List.map_cons, List.map_cons, List.cons.injEq] at hread
    have hlower : ∀ col ∈ csvColumns.map unixBreaks,
        trimSpace (col.map letters.toLower) = col := by
      intro col hcol
      have hascii : ∀ col ∈ csvColumns.map unixBreaks,
          col.all (fun c ↦ c.toNat < 128) = true ∧ trimSpace (col.map Char.toLower) = col := by
        decide
      rw [map_toLower (hascii col hcol).1, (hascii col hcol).2]
    have hheader : (csvColumns.map unixBreaks).map
        (fun col ↦ trimSpace (col.map letters.toLower)) = csvColumns := by
      rw [List.map_congr_left hlower, List.map_id']
      decide
    simp only [hread.1, hheader, if_true]
    exact importRecords_of_ok (by rw [hread.2, List.map_map]; rfl) hrows 2

end Rows

section RoundTrip

variable (letters : Letters) (floats : FloatText)

/-- An export is imported back without an error. -/
theorem export_reads_back {requests : List TxRequest}
    (hdecoded : ∀ t ∈ requests, Decoded floats t)
    (haccepted : ∀ t ∈ requests, validateTxRequest (normalizeTxRequest letters t) = [])
    (hfits : ∀ t ∈ requests,
      byteLength (exportedNotes (normalizeTxRequest letters t).notes) ≤ maxNotes) :
    ∃ rows, parseImportCSV letters floats
        (export' floats (requests.map (normalizeTxRequest letters))) = (rows, []) ∧
      List.Forall₂ Restored (requests.map (normalizeTxRequest letters)) rows ∧
      ∀ t ∈ requests.map (normalizeTxRequest letters), exportedNotes t.notes = t.notes ↔
        isFormulaInjection t.notes = false ∧ ¬['\r', '\n'] <:+: t.notes := by
  have hrow : ∀ t ∈ requests.map (normalizeTxRequest letters), ∃ row,
      validateImportRecord letters floats ((exportRecord floats t).map unixBreaks) = .ok row ∧
        Restored t row := by
    intro t ht
    obtain ⟨request, hrequest, rfl⟩ := List.mem_map.mp ht
    have hvalid := validateTxRequest_eq_nil_iff.mp (haccepted request hrequest)
    obtain ⟨date, hdate⟩ := Option.ne_none_iff_exists'.mp hvalid.txDate
    have hrestored : Restored (normalizeTxRequest letters request) ⟨⟨_, _, _, _, _, _⟩, date, _⟩ :=
      ⟨rfl, hdate, rfl⟩
    have hnumbers : Decoded floats (normalizeTxRequest letters request) :=
      ⟨(hdecoded request hrequest).grams, (hdecoded request hrequest).pricePerGram,
        (hdecoded request hrequest).fees⟩
    exact ⟨_, validateImportRecord_exportRecord hnumbers hvalid (trimSpace_trimSpace _)
      (hfits request hrequest) hrestored, hrestored⟩
  obtain ⟨rows, -, hrows⟩ := exists_mapM_forall₂ (f := fun t ↦ (validateImportRecord letters floats
    ((exportRecord floats t).map unixBreaks)).toOption) (fun t ht ↦ by
      obtain ⟨row, hvalidate, hrestored⟩ := hrow t ht
      exact ⟨row, by rw [hvalidate]; rfl, And.intro hvalidate hrestored⟩)
  refine ⟨rows, parseImportCSV_write (fun rec hrec ↦ ?_) ?_, hrows.imp (fun _ _ h ↦ h.2),
    fun t _ ↦ exportedNotes_eq_self_iff _⟩
  · obtain ⟨t, -, rfl⟩ := List.mem_map.mp hrec
    rfl
  · rw [List.map_map, List.forall₂_map_left_iff]
    exact hrows.imp (fun _ _ h ↦ h.1)

end RoundTrip

section Formula

def fewFloats : FloatText where
  parseFloat s := if s = "NaN".toList then some .nan else (atoi s).map (fun n ↦ .finite n)
  formatFloat
    | .finite x => itoa x.num
    | _ => "NaN".toList
  IsFloat x := x = 0 ∨ x = 1
  parseFloat_formatFloat := by
    rintro x (rfl | rfl) <;> decide
  formatFloat_ne_nil := by
    rintro x (rfl | rfl) <;> decide
  formatFloat_plain := by
    rintro x (rfl | rfl)
    · exact List.forall_mem_singleton.mpr (.inl rfl)
    · exact List.forall_mem_singleton.mpr (.inl rfl)

def oneGram (notes : String) : TxRequest :=
  ⟨"buy".toList, .finite 1, 18, .finite 1, "IRT".toList, .finite 0, "2026-01-01".toList,
    notes.toList⟩

theorem oneGram_decoded (notes : String) : Decoded fewFloats (oneGram notes) :=
  ⟨⟨1, .inr rfl, rfl⟩, ⟨1, .inr rfl, rfl⟩, ⟨0, .inl rfl, rfl⟩⟩

theorem export_reads_back_quoted : ∃ rows, parseImportCSV .ascii fewFloats
    (export' fewFloats [normalizeTxRequest .ascii (oneGram "a \"gift\",\nlate")]) =
      (rows, []) :=
  (@export_reads_back .ascii fewFloats [oneGram "a \"gift\",\nlate"]
    (List.forall_mem_singleton.mpr (oneGram_decoded _)) (by decide) (by decide)).imp
      (fun _ h ↦ h.1)

/-- Notes that begin as a formula does come back with a quote before them. -/
theorem formula_notes_altered :
    Decoded fewFloats (oneGram "=1+1") ∧
      validateTxRequest (normalizeTxRequest .ascii (oneGram "=1+1")) = [] ∧
      (normalizeTxRequest .ascii (oneGram "=1+1")).notes = "=1+1".toList ∧
      (parseImportCSV .ascii fewFloats
        (export' fewFloats [normalizeTxRequest .ascii (oneGram "=1+1")])).1.map
          ImportRow.notes = ["'=1+1".toList] :=
  ⟨oneGram_decoded _, by decide, by decide, by decide +kernel⟩

end Formula

end TalaPala.Portfolio
