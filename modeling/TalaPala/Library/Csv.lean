import TalaPala.Library.Strings

namespace TalaPala.Library.Csv

open List

/-! Go's `encoding/csv` with a comma between the fields, no comment character, and a
reader that trims leading space and expects the same number of fields everywhere. -/

section Writer

def fieldNeedsQuotes (field : Text) : Bool :=
  field = ['\\', '.'] || field.any (fun c ↦ c = '\n' || c = '\r' || c = '"' || c = ',') ||
    field.head?.any isSpace

def escape (field : Text) : Text := field.flatMap (fun c ↦ if c = '"' then ['"', '"'] else [c])

def writeField (field : Text) : Text :=
  if fieldNeedsQuotes field then '"' :: escape field ++ ['"'] else field

def writeFields : List Text → Text
  | [] => []
  | [field] => writeField field
  | field :: fields => writeField field ++ ',' :: writeFields fields

def writeRecord (fields : List Text) : Text := writeFields fields ++ ['\n']

def write (records : List (List Text)) : Text := records.flatMap writeRecord

end Writer

section Reader

inductive Problem
  | bareQuote | quote | fieldCount
  deriving DecidableEq

def Problem.text : Problem → String
  | .bareQuote => "bare \" in non-quoted-field"
  | .quote => "extraneous or missing \" in quoted-field"
  | .fieldCount => "wrong number of fields"

structure ParseError where
  startLine : ℕ
  line : ℕ
  column : ℕ
  err : Problem

def ParseError.text (e : ParseError) : String :=
  if e.err = .fieldCount then "record on line " ++ toString e.line ++ ": " ++ e.err.text
  else if e.startLine ≠ e.line then
    "record on line " ++ toString e.startLine ++ "; parse error on line " ++ toString e.line ++
      ", column " ++ toString e.column ++ ": " ++ e.err.text
  else "parse error on line " ++ toString e.line ++ ", column " ++ toString e.column ++ ": " ++
    e.err.text

/-- What one call of `Read` gives, with the line that its record starts on. -/
structure Record where
  startLine : ℕ
  result : Except ParseError (List Text)

/-- `readLine` makes `\r\n` of every line a line break, -/
def unixBreaks : Text → Text
  | '\r' :: '\n' :: s => '\n' :: unixBreaks s
  | c :: s => c :: unixBreaks s
  | [] => []

/-- and drops a `\r` before the end of the file. -/
def readLines (text : Text) : Text :=
  if (unixBreaks text).getLast? = some '\r' then (unixBreaks text).dropLast else unixBreaks text

structure Place where
  line : ℕ
  column : ℕ

def Place.after (p : Place) (c : Char) : Place := ⟨p.line, p.column + c.utf8Size⟩

def Place.next (p : Place) (c : Char) : Place := if c = '\n' then ⟨p.line + 1, 1⟩ else p.after c

def placed : Place → Text → List (Char × Place)
  | _, [] => []
  | p, c :: s => (c, p) :: placed (p.next c) s

inductive Mode
  | blank | start | bare | quoted | quote | dropped
  deriving DecidableEq

structure Reader where
  mode : Mode
  startLine : ℕ
  fields : List Text
  field : Text
  records : List Record

def Reader.init : Reader := ⟨.blank, 0, [], [], []⟩

def Reader.push (r : Reader) (mode : Mode) (c : Char) : Reader :=
  { r with mode := mode, field := r.field ++ [c] }

def Reader.endField (r : Reader) : Reader :=
  { r with mode := .start, fields := r.fields ++ [r.field], field := [] }

def Reader.close (r : Reader) (mode : Mode) (result : Except ParseError (List Text)) : Reader :=
  { r with
    mode := mode
    fields := []
    field := []
    records := r.records ++ [⟨r.startLine, result⟩] }

def Reader.fail (r : Reader) (place : Place) (err : Problem) : Reader :=
  r.close .dropped (.error ⟨r.startLine, place.line, place.column, err⟩)

variable (fieldsPerRecord : ℕ)

def counted (startLine : ℕ) (fields : List Text) : Except ParseError (List Text) :=
  if fields.length = fieldsPerRecord then .ok fields
  else .error ⟨startLine, startLine, 1, .fieldCount⟩

def Reader.endRecord (r : Reader) : Reader :=
  r.close .blank (counted fieldsPerRecord r.startLine (r.fields ++ [r.field]))

def Reader.startField (r : Reader) (c : Char) : Reader :=
  if c = '"' then { r with mode := .quoted }
  else if c = ',' then r.endField
  else if c = '\n' then r.endRecord fieldsPerRecord
  else if isSpace c then { r with mode := .start }
  else r.push .bare c

def Reader.step (r : Reader) (x : Char × Place) : Reader :=
  let c := x.1
  match r.mode with
  | .blank =>
    if c = '\n' then r else { r with startLine := x.2.line }.startField fieldsPerRecord c
  | .start => r.startField fieldsPerRecord c
  | .bare =>
    if c = ',' then r.endField
    else if c = '\n' then r.endRecord fieldsPerRecord
    else if c = '"' then r.fail x.2 .bareQuote
    else r.push .bare c
  | .quoted => if c = '"' then { r with mode := .quote } else r.push .quoted c
  | .quote =>
    if c = '"' then r.push .quoted c
    else if c = ',' then r.endField
    else if c = '\n' then r.endRecord fieldsPerRecord
    -- The place of the quote, one byte back.
    else r.fail ⟨x.2.line, x.2.column - 1⟩ .quote
  | .dropped => if c = '\n' then { r with mode := .blank } else r

/-- The end of the file, at `place`. -/
def Reader.finish (r : Reader) (place : Place) : List Record :=
  match r.mode with
  | .blank | .dropped => r.records
  | .start | .bare | .quote => (r.endRecord fieldsPerRecord).records
  | .quoted => (r.fail place .quote).records

def endOfFile (xs : List (Char × Place)) : Place :=
  (xs.getLast?.map (fun x ↦ x.2.after x.1)).getD ⟨1, 1⟩

/-- The calls of `Read` until `io.EOF`. -/
def read (text : Text) : List Record :=
  let xs := placed ⟨1, 1⟩ (readLines text)
  (xs.foldl (Reader.step fieldsPerRecord) Reader.init).finish fieldsPerRecord (endOfFile xs)

end Reader

section UnixBreaks

@[simp] theorem unixBreaks_nil : unixBreaks [] = [] := rfl

theorem unixBreaks_cons_of_ne {c : Char} (hc : c ≠ '\r') (s : Text) :
    unixBreaks (c :: s) = c :: unixBreaks s := by
  cases s <;> simp [unixBreaks, hc]

theorem unixBreaks_cons_cons_of_ne (c : Char) {d : Char} (hd : d ≠ '\n') (s : Text) :
    unixBreaks (c :: d :: s) = c :: unixBreaks (d :: s) := by
  simp [unixBreaks, hd]

@[simp] theorem unixBreaks_singleton (c : Char) : unixBreaks [c] = [c] := by
  simp [unixBreaks]

theorem unixBreaks_append {s t : Text} (h : s.getLast? ≠ some '\r' ∨ t.head? ≠ some '\n') :
    unixBreaks (s ++ t) = unixBreaks s ++ unixBreaks t := by
  fun_induction unixBreaks s with
  | case1 s ih =>
    rw [cons_append, cons_append, unixBreaks, cons_append, ih]
    cases s with
    | nil => exact .inl (by simp)
    | cons c s => simpa using h
  | case2 c s hbreak ih =>
    cases s with
    | nil =>
      cases t with
      | nil => simp
      | cons d t =>
        by_cases hc : c = '\r'
        · subst hc
          have hd : d ≠ '\n' := by simpa using h
          simp [unixBreaks_cons_cons_of_ne _ hd]
        · simp [unixBreaks_cons_of_ne hc]
    | cons d s =>
      have ih := ih (by simpa using h)
      rw [cons_append, cons_append] at *
      by_cases hc : c = '\r'
      · subst hc
        have hd : d ≠ '\n' := fun hd ↦ hbreak s rfl (by rw [hd])
        rw [unixBreaks_cons_cons_of_ne _ hd, ih, cons_append]
      · rw [unixBreaks_cons_of_ne hc, ih, cons_append]
  | case3 => rfl

theorem unixBreaks_of_not_mem {s : Text} (h : '\r' ∉ s) : unixBreaks s = s := by
  induction s with
  | nil => rfl
  | cons c s ih =>
    rw [mem_cons, not_or] at h
    rw [unixBreaks_cons_of_ne (Ne.symm h.1), ih h.2]

theorem unixBreaks_escape (s : Text) : unixBreaks (escape s) = escape (unixBreaks s) := by
  fun_induction unixBreaks s with
  | case1 s ih =>
    have hescape : escape ('\r' :: '\n' :: s) = '\r' :: '\n' :: escape s := rfl
    rw [hescape, unixBreaks, ih]
    rfl
  | case2 c s hbreak ih =>
    by_cases hc : c = '"'
    · subst hc
      have hescape (s : Text) : escape ('"' :: s) = '"' :: '"' :: escape s := rfl
      rw [hescape, hescape, unixBreaks_cons_of_ne (by decide), unixBreaks_cons_of_ne (by decide), ih]
    · have hescape (s : Text) : escape (c :: s) = c :: escape s := by
        simp [escape, hc]
      rw [hescape, hescape, ← ih]
      by_cases hr : c = '\r'
      · subst hr
        cases s with
        | nil => rfl
        | cons d s =>
          have hd : d ≠ '\n' := fun hd ↦ hbreak s rfl (by rw [hd])
          obtain ⟨e, w, hw, he⟩ : ∃ e w, escape (d :: s) = e :: w ∧ e ≠ '\n' := by
            by_cases hquote : d = '"'
            · exact ⟨'"', '"' :: escape s, by subst hquote; rfl, by decide⟩
            · exact ⟨d, escape s, by simp [escape, hquote], hd⟩
          rw [hw, unixBreaks_cons_cons_of_ne _ he]
      · rw [unixBreaks_cons_of_ne hr]
  | case3 => rfl

end UnixBreaks

section Writer

theorem writeField_of_plain {field : Text} (h : fieldNeedsQuotes field = false) :
    writeField field = field ∧
      (∀ c ∈ field, c ≠ '\n' ∧ c ≠ '\r' ∧ c ≠ '"' ∧ c ≠ ',') ∧
      ∀ c ∈ field.head?, isSpace c = false := by
  refine ⟨by rw [writeField, h, if_neg Bool.false_ne_true], ?_⟩
  rw [fieldNeedsQuotes, Bool.or_eq_false_iff, Bool.or_eq_false_iff] at h
  constructor
  · intro c hc
    have := any_eq_false.mp h.1.2 c hc
    simpa [not_or, and_assoc] using this
  · intro c hc
    rw [Option.mem_def.mp hc] at h
    simpa using h.2

theorem getLast?_writeField (field : Text) : (writeField field).getLast? ≠ some '\r' := by
  by_cases h : fieldNeedsQuotes field
  · rw [writeField, if_pos h, getLast?_append]
    simp
  · obtain ⟨hwrite, hplain, -⟩ := writeField_of_plain (Bool.not_eq_true _ ▸ h)
    rw [hwrite]
    intro hlast
    exact (hplain _ (mem_of_getLast? hlast)).2.1 rfl

theorem unixBreaks_writeField (field : Text) : unixBreaks (writeField field) =
    if fieldNeedsQuotes field then '"' :: escape (unixBreaks field) ++ ['"'] else field := by
  by_cases h : fieldNeedsQuotes field
  · rw [writeField, if_pos h, if_pos h, cons_append, unixBreaks_cons_of_ne (by decide),
      unixBreaks_append (.inr (by decide)), unixBreaks_escape]
    rfl
  · obtain ⟨hwrite, hplain, -⟩ := writeField_of_plain (Bool.not_eq_true _ ▸ h)
    rw [hwrite, if_neg h]
    exact unixBreaks_of_not_mem (fun hmem ↦ (hplain _ hmem).2.1 rfl)

theorem writeFields_cons_cons (field next : Text) (fields : List Text) :
    writeFields (field :: next :: fields) =
      writeField field ++ ',' :: writeFields (next :: fields) := rfl

theorem unixBreaks_writeFields (field : Text) (fields : List Text) :
    unixBreaks (writeFields (field :: fields)) =
      unixBreaks (writeField field) ++ if fields = [] then [] else
        ',' :: unixBreaks (writeFields fields) := by
  cases fields with
  | nil => simp [writeFields]
  | cons next fields =>
    rw [writeFields_cons_cons, unixBreaks_append (.inr (by simp)),
      unixBreaks_cons_of_ne (by decide), if_neg (cons_ne_nil _ _)]

theorem getLast?_writeFields (fields : List Text) :
    (writeFields fields).getLast? ≠ some '\r' := by
  match fields with
  | [] => simp [writeFields]
  | [field] => exact getLast?_writeField field
  | field :: next :: fields =>
    rw [writeFields_cons_cons, getLast?_append, getLast?_cons]
    have ih := getLast?_writeFields (next :: fields)
    cases h : (writeFields (next :: fields)).getLast? with
    | none => simp
    | some c => simpa [h] using ih

theorem unixBreaks_writeRecord (fields : List Text) (rest : Text) :
    unixBreaks (writeRecord fields ++ rest) =
      unixBreaks (writeFields fields) ++ '\n' :: unixBreaks rest := by
  rw [writeRecord, append_assoc, unixBreaks_append (.inl (getLast?_writeFields fields)),
    singleton_append, unixBreaks_cons_of_ne (by decide)]

end Writer

section Placed

theorem placed_append (p : Place) (s t : Text) :
    placed p (s ++ t) = placed p s ++ placed (s.foldl Place.next p) t := by
  induction s generalizing p with
  | nil => rfl
  | cons c s ih => rw [cons_append, placed, ih, placed, foldl_cons, cons_append]

end Placed

section Reading

variable {n : ℕ}

def Mode.inField (mode : Mode) : Prop := mode = .start ∨ mode = .bare ∨ mode = .quote

variable {r : Reader} {p : Place}

theorem Reader.step_comma (h : r.mode.inField) : r.step n (',', p) = r.endField := by
  rcases h with h | h | h <;> simp [step, h, startField]

theorem Reader.step_break (h : r.mode.inField) : r.step n ('\n', p) = r.endRecord n := by
  rcases h with h | h | h <;> simp [step, h, startField]

theorem Reader.run_bare {s : Text} (h : ∀ c ∈ s, c ≠ '\n' ∧ c ≠ '"' ∧ c ≠ ',')
    (hmode : r.mode = .bare) :
    (placed p s).foldl (step n) r = { r with field := r.field ++ s } := by
  induction s generalizing r p with
  | nil => simp [placed]
  | cons c s ih =>
    obtain ⟨hbreak, hquote, hcomma⟩ := h c mem_cons_self
    have hstep : r.step n (c, p) = r.push .bare c := by
      simp [step, hmode, hbreak, hquote, hcomma]
    rw [placed, foldl_cons, hstep, ih (fun d hd ↦ h d (mem_cons_of_mem _ hd)) rfl, push]
    simp [hmode]

theorem Reader.run_escape {s : Text} (hmode : r.mode = .quoted) :
    (placed p (escape s)).foldl (step n) r = { r with field := r.field ++ s } := by
  induction s generalizing r p with
  | nil => simp [placed, escape]
  | cons c s ih =>
    by_cases hc : c = '"'
    · subst hc
      have hescape : escape ('"' :: s) = '"' :: '"' :: escape s := rfl
      have hquote : r.step n ('"', p) = { r with mode := .quote } := by
        simp [step, hmode]
      have hagain (q : Place) : ({ r with mode := .quote } : Reader).step n ('"', q) =
          r.push .quoted '"' := by
        simp [step, push]
      rw [hescape, placed, placed, foldl_cons, foldl_cons, hquote, hagain, ih rfl, push]
      simp [hmode]
    · have hescape : escape (c :: s) = c :: escape s := by
        simp [escape, hc]
      have hstep : r.step n (c, p) = r.push .quoted c := by
        simp [step, hmode, hc]
      rw [hescape, placed, foldl_cons, hstep, ih rfl, push]
      simp [hmode]

theorem Reader.run_writeField (field : Text) (hmode : r.mode = .start) :
    ∃ mode : Mode, mode.inField ∧ (placed p (unixBreaks (writeField field))).foldl (step n) r =
      { r with mode := mode, field := r.field ++ unixBreaks field } := by
  rw [unixBreaks_writeField]
  by_cases h : fieldNeedsQuotes field
  · refine ⟨.quote, .inr (.inr rfl), ?_⟩
    have hopen : r.step n ('"', p) = { r with mode := .quoted } := by
      simp [step, hmode, startField]
    rw [if_pos h, cons_append, placed, placed_append, foldl_cons, hopen,
      foldl_append, run_escape rfl]
    simp [placed, step]
  · obtain ⟨-, hplain, hhead⟩ := writeField_of_plain (Bool.not_eq_true _ ▸ h)
    rw [if_neg h, unixBreaks_of_not_mem (fun hmem ↦ (hplain _ hmem).2.1 rfl)]
    cases field with
    | nil => exact ⟨.start, .inl rfl, by simp [placed, ← hmode]⟩
    | cons c s =>
      obtain ⟨hbreak, -, hquote, hcomma⟩ := hplain c mem_cons_self
      have hstep : r.step n (c, p) = r.push .bare c := by
        simp [step, hmode, startField, hbreak, hquote, hcomma, hhead c rfl]
      refine ⟨.bare, .inr (.inl rfl), ?_⟩
      rw [placed, foldl_cons, hstep, run_bare (fun d hd ↦ ?_) rfl, push]
      · simp
      · obtain ⟨hbreak, -, hquote, hcomma⟩ := hplain d (mem_cons_of_mem _ hd)
        exact ⟨hbreak, hquote, hcomma⟩

theorem Reader.run_writeFields {fields : List Text} (hne : fields ≠ []) (hmode : r.mode = .start)
    (hfield : r.field = []) :
    (placed p (unixBreaks (writeFields fields) ++ ['\n'])).foldl (step n) r =
      r.close .blank (counted n r.startLine (r.fields ++ fields.map unixBreaks)) := by
  induction fields generalizing r p with
  | nil => exact absurd rfl hne
  | cons field fields ih =>
    obtain ⟨mode, hin, hrun⟩ := run_writeField (n := n) (p := p) field hmode
    rw [unixBreaks_writeFields, append_assoc, placed_append, foldl_append, hrun, hfield, nil_append]
    cases fields with
    | nil =>
      rw [if_pos rfl, nil_append, placed, placed, foldl_cons, step_break hin]
      simp [endRecord, close]
    | cons next fields =>
      rw [if_neg (cons_ne_nil _ _), cons_append, placed, foldl_cons,
        step_comma hin, ih (cons_ne_nil _ _) rfl rfl]
      simp [endField, close]

theorem exists_writeFields {fields : List Text} (h : 2 ≤ fields.length) :
    ∃ c s, unixBreaks (writeFields fields) = c :: s ∧ c ≠ '\n' := by
  obtain ⟨field, next, fields, rfl⟩ : ∃ field next rest, fields = field :: next :: rest := by
    match fields, h with
    | field :: next :: rest, _ => exact ⟨field, next, rest, rfl⟩
  rw [unixBreaks_writeFields, if_neg (cons_ne_nil _ _), unixBreaks_writeField]
  split_ifs with hquotes
  · exact ⟨'"', _, rfl, by decide⟩
  · obtain ⟨-, hplain, -⟩ := writeField_of_plain (Bool.not_eq_true _ ▸ hquotes)
    cases field with
    | nil => exact ⟨',', _, rfl, by decide⟩
    | cons c s => exact ⟨c, _, rfl, (hplain c mem_cons_self).1⟩

structure Reader.Idle (r : Reader) : Prop where
  mode : r.mode = .blank
  fields : r.fields = []
  field : r.field = []

theorem Reader.step_blank {c : Char} (hc : c ≠ '\n') (hmode : r.mode = .blank) :
    r.step n (c, p) = ({ r with mode := .start, startLine := p.line } : Reader).step n (c, p) := by
  simp only [step, hmode, if_neg hc, startField, push, endField, endRecord, close]

theorem Reader.run_writeRecord {fields : List Text} (h : 2 ≤ fields.length)
    (hlength : fields.length = n) (hidle : r.Idle) :
    ∃ startLine, (placed p (unixBreaks (writeFields fields) ++ ['\n'])).foldl (step n) r =
      { r with
        startLine := startLine
        records := r.records ++ [⟨startLine, .ok (fields.map unixBreaks)⟩] } := by
  obtain ⟨c, s, hwrite, hc⟩ := exists_writeFields h
  have hne : fields ≠ [] := ne_nil_of_length_pos (by omega)
  have hbegin : (placed p (unixBreaks (writeFields fields) ++ ['\n'])).foldl (step n) r =
      (placed p (unixBreaks (writeFields fields) ++ ['\n'])).foldl (step n)
        { r with mode := .start, startLine := p.line } := by
    rw [hwrite, cons_append, placed, foldl_cons, foldl_cons, step_blank hc hidle.mode]
  have hrun := run_writeFields (n := n) (p := p)
    (r := { r with mode := .start, startLine := p.line }) hne rfl hidle.field
  refine ⟨p.line, ?_⟩
  rw [hbegin, hrun, close, hidle.fields, nil_append, counted, length_map,
    if_pos hlength, hidle.mode, hidle.field]

theorem Reader.run_write {records : List (List Text)} (hn : 2 ≤ n)
    (hlength : ∀ fields ∈ records, fields.length = n) (hidle : r.Idle) :
    let r' := (placed p (unixBreaks (write records))).foldl (step n) r
    r'.Idle ∧ r'.records.map Record.result =
      r.records.map Record.result ++ records.map (fun fields ↦ .ok (fields.map unixBreaks)) := by
  induction records generalizing r p with
  | nil => exact ⟨hidle, by simp [write, placed]⟩
  | cons fields records ih =>
    have hcount := hlength fields mem_cons_self
    obtain ⟨startLine, hrun⟩ := run_writeRecord (p := p) (hcount ▸ hn) hcount hidle
    have hwrite : unixBreaks (write (fields :: records)) =
        unixBreaks (writeFields fields) ++ ['\n'] ++ unixBreaks (write records) := by
      rw [write, flatMap_cons, unixBreaks_writeRecord, append_assoc, singleton_append, write]
    simp only [hwrite]
    rw [placed_append _ (unixBreaks (writeFields fields) ++ ['\n']), foldl_append, hrun]
    obtain ⟨hidle', hrecords⟩ := ih (p := _) (fun f hf ↦ hlength f (mem_cons_of_mem _ hf))
      (r := { r with
        startLine := startLine
        records := r.records ++ [⟨startLine, .ok (fields.map unixBreaks)⟩] })
      ⟨hidle.mode, hidle.fields, hidle.field⟩
    exact ⟨hidle', by rw [hrecords]; simp⟩

theorem read_write {records : List (List Text)} (hn : 2 ≤ n)
    (hlength : ∀ fields ∈ records, fields.length = n) :
    (read n (write records)).map Record.result =
      records.map (fun fields ↦ .ok (fields.map unixBreaks)) := by
  have hlast : (unixBreaks (write records)).getLast? ≠ some '\r' := by
    induction records with
    | nil => simp [write]
    | cons fields records ih =>
      have ih := ih (fun f hf ↦ hlength f (mem_cons_of_mem _ hf))
      rw [write, flatMap_cons, unixBreaks_writeRecord, getLast?_append, getLast?_cons, ← write]
      cases h : (unixBreaks (write records)).getLast? with
      | none => simp
      | some c => simpa [h] using ih
  obtain ⟨hidle, hrecords⟩ := Reader.run_write (r := .init) (p := ⟨1, 1⟩) hn hlength ⟨rfl, rfl, rfl⟩
  rw [read, readLines, if_neg hlast]
  simp only [Reader.finish, hidle.mode]
  rw [hrecords]
  rfl

end Reading

section Lines

def Mode.startField (c : Char) : Mode :=
  if c = '"' then .quoted else if c = ',' then .start else if c = '\n' then .blank
  else if isSpace c then .start else .bare

def Mode.next (mode : Mode) (c : Char) : Mode :=
  match mode with
  | .blank => if c = '\n' then .blank else startField c
  | .start => startField c
  | .bare =>
    if c = ',' then .start else if c = '\n' then .blank else if c = '"' then .dropped else .bare
  | .quoted => if c = '"' then .quote else .quoted
  | .quote =>
    if c = '"' then .quoted else if c = ',' then .start else if c = '\n' then .blank else .dropped
  | .dropped => if c = '\n' then .blank else .dropped

structure Layout where
  mode : Mode
  strays : ℕ
  before : List ℕ

def Layout.step (l : Layout) (c : Char) : Layout where
  mode := l.mode.next c
  strays := if c = '\n' ∧ (l.mode = .blank ∨ l.mode = .quoted) then l.strays + 1 else l.strays
  before := if l.mode = .blank ∧ c ≠ '\n' then l.before ++ [l.strays] else l.before

def straysBefore (text : Text) : List ℕ :=
  ((readLines text).foldl Layout.step ⟨.blank, 0, []⟩).before

variable {n : ℕ}

theorem Reader.mode_startField (r : Reader) (c : Char) :
    (r.startField n c).mode = Mode.startField c := by
  rw [startField, Mode.startField]
  split_ifs <;> rfl

theorem Reader.mode_step (r : Reader) (c : Char) (p : Place) :
    (r.step n (c, p)).mode = r.mode.next c := by
  cases h : r.mode with
  | blank =>
    simp only [step, h, Mode.next]
    split_ifs
    · exact h
    · exact mode_startField _ c
  | start =>
    simp only [step, h, Mode.next]
    exact mode_startField _ c
  | dropped =>
    simp only [step, h, Mode.next]
    split_ifs
    · rfl
    · exact h
  | _ =>
    simp only [step, h, Mode.next]
    split_ifs <;> rfl

def Mode.isOpen : Mode → Bool
  | .blank | .dropped => false
  | _ => true

def Reader.starts (r : Reader) : List ℕ :=
  r.records.map Record.startLine ++ if r.mode.isOpen then [r.startLine] else []

structure Reader.Follows (r : Reader) (l : Layout) (p : Place) : Prop where
  mode : r.mode = l.mode
  starts : r.starts = l.before.mapIdx (fun i strays ↦ i + 1 + strays)
  line : p.line + (if r.mode = .dropped then 1 else 0) = r.records.length + 1 + l.strays

theorem Reader.starts_startField (r : Reader) (c : Char) :
    (r.startField n c).starts = r.records.map Record.startLine ++ [r.startLine] := by
  rw [startField]
  split_ifs <;> simp [starts, endField, endRecord, close, push, Mode.isOpen]

theorem Reader.starts_step (r : Reader) (c : Char) (p : Place) : (r.step n (c, p)).starts =
    r.starts ++ if r.mode = .blank ∧ c ≠ '\n' then [p.line] else [] := by
  cases h : r.mode with
  | blank =>
    by_cases hc : c = '\n'
    · simp [step, h, hc]
    · simp only [step, h, if_neg hc, starts_startField]
      simp [starts, h, hc, Mode.isOpen]
  | start =>
    simp only [step, h, starts_startField]
    simp [starts, h, Mode.isOpen]
  | bare | quoted | quote =>
    simp only [step, h]
    split_ifs <;> simp_all [starts, endField, endRecord, close, push, fail, Mode.isOpen]
  | dropped =>
    simp only [step, h]
    split_ifs <;> simp_all [starts, Mode.isOpen]

theorem Reader.length_startField (r : Reader) (c : Char) : (r.startField n c).records.length =
    r.records.length + if c = '\n' then 1 else 0 := by
  rw [startField]
  split_ifs <;> simp_all [endField, endRecord, close, push]

theorem Reader.length_step (r : Reader) (c : Char) (p : Place) :
    (r.step n (c, p)).records.length + (if r.mode = .dropped then 1 else 0) +
        (if c = '\n' ∧ (r.mode = .blank ∨ r.mode = .quoted) then 1 else 0) =
      r.records.length + (if r.mode.next c = .dropped then 1 else 0) +
        if c = '\n' then 1 else 0 := by
  have hstart : Mode.startField c ≠ .dropped := by
    rw [Mode.startField]
    split_ifs <;> decide
  cases h : r.mode with
  | blank =>
    by_cases hc : c = '\n'
    · simp [step, h, hc, Mode.next]
    · simp [step, h, hc, Mode.next, length_startField, hstart]
  | start => simp [step, h, Mode.next, length_startField, hstart]
  | bare | quoted | quote =>
    simp only [step, h, Mode.next]
    split_ifs <;> simp_all [endField, endRecord, close, push, fail]
  | dropped =>
    simp only [step, h, Mode.next]
    split_ifs <;> simp_all

theorem Reader.Follows.step {r : Reader} {l : Layout} {p : Place} (h : r.Follows l p) (c : Char) :
    (r.step n (c, p)).Follows (l.step c) (p.next c) := by
  have hbefore : (l.step c).before =
      if l.mode = .blank ∧ c ≠ '\n' then l.before ++ [l.strays] else l.before := rfl
  refine ⟨by rw [mode_step, h.mode]; rfl, ?_, ?_⟩
  · rw [starts_step, h.starts, hbefore, ← h.mode]
    split_ifs with hbegin
    · have hlength : l.before.length = r.records.length := by
        have := congrArg List.length h.starts
        rw [Reader.starts, hbegin.1, Mode.isOpen, if_neg Bool.false_ne_true, append_nil,
          length_map, length_mapIdx] at this
        exact this.symm
      have hline := h.line
      rw [hbegin.1, if_neg (by decide), Nat.add_zero] at hline
      rw [mapIdx_append, mapIdx_singleton, Nat.zero_add, hlength, hline]
    · rw [append_nil]
  · have hline := h.line
    have hnext : (p.next c).line = p.line + if c = '\n' then 1 else 0 := by
      rw [Place.next]
      split_ifs <;> rfl
    have hcount := r.length_step (n := n) c p
    have hstrays : (l.step c).strays =
        if c = '\n' ∧ (l.mode = .blank ∨ l.mode = .quoted) then l.strays + 1 else l.strays := rfl
    rw [mode_step, hnext, hstrays, ← h.mode]
    split_ifs at hcount hline ⊢ <;> omega

theorem Reader.Follows.run {r : Reader} {l : Layout} {p : Place} (h : r.Follows l p) (s : Text) :
    ((placed p s).foldl (Reader.step n) r).Follows (s.foldl Layout.step l)
      (s.foldl Place.next p) := by
  induction s generalizing r l p with
  | nil => exact h
  | cons c s ih => exact ih (h.step c)

theorem Reader.startLine_finish (r : Reader) (p : Place) :
    (r.finish n p).map Record.startLine = r.starts := by
  rw [finish, starts]
  cases r.mode <;> simp [endRecord, fail, close, Mode.isOpen]

theorem startLine_read (text : Text) : (read n text).map Record.startLine =
    (straysBefore text).mapIdx (fun i strays ↦ i + 1 + strays) := by
  have hinit : Reader.init.Follows ⟨.blank, 0, []⟩ ⟨1, 1⟩ := ⟨rfl, rfl, rfl⟩
  rw [read, Reader.startLine_finish]
  exact (hinit.run _).starts

end Lines

end TalaPala.Library.Csv
