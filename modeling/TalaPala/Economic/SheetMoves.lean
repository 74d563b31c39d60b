import TalaPala.Economic.SheetBinding

namespace TalaPala.Economic

open List
open Library (SameOutcome bind_eq_ok forall₂_filter forall₂_filterMap forall₂_getLast?
  map_eq_of_forall₂ occurs sameOutcome_foldlM sameOutcome_mapM subset_of_occurs)
open News (Text isSpace strip)

section Readings

def LevelColumn.shift (k : ℕ) (column : LevelColumn) : LevelColumn :=
  ⟨column.col + k, column.month⟩

def Layout.shift (k : ℕ) (layout : Layout) : Layout :=
  { layout with
    columns := layout.columns.map (LevelColumn.shift k)
    growthCol := layout.growthCol + k }

def SameCells (firstCol k : ℕ) (row row' : List Cell) : Prop :=
  ∀ col, firstCol ≤ col → cellAt row' (col + k) = cellAt row col

structure SameLabelled (firstCol k : ℕ) (labelled labelled' : LabelledRow) : Prop where
  key : labelled.key = labelled'.key
  cells : SameCells firstCol k labelled.row labelled'.row

structure SameFound (firstCol k : ℕ) (p p' : RowKey × FoundRow) : Prop where
  key : p.1 = p'.1
  levels : p.2.levels = p'.2.levels
  cells : SameCells firstCol k p.2.row p'.2.row

variable {firstCol k : ℕ} {columns : List LevelColumn} {found found' : FoundRows}

theorem sameFound_lookup (h : List.Forall₂ (SameFound firstCol k) found found') (key : RowKey) :
    Option.Rel (fun row row' ↦ row.levels = row'.levels ∧ SameCells firstCol k row.row row'.row)
      (found.lookup key) (found'.lookup key) := by
  induction h with
  | nil => exact .none
  | @cons p p' _ _ hp _ ih =>
    rw [lookup_cons, lookup_cons, hp.key]
    split
    · exact .some ⟨hp.levels, hp.cells⟩
    · exact ih

theorem level_shift {labelled labelled' : LabelledRow}
    (h : SameLabelled firstCol k labelled labelled') {column : LevelColumn}
    (hcol : firstCol ≤ column.col) :
    SameOutcome (· = ·) (level labelled column) (level labelled' (column.shift k)) := by
  have hcell : cellAt labelled'.row (column.shift k).col = cellAt labelled.row column.col :=
    h.cells column.col hcol
  rw [level, level, hcell]
  cases cellAt labelled.row column.col with
  | number q =>
    dsimp only
    split_ifs
    · exact .refused ..
    · exact .passed rfl
  | _ => exact .refused ..

theorem mapM_level_shift {labelled labelled' : LabelledRow}
    (h : SameLabelled firstCol k labelled labelled')
    (hcols : ∀ column ∈ columns, firstCol ≤ column.col) :
    SameOutcome (· = ·) (columns.mapM (level labelled))
      ((columns.map (LevelColumn.shift k)).mapM (level labelled')) := by
  have hpairs : List.Forall₂ (fun column column' ↦ firstCol ≤ column.col ∧
      column' = column.shift k) columns (columns.map (LevelColumn.shift k)) :=
    List.forall₂_map_right_iff.mpr (List.forall₂_same.mpr (fun c hc ↦ ⟨hcols c hc, rfl⟩))
  have hmapM := sameOutcome_mapM (S := (· = ·)) (fun c c' hc ↦ hc.2 ▸ level_shift h hc.1) hpairs
  rwa [List.forall₂_eq_eq_eq] at hmapM

theorem collectRows_shift {rows rows' : List LabelledRow}
    (h : List.Forall₂ (SameLabelled firstCol k) rows rows')
    (hcols : ∀ column ∈ columns, firstCol ≤ column.col)
    (hfound : List.Forall₂ (SameFound firstCol k) found found') :
    SameOutcome (List.Forall₂ (SameFound firstCol k)) (collectRows columns found rows)
      (collectRows (columns.map (LevelColumn.shift k)) found' rows') := by
  induction h generalizing found found' with
  | nil => exact .passed hfound
  | @cons labelled labelled' _ _ hlabelled _ ih =>
    rw [collectRows, collectRows, ← hlabelled.key]
    have hlookup := sameFound_lookup hfound labelled.key
    generalize found.lookup labelled.key = o, found'.lookup labelled.key = o' at hlookup
    cases hlookup with
    | some => exact .refused ..
    | none =>
      refine (mapM_level_shift hlabelled hcols).bind (fun levels levels' heq ↦ ih ?_)
      subst heq
      exact rel_append hfound (.cons ⟨rfl, rfl, hlabelled.cells⟩ .nil)

theorem levelsOf_shift (h : List.Forall₂ (SameFound firstCol k) found found') (key : RowKey) :
    levelsOf found key = levelsOf found' key := by
  have hlookup := sameFound_lookup h key
  rw [levelsOf, levelsOf]
  generalize found.lookup key = o, found'.lookup key = o' at hlookup
  cases hlookup with
  | none => rfl
  | some hrow => exact hrow.1

theorem missingRows_shift (h : List.Forall₂ (SameFound firstCol k) found found') :
    missingRows found = missingRows found' := by
  refine filter_congr (fun key _ ↦ ?_)
  have hlookup := sameFound_lookup h key
  generalize found.lookup key = o, found'.lookup key = o' at hlookup
  cases hlookup <;> rfl

theorem agree_shift (what : Identity) (left right : List ℚ) :
    SameOutcome (· = ·) (agree what columns left right)
      (agree what (columns.map (LevelColumn.shift k)) left right) := by
  rw [agree, agree, zip_map_left]
  refine sameOutcome_foldlM ?_ (List.forall₂_map_right_iff.mpr (List.forall₂_same.mpr
    (fun p _ ↦ (rfl : Prod.map (LevelColumn.shift k) id p = Prod.map (LevelColumn.shift k) id p))))
    rfl
  rintro worst _ p _ rfl rfl
  dsimp only [Prod.map, id]
  split_ifs
  · exact .refused ..
  · exact .passed rfl

theorem checkAccounting_shift (h : List.Forall₂ (SameFound firstCol k) found found') :
    SameOutcome (· = ·) (checkAccounting columns found)
      (checkAccounting (columns.map (LevelColumn.shift k)) found') := by
  rw [checkAccounting, checkAccounting, ← funext (levelsOf_shift h)]
  refine (agree_shift _ _ _).bind (fun base _ hbase ↦ ?_)
  refine (agree_shift _ _ _).bind (fun m2 _ hm2 ↦ ?_)
  refine (agree_shift _ _ _).bind (fun money _ hmoney ↦ ?_)
  subst hbase hm2 hmoney
  exact .passed rfl

theorem checkGrowthCell_col (key : RowKey) (col col' : ℕ) (cell : Cell) (pair : ℚ × ℚ)
    (worst : ℚ) : SameOutcome (· = ·) (checkGrowthCell key col cell pair worst)
      (checkGrowthCell key col' cell pair worst) := by
  cases cell with
  | number printed =>
    rw [checkGrowthCell, checkGrowthCell]
    split_ifs
    · exact .refused ..
    · exact .passed rfl
  | text s =>
    rw [checkGrowthCell, checkGrowthCell]
    split_ifs
    · exact .passed rfl
    · exact .refused ..
    · exact .refused ..
  | _ => exact .refused ..

theorem checkGrowth_shift {edition : Edition} {growthCol : ℕ} (hcol : firstCol ≤ growthCol)
    (key : RowKey) {row row' : FoundRow} (hlevels : row.levels = row'.levels)
    (hcells : SameCells firstCol k row.row row'.row) (worst : ℚ) :
    SameOutcome (· = ·) (checkGrowth edition growthCol key row worst)
      (checkGrowth edition (growthCol + k) key row' worst) := by
  have hcols : [growthCol + k, growthCol + k + 1] = [growthCol, growthCol + 1].map (· + k) := by
    rw [map_cons, map_singleton, Nat.add_right_comm]
  rw [checkGrowth, checkGrowth, hcols, zip_map_left, hlevels]
  have hpairs : List.Forall₂ (fun p p' ↦ firstCol ≤ p.1 ∧ p' = Prod.map (· + k) id p)
      ([growthCol, growthCol + 1].zip (growthPairs edition row'.levels))
      (([growthCol, growthCol + 1].zip (growthPairs edition row'.levels)).map
        (Prod.map (· + k) id)) := by
    refine List.forall₂_map_right_iff.mpr (List.forall₂_same.mpr (fun p hp ↦ ⟨?_, rfl⟩))
    have hmem := of_mem_zip hp
    simp only [mem_cons, not_mem_nil, or_false] at hmem
    omega
  refine sameOutcome_foldlM ?_ hpairs rfl
  rintro worst _ p _ rfl ⟨hp, rfl⟩
  dsimp only [Prod.map, id]
  rw [hcells p.1 hp]
  exact checkGrowthCell_col ..

theorem checkAllGrowth_shift {edition : Edition} {growthCol : ℕ} (hcol : firstCol ≤ growthCol)
    (h : List.Forall₂ (SameFound firstCol k) found found') :
    SameOutcome (· = ·) (checkAllGrowth edition growthCol found)
      (checkAllGrowth edition (growthCol + k) found') := by
  refine sameOutcome_foldlM (P := (· = ·)) ?_ (List.forall₂_same.mpr (fun _ _ ↦ rfl)) rfl
  rintro worst _ key _ rfl rfl
  have hlookup := sameFound_lookup h key
  generalize found.lookup key = o, found'.lookup key = o' at hlookup
  cases hlookup with
  | none => exact .passed rfl
  | some hrow => exact checkGrowth_shift hcol key hrow.1 hrow.2 worst

theorem readRows_shift {layout : Layout} {rows rows' : List LabelledRow}
    (h : List.Forall₂ (SameLabelled firstCol k) rows rows')
    (hcols : ∀ column ∈ layout.columns, firstCol ≤ column.col)
    (hgrowth : firstCol ≤ layout.growthCol) :
    SameOutcome (fun readings readings' ↦
        List.Forall₂ (SameFound firstCol k) readings.found readings'.found)
      (readRows layout rows) (readRows (layout.shift k) rows') := by
  rw [readRows_eq, readRows_eq]
  refine (collectRows_shift h hcols .nil).bind (fun found found' hfound ↦ ?_)
  rw [missingRows_shift hfound]
  split_ifs
  · exact .refused ..
  refine (checkAccounting_shift hfound).bind (fun gap _ hgap ↦ ?_)
  refine (checkAllGrowth_shift hgrowth hfound).bind (fun growth _ hgrow ↦ ?_)
  exact .passed hfound

end Readings

section Sheets

variable {nfkc : Nfkc} {grid grid' : List (List Cell)} {k : ℕ}

def returned (nfkc : Nfkc) (grid : List (List Cell)) (sheetName : String) :
    Option (CbiCode → List CbiObservation) :=
  (parseSheet nfkc grid sheetName).toOption.map ParsedSheet.observations

def keyedRows (nfkc : Nfkc) (rows : List (List Cell)) (firstCol : ℕ) : List (RowKey × List Cell) :=
  rows.filterMap (fun row ↦
    ((rowTargets nfkc).lookup (labelKey nfkc (rowLabel nfkc row firstCol))).map (fun key ↦ (key, row)))

theorem map_labelledRows (yearRow firstCol : ℕ) :
    (labelledRows nfkc grid yearRow firstCol).map (fun labelled ↦ (labelled.key, labelled.row)) =
      keyedRows nfkc (grid.drop (yearRow + 1)) firstCol := by
  rw [labelledRows, map_filterMap, drop_zipIdx, keyedRows]
  conv_rhs => rw [← zipIdx_map_fst (0 + (yearRow + 1)) (grid.drop (yearRow + 1))]
  rw [filterMap_map]
  refine filterMap_congr (fun p _ ↦ ?_)
  rw [Option.map_map]
  rfl

theorem forall₂_labelledRows {yearRow yearRow' firstCol firstCol' : ℕ}
    (h : List.Forall₂ (fun p p' ↦ p.1 = p'.1 ∧ SameCells firstCol k p.2 p'.2)
      (keyedRows nfkc (grid.drop (yearRow + 1)) firstCol)
      (keyedRows nfkc (grid'.drop (yearRow' + 1)) firstCol')) :
    List.Forall₂ (SameLabelled firstCol k) (labelledRows nfkc grid yearRow firstCol)
      (labelledRows nfkc grid' yearRow' firstCol') := by
  rw [← map_labelledRows, ← map_labelledRows, List.forall₂_map_left_iff,
    List.forall₂_map_right_iff] at h
  exact h.imp (fun _ _ hp ↦ ⟨hp.1, hp.2⟩)

theorem LaidOut.firstCol_le {layout : Layout} {first : ℕ} (h : LaidOut nfkc grid layout first) :
    (∀ column ∈ layout.columns, layout.firstCol ≤ column.col) ∧
      layout.firstCol ≤ layout.growthCol := by
  refine ⟨fun column hmem ↦ h.headed.first_le hmem, ?_⟩
  obtain ⟨c₀, c₁, c₂, heq⟩ := length_eq_three.mp h.columns_length
  have hmem : c₀ ∈ layout.columns := heq ▸ mem_cons_self
  exact (h.headed.first_le hmem).trans (Nat.le_of_lt ((h.headed.mem_iff c₀).mp hmem).1.2)

theorem LaidOut.firstCol_shift {layout : Layout} {first : ℕ} (h : LaidOut nfkc grid layout first) :
    (layout.shift k).firstCol = layout.firstCol + k := by
  obtain ⟨c₀, c₁, c₂, heq⟩ := length_eq_three.mp h.columns_length
  rw [Layout.firstCol, Layout.firstCol, Layout.shift, heq]
  rfl

theorem observationsOf_shift {firstCol : ℕ} {columns : List LevelColumn} {found found' : FoundRows}
    (h : List.Forall₂ (SameFound firstCol k) found found') (start : Option Month) :
    observationsOf (columns.map (LevelColumn.shift k)) start found' =
      observationsOf columns start found := by
  funext code
  rw [observationsOf, observationsOf, levelsOf_shift h, zip_map_left, map_map]
  rfl

theorem returned_congr
    (hlayout : SameOutcome (fun layout layout' ↦ layout' = layout.shift k) (layoutOf nfkc grid)
      (layoutOf nfkc grid'))
    (hrows : ∀ layout, layoutOf nfkc grid = .ok layout →
      List.Forall₂ (fun p p' ↦ p.1 = p'.1 ∧ SameCells layout.firstCol k p.2 p'.2)
        (keyedRows nfkc (grid.drop (layout.yearRow + 1)) layout.firstCol)
        (keyedRows nfkc (grid'.drop (layout.yearRow + 1)) (layout.firstCol + k)))
    (hnotes : revisionNotes nfkc grid' = revisionNotes nfkc grid) (sheetName : String) :
    returned nfkc grid' sheetName = returned nfkc grid sheetName := by
  have hstart : revisionStart nfkc grid' = revisionStart nfkc grid := by
    rw [revisionStart, hnotes, revisionStart]
  rw [returned, returned, parseSheet_eq, parseSheet_eq, hstart]
  cases hread : layoutOf nfkc grid with
  | error e =>
    rw [hread] at hlayout
    cases hread' : layoutOf nfkc grid' with
    | error e' => rfl
    | ok layout' =>
      rw [hread'] at hlayout
      cases hlayout
  | ok layout =>
    obtain ⟨_, hread', rfl⟩ := hlayout.ok_left hread
    obtain ⟨first, hlaid⟩ := layoutOf_spec hread
    have hlabelled := forall₂_labelledRows (hrows layout hread)
    obtain ⟨hcols, hgrowth⟩ := hlaid.firstCol_le
    have hreadings := readRows_shift hlabelled hcols hgrowth
    rw [hread']
    change ((readRows (layout.shift k) (labelledRows nfkc grid' layout.yearRow
      (layout.shift k).firstCol) >>= _).toOption.map _) = ((readRows layout _ >>= _).toOption.map _)
    rw [hlaid.firstCol_shift]
    generalize readRows layout _ = x, readRows (layout.shift k) _ = y at hreadings
    cases hreadings with
    | refused => rfl
    | passed hfound =>
      cases revisionStart nfkc grid with
      | error => rfl
      | ok start => exact congrArg some (observationsOf_shift hfound start)

end Sheets

section BlankRows

variable {nfkc : Nfkc} {grid grid' : List (List Cell)}

def isBlank : Cell → Bool
  | .text s => strip s = []
  | .empty => true
  | _ => false

def isBlankRow (row : List Cell) : Bool := row.all isBlank

def SameButBlankRows (nfkc : Nfkc) (grid grid' : List (List Cell)) : Prop :=
  ∃ above below below' titleRow yearRow, grid = above ++ below ∧ grid' = above ++ below' ∧
    findTitleRow nfkc grid = .ok titleRow ∧ findYearRow grid (titleRow + 1) = .ok yearRow ∧
      yearRow < above.length ∧
        below'.filter (!isBlankRow ·) = below.filter (!isBlankRow ·)

theorem strip_eq_nil_iff {s : Text} : strip s = [] ↔ s.filter (!isSpace ·) = [] := by
  constructor
  · intro h
    rw [← filter_strip, h, filter_nil]
  · intro h
    have hspace : ∀ c ∈ s, isSpace c = true := by simpa using h
    rw [strip, dropWhile_eq_nil_iff.mpr hspace, rdropWhile_nil]

theorem rowTexts_of_isBlankRow {row : List Cell} (h : isBlankRow row = true) :
    rowTexts nfkc row = [] := by
  refine filterMap_eq_nil_iff.mpr (fun p hp ↦ ?_)
  have hblank := all_eq_true.mp h p.1 (fst_mem_of_mem_zipIdx hp)
  generalize p.1 = cell at hblank
  cases cell with
  | text s => exact if_pos (of_decide_eq_true hblank)
  | _ => rfl

theorem rowNotes_of_isBlankRow {row : List Cell} (h : isBlankRow row = true) :
    revisionNotes nfkc [row] = [] := by
  rw [revisionNotes, flatMap_singleton]
  refine filterMap_eq_nil_iff.mpr (fun cell hcell ↦ ?_)
  have hblank := all_eq_true.mp h cell hcell
  cases cell with
  | text s =>
    refine if_neg (fun hmark ↦ ?_)
    have hletter : 'M' ∈ s.filter (!isSpace ·) :=
      mem_filter.mpr ⟨subset_of_occurs hmark (by decide), by decide⟩
    rw [strip_eq_nil_iff.mp (of_decide_eq_true hblank)] at hletter
    cases hletter
  | _ => rfl

theorem revisionNotes_append (rows rows' : List (List Cell)) :
    revisionNotes nfkc (rows ++ rows') = revisionNotes nfkc rows ++ revisionNotes nfkc rows' :=
  flatMap_append

theorem revisionNotes_filter (rows : List (List Cell)) :
    revisionNotes nfkc (rows.filter (!isBlankRow ·)) = revisionNotes nfkc rows := by
  induction rows with
  | nil => rfl
  | cons row rows ih =>
    rw [← singleton_append (l := rows), revisionNotes_append, ← ih]
    by_cases hblank : isBlankRow row = true
    · rw [rowNotes_of_isBlankRow hblank, singleton_append,
        filter_cons_of_neg (by simpa using hblank), nil_append]
    · rw [singleton_append, filter_cons_of_pos (by simpa using hblank),
        ← singleton_append, revisionNotes_append]

theorem keyedRows_append (rows rows' : List (List Cell)) (firstCol : ℕ) :
    keyedRows nfkc (rows ++ rows') firstCol =
      keyedRows nfkc rows firstCol ++ keyedRows nfkc rows' firstCol := filterMap_append ..

theorem keyedRows_filter (rows : List (List Cell)) (firstCol : ℕ) :
    keyedRows nfkc (rows.filter (!isBlankRow ·)) firstCol = keyedRows nfkc rows firstCol := by
  rw [keyedRows, filterMap_filter]
  refine filterMap_congr (fun row _ ↦ ?_)
  by_cases hblank : isBlankRow row = true
  · have hlabel : labelKey nfkc [] = [] := labelKey_plain nfkc rfl
    rw [if_neg (by simpa using hblank), rowLabel, rowTexts_of_isBlankRow hblank]
    change none = ((rowTargets nfkc).lookup (labelKey nfkc [])).map _
    rw [hlabel, lookup_rowTargets_nil, Option.map_none]
  · rw [if_pos (by simpa using hblank)]

theorem rowAt_append {above below below' : List (List Cell)} {index : ℕ} (h : index < above.length) :
    rowAt (above ++ below') index = rowAt (above ++ below) index := by
  rw [rowAt, rowAt, getD_eq_getElem?_getD, getD_eq_getElem?_getD,
    getElem?_append_left h, getElem?_append_left h]

theorem findTitleRow_iff {titleRow : ℕ} : findTitleRow nfkc grid = .ok titleRow ↔
    (List.range headerScanRows).find? (fun index ↦ (rowTexts nfkc (rowAt grid index)).any
      (fun t ↦ occurs (titleKey nfkc) (labelKey nfkc t.2))) = some titleRow := by
  rw [findTitleRow]
  split
  next index hfind => rw [hfind, Except.ok.injEq, Option.some.injEq]
  next hfind => rw [hfind]; exact iff_of_false (by rintro ⟨⟩) (by rintro ⟨⟩)

theorem findYearRow_iff {start yearRow : ℕ} : findYearRow grid start = .ok yearRow ↔
    (List.range' start headerScanRows).find? (fun index ↦
      decide (3 ≤ countYears (rowAt grid index))) = some yearRow := by
  rw [findYearRow]
  split
  next index hfind => rw [hfind, Except.ok.injEq, Option.some.injEq]
  next hfind => rw [hfind]; exact iff_of_false (by rintro ⟨⟩) (by rintro ⟨⟩)

variable {above below below' : List (List Cell)}

theorem findTitleRow_append {titleRow : ℕ} (h : findTitleRow nfkc (above ++ below) = .ok titleRow)
    (hlt : titleRow < above.length) : findTitleRow nfkc (above ++ below') = .ok titleRow := by
  rw [findTitleRow_iff, find?_range_eq_some] at h ⊢
  refine ⟨rowAt_append hlt ▸ h.1, h.2.1, fun j hj ↦ ?_⟩
  rw [rowAt_append (hj.trans hlt)]
  exact h.2.2 j hj

theorem findYearRow_append {start yearRow : ℕ} (h : findYearRow (above ++ below) start = .ok yearRow)
    (hlt : yearRow < above.length) : findYearRow (above ++ below') start = .ok yearRow := by
  rw [findYearRow_iff, find?_range'_eq_some] at h ⊢
  refine ⟨rowAt_append hlt ▸ h.1, h.2.1, fun j hle hj ↦ ?_⟩
  rw [rowAt_append (hj.trans hlt)]
  exact h.2.2 j hle hj

theorem levelColumns_append {titleRow yearRow : ℕ} (hlt : yearRow < above.length)
    (edition : Edition) : levelColumns nfkc (above ++ below') titleRow yearRow edition =
      levelColumns nfkc (above ++ below) titleRow yearRow edition := by
  rw [levelColumns_eq, levelColumns_eq, take_append_of_le_length hlt.le,
    take_append_of_le_length hlt.le, rowAt_append hlt,
    rowAt_append ((Nat.sub_le yearRow 1).trans_lt hlt)]

theorem layoutOf_append {titleRow yearRow : ℕ}
    (htitle : findTitleRow nfkc (above ++ below) = .ok titleRow)
    (hyears : findYearRow (above ++ below) (titleRow + 1) = .ok yearRow)
    (hlt : yearRow < above.length) :
    layoutOf nfkc (above ++ below') = layoutOf nfkc (above ++ below) := by
  have htitleLt : titleRow < above.length := (findYearRow_spec hyears).trans hlt.le
  have hunit : unit nfkc (above ++ below') yearRow = unit nfkc (above ++ below) yearRow := by
    rw [unit, unit, take_append_of_le_length hlt, take_append_of_le_length hlt]
  rw [layoutOf_eq, layoutOf_eq, htitle, findTitleRow_append htitle htitleLt]
  change editionFromTitle _ _ >>= _ = editionFromTitle _ _ >>= _
  rw [rowAt_append htitleLt]
  cases editionFromTitle nfkc (rowAt (above ++ below) titleRow) with
  | error => rfl
  | ok edition =>
    change findYearRow _ _ >>= _ = findYearRow _ _ >>= _
    rw [hyears, findYearRow_append hyears hlt]
    change unit _ _ _ >>= _ = unit _ _ _ >>= _
    rw [hunit, levelColumns_append hlt]

theorem SameOutcome.shift_zero {layout : Except CbiParseError Layout} :
    SameOutcome (fun layout layout' ↦ layout' = Layout.shift 0 layout) layout layout := by
  have hcolumns (columns : List LevelColumn) : columns.map (LevelColumn.shift 0) = columns :=
    map_id columns
  cases layout with
  | error e => exact .refused e e
  | ok layout => exact .passed (by rw [Layout.shift, hcolumns, Nat.add_zero])

theorem SameButBlankRows.returned_eq (h : SameButBlankRows nfkc grid grid') (sheetName : String) :
    returned nfkc grid' sheetName = returned nfkc grid sheetName := by
  obtain ⟨above, below, below', titleRow, yearRow, rfl, rfl, htitle, hyears, hlt, hrows⟩ := h
  have hsame : layoutOf nfkc (above ++ below') = layoutOf nfkc (above ++ below) :=
    layoutOf_append htitle hyears hlt
  refine returned_congr (k := 0) (hsame ▸ SameOutcome.shift_zero) (fun layout hlayout ↦ ?_) ?_
    sheetName
  · obtain ⟨first, hlaid⟩ := layoutOf_spec hlayout
    obtain rfl := Except.ok.inj (htitle.symm.trans hlaid.titled)
    obtain rfl := Except.ok.inj (hyears.symm.trans hlaid.years)
    have hyearRow : layout.yearRow + 1 ≤ above.length := hlt
    rw [drop_append_of_le_length hyearRow, drop_append_of_le_length hyearRow,
      keyedRows_append, keyedRows_append, ← keyedRows_filter below', hrows, keyedRows_filter]
    exact List.forall₂_same.mpr (fun p _ ↦ ⟨rfl, fun col _ ↦ rfl⟩)
  · rw [revisionNotes_append, revisionNotes_append, ← revisionNotes_filter below', hrows,
      revisionNotes_filter]

end BlankRows

section Respelled

variable {nfkc : Nfkc} {grid grid' : List (List Cell)} {firstCol : ℕ}

inductive LabelRespelled : Cell → Cell → Prop
  | same (cell : Cell) : LabelRespelled cell cell
  | respelled {s s' : Text} (h : Respelling s s') (hs : strip s ≠ []) (hs' : strip s' ≠ [])
      (hmark : occurs methodFootnoteMark s = false) (hmark' : occurs methodFootnoteMark s' = false) :
      LabelRespelled (.text s) (.text s')

structure RowRespelled (firstCol : ℕ) (row row' : List Cell) : Prop where
  cells : List.Forall₂ LabelRespelled row row'
  values : ∀ col, firstCol ≤ col → cellAt row' col = cellAt row col

def SameButSpelling (nfkc : Nfkc) (grid grid' : List (List Cell)) : Prop :=
  ∃ above below below' layout, grid = above ++ below ∧ grid' = above ++ below' ∧
    layoutOf nfkc grid = .ok layout ∧ above.length = layout.yearRow + 1 ∧
      List.Forall₂ (RowRespelled layout.firstCol) below below'

theorem forall₂_zipIdx {α β : Type*} {R : α → β → Prop} {l : List α} {l' : List β}
    (h : List.Forall₂ R l l') (k : ℕ) :
    List.Forall₂ (fun p p' ↦ R p.1 p'.1 ∧ p.2 = p'.2) (l.zipIdx k) (l'.zipIdx k) := by
  induction h generalizing k with
  | nil => exact .nil
  | cons hab _ ih => exact .cons ⟨hab, rfl⟩ (ih (k + 1))

theorem rowTexts_respelled {row row' : List Cell} (h : List.Forall₂ LabelRespelled row row') :
    List.Forall₂ (fun t t' ↦ t.1 = t'.1 ∧ labelKey nfkc t.2 = labelKey nfkc t'.2)
      (rowTexts nfkc row) (rowTexts nfkc row') := by
  refine forall₂_filterMap ?_ (forall₂_zipIdx h 0)
  rintro ⟨cell, col⟩ ⟨cell', _⟩ ⟨hcell, rfl⟩
  dsimp only at hcell ⊢
  cases hcell with
  | same =>
    split
    · split_ifs
      · exact .none
      · exact .some ⟨rfl, rfl⟩
    · exact .none
  | respelled h hs hs' =>
    dsimp only
    rw [if_neg hs, if_neg hs']
    exact .some ⟨rfl, h.rowKey_eq nfkc⟩

theorem rowLabel_respelled {row row' : List Cell} (h : List.Forall₂ LabelRespelled row row')
    (before : ℕ) : labelKey nfkc (rowLabel nfkc row before) =
      labelKey nfkc (rowLabel nfkc row' before) := by
  have htexts : List.Forall₂ (fun t t' ↦ t.1 = t'.1 ∧ labelKey nfkc t.2 = labelKey nfkc t'.2)
      (rowTexts nfkc row) (rowTexts nfkc row') := rowTexts_respelled h
  have hleft := forall₂_filter (p := fun t ↦ decide (t.1 < before))
    (q := fun t ↦ decide (t.1 < before)) (fun t t' ht ↦ by rw [ht.1]) htexts
  have hlabel {o o' : Option (ℕ × Text)}
      (ho : Option.Rel (fun t t' ↦ t.1 = t'.1 ∧ labelKey nfkc t.2 = labelKey nfkc t'.2) o o') :
      labelKey nfkc ((o.map Prod.snd).getD []) = labelKey nfkc ((o'.map Prod.snd).getD []) := by
    cases ho with
    | none => rfl
    | some ht => exact ht.2
  exact hlabel (forall₂_getLast? hleft)

theorem rowNotes_respelled {row row' : List Cell} (h : List.Forall₂ LabelRespelled row row') :
    revisionNotes nfkc [row] = revisionNotes nfkc [row'] := by
  rw [revisionNotes, flatMap_singleton, revisionNotes, flatMap_singleton, ← List.forall₂_eq_eq_eq]
  refine forall₂_filterMap (fun cell cell' hcell ↦ ?_) h
  cases hcell with
  | same =>
    split
    · split_ifs
      · exact .some rfl
      · exact .none
    · exact .none
  | respelled _ _ _ hmark hmark' =>
    dsimp only
    rw [hmark, hmark']
    exact .none

theorem revisionNotes_respelled {rows rows' : List (List Cell)}
    (h : List.Forall₂ (RowRespelled firstCol) rows rows') :
    revisionNotes nfkc rows = revisionNotes nfkc rows' := by
  induction h with
  | nil => rfl
  | @cons row row' rows rows' hrow _ ih =>
    rw [← singleton_append, revisionNotes_append, rowNotes_respelled hrow.cells, ih,
      ← revisionNotes_append, singleton_append]

theorem keyedRows_respelled {rows rows' : List (List Cell)}
    (h : List.Forall₂ (RowRespelled firstCol) rows rows') :
    List.Forall₂ (fun p p' ↦ p.1 = p'.1 ∧ SameCells firstCol 0 p.2 p'.2)
      (keyedRows nfkc rows firstCol) (keyedRows nfkc rows' firstCol) := by
  refine forall₂_filterMap (fun row row' hrow ↦ ?_) h
  rw [rowLabel_respelled hrow.cells]
  cases (rowTargets nfkc).lookup (labelKey nfkc (rowLabel nfkc row' firstCol)) with
  | none => exact .none
  | some key => exact .some ⟨rfl, hrow.values⟩

theorem SameButSpelling.returned_eq (h : SameButSpelling nfkc grid grid') (sheetName : String) :
    returned nfkc grid' sheetName = returned nfkc grid sheetName := by
  obtain ⟨above, below, below', layout, rfl, rfl, hlayout, hlength, hrows⟩ := h
  obtain ⟨first, hlaid⟩ := layoutOf_spec hlayout
  have hsame : layoutOf nfkc (above ++ below') = layoutOf nfkc (above ++ below) :=
    layoutOf_append hlaid.titled hlaid.years (by omega)
  refine returned_congr (k := 0) (hsame ▸ SameOutcome.shift_zero) (fun layout' hlayout' ↦ ?_) ?_
    sheetName
  · obtain rfl := Except.ok.inj (hlayout.symm.trans hlayout')
    rw [← hlength, drop_left, drop_left]
    exact keyedRows_respelled hrows
  · rw [revisionNotes_append, revisionNotes_append, revisionNotes_respelled hrows]

end Respelled

section Shifted

variable {nfkc : Nfkc} {grid : List (List Cell)}

def shiftRow (k : ℕ) (row : List Cell) : List Cell := List.replicate k (.text []) ++ row

def shiftRight (k : ℕ) (grid : List (List Cell)) : List (List Cell) := grid.map (shiftRow k)

def isYear (cell : Cell) : Bool := (yearOf cell).isSome

def NoEarlierYears (nfkc : Nfkc) (grid : List (List Cell)) : Prop :=
  ∀ titleRow yearRow, findTitleRow nfkc grid = .ok titleRow →
    findYearRow grid (titleRow + 1) = .ok yearRow → ∀ index, titleRow < index → index < yearRow →
      (rowAt grid index).countP isYear < 3

theorem rowTexts_shiftRow (k : ℕ) (row : List Cell) :
    rowTexts nfkc (shiftRow k row) = (rowTexts nfkc row).map (Prod.map (· + k) id) := by
  have hblank : isBlankRow (List.replicate k (.text [])) = true := by
    rw [isBlankRow, all_replicate]
    split_ifs <;> rfl
  have hzip : row.zipIdx k = row.zipIdx.map (Prod.map id (· + k)) := by
    rw [map_snd_add_zipIdx_eq_zipIdx, Nat.add_zero]
  rw [rowTexts, shiftRow, zipIdx_append, filterMap_append, length_replicate,
    ← rowTexts, rowTexts_of_isBlankRow hblank, nil_append, Nat.zero_add, hzip,
    filterMap_map, rowTexts, map_filterMap]
  refine filterMap_congr (fun p _ ↦ ?_)
  obtain ⟨cell, col⟩ := p
  cases cell with
  | text s =>
    dsimp only [Function.comp_apply, Prod.map, id]
    split_ifs <;> rfl
  | _ => rfl

theorem cellAt_shiftRow (k : ℕ) (row : List Cell) (col : ℕ) :
    cellAt (shiftRow k row) (col + k) = cellAt row col := by
  have hlength : (List.replicate k (Cell.text [])).length ≤ col + k := by
    rw [length_replicate]
    exact Nat.le_add_left k col
  rw [cellAt, cellAt, shiftRow, getD_eq_getElem?_getD, getElem?_append_right hlength,
    length_replicate, Nat.add_sub_cancel, getD_eq_getElem?_getD]

theorem rowTexts_shiftRight (k : ℕ) (index : ℕ) : rowTexts nfkc (rowAt (shiftRight k grid) index) =
    (rowTexts nfkc (rowAt grid index)).map (Prod.map (· + k) id) := by
  simp only [rowAt, shiftRight, getD_eq_getElem?_getD, getElem?_map]
  cases grid[index]? with
  | none => rfl
  | some row => exact rowTexts_shiftRow k row

theorem cellAt_shiftRight (k : ℕ) (index col : ℕ) :
    cellAt (rowAt (shiftRight k grid) index) (col + k) = cellAt (rowAt grid index) col := by
  simp only [rowAt, shiftRight, getD_eq_getElem?_getD, getElem?_map]
  cases grid[index]? with
  | none => rfl
  | some row => exact cellAt_shiftRow k row col

theorem findTitleRow_shiftRight (k : ℕ) :
    findTitleRow nfkc (shiftRight k grid) = findTitleRow nfkc grid := by
  simp only [findTitleRow, rowTexts_shiftRight, any_map, Function.comp_def, Prod.map_snd, id]

theorem editionFromTitle_shiftRight (k index : ℕ) :
    editionFromTitle nfkc (rowAt (shiftRight k grid) index) =
      editionFromTitle nfkc (rowAt grid index) := by
  simp only [editionFromTitle, rowTexts_shiftRight, flatMap_map, Prod.map_snd, id]

theorem unit_shiftRight (k yearRow : ℕ) :
    unit nfkc (shiftRight k grid) yearRow = unit nfkc grid yearRow := by
  simp only [unit, shiftRight, ← map_take, flatMap_map, rowTexts_shiftRow, Prod.map_snd, id]

theorem countYears_shiftRow (k : ℕ) (row : List Cell) :
    countYears row ≤ countYears (shiftRow k row) ∧
      countYears (shiftRow k row) ≤ row.countP isYear := by
  have htail (row : List Cell) : countYears row ≤ row.countP isYear :=
    (tail_sublist row).countP_le
  cases k with
  | zero => exact ⟨Nat.le_refl _, htail row⟩
  | succ k =>
    have hshift : countYears (shiftRow (k + 1) row) = row.countP isYear := by
      have hnone : (List.replicate k (Cell.text [])).countP isYear = 0 := by
        rw [countP_replicate]
        rfl
      change (List.replicate k (Cell.text []) ++ row).countP isYear = _
      rw [countP_append, hnone, Nat.zero_add]
    rw [hshift]
    exact ⟨htail row, Nat.le_refl _⟩

theorem countYears_shiftRight (k index : ℕ) :
    countYears (rowAt grid index) ≤ countYears (rowAt (shiftRight k grid) index) ∧
      countYears (rowAt (shiftRight k grid) index) ≤ (rowAt grid index).countP isYear := by
  simp only [rowAt, shiftRight, getD_eq_getElem?_getD, getElem?_map]
  cases grid[index]? with
  | none => exact ⟨Nat.le_refl _, Nat.le_refl _⟩
  | some row => exact countYears_shiftRow k row

theorem findYearRow_shiftRight (k : ℕ) {start yearRow : ℕ}
    (h : findYearRow grid start = .ok yearRow)
    (hfirst : ∀ index, start ≤ index → index < yearRow → (rowAt grid index).countP isYear < 3) :
    findYearRow (shiftRight k grid) start = .ok yearRow := by
  rw [findYearRow_iff, find?_range'_eq_some] at h ⊢
  obtain ⟨hyears, hmem, _⟩ := h
  refine ⟨?_, hmem, fun j hle hlt ↦ ?_⟩
  · exact decide_eq_true ((of_decide_eq_true hyears).trans (countYears_shiftRight k yearRow).1)
  · have hfew := (countYears_shiftRight k j).2.trans_lt (hfirst j hle hlt)
    rw [Bool.not_eq_true', decide_eq_false_iff_not]
    exact Nat.not_le.mpr hfew

theorem min?_map_add (l : List ℕ) (k : ℕ) : (l.map (· + k)).min? = l.min?.map (· + k) := by
  cases hmin : l.min? with
  | none =>
    rw [min?_eq_none_iff.mp hmin]
    rfl
  | some m =>
    obtain ⟨hmem, hle⟩ := min?_eq_some_iff.mp hmin
    refine min?_eq_some_iff.mpr ⟨mem_map_of_mem hmem, ?_⟩
    rintro _ hb
    obtain ⟨b, hmemb, rfl⟩ := mem_map.mp hb
    exact Nat.add_le_add_right (hle b hmemb) k

theorem headerColumn_shiftRight (k : ℕ) {rows : List (List Cell)} {isHeader : Text → Bool}
    {missing : CbiParseError} {col : ℕ} (h : headerColumn nfkc rows isHeader missing = .ok col) :
    headerColumn nfkc (shiftRight k rows) isHeader missing = .ok (col + k) := by
  have hheaders : (((shiftRight k rows).flatMap (rowTexts nfkc)).filter (fun t ↦ isHeader t.2)).map
      Prod.fst = (((rows.flatMap (rowTexts nfkc)).filter (fun t ↦ isHeader t.2)).map
        Prod.fst).map (· + k) := by
    simp only [shiftRight, flatMap_map, rowTexts_shiftRow]
    rw [← map_flatMap, filter_map, map_map, map_map]
    rfl
  rw [headerColumn] at h ⊢
  rw [hheaders, min?_map_add]
  split at h
  next col' hmin =>
    obtain rfl : col' = col := Except.ok.inj h
    rw [hmin]
    rfl
  next => cases h

theorem levelColumn_shiftRight (k yearRow : ℕ) (edition : Edition) (col : ℕ) :
    SameOutcome (fun o o' ↦ o' = o.map (LevelColumn.shift k))
      (levelColumn nfkc edition (rowAt grid yearRow) (rowAt grid (yearRow - 1)) col)
      (levelColumn nfkc edition (rowAt (shiftRight k grid) yearRow)
        (rowAt (shiftRight k grid) (yearRow - 1)) (col + k)) := by
  rw [levelColumn, levelColumn, cellAt_shiftRight, cellAt_shiftRight]
  cases yearOf (cellAt (rowAt grid yearRow) col) with
  | none => exact .passed rfl
  | some year =>
    dsimp only
    cases monthNumber nfkc (cellAt (rowAt grid (yearRow - 1)) col) with
    | some month => exact .passed rfl
    | none =>
      dsimp only
      split_ifs
      · exact .passed rfl
      · exact .refused ..

theorem levelColumns_shiftRight (k : ℕ) {titleRow yearRow growth : ℕ} {edition : Edition}
    {columns : List LevelColumn}
    (h : levelColumns nfkc grid titleRow yearRow edition = .ok (columns, growth)) :
    levelColumns nfkc (shiftRight k grid) titleRow yearRow edition =
      .ok (columns.map (LevelColumn.shift k), growth + k) := by
  rw [levelColumns_eq] at h
  obtain ⟨first, hfirst, h⟩ := bind_eq_ok.mp h
  obtain ⟨growth, hgrowth, h⟩ := bind_eq_ok.mp h
  split_ifs at h with hright
  obtain ⟨outs, houts, h⟩ := bind_eq_ok.mp h
  split_ifs at h with hmonths
  obtain ⟨rfl, rfl⟩ := Prod.mk.inj (Except.ok.inj h)
  have hheader : ((shiftRight k grid).take yearRow).drop titleRow =
      shiftRight k ((grid.take yearRow).drop titleRow) := by
    rw [shiftRight, shiftRight, map_drop, map_take]
  have hrange : List.Forall₂ (fun col col' ↦ col' = col + k) (List.range' first (growth - first))
      (List.range' (first + k) (growth + k - (first + k))) := by
    rw [Nat.add_sub_add_right, Nat.add_comm first k, ← map_add_range', List.forall₂_map_right_iff]
    exact List.forall₂_same.mpr (fun col _ ↦ Nat.add_comm k col)
  have hmapM := sameOutcome_mapM
    (fun col _ hcol ↦ hcol ▸ @levelColumn_shiftRight nfkc grid k yearRow edition col) hrange
  obtain ⟨outs', houts', hforall⟩ := hmapM.ok_left houts
  have hfound : outs'.filterMap id = (outs.filterMap id).map (LevelColumn.shift k) := by
    have heq : outs'.map id = outs.map (Option.map (LevelColumn.shift k)) :=
      map_eq_of_forall₂ hforall (fun _ _ ho ↦ ho)
    rw [← map_id outs', heq, filterMap_map, map_filterMap]
    rfl
  have hmonths' : ((outs.filterMap id).map (LevelColumn.shift k)).map LevelColumn.month =
      edition.columns := by
    rw [map_map]
    exact not_not.mp hmonths
  rw [levelColumns_eq, hheader, headerColumn_shiftRight k hfirst, headerColumn_shiftRight k hgrowth]
  change (if growth + k ≤ first + k then _ else _ >>= _) = _
  rw [if_neg (by omega), houts']
  change (if (outs'.filterMap id).map LevelColumn.month ≠ _ then _ else _) = _
  rw [hfound, if_neg (not_not.mpr hmonths')]

theorem layoutOf_shiftRight (k : ℕ) (hyears : NoEarlierYears nfkc grid) {layout : Layout}
    (h : layoutOf nfkc grid = .ok layout) :
    layoutOf nfkc (shiftRight k grid) = .ok (layout.shift k) := by
  rw [layoutOf_eq] at h
  obtain ⟨titleRow, htitle, h⟩ := bind_eq_ok.mp h
  obtain ⟨edition, hedition, h⟩ := bind_eq_ok.mp h
  obtain ⟨yearRow, hyear, h⟩ := bind_eq_ok.mp h
  obtain ⟨unit, hunit, h⟩ := bind_eq_ok.mp h
  obtain ⟨⟨columns, growthCol⟩, hcolumns, h⟩ := bind_eq_ok.mp h
  obtain rfl := Except.ok.inj h
  refine layoutOf_eq.trans (bind_eq_ok.mpr ⟨titleRow, ?_, bind_eq_ok.mpr ⟨edition, ?_,
    bind_eq_ok.mpr ⟨yearRow, ?_, bind_eq_ok.mpr ⟨unit, ?_, bind_eq_ok.mpr
      ⟨_, levelColumns_shiftRight k hcolumns, rfl⟩⟩⟩⟩⟩)
  · rw [findTitleRow_shiftRight, htitle]
  · rw [editionFromTitle_shiftRight, hedition]
  · exact findYearRow_shiftRight k hyear (hyears titleRow yearRow htitle hyear)
  · rw [unit_shiftRight, hunit]

theorem rowLabel_shiftRow (k : ℕ) (row : List Cell) (before : ℕ) :
    rowLabel nfkc (shiftRow k row) (before + k) = rowLabel nfkc row before := by
  rw [rowLabel, rowTexts_shiftRow, filter_map, getLast?_map, Option.map_map, rowLabel]
  simp only [Function.comp_def, Prod.map_fst, Prod.map_snd, Nat.add_lt_add_iff_right, id]

theorem keyedRows_shiftRight (k : ℕ) (rows : List (List Cell)) (firstCol : ℕ) :
    List.Forall₂ (fun p p' ↦ p.1 = p'.1 ∧ SameCells firstCol k p.2 p'.2)
      (keyedRows nfkc rows firstCol) (keyedRows nfkc (shiftRight k rows) (firstCol + k)) := by
  have hrows : List.Forall₂ (fun row row' ↦ row' = shiftRow k row) rows (shiftRight k rows) :=
    List.forall₂_map_right_iff.mpr (List.forall₂_same.mpr (fun _ _ ↦ rfl))
  refine forall₂_filterMap (fun row _ hrow ↦ ?_) hrows
  subst hrow
  rw [rowLabel_shiftRow]
  cases (rowTargets nfkc).lookup (labelKey nfkc (rowLabel nfkc row firstCol)) with
  | none => exact .none
  | some key => exact .some ⟨rfl, fun col _ ↦ cellAt_shiftRow k row col⟩

theorem revisionNotes_shiftRight (k : ℕ) :
    revisionNotes nfkc (shiftRight k grid) = revisionNotes nfkc grid := by
  have hblank : isBlankRow (List.replicate k (.text [])) = true := by
    rw [isBlankRow, all_replicate]
    split_ifs <;> rfl
  have hnone : revisionNotes nfkc [List.replicate k (.text [])] = [] :=
    rowNotes_of_isBlankRow hblank
  rw [revisionNotes, flatMap_singleton] at hnone
  simp only [revisionNotes, shiftRight, flatMap_map, shiftRow, filterMap_append, hnone, nil_append]

theorem returned_shiftRight (k : ℕ) (hyears : NoEarlierYears nfkc grid) {sheetName : String}
    {parsed : ParsedSheet} (h : parseSheet nfkc grid sheetName = .ok parsed) :
    returned nfkc (shiftRight k grid) sheetName = some parsed.observations := by
  obtain ⟨layout, hlayout, _⟩ := bind_eq_ok.mp (parseSheet_eq sheetName ▸ h)
  have hshift := layoutOf_shiftRight k hyears hlayout
  have hsame : returned nfkc (shiftRight k grid) sheetName = returned nfkc grid sheetName := by
    refine returned_congr (k := k) ?_ (fun layout' hlayout' ↦ ?_) (revisionNotes_shiftRight k) sheetName
    · rw [hlayout, hshift]
      exact .passed rfl
    · rw [shiftRight, ← map_drop]
      exact keyedRows_shiftRight k _ _
  rw [hsame, returned, h]
  rfl

end Shifted

section Accepted

def esfandSheet (row : List Cell) (money : String) (growth : Cell) : List (List Cell) :=
  let text (s : String) : Cell := .text s.toList
  let series (label : String) (n : ℚ) : List Cell :=
    [text label, .number n, .number n, .number n, .number 0, .number 0]
  [[text "متغیرهای عمده پولی و اعتباری در پایان اسفند 1404"], [text "(هزار میلیارد ریال)"], row,
    [text "", text "مانده", text "", text "", text "رشد"],
    [text "", .number 1402, .number 1403, .number 1404, .number 1403, .number 1404],
    series "پايه پولي از سمت منابع" 1, series "نقدينگي برحسب عوامل موثر بر عرضه" 2000,
    [text money, .number 10, .number 999, .number 999, growth, .number 0],
    [text "شبه پول", .number 1990, .number 1001, .number 1001, .number (-4970 / 100), .number 0],
    series "پايه پولي از سمت مصارف" 1, series "نقدينگي برحسب اجزاي تشکيل‌دهنده" 2000]

def accepted (grid : List (List Cell)) : Bool := (parseSheet Nfkc.none grid "").toOption.isSome

def moneySheet (row : List Cell) (money : String) : List (List Cell) :=
  esfandSheet row money (.text ['#'])

theorem moneySheet_noEarlierYears : NoEarlierYears Nfkc.none (moneySheet [] "پول") := by
  intro titleRow yearRow htitle hyears index
  obtain rfl : 0 = titleRow := Except.ok.inj ((by decide +kernel :
    findTitleRow Nfkc.none (moneySheet [] "پول") = .ok 0).symm.trans htitle)
  obtain rfl : 4 = yearRow := Except.ok.inj ((by decide +kernel :
    findYearRow (moneySheet [] "پول") 1 = .ok 4).symm.trans hyears)
  have hfew : ∀ index < 4, (rowAt (moneySheet [] "پول") index).countP isYear < 3 := by
    decide +kernel
  exact fun _ hlt ↦ hfew index hlt

/-- What the parser accepts is an edition as the ingest takes it, of the same observations. -/
theorem parseSheet_edition {nfkc : Nfkc} {grid : List (List Cell)} {sheetName : String}
    {parsed : ParsedSheet} (h : parseSheet nfkc grid sheetName = .ok parsed) :
    ∃ edition : ParsedEdition, edition.edition = parsed.edition ∧
      edition.revisionStart = parsed.revisionStart ∧
      edition.observations = parsed.observations := by
  obtain ⟨reading, hedition, -, hobservations⟩ := parseSheet_reads h
  refine ⟨reading.toParsedEdition parsed.revisionStart, hedition, rfl, ?_⟩
  rw [hobservations]
  exact funext (reading.observations_eq _)

theorem moneySheet_edition : ∃ edition : ParsedEdition,
    (edition.observations .moneyM1).map CbiObservation.value = [10, 999, 999] := by
  have hmoney : (parseSheet Nfkc.none (moneySheet [] "پول") "").toOption.map (fun parsed ↦
      (parsed.observations .moneyM1).map CbiObservation.value) = some [10, 999, 999] := by
    decide +kernel
  cases hparsed : parseSheet Nfkc.none (moneySheet [] "پول") "" with
  | error e =>
    rw [hparsed] at hmoney
    cases hmoney
  | ok parsed =>
    obtain ⟨edition, -, -, hobservations⟩ := parseSheet_edition hparsed
    rw [hparsed] at hmoney
    exact ⟨edition, hobservations ▸ Option.some.inj hmoney⟩

end Accepted

end TalaPala.Economic
