import TalaPala.Economic.CbiSheet
import TalaPala.Library.Checked

namespace TalaPala.Economic

open List
open Library (bind_eq_ok exists_of_foldlM exists_of_mem_findAll exists_of_mem_left
  exists_of_mem_right forall₂_of_mapM lookup_of_mem mem_of_lookup map_eq_of_forall₂ occurs)
open News (Text strip)

section Reading

variable (nfkc : Nfkc) (grid : List (List Cell))

structure HeadedBy (edition : Edition) (yearRow col : ℕ) (month : Month) : Prop where
  year : yearOf (cellAt (rowAt grid yearRow) col) = some month.1
  month : monthNumber nfkc (cellAt (rowAt grid (yearRow - 1)) col) = some month.2 ∨
    monthNumber nfkc (cellAt (rowAt grid (yearRow - 1)) col) = none ∧ edition.isEsfand = true ∧
      month.2 = 12

structure LabelledBy (yearRow firstCol : ℕ) (key : RowKey) (index : ℕ) : Prop where
  below : yearRow < index
  inside : index < grid.length
  label : labelKey nfkc (rowLabel nfkc (rowAt grid index) firstCol) = labelKey nfkc key.label

def PrintsGrowth (cell : Cell) (pair : ℚ × ℚ) : Prop :=
  (∃ printed, cell = .number printed ∧ |printed - growthOf pair| ≤ growthTolerance) ∨
    ∃ s, cell = .text s ∧ strip s = growthOverflowMark ∧ growthOverflowPct < |growthOf pair|

structure SheetReading where
  edition : Edition
  titleRow : ℕ
  yearRow : ℕ
  firstHeader : ℕ
  growthCol : ℕ
  month : Fin 3 → Month
  col : Fin 3 → ℕ
  row : RowKey → ℕ
  level : RowKey → Fin 3 → ℚ
  titled : (rowTexts nfkc (rowAt grid titleRow)).any
    (fun t ↦ occurs (titleKey nfkc) (labelKey nfkc t.2)) = true
  below_title : titleRow < yearRow
  title : editionFromTitle nfkc (rowAt grid titleRow) = .ok edition
  months : List.ofFn month = edition.columns
  between : ∀ i, firstHeader ≤ col i ∧ col i < growthCol
  headed : ∀ i, HeadedBy nfkc grid edition yearRow (col i) (month i)
  column_unique : ∀ i other, firstHeader ≤ other → other < growthCol →
    HeadedBy nfkc grid edition yearRow other (month i) → other = col i
  labelled : ∀ key, LabelledBy nfkc grid yearRow (col 0) key (row key)
  row_unique : ∀ key other, LabelledBy nfkc grid yearRow (col 0) key other → other = row key
  cell : ∀ key i, cellAt (rowAt grid (row key)) (col i) = .number (level key i)
  positive : ∀ key i, 0 < level key i
  base : ∀ i, |level (.series .baseMoney) i - level .baseMoneyUses i| ≤ accountingTolerance
  liquidity : ∀ i, |level (.series .liquidity) i - level .m2Components i| ≤ accountingTolerance
  money : ∀ i, |level (.series .liquidity) i -
    (level (.series .moneyM1) i + level (.series .quasiMoney) i)| ≤ accountingTolerance
  growth : ∀ code, List.Forall₂
    (fun column pair ↦ PrintsGrowth (cellAt (rowAt grid (row (.series code))) column) pair)
    [growthCol, growthCol + 1] (growthPairs edition (List.ofFn (level (.series code))))

variable {nfkc grid}

def SheetReading.observations (reading : SheetReading nfkc grid) (start : Option Month)
    (code : CbiCode) : List CbiObservation :=
  List.ofFn (fun i ↦
    { year := (reading.month i).1
      month := (reading.month i).2
      value := reading.level (.series code) i
      method := if code = .baseMoney then some (methodOf start (reading.month i)) else none })

end Reading

section Targets

theorem plain_label (key : RowKey) : key.label.all isPlain = true := by
  cases key with
  | series code => cases code <;> decide
  | baseMoneyUses => decide
  | m2Components => decide

theorem labelKey_plain (nfkc : Nfkc) {s : Text} (h : s.all isPlain = true) :
    labelKey nfkc s = labelKey Nfkc.none s := by
  rw [labelKey, labelKey, normalizeFa, normalizeFa, nfkc.plain s h, Nfkc.none.plain s h]

theorem RowKey.mem_all (key : RowKey) : key ∈ RowKey.all := by
  cases key with
  | series code => cases code <;> decide
  | baseMoneyUses => decide
  | m2Components => decide

theorem folded_labels : ([] :: RowKey.all.map (fun key ↦ labelKey Nfkc.none key.label)).Nodup := by
  decide +kernel

theorem map_fst_rowTargets (nfkc : Nfkc) : (rowTargets nfkc).map Prod.fst =
    RowKey.all.map (fun key ↦ labelKey Nfkc.none key.label) := by
  rw [rowTargets, map_map]
  exact map_congr_left (fun key _ ↦ labelKey_plain nfkc (plain_label key))

theorem lookup_rowTargets {nfkc : Nfkc} {t : Text} {key : RowKey} :
    (rowTargets nfkc).lookup t = some key ↔ labelKey nfkc key.label = t := by
  constructor
  · intro h
    obtain ⟨key', _, heq⟩ := mem_map.mp (mem_of_lookup h)
    obtain ⟨hlabel, rfl⟩ := Prod.mk.inj heq
    exact hlabel
  · rintro rfl
    have hkeys : ((rowTargets nfkc).map Prod.fst).Nodup :=
      map_fst_rowTargets nfkc ▸ (nodup_cons.mp folded_labels).2
    exact lookup_of_mem hkeys (mem_map_of_mem (f := fun key ↦ (labelKey nfkc key.label, key))
      key.mem_all)

theorem lookup_rowTargets_nil (nfkc : Nfkc) : (rowTargets nfkc).lookup [] = none := by
  refine Option.eq_none_iff_forall_ne_some.mpr (fun key h ↦ ?_)
  refine (nodup_cons.mp folded_labels).1 (mem_map.mpr ⟨key, key.mem_all, ?_⟩)
  rw [← labelKey_plain nfkc (plain_label key)]
  exact lookup_rowTargets.mp h

end Targets

section Columns

variable {nfkc : Nfkc} {grid : List (List Cell)} {edition : Edition} {yearRow first growth : ℕ}

theorem levelColumn_iff {col : ℕ} {column : LevelColumn} :
    levelColumn nfkc edition (rowAt grid yearRow) (rowAt grid (yearRow - 1)) col =
        .ok (some column) ↔
      column.col = col ∧ HeadedBy nfkc grid edition yearRow col column.month := by
  obtain ⟨c, y, m⟩ := column
  constructor
  · intro h
    rw [levelColumn] at h
    split at h
    next => cases h
    next year hyear =>
      split at h
      next month hmonth =>
        cases h
        exact ⟨rfl, hyear, .inl hmonth⟩
      next hmonth =>
        split_ifs at h with hesfand
        cases h
        exact ⟨rfl, hyear, .inr ⟨hmonth, hesfand, rfl⟩⟩
  · rintro ⟨rfl, hyear, hmonth⟩
    dsimp only at hyear hmonth ⊢
    rw [levelColumn]
    simp only [hyear]
    rcases hmonth with hmonth | ⟨hmonth, hesfand, rfl⟩
    · simp only [hmonth]
    · simp only [hmonth, hesfand, if_true]

theorem mem_headed {outs : List (Option LevelColumn)}
    (h : (List.range' first (growth - first)).mapM (levelColumn nfkc edition (rowAt grid yearRow)
      (rowAt grid (yearRow - 1))) = .ok outs) {column : LevelColumn} :
    column ∈ outs.filterMap id ↔ (first ≤ column.col ∧ column.col < growth) ∧
      HeadedBy nfkc grid edition yearRow column.col column.month := by
  have hforall := forall₂_of_mapM h
  rw [mem_filterMap]
  constructor
  · rintro ⟨o, ho, heq⟩
    obtain rfl : o = some column := heq
    obtain ⟨col, hcol, hok⟩ := exists_of_mem_right hforall ho
    obtain ⟨rfl, hheaded⟩ := levelColumn_iff.mp hok
    rw [mem_range'_1] at hcol
    exact ⟨by omega, hheaded⟩
  · rintro ⟨hcol, hheaded⟩
    obtain ⟨o, ho, hok⟩ := exists_of_mem_left hforall
      (mem_range'_1.mpr (by omega : first ≤ column.col ∧ column.col < first + (growth - first)))
    rw [levelColumn_iff.mpr ⟨rfl, hheaded⟩] at hok
    exact ⟨o, ho, (Except.ok.inj hok).symm⟩

theorem columns_ascend {outs : List (Option LevelColumn)}
    (h : (List.range' first (growth - first)).mapM (levelColumn nfkc edition (rowAt grid yearRow)
      (rowAt grid (yearRow - 1))) = .ok outs) :
    ((outs.filterMap id).map LevelColumn.col).Pairwise (· < ·) := by
  have hrange : (List.range' first (growth - first)).Pairwise (· < ·) := pairwise_lt_range'
  refine List.Pairwise.sublist ?_ hrange
  clear hrange
  generalize List.range' first (growth - first) = cols at h ⊢
  have hforall := forall₂_of_mapM h
  clear h
  induction hforall with
  | nil => exact .slnil
  | @cons col o cols outs hcol _ ih =>
    cases o with
    | none => exact ih.cons col
    | some column =>
      obtain ⟨rfl, _⟩ := levelColumn_iff.mp hcol
      exact ih.cons_cons _

theorem columns_length (e : Edition) : e.columns.length = 3 := by
  rw [Edition.columns]
  split_ifs <;> rfl

theorem columns_nodup (e : Edition) : e.columns.Nodup := by
  rw [Edition.columns, Edition.isEsfand]
  by_cases h : e.month = 12
  · rw [if_pos (decide_eq_true h)]
    simp
  · rw [if_neg (by simpa using h)]
    simp [h]

theorem levelColumns_eq (titleRow : ℕ) :
    levelColumns nfkc grid titleRow yearRow edition =
      headerColumn nfkc ((grid.take yearRow).drop titleRow) (balanceHeaders.contains ·)
          .noBalanceHeader >>= fun first ↦
        headerColumn nfkc ((grid.take yearRow).drop titleRow) isGrowthHeader .noGrowthHeader >>=
          fun growth ↦
            if growth ≤ first then .error (.growthNotRight growth first)
            else
              (List.range' first (growth - first)).mapM (levelColumn nfkc edition
                  (rowAt grid yearRow) (rowAt grid (yearRow - 1))) >>= fun columns ↦
                if (columns.filterMap id).map LevelColumn.month ≠ edition.columns then
                  .error (.otherMonths edition ((columns.filterMap id).map LevelColumn.month))
                else .ok (columns.filterMap id, growth) := rfl

structure HeadedColumns (nfkc : Nfkc) (grid : List (List Cell)) (edition : Edition)
    (yearRow first growth : ℕ) (columns : List LevelColumn) : Prop where
  months : columns.map LevelColumn.month = edition.columns
  ascend : (columns.map LevelColumn.col).Pairwise (· < ·)
  mem_iff : ∀ column, column ∈ columns ↔ (first ≤ column.col ∧ column.col < growth) ∧
    HeadedBy nfkc grid edition yearRow column.col column.month

theorem levelColumns_spec {titleRow : ℕ} {columns : List LevelColumn}
    (h : levelColumns nfkc grid titleRow yearRow edition = .ok (columns, growth)) :
    ∃ first, HeadedColumns nfkc grid edition yearRow first growth columns := by
  rw [levelColumns_eq] at h
  obtain ⟨first, _, h⟩ := bind_eq_ok.mp h
  obtain ⟨growth, _, h⟩ := bind_eq_ok.mp h
  split_ifs at h
  obtain ⟨outs, houts, h⟩ := bind_eq_ok.mp h
  split_ifs at h with hmonths
  obtain ⟨rfl, rfl⟩ := Prod.mk.inj (Except.ok.inj h)
  exact ⟨first, ⟨not_not.mp hmonths, columns_ascend houts, fun _ ↦ mem_headed houts⟩⟩

theorem HeadedColumns.col_unique {columns : List LevelColumn}
    (h : HeadedColumns nfkc grid edition yearRow first growth columns) {column column' : LevelColumn}
    (hmem : column ∈ columns) (hmem' : column' ∈ columns) (hmonth : column.month = column'.month) :
    column = column' :=
  inj_on_of_nodup_map (h.months ▸ columns_nodup edition) hmem hmem' hmonth

theorem HeadedColumns.first_le {columns : List LevelColumn}
    (h : HeadedColumns nfkc grid edition yearRow first growth columns) {column : LevelColumn}
    (hmem : column ∈ columns) : (columns.map LevelColumn.col).headD 0 ≤ column.col := by
  cases hcols : columns.map LevelColumn.col with
  | nil => exact Nat.zero_le _
  | cons col cols =>
    have hin : column.col ∈ col :: cols := hcols ▸ mem_map_of_mem hmem
    have hascend := h.ascend
    rw [hcols] at hascend
    rcases mem_cons.mp hin with heq | hrest
    · exact heq ▸ Nat.le_refl _
    · exact Nat.le_of_lt (rel_of_pairwise_cons hascend hrest)

end Columns

section Rows

variable {nfkc : Nfkc} {grid : List (List Cell)} {yearRow firstCol : ℕ} {columns : List LevelColumn}

theorem drop_zipIdx {α : Type*} (l : List α) (n k : ℕ) :
    (l.zipIdx k).drop n = (l.drop n).zipIdx (k + n) := by
  induction n generalizing l k with
  | zero => rfl
  | succ n ih =>
    cases l with
    | nil => rfl
    | cons a l =>
      rw [zipIdx_cons, drop_succ_cons, drop_succ_cons, ih, Nat.add_right_comm, Nat.add_assoc]

theorem mem_labelledRows {labelled : LabelledRow} :
    labelled ∈ labelledRows nfkc grid yearRow firstCol ↔
      LabelledBy nfkc grid yearRow firstCol labelled.key labelled.index ∧
        labelled.row = rowAt grid labelled.index := by
  have hrow (row : List Cell) (index : ℕ) : (row, index) ∈ grid.zipIdx.drop (yearRow + 1) ↔
      yearRow < index ∧ index < grid.length ∧ row = rowAt grid index := by
    rw [drop_zipIdx, Nat.zero_add, mk_mem_zipIdx_iff_le_and_getElem?_sub, getElem?_drop,
      rowAt, getD_eq_getElem?_getD]
    constructor
    · rintro ⟨hle, hget⟩
      rw [Nat.add_sub_cancel' hle] at hget
      rw [hget]
      exact ⟨hle, (List.getElem?_eq_some_iff.mp hget).1, rfl⟩
    · rintro ⟨hle, hlt, rfl⟩
      rw [Nat.add_sub_cancel' hle, getElem?_eq_getElem hlt]
      exact ⟨hle, rfl⟩
  rw [labelledRows, mem_filterMap]
  constructor
  · rintro ⟨⟨row, index⟩, hmem, hlabel⟩
    obtain ⟨key, hkey, rfl⟩ := Option.map_eq_some_iff.mp hlabel
    obtain ⟨hbelow, hinside, rfl⟩ := (hrow row index).mp hmem
    exact ⟨⟨hbelow, hinside, (lookup_rowTargets.mp hkey).symm⟩, rfl⟩
  · obtain ⟨index, key, row⟩ := labelled
    rintro ⟨⟨hbelow, hinside, hlabel⟩, hat⟩
    obtain rfl : row = rowAt grid index := hat
    refine ⟨(rowAt grid index, index), (hrow _ _).mpr ⟨hbelow, hinside, rfl⟩, ?_⟩
    rw [lookup_rowTargets.mpr hlabel.symm]
    rfl

structure ReadsAs (columns : List LevelColumn) (labelled : LabelledRow) (p : RowKey × FoundRow) :
    Prop where
  key : p.1 = labelled.key
  index : p.2.index = labelled.index
  row : p.2.row = labelled.row
  levels : columns.mapM (level labelled) = .ok p.2.levels

theorem collectRows_spec {rows : List LabelledRow} {found out : FoundRows}
    (h : collectRows columns found rows = .ok out) (hkeys : (found.map Prod.fst).Nodup) :
    (out.map Prod.fst).Nodup ∧ ∃ new, out = found ++ new ∧
      List.Forall₂ (ReadsAs columns) rows new := by
  induction rows generalizing found with
  | nil =>
    obtain rfl : found = out := Except.ok.inj h
    exact ⟨hkeys, [], (append_nil _).symm, .nil⟩
  | cons labelled rows ih =>
    rw [collectRows] at h
    split at h
    next => cases h
    next hnew =>
      obtain ⟨levels, hlevels, h⟩ := bind_eq_ok.mp h
      let row : FoundRow := ⟨labelled.index, labelled.row, levels⟩
      have hkeys' : ((found ++ [(labelled.key, row)]).map Prod.fst).Nodup := by
        rw [map_append, nodup_append]
        refine ⟨hkeys, nodup_singleton _, ?_⟩
        intro key hkey key' hlast
        obtain ⟨p, hp, rfl⟩ := mem_map.mp hkey
        obtain rfl : key' = labelled.key := mem_singleton.mp hlast
        exact (bne_iff_ne.mp (lookup_eq_none_iff.mp hnew p hp)).symm
      obtain ⟨hnodup, new, rfl, hforall⟩ := ih h hkeys'
      refine ⟨hnodup, (labelled.key, row) :: new, ?_, ?_⟩
      · rw [append_assoc, singleton_append]
      · exact .cons { key := rfl, index := rfl, row := rfl, levels := hlevels } hforall

theorem level_eq_ok {labelled : LabelledRow} {column : LevelColumn} {q : ℚ} :
    level labelled column = .ok q ↔ cellAt labelled.row column.col = .number q ∧ 0 < q := by
  rw [level]
  cases cellAt labelled.row column.col with
  | number q' =>
    rw [Cell.number.injEq]
    dsimp only
    split_ifs with hq
    · refine iff_of_false (fun h ↦ nomatch h) (fun h ↦ ?_)
      rw [h.1] at hq
      exact absurd h.2 (not_lt.mpr hq)
    · exact ⟨fun h ↦ Except.ok.inj h ▸ ⟨rfl, not_le.mp hq⟩, fun h ↦ congrArg _ h.1⟩
  | _ => exact iff_of_false (fun h ↦ nomatch h) (fun h ↦ nomatch h.1)

structure FoundEach (nfkc : Nfkc) (grid : List (List Cell)) (yearRow firstCol : ℕ)
    (columns : List LevelColumn) (found : FoundRows) (key : RowKey) (row : FoundRow) : Prop where
  lookup : found.lookup key = some row
  labelled : LabelledBy nfkc grid yearRow firstCol key row.index
  unique : ∀ other, LabelledBy nfkc grid yearRow firstCol key other → other = row.index
  row_eq : row.row = rowAt grid row.index
  levels : List.Forall₂ (fun column q ↦ cellAt row.row column.col = .number q ∧ 0 < q) columns
    row.levels

theorem collectRows_foundEach {out : FoundRows}
    (h : collectRows columns [] (labelledRows nfkc grid yearRow firstCol) = .ok out)
    (hmissing : missingRows out = []) (key : RowKey) :
    ∃ row, FoundEach nfkc grid yearRow firstCol columns out key row := by
  obtain ⟨hkeys, new, hnew, hforall⟩ := collectRows_spec h nodup_nil
  obtain rfl : out = new := hnew
  have hpresent := filter_eq_nil_iff.mp hmissing key key.mem_all
  obtain ⟨row, hrow⟩ : ∃ row, out.lookup key = some row := by
    cases hlookup : out.lookup key with
    | none => exact absurd (by rw [hlookup]; rfl) hpresent
    | some row => exact ⟨row, rfl⟩
  obtain ⟨labelled, hmem, hreads⟩ := exists_of_mem_right hforall (mem_of_lookup hrow)
  obtain ⟨hlabelled, hat⟩ := mem_labelledRows.mp hmem
  -- No key is on two of the rows, so that a row with the label is the one that was found.
  have hdistinct : ((labelledRows nfkc grid yearRow firstCol).map LabelledRow.key).Nodup :=
    map_eq_of_forall₂ hforall (fun _ _ hp ↦ hp.key) ▸ hkeys
  obtain rfl : key = labelled.key := hreads.key
  refine ⟨row, ⟨hrow, ?_, fun other hother ↦ ?_, ?_, ?_⟩⟩
  · rwa [hreads.index]
  · have hother' : LabelledRow.mk other labelled.key (rowAt grid other) ∈
        labelledRows nfkc grid yearRow firstCol := mem_labelledRows.mpr ⟨hother, rfl⟩
    rw [hreads.index, ← inj_on_of_nodup_map hdistinct hother' hmem rfl]
  · rw [hreads.row, hreads.index, hat]
  · rw [hreads.row]
    exact (forall₂_of_mapM hreads.levels).imp (fun _ _ hlevel ↦ level_eq_ok.mp hlevel)

end Rows

section Checks

theorem agree_forall₂ {what : Identity} {columns : List LevelColumn} {left right : List ℚ}
    {gap : ℚ} (h : agree what columns left right = .ok gap)
    (hleft : left.length = columns.length) (hright : right.length = left.length) :
    List.Forall₂ (fun a b ↦ |a - b| ≤ accountingTolerance) left right := by
  refine List.forall₂_iff_zip.mpr ⟨hright.symm, fun {a b} hab ↦ ?_⟩
  have hpairs : (columns.zip (left.zip right)).map Prod.snd = left.zip right :=
    map_snd_zip (by rw [length_zip, hright, min_self, hleft])
  rw [← hpairs] at hab
  obtain ⟨p, hp, heq⟩ := mem_map.mp hab
  obtain ⟨worst, _, hstep⟩ := exists_of_foldlM h p hp
  rw [heq] at hstep
  dsimp only at hstep
  split_ifs at hstep with hgap
  exact not_lt.mp hgap

theorem checkGrowthCell_spec {key : RowKey} {col : ℕ} {cell : Cell} {pair : ℚ × ℚ} {worst out : ℚ}
    (h : checkGrowthCell key col cell pair worst = .ok out) : PrintsGrowth cell pair := by
  cases cell with
  | number printed =>
    rw [checkGrowthCell] at h
    split_ifs at h with hgap
    exact .inl ⟨printed, rfl, not_lt.mp hgap⟩
  | text s =>
    rw [checkGrowthCell] at h
    split_ifs at h with hmark hbeyond
    exact .inr ⟨s, rfl, hmark, hbeyond⟩
  | infinite negative => cases h
  | nan => cases h
  | flag b => cases h
  | empty => cases h

theorem growthPairs_length {edition : Edition} {levels : List ℚ} (h : levels.length = 3) :
    (growthPairs edition levels).length = 2 := by
  obtain ⟨oldest, lastEsfand, current, rfl⟩ := length_eq_three.mp h
  rw [growthPairs]
  split_ifs <;> rfl

theorem checkAllGrowth_spec {edition : Edition} {growthCol : ℕ} {found : FoundRows} {out : ℚ}
    (h : checkAllGrowth edition growthCol found = .ok out) {code : CbiCode} {row : FoundRow}
    (hrow : found.lookup (.series code) = some row) (hlevels : row.levels.length = 3) :
    List.Forall₂ (fun column pair ↦ PrintsGrowth (cellAt row.row column) pair)
      [growthCol, growthCol + 1] (growthPairs edition row.levels) := by
  have hmem : RowKey.series code ∈ growthKeys := by cases code <;> decide
  obtain ⟨worst, out, hstep⟩ := exists_of_foldlM h _ hmem
  rw [hrow] at hstep
  refine List.forall₂_iff_zip.mpr ⟨(growthPairs_length hlevels).symm, fun {column pair} hp ↦ ?_⟩
  obtain ⟨_, _, hcell⟩ := exists_of_foldlM hstep (column, pair) hp
  exact checkGrowthCell_spec hcell

end Checks

section Assembly

variable {α β : Type*}

def entry (l : List α) (a : α) (i : Fin 3) : α := l.getD i a

theorem ofFn_entry {l : List α} (h : l.length = 3) (a : α) : List.ofFn (entry l a) = l := by
  obtain ⟨a₀, a₁, a₂, rfl⟩ := length_eq_three.mp h
  rfl

theorem forall₂_entry {R : α → β → Prop} {l : List α} {l' : List β} (h : List.Forall₂ R l l')
    (hlength : l.length = 3) (a : α) (b : β) (i : Fin 3) : R (entry l a i) (entry l' b i) := by
  obtain ⟨a₀, a₁, a₂, rfl⟩ := length_eq_three.mp hlength
  obtain _ | ⟨h₀, _ | ⟨h₁, _ | ⟨h₂, _ | _⟩⟩⟩ := h
  match i with
  | 0 => exact h₀
  | 1 => exact h₁
  | 2 => exact h₂

theorem entry_mem {l : List α} (h : l.length = 3) (a : α) (i : Fin 3) : entry l a i ∈ l :=
  ofFn_entry h a ▸ mem_ofFn.mpr ⟨i, ofFn_entry h a ▸ rfl⟩

theorem map_zip_entry {γ : Type*} {l : List α} {l' : List β} (h : l.length = 3)
    (h' : l'.length = 3) (f : α × β → γ) (a : α) (b : β) :
    (l.zip l').map f = List.ofFn (fun i ↦ f (entry l a i, entry l' b i)) := by
  obtain ⟨a₀, a₁, a₂, rfl⟩ := length_eq_three.mp h
  obtain ⟨b₀, b₁, b₂, rfl⟩ := length_eq_three.mp h'
  rfl

theorem entry_zipWith {l l' : List ℚ} (h : l.length = 3) (h' : l'.length = 3) (i : Fin 3) :
    entry (List.zipWith (· + ·) l l') 0 i = entry l 0 i + entry l' 0 i := by
  obtain ⟨a₀, a₁, a₂, rfl⟩ := length_eq_three.mp h
  obtain ⟨b₀, b₁, b₂, rfl⟩ := length_eq_three.mp h'
  match i with
  | 0 => rfl
  | 1 => rfl
  | 2 => rfl

variable {nfkc : Nfkc} {grid : List (List Cell)}

theorem layoutOf_eq : layoutOf nfkc grid = findTitleRow nfkc grid >>= fun titleRow ↦
    editionFromTitle nfkc (rowAt grid titleRow) >>= fun edition ↦
      findYearRow grid (titleRow + 1) >>= fun yearRow ↦
        unit nfkc grid yearRow >>= fun unit ↦
          levelColumns nfkc grid titleRow yearRow edition >>= fun columns ↦
            .ok ⟨titleRow, edition, yearRow, unit, columns.1, columns.2⟩ := rfl

theorem readRows_eq (layout : Layout) (rows : List LabelledRow) : readRows layout rows =
    collectRows layout.columns [] rows >>= fun found ↦
      if missingRows found ≠ [] then .error (.missingRows (missingRows found))
      else
        checkAccounting layout.columns found >>= fun accountingMaxGap ↦
          checkAllGrowth layout.edition layout.growthCol found >>= fun growthMaxGapPct ↦
            .ok ⟨found, accountingMaxGap, growthMaxGapPct⟩ := rfl

theorem findTitleRow_spec {titleRow : ℕ} (h : findTitleRow nfkc grid = .ok titleRow) :
    (rowTexts nfkc (rowAt grid titleRow)).any
      (fun t ↦ occurs (titleKey nfkc) (labelKey nfkc t.2)) = true := by
  rw [findTitleRow] at h
  split at h
  next index hfind =>
    obtain rfl : index = titleRow := Except.ok.inj h
    simpa using find?_some hfind
  next => cases h

theorem findYearRow_spec {start yearRow : ℕ} (h : findYearRow grid start = .ok yearRow) :
    start ≤ yearRow := by
  rw [findYearRow] at h
  split at h
  next index hfind =>
    obtain rfl : index = yearRow := Except.ok.inj h
    exact (mem_range'_1.mp (mem_of_find?_eq_some hfind)).1
  next => cases h

structure LaidOut (nfkc : Nfkc) (grid : List (List Cell)) (layout : Layout) (first : ℕ) : Prop where
  titled : findTitleRow nfkc grid = .ok layout.titleRow
  years : findYearRow grid (layout.titleRow + 1) = .ok layout.yearRow
  title : editionFromTitle nfkc (rowAt grid layout.titleRow) = .ok layout.edition
  headed : HeadedColumns nfkc grid layout.edition layout.yearRow first layout.growthCol
    layout.columns

theorem layoutOf_spec {layout : Layout} (h : layoutOf nfkc grid = .ok layout) :
    ∃ first, LaidOut nfkc grid layout first := by
  rw [layoutOf_eq] at h
  obtain ⟨titleRow, htitle, h⟩ := bind_eq_ok.mp h
  obtain ⟨edition, hedition, h⟩ := bind_eq_ok.mp h
  obtain ⟨yearRow, hyear, h⟩ := bind_eq_ok.mp h
  obtain ⟨unit, _, h⟩ := bind_eq_ok.mp h
  obtain ⟨⟨columns, growthCol⟩, hcolumns, h⟩ := bind_eq_ok.mp h
  obtain ⟨first, hheaded⟩ := levelColumns_spec hcolumns
  obtain rfl := Except.ok.inj h
  exact ⟨first, htitle, hyear, hedition, hheaded⟩

theorem LaidOut.columns_length {layout : Layout} {first : ℕ}
    (h : LaidOut nfkc grid layout first) : layout.columns.length = 3 := by
  rw [← length_map LevelColumn.month, h.headed.months, Economic.columns_length]

structure Checked (layout : Layout) (found : FoundRows) (row : RowKey → FoundRow) : Prop where
  base : List.Forall₂ (fun a b ↦ |a - b| ≤ accountingTolerance)
    (row (.series .baseMoney)).levels (row .baseMoneyUses).levels
  liquidity : List.Forall₂ (fun a b ↦ |a - b| ≤ accountingTolerance)
    (row (.series .liquidity)).levels (row .m2Components).levels
  money : List.Forall₂ (fun a b ↦ |a - b| ≤ accountingTolerance)
    (row (.series .liquidity)).levels
    (List.zipWith (· + ·) (row (.series .moneyM1)).levels (row (.series .quasiMoney)).levels)
  growth : ∀ code, List.Forall₂
    (fun column pair ↦ PrintsGrowth (cellAt (row (.series code)).row column) pair)
    [layout.growthCol, layout.growthCol + 1]
    (growthPairs layout.edition (row (.series code)).levels)

theorem levelsOf_eq {found : FoundRows} {key : RowKey} {row : FoundRow}
    (h : found.lookup key = some row) : levelsOf found key = row.levels := by
  rw [levelsOf, h]
  rfl

theorem readRows_spec {layout : Layout} {first : ℕ} {readings : Readings}
    (hlayout : LaidOut nfkc grid layout first)
    (h : readRows layout (labelledRows nfkc grid layout.yearRow layout.firstCol) = .ok readings) :
    ∃ row, (∀ key, FoundEach nfkc grid layout.yearRow layout.firstCol layout.columns
      readings.found key (row key)) ∧ Checked layout readings.found row := by
  rw [readRows_eq] at h
  obtain ⟨found, hfound, h⟩ := bind_eq_ok.mp h
  split_ifs at h with hmissing
  obtain ⟨gap, hgap, h⟩ := bind_eq_ok.mp h
  obtain ⟨growth, hgrowth, h⟩ := bind_eq_ok.mp h
  obtain rfl := Except.ok.inj h
  choose row hrow using collectRows_foundEach hfound (not_not.mp hmissing)
  have hlevels (key : RowKey) : levelsOf found key = (row key).levels :=
    levelsOf_eq (hrow key).lookup
  have hlength (key : RowKey) : (row key).levels.length = layout.columns.length :=
    (hrow key).levels.length_eq.symm
  obtain ⟨_, hbase, h⟩ := bind_eq_ok.mp hgap
  obtain ⟨_, hliquidity, h⟩ := bind_eq_ok.mp h
  obtain ⟨_, hmoney, _⟩ := bind_eq_ok.mp h
  simp only [hlevels] at hbase hliquidity hmoney
  refine ⟨row, hrow, ?_, ?_, ?_, fun code ↦ ?_⟩
  · exact agree_forall₂ hbase (hlength _) (by rw [hlength, hlength])
  · exact agree_forall₂ hliquidity (hlength _) (by rw [hlength, hlength])
  · exact agree_forall₂ hmoney (hlength _)
      (by rw [length_zipWith, hlength, hlength, hlength, min_self])
  · exact checkAllGrowth_spec hgrowth (hrow _).lookup ((hlength _).trans hlayout.columns_length)

theorem parseSheet_eq (sheetName : String) : parseSheet nfkc grid sheetName =
    layoutOf nfkc grid >>= fun layout ↦
      readRows layout (labelledRows nfkc grid layout.yearRow layout.firstCol) >>= fun readings ↦
        revisionStart nfkc grid >>= fun start ↦
          .ok {
            edition := layout.edition
            unit := layout.unit
            sheetName
            observations := observationsOf layout.columns start readings.found
            baseMoneyMethod := methodOf start (layout.edition.year, layout.edition.month)
            revisionStart := start
            accountingMaxGap := fourPlaces readings.accountingMaxGap
            growthMaxGapPct := fourPlaces readings.growthMaxGapPct
            rows := readings.found.map (fun p ↦ (p.1, p.2.index))
            columns := layout.columns.map LevelColumn.month } := rfl

theorem parseSheet_reads {sheetName : String} {parsed : ParsedSheet}
    (h : parseSheet nfkc grid sheetName = .ok parsed) :
    ∃ reading : SheetReading nfkc grid, reading.edition = parsed.edition ∧
      parsed.columns = List.ofFn reading.month ∧
      parsed.observations = reading.observations parsed.revisionStart := by
  rw [parseSheet_eq] at h
  obtain ⟨layout, hlayout, h⟩ := bind_eq_ok.mp h
  obtain ⟨readings, hreadings, h⟩ := bind_eq_ok.mp h
  obtain ⟨start, _, h⟩ := bind_eq_ok.mp h
  obtain rfl := Except.ok.inj h
  obtain ⟨first, hlaid⟩ := layoutOf_spec hlayout
  obtain ⟨row, hrow, hchecked⟩ := readRows_spec hlaid hreadings
  have hcolumns := hlaid.columns_length
  have hlevels (key : RowKey) : (row key).levels.length = 3 :=
    (hrow key).levels.length_eq ▸ hcolumns
  let column := entry layout.columns ⟨0, 0, 0⟩
  have hmem (i : Fin 3) : column i ∈ layout.columns := entry_mem hcolumns _ i
  have hfirstCol : layout.firstCol = (column 0).col := by
    obtain ⟨c₀, c₁, c₂, heq⟩ := length_eq_three.mp hcolumns
    simp only [Layout.firstCol, column, heq]
    rfl
  have hmonths : List.ofFn (fun i ↦ (column i).month) = layout.columns.map LevelColumn.month := by
    rw [← ofFn_entry hcolumns ⟨0, 0, 0⟩, map_ofFn]
    rfl
  let reading : SheetReading nfkc grid :=
    { edition := layout.edition
      titleRow := layout.titleRow
      yearRow := layout.yearRow
      firstHeader := first
      growthCol := layout.growthCol
      month := fun i ↦ (column i).month
      col := fun i ↦ (column i).col
      row := fun key ↦ (row key).index
      level := fun key ↦ entry (row key).levels 0
      titled := findTitleRow_spec hlaid.titled
      below_title := findYearRow_spec hlaid.years
      title := hlaid.title
      months := hmonths.trans hlaid.headed.months
      between := fun i ↦ ((hlaid.headed.mem_iff _).mp (hmem i)).1
      headed := fun i ↦ ((hlaid.headed.mem_iff _).mp (hmem i)).2
      column_unique := fun i other hle hlt hheaded ↦
        congrArg LevelColumn.col (hlaid.headed.col_unique
          ((hlaid.headed.mem_iff ⟨other, (column i).month⟩).mpr ⟨⟨hle, hlt⟩, hheaded⟩) (hmem i) rfl)
      labelled := fun key ↦ hfirstCol ▸ (hrow key).labelled
      row_unique := fun key other hother ↦ (hrow key).unique other (hfirstCol ▸ hother)
      cell := fun key i ↦ (hrow key).row_eq ▸
        (forall₂_entry (hrow key).levels hcolumns ⟨0, 0, 0⟩ 0 i).1
      positive := fun key i ↦ (forall₂_entry (hrow key).levels hcolumns ⟨0, 0, 0⟩ 0 i).2
      base := forall₂_entry hchecked.base (hlevels _) 0 0
      liquidity := forall₂_entry hchecked.liquidity (hlevels _) 0 0
      money := fun i ↦ entry_zipWith (hlevels _) (hlevels _) i ▸
        forall₂_entry hchecked.money (hlevels _) 0 0 i
      growth := fun code ↦ (hrow _).row_eq ▸ ofFn_entry (hlevels _) 0 ▸ hchecked.growth code }
  refine ⟨reading, rfl, hmonths.symm, funext fun code ↦ ?_⟩
  dsimp only
  rw [observationsOf, levelsOf_eq (hrow _).lookup]
  exact map_zip_entry hcolumns (hlevels _) _ _ _

theorem monthYearAt_month {s : Text} {found : Month} {taken : ℕ}
    (h : monthYearAt nfkc s = some (found, taken)) : 1 ≤ found.2 ∧ found.2 ≤ 12 := by
  obtain ⟨⟨name, month⟩, hmem, h⟩ := exists_of_findSome?_eq_some h
  dsimp only at h
  split_ifs at h
  obtain ⟨year, _, heq⟩ := Option.map_eq_some_iff.mp h
  obtain ⟨rfl, _⟩ := Prod.mk.inj heq
  have hlow := le_snd_of_mem_zipIdx hmem
  have hhigh : month < 1 + 12 := snd_lt_add_of_mem_zipIdx hmem
  dsimp only at hlow ⊢
  omega

theorem editionFromTitle_spec {row : List Cell} {edition : Edition}
    (h : editionFromTitle nfkc row = .ok edition) :
    (minJalaliYear ≤ edition.year ∧ edition.year ≤ maxJalaliYear) ∧
      1 ≤ edition.month ∧ edition.month ≤ 12 := by
  rw [editionFromTitle] at h
  split at h
  next year month hfound =>
    split_ifs at h with hyear
    obtain rfl := Except.ok.inj h
    have hmem : (year, month) ∈ [(year, month)] := mem_singleton_self _
    rw [← hfound, mem_dedup, mem_flatMap] at hmem
    obtain ⟨t, _, ht⟩ := hmem
    obtain ⟨part, taken, hpart⟩ := exists_of_mem_findAll ht
    exact ⟨⟨hyear.1, hyear.2.1⟩, monthYearAt_month hpart⟩
  next => cases h

def SheetReading.toParsedEdition (reading : SheetReading nfkc grid) (start : Option Month) :
    ParsedEdition where
  edition := reading.edition
  level code := reading.level (.series code)
  revisionStart := start
  year_mem := (editionFromTitle_spec reading.title).1
  month_mem := (editionFromTitle_spec reading.title).2
  positive code := reading.positive (.series code)
  liquidity_sum := reading.money

theorem SheetReading.observations_eq (reading : SheetReading nfkc grid) (start : Option Month)
    (code : CbiCode) :
    (reading.toParsedEdition start).observations code = reading.observations start code := by
  have hedition : (reading.toParsedEdition start).edition.columns = List.ofFn reading.month :=
    reading.months.symm
  rw [ParsedEdition.observations, hedition]
  rfl

end Assembly

end TalaPala.Economic
