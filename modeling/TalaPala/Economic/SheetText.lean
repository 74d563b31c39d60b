import TalaPala.Economic.SciCpi
import TalaPala.Library.Matching
import TalaPala.News.Urls

namespace TalaPala.Economic

open List
open Library (filter_replaceAll_remark remark replaceAll unremarked unremarked_insert)
open News (Text isSpace strip)

def isPlain (c : Char) : Bool :=
  let n := c.toNat
  n < 128 || (0x621 ≤ n && n ≤ 0x63a) || (0x641 ≤ n && n ≤ 0x64a) || (0x660 ≤ n && n ≤ 0x669) ||
    (0x6f0 ≤ n && n ≤ 0x6f9) || n = 0x67e || n = 0x686 || n = 0x698 || n = 0x6a9 || n = 0x6af ||
    n = 0x6cc || n = 0x200c || n = 0x200e || n = 0x200f || n = 0xab || n = 0xbb

/-- `unicodedata.normalize("NFKC", …)`. -/
structure Nfkc where
  fold : Text → Text
  plain : ∀ s : Text, s.all isPlain = true → fold s = s

def Nfkc.none : Nfkc where
  fold := id
  plain _ _ := rfl

section Folding

def isInvisible (c : Char) : Bool :=
  let n := c.toNat
  n = 0x200c || n = 0x200e || n = 0x200f || n = 0xa0 || n = 0xfeff

def arabicToPersian (c : Char) : Char :=
  if c.toNat = 0x643 then Char.ofNat 0x6a9
  else if c.toNat = 0x64a then Char.ofNat 0x6cc
  else if c.toNat = 0x649 then Char.ofNat 0x6cc
  else if c.toNat = 0x629 then Char.ofNat 0x647
  else c

/-- `re.sub(r"\s+", " ", s)`. -/
def collapse : Text → Text
  | [] => []
  | c :: rest =>
    if isSpace c then
      if rest.head?.any isSpace then collapse rest else ' ' :: collapse rest
    else c :: collapse rest

variable (nfkc : Nfkc)

def normalizeFa (s : Text) : Text :=
  strip (collapse (((nfkc.fold s).filter (!isInvisible ·)).map arabicToPersian))

def foldDigit (c : Char) : Char :=
  let n := c.toNat
  if 0x6f0 ≤ n ∧ n ≤ 0x6f9 then Char.ofNat (n - 0x6f0 + 48)
  else if 0x660 ≤ n ∧ n ≤ 0x669 then Char.ofNat (n - 0x660 + 48)
  else c

def foldDigits (s : Text) : Text := s.map foldDigit

def jalaliMonths : List Text :=
  ["فروردین", "اردیبهشت", "خرداد", "تیر", "مرداد", "شهریور", "مهر", "آبان", "آذر", "دی", "بهمن",
    "اسفند"].map String.toList

def isMark (c : Char) : Bool := c = '*' || c = '#'

def qualifier : Text → Option ℕ := remark '(' ')' isMark

def labelKey (s : Text) : Text :=
  (replaceAll qualifier [' '] 0 (foldDigits (normalizeFa nfkc s))).filter (!isSpace ·)

end Folding

/-- A cell of a sheet. A finite number stands by the decimal that its shortest `repr` is. A date
is not told from a flag. -/
inductive Cell
  | text (s : Text)
  | number (q : ℚ)
  | infinite (negative : Bool)
  | nan
  | flag (b : Bool)
  | empty

def Cell.value? : Cell → Option Value
  | .number q => some (.finite q)
  | .infinite negative => some (.infinite negative)
  | .nan => some .nan
  | _ => none

/-- `row[col]`, and nothing past the end of the row. -/
def cellAt (row : List Cell) (col : ℕ) : Cell := row.getD col (.text [])

def monthNumber (nfkc : Nfkc) : Cell → Option ℤ
  | .text s =>
    let months := jalaliMonths.map (normalizeFa nfkc)
    if normalizeFa nfkc s ∈ months then some (months.idxOf (normalizeFa nfkc s) + 1) else none
  | _ => none

section Spaces

theorem filter_collapse (s : Text) :
    (collapse s).filter (!isSpace ·) = s.filter (!isSpace ·) := by
  induction s with
  | nil => rfl
  | cons c rest ih =>
    rw [collapse]
    by_cases hc : isSpace c
    · rw [if_pos hc, filter_cons_of_neg (by simp [hc])]
      split_ifs
      · exact ih
      · rw [filter_cons_of_neg (by decide), ih]
    · rw [if_neg hc, filter_cons_of_pos (by simp [hc]), filter_cons_of_pos (by simp [hc]),
        ih]

theorem filter_dropWhile_isSpace (s : Text) :
    (s.dropWhile isSpace).filter (!isSpace ·) = s.filter (!isSpace ·) := by
  induction s with
  | nil => rfl
  | cons c rest ih =>
    by_cases hc : isSpace c
    · rw [dropWhile_cons_of_pos hc, filter_cons_of_neg (by simp [hc]), ih]
    · rw [dropWhile_cons_of_neg hc]

theorem filter_strip (s : Text) : (strip s).filter (!isSpace ·) = s.filter (!isSpace ·) := by
  rw [strip, List.rdropWhile, filter_reverse, filter_dropWhile_isSpace, filter_reverse,
    reverse_reverse, filter_dropWhile_isSpace]

theorem isSpace_foldDigit (c : Char) : isSpace (foldDigit c) = isSpace c := by
  have hdigit : ∀ k < 10, isSpace (Char.ofNat (k + 48)) = false := by decide
  have hletter {first : ℕ} (hfirst : first = 0x6f0 ∨ first = 0x660)
      (h : first ≤ c.toNat ∧ c.toNat ≤ first + 9) : isSpace c = false := by
    simp only [isSpace, Bool.or_eq_false_iff, Bool.and_eq_false_iff, decide_eq_false_iff_not]
    omega
  rw [foldDigit]
  split_ifs with h h'
  · rw [hdigit _ (by omega), hletter (.inl rfl) h]
  · rw [hdigit _ (by omega), hletter (.inr rfl) h']
  · rfl

theorem filter_foldDigits (s : Text) :
    (foldDigits s).filter (!isSpace ·) = foldDigits (s.filter (!isSpace ·)) := by
  rw [foldDigits, filter_map, foldDigits]
  simp only [Function.comp_def, isSpace_foldDigit]

def foldChar (c : Char) : Char := foldDigit (arabicToPersian c)

theorem forall_of_all {l : Text} {p : Char → Prop} [DecidablePred p]
    (h : l.all (fun c ↦ decide (p c)) = true) : ∀ c ∈ l, p c :=
  fun c hc ↦ of_decide_eq_true (List.all_eq_true.mp h c hc)

theorem foldChar_cases (c : Char) :
    foldChar c = c ∨ (0x629 ≤ c.toNat ∧ c.toNat ≤ 0x64a ∨ 0x660 ≤ c.toNat ∧ c.toNat ≤ 0x669 ∨
      0x6f0 ≤ c.toNat ∧ c.toNat ≤ 0x6f9) ∧
      foldChar c ∈ (List.range 10).map (fun k ↦ Char.ofNat (k + 48)) ++
        [Char.ofNat 0x6a9, Char.ofNat 0x6cc, Char.ofNat 0x647] := by
  have hdigit (n : ℕ) (hn : n < 10) : Char.ofNat (n + 48) ∈
      (List.range 10).map (fun k ↦ Char.ofNat (k + 48)) ++
        [Char.ofNat 0x6a9, Char.ofNat 0x6cc, Char.ofNat 0x647] :=
    mem_append_left _ (mem_map_of_mem (mem_range.mpr hn))
  have hletter : ∀ l ∈ [Char.ofNat 0x6a9, Char.ofNat 0x6cc, Char.ofNat 0x647],
      foldDigit l = l := forall_of_all (by decide)
  rw [foldChar, arabicToPersian]
  split_ifs with h₁ h₂ h₃ h₄
  · exact .inr ⟨by omega, by decide⟩
  · exact .inr ⟨by omega, by decide⟩
  · exact .inr ⟨by omega, by decide⟩
  · exact .inr ⟨by omega, by decide⟩
  · rw [foldDigit]
    split_ifs with h h'
    · exact .inr ⟨by omega, hdigit _ (by omega)⟩
    · exact .inr ⟨by omega, hdigit _ (by omega)⟩
    · exact .inl rfl

def foldedChars : Text := (List.range 10).map (fun k ↦ Char.ofNat (k + 48)) ++
  [Char.ofNat 0x6a9, Char.ofNat 0x6cc, Char.ofNat 0x647]

theorem isSpace_foldChar (c : Char) : isSpace (foldChar c) = isSpace c := by
  have hfolded : ∀ l ∈ foldedChars, isSpace l = false := forall_of_all (by decide)
  rcases foldChar_cases c with h | ⟨hrange, hmem⟩
  · rw [h]
  · rw [hfolded _ hmem, eq_comm]
    simp only [isSpace, Bool.or_eq_false_iff, Bool.and_eq_false_iff, decide_eq_false_iff_not]
    omega

theorem isInvisible_foldChar (c : Char) : isInvisible (foldChar c) = isInvisible c := by
  have hfolded : ∀ l ∈ foldedChars, isInvisible l = false := forall_of_all (by decide)
  rcases foldChar_cases c with h | ⟨hrange, hmem⟩
  · rw [h]
  · rw [hfolded _ hmem, eq_comm]
    simp only [isInvisible, Bool.or_eq_false_iff, decide_eq_false_iff_not]
    omega

theorem isPlain_foldChar {c : Char} (h : isPlain c = true) : isPlain (foldChar c) = true := by
  have hfolded : ∀ l ∈ foldedChars, isPlain l = true := forall_of_all (by decide)
  rcases foldChar_cases c with heq | ⟨_, hmem⟩
  · rwa [heq]
  · exact hfolded _ hmem

theorem foldChar_foldChar (c : Char) : foldChar (foldChar c) = foldChar c := by
  have hfolded : ∀ l ∈ foldedChars, foldChar l = l := forall_of_all (by decide)
  rcases foldChar_cases c with h | ⟨_, hmem⟩
  · rw [h, h]
  · exact hfolded _ hmem

theorem eq_of_foldChar_eq {c mark : Char} (hmark : mark ∉ foldedChars) (h : foldChar c = mark) :
    c = mark := by
  rcases foldChar_cases c with heq | ⟨_, hmem⟩
  · rw [← heq, h]
  · exact absurd (h ▸ hmem) hmark

def isLetter (c : Char) : Bool := !isInvisible c && !isSpace c

def letters (s : Text) : Text := (s.filter isLetter).map foldChar

theorem letters_append (s s' : Text) : letters (s ++ s') = letters s ++ letters s' := by
  simp only [letters, filter_append, map_append]

theorem letters_cons (c : Char) (s : Text) :
    letters (c :: s) = (if isLetter c then [foldChar c] else []) ++ letters s := by
  rw [letters, filter_cons]
  split_ifs <;> rfl

theorem filter_normalized (s : Text) :
    (foldDigits (strip (collapse ((s.filter (!isInvisible ·)).map arabicToPersian)))).filter
      (!isSpace ·) = letters s := by
  rw [filter_foldDigits, filter_strip, filter_collapse, ← filter_foldDigits, foldDigits,
    map_map, filter_map, letters]
  have hspace : (!isSpace ·) ∘ foldDigit ∘ arabicToPersian = (!isSpace ·) :=
    funext (fun c ↦ congrArg (!·) (isSpace_foldChar c))
  rw [hspace, filter_filter]
  congr 1
  exact filter_congr (fun c _ ↦ Bool.and_comm _ _)

theorem labelKey_eq (nfkc : Nfkc) (s : Text) :
    labelKey nfkc s = unremarked '(' ')' isMark (letters (nfkc.fold s)) := by
  have hmark : ∀ c, isMark c = true → (!isSpace c) = true := by
    intro c hc
    rcases Bool.or_eq_true _ _ ▸ hc with h | h <;> rw [of_decide_eq_true h] <;> decide
  have hdrop (t : Text) : (replaceAll qualifier [' '] 0 t).filter (!isSpace ·) =
      unremarked '(' ')' isMark (t.filter (!isSpace ·)) :=
    filter_replaceAll_remark (by decide) (by decide) (by decide) hmark t
  rw [labelKey, hdrop, normalizeFa, filter_normalized]

def sheetText (nfkc : Nfkc) (s : Text) : Text := foldDigits (normalizeFa nfkc s)

theorem letters_eq_of_filter {s s' : Text} (h : s.filter (!isSpace ·) = s'.filter (!isSpace ·)) :
    letters s = letters s' := by
  have hsplit (t : Text) : t.filter isLetter = (t.filter (!isSpace ·)).filter (!isInvisible ·) := by
    rw [filter_filter]
    rfl
  rw [letters, letters, hsplit, hsplit, h]

theorem letters_letters (s : Text) : letters (letters s) = letters s := by
  have hkeep (c : Char) (hc : c ∈ letters s) : isLetter c = true := by
    obtain ⟨d, hd, rfl⟩ := mem_map.mp hc
    rw [isLetter, isSpace_foldChar, isInvisible_foldChar]
    exact (mem_filter.mp hd).2
  rw [letters, filter_eq_self.mpr hkeep, letters, map_map]
  exact congrArg (List.map · (s.filter isLetter)) (funext foldChar_foldChar)

theorem mem_of_mem_collapse {c : Char} {s : Text} (h : c ∈ collapse s) : c ∈ s ∨ c = ' ' := by
  induction s with
  | nil => cases h
  | cons d rest ih =>
    rw [collapse] at h
    have hrest (h : c ∈ collapse rest) : c ∈ d :: rest ∨ c = ' ' :=
      (ih h).imp_left (mem_cons_of_mem d)
    split_ifs at h
    · exact hrest h
    · exact (mem_cons.mp h).elim .inr hrest
    · exact (mem_cons.mp h).elim (fun h ↦ .inl (h ▸ mem_cons_self)) hrest

theorem mem_of_mem_strip {c : Char} {s : Text} (h : c ∈ strip s) : c ∈ s := by
  have hsuffix := (dropWhile_suffix (l := s) isSpace).subset
  exact hsuffix ((List.rdropWhile_prefix isSpace _).subset h)

theorem plain_sheetText {nfkc : Nfkc} {s : Text} (h : s.all isPlain = true) :
    (sheetText nfkc s).all isPlain = true := by
  rw [all_eq_true] at h ⊢
  intro c hc
  obtain ⟨d, hd, rfl⟩ := mem_map.mp hc
  rw [normalizeFa, nfkc.plain s (all_eq_true.mpr h)] at hd
  rcases mem_of_mem_collapse (mem_of_mem_strip hd) with hd | rfl
  · obtain ⟨e, he, rfl⟩ := mem_map.mp hd
    exact isPlain_foldChar (h e (mem_of_mem_filter he))
  · decide

theorem labelKey_sheetText {nfkc : Nfkc} {s : Text} (h : s.all isPlain = true) :
    labelKey nfkc (sheetText nfkc s) = unremarked '(' ')' isMark (letters s) := by
  have hletters : letters (sheetText nfkc s) = letters s := by
    have hfilter := filter_normalized s
    rw [← letters_letters s, ← hfilter]
    refine letters_eq_of_filter ?_
    rw [sheetText, normalizeFa, nfkc.plain s h, filter_filter]
    simp only [Bool.and_self]
  rw [labelKey_eq, nfkc.plain _ (plain_sheetText h), hletters]

end Spaces

section Respelling

inductive Respelling : Text → Text → Prop
  | letter (before after : Text) {c c' : Char}
      (h : foldDigit (arabicToPersian c) = foldDigit (arabicToPersian c'))
      (hplain : (before ++ c :: after).all isPlain = true)
      (hplain' : (before ++ c' :: after).all isPlain = true) :
      Respelling (before ++ c :: after) (before ++ c' :: after)
  | zwnj (before after : Text) (hplain : (before ++ after).all isPlain = true) :
      Respelling (before ++ after) (before ++ Char.ofNat 0x200c :: after)
  | space (before after : Text) {c : Char} (hspace : isSpace c = true)
      (hplain : (before ++ c :: after).all isPlain = true) :
      Respelling (before ++ after) (before ++ c :: after)
  | note (before after : Text) {note : Text} (hbefore : '(' ∉ before) (hopen : '(' ∉ note)
      (hclose : ')' ∉ note) (hplain : (before ++ '(' :: note ++ ')' :: after).all isPlain = true) :
      Respelling (before ++ after) (before ++ '(' :: note ++ ')' :: after)
  | symm {s s' : Text} (h : Respelling s s') : Respelling s' s
  | trans {s s' s'' : Text} (h : Respelling s s') (h' : Respelling s' s'') : Respelling s s''

def rowKey (nfkc : Nfkc) (s : Text) : Text := labelKey nfkc (sheetText nfkc s)

theorem all_of_insert {before after : Text} (inserted : Text) {p : Char → Bool}
    (h : (before ++ inserted ++ after).all p = true) : (before ++ after).all p = true := by
  rw [all_append, all_append, Bool.and_eq_true, Bool.and_eq_true] at h
  rw [all_append, h.1.1, h.2, Bool.and_self]

theorem letters_insert {before after : Text} {c : Char} (h : isLetter c = false) :
    letters (before ++ c :: after) = letters (before ++ after) := by
  rw [letters_append, letters_cons, h, letters_append]
  rfl

theorem letters_cons_congr {c c' : Char} (h : foldChar c = foldChar c') (s : Text) :
    letters (c :: s) = letters (c' :: s) := by
  have hletter : isLetter c = isLetter c' := by
    rw [isLetter, ← isSpace_foldChar, ← isInvisible_foldChar, h, isSpace_foldChar,
      isInvisible_foldChar, isLetter]
  rw [letters_cons, letters_cons, hletter, h]

theorem letters_note (before note after : Text) :
    letters (before ++ '(' :: note ++ ')' :: after) =
      letters before ++ '(' :: letters note ++ ')' :: letters after := by
  have hopen : letters ('(' :: note) = '(' :: letters note := letters_cons '(' note
  have hclose : letters (')' :: after) = ')' :: letters after := letters_cons ')' after
  rw [letters_append, letters_append, hopen, hclose]

theorem not_mem_letters {mark : Char} (hmark : mark ∉ foldedChars) {s : Text} (h : mark ∉ s) :
    mark ∉ letters s := by
  intro hin
  obtain ⟨c, hc, heq⟩ := mem_map.mp hin
  exact h (eq_of_foldChar_eq hmark heq ▸ mem_of_mem_filter hc)

theorem Respelling.keeps {s s' : Text} (h : Respelling s s') :
    s.all isPlain = true ∧ s'.all isPlain = true ∧
      unremarked '(' ')' isMark (letters s) = unremarked '(' ')' isMark (letters s') := by
  induction h with
  | letter before after h hplain hplain' =>
    refine ⟨hplain, hplain', ?_⟩
    rw [letters_append, letters_append, letters_cons_congr h]
  | zwnj before after hplain =>
    refine ⟨hplain, ?_, ?_⟩
    · rw [all_append, Bool.and_eq_true] at hplain
      rw [all_append, all_cons, hplain.1, hplain.2]
      decide
    · rw [letters_insert (by decide)]
  | @space before after c hspace hplain =>
    refine ⟨all_of_insert [c] (by rwa [append_cons] at hplain), hplain, ?_⟩
    rw [letters_insert (by rw [isLetter, hspace, Bool.not_true, Bool.and_false])]
  | @note before after note hbefore hopen hclose hplain =>
    refine ⟨all_of_insert ('(' :: note ++ [')']) (by simpa using hplain), hplain, ?_⟩
    rw [letters_note, letters_append]
    exact (unremarked_insert (not_mem_letters (by decide) hbefore)
      (not_mem_letters (by decide) hopen) (not_mem_letters (by decide) hclose)).symm
  | symm _ ih => exact ⟨ih.2.1, ih.1, ih.2.2.symm⟩
  | trans _ _ ih ih' => exact ⟨ih.1, ih'.2.1, ih.2.2.trans ih'.2.2⟩

theorem Respelling.rowKey_eq {s s' : Text} (h : Respelling s s') (nfkc : Nfkc) :
    rowKey nfkc s = rowKey nfkc s' := by
  obtain ⟨hplain, hplain', heq⟩ := h.keeps
  rw [rowKey, labelKey_sheetText hplain, rowKey, labelKey_sheetText hplain', heq]

end Respelling

end TalaPala.Economic
