import TalaPala.News.JsonLoads

namespace TalaPala.News

open List

section Guard

variable (maxDepth : ℤ)

/-- The guard outside a string, where the decoder holds `held` open arrays and objects. -/
def depthOk (held : ℕ) (l : CodePoints) : Bool := jsonDepthFrom maxDepth held false false l

def isPlain (n : ℕ) : Bool := n ≠ 34 ∧ n ≠ 91 ∧ n ≠ 123 ∧ n ≠ 93 ∧ n ≠ 125

variable {maxDepth} {held n : ℕ} {l rest : CodePoints}

theorem depthOk_plain (h : isPlain n = true) :
    depthOk maxDepth held (n :: l) = depthOk maxDepth held l := by
  obtain ⟨hquote, hopen, hopen', hclose, hclose'⟩ := of_decide_eq_true h
  rw [depthOk, jsonDepthFrom, if_neg hquote, if_neg (not_or.mpr ⟨hopen, hopen'⟩),
    if_neg (not_or.mpr ⟨hclose, hclose'⟩), depthOk]

theorem depthOk_opening (h : n = 91 ∨ n = 123) :
    depthOk maxDepth held (n :: l) =
      (decide (held + 1 ≤ maxDepth.toNat) && depthOk maxDepth (held + 1) l) := by
  have hquote : n ≠ 34 := by omega
  rw [depthOk, jsonDepthFrom, if_neg hquote, if_pos h]
  by_cases hle : held + 1 ≤ maxDepth.toNat
  · rw [if_neg (by omega), decide_eq_true hle, Bool.true_and, depthOk, Nat.cast_succ]
  · rw [if_pos (by omega), decide_eq_false hle, Bool.false_and]

theorem depthOk_closing (h : n = 93 ∨ n = 125) :
    depthOk maxDepth (held + 1) (n :: l) = depthOk maxDepth held l := by
  have hquote : n ≠ 34 := by omega
  have hopen : ¬ (n = 91 ∨ n = 123) := by omega
  rw [depthOk, jsonDepthFrom, if_neg hquote, if_neg hopen, if_pos h, depthOk, Nat.cast_succ,
    add_sub_cancel_right]

theorem depthOk_append {front : CodePoints} (h : front.all isPlain = true) :
    depthOk maxDepth held (front ++ l) = depthOk maxDepth held l := by
  induction front with
  | nil => rfl
  | cons n front ih =>
    obtain ⟨hn, hfront⟩ := Bool.and_eq_true_iff.mp h
    rw [cons_append, depthOk_plain hn, ih hfront]

def Consumes (l rest : CodePoints) : Prop := ∃ front, l = front ++ rest ∧ front.all isPlain = true

theorem Consumes.refl (l : CodePoints) : Consumes l l := ⟨[], rfl, rfl⟩

theorem Consumes.trans {l' : CodePoints} (h : Consumes l l') (h' : Consumes l' rest) :
    Consumes l rest := by
  obtain ⟨front, rfl, hfront⟩ := h
  obtain ⟨front', rfl, hfront'⟩ := h'
  exact ⟨front ++ front', by rw [append_assoc], by rw [all_append, hfront, hfront']; rfl⟩

theorem Consumes.cons (hn : isPlain n = true) (h : Consumes l rest) : Consumes (n :: l) rest := by
  obtain ⟨front, rfl, hfront⟩ := h
  exact ⟨n :: front, rfl, Bool.and_eq_true_iff.mpr ⟨hn, hfront⟩⟩

theorem Consumes.depthOk_eq (h : Consumes l rest) :
    depthOk maxDepth held l = depthOk maxDepth held rest := by
  obtain ⟨front, rfl, hfront⟩ := h
  exact depthOk_append hfront

theorem Consumes.length_le (h : Consumes l rest) : rest.length ≤ l.length := by
  obtain ⟨front, rfl, -⟩ := h
  rw [length_append]
  exact Nat.le_add_left _ _

theorem consumes_dropWhile {p : ℕ → Bool} (hp : ∀ n, p n = true → isPlain n = true)
    (l : CodePoints) : Consumes l (l.dropWhile p) :=
  ⟨l.takeWhile p, (takeWhile_append_dropWhile).symm,
    all_eq_true.mpr (fun n hn ↦ hp n (mem_takeWhile_imp hn))⟩

theorem isPlain_of_isJsonSpace (h : isJsonSpace n = true) : isPlain n = true := by
  simp only [isJsonSpace, isPlain, Bool.or_eq_true, decide_eq_true_eq] at *
  omega

theorem isPlain_of_isDigitPoint (h : isDigitPoint n = true) : isPlain n = true := by
  simp only [isDigitPoint, isPlain, Bool.and_eq_true, decide_eq_true_eq] at *
  omega

theorem consumes_skipJsonSpace (l : CodePoints) : Consumes l (skipJsonSpace l) :=
  consumes_dropWhile (fun _ h ↦ isPlain_of_isJsonSpace h) l

theorem consumes_digits (l : CodePoints) : Consumes l (l.dropWhile isDigitPoint) :=
  consumes_dropWhile (fun _ h ↦ isPlain_of_isDigitPoint h) l

theorem consumes_scanFraction (l : CodePoints) : Consumes l (scanFraction l) := by
  unfold scanFraction
  split
  · split_ifs with hn
    · exact .cons (by decide) (.cons (isPlain_of_isDigitPoint hn) (consumes_digits _))
    · exact .refl _
  · exact .refl l

theorem consumes_scanSign (l : CodePoints) : Consumes l (scanSign l) := by
  unfold scanSign
  split
  · split_ifs with hn
    · refine .cons ?_ (.refl _)
      rcases hn with rfl | rfl <;> decide
    · exact .refl _
  · exact .refl _

theorem consumes_scanExponent (l : CodePoints) : Consumes l (scanExponent l) := by
  unfold scanExponent
  split
  · rename_i e rest
    split_ifs with he
    · have hplain : isPlain e = true := by
        rcases he with rfl | rfl <;> decide
      split
      · rename_i n after hsign
        split_ifs with hn
        · have hafter := consumes_scanSign rest
          rw [hsign] at hafter
          exact .cons hplain (hafter.trans (.cons (isPlain_of_isDigitPoint hn) (consumes_digits _)))
        · exact .refl _
      · exact .refl _
    · exact .refl _
  · exact .refl _

theorem scanWord_spec {word : String} (hword : word ≠ "") (hplain : (codePoints word).all isPlain)
    (h : scanWord word l = some rest) : Consumes l rest ∧ rest.length < l.length := by
  unfold scanWord at h
  split_ifs at h with hpre
  obtain ⟨after, rfl⟩ := isPrefixOf_iff_prefix.mp hpre
  have hlength : (codePoints word).length = word.length := by
    rw [codePoints, length_map, String.length_toList]
  have hpos : 0 < word.length := Nat.pos_of_ne_zero (fun hzero ↦ hword (String.length_eq_zero_iff.mp hzero))
  rw [← hlength, drop_left] at h
  obtain rfl := Option.some.inj h
  refine ⟨⟨codePoints word, rfl, hplain⟩, ?_⟩
  rw [length_append]
  omega

theorem scanWhole_spec (h : scanWhole l = some rest) :
    Consumes l rest ∧ rest.length < l.length := by
  unfold scanWhole at h
  split at h
  · rename_i n after
    split_ifs at h with hzero hdigit
    · obtain rfl := Option.some.inj h
      exact ⟨.cons (by rw [hzero]; decide) (.refl _), Nat.lt_succ_self _⟩
    · obtain rfl := Option.some.inj h
      have hn : isDigitPoint n = true := by
        simp only [isDigitPoint, Bool.and_eq_true, decide_eq_true_eq]
        omega
      exact ⟨.cons (isPlain_of_isDigitPoint hn) (consumes_digits after),
        Nat.lt_succ_of_le (consumes_digits after).length_le⟩
  · cases h

theorem scanNumber_spec (h : scanNumber l = some rest) :
    Consumes l rest ∧ rest.length < l.length := by
  unfold scanNumber at h
  obtain ⟨after, hwhole, rfl⟩ := Option.map_eq_some_iff.mp h
  obtain ⟨htaken, hlt⟩ := scanWhole_spec hwhole
  have hend : Consumes after (scanExponent (scanFraction after)) :=
    (consumes_scanFraction after).trans (consumes_scanExponent _)
  have hle := hend.length_le
  split_ifs at htaken hlt with hminus
  · obtain ⟨digits, rfl⟩ := head?_eq_some_iff.mp hminus
    exact ⟨.cons (by decide) (htaken.trans hend), by rw [tail_cons] at hlt; simp only [length_cons]; omega⟩
  · exact ⟨htaken.trans hend, by omega⟩

theorem scanScalar_spec (h : scanScalar l = some rest) :
    Consumes l rest ∧ rest.length < l.length := by
  unfold scanScalar at h
  rcases Option.or_eq_some_iff.mp h with h | ⟨-, h⟩
  · exact scanWord_spec (by decide) (by decide) h
  rcases Option.or_eq_some_iff.mp h with h | ⟨-, h⟩
  · exact scanWord_spec (by decide) (by decide) h
  rcases Option.or_eq_some_iff.mp h with h | ⟨-, h⟩
  · exact scanWord_spec (by decide) (by decide) h
  · exact scanNumber_spec h

variable {depth : ℤ}

theorem inString_plain (h : n ≠ 34) (h' : n ≠ 92) :
    jsonDepthFrom maxDepth depth true false (n :: l) = jsonDepthFrom maxDepth depth true false l := by
  rw [jsonDepthFrom, if_neg h', decide_eq_true h]

theorem inString_escape (e : ℕ) :
    jsonDepthFrom maxDepth depth true false (92 :: e :: l) =
      jsonDepthFrom maxDepth depth true false l := by
  rw [jsonDepthFrom, if_pos rfl, jsonDepthFrom]

theorem inString_quote :
    jsonDepthFrom maxDepth depth true false (34 :: l) =
      jsonDepthFrom maxDepth depth false false l := by
  rw [jsonDepthFrom, if_neg (by decide)]
  rfl

theorem inString_hex {a b c d : ℕ} (h : [a, b, c, d].all isHexPoint = true) :
    jsonDepthFrom maxDepth depth true false (a :: b :: c :: d :: l) =
      jsonDepthFrom maxDepth depth true false l := by
  have hne : ∀ n ∈ [a, b, c, d], n ≠ 34 ∧ n ≠ 92 := by
    intro n hn
    have hhex := all_eq_true.mp h n hn
    simp only [isHexPoint, isDigitPoint, Bool.or_eq_true, Bool.and_eq_true, decide_eq_true_eq] at hhex
    omega
  rw [inString_plain (hne a (by simp)).1 (hne a (by simp)).2,
    inString_plain (hne b (by simp)).1 (hne b (by simp)).2,
    inString_plain (hne c (by simp)).1 (hne c (by simp)).2,
    inString_plain (hne d (by simp)).1 (hne d (by simp)).2]

theorem scanString_spec (h : scanString l = some rest) :
    jsonDepthFrom maxDepth depth true false l = jsonDepthFrom maxDepth depth false false rest ∧
      rest.length < l.length := by
  fun_induction scanString l with
  | case1 => cases h
  | case2 after =>
    obtain rfl := Option.some.inj h
    exact ⟨inString_quote, Nat.lt_succ_self _⟩
  | case3 a b c d after hhex ih =>
    obtain ⟨heq, hlt⟩ := ih h
    rw [inString_escape, inString_hex hhex, heq]
    exact ⟨rfl, by simp only [length_cons]; omega⟩
  | case4 => cases h
  | case5 e after _ _ ih =>
    obtain ⟨heq, hlt⟩ := ih h
    rw [inString_escape, heq]
    exact ⟨rfl, by simp only [length_cons]; omega⟩
  | case6 => cases h
  | case7 => cases h
  | case8 n after hquote _ _ hn ih =>
    obtain ⟨heq, hlt⟩ := ih h
    obtain ⟨-, hescape⟩ := not_or.mp hn
    rw [inString_plain hquote hescape, heq]
    exact ⟨rfl, Nat.lt_succ_of_lt hlt⟩

theorem length_scanString (h : scanString l = some rest) : rest.length < l.length := by
  have hspec : jsonDepthFrom 0 0 true false l = jsonDepthFrom 0 0 false false rest ∧
      rest.length < l.length := scanString_spec h
  exact hspec.2

theorem depthOk_string (h : scanString l = some rest) :
    depthOk maxDepth held (34 :: l) = depthOk maxDepth held rest := by
  rw [depthOk, jsonDepthFrom, if_pos rfl]
  exact (scanString_spec h).1

end Guard

section Simulation

variable {α β γ : Type*} {maxDepth : ℤ} {before after : ℕ} {l : CodePoints}

/-- The guard and a stretch of the descent that leaves `after` of `before` open: a text
that passes holds no more open than the limit, and where the stretch ends within it, the
guard is where the decoder is. -/
structure Follows (maxDepth : ℤ) (before after : ℕ) (size : α → ℕ) (l : CodePoints) (x : Scan α) :
    Prop where
  le_peak : before ≤ x.peak
  peak_eq : ∀ a rest, x.result = .ok (a, rest) → x.peak = before + size a
  bounded : before ≤ maxDepth.toNat → depthOk maxDepth before l = true → x.peak ≤ maxDepth.toNat
  guard_eq : ∀ a rest, x.result = .ok (a, rest) → x.peak ≤ maxDepth.toNat →
    depthOk maxDepth before l = depthOk maxDepth after rest

theorem follows_error (size : α → ℕ) (stop : Halt) :
    Follows maxDepth before after size l ⟨before, .error stop⟩ where
  le_peak := le_rfl
  peak_eq := fun _ _ h ↦ by cases h
  bounded := fun hle _ ↦ hle
  guard_eq := fun _ _ h ↦ by cases h

theorem follows_done {size : α → ℕ} {a : α} {rest : CodePoints} (hsize : size a = 0)
    (h : depthOk maxDepth before l = depthOk maxDepth after rest) :
    Follows maxDepth before after size l (.done before a rest) where
  le_peak := le_rfl
  peak_eq := by
    intro a' rest' hresult
    obtain ⟨rfl, rfl⟩ := Prod.mk.inj (Except.ok.inj hresult)
    rw [hsize]
    rfl
  bounded := fun hle _ ↦ hle
  guard_eq := by
    intro a' rest' hresult _
    obtain ⟨rfl, rfl⟩ := Prod.mk.inj (Except.ok.inj hresult)
    exact h

theorem Follows.andThen {size : α → ℕ} {size' : β → ℕ} {size'' : γ → ℕ} {x : Scan α}
    {y : CodePoints → Scan β} {g : α → β → γ} (hx : Follows maxDepth before before size l x)
    (hy : ∀ rest, Follows maxDepth before after size' rest (y rest))
    (hg : ∀ a b, size'' (g a b) = max (size a) (size' b)) :
    Follows maxDepth before after size'' l (x.andThen y g) := by
  cases hresult : x.result with
  | error stop =>
    rw [Scan.andThen_of_error hresult]
    exact ⟨hx.le_peak, fun _ _ h ↦ (by cases h), hx.bounded, fun _ _ h ↦ (by cases h)⟩
  | ok p =>
    obtain ⟨a, rest⟩ := p
    have hpeak := hx.peak_eq a rest hresult
    rw [Scan.andThen_of_ok hresult]
    refine ⟨le_max_of_le_left hx.le_peak, fun c rest' hc ↦ ?_, fun hle hguard ↦ ?_,
      fun c rest' hc hle ↦ ?_⟩
    · obtain ⟨b, hb, rfl⟩ := Scan.result_map.mp hc
      dsimp only
      rw [hpeak, (hy rest).peak_eq b rest' hb, hg, Nat.add_max_add_left]
    · have hfirst := hx.bounded hle hguard
      rw [hx.guard_eq a rest hresult hfirst] at hguard
      exact max_le hfirst ((hy rest).bounded hle hguard)
    · obtain ⟨b, hb, -⟩ := Scan.result_map.mp hc
      obtain ⟨hfirst, hsecond⟩ := max_le_iff.mp hle
      rw [hx.guard_eq a rest hresult hfirst, (hy rest).guard_eq b rest' hb hsecond]

theorem Follows.of_guard_eq {size : α → ℕ} {x : Scan α} {l' : CodePoints}
    (hx : Follows maxDepth before after size l' x)
    (h : depthOk maxDepth before l = depthOk maxDepth before l') :
    Follows maxDepth before after size l x where
  le_peak := hx.le_peak
  peak_eq := hx.peak_eq
  bounded := fun hle hguard ↦ hx.bounded hle (h ▸ hguard)
  guard_eq := fun a rest hresult hle ↦ h.trans (hx.guard_eq a rest hresult hle)

theorem Follows.within {size : α → ℕ} {size' : β → ℕ} {x : Scan α} {f : α → β} {n : ℕ}
    (hn : n = 91 ∨ n = 123) (hx : Follows maxDepth (before + 1) after size l x)
    (hf : ∀ a, size' (f a) = size a + 1) :
    Follows maxDepth before after size' (n :: l) (x.map f) := by
  have hle := hx.le_peak
  refine ⟨?_, fun b rest hb ↦ ?_, fun _ hguard ↦ ?_, fun b rest hb hbound ↦ ?_⟩
  · rw [Scan.peak_map]
    omega
  · obtain ⟨a, ha, rfl⟩ := Scan.result_map.mp hb
    rw [Scan.peak_map, hx.peak_eq a rest ha, hf]
    omega
  · rw [depthOk_opening hn, Bool.and_eq_true] at hguard
    rw [Scan.peak_map]
    exact hx.bounded (of_decide_eq_true hguard.1) hguard.2
  · obtain ⟨a, ha, -⟩ := Scan.result_map.mp hb
    rw [Scan.peak_map] at hbound
    rw [depthOk_opening hn, decide_eq_true (hle.trans hbound), Bool.true_and,
      hx.guard_eq a rest ha hbound]

section Descent

variable {close : ℕ} {next : CodePoints → Scan (List JsonValue)}

theorem follows_afterOpening (hclose : close = 93 ∨ close = 125)
    (hnext : ∀ l, Follows maxDepth (before + 1) before JsonValue.nestingItems l (next l))
    (l : CodePoints) :
    Follows maxDepth (before + 1) before JsonValue.nestingItems l
      (afterOpening close (before + 1) next l) := by
  have hskip : depthOk maxDepth (before + 1) l = depthOk maxDepth (before + 1) (skipJsonSpace l) :=
    (consumes_skipJsonSpace l).depthOk_eq
  unfold afterOpening
  split
  · rename_i n rest heq
    rw [heq] at hskip
    split_ifs with hn
    · exact follows_done rfl (hskip.trans (depthOk_closing (hn ▸ hclose)))
    · exact (hnext _).of_guard_eq hskip
  · rename_i heq
    rw [heq] at hskip
    exact (hnext _).of_guard_eq hskip

theorem follows_afterItem (hclose : close = 93 ∨ close = 125)
    (hnext : ∀ l, Follows maxDepth (before + 1) before JsonValue.nestingItems l (next l))
    (l : CodePoints) :
    Follows maxDepth (before + 1) before JsonValue.nestingItems l
      (afterItem close (before + 1) next l) := by
  have hskip : depthOk maxDepth (before + 1) l = depthOk maxDepth (before + 1) (skipJsonSpace l) :=
    (consumes_skipJsonSpace l).depthOk_eq
  unfold afterItem
  split
  · rename_i n rest heq
    rw [heq] at hskip
    split_ifs with hn hcomma
    · exact follows_done rfl (hskip.trans (depthOk_closing (hn ▸ hclose)))
    · have hplain : isPlain n = true := by
        rw [hcomma]
        decide
      exact (hnext _).of_guard_eq (hskip.trans ((depthOk_plain hplain).trans
        (consumes_skipJsonSpace rest).depthOk_eq))
    · exact follows_error _ _
  · exact follows_error _ _

theorem depthOk_scanName {held : ℕ} {rest : CodePoints} (h : scanName l = some rest) :
    depthOk maxDepth held l = depthOk maxDepth held rest := by
  unfold scanName at h
  split at h
  · rename_i n after
    split_ifs at h with hquote
    split at h
    · rename_i m last hstring
      split_ifs at h with hcolon
      obtain rfl := Option.some.inj h
      obtain ⟨string, hscan, hspace⟩ := Option.map_eq_some_iff.mp hstring
      have hplain : isPlain m = true := by
        rw [hcolon]
        decide
      rw [hquote, depthOk_string hscan, (consumes_skipJsonSpace string).depthOk_eq, hspace,
        depthOk_plain hplain, (consumes_skipJsonSpace last).depthOk_eq]
    · cases h
  · cases h

theorem follows_decode (fuel : ℕ) : ∀ (held : ℕ) (l : CodePoints),
    Follows maxDepth held held JsonValue.nesting l (decodeValue fuel held l) ∧
      Follows maxDepth (held + 1) held JsonValue.nestingItems l (decodeItems fuel (held + 1) l) ∧
      Follows maxDepth (held + 1) held JsonValue.nestingItems l
        (decodeMembers fuel (held + 1) l) := by
  induction fuel with
  | zero =>
    intro held l
    rw [decodeValue, decodeItems, decodeMembers]
    exact ⟨follows_error _ _, follows_error _ _, follows_error _ _⟩
  | succ fuel ih =>
    intro held l
    refine ⟨?_, ?_, ?_⟩
    · cases l with
      | nil =>
        rw [decodeValue]
        exact follows_error _ _
      | cons n rest =>
        rw [decodeValue]
        split_ifs with hquote hbrace hbracket
        · split
          · rename_i after hscan
            exact follows_done rfl (hquote ▸ depthOk_string hscan)
          · exact follows_error _ _
        · exact (follows_afterOpening (.inr rfl) (fun l ↦ (ih held l).2.2) rest).within (.inr hbrace)
            (fun _ ↦ by rw [JsonValue.nesting])
        · exact (follows_afterOpening (.inl rfl) (fun l ↦ (ih held l).2.1) rest).within (.inl hbracket)
            (fun _ ↦ by rw [JsonValue.nesting])
        · split
          · rename_i after hscan
            exact follows_done rfl (scanScalar_spec hscan).1.depthOk_eq
          · exact follows_error _ _
    · rw [decodeItems]
      exact (ih (held + 1) l).1.andThen (follows_afterItem (.inl rfl) (fun l ↦ (ih held l).2.1))
        (fun _ _ ↦ by rw [JsonValue.nestingItems])
    · rw [decodeMembers]
      split
      · rename_i rest hname
        exact ((ih (held + 1) rest).1.andThen
          (follows_afterItem (.inr rfl) (fun l ↦ (ih held l).2.2))
          (fun _ _ ↦ by rw [JsonValue.nestingItems])).of_guard_eq (depthOk_scanName hname)
      · exact follows_error _ _

end Descent

end Simulation

section Fuel

variable {α β γ : Type*} {l : CodePoints}

def Ends (l : CodePoints) (x : Scan α) : Prop :=
  x.result ≠ .error .outOfFuel ∧ ∀ a rest, x.result = .ok (a, rest) → rest.length < l.length

theorem ends_fails (held : ℕ) : Ends l (.fails held : Scan α) :=
  ⟨fun h ↦ (by cases h), fun _ _ h ↦ (by cases h)⟩

theorem ends_done {held : ℕ} {a : α} {rest : CodePoints} (h : rest.length < l.length) :
    Ends l (.done held a rest) := by
  refine ⟨fun h ↦ (by cases h), fun a' rest' hresult ↦ ?_⟩
  obtain ⟨rfl, rfl⟩ := Prod.mk.inj (Except.ok.inj hresult)
  exact h

theorem Ends.of_length_le {l' : CodePoints} {x : Scan α} (h : Ends l' x)
    (hle : l'.length ≤ l.length) : Ends l x :=
  ⟨h.1, fun a rest hresult ↦ (h.2 a rest hresult).trans_le hle⟩

theorem Ends.map {f : α → β} {x : Scan α} (h : Ends l x) : Ends l (x.map f) := by
  refine ⟨fun hresult ↦ ?_, fun b rest hresult ↦ ?_⟩
  · unfold Scan.map at hresult
    split at hresult
    · rename_i stop hx
      obtain rfl := Except.error.inj hresult
      exact h.1 hx
    · cases hresult
  · obtain ⟨a, ha, -⟩ := Scan.result_map.mp hresult
    exact h.2 a rest ha

theorem Ends.andThen {x : Scan α} {y : CodePoints → Scan β} {g : α → β → γ} (hx : Ends l x)
    (hy : ∀ rest, rest.length < l.length → Ends l (y rest)) : Ends l (x.andThen y g) := by
  cases hresult : x.result with
  | error stop =>
    rw [Scan.andThen_of_error hresult]
    refine ⟨fun h ↦ ?_, fun _ _ h ↦ (by cases h)⟩
    obtain rfl := Except.error.inj h
    exact hx.1 hresult
  | ok p =>
    obtain ⟨a, rest⟩ := p
    rw [Scan.andThen_of_ok hresult]
    exact (hy rest (hx.2 a rest hresult)).map

variable {close held : ℕ} {next : CodePoints → Scan (List JsonValue)}

theorem ends_afterOpening (h : ∀ l' : CodePoints, l'.length ≤ l.length → Ends l' (next l')) :
    Ends l (afterOpening close held next l) := by
  have hskip := (consumes_skipJsonSpace l).length_le
  unfold afterOpening
  split
  · rename_i n rest heq
    rw [heq] at hskip
    split_ifs
    · exact ends_done hskip
    · exact (h _ hskip).of_length_le hskip
  · exact (h [] (Nat.zero_le _)).of_length_le (Nat.zero_le _)

theorem ends_afterItem {rest : CodePoints} (hrest : rest.length ≤ l.length)
    (h : ∀ l' : CodePoints, l'.length < rest.length → Ends l' (next l')) :
    Ends l (afterItem close held next rest) := by
  have hskip := (consumes_skipJsonSpace rest).length_le
  unfold afterItem
  split
  · rename_i n after heq
    rw [heq, length_cons] at hskip
    have hafter := (consumes_skipJsonSpace after).length_le
    split_ifs
    · exact ends_done (by omega)
    · exact (h _ (by omega)).of_length_le (by omega)
    · exact ends_fails _
  · exact ends_fails _

theorem length_scanName {rest : CodePoints} (h : scanName l = some rest) :
    rest.length < l.length := by
  unfold scanName at h
  split at h
  · rename_i n after
    split_ifs at h with hquote
    split at h
    · rename_i m last hstring
      split_ifs at h with hcolon
      obtain rfl := Option.some.inj h
      obtain ⟨string, hscan, hspace⟩ := Option.map_eq_some_iff.mp hstring
      have hlt := length_scanString hscan
      have hle := (consumes_skipJsonSpace string).length_le
      have hle' := (consumes_skipJsonSpace last).length_le
      rw [hspace, length_cons] at hle
      rw [length_cons]
      omega
    · cases h
  · cases h

theorem decode_ends (fuel : ℕ) : ∀ (held : ℕ) (l : CodePoints),
    (2 * l.length + 1 ≤ fuel → Ends l (decodeValue fuel held l)) ∧
      (2 * l.length + 2 ≤ fuel → Ends l (decodeItems fuel held l)) ∧
      (2 * l.length + 2 ≤ fuel → Ends l (decodeMembers fuel held l)) := by
  induction fuel with
  | zero =>
    intro held l
    exact ⟨fun h ↦ absurd h (by omega), fun h ↦ absurd h (by omega), fun h ↦ absurd h (by omega)⟩
  | succ fuel ih =>
    intro held l
    refine ⟨fun hfuel ↦ ?_, fun hfuel ↦ ?_, fun hfuel ↦ ?_⟩
    · cases l with
      | nil =>
        rw [decodeValue]
        exact ends_fails _
      | cons n rest =>
        rw [length_cons] at hfuel
        have hrest : rest.length ≤ (n :: rest).length := Nat.le_succ _
        rw [decodeValue]
        split_ifs
        · split
          · rename_i after hscan
            have hlt := length_scanString hscan
            exact ends_done (by rw [length_cons]; omega)
          · exact ends_fails _
        · exact ((ends_afterOpening (fun l' hle ↦
            (ih (held + 1) l').2.2 (by omega))).of_length_le hrest).map
        · exact ((ends_afterOpening (fun l' hle ↦
            (ih (held + 1) l').2.1 (by omega))).of_length_le hrest).map
        · split
          · rename_i after hscan
            exact ends_done (scanScalar_spec hscan).2
          · exact ends_fails _
    · rw [decodeItems]
      exact ((ih held l).1 (by omega)).andThen (fun rest hrest ↦
        ends_afterItem hrest.le (fun l' hlt ↦ (ih held l').2.1 (by omega)))
    · rw [decodeMembers]
      split
      · rename_i rest hname
        have hlt := length_scanName hname
        exact (((ih held rest).1 (by omega)).andThen (fun after hafter ↦
          ends_afterItem hafter.le (fun l' hlt ↦
            (ih held l').2.2 (by omega)))).of_length_le hlt.le
      · exact ends_fails _

theorem jsonLoads_ends (text : CodePoints) : (jsonLoads text).result ≠ .error .outOfFuel := by
  unfold jsonLoads
  split_ifs
  · exact fun h ↦ by cases h
  · have hskip := (consumes_skipJsonSpace text).length_le
    have hvalue := (decode_ends (2 * text.length + 1) 0 (skipJsonSpace text)).1 (by omega)
    have hlast : ∀ rest : CodePoints, rest.length < (skipJsonSpace text).length →
        Ends (skipJsonSpace text)
          (if skipJsonSpace rest = [] then Scan.done 0 () [] else .fails 0) := by
      intro rest hrest
      split_ifs
      · exact ends_done ((Nat.zero_le _).trans_lt hrest)
      · exact ends_fails _
    exact (hvalue.andThen hlast).1

end Fuel

section Decoder

variable {maxDepth : ℤ}

theorem follows_jsonLoads (text : CodePoints) :
    Follows maxDepth 0 0 JsonValue.nesting text (jsonLoads text) := by
  unfold jsonLoads
  split_ifs
  · exact follows_error _ _
  · have hend : ∀ rest : CodePoints, Follows maxDepth 0 0 (fun _ ↦ 0) rest
        (if skipJsonSpace rest = [] then Scan.done 0 () [] else .fails 0) := by
      intro rest
      have hskip : depthOk maxDepth 0 rest = depthOk maxDepth 0 (skipJsonSpace rest) :=
        (consumes_skipJsonSpace rest).depthOk_eq
      split_ifs with hempty
      · exact follows_done rfl (hempty ▸ hskip)
      · exact follows_error _ _
    exact ((follows_decode _ 0 (skipJsonSpace text)).1.andThen hend
      (fun _ _ ↦ (max_eq_left (Nat.zero_le _)).symm)).of_guard_eq
        (consumes_skipJsonSpace text).depthOk_eq

theorem jsonLoads_rest {text rest : CodePoints} {value : JsonValue}
    (h : (jsonLoads text).result = .ok (value, rest)) : rest = [] := by
  unfold jsonLoads at h
  split_ifs at h
  · cases h
  · cases hvalue : (decodeValue (2 * text.length + 1) 0 (skipJsonSpace text)).result with
    | error stop =>
      rw [Scan.andThen_of_error hvalue] at h
      cases h
    | ok p =>
      obtain ⟨item, after⟩ := p
      rw [Scan.andThen_of_ok hvalue] at h
      obtain ⟨_, hend, -⟩ := Scan.result_map.mp h
      split_ifs at hend
      · exact (Prod.mk.inj (Except.ok.inj hend)).2.symm
      · cases hend

/-- A text that the guard passes never has the decoder hold more open than the limit; of a
text that spells a value the guard says whether its nesting is within it. -/
theorem jsonDepthOk_decoder (text : CodePoints) (maxDepth : ℤ) :
    (jsonLoads text).result ≠ .error .outOfFuel ∧
      (jsonDepthOk text maxDepth = true → ((jsonLoads text).peak : ℤ) ≤ max maxDepth 0) ∧
      ∀ value rest, (jsonLoads text).result = .ok (value, rest) →
        (jsonLoads text).peak = value.nesting ∧
          (jsonDepthOk text maxDepth = true ↔ (value.nesting : ℤ) ≤ max maxDepth 0) := by
  have hfollows : Follows maxDepth 0 0 JsonValue.nesting text (jsonLoads text) :=
    follows_jsonLoads text
  have hlimit : (maxDepth.toNat : ℤ) = max maxDepth 0 := Int.ofNat_toNat maxDepth
  rw [← hlimit]
  refine ⟨jsonLoads_ends text, fun hguard ↦ ?_, fun value rest hresult ↦ ?_⟩
  · exact Int.ofNat_le.mpr (hfollows.bounded (Nat.zero_le _) hguard)
  · have hpeak : (jsonLoads text).peak = value.nesting :=
      (hfollows.peak_eq value rest hresult).trans (Nat.zero_add _)
    refine ⟨hpeak, fun hguard ↦ ?_, fun hle ↦ ?_⟩
    · rw [← hpeak]
      exact Int.ofNat_le.mpr (hfollows.bounded (Nat.zero_le _) hguard)
    · have hbound : (jsonLoads text).peak ≤ maxDepth.toNat := hpeak ▸ Int.ofNat_le.mp hle
      have hguard := hfollows.guard_eq value rest hresult hbound
      rw [jsonLoads_rest hresult] at hguard
      exact hguard

/-- A text without brackets passes whatever the limit is. -/
theorem jsonDepthOk_negative :
    jsonDepthOk (codePoints "1") (-1) = true ∧
      (jsonLoads (codePoints "1")).result = .ok (.scalar, []) ∧
      ¬ ((JsonValue.scalar.nesting : ℤ) ≤ -1) ∧
      ¬ (((jsonLoads (codePoints "1")).peak : ℤ) ≤ -1) := by
  refine ⟨by decide +kernel, by rfl, ?_, ?_⟩
  · rw [JsonValue.nesting]
    decide
  · have hpeak : (jsonLoads (codePoints "1")).peak = 0 := by decide +kernel
    rw [hpeak]
    decide

end Decoder

end TalaPala.News
