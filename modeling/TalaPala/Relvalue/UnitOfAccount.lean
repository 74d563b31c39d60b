import TalaPala.Relvalue.Performance

namespace TalaPala.Relvalue

open Library

def PerformanceInputs.selecting (inputs : PerformanceInputs) (key : Numeraire) :
    PerformanceInputs :=
  { inputs with numeraire := key }

def converted (inputs : PerformanceInputs) (inst : Instrument) (key : Numeraire) :
    Option DailySeries :=
  (conversionSteps inst.quoteCurrency key).map (fun steps ↦
    (convertSeries ((inputs.series.series inst.code).slice inputs.window) steps
      inputs.series).points)

def PricedAt (inputs : PerformanceInputs) (inst : Instrument) (key : Numeraire) (day : Date)
    (v : ℚ) : Prop :=
  ∃ steps, conversionSteps inst.quoteCurrency key = some steps ∧
    ∃ p ∈ (inputs.series.series inst.code).points, p.day = day ∧ inputs.window.Holds day ∧
      convertClose inputs.series day steps p.close = some v

def ReturnOver (inputs : PerformanceInputs) (inst : Instrument) (key : Numeraire)
    (start stop : Date) (r : ℚ) : Prop :=
  ∃ s, converted inputs inst key = some s ∧ s.first.map DailyPoint.day = some start ∧
    s.last.map DailyPoint.day = some stop ∧ totalReturnPct s = some r

def worth (sources : Sources) (day : Date) : Numeraire → Option ℚ
  | .irt => some 1
  | .usd => (sources.series usdSeriesCode).rateAt day
  | .gold => (sources.series goldSeriesCode).rateAt day

theorem rateAt_pos {num : DailySeries} {day : Date} {rate : ℚ} (h : num.rateAt day = some rate) :
    0 < rate :=
  (rateAt_eq_some.mp h).1

section Worth

variable {sources : Sources} {day : Date} {n m : Numeraire} {steps steps' : List ConvStep}
  {c v v' u : ℚ}

theorem convertClose_one (step : ConvStep) :
    convertClose sources day [step] c =
      ((sources.series step.series).rateAt day).map (fun rate ↦ step.op.apply c rate) := by
  rw [convertClose]
  cases (sources.series step.series).rateAt day with
  | none => rfl
  | some rate => rfl

theorem div_rate {num : DailySeries} (h : (num.rateAt day).map (fun rate ↦ c / rate) = some v) :
    ∃ w, num.rateAt day = some w ∧ 0 < w ∧ v * w = c := by
  obtain ⟨w, hw, rfl⟩ := Option.map_eq_some_iff.mp h
  exact ⟨w, hw, rateAt_pos hw, div_mul_cancel₀ c (rateAt_pos hw).ne'⟩

theorem worth_of_irt (hsteps : conversionSteps .irt n = some steps)
    (h : convertClose sources day steps c = some v) :
    ∃ w, worth sources day n = some w ∧ 0 < w ∧ v * w = c := by
  cases n with
  | irt =>
    cases hsteps
    obtain rfl := Option.some.inj h
    exact ⟨1, rfl, one_pos, mul_one c⟩
  | usd =>
    cases hsteps
    rw [convertClose_one] at h
    exact div_rate h
  | gold =>
    cases hsteps
    rw [convertClose_one] at h
    exact div_rate h

theorem worth_of_usd (hu : worth sources day .usd = some u)
    (hsteps : conversionSteps .usd n = some steps)
    (h : convertClose sources day steps c = some v) :
    ∃ w, worth sources day n = some w ∧ 0 < w ∧ v * w = c * u := by
  have hrate : (sources.series usdSeriesCode).rateAt day = some u := hu
  cases n with
  | irt =>
    cases hsteps
    rw [convertClose_one, hrate] at h
    obtain rfl := Option.some.inj h
    exact ⟨1, rfl, one_pos, mul_one _⟩
  | usd =>
    cases hsteps
    obtain rfl := Option.some.inj h
    exact ⟨u, hu, rateAt_pos hrate, rfl⟩
  | gold =>
    cases hsteps
    rw [convertClose, hrate, Option.bind_some, convertClose_one] at h
    exact div_rate h

theorem exists_dollar (hne : n ≠ .usd) (hsteps : conversionSteps .usd n = some steps)
    (h : convertClose sources day steps c = some v) :
    ∃ u, worth sources day .usd = some u := by
  have hbound (rest : List ConvStep)
      (h : convertClose sources day (⟨usdSeriesCode, .multiply⟩ :: rest) c = some v) :
      ∃ u, worth sources day .usd = some u := by
    obtain ⟨u, hu, _⟩ := Option.bind_eq_some_iff.mp h
    exact ⟨u, hu⟩
  cases n with
  | irt =>
    cases hsteps
    exact hbound _ h
  | usd => exact absurd rfl hne
  | gold =>
    cases hsteps
    exact hbound _ h

theorem worth_spec {q : QuoteCurrency} (hne : n ≠ m) (hn : conversionSteps q n = some steps)
    (hm : conversionSteps q m = some steps') (h : convertClose sources day steps c = some v)
    (h' : convertClose sources day steps' c = some v') :
    ∃ w w', worth sources day n = some w ∧ worth sources day m = some w' ∧ 0 < w ∧ 0 < w' ∧
      v * w = v' * w' := by
  cases q with
  | irt =>
    obtain ⟨w, hw, hpos, hv⟩ := worth_of_irt hn h
    obtain ⟨w', hw', hpos', hv'⟩ := worth_of_irt hm h'
    exact ⟨w, w', hw, hw', hpos, hpos', hv.trans hv'.symm⟩
  | usd =>
    have hu : ∃ u, worth sources day .usd = some u := by
      by_cases husd : n = .usd
      · exact exists_dollar (fun hmusd ↦ hne (husd.trans hmusd.symm)) hm h'
      · exact exists_dollar husd hn h
    obtain ⟨u, hu⟩ := hu
    obtain ⟨w, hw, hpos, hv⟩ := worth_of_usd hu hn h
    obtain ⟨w', hw', hpos', hv'⟩ := worth_of_usd hu hm h'
    exact ⟨w, w', hw, hw', hpos, hpos', hv.trans hv'.symm⟩
  | other code => cases hn

end Worth

variable {inputs : PerformanceInputs} {inst A B : Instrument} {n m key : Numeraire}
  {day start stop : Date} {r a a' b b' v v' : ℚ}

theorem PricedAt.worth (hne : n ≠ m) (h : PricedAt inputs inst n day v)
    (h' : PricedAt inputs inst m day v') :
    ∃ w w', worth inputs.series day n = some w ∧ Relvalue.worth inputs.series day m = some w' ∧
      0 < w ∧ 0 < w' ∧ v * w = v' * w' := by
  obtain ⟨steps, hsteps, p, hp, rfl, -, hv⟩ := h
  obtain ⟨steps', hsteps', p', hp', hday, -, hv'⟩ := h'
  have hasc := (inputs.series.series inst.code).ascending
  obtain rfl := hasc.eq_of_start hp' hp hday
  exact worth_spec hne hsteps hsteps' hv hv'

theorem pricedAt_of_mem {s : DailySeries} (hs : converted inputs inst key = some s)
    {p : DailyPoint} (hp : p ∈ s.points) : PricedAt inputs inst key p.day p.close := by
  obtain ⟨steps, hsteps, rfl⟩ := Option.map_eq_some_iff.mp hs
  rw [convertSeries_points, List.mem_filterMap] at hp
  obtain ⟨q, hq, hpoint⟩ := hp
  obtain ⟨v, hv, rfl⟩ := Option.map_eq_some_iff.mp hpoint
  obtain ⟨hmem, hholds⟩ := mem_slice.mp hq
  exact ⟨steps, hsteps, q, hmem, rfl, hholds, hv⟩

theorem ReturnOver.values (h : ReturnOver inputs inst key start stop r) :
    ∃ v w, PricedAt inputs inst key start v ∧ PricedAt inputs inst key stop w ∧ 0 < v ∧
      1 + r / 100 = w / v := by
  obtain ⟨s, hs, hstart, hstop, hr⟩ := h
  obtain ⟨first, last, hfirst, hlast, hpos, heq⟩ := totalReturnPct_eq_some hr
  rw [hfirst] at hstart
  rw [hlast] at hstop
  obtain rfl := Option.some.inj hstart
  obtain rfl := Option.some.inj hstop
  exact ⟨first.close, last.close, pricedAt_of_mem hs (List.mem_of_mem_head? hfirst),
    pricedAt_of_mem hs (List.mem_of_getLast? hlast), hpos, heq⟩

theorem ReturnOver.unique {start' stop' : Date} (h : ReturnOver inputs inst key start stop a)
    (h' : ReturnOver inputs inst key start' stop' b) : a = b := by
  obtain ⟨s, hs, -, -, ha⟩ := h
  obtain ⟨s', hs', -, -, hb⟩ := h'
  obtain rfl := Option.some.inj (hs.symm.trans hs')
  exact Option.some.inj (ha.symm.trans hb)

def drift (sources : Sources) (n m : Numeraire) (start stop : Date) : ℚ :=
  ((worth sources stop n).getD 1 / (worth sources stop m).getD 1) /
    ((worth sources start n).getD 1 / (worth sources start m).getD 1)

theorem ReturnOver.drift (hne : n ≠ m) (h : ReturnOver inputs inst n start stop a)
    (h' : ReturnOver inputs inst m start stop a') :
    drift inputs.series n m start stop ≠ 0 ∧
      1 + a' / 100 = (1 + a / 100) * Relvalue.drift inputs.series n m start stop := by
  obtain ⟨v, w, hv, hw, hpos, heq⟩ := h.values
  obtain ⟨v', w', hv', hw', hpos', heq'⟩ := h'.values
  obtain ⟨x, x', hx, hx', hxpos, hxpos', hstart⟩ := hv.worth hne hv'
  obtain ⟨y, y', hy, hy', hypos, hypos', hstop⟩ := hw.worth hne hw'
  have hdrift : Relvalue.drift inputs.series n m start stop = (y / y') / (x / x') := by
    rw [Relvalue.drift, hx, hx', hy, hy']
    rfl
  refine ⟨hdrift ▸ (div_pos (div_pos hypos hypos') (div_pos hxpos hxpos')).ne', ?_⟩
  have hw'' : w' = w * (y / y') := by
    rw [mul_div_assoc', eq_div_iff hypos'.ne', hstop]
  have hv'' : v' = v * (x / x') := by
    rw [mul_div_assoc', eq_div_iff hxpos'.ne', hstart]
  rw [heq', heq, hdrift, hw'', hv'', mul_div_mul_comm]

theorem ReturnOver.ratio (hA : ReturnOver inputs A n start stop a)
    (hA' : ReturnOver inputs A m start stop a') (hB : ReturnOver inputs B n start stop b)
    (hB' : ReturnOver inputs B m start stop b') :
    (1 + a / 100) / (1 + b / 100) = (1 + a' / 100) / (1 + b' / 100) := by
  by_cases hne : n = m
  · subst hne
    rw [hA.unique hA', hB.unique hB']
  · obtain ⟨hk, ha⟩ := hA.drift hne hA'
    obtain ⟨-, hb⟩ := hB.drift hne hB'
    rw [ha, hb, mul_div_mul_right _ _ hk]

section Row

variable {log sqrt : ℚ → ℚ}

theorem buildPerformanceItem_cases (inst : Instrument) (inputs : PerformanceInputs) :
    (∃ notes, buildPerformanceItem log sqrt inst inputs = .blank inst notes) ∨
    ∃ steps s first last notes, conversionSteps inst.quoteCurrency inputs.numeraire = some steps ∧
      converted inputs inst inputs.numeraire = some s ∧ s.first = some first ∧
      s.last = some last ∧
      buildPerformanceItem log sqrt inst inputs =
        { pricedItem log sqrt inst inputs ((inputs.series.series inst.code).slice inputs.window)
            steps first last with notes := notes } := by
  rw [buildPerformanceItem]
  cases hsteps : conversionSteps inst.quoteCurrency inputs.numeraire with
  | none => exact .inl ⟨_, rfl⟩
  | some steps =>
    dsimp only
    split
    · split
      · exact .inl ⟨_, rfl⟩
      · split
        · exact .inl ⟨_, rfl⟩
        · split
          · rename_i first last hfirst hlast
            exact .inr ⟨steps, _, first, last, _, rfl, by rw [converted, hsteps]; rfl, hfirst,
              hlast, rfl⟩
          · exact .inl ⟨_, rfl⟩
    · exact .inl ⟨_, rfl⟩

theorem numeraireReturn_spec
    (h : (numeraireReturn ((inputs.series.series inst.code).slice inputs.window) inst key
      inputs.series).pct = some r) :
    ∃ start stop,
      (numeraireReturn ((inputs.series.series inst.code).slice inputs.window) inst key
        inputs.series).start = some start ∧
      (numeraireReturn ((inputs.series.series inst.code).slice inputs.window) inst key
        inputs.series).stop = some stop ∧
      ReturnOver inputs inst key start stop r := by
  rw [numeraireReturn] at h ⊢
  split at h
  · cases h
  · rename_i hidentity
    rw [if_neg hidentity]
    split at h
    · cases h
    · rename_i hderived
      rw [if_neg hderived]
      cases hsteps : conversionSteps inst.quoteCurrency key with
      | none =>
        rw [hsteps] at h
        cases h
      | some steps =>
        rw [hsteps] at h
        dsimp only at h ⊢
        split at h
        · cases h
        · rename_i hmissing
          rw [if_neg hmissing]
          split at h
          · cases h
          · rename_i r' hr
            obtain rfl := Option.some.inj h
            obtain ⟨first, last, hfirst, hlast, -⟩ := totalReturnPct_eq_some hr
            rw [hfirst, hlast]
            exact ⟨first.day, last.day, rfl, rfl, _, by rw [converted, hsteps]; rfl,
              by rw [hfirst]; rfl, by rw [hlast]; rfl, hr⟩

theorem measures_nominal {s : DailySeries}
    (h : (measures log sqrt inst key s).1.nominalReturnPct = some r) :
    totalReturnPct s = some r := by
  rw [measures] at h
  split at h
  · cases h
  · split at h
    · cases h
    · exact h

theorem nominal_spec
    (h : (buildPerformanceItem log sqrt inst inputs).nominalReturnPct = some r) :
    ∃ start stop v w,
      (buildPerformanceItem log sqrt inst inputs).coverageFrom = some start ∧
      (buildPerformanceItem log sqrt inst inputs).coverageTo = some stop ∧
      (buildPerformanceItem log sqrt inst inputs).startValue = some v ∧
      (buildPerformanceItem log sqrt inst inputs).endValue = some w ∧
      ReturnOver inputs inst inputs.numeraire start stop r ∧
      PricedAt inputs inst inputs.numeraire start v ∧
      PricedAt inputs inst inputs.numeraire stop w ∧ 0 < v ∧ 1 + r / 100 = w / v := by
  rcases @buildPerformanceItem_cases log sqrt inst inputs with
    ⟨notes, hblank⟩ | ⟨steps, s, first, last, notes, hsteps, hs, hfirst, hlast, hitem⟩
  · rw [hblank] at h
    cases h
  · rw [hitem] at h ⊢
    have hconv : s = (convertSeries ((inputs.series.series inst.code).slice inputs.window) steps
        inputs.series).points := by
      rw [converted, hsteps] at hs
      exact (Option.some.inj hs).symm
    have hr : totalReturnPct s = some r := by
      rw [hconv]
      exact measures_nominal h
    obtain ⟨first', last', hfirst', hlast', hpos, heq⟩ := totalReturnPct_eq_some hr
    obtain rfl := Option.some.inj (hfirst.symm.trans hfirst')
    obtain rfl := Option.some.inj (hlast.symm.trans hlast')
    exact ⟨first.day, last.day, first.close, last.close, rfl, rfl, rfl, rfl,
      ⟨s, hs, by rw [hfirst]; rfl, by rw [hlast]; rfl, hr⟩,
      pricedAt_of_mem hs (List.mem_of_mem_head? hfirst),
      pricedAt_of_mem hs (List.mem_of_getLast? hlast), hpos, heq⟩

theorem legs_spec :
    ((buildPerformanceItem log sqrt inst inputs).usdReturnPct = some r →
      ∃ start stop, (buildPerformanceItem log sqrt inst inputs).usdReturnFrom = some start ∧
        (buildPerformanceItem log sqrt inst inputs).usdReturnTo = some stop ∧
        ReturnOver inputs inst .usd start stop r) ∧
    ((buildPerformanceItem log sqrt inst inputs).goldReturnPct = some r →
      ∃ start stop, (buildPerformanceItem log sqrt inst inputs).goldReturnFrom = some start ∧
        (buildPerformanceItem log sqrt inst inputs).goldReturnTo = some stop ∧
        ReturnOver inputs inst .gold start stop r) := by
  rcases @buildPerformanceItem_cases log sqrt inst inputs with
    ⟨notes, hblank⟩ | ⟨steps, s, first, last, notes, hsteps, hs, hfirst, hlast, hitem⟩
  · rw [hblank]
    constructor
    · intro h
      cases h
    · intro h
      cases h
  · rw [hitem]
    exact ⟨numeraireReturn_spec, numeraireReturn_spec⟩

theorem constant_withheld
    (h : identityNumeraire inst inputs.numeraire = true ∨
      derivedNumeraire inst inputs.numeraire = true) :
    (buildPerformanceItem log sqrt inst inputs).toMeasures = .withheld ∧
      (buildPerformanceItem log sqrt inst inputs).toRealFigures = .withheld := by
  rcases @buildPerformanceItem_cases log sqrt inst inputs with
    ⟨notes, hblank⟩ | ⟨steps, s, first, last, notes, hsteps, hs, hfirst, hlast, hitem⟩
  · rw [hblank]
    exact ⟨rfl, rfl⟩
  · rw [hitem]
    have hmeasures (pts : DailySeries) :
        (measures log sqrt inst inputs.numeraire pts).1 = .withheld := by
      rw [measures]
      rcases h with h | h
      · rw [if_pos h]
      · split
        · rfl
        · rfl
    have hreal (pts : DailySeries) : (realFigures inst inputs pts first).1 = .withheld := by
      rw [realFigures]
      split
      · rfl
      · rcases h with h | h
        · rw [if_pos h]
        · split
          · rfl
          · rfl
    exact ⟨hmeasures _, hreal _⟩

end Row

def row (log sqrt : ℚ → ℚ) (inputs : PerformanceInputs) (inst : Instrument) (key : Numeraire) :
    PerformanceItem :=
  buildPerformanceItem log sqrt inst (inputs.selecting key)

def PerformanceItem.Covers (item : PerformanceItem) (start stop : Date) (r : ℚ) : Prop :=
  item.coverageFrom = some start ∧ item.coverageTo = some stop ∧ item.nominalReturnPct = some r

theorem PerformanceItem.Covers.returnOver {log sqrt : ℚ → ℚ}
    (h : (row log sqrt inputs inst key).Covers start stop r) :
    ReturnOver inputs inst key start stop r := by
  obtain ⟨hstart, hstop, hr⟩ := h
  obtain ⟨start', stop', v, w, hstart', hstop', -, -, hover, -⟩ := nominal_spec hr
  obtain rfl := Option.some.inj (hstart.symm.trans hstart')
  obtain rfl := Option.some.inj (hstop.symm.trans hstop')
  exact hover

/-- The table compares instruments whatever the unit of account, over any
logarithm and square root of the volatility. -/
theorem comparison_unit_free (log sqrt : ℚ → ℚ) (inputs : PerformanceInputs) :
    (∀ A B n m start stop a a' b b', ReturnOver inputs A n start stop a →
      ReturnOver inputs A m start stop a' → ReturnOver inputs B n start stop b →
        ReturnOver inputs B m start stop b' →
          (1 + a / 100) / (1 + b / 100) = (1 + a' / 100) / (1 + b' / 100)) ∧
    (∀ A B n m start stop a a' b b', (row log sqrt inputs A n).Covers start stop a →
      (row log sqrt inputs A m).Covers start stop a' →
        (row log sqrt inputs B n).Covers start stop b →
          (row log sqrt inputs B m).Covers start stop b' →
            (1 + a / 100) / (1 + b / 100) = (1 + a' / 100) / (1 + b' / 100)) ∧
    (∀ inst n r r', ((row log sqrt inputs inst n).usdReturnPct = some r →
        (row log sqrt inputs inst .usd).nominalReturnPct = some r' → r = r') ∧
      ((row log sqrt inputs inst n).goldReturnPct = some r →
        (row log sqrt inputs inst .gold).nominalReturnPct = some r' → r = r')) ∧
    (∀ inst n r, (row log sqrt inputs inst n).nominalReturnPct = some r →
      ∃ start stop v w, (row log sqrt inputs inst n).coverageFrom = some start ∧
        (row log sqrt inputs inst n).coverageTo = some stop ∧
        (row log sqrt inputs inst n).startValue = some v ∧
        (row log sqrt inputs inst n).endValue = some w ∧ PricedAt inputs inst n start v ∧
        PricedAt inputs inst n stop w ∧ 0 < v ∧ 1 + r / 100 = w / v) ∧
    (∀ inst n r, ((row log sqrt inputs inst n).usdReturnPct = some r →
        ∃ start stop v w, (row log sqrt inputs inst n).usdReturnFrom = some start ∧
          (row log sqrt inputs inst n).usdReturnTo = some stop ∧
          PricedAt inputs inst .usd start v ∧ PricedAt inputs inst .usd stop w ∧ 0 < v ∧
          1 + r / 100 = w / v) ∧
      ((row log sqrt inputs inst n).goldReturnPct = some r →
        ∃ start stop v w, (row log sqrt inputs inst n).goldReturnFrom = some start ∧
          (row log sqrt inputs inst n).goldReturnTo = some stop ∧
          PricedAt inputs inst .gold start v ∧ PricedAt inputs inst .gold stop w ∧ 0 < v ∧
          1 + r / 100 = w / v)) ∧
    (∀ inst n, identityNumeraire inst n = true ∨ derivedNumeraire inst n = true →
      (row log sqrt inputs inst n).toMeasures = .withheld ∧
        (row log sqrt inputs inst n).toRealFigures = .withheld) := by
  refine ⟨fun A B n m start stop a a' b b' hA hA' hB hB' ↦ hA.ratio hA' hB hB',
    fun A B n m start stop a a' b b' hA hA' hB hB' ↦
      hA.returnOver.ratio hA'.returnOver hB.returnOver hB'.returnOver,
    fun inst n r r' ↦ ⟨fun hleg hr ↦ ?_, fun hleg hr ↦ ?_⟩, fun inst n r hr ↦ ?_,
    fun inst n r ↦ ⟨fun hleg ↦ ?_, fun hleg ↦ ?_⟩, fun inst n h ↦ constant_withheld h⟩
  · obtain ⟨_, _, -, -, hover⟩ := legs_spec.1 hleg
    obtain ⟨_, _, _, _, -, -, -, -, hover', -⟩ := nominal_spec hr
    exact ReturnOver.unique hover hover'
  · obtain ⟨_, _, -, -, hover⟩ := legs_spec.2 hleg
    obtain ⟨_, _, _, _, -, -, -, -, hover', -⟩ := nominal_spec hr
    exact ReturnOver.unique hover hover'
  · obtain ⟨start, stop, v, w, hstart, hstop, hv, hw, -, hpriced⟩ := nominal_spec hr
    exact ⟨start, stop, v, w, hstart, hstop, hv, hw, hpriced⟩
  · obtain ⟨start, stop, hstart, hstop, hover⟩ := legs_spec.1 hleg
    obtain ⟨v, w, hpriced⟩ := ReturnOver.values hover
    exact ⟨start, stop, v, w, hstart, hstop, hpriced⟩
  · obtain ⟨start, stop, hstart, hstop, hover⟩ := legs_spec.2 hleg
    obtain ⟨v, w, hpriced⟩ := ReturnOver.values hover
    exact ⟨start, stop, v, w, hstart, hstop, hpriced⟩

end TalaPala.Relvalue
