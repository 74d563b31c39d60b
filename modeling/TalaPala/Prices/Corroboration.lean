import TalaPala.Prices.Collect

namespace TalaPala.Prices

open Library List

theorem valuesAgree_comm (a b : ℚ) : valuesAgree a b = valuesAgree b a := by
  simp only [valuesAgree, abs_sub_comm a b, max_comm |a| |b|, and_comm (a := a = 0)]

def Turn.isSuspect (turn : Turn) : Bool := decide ((classify turn.store turn.obs).1 = .suspect)

def Turn.confirmsItself (turn : Turn) : Bool :=
  turn.isSuspect && turn.held.any (fun other ↦
    decide (other.providerCode = turn.obs.providerCode) && valuesAgree turn.obs.value other.value)

def ConfirmedByAnother (turns : List Turn) (obs : Observation) : Prop :=
  ∃ other ∈ turns, other.isSuspect ∧ other.obs.symbol = obs.symbol ∧
    other.obs.providerCode ≠ obs.providerCode ∧ valuesAgree obs.value other.obs.value

def SustainedAlone (store : Store) (obs : Observation) : Prop :=
  ∃ run : List RawRow,
    (∀ r ∈ run, r ∈ store.raw ∧ r.symbol = obs.symbol ∧ r.providerCode = obs.providerCode ∧
      r.quality = .suspect ∧ valuesAgree obs.rawValue r.rawValue) ∧
    (obs.observedAt :: run.map RawRow.observedAt).Pairwise (· > ·) ∧
    sustainMinObservations ≤ run.length + 1 ∧
    ∃ since, (obs.observedAt :: run.map RawRow.observedAt).getLast? = some since ∧
      sustainMinSpanMinutes * 60 * 1000000 ≤ obs.observedAt - since ∧
      ∀ p ∈ store.okPrices obs.symbol, p.observedAt < since

def Corroborated (turns : List Turn) (turn : Turn) (obs : Observation) : Prop :=
  (obs = turn.obs ∧ (classify turn.store obs).1 = .ok) ∨ ConfirmedByAnother turns obs ∨
    SustainedAlone turn.store obs

theorem observedAt_lt_of_frozen {store : Store} {obs : Observation}
    (hfrozen : (suspectState store obs).2) :
    ∀ p ∈ store.okPrices obs.symbol, p.observedAt < (suspectState store obs).1.since := by
  intro p hp
  have hmem : p.observedAt ∈ (store.okPrices obs.symbol).map PriceRow.observedAt :=
    mem_map_of_mem hp
  change (lastPriceAt store obs.symbol).all (· < (suspectState store obs).1.since) = true at hfrozen
  rw [lastPriceAt] at hfrozen
  cases hlast : ((store.okPrices obs.symbol).map PriceRow.observedAt).max? with
  | none =>
    rw [max?_eq_none_iff.1 hlast] at hmem
    cases hmem
  | some last =>
    rw [hlast] at hfrozen
    exact ((max?_eq_some_iff.1 hlast).2 _ hmem).trans_lt (of_decide_eq_true hfrozen)

theorem sustainedAlone_of_suspectState {store : Store} {obs : Observation}
    (hfrozen : (suspectState store obs).2)
    (hsustained : sustainedByRepetition (suspectState store obs).1) : SustainedAlone store obs := by
  have hbefore := observedAt_lt_of_frozen hfrozen
  obtain ⟨counted, hsub, hsuspect, hdesc, hwalk⟩ := walkBack_run obs.rawValue 1 obs.observedAt
    ((providerHistory store obs.symbol obs.providerCode).map
      (fun r ↦ (r.observedAt, r.rawValue, r.quality)))
  obtain ⟨run, hrun, rfl⟩ := sublist_map_iff.1 hsub
  simp only [sustainedByRepetition, suspectState, suspectStreak, hwalk, Bool.and_eq_true,
    decide_eq_true_eq, length_map, map_map] at hsustained hbefore hdesc
  obtain ⟨hlength, hspan⟩ := hsustained
  refine ⟨run, fun r hr ↦ ?_, hdesc, by omega, _, getLast?_eq_some_getLast (by simp), ?_,
    hbefore⟩
  · have hkept := mem_filter.1 ((mem_insertionSort _).1
      (mem_of_mem_take (hrun.subset hr)))
    obtain ⟨hraw, hof⟩ := hkept
    rw [Bool.and_eq_true, decide_eq_true_eq, decide_eq_true_eq] at hof
    obtain ⟨hquality, hagree⟩ := hsuspect _ (mem_map_of_mem hr)
    exact ⟨hraw, hof.1, hof.2, hquality, hagree⟩
  · have hlong := (le_max_iff.1 hspan).resolve_right (by rw [sustainMinSpanMinutes]; norm_num)
    rw [le_div_iff₀ (by norm_num), le_div_iff₀ (by norm_num)] at hlong
    exact_mod_cast hlong

theorem classify_quality (store : Store) (obs : Observation) :
    (classify store obs).1 = .ok ∨ (classify store obs).1 = .suspect ∨
      (classify store obs).1 = .outlier := by
  rw [classify, classifyObservation]
  grind

structure Sound (turns : List Turn) (turn : Turn) : Prop where
  held : ∀ other ∈ turn.held, other.symbol = turn.obs.symbol ∧
    ∃ earlier ∈ turns, earlier.isSuspect ∧ earlier.obs = other
  written : ∀ obs ∈ turn.written,
    (obs = turn.obs ∧ ((classify turn.store obs).1 = .ok ∨ SustainedAlone turn.store obs)) ∨
      (turn.isSuspect ∧ (∃ other ∈ turn.held, valuesAgree turn.obs.value other.value) ∧
        (obs = turn.obs ∨ (obs ∈ turn.held ∧ valuesAgree turn.obs.value obs.value)))

theorem Sound.mono {turns turns' : List Turn} (hsub : turns ⊆ turns') {turn : Turn}
    (h : Sound turns turn) : Sound turns' turn where
  held other hother := by
    obtain ⟨hsymbol, earlier, hmem, hearlier⟩ := h.held other hother
    exact ⟨hsymbol, earlier, hsub hmem, hearlier⟩
  written := h.written

theorem Sound.corroborated {turns : List Turn} {turn : Turn} (h : Sound turns turn)
    (hmem : turn ∈ turns) (hother : ¬turn.confirmsItself) :
    ∀ obs ∈ turn.written, Corroborated turns turn obs := by
  intro obs hobs
  have hforeign {other : Observation} (hsuspect : turn.isSuspect) (hheld : other ∈ turn.held)
      (hagree : valuesAgree turn.obs.value other.value) :
      other.providerCode ≠ turn.obs.providerCode := by
    intro hsame
    apply hother
    rw [Turn.confirmsItself, hsuspect, Bool.true_and, any_eq_true]
    exact ⟨other, hheld, by rw [hagree, Bool.and_true]; exact decide_eq_true hsame⟩
  rcases h.written obs hobs with ⟨rfl, hok | halone⟩ | ⟨hsuspect, ⟨other, hheld, hagree⟩, hwho⟩
  · exact .inl ⟨rfl, hok⟩
  · exact .inr (.inr halone)
  · rcases hwho with rfl | ⟨hobsheld, hobsagree⟩
    · obtain ⟨hsymbol, earlier, hearlier, hearliersuspect, rfl⟩ := h.held other hheld
      exact .inr (.inl ⟨earlier, hearlier, hearliersuspect, hsymbol,
        hforeign hsuspect hheld hagree, hagree⟩)
    · refine .inr (.inl ⟨turn, hmem, hsuspect, (h.held obs hobsheld).1.symm,
        (hforeign hsuspect hobsheld hobsagree).symm, ?_⟩)
      rw [valuesAgree_comm]
      exact hobsagree

section Invariant

variable (digest : String → String → Instant → ℚ → String) (cycle : Cycle)

theorem insertPrice_spec (store : Store) (obs : Observation) :
    (insertPrice store obs).1.prices =
      store.prices ++
        (if (insertPrice store obs).2 then [obs] else []).map Observation.priceRow := by
  rw [insertPrice]
  split
  · simp
  · rfl

theorem insertRaw_prices (store : Store) (obs : Observation) (quality : Quality) :
    (insertRaw digest store obs quality).prices = store.prices := by
  rw [insertRaw]
  split <;> rfl

theorem storeOk_spec (store : Store) (quotes : List Observation) :
    (storeOk digest store quotes).store.prices =
        store.prices ++ (storeOk digest store quotes).written.map Observation.priceRow ∧
      (storeOk digest store quotes).written ⊆ quotes := by
  induction quotes generalizing store with
  | nil => simp [storeOk]
  | cons obs quotes ih =>
    rw [storeOk]
    split
    next =>
      obtain ⟨hprices, hsub⟩ := ih (insertPrice (insertRaw digest store obs .ok) obs).1
      constructor
      · dsimp only
        rw [hprices, insertPrice_spec, insertRaw_prices, map_append, append_assoc]
      · apply append_subset.2 ⟨?_, subset_cons_of_subset _ hsub⟩
        split <;> simp
    next => simp

structure Pass.Inv (store : Store) (pass : Pass) : Prop where
  prices : pass.store.prices =
    store.prices ++ (pass.turns.flatMap Turn.written).map Observation.priceRow
  sound : ∀ turn ∈ pass.turns, Sound pass.turns turn

structure JobState.Inv (store : Store) (s : JobState) : Prop extends s.pass.Inv store where
  suspects : ∀ other ∈ s.suspects, ∃ turn ∈ s.pass.turns, turn.isSuspect ∧ turn.obs = other

variable {store : Store}

theorem Pass.Inv.append {pass pass' : Pass} (h : pass.Inv store) {turn : Turn}
    (hturns : pass'.turns = pass.turns ++ [turn])
    (hprices : pass'.store.prices =
      pass.store.prices ++ turn.written.map Observation.priceRow)
    (hsound : Sound pass'.turns turn) : pass'.Inv store where
  prices := by
    rw [hprices, h.prices, hturns, flatMap_append, map_append, append_assoc, flatMap_singleton]
  sound t ht := by
    rw [hturns, mem_append, mem_singleton] at ht
    rcases ht with ht | rfl
    · refine (h.sound t ht).mono ?_
      rw [hturns]
      exact subset_append_left _ _
    · exact hsound

theorem JobState.Inv.held {s : JobState} (h : s.Inv store) {turns : List Turn} (obs : Observation)
    (hsub : s.pass.turns ⊆ turns) :
    ∀ other ∈ s.suspects.filter (·.symbol = obs.symbol), other.symbol = obs.symbol ∧
      ∃ earlier ∈ turns, earlier.isSuspect ∧ earlier.obs = other := by
  intro other hother
  obtain ⟨hmem, hsymbol⟩ := mem_filter.1 hother
  obtain ⟨earlier, hearlier, hsuspect⟩ := h.suspects other hmem
  exact ⟨of_decide_eq_true hsymbol, earlier, hsub hearlier, hsuspect⟩

theorem accept_inv {s : JobState} (h : s.Inv store) {obs : Observation}
    {promoted : List Observation}
    (hpromoted : ∀ p ∈ promoted,
      p ∈ s.suspects.filter (·.symbol = obs.symbol) ∧ valuesAgree obs.value p.value)
    (hdoor : (promoted ≠ [] ∧ (classify s.pass.store obs).1 = .suspect) ∨ (promoted = [] ∧
      ((classify s.pass.store obs).1 = .ok ∨ SustainedAlone s.pass.store obs))) :
    (accept digest cycle s obs promoted).Inv store := by
  obtain ⟨hprices, hwritten⟩ := storeOk_spec digest s.pass.store (promoted ++ [obs])
  have hturns : (accept digest cycle s obs promoted).pass.turns = s.pass.turns ++
      [⟨s.pass.store, s.suspects.filter (·.symbol = obs.symbol), obs,
        (storeOk digest s.pass.store (promoted ++ [obs])).written⟩] := by
    rw [accept]
    split <;> rfl
  have hstore : (accept digest cycle s obs promoted).pass.store =
      (storeOk digest s.pass.store (promoted ++ [obs])).store := by
    rw [accept]
    split <;> rfl
  have hsuspects : (accept digest cycle s obs promoted).suspects ⊆ s.suspects := by
    rw [accept]
    split <;> dsimp only <;> split <;> simp
  have hsub : s.pass.turns ⊆ (accept digest cycle s obs promoted).pass.turns := by
    rw [hturns]
    exact subset_append_left _ _
  refine ⟨h.toInv.append hturns (by rw [hstore, hprices]) ⟨h.held obs hsub, ?_⟩, ?_⟩
  · intro w hw
    rcases hdoor with ⟨hne, hsuspect⟩ | ⟨rfl, hdoor⟩
    · obtain ⟨p, hp⟩ := exists_mem_of_ne_nil _ hne
      refine .inr ⟨decide_eq_true hsuspect, ⟨p, hpromoted p hp⟩, ?_⟩
      rcases mem_append.1 (hwritten hw) with hw | hw
      · exact .inr (hpromoted w hw)
      · exact .inl (mem_singleton.1 hw)
    · obtain rfl := mem_singleton.1 (hwritten hw)
      exact .inl ⟨rfl, hdoor⟩
  · intro other hother
    obtain ⟨turn, hturn, hsuspect⟩ := h.suspects other (hsuspects hother)
    exact ⟨turn, hsub hturn, hsuspect⟩

theorem hold_inv {s : JobState} (h : s.Inv store) {obs : Observation} {quality : Quality}
    (hquality : quality = .suspect → (classify s.pass.store obs).1 = .suspect)
    (error : CollectError) : (hold digest s obs quality error).Inv store := by
  have hsub : s.pass.turns ⊆ (hold digest s obs quality error).pass.turns :=
    subset_append_left _ _
  refine ⟨h.toInv.append rfl ?_ ⟨h.held obs hsub, by simp⟩, ?_⟩
  · simp [hold, insertRaw_prices]
  · intro other hother
    rw [hold] at hother
    dsimp only at hother
    split at hother
    next hsuspect =>
      rcases mem_append.1 hother with hother | hother
      · obtain ⟨turn, hturn, hof⟩ := h.suspects other hother
        exact ⟨turn, hsub hturn, hof⟩
      · obtain rfl := mem_singleton.1 hother
        exact ⟨_, mem_append_right _ mem_cons_self, decide_eq_true (hquality hsuspect), rfl⟩
    next =>
      obtain ⟨turn, hturn, hof⟩ := h.suspects other hother
      exact ⟨turn, hsub hturn, hof⟩

theorem visit_inv (code : String) {s : JobState} (h : s.Inv store) (obs : Observation) :
    (visit digest cycle code s obs).Inv store := by
  rw [visit]
  split
  next => exact h
  next =>
    -- Which quotes were handled is no part of the invariant.
    have h' : JobState.Inv store { s with pass := { s.pass with
        handled := (code, obs.symbol) :: s.pass.handled } } := ⟨⟨h.prices, h.sound⟩, h.suspects⟩
    dsimp only
    split
    next => exact hold_inv digest h' (by simp) _
    next reason hclass =>
      have hsuspect : (classify s.pass.store obs).1 = .suspect := by rw [hclass]
      split
      next hagreeing =>
        refine accept_inv digest cycle h' (fun p hp ↦ ?_) (.inl ⟨hagreeing, hsuspect⟩)
        obtain ⟨hp, hof⟩ := mem_filter.1 hp
        rw [Bool.and_eq_true] at hof
        exact ⟨mem_filter.2 ⟨hp, hof.1⟩, hof.2⟩
      next =>
        split
        next hdoor =>
          rw [Bool.and_eq_true] at hdoor
          exact accept_inv digest cycle h' (by simp)
            (.inr ⟨rfl, .inr (sustainedAlone_of_suspectState hdoor.1 hdoor.2)⟩)
        next => exact hold_inv digest h' (fun _ ↦ hsuspect) _
    next hnotOutlier hnotSuspect hclass =>
      refine accept_inv digest cycle h' (by simp) (.inr ⟨rfl, .inl ?_⟩)
      have hquality := classify_quality s.pass.store obs
      rw [hclass] at hquality ⊢
      rcases hquality with hok | hsuspect | houtlier
      · exact hok
      · exact (hnotSuspect hsuspect).elim
      · exact (hnotOutlier houtlier).elim

theorem foldl_visit_inv (code : String) {s : JobState} (h : s.Inv store)
    (quotes : List Observation) : (quotes.foldl (visit digest cycle code) s).Inv store :=
  List.foldlRecOn quotes _ h (fun _ h obs _ ↦ visit_inv digest cycle code h obs)

theorem consult_inv {s : JobState} (h : s.Inv store) (code : String) :
    (consult digest cycle s code).Inv store := by
  rw [consult]
  split
  · exact h
  · split
    · exact foldl_visit_inv digest cycle code h _
    · split
      · exact h
      · split
        · exact ⟨⟨h.prices, h.sound⟩, h.suspects⟩
        · rename_i quotes _
          have h' : JobState.Inv store { s with pass := { s.pass with
              fetchCache := (code, quotes) :: s.pass.fetchCache } } :=
            ⟨⟨h.prices, h.sound⟩, h.suspects⟩
          exact foldl_visit_inv digest cycle code h' _

theorem runJob_inv {pass : Pass} (h : pass.Inv store) (requested : Requested) :
    (runJob digest cycle pass requested).Inv store := by
  have hrows (rows : List String) {s : JobState} (hs : s.Inv store) :
      (rows.foldl (consult digest cycle) s).Inv store :=
    List.foldlRecOn rows _ hs (fun _ hs code _ ↦ consult_inv digest cycle hs code)
  rw [runJob]
  split
  · exact h
  · split
    · exact h
    · split
      · exact h
      · dsimp only
        have hstart : JobState.Inv store ⟨{ pass with
            attemptedSymbols := pass.attemptedSymbols ++ jobSymbols requested.job },
            jobSymbols requested.job, [], []⟩ := ⟨⟨h.prices, h.sound⟩, by simp⟩
        have hend := hrows requested.providerRows hstart
        split
        · exact hend.toInv
        · exact ⟨hend.prices, hend.sound⟩

theorem measureDispersion_inv {pass : Pass} (h : pass.Inv store) :
    (measureDispersion digest pass).Inv store := by
  refine List.foldlRecOn _ _ h (fun pass h symbol _ ↦ ?_)
  refine List.foldlRecOn _ _ h (fun pass h code _ ↦ ?_)
  split
  · exact h
  · refine List.foldlRecOn _ _ h (fun pass h obs _ ↦ ⟨?_, h.sound⟩)
    exact (insertRaw_prices digest pass.store obs _).trans h.prices

theorem runCollect_inv (store : Store) : (runCollect digest cycle store).Inv store := by
  have hstart : Pass.Inv store ⟨store, [], [], [], [], [], [], false⟩ := ⟨by simp, by simp⟩
  have hjobs := List.foldlRecOn cycle.requested (runJob digest cycle) hstart
    (fun pass h requested _ ↦ runJob_inv digest cycle h requested)
  rw [runCollect]
  split
  · exact hjobs
  · exact measureDispersion_inv digest hjobs

end Invariant

theorem Pass.Inv.corroborated {store : Store} {pass : Pass} (h : pass.Inv store)
    (hother : ∀ turn ∈ pass.turns, ¬turn.confirmsItself) :
    ∀ turn ∈ pass.turns, ∀ obs ∈ turn.written, Corroborated pass.turns turn obs :=
  fun turn hturn ↦ (h.sound turn hturn).corroborated hturn (hother turn hturn)

/-- Every price of a run of passes was there before or is corroborated, as long as
no provider's suspect finds its level held from the same provider. -/
theorem served_prices_corroborated (digest : String → String → Instant → ℚ → String)
    (cycles : List Cycle) (store : Store)
    (hother : ∀ pass ∈ runCollects digest cycles store, ∀ turn ∈ pass.turns, ¬turn.confirmsItself) :
    ∀ pass ∈ runCollects digest cycles store,
      (∀ turn ∈ pass.turns, ∀ obs ∈ turn.written, Corroborated pass.turns turn obs) ∧
      ∀ row ∈ pass.store.prices, row ∈ store.prices ∨
        ∃ writer ∈ runCollects digest cycles store, ∃ turn ∈ writer.turns,
          ∃ obs ∈ turn.written, row = obs.priceRow ∧ Corroborated writer.turns turn obs := by
  induction cycles generalizing store with
  | nil => simp [runCollects]
  | cons cycle cycles ih =>
    have hinv := runCollect_inv digest cycle store
    have hhere := hinv.corroborated (hother _ mem_cons_self)
    have hlater := ih (runCollect digest cycle store).store
      (fun pass hpass ↦ hother pass (mem_cons_of_mem _ hpass))
    -- A row of this pass was written by one of its turns or was there before.
    have hrow : ∀ row ∈ (runCollect digest cycle store).store.prices, row ∈ store.prices ∨
        ∃ writer ∈ runCollects digest (cycle :: cycles) store, ∃ turn ∈ writer.turns,
          ∃ obs ∈ turn.written, row = obs.priceRow ∧ Corroborated writer.turns turn obs := by
      intro row hrow
      rw [hinv.prices] at hrow
      rcases mem_append.1 hrow with hrow | hrow
      · exact .inl hrow
      · obtain ⟨obs, hobs, rfl⟩ := mem_map.1 hrow
        obtain ⟨turn, hturn, hobs⟩ := mem_flatMap.1 hobs
        exact .inr ⟨_, mem_cons_self, turn, hturn, obs, hobs, rfl, hhere turn hturn obs hobs⟩
    intro pass hpass
    rcases mem_cons.1 hpass with rfl | hpass
    · exact ⟨hhere, hrow⟩
    · refine ⟨(hlater pass hpass).1, fun row hin ↦ ?_⟩
      rcases (hlater pass hpass).2 row hin with hin | ⟨writer, hwriter, hof⟩
      · exact hrow row hin
      · exact .inr ⟨writer, mem_cons_of_mem _ hwriter, hof⟩

theorem SustainedAlone.length_le {store : Store} {obs : Observation}
    (h : SustainedAlone store obs) : 4 ≤ store.raw.length := by
  obtain ⟨run, hrun, hdesc, hlength, -⟩ := h
  have hnodup : run.Nodup := by
    refine (pairwise_map.1 (pairwise_cons.1 hdesc).2).imp ?_
    rintro a _ hgt rfl
    exact lt_irrefl _ hgt
  have hle := (subperm_of_subset hnodup (fun r hr ↦ (hrun r hr).1)).length_le
  rw [sustainMinObservations] at hlength
  omega

section Examples

def sampleDigest (provider symbol : String) (observedAt : Instant) (value : ℚ) : String :=
  s!"{provider}|{symbol}|{observedAt}|{value.num}"

def dollar (provider : String) (value : ℚ) (observedAt : Instant) : Observation :=
  ⟨provider, "USD_IRT", value, value, "IRT", "usd", observedAt⟩

def dollarStore : Store := ⟨[], [(dollar "bitmax" 50000 0).priceRow]⟩

def sampleSettings : MarketHours.Python.Settings :=
  ⟨MarketHours.tseOpen, MarketHours.tseClose, MarketHours.tseOpen, MarketHours.tseClose, 30⟩

def confirmingCycle : Cycle where
  settings := sampleSettings
  requested := [⟨.fx, false, ["bitmax", "navasan"]⟩]
  builds := fun _ ↦ true
  fetch := fun code ↦ some [dollar code 90000 60000000]
  utcnow := fun _ ↦ 60000000

def repeatingCycle : Cycle where
  settings := sampleSettings
  requested := [⟨.fx, false, ["bitmax"]⟩]
  builds := fun _ ↦ true
  fetch := fun code ↦ some [dollar code 90000 60000000, dollar code 90500 61000000]
  utcnow := fun _ ↦ 61000000

theorem confirming_cycle_corroborated :
    (∀ pass ∈ runCollects sampleDigest [confirmingCycle] dollarStore, ∀ turn ∈ pass.turns,
      ¬turn.confirmsItself) ∧
    ∀ pass ∈ runCollects sampleDigest [confirmingCycle] dollarStore,
      (∀ turn ∈ pass.turns, ∀ obs ∈ turn.written, Corroborated pass.turns turn obs) ∧
      ∀ row ∈ pass.store.prices, row ∈ dollarStore.prices ∨
        ∃ writer ∈ runCollects sampleDigest [confirmingCycle] dollarStore,
          ∃ turn ∈ writer.turns, ∃ obs ∈ turn.written,
            row = obs.priceRow ∧ Corroborated writer.turns turn obs := by
  have hother : ∀ pass ∈ runCollects sampleDigest [confirmingCycle] dollarStore,
      ∀ turn ∈ pass.turns, ¬turn.confirmsItself := by decide +kernel
  exact ⟨hother, served_prices_corroborated sampleDigest [confirmingCycle] dollarStore hother⟩

/-- The second quote of one provider confirms its first. -/
theorem one_provider_confirms_itself :
    ∃ turn ∈ (runCollect sampleDigest repeatingCycle dollarStore).turns, ∃ obs ∈ turn.written,
      ¬Corroborated (runCollect sampleDigest repeatingCycle dollarStore).turns turn obs := by
  have hturns : ∀ turn ∈ (runCollect sampleDigest repeatingCycle dollarStore).turns,
      turn.obs.providerCode = "bitmax" ∧ turn.store.raw.length < 4 ∧
        (classify turn.store turn.obs).1 ≠ .ok := by decide +kernel
  have hwritten : ∃ turn ∈ (runCollect sampleDigest repeatingCycle dollarStore).turns,
      dollar "bitmax" 90500 61000000 ∈ turn.written := by decide +kernel
  obtain ⟨turn, hturn, hobs⟩ := hwritten
  refine ⟨turn, hturn, _, hobs, ?_⟩
  rintro (⟨hself, hok⟩ | ⟨other, hother, -, -, hforeign, -⟩ | halone)
  · rw [hself] at hok
    exact (hturns turn hturn).2.2 hok
  · exact hforeign (hturns other hother).1
  · exact absurd halone.length_le (by have := (hturns turn hturn).2.1; omega)

end Examples

end TalaPala.Prices
