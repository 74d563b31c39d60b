import TalaPala.Clock
import TalaPala.Library.Grid
import Mathlib.Algebra.Order.Field.Rat

namespace TalaPala.Prices

open Library

inductive Quality
  | ok
  | suspect
  | outlier
  | stale
  deriving DecidableEq

structure Tick where
  id : ℕ
  symbol : String
  value : ℚ
  observedAt : ℤ
  quality : Quality

/-- The `prices` table. Its rows keep the primary key. -/
structure Table where
  rows : List Tick
  ids : (rows.map Tick.id).Nodup

def Table.okTicks (table : Table) (symbol : String) : List Tick :=
  table.rows.filter (fun t ↦ decide (t.symbol = symbol) && decide (t.quality = .ok))

/-- `ORDER BY observed_at ASC, id ASC`. -/
def earlier (t u : Tick) : Prop :=
  t.observedAt < u.observedAt ∨ (t.observedAt = u.observedAt ∧ t.id ≤ u.id)

def later (t u : Tick) : Prop := earlier u t

instance : DecidableRel earlier := fun _ _ ↦ inferInstanceAs (Decidable (_ ∨ _))

instance : DecidableRel later := fun t u ↦ inferInstanceAs (Decidable (earlier u t))

instance : Std.Total earlier where
  total t u := by
    unfold earlier
    omega

instance : IsTrans Tick earlier where
  trans t u v := by
    unfold earlier
    omega

instance : Std.Total later where
  total t u := (Std.Total.total (r := earlier) u t)

instance : IsTrans Tick later where
  trans _ _ _ h h' := IsTrans.trans (r := earlier) _ _ _ h' h

theorem earlier.observedAt_le {t u : Tick} (h : earlier t u) : t.observedAt ≤ u.observedAt := by
  unfold earlier at h
  omega

theorem earlier_of_lt {t u : Tick} (h : t.observedAt < u.observedAt) : earlier t u := .inl h

theorem earlier.id_eq {t u : Tick} (h : earlier t u) (h' : earlier u t) : t.id = u.id := by
  unfold earlier at h h'
  omega

abbrev Distinct (ticks : Set Tick) : Prop := Set.InjOn Tick.id ticks

theorem Distinct.eq {ticks : Set Tick} (h : Distinct ticks) {t u : Tick} (ht : t ∈ ticks)
    (hu : u ∈ ticks) (htu : earlier t u) (hut : earlier u t) : t = u :=
  h ht hu (htu.id_eq hut)

theorem Table.distinct (table : Table) (symbol : String) :
    Distinct {t | t ∈ table.okTicks symbol} := by
  intro t ht u hu hid
  exact List.inj_on_of_nodup_map table.ids (List.mem_of_mem_filter ht) (List.mem_of_mem_filter hu)
    hid

structure Candle where
  start : ℤ
  opening : ℚ
  high : ℚ
  low : ℚ
  close : ℚ
  deriving DecidableEq

structure Candle.Draws (c : Candle) (ticks : Set Tick) : Prop where
  opening : ∃ t ∈ ticks, t.value = c.opening ∧ ∀ u ∈ ticks, earlier t u
  close : ∃ t ∈ ticks, t.value = c.close ∧ ∀ u ∈ ticks, earlier u t
  high : (∃ t ∈ ticks, t.value = c.high) ∧ ∀ u ∈ ticks, u.value ≤ c.high
  low : (∃ t ∈ ticks, t.value = c.low) ∧ ∀ u ∈ ticks, c.low ≤ u.value

def bucket (g : Grid) (ticks : Set Tick) (start : ℤ) : Set Tick :=
  {t | t ∈ ticks ∧ g.floor t.observedAt = start}

structure IsChart (g : Grid) (ticks : Set Tick) (candles : List Candle) : Prop where
  ascending : AscendingBy Candle.start candles
  draws : ∀ c ∈ candles, c.Draws (bucket g ticks c.start)
  covers : ∀ t ∈ ticks, ∃ c ∈ candles, c.start = g.floor t.observedAt

theorem Candle.Draws.unique {c d : Candle} {ticks : Set Tick} (hid : Distinct ticks)
    (hc : c.Draws ticks) (hd : d.Draws ticks) (hs : c.start = d.start) : c = d := by
  obtain ⟨t, ht, hto, hfirst⟩ := hc.opening
  obtain ⟨t', ht', hto', hfirst'⟩ := hd.opening
  obtain ⟨u, hu, huc, hlast⟩ := hc.close
  obtain ⟨u', hu', huc', hlast'⟩ := hd.close
  obtain ⟨⟨h, hh, hhv⟩, hhigh⟩ := hc.high
  obtain ⟨⟨h', hh', hhv'⟩, hhigh'⟩ := hd.high
  obtain ⟨⟨l, hl, hlv⟩, hlow⟩ := hc.low
  obtain ⟨⟨l', hl', hlv'⟩, hlow'⟩ := hd.low
  have hopening : c.opening = d.opening := by
    rw [← hto, ← hto', hid.eq ht ht' (hfirst t' ht') (hfirst' t ht)]
  have hclose : c.close = d.close := by
    rw [← huc, ← huc', hid.eq hu hu' (hlast' u hu) (hlast u' hu')]
  have hhi : c.high = d.high :=
    le_antisymm (hhv ▸ hhigh' h hh) (hhv' ▸ hhigh h' hh')
  have hlo : c.low = d.low :=
    le_antisymm (hlv' ▸ hlow l' hl') (hlv ▸ hlow' l hl)
  cases c
  cases d
  simp_all

theorem IsChart.exists_tick {g : Grid} {ticks : Set Tick} {candles : List Candle}
    (h : IsChart g ticks candles) {c : Candle} (hc : c ∈ candles) :
    ∃ t ∈ ticks, g.floor t.observedAt = c.start := by
  obtain ⟨t, ht, _⟩ := (h.draws c hc).opening
  exact ⟨t, ht.1, ht.2⟩

theorem IsChart.isBoundary {g : Grid} {ticks : Set Tick} {candles : List Candle}
    (h : IsChart g ticks candles) {c : Candle} (hc : c ∈ candles) : g.IsBoundary c.start := by
  obtain ⟨t, _, hs⟩ := h.exists_tick hc
  exact hs ▸ Grid.isBoundary_floor _

theorem summarise_isChart {β : Type*} {g : Grid} {key : Tick → ℤ} {f : ℤ → List Tick → Option β}
    {v : β → Candle} (hkey : ∀ t, key t = g.floor t.observedAt)
    (hspec : ∀ k l b, f k l = some b → (v b).start = k ∧ (v b).Draws {t | t ∈ l})
    (hsome : ∀ k l, l ≠ [] → ∃ b, f k l = some b) (ticks : List Tick) :
    IsChart g {t | t ∈ ticks} ((summarise key f ticks).map v) := by
  have hstart (k : ℤ) (l : List Tick) (b : β) (h : f k l = some b) : (v b).start = k :=
    (hspec k l b h).1
  refine ⟨List.pairwise_map.mpr (summarise_ascending hstart ticks), ?_, ?_⟩
  · intro c hc
    obtain ⟨b, hb, rfl⟩ := List.mem_map.mp hc
    obtain ⟨k, _, hk⟩ := mem_summarise.mp hb
    obtain ⟨rfl, hdraws⟩ := hspec _ _ _ hk
    have hset : bucket g {t | t ∈ ticks} (v b).start = {t | t ∈ group key ticks (v b).start} := by
      ext t
      simp only [bucket, Set.mem_ofPred_eq, mem_group, hkey]
    rw [hset]
    exact hdraws
  · intro t ht
    have hne : group key ticks (key t) ≠ [] := List.ne_nil_of_mem (mem_group.mpr ⟨ht, rfl⟩)
    obtain ⟨b, hb⟩ := hsome (key t) _ hne
    refine ⟨v b, List.mem_map_of_mem (mem_summarise.mpr ⟨_, ⟨t, ht, rfl⟩, hb⟩), ?_⟩
    rw [hstart _ _ _ hb, hkey]

theorem IsChart.unique {g : Grid} {ticks : Set Tick} {candles candles' : List Candle}
    (hid : Distinct ticks) (h : IsChart g ticks candles) (h' : IsChart g ticks candles') :
    candles = candles' := by
  have hsub {cs cs' : List Candle} (h : IsChart g ticks cs) (h' : IsChart g ticks cs')
      (c : Candle) (hc : c ∈ cs) : c ∈ cs' := by
    obtain ⟨t, ht, hs⟩ := h.exists_tick hc
    obtain ⟨d, hd, hds⟩ := h'.covers t ht
    have hstart : d.start = c.start := hds.trans hs
    have hdraws := h'.draws d hd
    rw [hstart] at hdraws
    have hinj : Distinct (bucket g ticks c.start) := hid.mono (fun _ hu ↦ hu.1)
    rw [(h.draws c hc).unique hinj hdraws hstart.symm]
    exact hd
  exact h.ascending.ext h'.ascending (fun c ↦ ⟨hsub h h' c, hsub h' h c⟩)

theorem IsChart.filter {g : Grid} {ticks : Set Tick} {candles : List Candle}
    (h : IsChart g ticks candles) (p : ℤ → Bool) :
    IsChart g {t | t ∈ ticks ∧ p (g.floor t.observedAt) = true}
      (candles.filter (fun c ↦ p c.start)) := by
  refine ⟨h.ascending.filter _, ?_, ?_⟩
  · intro c hc
    obtain ⟨hc, hp⟩ := List.mem_filter.mp hc
    have hset : bucket g {t | t ∈ ticks ∧ p (g.floor t.observedAt) = true} c.start =
        bucket g ticks c.start := by
      ext t
      simp only [bucket, Set.mem_ofPred_eq]
      constructor
      · exact fun ht ↦ ⟨ht.1.1, ht.2⟩
      · exact fun ht ↦ ⟨⟨ht.1, ht.2 ▸ hp⟩, ht.2⟩
    rw [hset]
    exact h.draws c hc
  · rintro t ⟨ht, hp⟩
    obtain ⟨c, hc, hs⟩ := h.covers t ht
    exact ⟨c, List.mem_filter.mpr ⟨hc, hs ▸ hp⟩, hs⟩

end TalaPala.Prices
