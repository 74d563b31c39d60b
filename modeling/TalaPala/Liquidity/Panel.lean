import TalaPala.Library.Slots

namespace TalaPala.Liquidity

open Library List

/-- The operations the model takes of a floating-point type, and the two facts
about the value that is not a number which it relies on. -/
class Float64 (F : Type*) where
  nan : F
  isNaN : F → Bool
  inf : Bool → F
  ofInt : ℤ → F
  add : F → F → F
  sub : F → F → F
  mul : F → F → F
  div : F → F → F
  le : F → F → Bool
  lt : F → F → Bool
  min : F → F → F
  max : F → F → F
  floor : F → ℤ
  isNaN_nan : isNaN nan = true
  isNaN_nan_add : ∀ x, isNaN (add nan x) = true

open Float64

/-- One month of dollar closes. A month is its number `12 * year + month - 1`
of the Jalali calendar. -/
structure UsdMonth (F : Type*) where
  month : ℤ
  avg : F
  close : F
  complete : Bool

structure MoneyPoint (F : Type*) where
  month : ℤ
  value : F

/-- The monthly grid the model runs on: index `i` is month `first + i`. -/
structure Panel (F : Type*) where
  first : ℤ
  avg : List F
  close : List F
  m2 : List F
  iFirst : ℤ
  iLast : ℤ
  lag : ℤ

def publicationLagMonths : ℤ := 3

section Laying

variable {F : Type*} [Float64 F] (log : F → F)

def Panel.idx (p : Panel F) (m : ℤ) : ℤ := m - p.first

def extend : Option (ℤ × ℤ) → ℤ → Option (ℤ × ℤ)
  | none, m => some (m, m)
  | some (lo, hi), m => some (if m < lo then m else lo, if hi < m then m else hi)

def UsdMonth.usable (u : UsdMonth F) : Bool :=
  u.complete && !le u.avg (ofInt 0) && !le u.close (ofInt 0)

def MoneyPoint.usable (q : MoneyPoint F) : Bool := lt (ofInt 0) q.value

def earlier (iFirst i : ℤ) : ℤ := if iFirst < 0 ∨ i < iFirst then i else iFirst

def later (iLast i : ℤ) : ℤ := if iLast < i then i else iLast

def Panel.layUsd (p : Panel F) (u : UsdMonth F) : Panel F :=
  if !u.usable then p
  else
    { p with
      avg := p.avg.set (p.idx u.month).toNat (log u.avg)
      close := p.close.set (p.idx u.month).toNat (log u.close)
      iFirst := earlier p.iFirst (p.idx u.month)
      iLast := later p.iLast (p.idx u.month) }

def Panel.layM2 (p : Panel F) (q : MoneyPoint F) : Panel F :=
  if q.usable then { p with m2 := p.m2.set (p.idx q.month).toNat (log q.value) } else p

def emptyPanel (lo : ℤ) (n : ℕ) : Panel F where
  first := lo
  avg := List.replicate n nan
  close := List.replicate n nan
  m2 := List.replicate n nan
  iFirst := -1
  iLast := -1
  lag := publicationLagMonths

def newPanel (usd : List (UsdMonth F)) (m2 : List (MoneyPoint F)) : Panel F :=
  match (usd.map UsdMonth.month ++ m2.map MoneyPoint.month).foldl extend none with
  | none => emptyPanel 0 0
  | some (lo, hi) =>
    m2.foldl (Panel.layM2 log) (usd.foldl (Panel.layUsd log) (emptyPanel lo (hi - lo + 1).toNat))

def Panel.withLag (p : Panel F) (lag : ℤ) : Panel F := { p with lag := lag }

/-- The value a series has at index `i`, not a number off the grid. -/
def Panel.at (_ : Panel F) (s : List F) (i : ℤ) : F := slot nan s i

end Laying

section Grid

variable {F : Type*} [Float64 F]

theorem foldl_extend_some (ms : List ℤ) (lo hi : ℤ) :
    ∃ lo' hi', ms.foldl extend (some (lo, hi)) = some (lo', hi') ∧ lo' ≤ lo ∧ hi ≤ hi' ∧
      ∀ m ∈ ms, lo' ≤ m ∧ m ≤ hi' := by
  induction ms generalizing lo hi with
  | nil => exact ⟨lo, hi, rfl, le_rfl, le_rfl, fun m hm ↦ absurd hm not_mem_nil⟩
  | cons m ms ih =>
    obtain ⟨lo', hi', hfold, hlo, hhi, hms⟩ :=
      ih (if m < lo then m else lo) (if hi < m then m else hi)
    refine ⟨lo', hi', hfold, ?_, ?_, fun m' hm' ↦ ?_⟩
    · split at hlo <;> omega
    · split at hhi <;> omega
    · rcases mem_cons.mp hm' with rfl | hm'
      · constructor
        · split at hlo <;> omega
        · split at hhi <;> omega
      · exact hms m' hm'

theorem foldl_extend (ms : List ℤ) :
    (ms = [] ∧ ms.foldl extend none = none) ∨
      ∃ lo hi, ms.foldl extend none = some (lo, hi) ∧ ∀ m ∈ ms, lo ≤ m ∧ m ≤ hi := by
  cases ms with
  | nil => exact .inl ⟨rfl, rfl⟩
  | cons m ms =>
    obtain ⟨lo, hi, hfold, hlo, hhi, hms⟩ := foldl_extend_some ms m m
    refine .inr ⟨lo, hi, hfold, fun m' hm' ↦ ?_⟩
    rcases mem_cons.mp hm' with rfl | hm'
    · exact ⟨hlo, hhi⟩
    · exact hms m' hm'

theorem foldl_earlier_of_nonneg {is : List ℤ} (his : ∀ i ∈ is, 0 ≤ i) {a : ℤ} (ha : 0 ≤ a) :
    is.foldl earlier a ≤ a ∧ (is.foldl earlier a = a ∨ is.foldl earlier a ∈ is) ∧
      ∀ i ∈ is, is.foldl earlier a ≤ i := by
  induction is generalizing a with
  | nil => exact ⟨le_rfl, .inl rfl, fun i hi ↦ absurd hi not_mem_nil⟩
  | cons i is ih =>
    have hi := his i mem_cons_self
    have hstep : 0 ≤ earlier a i ∧ earlier a i ≤ a ∧ earlier a i ≤ i ∧
        (earlier a i = a ∨ earlier a i = i) := by
      unfold earlier
      split <;> omega
    obtain ⟨hle, hmem, hall⟩ := ih (fun j hj ↦ his j (mem_cons_of_mem _ hj)) hstep.1
    rw [foldl_cons]
    refine ⟨hle.trans hstep.2.1, ?_, fun j hj ↦ ?_⟩
    · rcases hmem with heq | hmem
      · rcases hstep.2.2.2 with ha' | hi'
        · exact .inl (heq.trans ha')
        · rw [heq, hi']
          exact .inr mem_cons_self
      · exact .inr (mem_cons_of_mem _ hmem)
    · rcases mem_cons.mp hj with rfl | hj
      · exact hle.trans hstep.2.2.1
      · exact hall j hj

theorem foldl_earlier {is : List ℤ} (his : ∀ i ∈ is, 0 ≤ i) :
    (is = [] ∧ is.foldl earlier (-1) = -1) ∨
      (is.foldl earlier (-1) ∈ is ∧ ∀ i ∈ is, is.foldl earlier (-1) ≤ i) := by
  cases is with
  | nil => exact .inl ⟨rfl, rfl⟩
  | cons i is =>
    have hfirst : earlier (-1) i = i := if_pos (.inl (by decide))
    obtain ⟨hle, hmem, hall⟩ := foldl_earlier_of_nonneg
      (fun j hj ↦ his j (mem_cons_of_mem _ hj)) (his i mem_cons_self)
    rw [foldl_cons, hfirst]
    refine .inr ⟨?_, fun j hj ↦ ?_⟩
    · rcases hmem with heq | hmem
      · rw [heq]
        exact mem_cons_self
      · exact mem_cons_of_mem _ hmem
    · rcases mem_cons.mp hj with rfl | hj
      · exact hle
      · exact hall j hj

theorem le_foldl_later (is : List ℤ) (a : ℤ) :
    a ≤ is.foldl later a ∧ ∀ i ∈ is, i ≤ is.foldl later a := by
  induction is generalizing a with
  | nil => exact ⟨le_rfl, fun i hi ↦ absurd hi not_mem_nil⟩
  | cons i is ih =>
    obtain ⟨hle, hall⟩ := ih (later a i)
    have hstep : a ≤ later a i ∧ i ≤ later a i := by
      unfold later
      split <;> omega
    rw [foldl_cons]
    refine ⟨hstep.1.trans hle, fun j hj ↦ ?_⟩
    rcases mem_cons.mp hj with rfl | hj
    · exact hstep.2.trans hle
    · exact hall j hj

variable (log : F → F)

theorem foldl_layUsd (usd : List (UsdMonth F)) (p : Panel F) :
    usd.foldl (Panel.layUsd log) p =
      { p with
        avg := scatter (fun u ↦ p.idx u.month) (fun u ↦ log u.avg)
          (usd.filter UsdMonth.usable) p.avg
        close := scatter (fun u ↦ p.idx u.month) (fun u ↦ log u.close)
          (usd.filter UsdMonth.usable) p.close
        iFirst := ((usd.filter UsdMonth.usable).map (fun u ↦ p.idx u.month)).foldl earlier p.iFirst
        iLast :=
          ((usd.filter UsdMonth.usable).map (fun u ↦ p.idx u.month)).foldl later p.iLast } := by
  induction usd generalizing p with
  | nil => rfl
  | cons u usd ih =>
    rw [foldl_cons, ih, Panel.layUsd]
    cases h : u.usable with
    | false => rw [filter_cons_of_neg (by simp [h])]; rfl
    | true => rw [filter_cons_of_pos h]; rfl

theorem foldl_layM2 (m2 : List (MoneyPoint F)) (p : Panel F) :
    m2.foldl (Panel.layM2 log) p =
      { p with
        m2 := scatter (fun q ↦ p.idx q.month) (fun q ↦ log q.value)
          (m2.filter MoneyPoint.usable) p.m2 } := by
  induction m2 generalizing p with
  | nil => rfl
  | cons q m2 ih =>
    rw [foldl_cons, ih, Panel.layM2]
    cases h : q.usable with
    | false => rw [filter_cons_of_neg (by simp [h])]; rfl
    | true => rw [filter_cons_of_pos h]; rfl

def dollarAt (value : UsdMonth F → F) (usd : List (UsdMonth F)) (m : ℤ) : F :=
  (((usd.filter UsdMonth.usable).reverse.find? (fun u ↦ u.month = m)).map
    (fun u ↦ log (value u))).getD nan

def moneyAt (m2 : List (MoneyPoint F)) (m : ℤ) : F :=
  (((m2.filter MoneyPoint.usable).reverse.find? (fun q ↦ q.month = m)).map
    (fun q ↦ log q.value)).getD nan

structure Panel.Lays (p : Panel F) (usd : List (UsdMonth F)) (m2 : List (MoneyPoint F)) :
    Prop where
  avg : ∀ m, p.at p.avg (p.idx m) = dollarAt log UsdMonth.avg usd m
  close : ∀ m, p.at p.close (p.idx m) = dollarAt log UsdMonth.close usd m
  m2 : ∀ m, p.at p.m2 (p.idx m) = moneyAt log m2 m
  first_of_neg : p.iFirst < 0 → ∀ u ∈ usd, u.usable = false
  first : 0 ≤ p.iFirst → (∃ u ∈ usd, u.usable = true ∧ u.month = p.first + p.iFirst) ∧
    ∀ u ∈ usd, u.usable = true → p.first + p.iFirst ≤ u.month
  last : ∀ u ∈ usd, u.usable = true → u.month ≤ p.first + p.iLast ∧ 0 ≤ p.iLast

variable {log}

theorem Panel.Lays.withLag {p : Panel F} {usd : List (UsdMonth F)} {m2 : List (MoneyPoint F)}
    (h : p.Lays log usd m2) (lag : ℤ) : (p.withLag lag).Lays log usd m2 :=
  ⟨h.avg, h.close, h.m2, h.first_of_neg, h.first, h.last⟩

theorem slot_scatter_months {α : Type*} {month : α → ℤ} {val : α → F} {l : List α} {first : ℤ}
    {n : ℕ} (h : ∀ a ∈ l, first ≤ month a ∧ month a < first + n) (m : ℤ) :
    slot nan (scatter (fun a ↦ month a - first) val l (List.replicate n nan)) (m - first) =
      ((l.reverse.find? (fun a ↦ month a = m)).map val).getD nan := by
  have hin : ∀ a ∈ l, 0 ≤ month a - first ∧
      month a - first < ((List.replicate n (nan : F)).length : ℤ) := by
    intro a ha
    rw [length_replicate]
    have := h a ha
    omega
  have hsame : (fun a ↦ decide (month a - first = m - first)) = fun a ↦ decide (month a = m) := by
    funext a
    exact decide_eq_decide.mpr ⟨fun h ↦ by omega, fun h ↦ by omega⟩
  rw [slot_scatter hin, slot_replicate, hsame]

theorem lays_of_range {usd : List (UsdMonth F)} {m2 : List (MoneyPoint F)} {lo : ℤ} {n : ℕ}
    (husd : ∀ u ∈ usd, lo ≤ u.month ∧ u.month < lo + n)
    (hm2 : ∀ q ∈ m2, lo ≤ q.month ∧ q.month < lo + n) :
    (m2.foldl (Panel.layM2 log) (usd.foldl (Panel.layUsd log) (emptyPanel lo n))).Lays log
      usd m2 := by
  have husable : ∀ u ∈ usd.filter UsdMonth.usable, lo ≤ u.month ∧ u.month < lo + n :=
    fun u hu ↦ husd u (mem_of_mem_filter hu)
  have hmoney : ∀ q ∈ m2.filter MoneyPoint.usable, lo ≤ q.month ∧ q.month < lo + n :=
    fun q hq ↦ hm2 q (mem_of_mem_filter hq)
  have hmem (u : UsdMonth F) (hu : u ∈ usd) (h : u.usable = true) :
      u.month - lo ∈ (usd.filter UsdMonth.usable).map (fun u ↦ u.month - lo) :=
    mem_map.mpr ⟨u, mem_filter.mpr ⟨hu, h⟩, rfl⟩
  have hnonneg : ∀ i ∈ (usd.filter UsdMonth.usable).map (fun u ↦ u.month - lo), 0 ≤ i := by
    intro i hi
    obtain ⟨u, hu, rfl⟩ := mem_map.mp hi
    have := husable u hu
    omega
  have hfirst := foldl_earlier hnonneg
  rw [foldl_layUsd, foldl_layM2]
  refine ⟨slot_scatter_months husable, slot_scatter_months husable, slot_scatter_months hmoney,
    fun hneg u hu ↦ ?_, fun hpos ↦ ?_, fun u hu husable ↦ ?_⟩
  · rw [← Bool.not_eq_true]
    intro h
    rcases hfirst with ⟨hnil, _⟩ | ⟨hin, _⟩
    · exact absurd (hmem u hu h) (by rw [hnil]; exact not_mem_nil)
    · exact absurd (hnonneg _ hin) (not_le.mpr hneg)
  · rcases hfirst with ⟨_, hnone⟩ | ⟨hin, hleast⟩
    · have hneg := hnone.trans_lt (show (-1 : ℤ) < 0 by decide)
      exact absurd hpos (not_le.mpr hneg)
    · obtain ⟨u, hu, hmonth⟩ := mem_map.mp hin
      obtain ⟨hu, husable⟩ := mem_filter.mp hu
      refine ⟨⟨u, hu, husable, ?_⟩, fun v hv hvu ↦ ?_⟩
      · exact (add_eq_of_eq_sub' hmonth.symm).symm
      · exact add_le_of_le_sub_left (hleast _ (hmem v hv hvu))
  · obtain ⟨_, hlast⟩ :=
      le_foldl_later ((usd.filter UsdMonth.usable).map (fun u ↦ u.month - lo)) (-1)
    have hle := hlast _ (hmem u hu husable)
    exact ⟨sub_le_iff_le_add'.mp hle, (hnonneg _ (hmem u hu husable)).trans hle⟩

theorem newPanel_lays (log : F → F) (usd : List (UsdMonth F)) (m2 : List (MoneyPoint F)) :
    (newPanel log usd m2).Lays log usd m2 := by
  rw [newPanel]
  rcases foldl_extend (usd.map UsdMonth.month ++ m2.map MoneyPoint.month) with
    ⟨hnil, hnone⟩ | ⟨lo, hi, hsome, hin⟩
  · obtain ⟨husd, hm2⟩ := append_eq_nil_iff.mp hnil
    obtain rfl := map_eq_nil_iff.mp husd
    obtain rfl := map_eq_nil_iff.mp hm2
    exact lays_of_range (fun u hu ↦ absurd hu not_mem_nil)
      (fun q hq ↦ absurd hq not_mem_nil)
  · rw [hsome]
    refine lays_of_range (fun u hu ↦ ?_) (fun q hq ↦ ?_)
    · have := hin u.month (mem_append_left _ (mem_map_of_mem hu))
      omega
    · have := hin q.month (mem_append_right _ (mem_map_of_mem hq))
      omega

end Grid

end TalaPala.Liquidity
