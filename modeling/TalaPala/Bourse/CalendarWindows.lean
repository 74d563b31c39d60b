import TalaPala.Bourse.MarketCalendar
import TalaPala.Library.Latest

namespace TalaPala.Bourse

open Library List

def SessionCount.thin (x : SessionCount) : Bool := !x.marketSession

section Split

variable {keep : ℕ} {s : Calendaring} {x : SessionCount}

def Calendaring.took (s : Calendaring) (x : SessionCount) : Calendaring where
  cal := { s.cal with
    thinSkipped := s.cal.thinSkipped + s.pending
    sessions := s.cal.sessions ++ [x.day]
    counts := s.cal.counts ++ [x] }
  pending := 0

theorem Calendaring.sessions_took (s : Calendaring) (x : SessionCount) :
    (s.took x).cal.sessions ≠ [] :=
  append_ne_nil_of_right_ne_nil _ (cons_ne_nil _ _)

theorem Calendaring.foldl_step_of_full (h : keep ≤ s.cal.sessions.length) (l : List SessionCount) :
    l.foldl (step keep) s = s := by
  induction l with
  | nil => rfl
  | cons x rest ih => rwa [foldl_cons, show step keep s x = s from if_pos h]

theorem Calendaring.step_of_session (h : ¬ keep ≤ s.cal.sessions.length)
    (hx : x.floored.marketSession = true) : step keep s x = s.took x.floored := by
  simp only [step, if_neg h, hx, not_true_eq_false, if_false]
  rfl

theorem Calendaring.step_of_thin (h : ¬ keep ≤ s.cal.sessions.length)
    (hx : x.floored.marketSession = false) :
    step keep s x =
      if s.cal.sessions = [] then
        { s with cal := { s.cal with
            thinAfterNewest := s.cal.thinAfterNewest + 1
            newestThin := s.cal.newestThin.orElse (fun _ ↦ some x.floored) } }
      else { s with pending := s.pending + 1 } := by
  simp only [step, if_neg h, hx, Bool.false_eq_true, not_false_eq_true, if_true, length_eq_zero_iff]

theorem SessionCount.thin_of_not_session (h : x.marketSession = false) : x.thin = true := by
  rw [thin, h]
  rfl

theorem SessionCount.not_thin (h : x.marketSession = true) : ¬ x.thin = true := by
  rw [thin, h]
  exact Bool.false_ne_true

theorem getLast?_cons_session {block : List SessionCount} (hx : x.marketSession = true)
    (h : ∀ y ∈ block.getLast?, y.marketSession = true) :
    ∀ y ∈ (x :: block).getLast?, y.marketSession = true := by
  rcases block with - | ⟨z, tail⟩
  · rintro y hy
    obtain rfl := Option.some.inj hy
    exact hx
  · rwa [getLast?_cons_cons]

theorem Calendaring.foldl_step_block (l : List SessionCount) (h : s.cal.sessions ≠ []) :
    ∃ block back, l.map SessionCount.floored = block ++ back ∧
      (∀ x ∈ block.getLast?, x.marketSession = true) ∧
      (l.foldl (step keep) s).cal.counts =
        s.cal.counts ++ block.filter SessionCount.marketSession ∧
      (l.foldl (step keep) s).cal.thinSkipped = s.cal.thinSkipped +
        (if block = [] then 0 else s.pending + block.countP SessionCount.thin) ∧
      (l.foldl (step keep) s).cal.thinAfterNewest = s.cal.thinAfterNewest := by
  induction l generalizing s with
  | nil => exact ⟨[], [], rfl, by simp, by simp, by simp, rfl⟩
  | cons x rest ih =>
    by_cases hfull : keep ≤ s.cal.sessions.length
    · rw [foldl_step_of_full hfull]
      exact ⟨[], _, rfl, by simp, by simp, by simp, rfl⟩
    rw [map_cons, foldl_cons]
    cases hx : x.floored.marketSession with
    | false =>
      rw [step_of_thin hfull hx, if_neg h]
      obtain ⟨block, back, hsplit, hlast, hcounts, hskipped, hafter⟩ :=
        ih (s := { s with pending := s.pending + 1 }) h
      rcases block with - | ⟨y, tail⟩
      · exact ⟨[], x.floored :: back, by rw [hsplit]; rfl, by simp, hcounts, hskipped, hafter⟩
      · refine ⟨x.floored :: y :: tail, back, by rw [hsplit]; rfl, ?_, ?_, ?_, hafter⟩
        · rwa [getLast?_cons_cons]
        · rw [hcounts, filter_cons_of_neg (a := x.floored) (by rw [hx]; exact Bool.false_ne_true)]
        · rw [hskipped, if_neg (cons_ne_nil _ _), if_neg (cons_ne_nil _ _),
            countP_cons_of_pos (SessionCount.thin_of_not_session hx)]
          dsimp only
          omega
    | true =>
      rw [step_of_session hfull hx]
      obtain ⟨block, back, hsplit, hlast, hcounts, hskipped, hafter⟩ := ih (s.sessions_took x.floored)
      refine ⟨x.floored :: block, back, by rw [hsplit]; rfl, getLast?_cons_session hx hlast, ?_, ?_,
        hafter⟩
      · rw [hcounts, filter_cons_of_pos hx, took, append_assoc, singleton_append]
      · rw [hskipped, if_neg (cons_ne_nil _ _), countP_cons_of_neg (SessionCount.not_thin hx), took]
        dsimp only
        split_ifs with hblock
        · simp [hblock]
        · omega

theorem Calendaring.foldl_step_split (l : List SessionCount) (h : s.cal.sessions = [])
    (hpending : s.pending = 0) (hskip : s.cal.thinSkipped = 0) (hcounts : s.cal.counts = []) :
    ∃ front block back, l.map SessionCount.floored = front ++ block ++ back ∧
      (∀ x ∈ front, x.thin = true) ∧ (∀ x ∈ block.head?, x.marketSession = true) ∧
      (∀ x ∈ block.getLast?, x.marketSession = true) ∧
      (l.foldl (step keep) s).cal.counts = block.filter SessionCount.marketSession ∧
      (l.foldl (step keep) s).cal.thinSkipped = block.countP SessionCount.thin ∧
      (l.foldl (step keep) s).cal.thinAfterNewest = s.cal.thinAfterNewest + front.length := by
  induction l generalizing s with
  | nil => exact ⟨[], [], [], rfl, by simp, by simp, by simp, by simp [hcounts], by simp [hskip], rfl⟩
  | cons x rest ih =>
    by_cases hfull : keep ≤ s.cal.sessions.length
    · rw [foldl_step_of_full hfull]
      exact ⟨[], [], _, rfl, by simp, by simp, by simp, by simp [hcounts], by simp [hskip], rfl⟩
    rw [map_cons, foldl_cons]
    cases hx : x.floored.marketSession with
    | false =>
      rw [step_of_thin hfull hx, if_pos h]
      obtain ⟨front, block, back, hsplit, hfront, hhead, hlast, hcounts', hskipped, hafter⟩ :=
        ih (s := { s with cal := { s.cal with
          thinAfterNewest := s.cal.thinAfterNewest + 1
          newestThin := s.cal.newestThin.orElse (fun _ ↦ some x.floored) } }) h hpending hskip hcounts
      refine ⟨x.floored :: front, block, back, by rw [hsplit]; rfl, ?_, hhead, hlast, hcounts',
        hskipped, ?_⟩
      · exact forall_mem_cons.mpr ⟨SessionCount.thin_of_not_session hx, hfront⟩
      · rw [hafter, length_cons]
        dsimp only
        omega
    | true =>
      rw [step_of_session hfull hx]
      obtain ⟨block, back, hsplit, hlast, hcounts', hskipped, hafter⟩ :=
        foldl_step_block rest (s.sessions_took x.floored)
      refine ⟨[], x.floored :: block, back, by rw [hsplit]; rfl, by simp, ?_,
        getLast?_cons_session hx hlast, ?_, ?_, hafter⟩
      · rintro z hz
        obtain rfl := Option.some.inj hz
        exact hx
      · rw [hcounts', filter_cons_of_pos hx, took, hcounts]
        rfl
      · rw [hskipped, took, hskip, hpending, countP_cons_of_neg (SessionCount.not_thin hx)]
        dsimp only
        split_ifs with hblock
        · simp [hblock]
        · omega

end Split

section Stored

variable {counts : List SessionCount} {keep : ℕ}

def storedDates (counts : List SessionCount) : List SessionCount := counts.map SessionCount.floored

theorem storedDates_perm (counts : List SessionCount) :
    ((newestFirst counts).map SessionCount.floored).Perm (storedDates counts) :=
  (perm_insertionSort _ counts).map _

theorem descending_storedDates (h : ((storedDates counts).map SessionCount.day).Nodup) :
    DescendingBy SessionCount.day ((newestFirst counts).map SessionCount.floored) := by
  have hsorted : (newestFirst counts).Pairwise (fun a b ↦ b.day ≤ a.day) := by
    have : Std.Total (fun a b : SessionCount ↦ b.day ≤ a.day) :=
      ⟨fun a b ↦ le_total b.day a.day⟩
    have : IsTrans SessionCount (fun a b ↦ b.day ≤ a.day) := ⟨fun a b c h h' ↦ h'.trans h⟩
    exact pairwise_insertionSort _ counts
  have hfloored : ((newestFirst counts).map SessionCount.floored).Pairwise
      (fun a b ↦ b.day ≤ a.day) :=
    pairwise_map.mpr (hsorted.imp (fun hle ↦ dayFloor_mono hle))
  have hnodup : (((newestFirst counts).map SessionCount.floored).map SessionCount.day).Nodup :=
    ((storedDates_perm counts).map SessionCount.day).nodup_iff.mpr h
  exact hfloored.imp₂ (fun a b hle hne ↦ lt_of_le_of_ne hle (Ne.symm hne))
    (pairwise_map.mp hnodup)

theorem buildMarketCalendar_split (counts : List SessionCount) (keep : ℕ) :
    ∃ front block back,
      (newestFirst counts).map SessionCount.floored = front ++ block ++ back ∧
      (∀ x ∈ front, x.thin = true) ∧ (∀ x ∈ block.head?, x.marketSession = true) ∧
      (∀ x ∈ block.getLast?, x.marketSession = true) ∧
      (buildMarketCalendar counts keep).counts = block.filter SessionCount.marketSession ∧
      (buildMarketCalendar counts keep).thinSkipped = block.countP SessionCount.thin ∧
      (buildMarketCalendar counts keep).thinAfterNewest = front.length := by
  unfold buildMarketCalendar
  dsimp only
  obtain ⟨front, block, back, hsplit, hfront, hhead, hlast, hcounts, hskipped, hafter⟩ :=
    @Calendaring.foldl_step_split keep
      ⟨{ sessions := [], counts := [], newestStored := (newestFirst counts).head?.map SessionCount.floored
         thinAfterNewest := 0, newestThin := none, thinSkipped := 0
         newestDayFile := ((newestFirst counts).filter SessionCount.dayFile).head?.map
           SessionCount.floored
         dayFiles := ((newestFirst counts).filter SessionCount.dayFile).length }, 0⟩
      (newestFirst counts) rfl rfl rfl rfl
  exact ⟨front, block, back, hsplit, hfront, hhead, hlast, hcounts, hskipped,
    hafter.trans (Nat.zero_add _)⟩

theorem exists_split (h : ((storedDates counts).map SessionCount.day).Nodup) {newest oldest : Instant}
    (hnewest : (buildMarketCalendar counts keep).sessions.head? = some newest)
    (holdest : (buildMarketCalendar counts keep).sessions.getLast? = some oldest) :
    oldest ≤ newest ∧ ∃ front block back,
      (newestFirst counts).map SessionCount.floored = front ++ block ++ back ∧
      (∀ x ∈ front, x.thin = true ∧ newest < x.day) ∧
      (∀ x ∈ block, oldest ≤ x.day ∧ x.day ≤ newest ∧
        (x.thin = true → oldest < x.day ∧ x.day < newest)) ∧
      (∀ x ∈ back, x.day < oldest) ∧
      (buildMarketCalendar counts keep).counts = block.filter SessionCount.marketSession ∧
      (buildMarketCalendar counts keep).thinSkipped = block.countP SessionCount.thin ∧
      (buildMarketCalendar counts keep).thinAfterNewest = front.length := by
  obtain ⟨front, block, back, hsplit, hfront, hhead, hlast, hcounts, hskipped, hafter⟩ :=
    buildMarketCalendar_split counts keep
  have hdesc := descending_storedDates h
  rw [hsplit] at hdesc
  obtain ⟨hdesc, -, hback⟩ := pairwise_append.mp hdesc
  obtain ⟨-, hblock, hcross⟩ := pairwise_append.mp hdesc
  rw [sessions_buildMarketCalendar, hcounts] at hnewest holdest
  -- The block's first and last date are sessions, so they are the newest and the oldest.
  obtain ⟨first, tail, rfl⟩ : ∃ first tail, block = first :: tail := by
    rcases block with - | ⟨first, tail⟩
    · cases hnewest
    · exact ⟨first, tail, rfl⟩
  have hfirst : first.marketSession = true := hhead first rfl
  obtain rfl : first.day = newest := by
    rw [filter_cons_of_pos hfirst] at hnewest
    exact Option.some.inj hnewest
  obtain ⟨init, last, hinit⟩ : ∃ init last, first :: tail = init ++ [last] :=
    ⟨_, _, (dropLast_concat_getLast (cons_ne_nil first tail)).symm⟩
  rw [hinit] at hlast holdest
  have hsession : last.marketSession = true := hlast last (getLast?_concat ..)
  obtain rfl : last.day = oldest := by
    rw [filter_append, filter_cons_of_pos hsession, map_append, map_cons,
      filter_nil, map_nil, getLast?_concat] at holdest
    exact Option.some.inj holdest
  have hmem : last ∈ first :: tail := by
    rw [hinit]
    exact mem_append_right _ (mem_singleton_self last)
  have hle : last.day ≤ first.day := by
    rcases mem_cons.mp hmem with rfl | hmem
    · exact le_rfl
    · exact ((pairwise_cons.mp hblock).1 last hmem).le
  refine ⟨hle, front, first :: tail, back, hsplit, ?_, ?_, ?_, hcounts, hskipped, hafter⟩
  · exact fun x hx ↦ ⟨hfront x hx, hcross x hx first mem_cons_self⟩
  · intro x hx
    have hnew : x = first ∨ x.day < first.day := by
      rcases mem_cons.mp hx with rfl | hx
      · exact .inl rfl
      · exact .inr ((pairwise_cons.mp hblock).1 x hx)
    have hold : x = last ∨ last.day < x.day := by
      rw [hinit] at hx hblock
      rcases mem_append.mp hx with hx | hx
      · exact .inr ((pairwise_append.mp hblock).2.2 x hx last (mem_singleton_self last))
      · exact .inl (mem_singleton.mp hx)
    refine ⟨?_, ?_, fun hthin ↦ ⟨?_, ?_⟩⟩
    · rcases hold with rfl | hlt
      · exact le_rfl
      · exact hlt.le
    · rcases hnew with rfl | hlt
      · exact le_rfl
      · exact hlt.le
    · rcases hold with rfl | hlt
      · exact absurd hthin (SessionCount.not_thin hsession)
      · exact hlt
    · rcases hnew with rfl | hlt
      · exact absurd hthin (SessionCount.not_thin hfirst)
      · exact hlt
  · exact fun x hx ↦ hback last (mem_append_right _ hmem) x hx

structure CountsOnce (counts : List SessionCount) (keep : ℕ) (c : MarketCalendar) : Prop where
  kept : ∀ x, x ∈ c.counts ↔ x ∈ storedDates counts ∧ x.marketSession = true ∧
    above SessionCount.day ((storedDates counts).filter SessionCount.marketSession) x < keep
  aligned : c.sessions = c.counts.map SessionCount.day
  descending : c.sessions.Pairwise (· > ·)
  afterNewest : ∀ newest ∈ c.sessions.head?,
    c.thinAfterNewest = (storedDates counts).countP (fun x ↦ x.thin ∧ newest < x.day)
  skipped : ∀ newest ∈ c.sessions.head?, ∀ oldest ∈ c.sessions.getLast?,
    c.thinSkipped =
      (storedDates counts).countP (fun x ↦ x.thin ∧ oldest < x.day ∧ x.day < newest)
  covered : ∀ newest ∈ c.sessions.head?, ∀ oldest ∈ c.sessions.getLast?,
    ∀ x ∈ storedDates counts, oldest < x.day →
      x ∈ c.counts ∨ (x.thin = true ∧ newest < x.day) ∨
        (x.thin = true ∧ oldest < x.day ∧ x.day < newest)
  total : ∀ oldest ∈ c.sessions.getLast?,
    (storedDates counts).countP (fun x ↦ oldest ≤ x.day) =
      c.sessions.length + c.thinAfterNewest + c.thinSkipped

theorem countP_storedDates (p : SessionCount → Bool) {front block back : List SessionCount}
    (hsplit : (newestFirst counts).map SessionCount.floored = front ++ block ++ back) :
    (storedDates counts).countP p = front.countP p + block.countP p + back.countP p := by
  rw [← (storedDates_perm counts).countP_eq, hsplit, countP_append, countP_append]

theorem countsOnce (counts : List SessionCount) (keep : ℕ)
    (h : ((storedDates counts).map SessionCount.day).Nodup) :
    CountsOnce counts keep (buildMarketCalendar counts keep) := by
  refine ⟨fun x ↦ ?_, sessions_buildMarketCalendar counts keep, ?_, fun newest hnewest ↦ ?_,
    fun newest hnewest oldest holdest ↦ ?_, fun newest hnewest oldest holdest x hx hlt ↦ ?_,
    fun oldest holdest ↦ ?_⟩
  · have hdesc := (descending_storedDates h).filter SessionCount.marketSession
    have hperm := (storedDates_perm counts).filter SessionCount.marketSession
    rw [counts_buildMarketCalendar, DescendingBy.mem_take hdesc, above, hperm.countP_eq, ← above,
      hperm.mem_iff, mem_filter, and_assoc]
  · rw [storedDates, map_map] at h
    exact pairwise_sessions counts keep h
  · obtain ⟨oldest, holdest⟩ : ∃ oldest,
        (buildMarketCalendar counts keep).sessions.getLast? = some oldest :=
      ⟨_, getLast?_eq_some_getLast (ne_nil_of_mem (mem_of_mem_head? hnewest))⟩
    obtain ⟨hle, front, block, back, hsplit, hfront, hblock, hback, -, -, hafter⟩ :=
      exists_split h hnewest holdest
    have hin : block.countP (fun x ↦ x.thin ∧ newest < x.day) = 0 :=
      countP_eq_zero.mpr (fun x hx hboth ↦
        absurd (of_decide_eq_true hboth).2 (not_lt.mpr (hblock x hx).2.1))
    have hbehind : back.countP (fun x ↦ x.thin ∧ newest < x.day) = 0 :=
      countP_eq_zero.mpr (fun x hx hboth ↦
        absurd ((of_decide_eq_true hboth).2.trans (hback x hx)) (not_lt.mpr hle))
    have hahead : front.countP (fun x ↦ x.thin ∧ newest < x.day) = front.length :=
      countP_eq_length.mpr (fun x hx ↦ decide_eq_true (hfront x hx))
    rw [countP_storedDates _ hsplit, hin, hbehind, hahead, hafter, Nat.add_zero]
  · obtain ⟨-, front, block, back, hsplit, hfront, hblock, hback, -, hskipped, -⟩ :=
      exists_split h hnewest holdest
    have hahead : front.countP (fun x ↦ x.thin ∧ oldest < x.day ∧ x.day < newest) = 0 :=
      countP_eq_zero.mpr (fun x hx hboth ↦
        absurd (of_decide_eq_true hboth).2.2 (not_lt.mpr (hfront x hx).2.le))
    have hbehind : back.countP (fun x ↦ x.thin ∧ oldest < x.day ∧ x.day < newest) = 0 :=
      countP_eq_zero.mpr (fun x hx hboth ↦
        absurd (of_decide_eq_true hboth).2.1 (not_lt.mpr (hback x hx).le))
    have hin : block.countP (fun x ↦ x.thin ∧ oldest < x.day ∧ x.day < newest) =
        block.countP SessionCount.thin :=
      countP_congr (fun x hx ↦ by
        rw [decide_eq_true_eq]
        exact and_iff_left_of_imp (hblock x hx).2.2)
    rw [countP_storedDates _ hsplit, hahead, hbehind, hin, hskipped, Nat.zero_add, Nat.add_zero]
  · obtain ⟨-, front, block, back, hsplit, hfront, hblock, hback, hcounts, -, -⟩ :=
      exists_split h hnewest holdest
    have hmem := (storedDates_perm counts).mem_iff.mpr hx
    rw [hsplit, append_assoc, mem_append, mem_append] at hmem
    rcases hmem with hx | hx | hx
    · exact .inr (.inl (hfront x hx))
    · cases hsession : x.marketSession with
      | true =>
        rw [hcounts]
        exact .inl (mem_filter.mpr ⟨hx, hsession⟩)
      | false =>
        have hthin := SessionCount.thin_of_not_session hsession
        exact .inr (.inr ⟨hthin, (hblock x hx).2.2 hthin⟩)
    · exact absurd hlt (not_lt.mpr (hback x hx).le)
  · obtain ⟨newest, hnewest⟩ : ∃ newest,
        (buildMarketCalendar counts keep).sessions.head? = some newest :=
      ⟨_, head?_eq_some_head (ne_nil_of_mem (mem_of_getLast? holdest))⟩
    obtain ⟨hle, front, block, back, hsplit, hfront, hblock, hback, hcounts, hskipped, hafter⟩ :=
      exists_split h hnewest holdest
    have hahead : front.countP (fun x ↦ oldest ≤ x.day) = front.length :=
      countP_eq_length.mpr (fun x hx ↦ decide_eq_true (hle.trans (hfront x hx).2.le))
    have hin : block.countP (fun x ↦ oldest ≤ x.day) = block.length :=
      countP_eq_length.mpr (fun x hx ↦ decide_eq_true (hblock x hx).1)
    have hbehind : back.countP (fun x ↦ oldest ≤ x.day) = 0 :=
      countP_eq_zero.mpr (fun x hx hge ↦
        absurd (of_decide_eq_true hge) (not_le.mpr (hback x hx)))
    have hboth : block.length =
        (block.filter SessionCount.marketSession).length + block.countP SessionCount.thin := by
      have hthin : block.countP (fun x ↦ ¬ x.marketSession = true) =
          block.countP SessionCount.thin := countP_congr (fun x _ ↦ by simp [SessionCount.thin])
      rw [← countP_eq_length_filter, ← hthin]
      exact length_eq_countP_add_countP SessionCount.marketSession
    rw [countP_storedDates _ hsplit, hahead, hin, hbehind, hafter, hskipped,
      sessions_buildMarketCalendar, length_map, hcounts, hboth]
    omega

end Stored

section Windows

variable {counts : List SessionCount} {keep : ℕ}

/-- A span of the calendar holds `n` of its sessions from the `i`-th on, the thin dates between its
two ends, and no other stored date. -/
structure Spans (counts : List SessionCount) (c : MarketCalendar) (i n : ℕ) (w : Span) : Prop where
  stop : c.sessions[i]? = some w.stop
  start : c.sessions[i + n - 1]? = some w.start
  held : ∀ x ∈ storedDates counts, w.start ≤ x.day ∧ x.day ≤ w.stop ↔
    x ∈ (c.counts.drop i).take n ∨ (x.thin = true ∧ w.start < x.day ∧ x.day < w.stop)
  length : ((c.counts.drop i).take n).length = n

structure IsWindow (counts : List SessionCount) (c : MarketCalendar) (n : ℕ) (w : SessionWindow) :
    Prop where
  sessions : w.n = n
  available : w.available = true ↔ n ≤ c.sessions.length
  previousAvailable : w.previous.isSome = true ↔ 2 * n ≤ c.sessions.length
  span : ∀ span ∈ w.span, Spans counts c 0 n span
  previous : ∀ span ∈ w.previous, Spans counts c n n span
  base : n ≤ c.sessions.length → w.base = c.sessions[n]?
  coverage : n ≤ c.sessions.length → w.coverage = some (windowCoverage (c.counts.take n))

theorem spanOf_eq_some {sessions : List Instant} {i n : ℕ} {w : Span}
    (h : spanOf sessions i n = some w) :
    sessions[i]? = some w.stop ∧ sessions[i + n - 1]? = some w.start := by
  unfold spanOf at h
  split at h
  · rename_i stop start hstop hstart
    rw [← Option.some.inj h]
    exact ⟨hstop, hstart⟩
  · cases h

theorem isSome_spanOf {sessions : List Instant} {i n : ℕ} (hn : 0 < n) :
    (spanOf sessions i n).isSome = true ↔ i + n ≤ sessions.length := by
  unfold spanOf
  constructor
  · intro h
    split at h
    · rename_i stop start hstop hstart
      have hlt := (List.getElem?_eq_some_iff.mp hstart).1
      omega
    · cases h
  · intro hle
    rw [getElem?_eq_getElem (show i < sessions.length by omega),
      getElem?_eq_getElem (show i + n - 1 < sessions.length by omega)]
    rfl

theorem spans_spanOf (h : ((storedDates counts).map SessionCount.day).Nodup) {i n : ℕ} (hn : 0 < n)
    {w : Span} (hw : spanOf (buildMarketCalendar counts keep).sessions i n = some w) :
    Spans counts (buildMarketCalendar counts keep) i n w := by
  obtain ⟨hstop, hstart⟩ := spanOf_eq_some hw
  have hdesc := (descending_storedDates h).filter SessionCount.marketSession
  have hperm := (storedDates_perm counts).filter SessionCount.marketSession
  set sessions := ((newestFirst counts).map SessionCount.floored).filter SessionCount.marketSession
    with hsessions
  have hcounts : (buildMarketCalendar counts keep).counts = sessions.take keep :=
    counts_buildMarketCalendar counts keep
  have hheld : ∀ {k : ℕ} {day : Instant},
      (buildMarketCalendar counts keep).sessions[k]? = some day →
      ∃ a, sessions[k]? = some a ∧ a.day = day ∧ k < keep := by
    intro k day hday
    rw [sessions_buildMarketCalendar, hcounts, getElem?_map, getElem?_take] at hday
    split_ifs at hday with hlt
    · obtain ⟨a, ha, rfl⟩ := Option.map_eq_some_iff.mp hday
      exact ⟨a, ha, rfl, hlt⟩
    · cases hday
  obtain ⟨last, hlast, hlastDay, -⟩ := hheld hstop
  obtain ⟨first, hfirst, hfirstDay, hkeep⟩ := hheld hstart
  have hstretch : ((buildMarketCalendar counts keep).counts.drop i).take n =
      (sessions.drop i).take n := by
    rw [hcounts, drop_take, take_take, min_eq_left (by omega)]
  refine ⟨hstop, hstart, fun x hx ↦ ?_, ?_⟩
  · rw [hstretch, ← hfirstDay, ← hlastDay]
    cases hsession : x.marketSession with
    | true =>
      have hmem : x ∈ sessions := hperm.mem_iff.mpr (mem_filter.mpr ⟨hx, hsession⟩)
      rw [DescendingBy.mem_stretch hdesc hn hlast hfirst hmem]
      exact (or_iff_left (fun hthin ↦ SessionCount.not_thin hsession hthin.1)).symm
    | false =>
      have hne : ∀ a ∈ sessions, x.day ≠ a.day := by
        intro a ha hday
        obtain ⟨ha, hsession'⟩ := mem_filter.mp (hperm.mem_iff.mp ha)
        rw [inj_on_of_nodup_map h hx ha hday, hsession'] at hsession
        cases hsession
      have hnot : x ∉ (sessions.drop i).take n := fun hmem ↦
        hne x (mem_of_mem_drop (mem_of_mem_take hmem)) rfl
      have hnefirst := hne first (mem_of_getElem? hfirst)
      have hnelast := hne last (mem_of_getElem? hlast)
      rw [or_iff_right hnot]
      constructor
      · rintro ⟨hle, hle'⟩
        exact ⟨SessionCount.thin_of_not_session hsession, lt_of_le_of_ne hle hnefirst.symm,
          lt_of_le_of_ne hle' hnelast⟩
      · rintro ⟨-, hlt, hlt'⟩
        exact ⟨hlt.le, hlt'.le⟩
  · have hlong := (List.getElem?_eq_some_iff.mp hfirst).1
    rw [hstretch, length_take, length_drop]
    omega

theorem isWindow_windowOn (h : ((storedDates counts).map SessionCount.day).Nodup) {n : ℕ}
    (hn : 0 < n) :
    IsWindow counts (buildMarketCalendar counts keep) n
      (windowOn (buildMarketCalendar counts keep) n) := by
  have hlength : (buildMarketCalendar counts keep).sessions.length =
      (buildMarketCalendar counts keep).counts.length := by
    rw [sessions_buildMarketCalendar, length_map]
  unfold windowOn
  by_cases hshort : (buildMarketCalendar counts keep).sessions.length < n
  · rw [if_pos hshort]
    have hnot : ¬ n ≤ (buildMarketCalendar counts keep).sessions.length := not_le.mpr hshort
    have hnotTwice : ¬ 2 * n ≤ (buildMarketCalendar counts keep).sessions.length := by omega
    exact ⟨rfl, iff_of_false Bool.false_ne_true hnot, iff_of_false Bool.false_ne_true hnotTwice,
      by rintro - ⟨⟩, by rintro - ⟨⟩, fun hle ↦ absurd hle hnot, fun hle ↦ absurd hle hnot⟩
  · rw [if_neg hshort]
    refine ⟨rfl, ?_, ?_, fun span hspan ↦ spans_spanOf h hn hspan,
      fun span hspan ↦ spans_spanOf h hn hspan, fun _ ↦ rfl, fun hle ↦ ?_⟩
    · rw [SessionWindow.available, isSome_spanOf hn, Nat.zero_add]
    · rw [isSome_spanOf hn, two_mul]
    · exact if_pos (hlength ▸ hle)

/-- The calendar keeps the newest sessions and counts each stored date down to the oldest
once; a window on it is what is stored between its ends. -/
theorem buildMarketCalendar_counts_once (counts : List SessionCount) (keep : ℕ)
    (h : ((storedDates counts).map SessionCount.day).Nodup) :
    CountsOnce counts keep (buildMarketCalendar counts keep) ∧
      ∀ n > 0, IsWindow counts (buildMarketCalendar counts keep) n
        (windowOn (buildMarketCalendar counts keep) n) :=
  ⟨countsOnce counts keep h, fun _ hn ↦ isWindow_windowOn h hn⟩

def twoSessions : List SessionCount :=
  [⟨0, 200, 200, true, 200, 200, 1000, 1000⟩, ⟨microsPerDay, 10, 10, false, 0, 0, 0, 0⟩,
    ⟨2 * microsPerDay, 200, 200, true, 200, 200, 1000, 1000⟩]

theorem twoSessions_counted :
    CountsOnce twoSessions 60 (buildMarketCalendar twoSessions 60) ∧
      ∀ n > 0, IsWindow twoSessions (buildMarketCalendar twoSessions 60) n
        (windowOn (buildMarketCalendar twoSessions 60) n) :=
  buildMarketCalendar_counts_once twoSessions 60 (by decide +kernel)

example : (buildMarketCalendar twoSessions 60).thinSkipped = 1 := by decide +kernel

end Windows

end TalaPala.Bourse
