import TalaPala.Library.Grouping
import Mathlib.Data.List.AList

namespace TalaPala.Library

open List

section Scan

variable {α : Type*}

/-- One pass over a queue that looks at its first `n` entries only, takes out
those it can serve and leaves the others where they are. -/
def scan (n : ℕ) (ok : α → Bool) (queue : List α) : List α :=
  (queue.take n).filter (fun a ↦ !ok a) ++ queue.drop n

def stuck (ok : α → Bool) (queue : List α) : ℕ := queue.countP (fun a ↦ !ok a)

theorem stuck_scan (n : ℕ) (ok : α → Bool) (queue : List α) :
    stuck ok (scan n ok queue) = stuck ok queue := by
  rw [stuck, stuck, scan, countP_append, countP_filter]
  conv_rhs => rw [← take_append_drop n queue, countP_append]
  simp

theorem stuck_le_length (ok : α → Bool) (queue : List α) : stuck ok queue ≤ queue.length :=
  countP_le_length

theorem exists_ok_of_stuck_lt {n : ℕ} {ok : α → Bool} {queue : List α} (hn : n ≤ queue.length)
    (h : stuck ok queue < n) : ∃ a ∈ queue.take n, ok a = true := by
  by_contra hnone
  have hall : (queue.take n).countP (fun a ↦ !ok a) = (queue.take n).length := by
    rw [countP_eq_length]
    intro a ha
    cases hok : ok a with
    | false => rfl
    | true => exact absurd ⟨a, ha, hok⟩ hnone
  have hle : (queue.take n).countP (fun a ↦ !ok a) ≤ stuck ok queue :=
    (take_sublist n queue).countP_le
  rw [length_take] at hall
  omega

theorem length_scan_lt {n : ℕ} {ok : α → Bool} {queue : List α} (hn : n ≤ queue.length)
    (h : stuck ok queue < n) : (scan n ok queue).length < queue.length := by
  obtain ⟨a, ha, hok⟩ := exists_ok_of_stuck_lt hn h
  have hlt : ((queue.take n).filter (fun a ↦ !ok a)).length < (queue.take n).length :=
    length_filter_lt_length_iff_exists.mpr ⟨a, ha, by simp [hok]⟩
  have hsplit := congrArg List.length (take_append_drop n queue)
  rw [length_append] at hsplit
  rw [scan, length_append]
  omega

end Scan

section StableSort

variable {α : Type*} {r : α → α → Prop} [DecidableRel r] [Std.Total r] [IsTrans α r]

omit [Std.Total r] in
theorem filter_orderedInsert (p : α → Bool) (a : α) {l : List α} (h : l.Pairwise r) :
    (l.orderedInsert r a).filter p =
      if p a then (l.filter p).orderedInsert r a else l.filter p := by
  induction l with
  | nil => cases hp : p a <;> simp [hp]
  | cons b l ih =>
    obtain ⟨hb, hl⟩ := pairwise_cons.mp h
    by_cases hab : r a b
    · rw [orderedInsert_cons_of_le r l hab, filter_cons]
      have hfirst : ∀ c ∈ (b :: l).filter p, r a c := by
        intro c hc
        rcases mem_cons.mp (mem_of_mem_filter hc) with rfl | hc
        · exact hab
        · exact IsTrans.trans _ _ _ hab (hb c hc)
      split
      · cases hrest : (b :: l).filter p with
        | nil => rfl
        | cons c rest =>
          have hac : r a c := hfirst c (hrest ▸ mem_cons_self)
          rw [orderedInsert_cons_of_le r rest hac]
      · rfl
    · rw [orderedInsert_of_not_le r l hab, filter_cons, ih hl, filter_cons]
      cases hpa : p a with
      | false => rfl
      | true =>
        cases hpb : p b with
        | false => rfl
        | true => simp [hab]

theorem filter_insertionSort (p : α → Bool) (l : List α) :
    (l.insertionSort r).filter p = (l.filter p).insertionSort r := by
  induction l with
  | nil => rfl
  | cons a l ih =>
    rw [insertionSort_cons, filter_orderedInsert p a (pairwise_insertionSort r l), ih, filter_cons]
    split
    · rw [insertionSort_cons]
    · rfl

end StableSort

section Selection

variable {α κ : Type*} {key : α → κ} {r : α → α → Prop}

/-- One row for each key that occurs, none of which another row of its key
comes before. -/
structure IsSelection (key : α → κ) (r : α → α → Prop) (l out : List α) : Prop where
  nodup : (out.map key).Nodup
  best : ∀ a ∈ out, a ∈ l ∧ ∀ b ∈ l, key b = key a → r a b
  covers : ∀ a ∈ l, ∃ b ∈ out, key b = key a

abbrev Untied (key : α → κ) (r : α → α → Prop) (l : List α) : Prop :=
  ∀ a ∈ l, ∀ b ∈ l, key a = key b → r a b → r b a → a = b

theorem IsSelection.congr {l l' out : List α} (h : IsSelection key r l out)
    (hmem : ∀ a, a ∈ l ↔ a ∈ l') : IsSelection key r l' out := by
  refine ⟨h.nodup, fun a ha ↦ ?_, fun a ha ↦ h.covers a ((hmem a).mpr ha)⟩
  obtain ⟨hal, hbest⟩ := h.best a ha
  exact ⟨(hmem a).mp hal, fun b hb ↦ hbest b ((hmem b).mpr hb)⟩

theorem IsSelection.of_perm {l out out' : List α} (h : IsSelection key r l out)
    (hp : out'.Perm out) : IsSelection key r l out' := by
  refine ⟨(hp.map key).nodup_iff.mpr h.nodup, fun a ha ↦ h.best a (hp.mem_iff.mp ha), ?_⟩
  intro a ha
  obtain ⟨b, hb, hk⟩ := h.covers a ha
  exact ⟨b, hp.mem_iff.mpr hb, hk⟩

theorem IsSelection.mem_iff {l out : List α} (h : IsSelection key r l out)
    (huntied : Untied key r l) (a : α) :
    a ∈ out ↔ a ∈ l ∧ ∀ b ∈ l, key b = key a → r a b := by
  refine ⟨h.best a, fun ⟨ha, hbest⟩ ↦ ?_⟩
  obtain ⟨b, hb, hk⟩ := h.covers a ha
  obtain ⟨hbl, hb'⟩ := h.best b hb
  rw [huntied a ha b hbl hk.symm (hbest b hbl hk) (hb' a ha hk.symm)]
  exact hb

theorem IsSelection.self {l out : List α} (h : IsSelection key r l out) (hrefl : ∀ a, r a a) :
    IsSelection key r out out := by
  refine ⟨h.nodup, fun a ha ↦ ⟨ha, fun b hb hk ↦ ?_⟩, fun a ha ↦ ⟨a, ha, rfl⟩⟩
  rw [inj_on_of_nodup_map h.nodup hb ha hk]
  exact hrefl a

theorem IsSelection.filter {l out : List α} (h : IsSelection key r l out) (p : κ → Bool) :
    IsSelection key r (l.filter (fun a ↦ p (key a))) (out.filter (fun a ↦ p (key a))) := by
  refine ⟨h.nodup.sublist (filter_sublist.map key), fun a ha ↦ ?_, fun a ha ↦ ?_⟩
  · obtain ⟨ha, hp⟩ := mem_filter.mp ha
    obtain ⟨hal, hbest⟩ := h.best a ha
    exact ⟨mem_filter.mpr ⟨hal, hp⟩, fun b hb ↦ hbest b (mem_of_mem_filter hb)⟩
  · obtain ⟨hal, hp⟩ := mem_filter.mp ha
    obtain ⟨b, hb, hk⟩ := h.covers a hal
    exact ⟨b, mem_filter.mpr ⟨hb, by rw [hk, hp]⟩, hk⟩

variable [LinearOrder κ]

def ascending (key : α → κ) (l : List α) : List α := l.insertionSort (fun a b ↦ key a ≤ key b)

theorem ascending_perm (l : List α) : (ascending key l).Perm l := perm_insertionSort _ l

theorem ascending_map {β : Type*} {key' : β → κ} {f : α → β} (hf : ∀ a, key' (f a) = key a)
    (l : List α) : ascending key' (l.map f) = (ascending key l).map f := by
  refine (map_insertionSort _ _ f l (fun a _ b _ ↦ ?_)).symm
  rw [hf, hf]

theorem filter_ascending (p : α → Bool) (l : List α) :
    (ascending key l).filter p = ascending key (l.filter p) := by
  have : Std.Total (fun a b : α ↦ key a ≤ key b) := ⟨fun a b ↦ le_total _ _⟩
  have : IsTrans α (fun a b ↦ key a ≤ key b) := ⟨fun a b c ↦ le_trans⟩
  exact filter_insertionSort p l

theorem ascending_of_nodup {l : List α} (h : (l.map key).Nodup) :
    AscendingBy key (ascending key l) := by
  have : Std.Total (fun a b : α ↦ key a ≤ key b) := ⟨fun a b ↦ le_total _ _⟩
  have : IsTrans α (fun a b ↦ key a ≤ key b) := ⟨fun a b c ↦ le_trans⟩
  have hnodup : ((ascending key l).map key).Nodup :=
    ((ascending_perm l).map key).nodup_iff.mpr h
  exact ((pairwise_insertionSort (fun a b ↦ key a ≤ key b) l).and
    (pairwise_map.mp hnodup)).imp (fun h ↦ lt_of_le_of_ne h.1 h.2)

theorem IsSelection.eq {l out out' : List α} (h : IsSelection key r l out)
    (h' : IsSelection key r l out') (huntied : Untied key r l) (hasc : AscendingBy key out)
    (hasc' : AscendingBy key out') : out = out' := by
  refine hasc.ext hasc' (fun a ↦ ?_)
  rw [h.mem_iff huntied, h'.mem_iff huntied]

end Selection

section Distinct

variable {α κ : Type*} [LinearOrder κ] (key : α → κ)

/-- `DISTINCT ON`: of a sorted list, the rows whose key the row above them does
not have. -/
def distinctOn : Option κ → List α → List α
  | _, [] => []
  | above, a :: rest =>
    if above = some (key a) then distinctOn above rest
    else a :: distinctOn (some (key a)) rest

variable {key} {r : α → α → Prop}

abbrev SortedBy (key : α → κ) (r : α → α → Prop) (l : List α) : Prop :=
  l.Pairwise (fun a b ↦ key b < key a ∨ (key a = key b ∧ r a b))

theorem mem_distinctOn {above : Option κ} {l : List α} {a : α} (h : a ∈ distinctOn key above l) :
    a ∈ l := by
  induction l generalizing above with
  | nil => exact h
  | cons b rest ih =>
    rw [distinctOn] at h
    split at h
    · exact mem_cons_of_mem _ (ih h)
    · rcases mem_cons.mp h with rfl | h
      · exact mem_cons_self
      · exact mem_cons_of_mem _ (ih h)

theorem key_ne_of_mem_distinctOn {k : κ} {l : List α} (hle : ∀ a ∈ l, key a ≤ k)
    (hl : SortedBy key r l) {a : α} (ha : a ∈ distinctOn key (some k) l) : key a < k := by
  induction l with
  | nil => cases ha
  | cons b rest ih =>
    obtain ⟨hb, hrest⟩ := pairwise_cons.mp hl
    rw [distinctOn] at ha
    split at ha
    · exact ih (fun c hc ↦ hle c (mem_cons_of_mem _ hc)) hrest ha
    · rename_i hne
      have hbk : key b < k :=
        lt_of_le_of_ne (hle b mem_cons_self) (fun he ↦ hne (by rw [he]))
      rcases mem_cons.mp ha with rfl | ha
      · exact hbk
      · rcases hb a (mem_distinctOn ha) with hlt | ⟨he, _⟩
        · exact hlt.trans hbk
        · exact he ▸ hbk

theorem distinctOn_descending {l : List α} (h : SortedBy key r l) (above : Option κ) :
    (distinctOn key above l).Pairwise (fun a b ↦ key b < key a) := by
  induction l generalizing above with
  | nil => exact .nil
  | cons b rest ih =>
    obtain ⟨hb, hrest⟩ := pairwise_cons.mp h
    rw [distinctOn]
    split
    · exact ih hrest above
    · refine pairwise_cons.mpr ⟨fun a ha ↦ ?_, ih hrest _⟩
      apply key_ne_of_mem_distinctOn ?_ hrest ha
      intro c hc
      rcases hb c hc with hlt | ⟨he, _⟩
      · exact hlt.le
      · exact he.ge

theorem distinctOn_best {l : List α} (hrefl : ∀ a, r a a) (h : SortedBy key r l)
    (above : Option κ) : ∀ a ∈ distinctOn key above l,
      ∀ b ∈ l, key b = key a → r a b := by
  induction l generalizing above with
  | nil => exact fun a ha ↦ absurd ha not_mem_nil
  | cons c rest ih =>
    obtain ⟨hc, hrest⟩ := pairwise_cons.mp h
    have hle : ∀ a ∈ rest, key a ≤ key c := by
      intro a ha
      rcases hc a ha with hlt | ⟨he, _⟩
      · exact hlt.le
      · exact he.ge
    intro a ha b hb hk
    rw [distinctOn] at ha
    split at ha
    · rename_i hsame
      subst hsame
      have hne := key_ne_of_mem_distinctOn hle hrest ha
      rcases mem_cons.mp hb with rfl | hb
      · exact absurd hk.symm (ne_of_lt hne)
      · exact ih hrest _ a ha b hb hk
    · rcases mem_cons.mp ha with rfl | ha
      · rcases mem_cons.mp hb with rfl | hb
        · exact hrefl b
        · rcases hc b hb with hlt | ⟨_, hr⟩
          · exact absurd hk (ne_of_lt hlt)
          · exact hr
      · have hne := key_ne_of_mem_distinctOn hle hrest ha
        rcases mem_cons.mp hb with rfl | hb
        · exact absurd hk.symm (ne_of_lt hne)
        · exact ih hrest _ a ha b hb hk

theorem distinctOn_covers {l : List α} (above : Option κ) :
    ∀ a ∈ l, above = some (key a) ∨ ∃ b ∈ distinctOn key above l, key b = key a := by
  induction l generalizing above with
  | nil => exact fun a ha ↦ absurd ha not_mem_nil
  | cons c rest ih =>
    intro a ha
    rw [distinctOn]
    split
    · rename_i hsame
      rcases mem_cons.mp ha with rfl | ha
      · exact .inl hsame
      · exact ih above a ha
    · refine .inr ?_
      rcases mem_cons.mp ha with rfl | ha
      · exact ⟨a, mem_cons_self, rfl⟩
      · rcases ih (some (key c)) a ha with he | ⟨b, hb, hk⟩
        · exact ⟨c, mem_cons_self, Option.some.inj he⟩
        · exact ⟨b, mem_cons_of_mem _ hb, hk⟩

theorem distinctOn_isSelection {l : List α} (hrefl : ∀ a, r a a) (h : SortedBy key r l) :
    IsSelection key r l (distinctOn key none l) := by
  refine ⟨?_, fun a ha ↦ ⟨mem_distinctOn ha, distinctOn_best hrefl h none a ha⟩, ?_⟩
  · exact pairwise_map.mpr ((distinctOn_descending h none).imp (fun hlt ↦ ne_of_gt hlt))
  · intro a ha
    exact (distinctOn_covers none a ha).resolve_left (by simp)

end Distinct

section Numbered

variable {α κ : Type*} [LinearOrder κ] (key : α → κ) (r : α → α → Prop) [DecidableRel r]

/-- Every row with its `ROW_NUMBER() OVER (PARTITION BY key ORDER BY r)`. -/
def rowNumbers (l : List α) : List (α × ℕ) :=
  (keys key l).flatMap (fun k ↦ ((group key l k).insertionSort r).zipIdx 1)

variable {key r}

theorem filter_first_zipIdx (l : List α) :
    (((l.zipIdx 1).filter (fun p ↦ p.2 = 1)).map Prod.fst) = l.head?.toList := by
  cases l with
  | nil => rfl
  | cons a rest =>
    have hrest : (rest.zipIdx 2).filter (fun p ↦ p.2 = 1) = [] := by
      refine filter_eq_nil_iff.mpr (fun p hp ↦ ?_)
      have := le_snd_of_mem_zipIdx hp
      rw [decide_eq_true_eq]
      omega
    rw [zipIdx_cons, filter_cons_of_pos (by simp), map_cons, hrest]
    rfl

theorem rowNumbers_first (l : List α) :
    ((rowNumbers key r l).filter (fun p ↦ p.2 = 1)).map Prod.fst =
      summarise key (fun _ g ↦ firstBy r g) l := by
  rw [rowNumbers, summarise, filter_flatMap, map_flatMap]
  simp only [filter_first_zipIdx, firstBy]
  induction keys key l with
  | nil => rfl
  | cons k rest ih =>
    rw [flatMap_cons, ih]
    cases h : ((group key l k).insertionSort r).head? with
    | none => simp [h]
    | some a => simp [h]

theorem firstBy_group {l : List α} {k : κ} {a : α} (h : firstBy r (group key l k) = some a) :
    key a = k := by
  have hmem : a ∈ (group key l k).insertionSort r := mem_of_mem_head? h
  exact (mem_group.mp ((mem_insertionSort r).mp hmem)).2

theorem summarise_isSelection [Std.Total r] [IsTrans α r] (l : List α) :
    IsSelection key r l (summarise key (fun _ g ↦ firstBy r g) l) ∧
      AscendingBy key (summarise key (fun _ g ↦ firstBy r g) l) := by
  have hasc : AscendingBy key (summarise key (fun _ g ↦ firstBy r g) l) := by
    refine (keys_ascending l).filterMap _ ?_
    intro k k' hk b hb b' hb'
    rw [firstBy_group hb, firstBy_group hb']
    exact hk
  refine ⟨⟨pairwise_map.mpr (hasc.imp ne_of_lt), ?_, ?_⟩, hasc⟩
  · intro a ha
    obtain ⟨k, _, hf⟩ := mem_summarise.mp ha
    obtain ⟨ha, hbest⟩ := firstBy_spec hf
    obtain ⟨hal, rfl⟩ := mem_group.mp ha
    exact ⟨hal, fun b hb hk ↦ hbest b (mem_group.mpr ⟨hb, hk⟩)⟩
  · intro a ha
    have hne : group key l (key a) ≠ [] := ne_nil_of_mem (mem_group.mpr ⟨ha, rfl⟩)
    obtain ⟨b, hb⟩ := exists_firstBy (r := r) hne
    exact ⟨b, mem_summarise.mpr ⟨_, ⟨a, ha, rfl⟩, hb⟩, firstBy_group hb⟩

end Numbered

section KeepBest

variable {α κ : Type*} [LinearOrder κ] (key : α → κ) (better : α → α → Bool)

def keepBest (best : AList (fun _ : κ ↦ α)) (a : α) : AList (fun _ : κ ↦ α) :=
  match best.lookup (key a) with
  | none => best.insert (key a) a
  | some current => if better a current then best.insert (key a) a else best

def values (best : AList (fun _ : κ ↦ α)) : List α := best.entries.map Sigma.snd

variable {key better}

theorem mem_values {best : AList (fun _ : κ ↦ α)} {a : α} :
    a ∈ values best ↔ ∃ k, best.lookup k = some a := by
  rw [values, mem_map]
  constructor
  · rintro ⟨⟨k, b⟩, hb, rfl⟩
    exact ⟨k, AList.mem_lookup_iff.mpr hb⟩
  · rintro ⟨k, hk⟩
    exact ⟨⟨k, a⟩, AList.mem_lookup_iff.mp hk, rfl⟩

variable {r : α → α → Prop}

/-- What the map holds once the rows of `l` went into it. -/
structure HoldsBest (key : α → κ) (r : α → α → Prop) (l : List α)
    (best : AList (fun _ : κ ↦ α)) : Prop where
  held : ∀ k a, best.lookup k = some a → key a = k ∧ a ∈ l ∧ ∀ b ∈ l, key b = k → r a b
  covers : ∀ a ∈ l, ∃ b, best.lookup (key a) = some b

theorem HoldsBest.empty : HoldsBest key r [] (∅ : AList (fun _ : κ ↦ α)) :=
  ⟨fun _ _ h ↦ (by cases h), fun _ h ↦ absurd h not_mem_nil⟩

theorem HoldsBest.insert {l : List α} {best : AList (fun _ : κ ↦ α)} (h : HoldsBest key r l best)
    {a : α} (hrefl : r a a) (ha : ∀ b ∈ l, key b = key a → r a b) :
    HoldsBest key r (l ++ [a]) (best.insert (key a) a) := by
  constructor
  · intro k b hb
    by_cases hk : k = key a
    · subst hk
      rw [AList.lookup_insert, Option.some.injEq] at hb
      subst hb
      refine ⟨rfl, by simp, fun c hc hck ↦ ?_⟩
      rcases mem_append.mp hc with hc | hc
      · exact ha c hc hck
      · exact mem_singleton.mp hc ▸ hrefl
    · rw [AList.lookup_insert_ne hk] at hb
      obtain ⟨rfl, hbl, hbest⟩ := h.held k b hb
      refine ⟨rfl, mem_append_left _ hbl, fun c hc hck ↦ ?_⟩
      rcases mem_append.mp hc with hc | hc
      · exact hbest c hc hck
      · exact absurd (mem_singleton.mp hc ▸ hck).symm hk
  · intro c hc
    by_cases hk : key c = key a
    · exact ⟨a, by rw [hk, AList.lookup_insert]⟩
    · rw [AList.lookup_insert_ne hk]
      rcases mem_append.mp hc with hc | hc
      · exact h.covers c hc
      · exact absurd (by rw [mem_singleton.mp hc]) hk

theorem HoldsBest.keep [Std.Total r] [IsTrans α r] (hbetter : ∀ a b, better a b = true ↔ ¬ r b a)
    {l : List α} {best : AList (fun _ : κ ↦ α)} (h : HoldsBest key r l best) (a : α) :
    HoldsBest key r (l ++ [a]) (keepBest key better best a) := by
  have hrefl (b : α) : r b b := (Std.Total.total b b).elim id id
  rw [keepBest]
  split
  · rename_i hnone
    refine h.insert (hrefl a) (fun b hb hk ↦ ?_)
    obtain ⟨c, hc⟩ := h.covers b hb
    rw [hk, hnone] at hc
    cases hc
  · rename_i current hcurrent
    obtain ⟨hkey, hcl, hbest⟩ := h.held _ _ hcurrent
    split
    · rename_i hlt
      have hac : r a current := (Std.Total.total a current).resolve_right ((hbetter _ _).mp hlt)
      exact h.insert (hrefl a) (fun b hb hk ↦ IsTrans.trans _ _ _ hac (hbest b hb hk))
    · rename_i hlt
      have hca : r current a := by
        by_contra hn
        exact hlt ((hbetter _ _).mpr hn)
      constructor
      · intro k b hb
        obtain ⟨rfl, hbl, hb'⟩ := h.held k b hb
        refine ⟨rfl, mem_append_left _ hbl, fun c hc hck ↦ ?_⟩
        rcases mem_append.mp hc with hc | hc
        · exact hb' c hc hck
        · obtain rfl := mem_singleton.mp hc
          rw [hck, hb, Option.some.injEq] at hcurrent
          exact hcurrent ▸ hca
      · intro c hc
        rcases mem_append.mp hc with hc | hc
        · exact h.covers c hc
        · exact ⟨current, mem_singleton.mp hc ▸ hcurrent⟩

theorem HoldsBest.isSelection {l : List α} {best : AList (fun _ : κ ↦ α)}
    (h : HoldsBest key r l best) : IsSelection key r l (values best) := by
  have hkeys : (values best).map key = best.keys := by
    rw [values, map_map, AList.keys, List.keys]
    refine map_congr_left (fun p hp ↦ ?_)
    exact (h.held p.1 p.2 (AList.mem_lookup_iff.mpr hp)).1
  refine ⟨hkeys ▸ best.keys_nodup, fun a ha ↦ ?_, fun a ha ↦ ?_⟩
  · obtain ⟨k, hk⟩ := mem_values.mp ha
    obtain ⟨rfl, hal, hbest⟩ := h.held k a hk
    exact ⟨hal, hbest⟩
  · obtain ⟨b, hb⟩ := h.covers a ha
    exact ⟨b, mem_values.mpr ⟨_, hb⟩, (h.held _ _ hb).1⟩

theorem HoldsBest.foldl [Std.Total r] [IsTrans α r] (hbetter : ∀ a b, better a b = true ↔ ¬ r b a)
    (l : List α) : HoldsBest key r l (l.foldl (keepBest key better) ∅) := by
  induction l using List.reverseRecOn with
  | nil => exact .empty
  | append_singleton l a ih =>
    rw [foldl_append]
    exact ih.keep hbetter a

end KeepBest

end TalaPala.Library
