import Mathlib.Data.List.Nodup
import Mathlib.Data.List.Infix
import Mathlib.Data.List.Perm.Basic

namespace TalaPala.Library.GreedyGroups

open List

/-- A member of a group, with the edge that put it there; the item that started the
group has none. -/
structure Entry (α ε : Type*) where
  item : α
  edge : Option ε

variable {α ε : Type*} (compare : α → α → Option (Option ε)) (rank : ε → ℕ) (final : ε → Bool)

/-- The first edge of the least rank over the members of one group. A comparison
that fails (`none`) makes the whole scan fail. -/
def scanMembers (item : α) (index : ℕ) :
    Option (ℕ × ε) → List (Entry α ε) → Option (Option (ℕ × ε))
  | best, [] => some best
  | best, existing :: rest =>
    match compare item existing.item with
    | none => none
    | some none => scanMembers item index best rest
    | some (some edge) =>
      scanMembers item index
        (if best.all (fun (_, other) ↦ rank edge < rank other) then some (index, edge) else best)
        rest

def scanGroups (item : α) : ℕ → Option (ℕ × ε) → List (List (Entry α ε)) →
    Option (Option (ℕ × ε))
  | _, best, [] => some best
  | index, best, members :: rest =>
    match scanMembers compare rank item index best members with
    | none => none
    | some best =>
      if best.any (fun (_, edge) ↦ final edge) then some best
      else scanGroups item (index + 1) best rest

def place (groups : List (List (Entry α ε))) (item : α) : Option (List (List (Entry α ε))) :=
  (scanGroups compare rank final item 0 none groups).map (fun best ↦
    match best with
    | none => groups ++ [[⟨item, none⟩]]
    | some (index, edge) => groups.modify index (· ++ [⟨item, some edge⟩]))

def groupsFrom (groups : List (List (Entry α ε))) : List α → Option (List (List (Entry α ε)))
  | [] => some groups
  | item :: rest => (place compare rank final groups item).bind (fun next ↦ groupsFrom next rest)

variable {compare rank final}

section Scan

variable (rank) in
/-- What is known of the best edge after a scan: it is one of those found, and none of
those is of a lower rank. -/
structure BestOf (found : ℕ → ε → Prop) (best : Option (ℕ × ε)) : Prop where
  sound : ∀ index edge, best = some (index, edge) → found index edge
  least : ∀ index edge, found index edge → ∃ index' edge', best = some (index', edge') ∧
    rank edge' ≤ rank edge

variable {found found' : ℕ → ε → Prop} {best result : Option (ℕ × ε)}

theorem BestOf.congr (h : BestOf rank found best) (hiff : ∀ i edge, found i edge ↔ found' i edge) :
    BestOf rank found' best :=
  ⟨fun i edge heq ↦ (hiff i edge).mp (h.sound i edge heq),
    fun i edge hfound ↦ h.least i edge ((hiff i edge).mpr hfound)⟩

theorem BestOf.add (h : BestOf rank found best) (index : ℕ) (edge : ε) :
    BestOf rank (fun i e ↦ found i e ∨ i = index ∧ e = edge)
      (if best.all (fun (_, other) ↦ rank edge < rank other) then some (index, edge)
        else best) := by
  cases best with
  | none =>
    refine ⟨fun i e heq ↦ ?_, fun i e hfound ↦ ⟨index, edge, rfl, ?_⟩⟩
    · cases heq
      exact .inr ⟨rfl, rfl⟩
    · rcases hfound with hfound | ⟨-, rfl⟩
      · obtain ⟨_, _, heq, -⟩ := h.least i e hfound
        cases heq
      · exact le_rfl
  | some held =>
    obtain ⟨i₀, e₀⟩ := held
    by_cases hlt : rank edge < rank e₀
    · rw [if_pos (by simpa using hlt)]
      refine ⟨fun i e heq ↦ ?_, fun i e hfound ↦ ⟨index, edge, rfl, ?_⟩⟩
      · cases heq
        exact .inr ⟨rfl, rfl⟩
      · rcases hfound with hfound | ⟨-, rfl⟩
        · obtain ⟨_, _, heq, hle⟩ := h.least i e hfound
          cases heq
          exact hlt.le.trans hle
        · exact le_rfl
    · rw [if_neg (by simpa using hlt)]
      refine ⟨fun i e heq ↦ .inl (h.sound i e heq), fun i e hfound ↦ ?_⟩
      rcases hfound with hfound | ⟨-, rfl⟩
      · exact h.least i e hfound
      · exact ⟨i₀, e₀, rfl, not_lt.mp hlt⟩

theorem scanMembers_best {item : α} {index : ℕ} {members : List (Entry α ε)}
    (hbest : BestOf rank found best)
    (h : scanMembers compare rank item index best members = some result) :
    BestOf rank (fun i edge ↦ found i edge ∨
      i = index ∧ ∃ e ∈ members, compare item e.item = some (some edge)) result := by
  induction members generalizing best found with
  | nil =>
    obtain rfl := Option.some.inj h
    exact hbest.congr (by simp)
  | cons existing rest ih =>
    rw [scanMembers] at h
    split at h
    · cases h
    · rename_i hnone
      exact (ih hbest h).congr (by simp [hnone])
    · rename_i edge hedge
      refine (ih (hbest.add index edge) h).congr (fun i e ↦ ?_)
      simp only [mem_cons, exists_eq_or_imp, hedge, Option.some.injEq]
      constructor
      · rintro ((hfound | ⟨hi, rfl⟩) | ⟨hi, hrest⟩)
        · exact .inl hfound
        · exact .inr ⟨hi, .inl rfl⟩
        · exact .inr ⟨hi, .inr hrest⟩
      · rintro (hfound | ⟨hi, rfl | hrest⟩)
        · exact .inl (.inl hfound)
        · exact .inl (.inr ⟨hi, rfl⟩)
        · exact .inr ⟨hi, hrest⟩

theorem scanGroups_best (hfinal : ∀ edge, final edge → ∀ other, rank edge ≤ rank other) {item : α}
    {index : ℕ} {groups : List (List (Entry α ε))} (hbest : BestOf rank found best)
    (h : scanGroups compare rank final item index best groups = some result) :
    BestOf rank (fun i edge ↦ found i edge ∨ ∃ j g, groups[j]? = some g ∧ i = index + j ∧
      ∃ e ∈ g, compare item e.item = some (some edge)) result := by
  induction groups generalizing best found index with
  | nil =>
    obtain rfl := Option.some.inj h
    exact hbest.congr (by simp)
  | cons members rest ih =>
    rw [scanGroups] at h
    split at h
    · cases h
    rename_i next hnext
    have hmembers := scanMembers_best hbest hnext
    split at h
    · rename_i hstops
      obtain rfl := Option.some.inj h
      cases next with
      | none => cases hstops
      | some held =>
        obtain ⟨i₀, e₀⟩ := held
        refine ⟨fun i e heq ↦ ?_, fun i e _ ↦ ⟨i₀, e₀, rfl, hfinal e₀ hstops e⟩⟩
        rcases hmembers.sound i e heq with hfound | ⟨rfl, hmem⟩
        · exact .inl hfound
        · exact .inr ⟨0, members, rfl, rfl, hmem⟩
    · refine (ih hmembers h).congr (fun i e ↦ ?_)
      constructor
      · rintro ((hfound | ⟨rfl, hmem⟩) | ⟨j, g, hg, rfl, hmem⟩)
        · exact .inl hfound
        · exact .inr ⟨0, members, rfl, rfl, hmem⟩
        · exact .inr ⟨j + 1, g, hg, by omega, hmem⟩
      · rintro (hfound | ⟨j, g, hg, rfl, hmem⟩)
        · exact .inl (.inl hfound)
        · cases j with
          | zero =>
            obtain rfl := Option.some.inj hg
            exact .inl (.inr ⟨rfl, hmem⟩)
          | succ j => exact .inr ⟨j, g, hg, by omega, hmem⟩

theorem scanMembers_isSome {item : α} {index : ℕ} {members : List (Entry α ε)}
    (h : ∀ e ∈ members, (compare item e.item).isSome) (best : Option (ℕ × ε)) :
    (scanMembers compare rank item index best members).isSome := by
  induction members generalizing best with
  | nil => rfl
  | cons existing rest ih =>
    obtain ⟨hhead, hrest⟩ := forall_mem_cons.mp h
    rw [scanMembers]
    split
    · rename_i hnone
      rw [hnone] at hhead
      cases hhead
    · exact ih hrest _
    · exact ih hrest _

theorem scanMembers_compares {item : α} {index : ℕ} {members : List (Entry α ε)}
    (h : scanMembers compare rank item index best members = some result) :
    ∀ e ∈ members, (compare item e.item).isSome := by
  induction members generalizing best with
  | nil => simp
  | cons existing rest ih =>
    rw [scanMembers] at h
    split at h
    · cases h
    all_goals
      rename_i heq
      exact forall_mem_cons.mpr ⟨by rw [heq]; rfl, ih h⟩

theorem scanMembers_held {item : α} {index : ℕ} {members : List (Entry α ε)}
    (h : scanMembers compare rank item index best members = some result) :
    BestOf rank (fun i edge ↦ best = some (i, edge) ∨
      i = index ∧ ∃ e ∈ members, compare item e.item = some (some edge)) result :=
  scanMembers_best ⟨fun _ _ heq ↦ heq, fun i edge heq ↦ ⟨i, edge, heq, le_rfl⟩⟩ h

theorem scanGroups_compares {item : α} {index : ℕ} {groups : List (List (Entry α ε))}
    (h : scanGroups compare rank final item index best groups = some result)
    (hbest : ∀ i edge, best = some (i, edge) → i < index) {j : ℕ} {g : List (Entry α ε)}
    (hg : groups[j]? = some g) {e : Entry α ε} (he : e ∈ g) (hfails : compare item e.item = none) :
    ∃ i edge, result = some (i, edge) ∧ final edge ∧ i < index + j := by
  induction groups generalizing best index j with
  | nil => cases hg
  | cons members rest ih =>
    rw [scanGroups] at h
    split at h
    · cases h
    rename_i next hnext
    have hlate : ∀ i edge, next = some (i, edge) → i < index + 1 := by
      intro i edge heq
      rcases (scanMembers_held hnext).sound i edge heq with hold | ⟨rfl, -⟩
      · exact (hbest i edge hold).trans (Nat.lt_succ_self _)
      · exact Nat.lt_succ_self _
    cases j with
    | zero =>
      obtain rfl := Option.some.inj hg
      have hsome := scanMembers_compares hnext e he
      rw [hfails] at hsome
      cases hsome
    | succ j =>
      split at h
      · rename_i hstops
        obtain rfl := Option.some.inj h
        obtain ⟨⟨i, edge⟩, heq, hfinal⟩ := Option.any_eq_true _ _ |>.mp hstops
        exact ⟨i, edge, heq, hfinal, by have := hlate i edge heq; omega⟩
      · obtain ⟨i, edge, heq, hfinal, hlt⟩ := ih h hlate hg
        exact ⟨i, edge, heq, hfinal, by omega⟩

variable (compare final) in
def Comparable (groups : List (List (Entry α ε))) (item : α) : Prop :=
  ∀ (j : ℕ) (g : List (Entry α ε)), groups[j]? = some g →
    (∀ (i : ℕ) (g' : List (Entry α ε)), i < j → groups[i]? = some g' → ∀ e ∈ g', ∀ edge,
      compare item e.item = some (some edge) → ¬final edge) →
    ∀ e ∈ g, (compare item e.item).isSome

theorem scanGroups_isSome {item : α} {index : ℕ} {groups : List (List (Entry α ε))}
    (hup : ∀ edge other, final other → rank edge ≤ rank other → final edge)
    (hbest : ∀ i edge, best = some (i, edge) → ¬final edge)
    (h : Comparable compare final groups item) :
    (scanGroups compare rank final item index best groups).isSome := by
  induction groups generalizing best index with
  | nil => rfl
  | cons members rest ih =>
    have hhead := h 0 members rfl (fun i _ hi ↦ absurd hi (Nat.not_lt_zero i))
    have hsome : (scanMembers compare rank item index best members).isSome :=
      scanMembers_isSome hhead best
    rw [scanGroups]
    split
    · rename_i hnone
      rw [hnone] at hsome
      cases hsome
    rename_i next hnext
    split
    · rfl
    · rename_i hgoes
      have hnext' : ∀ i edge, next = some (i, edge) → ¬final edge := by
        rintro i edge rfl hfinal
        exact hgoes (by simpa using hfinal)
      refine ih hnext' (fun j g hg hbefore ↦ h (j + 1) g hg (fun i g' hi hg' e he edge hedge ↦ ?_))
      cases i with
      | zero =>
        obtain rfl := Option.some.inj hg'
        obtain ⟨i', edge', heq, hle⟩ := (scanMembers_held hnext).least index edge (.inr ⟨rfl, e, he, hedge⟩)
        exact fun hfinal ↦ hnext' i' edge' heq (hup edge' edge hfinal hle)
      | succ i => exact hbefore i g' (by omega) hg' e he edge hedge

end Scan

variable (compare rank final) in
inductive Placed (groups : List (List (Entry α ε))) (item : α) :
    List (List (Entry α ε)) → Prop
  | opens : (∀ g ∈ groups, ∀ e ∈ g, compare item e.item = some none) →
      Placed groups item (groups ++ [[⟨item, none⟩]])
  | joins (index : ℕ) (g : List (Entry α ε)) (existing : Entry α ε) (edge : ε) :
      groups[index]? = some g → existing ∈ g → compare item existing.item = some (some edge) →
      (∀ g' ∈ groups, ∀ e ∈ g', ∀ other, compare item e.item = some (some other) →
        rank edge ≤ rank other) →
      (∀ (j : ℕ) (g' : List (Entry α ε)), groups[j]? = some g' → ∀ e ∈ g',
        compare item e.item = none → final edge ∧ index < j) →
      Placed groups item (groups.modify index (· ++ [⟨item, some edge⟩]))

theorem placed_of_place (hfinal : ∀ edge, final edge → ∀ other, rank edge ≤ rank other)
    {groups next : List (List (Entry α ε))} {item : α}
    (h : place compare rank final groups item = some next) :
    Placed compare rank final groups item next := by
  obtain ⟨best, hscan, rfl⟩ := Option.map_eq_some_iff.mp h
  have hstart : BestOf rank (fun _ (_ : ε) ↦ False) none :=
    ⟨fun _ _ heq ↦ (nomatch heq), fun _ _ hfalse ↦ hfalse.elim⟩
  have hbest := scanGroups_best hfinal hstart hscan
  have hleast : ∀ g ∈ groups, ∀ e ∈ g, ∀ edge, compare item e.item = some (some edge) →
      ∃ index' edge', best = some (index', edge') ∧ rank edge' ≤ rank edge := by
    intro g hg e he edge hedge
    obtain ⟨j, hj⟩ := mem_iff_getElem?.mp hg
    exact hbest.least j edge (.inr ⟨j, g, hj, (Nat.zero_add j).symm, e, he, hedge⟩)
  have hfails : ∀ (j : ℕ) (g : List (Entry α ε)), groups[j]? = some g → ∀ e ∈ g,
      compare item e.item = none → ∃ i edge, best = some (i, edge) ∧ final edge ∧ i < j := by
    intro j g hg e he hnone
    have hscanned := scanGroups_compares hscan (by simp) hg he hnone
    rwa [Nat.zero_add] at hscanned
  cases best with
  | none =>
    refine .opens (fun g hg e he ↦ ?_)
    cases hcompare : compare item e.item with
    | none =>
      obtain ⟨j, hj⟩ := mem_iff_getElem?.mp hg
      obtain ⟨_, _, heq, -⟩ := hfails j g hj e he hcompare
      cases heq
    | some found =>
      cases found with
      | none => rfl
      | some edge =>
        obtain ⟨_, _, heq, -⟩ := hleast g hg e he edge hcompare
        cases heq
  | some held =>
    obtain ⟨index, edge⟩ := held
    obtain hfalse | ⟨j, g, hg, hj, existing, hmem, hedge⟩ := hbest.sound index edge rfl
    · exact hfalse.elim
    · rw [Nat.zero_add] at hj
      refine .joins index g existing edge (hj ▸ hg) hmem hedge
        (fun g' hg' e he other hother ↦ ?_) (fun k g' hg' e he hnone ↦ ?_)
      · obtain ⟨_, _, heq, hle⟩ := hleast g' hg' e he other hother
        cases heq
        exact hle
      · obtain ⟨_, _, heq, hends, hlt⟩ := hfails k g' hg' e he hnone
        cases heq
        exact ⟨hends, hlt⟩

section Groups

def items (groups : List (List (Entry α ε))) : List α := groups.flatten.map Entry.item

variable {groups next : List (List (Entry α ε))} {item : α}

theorem items_perm_of_modify {index : ℕ} {g : List (Entry α ε)} (hg : groups[index]? = some g)
    (entry : Entry α ε) :
    (items (groups.modify index (· ++ [entry]))).Perm (entry.item :: items groups) := by
  induction groups generalizing index with
  | nil => cases hg
  | cons members rest ih =>
    cases index with
    | zero =>
      simp only [items, modify_zero_cons, flatten_cons, map_append, map_cons,
        append_assoc, singleton_append]
      exact perm_middle
    | succ index =>
      have hrest := (ih hg).append_left (members.map Entry.item)
      simp only [items, modify_succ_cons, flatten_cons, map_append] at hrest ⊢
      exact hrest.trans perm_middle

theorem Placed.items_perm (h : Placed compare rank final groups item next) :
    (items next).Perm (item :: items groups) := by
  cases h with
  | opens => simp [items]
  | joins index g existing edge hg => exact items_perm_of_modify hg _

theorem Placed.extends (h : Placed compare rank final groups item next) {i : ℕ} {g : List (Entry α ε)}
    (hg : groups[i]? = some g) : ∃ g', next[i]? = some g' ∧ g <+: g' := by
  cases h with
  | opens =>
    refine ⟨g, ?_, prefix_rfl⟩
    rw [getElem?_append_left (List.getElem?_eq_some_iff.mp hg).1]
    exact hg
  | joins index _ _ edge =>
    rw [getElem?_modify, hg]
    by_cases hi : index = i
    · exact ⟨g ++ [⟨item, some edge⟩], by simp [hi], prefix_append _ _⟩
    · exact ⟨g, by simp [hi], prefix_rfl⟩

structure Grown (compare : α → α → Option (Option ε)) (placed : List α)
    (groups : List (List (Entry α ε))) : Prop where
  perm : (items groups).Perm placed
  nonempty : ∀ g ∈ groups, g ≠ []
  ordered : ∀ g ∈ groups, (g.map Entry.item).Sublist placed
  edges : ∀ g ∈ groups, ∀ front e rest, g = front ++ e :: rest →
    (front = [] ∧ e.edge = none) ∨
      ∃ existing ∈ front, ∃ edge, e.edge = some edge ∧
        compare e.item existing.item = some (some edge)

theorem Grown.start : Grown compare [] [] := ⟨.nil, by simp, by simp, by simp⟩

theorem Placed.grown {placed : List α} (h : Placed compare rank final groups item next)
    (hgrown : Grown compare placed groups) : Grown compare (placed ++ [item]) next := by
  have hperm : (items next).Perm (placed ++ [item]) :=
    (h.items_perm.trans (hgrown.perm.cons item)).trans (perm_append_singleton _ _).symm
  cases h with
  | opens =>
    refine ⟨hperm, fun g hg ↦ ?_, fun g hg ↦ ?_, fun g hg front e rest heq ↦ ?_⟩
    all_goals rcases mem_append.mp hg with hg | hg
    · exact hgrown.nonempty g hg
    · obtain rfl := mem_singleton.mp hg
      exact cons_ne_nil _ _
    · exact (hgrown.ordered g hg).trans (sublist_append_left _ _)
    · obtain rfl := mem_singleton.mp hg
      exact sublist_append_right _ _
    · exact hgrown.edges g hg front e rest heq
    · obtain rfl := mem_singleton.mp hg
      left
      cases front with
      | nil =>
        obtain ⟨rfl, -⟩ := List.cons.inj heq
        exact ⟨rfl, rfl⟩
      | cons _ _ => simp at heq
  | joins index g existing edge hg hmem hedge =>
    have hcases : ∀ g' ∈ groups.modify index (· ++ [⟨item, some edge⟩]), g' ∈ groups ∨
        g' = g ++ [⟨item, some edge⟩] := by
      intro g' hg'
      obtain ⟨i, hi⟩ := mem_iff_getElem?.mp hg'
      rw [getElem?_modify] at hi
      split at hi
      · rename_i hsame
        subst hsame
        rw [hg] at hi
        exact .inr (Option.some.inj hi).symm
      · obtain ⟨g₀, hg₀, rfl⟩ := Option.map_eq_some_iff.mp hi
        exact .inl (mem_of_getElem? hg₀)
    have hgmem := mem_of_getElem? hg
    refine ⟨hperm, fun g' hg' ↦ ?_, fun g' hg' ↦ ?_, fun g' hg' front e rest heq ↦ ?_⟩
    all_goals rcases hcases g' hg' with hold | rfl
    · exact hgrown.nonempty g' hold
    · simp
    · exact (hgrown.ordered g' hold).trans (sublist_append_left _ _)
    · rw [map_append]
      exact (hgrown.ordered g hgmem).append (List.Sublist.refl [item])
    · exact hgrown.edges g' hold front e rest heq
    · rcases eq_nil_or_concat rest with rfl | ⟨rest', last, rfl⟩
      · obtain ⟨rfl, hlast⟩ := append_inj' heq rfl
        obtain ⟨rfl, -⟩ := List.cons.inj hlast
        exact .inr ⟨existing, hmem, edge, rfl, hedge⟩
      · rw [concat_eq_append, ← cons_append, ← append_assoc] at heq
        obtain ⟨hfront, -⟩ := append_inj' heq rfl
        exact hgrown.edges g hgmem front e rest' hfront

end Groups

section Runs

variable {groups groups' : List (List (Entry α ε))} {placed rest : List α}

theorem groupsFrom_append (placed rest : List α) :
    groupsFrom compare rank final groups (placed ++ rest) =
      (groupsFrom compare rank final groups placed).bind
        (fun next ↦ groupsFrom compare rank final next rest) := by
  induction placed generalizing groups with
  | nil => rfl
  | cons item tail ih =>
    simp only [cons_append, groupsFrom, ih, Option.bind_assoc]

theorem groupsFrom_grown (hfinal : ∀ edge, final edge → ∀ other, rank edge ≤ rank other)
    (hgrown : Grown compare placed groups)
    (h : groupsFrom compare rank final groups rest = some groups') :
    Grown compare (placed ++ rest) groups' := by
  induction rest generalizing placed groups with
  | nil =>
    obtain rfl := Option.some.inj h
    rwa [append_nil]
  | cons item tail ih =>
    obtain ⟨next, hplace, htail⟩ := Option.bind_eq_some_iff.mp h
    have hnext := ih ((placed_of_place hfinal hplace).grown hgrown) htail
    rwa [append_assoc] at hnext

theorem groupsFrom_extends (hfinal : ∀ edge, final edge → ∀ other, rank edge ≤ rank other)
    (h : groupsFrom compare rank final groups rest = some groups') {i : ℕ}
    {g : List (Entry α ε)} (hg : groups[i]? = some g) : ∃ g', groups'[i]? = some g' ∧ g <+: g' := by
  induction rest generalizing groups g with
  | nil =>
    obtain rfl := Option.some.inj h
    exact ⟨g, hg, prefix_rfl⟩
  | cons item tail ih =>
    obtain ⟨next, hplace, htail⟩ := Option.bind_eq_some_iff.mp h
    obtain ⟨g₁, hg₁, hgrown⟩ := (placed_of_place hfinal hplace).extends hg
    obtain ⟨g₂, hg₂, hgrown'⟩ := ih htail hg₁
    exact ⟨g₂, hg₂, hgrown.trans hgrown'⟩

theorem place_isSome_iff (hfinal : ∀ edge, final edge → ∀ other, rank edge ≤ rank other)
    (hup : ∀ edge other, final other → rank edge ≤ rank other → final edge) {item : α} :
    (place compare rank final groups item).isSome ↔ Comparable compare final groups item := by
  rw [place, Option.isSome_map]
  constructor
  · intro hscan j g hg hbefore e he
    obtain ⟨best, hbest⟩ := Option.isSome_iff_exists.mp hscan
    by_contra hnone
    rw [Option.not_isSome_iff_eq_none] at hnone
    obtain ⟨i, edge, rfl, hends, hlt⟩ := scanGroups_compares hbest (by simp) hg he hnone
    have hstart : BestOf rank (fun _ (_ : ε) ↦ False) none :=
      ⟨fun _ _ heq ↦ (nomatch heq), fun _ _ hfalse ↦ hfalse.elim⟩
    obtain hfalse | ⟨k, g', hg', rfl, existing, hmem, hedge⟩ :=
      (scanGroups_best hfinal hstart hbest).sound i edge rfl
    · exact hfalse
    · exact hbefore k g' (by omega) hg' existing hmem edge hedge hends
  · exact scanGroups_isSome hup (by simp)

variable (compare rank final) in
def AllComparable (l : List α) : Prop :=
  ∀ front item rest groups, l = front ++ item :: rest →
    groupsFrom compare rank final [] front = some groups → Comparable compare final groups item

theorem groupsFrom_isSome_iff (hfinal : ∀ edge, final edge → ∀ other, rank edge ≤ rank other)
    (hup : ∀ edge other, final other → rank edge ≤ rank other → final edge) {l : List α} :
    (groupsFrom compare rank final [] l).isSome ↔ AllComparable compare rank final l := by
  constructor
  · rintro hsome front item rest groups rfl hfront
    rw [groupsFrom_append, hfront, Option.bind_some, groupsFrom] at hsome
    exact (place_isSome_iff hfinal hup).mp (Option.isSome_of_isSome_bind hsome)
  · intro hall
    induction l using List.reverseRecOn with
    | nil => rfl
    | append_singleton front item ih =>
      have hfront := ih (fun front' item' rest groups heq ↦
        hall front' item' (rest ++ [item]) groups (by rw [heq]; simp))
      obtain ⟨groups, hgroups⟩ := Option.isSome_iff_exists.mp hfront
      have hplace := (place_isSome_iff hfinal hup).mpr (hall front item [] groups rfl hgroups)
      obtain ⟨next, hnext⟩ := Option.isSome_iff_exists.mp hplace
      rw [groupsFrom_append, hgroups, Option.bind_some, groupsFrom, hnext]
      rfl

end Runs

section Identity

def Together (groups : List (List (Entry α ε))) (a b : α) : Prop :=
  ∃ g ∈ groups, a ∈ g.map Entry.item ∧ b ∈ g.map Entry.item

def LinksOne (alike : α → α → Prop) (groups : List (List (Entry α ε))) (item : α) : Prop :=
  ∀ (i j : ℕ) (g g' : List (Entry α ε)), groups[i]? = some g → groups[j]? = some g' →
    (∃ e ∈ g, alike item e.item) → (∃ e ∈ g', alike item e.item) → i = j

variable (compare rank final) in
def Bridgeless (alike : α → α → Prop) (l : List α) : Prop :=
  ∀ front item rest groups, l = front ++ item :: rest →
    groupsFrom compare rank final [] front = some groups → LinksOne alike groups item

variable (compare rank final) in
structure Identifies (alike : α → α → Prop) (strong : ε → Prop) : Prop where
  found : ∀ a b result, alike a b → compare a b = some result →
    ∃ edge, result = some edge ∧ strong edge
  final_strong : ∀ edge, final edge → strong edge
  strong_alike : ∀ a b edge, compare a b = some (some edge) → strong edge → alike a b
  ranked : ∀ edge other, strong other → rank edge ≤ rank other → strong edge
  symm : ∀ a b, alike a b → alike b a

variable {groups next : List (List (Entry α ε))} {alike : α → α → Prop} {strong : ε → Prop}

theorem mem_items {a : α} : a ∈ items groups ↔ ∃ g ∈ groups, a ∈ g.map Entry.item := by
  simp only [items, mem_map, mem_flatten]
  constructor
  · rintro ⟨e, ⟨g, hg, he⟩, rfl⟩
    exact ⟨g, hg, e, he, rfl⟩
  · rintro ⟨g, hg, e, he, rfl⟩
    exact ⟨e, ⟨g, hg, he⟩, rfl⟩

theorem index_unique (hnodup : (items groups).Nodup) {i j : ℕ} {g g' : List (Entry α ε)}
    (hg : groups[i]? = some g) (hg' : groups[j]? = some g') {a : α} (ha : a ∈ g.map Entry.item)
    (ha' : a ∈ g'.map Entry.item) : i = j := by
  rw [items, map_flatten, nodup_flatten] at hnodup
  have hi : (groups.map (List.map Entry.item))[i]? = some (g.map Entry.item) := by
    rw [getElem?_map, hg]
    rfl
  have hj : (groups.map (List.map Entry.item))[j]? = some (g'.map Entry.item) := by
    rw [getElem?_map, hg']
    rfl
  obtain ⟨hilt, hieq⟩ := List.getElem?_eq_some_iff.mp hi
  obtain ⟨hjlt, hjeq⟩ := List.getElem?_eq_some_iff.mp hj
  have hdisjoint := pairwise_iff_getElem.mp hnodup.2
  rcases lt_trichotomy i j with hlt | heq | hlt
  · have hapart := hdisjoint i j hilt hjlt hlt
    rw [hieq, hjeq] at hapart
    exact (hapart ha ha').elim
  · exact heq
  · have hapart := hdisjoint j i hjlt hilt hlt
    rw [hieq, hjeq] at hapart
    exact (hapart ha' ha).elim

theorem Together.of_extends {a b : α} (h : Together groups a b)
    (hextends : ∀ (i : ℕ) (g : List (Entry α ε)), groups[i]? = some g →
      ∃ g', next[i]? = some g' ∧ g <+: g') : Together next a b := by
  obtain ⟨g, hg, ha, hb⟩ := h
  obtain ⟨i, hi⟩ := mem_iff_getElem?.mp hg
  obtain ⟨g', hg', hgrown⟩ := hextends i g hi
  exact ⟨g', mem_of_getElem? hg', (hgrown.map _).subset ha, (hgrown.map _).subset hb⟩

theorem Together.symm {a b : α} (h : Together groups a b) : Together groups b a := by
  obtain ⟨g, hg, ha, hb⟩ := h
  exact ⟨g, hg, hb, ha⟩

theorem Placed.together {item b : α} (h : Placed compare rank final groups item next)
    (hid : Identifies compare rank final alike strong) (hone : LinksOne alike groups item)
    (hb : b ∈ items groups) (hab : alike item b) : Together next item b := by
  obtain ⟨g, hg, hmem⟩ := mem_items.mp hb
  obtain ⟨e, he, rfl⟩ := mem_map.mp hmem
  obtain ⟨i, hi⟩ := mem_iff_getElem?.mp hg
  cases h with
  | opens hnone =>
    obtain ⟨edge, heq, -⟩ := hid.found item e.item none hab (hnone g hg e he)
    cases heq
  | joins index g' existing found hg' hexisting hfound hleast hfails =>
    have hfoundStrong : strong found := by
      cases hcompare : compare item e.item with
      | none => exact hid.final_strong found (hfails i g hi e he hcompare).1
      | some result =>
        obtain ⟨edge, rfl, hedgeStrong⟩ := hid.found item e.item result hab hcompare
        exact hid.ranked found edge hedgeStrong (hleast g hg e he edge hcompare)
    have hsame : index = i := hone index i g' g hg' hi
      ⟨existing, hexisting, hid.strong_alike _ _ _ hfound hfoundStrong⟩ ⟨e, he, hab⟩
    subst hsame
    rw [hg', Option.some.injEq] at hi
    subst hi
    refine ⟨g' ++ [⟨item, some found⟩], ?_, by simp, ?_⟩
    · refine mem_of_getElem? (i := index) ?_
      rw [getElem?_modify_eq, hg']
      rfl
    · rw [map_append]
      exact mem_append_left _ hmem

theorem together_of_bridgeless (hfinal : ∀ edge, final edge → ∀ other, rank edge ≤ rank other)
    (hid : Identifies compare rank final alike strong) {l : List α}
    (hbridgeless : Bridgeless compare rank final alike l)
    (h : groupsFrom compare rank final [] l = some groups) :
    ∀ a ∈ l, ∀ b ∈ l, alike a b → Together groups a b := by
  induction l using List.reverseRecOn generalizing groups with
  | nil => exact fun _ ha ↦ nomatch ha
  | append_singleton front item ih =>
    rw [groupsFrom_append] at h
    obtain ⟨before, hbefore, hlast⟩ := Option.bind_eq_some_iff.mp h
    obtain ⟨next, hplace, hdone⟩ := Option.bind_eq_some_iff.mp hlast
    obtain rfl := Option.some.inj hdone
    have hplaced := placed_of_place hfinal hplace
    have hgrown : Grown compare ([] ++ front) before :=
      groupsFrom_grown hfinal .start hbefore
    have hone := hbridgeless front item [] before rfl hbefore
    have hfront := ih (fun front' item' rest groups heq ↦
      hbridgeless front' item' (rest ++ [item]) groups (by rw [heq]; simp)) hbefore
    have hitem : ∀ b ∈ front, alike item b → Together next item b := fun b hb hab ↦
      hplaced.together hid hone (hgrown.perm.mem_iff.mpr hb) hab
    intro a ha b hb hab
    rcases mem_append.mp ha with ha' | ha' <;> rcases mem_append.mp hb with hb' | hb'
    · exact (hfront a ha' b hb' hab).of_extends (fun i g hg ↦ hplaced.extends hg)
    · obtain rfl := mem_singleton.mp hb'
      exact (hitem a ha' (hid.symm _ _ hab)).symm
    · obtain rfl := mem_singleton.mp ha'
      exact hitem b hb' hab
    · obtain rfl := mem_singleton.mp ha'
      obtain rfl := mem_singleton.mp hb'
      obtain ⟨g, hg, hmem⟩ := mem_items.mp (hplaced.items_perm.mem_iff.mpr mem_cons_self)
      exact ⟨g, hg, hmem, hmem⟩

theorem bridgeless_of_together (hfinal : ∀ edge, final edge → ∀ other, rank edge ≤ rank other)
    {l : List α} (hnodup : l.Nodup) (h : groupsFrom compare rank final [] l = some groups)
    (htogether : ∀ a ∈ l, ∀ b ∈ l, alike a b → Together groups a b) :
    Bridgeless compare rank final alike l := by
  rintro front item rest before rfl hbefore i j g g' hg hg' ⟨e, he, hlike⟩ ⟨e', he', hlike'⟩
  have hgrown : Grown compare ([] ++ (front ++ item :: rest)) groups :=
    groupsFrom_grown hfinal .start h
  have hunique : (items groups).Nodup := hgrown.perm.nodup_iff.mpr hnodup
  have hfront : Grown compare ([] ++ front) before :=
    groupsFrom_grown hfinal .start hbefore
  rw [groupsFrom_append, hbefore, Option.bind_some] at h
  have hindex : ∀ (k : ℕ) (m : List (Entry α ε)) (x : Entry α ε), before[k]? = some m → x ∈ m →
      alike item x.item → ∃ m', groups[k]? = some m' ∧ item ∈ m'.map Entry.item := by
    intro k m x hm hx hlike
    obtain ⟨m', hm', hgrown⟩ := groupsFrom_extends hfinal h hm
    have hxmem : x.item ∈ front := hfront.perm.mem_iff.mp
      (mem_items.mpr ⟨m, mem_of_getElem? hm, mem_map.mpr ⟨x, hx, rfl⟩⟩)
    obtain ⟨c, hc, hitem, hxc⟩ := htogether item (by simp) x.item (by simp [hxmem]) hlike
    obtain ⟨k', hk'⟩ := mem_iff_getElem?.mp hc
    have hsame := index_unique hunique hm' hk'
      ((hgrown.map _).subset (mem_map.mpr ⟨x, hx, rfl⟩)) hxc
    subst hsame
    rw [hm', Option.some.injEq] at hk'
    subst hk'
    exact ⟨m', hm', hitem⟩
  obtain ⟨m, hm, hitem⟩ := hindex i g e hg he hlike
  obtain ⟨m', hm', hitem'⟩ := hindex j g' e' hg' he' hlike'
  exact index_unique hunique hm hm' hitem hitem'

end Identity

end TalaPala.Library.GreedyGroups
