import TalaPala.Bourse.SectorBuild

namespace TalaPala.Bourse

open Library

def Posting.amount (p : Posting) : FlowAcc := FlowAcc.ofRow p.row.flow p.row.tier p.listing

theorem FlowAcc.addRow_eq (a : FlowAcc) (p : Posting) : a.addRow p = a + p.amount :=
  a.add_eq p.row.flow p.row.tier p.listing

namespace SectorFlowInput

variable (inp : SectorFlowInput)

section Postings

theorem mem_byShare {code : String} {r : TieredRow} : r ∈ inp.byShare code ↔
    ∃ row ∈ inp.rows, row.insCode = code ∧ inp.place row = some r := by
  rw [byShare, List.mem_insertionSort, placedRows]
  simp only [List.mem_filterMap, List.mem_filter, decide_eq_true_eq, and_assoc]

def posting (r : MarketRow) : Option Posting :=
  (inp.place r).map (fun t ↦ ⟨r.insCode, (inp.metaOf r.insCode).sectorCode,
    inp.listing r.insCode = some t.day, t⟩)

def entries : List Posting := inp.rows.filterMap inp.posting

theorem mem_codes {code : String} : code ∈ inp.codes ↔
    (∃ r ∈ inp.rows, (inp.place r).isSome ∧ r.insCode = code) ∨
      ∃ m ∈ inp.shares, m.listed ∧ m.insCode = code := by
  simp [codes, mem_keys, and_assoc]

theorem nodup_codes : inp.codes.Nodup := nodup_keys _

theorem map_placedRows (code : String) :
    (inp.placedRows code).map (fun r ↦ (⟨code, (inp.metaOf code).sectorCode,
      inp.listing code = some r.day, r⟩ : Posting)) =
      (inp.rows.filter (fun r ↦ r.insCode = code)).filterMap inp.posting := by
  rw [placedRows, List.map_filterMap]
  refine List.filterMap_congr (fun r hr ↦ ?_)
  have hcode : r.insCode = code := of_decide_eq_true (List.mem_filter.mp hr).2
  rw [posting, hcode]

theorem postings_perm : inp.postings.Perm inp.entries := by
  have hkey : ∀ r ∈ inp.rows, (inp.posting r).isSome → r.insCode ∈ inp.codes := by
    intro r hr hsome
    rw [posting, Option.isSome_map] at hsome
    exact inp.mem_codes.mpr (.inl ⟨r, hr, hsome, rfl⟩)
  refine .trans ?_ (flatMap_accounts_perm inp.nodup_codes hkey)
  refine List.Perm.flatMap_left _ (fun code _ ↦ ?_)
  rw [← inp.map_placedRows code]
  exact (List.perm_insertionSort _ _).map _

theorem mem_entries {p : Posting} (h : p ∈ inp.entries) :
    p.code ∈ inp.codes ∧ p.sec = (inp.metaOf p.code).sectorCode := by
  obtain ⟨r, hr, hp⟩ := List.mem_filterMap.mp h
  obtain ⟨t, ht, rfl⟩ := Option.map_eq_some_iff.mp hp
  exact ⟨inp.mem_codes.mpr (.inl ⟨r, hr, by rw [ht]; rfl, rfl⟩), rfl⟩

end Postings

section Accounts

def total (q : Posting → Bool) : FlowAcc := ((inp.entries.filter q).map Posting.amount).sum

theorem read_books {M : Type*} [AddCommMonoid M] (read : Books → M) {q : Posting → Bool}
    {amount : Posting → M} (hempty : read .empty = 0)
    (hpost : ∀ s p, read (inp.post s p) = if q p then read s + amount p else read s) :
    read inp.books = ((inp.entries.filter q).map amount).sum := by
  have hstep : ∀ s p, read (inp.post s p) = read s + if q p then amount p else 0 := by
    intro s p
    rw [hpost]
    cases q p <;> simp
  rw [books, foldl_post read hstep, hempty, zero_add, ← sum_filter]
  exact ((inp.postings_perm.filter q).map _).sum_eq

theorem shareAcc_eq (code : String) (n : ℕ) :
    inp.shareAcc code n = inp.total (fun p ↦ p.code = code ∧ inp.inWindow n p) :=
  inp.read_books (fun s ↦ s.acc code n) rfl (fun s p ↦ by simp [post, FlowAcc.addRow_eq])

theorem sectorBlocks_eq (sec : String) (b : ℕ) :
    inp.books.sectorBlocks sec b = inp.total (fun p ↦ p.sec = sec ∧ inp.inBlock b p) :=
  inp.read_books (fun s ↦ s.sectorBlocks sec b) rfl
    (fun s p ↦ by simp [post, FlowAcc.addRow_eq])

theorem marketBlocks_eq (b : ℕ) : inp.books.marketBlocks b = inp.total (inp.inBlock b) :=
  inp.read_books (fun s ↦ s.marketBlocks b) rfl (fun s p ↦ by simp [post, FlowAcc.addRow_eq])

theorem sectorPrev_eq (sec : String) (n : ℕ) : inp.books.sectorPrev sec n =
    ((inp.entries.filter (fun p ↦ p.sec = sec ∧ inp.inPrevious n p)).map (·.row.flow.buy)).sum :=
  inp.read_books (fun s ↦ s.sectorPrev sec n) rfl (fun s p ↦ by simp [post])

theorem sectorPrevRows_eq (sec : String) (n : ℕ) : inp.books.sectorPrevRows sec n =
    ((inp.entries.filter (fun p ↦ p.sec = sec ∧ inp.inPrevious n p)).map (fun _ ↦ 1)).sum :=
  inp.read_books (fun s ↦ s.sectorPrevRows sec n) rfl (fun s p ↦ by simp [post])

theorem marketPrev_eq (n : ℕ) : inp.books.marketPrev n =
    ((inp.entries.filter (inp.inPrevious n)).map (·.row.flow.buy)).sum :=
  inp.read_books (fun s ↦ s.marketPrev n) rfl (fun s p ↦ by simp [post])

theorem sum_shareAcc {codes : List String} (hnodup : codes.Nodup) (n : ℕ) :
    (codes.map (fun code ↦ inp.shareAcc code n)).sum =
      inp.total (fun p ↦ p.code ∈ codes ∧ inp.inWindow n p) := by
  let mine := inp.entries.filter (fun p ↦ p.code ∈ codes ∧ inp.inWindow n p)
  have hkey : ∀ p ∈ mine, p.code ∈ codes := fun p hp ↦
    (of_decide_eq_true (List.mem_filter.mp hp).2).1
  have hshare : ∀ code ∈ codes, inp.shareAcc code n =
      ((mine.filter (fun p ↦ p.code = code)).map Posting.amount).sum := by
    intro code hcode
    rw [shareAcc_eq, total, List.filter_filter]
    refine congrArg (fun l ↦ (List.map Posting.amount l).sum) (List.filter_congr (fun p _ ↦ ?_))
    by_cases hp : p.code = code
    · simp [hp, hcode]
    · simp [hp]
  rw [List.map_congr_left hshare, sum_accounts hnodup hkey]
  rfl

theorem foldl_merge {ι : Type*} (f : ι → FlowAcc) (l : List ι) :
    l.foldl (fun a i ↦ a.merge (f i)) .empty = (l.map f).sum := by
  have hstep : ∀ (a : FlowAcc) (i : ι), id (a.merge (f i)) = id a + f i := fun _ _ ↦ rfl
  have h := foldl_post id hstep l FlowAcc.empty
  rwa [id, id, FlowAcc.empty_eq_zero, zero_add] at h

theorem nodup_secCodes : inp.secCodes.Nodup := nodup_keys _

theorem nodup_companyKeys : inp.companyKeys.Nodup := nodup_keys _

theorem nodup_sectorMembers (sec : String) : (inp.sectorMembers sec).Nodup :=
  inp.nodup_codes.filter _

theorem sectorAcc_eq_sum (sec : String) (n : ℕ) :
    inp.sectorAcc sec n = ((inp.sectorMembers sec).map (fun code ↦ inp.shareAcc code n)).sum :=
  foldl_merge _ _

theorem companyAcc_eq_sum (key : String) (n : ℕ) :
    inp.companyAcc key n = ((inp.companyMembers key).map (fun code ↦ inp.shareAcc code n)).sum :=
  foldl_merge _ _

theorem marketAcc_eq_sum_sectors (n : ℕ) :
    inp.marketAcc n = (inp.secCodes.map (fun sec ↦ inp.sectorAcc sec n)).sum :=
  foldl_merge _ _

theorem sum_sectors {M : Type*} [AddCommMonoid M] (f : String → M) :
    (inp.secCodes.map (fun sec ↦ ((inp.sectorMembers sec).map f).sum)).sum =
      (inp.codes.map f).sum :=
  sum_accounts inp.nodup_secCodes (fun code hcode ↦ mem_keys.mpr ⟨code, hcode, rfl⟩) f

theorem sum_companies {M : Type*} [AddCommMonoid M] (f : String → M) :
    (inp.companyKeys.map (fun key ↦ ((inp.companyMembers key).map f).sum)).sum =
      (inp.codes.map f).sum :=
  sum_accounts inp.nodup_companyKeys (fun code hcode ↦ mem_keys.mpr ⟨code, hcode, rfl⟩) f

theorem marketAcc_eq_sum_shares (n : ℕ) :
    inp.marketAcc n = (inp.codes.map (fun code ↦ inp.shareAcc code n)).sum := by
  rw [marketAcc_eq_sum_sectors, ← inp.sum_sectors]
  simp only [sectorAcc_eq_sum]

theorem marketAcc_eq_sum_companies (n : ℕ) :
    inp.marketAcc n = (inp.companyKeys.map (fun key ↦ inp.companyAcc key n)).sum := by
  rw [marketAcc_eq_sum_shares, ← inp.sum_companies]
  simp only [companyAcc_eq_sum]

theorem marketAcc_eq (n : ℕ) : inp.marketAcc n = inp.total (inp.inWindow n) := by
  rw [marketAcc_eq_sum_shares, inp.sum_shareAcc inp.nodup_codes, total, total]
  refine congrArg (fun l ↦ (List.map Posting.amount l).sum) (List.filter_congr (fun p hp ↦ ?_))
  simp [(inp.mem_entries hp).1]

theorem sectorAcc_eq (sec : String) (n : ℕ) :
    inp.sectorAcc sec n = inp.total (fun p ↦ p.sec = sec ∧ inp.inWindow n p) := by
  rw [sectorAcc_eq_sum, inp.sum_shareAcc (inp.nodup_sectorMembers sec), total, total]
  refine congrArg (fun l ↦ (List.map Posting.amount l).sum) (List.filter_congr (fun p hp ↦ ?_))
  obtain ⟨hcode, hsec⟩ := inp.mem_entries hp
  simp [sectorMembers, hcode, hsec]

theorem total_sound (q : Posting → Bool) : (inp.total q).Sound := by
  refine FlowAcc.Sound.sum (fun a ha ↦ ?_)
  obtain ⟨p, hp, rfl⟩ := List.mem_map.mp ha
  obtain ⟨r, -, hr⟩ := List.mem_filterMap.mp (List.mem_of_mem_filter hp)
  obtain ⟨t, ht, rfl⟩ := Option.map_eq_some_iff.mp hr
  obtain ⟨i, -, rfl⟩ := Option.map_eq_some_iff.mp ht
  exact FlowAcc.ofRow_sound buy_pos_of_accepted _

theorem shareAcc_sound (code : String) (n : ℕ) : (inp.shareAcc code n).Sound := by
  rw [shareAcc_eq]
  exact inp.total_sound _

theorem sum_sound (codes : List String) (n : ℕ) :
    (codes.map (fun code ↦ inp.shareAcc code n)).sum.Sound := by
  refine FlowAcc.Sound.sum (fun a ha ↦ ?_)
  obtain ⟨code, -, rfl⟩ := List.mem_map.mp ha
  exact inp.shareAcc_sound code n

theorem rows_total (q : Posting → Bool) : (inp.total q).rows = (inp.entries.filter q).length := by
  rw [total, read_sum FlowAcc.rows rfl FlowAcc.rows_add, List.map_map]
  have hone : ∀ p ∈ inp.entries.filter q, (FlowAcc.rows ∘ Posting.amount) p = 1 :=
    fun p _ ↦ FlowAcc.ofRow_rows _ _ _
  rw [List.map_congr_left hone]
  simp

theorem inTier_total (q : Posting → Bool) (t : FlowTier) :
    (inp.total q).inTier t = (inp.entries.filter q).countP (fun p ↦ p.row.tier = t) := by
  have hread := read_sum (fun a : FlowAcc ↦ a.inTier t) (by cases t <;> rfl)
    (fun a b ↦ a.inTier_add b t) ((inp.entries.filter q).map Posting.amount)
  rw [total, hread, List.map_map, List.countP_eq_length_filter]
  have hone : ∀ p ∈ inp.entries.filter q, ((fun a ↦ FlowAcc.inTier a t) ∘ Posting.amount) p =
      if p.row.tier = t then 1 else 0 := fun p _ ↦ FlowAcc.ofRow_inTier _ _ _ _
  rw [List.map_congr_left hone]
  have hcount := sum_filter (fun p : Posting ↦ decide (p.row.tier = t)) (fun _ ↦ 1)
    (inp.entries.filter q)
  simpa using hcount.symm

theorem rows_eq_tiers (q : Posting → Bool) :
    (inp.total q).rows = (inp.total q).barChecked + (inp.total q).identityOnly +
      (inp.total q).excluded + (inp.total q).noTrade := by
  have hall : ∀ l : List FlowAcc, (∀ a ∈ l, a.rows =
      a.barChecked + a.identityOnly + a.excluded + a.noTrade) →
      l.sum.rows = l.sum.barChecked + l.sum.identityOnly + l.sum.excluded + l.sum.noTrade := by
    intro l h
    induction l with
    | nil => rfl
    | cons a rest ih =>
      have ha := h a List.mem_cons_self
      have hrest := ih (fun b hb ↦ h b (List.mem_cons_of_mem a hb))
      simp only [List.sum_cons, FlowAcc.rows_add, FlowAcc.barChecked_add, FlowAcc.identityOnly_add,
        FlowAcc.excluded_add, FlowAcc.noTrade_add]
      omega
  refine hall _ (fun a ha ↦ ?_)
  obtain ⟨p, -, rfl⟩ := List.mem_map.mp ha
  rw [Posting.amount]
  cases p.row.tier <;> cases p.listing <;> rfl

end Accounts

end SectorFlowInput

end TalaPala.Bourse
