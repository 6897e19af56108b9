import SphereFx.Base.Paging
import SphereFx.Api.Reads

/-!
# The pages of `list_signals`

Every page is a query of its own, ordered by `created_at` alone. The database may return rows of one
time in another order each time, so the pages hold every signal once only if none of them ends between
two signals of one time.
-/

namespace SphereFx.Api

open Rank Paging

/-! ### The query of one page -/

/-- The rows that the filters leave to a user. -/
def SignalFilter.matching (filter : SignalFilter) (compare : Comparisons) (user : Nat)
    (signals : SignalTable) : Except ApiError (List Signal) := do
  let since ← dateBound compare filter.startDate
  let till ← dateBound compare filter.endDate
  return signals.rows.filter fun row => row.createdBy = user ∧ filter.passes compare since till row

/-- `list_signals`, for a database that arranges the rows of the query by `arrange`. -/
def listSignalsArranged (arrange : List Signal → List Signal) (compare : Comparisons) (user : Nat)
    (filter : SignalFilter) (page pageSize : Int) (signals : SignalTable) :
    Except ApiError SignalList := do
  let rows ← filter.matching compare user signals
  let shown := ((arrange rows).drop ((page - 1) * pageSize).toNat).take pageSize.toNat
  return ⟨← shown.mapM signalRead, rows.length, page, pageSize⟩

/-- `created_at.desc()`. -/
def newestFirst (signal : Signal) : ℕᵒᵈ := OrderDual.toDual signal.createdAt

variable {compare : Comparisons} {user : Nat} {filter : SignalFilter} {signals : SignalTable}

/-- A database that leaves equal rows as they are stored. -/
theorem listSignals_eq (page pageSize : Int) :
    listSignals compare user filter page pageSize signals = listSignalsArranged
      (fun rows => rows.insertionSort fun row other => newestFirst row ≤ newestFirst other)
      compare user filter page pageSize signals := by
  unfold listSignals listSignalsArranged SignalFilter.matching
  simp only [bind_assoc, pure_bind]
  rfl

/-- The first `pages` pages, each arranged in its own way. -/
def signalPages (arrange : ℕ → List Signal → List Signal) (compare : Comparisons) (user : Nat)
    (filter : SignalFilter) (pageSize pages : ℕ) (signals : SignalTable) :
    Except ApiError (List SignalList) :=
  (List.range pages).mapM fun number =>
    listSignalsArranged (arrange number) compare user filter (number + 1) pageSize signals

/-- Enough pages hold every matching signal once, and each says how many there are, however the database
arranges the rows that `ORDER BY` leaves open. -/
def PagesPartition (compare : Comparisons) (user : Nat) (filter : SignalFilter) (pageSize : ℕ)
    (signals : SignalTable) : Prop :=
  ∃ rows, filter.matching compare user signals = .ok rows ∧
    ∀ (pages : ℕ) (arrange : ℕ → List Signal → List Signal), rows.length ≤ pages * pageSize →
      (∀ number, Arranges newestFirst rows (arrange number rows)) →
        ∃ lists, signalPages arrange compare user filter pageSize pages signals = .ok lists ∧
          (lists.flatMap SignalList.items).Perm rows ∧ ∀ list ∈ lists, list.total = rows.length

/-! ### What a page shows -/

private theorem signalRead_eq_ok {signal shown : Signal} (h : signalRead signal = .ok shown) :
    shown = signal := by
  unfold signalRead at h
  split at h
  · cases h
  · exact (Except.ok.inj h).symm

private theorem mapM_signalRead {rows shown : List Signal} (h : rows.mapM signalRead = .ok shown) :
    shown = rows ∧ ∀ row ∈ rows, signalRead row = .ok row := by
  induction rows generalizing shown with
  | nil => exact ⟨(Except.ok.inj h).symm, List.forall_mem_nil _⟩
  | cons row rest ih =>
      rw [List.mapM_cons, bind_eq_ok] at h
      obtain ⟨first, hfirst, htail⟩ := h
      obtain ⟨more, hmore, hshown⟩ := bind_eq_ok.mp htail
      obtain rfl := signalRead_eq_ok hfirst
      obtain ⟨rfl, hrest⟩ := ih hmore
      exact ⟨(Except.ok.inj hshown).symm, List.forall_mem_cons.mpr ⟨hfirst, hrest⟩⟩

theorem mapM_eq_ok {α β : Type} {f : α → Except ApiError β} {g : α → β} {l : List α}
    (h : ∀ a ∈ l, f a = .ok (g a)) : l.mapM f = .ok (l.map g) := by
  induction l with
  | nil => rfl
  | cons a rest ih =>
      obtain ⟨ha, hrest⟩ := List.forall_mem_cons.mp h
      rw [List.mapM_cons, ha, ih hrest]
      rfl

private theorem exists_of_mapM {α β : Type} {f : α → Except ApiError β} {l : List α} {results : List β}
    (h : l.mapM f = .ok results) {b : β} (hb : b ∈ results) : ∃ a ∈ l, f a = .ok b := by
  induction l generalizing results with
  | nil =>
      rw [← Except.ok.inj h] at hb
      cases hb
  | cons a rest ih =>
      rw [List.mapM_cons, bind_eq_ok] at h
      obtain ⟨first, hfirst, htail⟩ := h
      obtain ⟨more, hmore, hresults⟩ := bind_eq_ok.mp htail
      rw [← Except.ok.inj hresults] at hb
      rcases List.mem_cons.mp hb with rfl | hb
      · exact ⟨a, List.mem_cons_self, hfirst⟩
      · obtain ⟨a', ha', hfound⟩ := ih hmore hb
        exact ⟨a', List.mem_cons_of_mem a ha', hfound⟩

variable {rows : List Signal} {pageSize : ℕ}

/-- The list that a page shows, if all rows can be shown. -/
def shownPage (pageSize total : ℕ) (arranged : List Signal) (number : ℕ) : SignalList :=
  ⟨page pageSize arranged number, total, number + 1, pageSize⟩

theorem listSignalsArranged_eq (hrows : filter.matching compare user signals = .ok rows)
    (arrange : List Signal → List Signal) (number : ℕ) :
    listSignalsArranged arrange compare user filter (number + 1) pageSize signals =
      ((page pageSize (arrange rows) number).mapM signalRead).map fun items =>
        ⟨items, rows.length, number + 1, pageSize⟩ := by
  have hoffset : ((number + 1 - 1 : Int) * pageSize).toNat = number * pageSize := by
    rw [add_sub_cancel_right, ← Int.natCast_mul, Int.toNat_natCast]
  rw [listSignalsArranged, hrows]
  show ((((arrange rows).drop _).take _).mapM signalRead >>= fun items => .ok _) = _
  rw [hoffset, Int.toNat_natCast, page]
  cases (((arrange rows).drop (number * pageSize)).take pageSize).mapM signalRead <;> rfl

private theorem page_subset {arranged : List Signal} (h : Arranges newestFirst rows arranged) (number : ℕ) :
    page pageSize arranged number ⊆ rows := fun _ hmem =>
  h.perm.mem_iff.mp (List.mem_of_mem_drop (List.mem_of_mem_take hmem))

theorem signalPages_eq (hrows : filter.matching compare user signals = .ok rows)
    (hread : ∀ row ∈ rows, signalRead row = .ok row) {arrange : ℕ → List Signal → List Signal}
    (h : ∀ number, Arranges newestFirst rows (arrange number rows)) (pages : ℕ) :
    signalPages arrange compare user filter pageSize pages signals = .ok
      ((List.range pages).map fun number =>
        shownPage pageSize rows.length (arrange number rows) number) := by
  apply mapM_eq_ok
  intro number _
  have hpage := @mapM_eq_ok _ _ signalRead id (page pageSize (arrange number rows) number)
    fun row hrow => hread row (page_subset (h number) number hrow)
  rw [listSignalsArranged_eq hrows, hpage, List.map_id]
  rfl

private theorem items_of_signalPages (hrows : filter.matching compare user signals = .ok rows)
    {arrange : ℕ → List Signal → List Signal} {pages : ℕ} {lists : List SignalList}
    (h : signalPages arrange compare user filter pageSize pages signals = .ok lists)
    {row : Signal} (hrow : row ∈ lists.flatMap SignalList.items) : signalRead row = .ok row := by
  obtain ⟨list, hlist, hrow⟩ := List.mem_flatMap.mp hrow
  obtain ⟨number, -, hpage⟩ := exists_of_mapM h hlist
  rw [listSignalsArranged_eq hrows] at hpage
  cases hitems : (page pageSize (arrange number rows) number).mapM signalRead with
  | error err =>
      rw [hitems] at hpage
      cases hpage
  | ok items =>
      rw [hitems] at hpage
      obtain rfl := Except.ok.inj hpage
      obtain ⟨rfl, hread⟩ := mapM_signalRead hitems
      exact hread row hrow

private theorem nodup_matching (hrows : filter.matching compare user signals = .ok rows) : rows.Nodup := by
  unfold SignalFilter.matching at hrows
  obtain ⟨since, -, hrows⟩ := bind_eq_ok.mp hrows
  obtain ⟨till, -, hrows⟩ := bind_eq_ok.mp hrows
  rw [← Except.ok.inj hrows]
  exact signals.unique.of_map.filter _

/-- The pages partition the matching signals exactly if these can be shown and no page ends between two
of them with one time. -/
theorem pages_partition_iff (hsize : 1 ≤ pageSize) :
    PagesPartition compare user filter pageSize signals ↔
      ∃ rows, filter.matching compare user signals = .ok rows ∧
        (∀ row ∈ rows, signalRead row = .ok row) ∧ Unsplit newestFirst pageSize rows := by
  refine exists_congr fun rows => and_congr_right fun hrows => ?_
  refine ⟨fun h => ?_, fun ⟨hread, hunsplit⟩ pages arrange hpages harrange => ?_⟩
  · have hread : ∀ row ∈ rows, signalRead row = .ok row := by
      intro row hrow
      obtain ⟨lists, hlists, hperm, -⟩ := h rows.length _ (Nat.le_mul_of_pos_right _ hsize)
        fun _ => arranges_insertionSort newestFirst rows
      exact items_of_signalPages hrows hlists (hperm.mem_iff.mpr hrow)
    refine ⟨hread, unsplit_of_pages (nodup_matching hrows) hsize fun pages arranged hpages hall => ?_⟩
    obtain ⟨lists, hlists, hperm, -⟩ := h pages (fun number _ => arranged number) hpages hall
    rw [signalPages_eq hrows hread hall] at hlists
    rw [← Except.ok.inj hlists, List.flatMap_map] at hperm
    exact hperm
  · refine ⟨_, signalPages_eq hrows hread harrange pages, ?_, ?_⟩
    · rw [List.flatMap_map]
      exact pages_perm hunsplit hsize hpages harrange
    · intro list hlist
      obtain ⟨number, -, rfl⟩ := List.mem_map.mp hlist
      rfl

/-! ### Two signals of one time -/

def marketOrder (id createdAt : Nat) : Signal where
  id := id
  rawText := none
  symbol := "EURUSD"
  action := "BUY"
  orderType := "MARKET"
  entryPrice := none
  stopLoss := none
  takeProfit := .null
  confidence := 0
  status := "PENDING"
  channelId := none
  createdBy := 1
  createdAt := createdAt

def noFilter : SignalFilter := ⟨none, none, none, none, none⟩

def oneByOne : SignalTable := ⟨[marketOrder 1 10, marketOrder 2 11], by decide⟩

def atOnce : SignalTable := ⟨[marketOrder 1 10, marketOrder 2 10], by decide⟩

theorem pages_partition_iff_oneByOne : PagesPartition plainCompare 1 noFilter 1 oneByOne := by
  refine (pages_partition_iff (le_refl 1)).mpr ⟨oneByOne.rows, rfl, ?_, unsplit_of_nodup ?_⟩
  · intro row hrow
    rcases List.mem_pair.mp hrow with rfl | rfl <;> rfl
  · decide

/-- The second page shows the first signal again. -/
theorem signal_shown_twice :
    listSignalsArranged id plainCompare 1 noFilter 1 1 atOnce =
      .ok ⟨[marketOrder 1 10], 2, 1, 1⟩ ∧
    listSignalsArranged List.reverse plainCompare 1 noFilter 2 1 atOnce =
      .ok ⟨[marketOrder 1 10], 2, 2, 1⟩ ∧
    ¬ PagesPartition plainCompare 1 noFilter 1 atOnce := by
  refine ⟨rfl, rfl, fun ⟨rows, hrows, h⟩ => ?_⟩
  obtain rfl : [marketOrder 1 10, marketOrder 2 10] = rows := Except.ok.inj hrows
  have hordered : Ordered newestFirst [marketOrder 1 10, marketOrder 2 10] ∧
      Ordered newestFirst [marketOrder 2 10, marketOrder 1 10] := by
    simp [Ordered, newestFirst, marketOrder]
  obtain ⟨lists, hlists, hperm, -⟩ := h 2 (fun number => if number = 1 then List.reverse else id)
    (le_refl 2) fun number => by
      by_cases hnumber : number = 1
      · rw [if_pos hnumber]
        exact ⟨List.reverse_perm _, hordered.2⟩
      · rw [if_neg hnumber]
        exact ⟨List.Perm.refl _, hordered.1⟩
  have hshown : lists.flatMap SignalList.items = [marketOrder 1 10, marketOrder 1 10] := by
    rw [← Except.ok.inj hlists]
    rfl
  rw [hshown] at hperm
  have hmem : marketOrder 2 10 ∈ [marketOrder 1 10, marketOrder 1 10] :=
    hperm.mem_iff.mpr (List.mem_cons_of_mem _ List.mem_cons_self)
  have hid : (marketOrder 2 10).id = 1 := by
    rcases List.mem_cons.mp hmem with heq | hmem
    · rw [heq]
      rfl
    · rw [List.mem_singleton.mp hmem]
      rfl
  cases hid

end SphereFx.Api
