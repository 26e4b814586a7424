import CryptoAggHarmonic.Infra.KlineCache
import CryptoAggHarmonic.Lib.Steps

/-!
# What the K-line cache serves

A served frame is the one that was stored, and no two requests share a key. It still has every candle as long as none
has closed since it was fetched.
-/

namespace CryptoAggHarmonic.Infra

open Analyze PyOs

variable {tt : TimeText} {feed : Provider → Feed} {f : Feed} {series : Series} {r r' : Request} {p : Provider}
  {n : ℕ} {t u now : ℚ} {rows : List Row} {key : Text} {e : Entry} {answers : Bool} {s : State} {c : Call}

/-! ## Candles -/

theorem rtake_subset {α : Type} {l : List α} {m n : ℕ} (h : m ≤ n) : l.rtake m ⊆ l.rtake n := by
  have hsuffix : l.rtake m <:+ l.rtake n := by
    refine List.suffix_of_suffix_length_le (List.drop_suffix _ _) (List.drop_suffix _ _) ?_
    simp only [List.rtake, List.length_drop]
    omega
  exact hsuffix.subset

/-- Where no candle has closed, an earlier look has every candle that is due. -/
theorem due_subset (htu : u ≤ t) (hclosed : f.closed series u = f.closed series t) :
    f.due series n t ⊆ f.newest series n u := by
  rw [Feed.due, Feed.newest, hclosed]
  cases hforming : f.forming series u with
  | none =>
      rw [Option.toList_none, List.append_nil]
      exact rtake_subset (Nat.sub_le _ _)
  | some row =>
      have hlasts := f.lasts series u t htu hclosed (by rw [hforming]; rfl)
      obtain ⟨row', hrow'⟩ := Option.isSome_iff_exists.mp hlasts
      rw [hrow', Option.toList_some, Option.toList_some]
      cases n with
      | zero => simp [List.rtake]
      | succ n =>
          rw [List.rtake_concat_succ]
          exact List.subset_append_left _ _

/-! ## Keys -/

theorem marketValue_injective {m m' : Market} (h : marketValue m = marketValue m') : m = m' := by
  cases m <;> cases m' <;> first | rfl | exact absurd h (by decide)

theorem intervalValue_injective {i i' : Interval} (h : intervalValue i = intervalValue i') : i = i' := by
  cases i <;> cases i' <;> first | rfl | exact absurd h (by decide)

theorem bar_notMem_marketValue {m : Market} : '|' ∉ marketValue m := by
  cases m <;> decide

theorem bar_notMem_intervalValue {i : Interval} : '|' ∉ intervalValue i := by
  cases i <;> decide

theorem bar_notMem_digits : '|' ∉ Nat.toDigits 10 n := fun h =>
  absurd (Nat.isDigit_of_mem_toDigits (by decide) (by decide) h) (by decide)

theorem digits_injective {m : ℕ} (h : Nat.toDigits 10 m = Nat.toDigits 10 n) : m = n := by
  rw [← Nat.ofDigitChars_ten_toDigits (n := m), h, Nat.ofDigitChars_ten_toDigits]

variable {a a' z z' : Text}

/-- What stands before the first bar, and what stands behind it. -/
theorem split_at_first (ha : '|' ∉ a) (ha' : '|' ∉ a') (h : a ++ '|' :: z = a' ++ '|' :: z') : a = a' ∧ z = z' := by
  have hfields := congrArg (List.splitOn '|') h
  rw [List.splitOn_append_cons_self_of_not_mem ha, List.splitOn_append_cons_self_of_not_mem ha',
    List.cons.injEq] at hfields
  obtain ⟨rfl, -⟩ := hfields
  exact ⟨rfl, by simpa using h⟩

theorem split_at_last (hz : '|' ∉ z) (hz' : '|' ∉ z') (h : a ++ '|' :: z = a' ++ '|' :: z') : a = a' ∧ z = z' := by
  have hreverse : z.reverse ++ '|' :: a.reverse = z'.reverse ++ '|' :: a'.reverse := by
    simpa using congrArg List.reverse h
  obtain ⟨hzs, has⟩ := split_at_first (by simpa using hz) (by simpa using hz') hreverse
  exact ⟨List.reverse_injective has, List.reverse_injective hzs⟩

/-- A symbol may hold any letters, a bar among them. -/
theorem makeKey_injective (h : makeKey r = makeKey r') : r = r' := by
  obtain ⟨⟨market, symbol, interval⟩, candles⟩ := r
  obtain ⟨⟨market', symbol', interval'⟩, candles'⟩ := r'
  obtain ⟨hmarket, h⟩ := split_at_first bar_notMem_marketValue bar_notMem_marketValue h
  have hfront : (symbol ++ '|' :: intervalValue interval) ++ '|' :: Nat.toDigits 10 candles =
      (symbol' ++ '|' :: intervalValue interval') ++ '|' :: Nat.toDigits 10 candles' := by simpa using h
  obtain ⟨hseries, hcandles⟩ := split_at_last bar_notMem_digits bar_notMem_digits hfront
  obtain ⟨hsymbol, hinterval⟩ := split_at_last bar_notMem_intervalValue bar_notMem_intervalValue hseries
  obtain rfl := marketValue_injective hmarket
  obtain rfl := intervalValue_injective hinterval
  obtain rfl := digits_injective hcandles
  rw [hsymbol]

/-! ## Frames as JSON -/

theorem dts_mem : "dts" ∈ (Frame.ofRows rows).columns := by
  change "dts" ∈ candleColumns
  decide

theorem idxOf_dts : (Frame.ofRows rows).columns.idxOf "dts" = 6 := by
  change candleColumns.idxOf "dts" = 6
  decide

theorem column_dts : (Frame.ofRows rows).column? "dts" = some (rows.map fun row => .time row.dts) := by
  rw [Frame.column?, if_pos dts_mem, idxOf_dts]
  induction rows with
  | nil => rfl
  | cons row rows ih => simpa [Frame.ofRows, Row.cells] using ih

theorem encode_dts : (tt.encode (.ofRows rows)).dts = some (rows.map fun row => tt.iso row.dts) := by
  rw [TimeText.encode, column_dts]
  simp [TimeText.isoCell]

theorem mapM_parse : (rows.map fun row => tt.iso row.dts).mapM tt.parse = some (rows.map Row.dts) := by
  induction rows with
  | nil => rfl
  | cons row rows ih => simp [tt.parse_iso, ih]

/-- A frame of candles comes back with its columns, values and order. -/
theorem decode_encode : tt.decode (tt.encode (.ofRows rows)) = some (.ofRows rows) := by
  have hcells : ∀ row ∈ (tt.encode (.ofRows rows)).data, row.length = (tt.encode (.ofRows rows)).columns.length := by
    intro row hrow
    simp only [TimeText.encode, Frame.ofRows, List.map_map, List.mem_map] at hrow
    obtain ⟨candle, -, rfl⟩ := hrow
    rfl
  rw [TimeText.decode, if_pos (by simpa using hcells), encode_dts]
  simp only [mapM_parse]
  rw [if_pos (by simp [TimeText.encode, Frame.ofRows])]
  have hset : TimeText.setDts { columns := candleColumns, data := (rows.map Row.cells).map (·.map tt.jsonCell) }
      ((rows.map Row.dts).map .time) = .ofRows rows := by
    have hmem : "dts" ∈ candleColumns := by decide
    have hidx : candleColumns.idxOf "dts" = 6 := by decide
    simp only [TimeText.setDts, Frame.ofRows, hmem, hidx, if_true, Frame.mk.injEq, true_and]
    induction rows with
    | nil => rfl
    | cons row rows ih =>
        simp only [List.map_cons, List.zipWith_cons_cons, List.cons.injEq]
        exact ⟨rfl, ih (fun row' hrow' => hcells row' (List.mem_cons_of_mem _ hrow'))⟩
  exact congrArg some hset

/-! ## Entries -/

section

variable {β : Type} {b : Backend β} {e : β}

def Backend.entries : Backend β → List (Text × β)
  | .redis data => data.map fun item => (item.1, item.2.2)
  | .memory cache => cache.data.map fun item => (item.1, item.2.2)

theorem getRaw_eq_some (h : (b.getRaw answers now key).2 = some e) : (key, e) ∈ b.entries := by
  cases b with
  | redis data =>
      simp only [Backend.getRaw] at h
      split at h
      · obtain ⟨⟨k, expires, v⟩, hfind, hlive⟩ := Option.bind_eq_some_iff.mp h
        obtain rfl : k = key := by simpa using List.find?_some hfind
        split at hlive
        · cases hlive
          exact List.mem_map.mpr ⟨_, List.mem_of_find?_eq_some hfind, rfl⟩
        · cases hlive
      · cases h
  | memory cache =>
      simp only [Backend.getRaw, MemoryCache.get] at h
      split at h
      · cases h
      · rename_i k expires v hfind
        obtain rfl : k = key := by simpa using List.find?_some hfind
        split at h
        · cases h
        · cases h
          exact List.mem_map.mpr ⟨_, List.mem_of_find?_eq_some hfind, rfl⟩

theorem entries_getRaw : (b.getRaw answers now key).1.entries ⊆ b.entries := by
  cases b with
  | redis data => exact List.Subset.refl _
  | memory cache =>
      simp only [Backend.getRaw, MemoryCache.get]
      split
      · exact List.Subset.refl _
      · rename_i k expires v hfind
        obtain rfl : k = key := by simpa using List.find?_some hfind
        have hothers : (cache.data.filter fun item => item.1 ≠ k) ⊆ cache.data := List.filter_sublist.subset
        split
        · exact List.map_subset _ hothers
        · refine List.map_subset _ ?_
          intro item hitem
          rcases List.mem_append.mp hitem with hitem | hitem
          · exact hothers hitem
          · rw [List.mem_singleton.mp hitem]
            exact List.mem_of_find?_eq_some hfind

theorem entries_setRaw {ttl : ℤ} {item : Text × β} (h : item ∈ (b.setRaw answers ttl now key e).entries) :
    item = (key, e) ∨ item ∈ b.entries := by
  cases b with
  | redis data =>
      simp only [Backend.setRaw] at h
      split at h
      · obtain ⟨stored, hstored, rfl⟩ := List.mem_map.mp h
        rcases List.mem_append.mp hstored with hstored | hstored
        · exact Or.inr (List.mem_map_of_mem (List.mem_of_mem_filter hstored))
        · rw [List.mem_singleton.mp hstored]
          exact Or.inl rfl
      · exact Or.inr h
  | memory cache =>
      obtain ⟨stored, hstored, rfl⟩ := List.mem_map.mp h
      rcases List.mem_append.mp (List.mem_of_mem_drop hstored) with hstored | hstored
      · exact Or.inr (List.mem_map_of_mem (List.mem_of_mem_filter hstored))
      · rw [List.mem_singleton.mp hstored]
        exact Or.inl rfl

end

/-! ## Runs -/

variable (tt feed) in
/-- Every entry is a frame some source gave for the request its key is made of. -/
def Honest (s : State) : Prop :=
  ∀ item ∈ s.cache.backend.entries, ∃ p r u, u ≤ s.now ∧ item = (makeKey r, entryOf tt feed p r u)

variable (feed) in
/-- The cache has no entry for the request, or none of its candles has closed since the entry was fetched. -/
def Fresh (s : State) (c : Call) : Prop :=
  ∀ e, (lookUp s c).2 = some e →
    (feed e.info.source).closed c.request.series e.info.fetchedAt =
      (feed e.info.source).closed c.request.series (s.now + c.wait)

instance (feed : Provider → Feed) (s : State) (c : Call) : Decidable (Fresh feed s c) :=
  decidable_of_iff (∀ e ∈ (lookUp s c).2.toList, (feed e.info.source).closed c.request.series e.info.fetchedAt =
    (feed e.info.source).closed c.request.series (s.now + c.wait)) (by simp [Fresh])

variable (feed) in
/-- A served frame is one that its source gave, and was stored, at the time it was fetched. -/
def Unchanged (c : Call) (now : ℚ) : Answer → Prop
  | .cached info df => info.fetchedAt ≤ now ∧ df = fetchFrom feed info.source c.request info.fetchedAt
  | _ => True

variable (feed) in
/-- The frame has every candle of its source that closed before `now`. -/
def Complete (c : Call) (now : ℚ) : Answer → Prop
  | .cached info df => ∀ row ∈ (feed info.source).due c.request.series (info.source.limit c.request.candles) now,
      row.cells ∈ df.data
  | .fetched p df => ∀ row ∈ (feed p).due c.request.series (p.limit c.request.candles) now, row.cells ∈ df.data
  | .unavailable => True

theorem wait_le : s.now ≤ s.now + c.wait := le_add_of_nonneg_right c.wait.2

theorem lookUp_eq_some (h : (lookUp s c).2 = some e) : (makeKey c.request, e) ∈ s.cache.backend.entries := by
  unfold lookUp KLineCache.get at h
  split at h
  · cases h
  · split at h
    · exact getRaw_eq_some h
    · cases h

theorem entries_lookUp : (lookUp s c).1.backend.entries ⊆ s.cache.backend.entries := by
  unfold lookUp KLineCache.get
  split
  · exact List.Subset.refl _
  · split
    · exact entries_getRaw
    · exact List.Subset.refl _

theorem entries_set {cache : KLineCache Entry} {item : Text × Entry}
    (h : item ∈ (cache.set answers now key e).backend.entries) : item = (key, e) ∨ item ∈ cache.backend.entries := by
  unfold KLineCache.set at h
  split at h
  · exact entries_setRaw h
  · exact Or.inr h

/-- What is found under the key of a request was fetched for it. -/
theorem Honest.found (h : Honest tt feed s) (hfound : (lookUp s c).2 = some e) :
    ∃ p u, u ≤ s.now ∧ e = entryOf tt feed p c.request u := by
  obtain ⟨p, r', u, hu, hitem⟩ := h _ (lookUp_eq_some hfound)
  rw [Prod.mk.injEq] at hitem
  obtain ⟨hkey, rfl⟩ := hitem
  exact ⟨p, u, hu, by rw [makeKey_injective hkey]⟩

theorem fetch_hit {u : ℚ} (hfound : (lookUp s c).2 = some (entryOf tt feed p c.request u)) :
    fetchMarketData tt feed s c =
      ({ now := s.now + c.wait, cache := (lookUp s c).1 },
        .cached ⟨p, c.request.series.market, u⟩ (fetchFrom feed p c.request u)) := by
  have hdecode : tt.decode (entryOf tt feed p c.request u).df = some (fetchFrom feed p c.request u) := decode_encode
  simp only [fetchMarketData, hfound, Option.bind_some, hdecode, Option.map_some]
  rfl

theorem fetch_miss (hfound : (lookUp s c).2 = none) :
    fetchMarketData tt feed s c = fetchSources tt feed (lookUp s c).1 (s.now + c.wait) c := by
  simp only [fetchMarketData, hfound, Option.bind_none]

theorem Honest.step (h : Honest tt feed s) : Honest tt feed (fetchMarketData tt feed s c).1 := by
  have hold : ∀ item ∈ (lookUp s c).1.backend.entries,
      ∃ p r u, u ≤ s.now + c.wait ∧ item = (makeKey r, entryOf tt feed p r u) := by
    intro item hitem
    obtain ⟨p, r, u, hu, hsame⟩ := h item (entries_lookUp hitem)
    exact ⟨p, r, u, hu.trans wait_le, hsame⟩
  cases hfound : (lookUp s c).2 with
  | some e =>
      obtain ⟨p, u, -, rfl⟩ := h.found hfound
      rw [fetch_hit hfound]
      exact hold
  | none =>
      rw [fetch_miss hfound, fetchSources]
      cases provider? c with
      | none => exact hold
      | some p =>
          intro item hitem
          rcases entries_set hitem with rfl | hitem
          · exact ⟨p, c.request, _, le_rfl, rfl⟩
          · exact hold item hitem

theorem Honest.unchanged (h : Honest tt feed s) :
    Unchanged feed c (s.now + c.wait) (fetchMarketData tt feed s c).2 := by
  cases hfound : (lookUp s c).2 with
  | some e =>
      obtain ⟨p, u, hu, rfl⟩ := h.found hfound
      rw [fetch_hit hfound]
      exact ⟨hu.trans wait_le, rfl⟩
  | none =>
      rw [fetch_miss hfound, fetchSources]
      cases provider? c <;> trivial

theorem complete_of_closed (p : Provider) (hu : u ≤ now)
    (hclosed : (feed p).closed r.series u = (feed p).closed r.series now) :
    ∀ row ∈ (feed p).due r.series (p.limit r.candles) now, row.cells ∈ (fetchFrom feed p r u).data := by
  intro row hrow
  exact List.mem_map_of_mem (due_subset hu hclosed hrow)

theorem Honest.complete (h : Honest tt feed s) (hfresh : Fresh feed s c) :
    Complete feed c (s.now + c.wait) (fetchMarketData tt feed s c).2 := by
  cases hfound : (lookUp s c).2 with
  | some e =>
      obtain ⟨p, u, hu, rfl⟩ := h.found hfound
      rw [fetch_hit hfound]
      exact complete_of_closed p (hu.trans wait_le) (hfresh _ hfound)
  | none =>
      rw [fetch_miss hfound, fetchSources]
      cases provider? c with
      | none => trivial
      | some p => exact complete_of_closed p le_rfl rfl

end CryptoAggHarmonic.Infra
