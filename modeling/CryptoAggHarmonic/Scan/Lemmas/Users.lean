import CryptoAggHarmonic.Scan.Users

/-!
# One scan of a user

What the loop over the symbols gathers, which messages are posted, and when a lock is free.
-/

namespace CryptoAggHarmonic.Scan

/-! ## The loop -/

/-- A result that `_scan_user` takes for a signal. -/
def Qualifies (minSignalScore : ℤ) (r : ScanResult) : Prop := r.skipped = false ∧ minSignalScore ≤ r.score

theorem not_qualifies_iff {minSignalScore : ℤ} {r : ScanResult} :
    (r.skipped = true ∨ r.score < minSignalScore) ↔ ¬ Qualifies minSignalScore r := by
  unfold Qualifies
  cases r.skipped <;> simp

instance (minSignalScore : ℤ) (r : ScanResult) : Decidable (Qualifies minSignalScore r) := by
  unfold Qualifies
  infer_instance

/-- The scan comes to the result at a position, which is a signal. -/
structure FoundAt (minSignalScore : ℤ) (items : List Item) (n : ℕ) (r : ScanResult) : Prop where
  result : ∃ item, items[n]? = some item ∧ item.scanned = .result r
  qualifies : Qualifies minSignalScore r
  reached : ∀ j item, j < n → items[j]? = some item → item.scanned ≠ .raised

section

variable {scan k n now : ℕ} {userId : String} {minSignalScore : ℤ} {item : Item} {items : List Item} {r : ScanResult}
  {p : Pass} {row : ScanLogRow} {x : ℕ × ScanResult}

@[simp] theorem signals_addRow : (p.addRow item row).signals = p.signals := rfl

@[simp] theorem finished_addRow : (p.addRow item row).finished = p.finished := rfl

@[simp] theorem rows_addSignal : (p.addSignal n r).rows = p.rows := by
  unfold Pass.addSignal
  cases r.grade <;> rfl

@[simp] theorem finished_addSignal : (p.addSignal n r).finished = p.finished := by
  unfold Pass.addSignal
  cases r.grade <;> rfl

theorem mem_rows_addRow {row' : ScanLogRow} (h : row' ∈ (p.addRow item row).rows) : row' = row ∨ row' ∈ p.rows := by
  unfold Pass.addRow at h
  cases hlogged : item.logged with
  | true => simpa [hlogged] using h
  | false => exact Or.inr (by simpa [hlogged] using h)

/-- A signal is strong or medium. -/
theorem mem_signals_addSignal (h : r.skipped = false) : x ∈ (p.addSignal n r).signals ↔ x = (n, r) ∨ x ∈ p.signals := by
  have hgrade : r.grade ≠ .skip := fun hskip => by
    rw [r.skipped_iff.mpr hskip] at h
    cases h
  unfold Pass.addSignal Pass.signals
  cases hr : r.grade with
  | strong => simp
  | medium => simp [or_left_comm]
  | skip => exact absurd hr hgrade

theorem FoundAt.succ (h : FoundAt minSignalScore items n r) (hitem : item.scanned ≠ .raised) :
    FoundAt minSignalScore (item :: items) (n + 1) r := by
  refine ⟨h.result, h.qualifies, fun j item' hj hitem' => ?_⟩
  cases j with
  | zero =>
      cases hitem'
      exact hitem
  | succ j => exact h.reached j item' (by omega) hitem'

theorem FoundAt.zero (hitem : item.scanned = .result r) (h : Qualifies minSignalScore r) :
    FoundAt minSignalScore (item :: items) 0 r :=
  ⟨⟨item, rfl, hitem⟩, h, fun j _ hj => absurd hj (Nat.not_lt_zero j)⟩

theorem FoundAt.tail (h : FoundAt minSignalScore (item :: items) (n + 1) r) : FoundAt minSignalScore items n r :=
  ⟨h.result, h.qualifies, fun j item' hj hitem' => h.reached (j + 1) item' (by omega) hitem'⟩

theorem FoundAt.head (h : FoundAt minSignalScore (item :: items) 0 r) : item.scanned = .result r := by
  obtain ⟨item', hitem', hr⟩ := h.result
  cases hitem'
  exact hr

theorem FoundAt.unique {r' : ScanResult} (h : FoundAt minSignalScore items n r) (h' : FoundAt minSignalScore items n r') :
    r = r' := by
  obtain ⟨item, hitem, hr⟩ := h.result
  obtain ⟨item', hitem', hr'⟩ := h'.result
  rw [hitem, Option.some.injEq] at hitem'
  rw [← hitem', hr] at hr'
  exact Scanned.result.inj hr'

theorem mem_signals_scanItems (h : x ∈ (scanItems scan userId now minSignalScore k items).signals) :
    ∃ n, x.1 = k + n ∧ FoundAt minSignalScore items n x.2 := by
  induction items generalizing k with
  | nil => cases h
  | cons item items ih =>
      have hlater : ∀ k', k' = k + 1 → item.scanned ≠ .raised →
          x ∈ (scanItems scan userId now minSignalScore k' items).signals →
          ∃ n, x.1 = k + n ∧ FoundAt minSignalScore (item :: items) n x.2 := by
        rintro _ rfl hitem hx
        obtain ⟨n, hn, hfound⟩ := ih hx
        exact ⟨n + 1, by omega, hfound.succ hitem⟩
      unfold scanItems at h
      split at h
      · cases h
      · rename_i hmissing
        exact hlater _ rfl (by rw [hmissing]; nofun) h
      · rename_i r hr
        have hnext := hlater (k + 1) rfl (by rw [hr]; nofun)
        split_ifs at h with hskip
        · exact hnext h
        · rw [not_qualifies_iff, not_not] at hskip
          rw [signals_addRow, mem_signals_addSignal hskip.1] at h
          rcases h with rfl | h
          · exact ⟨0, rfl, .zero hr hskip⟩
          · exact hnext h

/-- What a row of the loop says. -/
theorem mem_rows_scanItems (h : row ∈ (scanItems scan userId now minSignalScore k items).rows) :
    row.scan = scan ∧ ∃ n, row.position = k + n ∧
      ((∃ r, FoundAt minSignalScore items n r ∧ row.isSent = true) ∨
        (∀ r, ¬ FoundAt minSignalScore items n r) ∧ row.isSent = false) := by
  induction items generalizing k with
  | nil => cases h
  | cons item items ih =>
      have hlater : item.scanned ≠ .raised → row ∈ (scanItems scan userId now minSignalScore (k + 1) items).rows →
          row.scan = scan ∧ ∃ n, row.position = k + n ∧
            ((∃ r, FoundAt minSignalScore (item :: items) n r ∧ row.isSent = true) ∨
              (∀ r, ¬ FoundAt minSignalScore (item :: items) n r) ∧ row.isSent = false) := by
        intro hitem hrow
        obtain ⟨hscan, n, hn, hcases⟩ := ih hrow
        refine ⟨hscan, n + 1, by omega, hcases.imp ?_ ?_⟩
        · rintro ⟨r, hfound, hsent⟩
          exact ⟨r, hfound.succ hitem, hsent⟩
        · rintro ⟨hnone, hsent⟩
          exact ⟨fun r hfound => hnone r hfound.tail, hsent⟩
      unfold scanItems at h
      split at h
      · cases h
      · rename_i hmissing
        exact hlater (by rw [hmissing]; nofun) h
      · rename_i r hr
        have hnext := hlater (by rw [hr]; nofun)
        split_ifs at h with hskip
        · rcases mem_rows_addRow h with rfl | h
          · refine ⟨rfl, 0, rfl, Or.inr ⟨fun r' hfound => ?_, rfl⟩⟩
            have hsame := hr.symm.trans hfound.head
            cases hsame
            exact not_qualifies_iff.mp hskip hfound.qualifies
          · exact hnext h
        · rw [not_qualifies_iff, not_not] at hskip
          rcases mem_rows_addRow h with rfl | h
          · exact ⟨rfl, 0, rfl, Or.inl ⟨r, .zero hr hskip, rfl⟩⟩
          · rw [rows_addSignal] at h
            exact hnext h

theorem finished_scanItems (h : ∀ item ∈ items, item.scanned ≠ .raised) :
    (scanItems scan userId now minSignalScore k items).finished = true := by
  induction items generalizing k with
  | nil => rfl
  | cons item items ih =>
      have hrest := ih (k := k + 1) fun item' hitem' => h item' (List.mem_cons_of_mem _ hitem')
      unfold scanItems
      split
      · rename_i hraised
        exact absurd hraised (h item List.mem_cons_self)
      · exact hrest
      · dsimp only
        split_ifs <;> simpa using hrest

theorem mem_signals_of_foundAt (h : ∀ item ∈ items, item.scanned ≠ .raised) (hfound : FoundAt minSignalScore items n r) :
    (k + n, r) ∈ (scanItems scan userId now minSignalScore k items).signals := by
  induction items generalizing k n with
  | nil =>
      obtain ⟨item, hitem, -⟩ := hfound.result
      cases hitem
  | cons item items ih =>
      have hitems := fun item' hitem' => h item' (List.mem_cons_of_mem item hitem')
      have hlater : ∀ n', n = n' + 1 → (k + n, r) ∈ (scanItems scan userId now minSignalScore (k + 1) items).signals := by
        rintro n' rfl
        have hmem := ih (k := k + 1) hitems hfound.tail
        rwa [Nat.add_assoc, Nat.add_comm 1] at hmem
      unfold scanItems
      split
      · rename_i hraised
        exact absurd hraised (h item List.mem_cons_self)
      · rename_i hmissing
        cases n with
        | zero => exact absurd (hmissing.symm.trans hfound.head) nofun
        | succ n' => exact hlater n' rfl
      · rename_i r' hr'
        split_ifs with hskip
        · cases n with
          | zero =>
              have hsame := hr'.symm.trans hfound.head
              cases hsame
              exact absurd hfound.qualifies (not_qualifies_iff.mp hskip)
          | succ n' => exact hlater n' rfl
        · rw [not_qualifies_iff, not_not] at hskip
          rw [signals_addRow, mem_signals_addSignal hskip.1]
          cases n with
          | zero =>
              have hsame := hr'.symm.trans hfound.head
              cases hsame
              exact Or.inl rfl
          | succ n' => exact Or.inr (hlater n' rfl)

end

/-! ## Posts and locks -/

section

variable {send : Message → SendOutcome} {m : Message} {ms ms' : List Message}

theorem postAll_sublist : (postAll send ms).Sublist ms := by
  induction ms with
  | nil => exact List.Sublist.refl _
  | cons m ms ih =>
      unfold postAll
      split_ifs
      · exact List.singleton_sublist.mpr List.mem_cons_self
      · exact ih.cons_cons m

theorem postAll_append (h : ∀ m ∈ ms, send m = .delivered) : postAll send (ms ++ ms') = ms ++ postAll send ms' := by
  induction ms with
  | nil => rfl
  | cons m ms ih =>
      have hm := h m List.mem_cons_self
      rw [List.cons_append, postAll, if_neg (by rw [hm]; nofun), ih fun m' hm' => h m' (List.mem_cons_of_mem _ hm')]
      rfl

theorem messagesOf_sublist {prefs : NotificationPrefs} {p : Pass} :
    (messagesOf prefs p send).Sublist (signalMessages p ++ summaryMessages prefs p) := by
  unfold messagesOf
  split_ifs
  · exact postAll_sublist
  · exact List.nil_sublist _

theorem mem_summaryMessages {prefs : NotificationPrefs} {p : Pass} (h : m ∈ summaryMessages prefs p) :
    (∃ count strong medium, m = .dailySummary count strong medium) ∧ prefs.sendDailySummary = true ∧ p.signals ≠ [] := by
  unfold summaryMessages at h
  split_ifs at h with hsummary
  · exact ⟨⟨_, _, _, List.mem_singleton.mp h⟩, hsummary⟩
  · cases h

theorem signal_of_mem_messagesOf {prefs : NotificationPrefs} {p : Pass} {n : ℕ} {r : ScanResult}
    (h : .signal n r ∈ messagesOf prefs p send) : (n, r) ∈ p.signals := by
  rcases List.mem_append.mp (messagesOf_sublist.mem h) with hsignal | hsummary
  · obtain ⟨⟨n', r'⟩, hmem, heq⟩ := List.mem_map.mp hsignal
    cases heq
    exact hmem
  · obtain ⟨⟨count, strong, medium, heq⟩, -⟩ := mem_summaryMessages hsummary
    cases heq

end

theorem acquireScanLock_eq_some {locks locks' : List (String × ℕ)} {key : String} {now : ℕ}
    (h : acquireScanLock locks true key now = some locks') :
    (∀ expiry, (key, expiry) ∈ locks → expiry ≤ now) ∧ locks' = (key, now + LOCK_TTL) :: locks := by
  unfold acquireScanLock at h
  rw [if_neg (by decide)] at h
  split_ifs at h with hheld
  refine ⟨fun expiry hexpiry => ?_, (Option.some.inj h).symm⟩
  by_contra hlate
  exact hheld (List.any_eq_true.mpr ⟨_, hexpiry, by simpa using not_le.mp hlate⟩)

end CryptoAggHarmonic.Scan
