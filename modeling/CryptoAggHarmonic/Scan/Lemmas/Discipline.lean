import CryptoAggHarmonic.Scan.Lemmas.Users
import CryptoAggHarmonic.Lib.Steps

/-!
# Discipline of the notifications

What the rows of `scan_log`, the posts and the starts of the scans promise, what a scan has to meet for it, and that it
is kept from one user to the next.
-/

namespace CryptoAggHarmonic.Scan

/-! ## Promises and conditions -/

def Wanted (prefs : NotificationPrefs) (r : ScanResult) : Prop :=
  prefs.minSignalScore ≤ r.score ∧ prefs.notifyOnPattern = true ∧
    (prefs.notifyBearishOnly = true → r.direction = some .bearish)

/-- The message is that of the signal in the row. -/
def Dispatch.Reports (d : Dispatch) (row : ScanLogRow) : Prop :=
  d.scan = row.scan ∧ ∃ r, d.message = .signal row.position r

structure Dispatch.DailySummary (d : Dispatch) : Prop where
  message : ∃ count strong medium, d.message = .dailySummary count strong medium
  delivered : d.delivered = true

def Dispatch.day (d : Dispatch) : ℕ := d.postedAt / DAY

structure Discipline (w : World) : Prop where
  sent_iff : ∀ row ∈ w.log, row.isSent = true ↔ ∃ d ∈ w.dispatches, d.delivered = true ∧ d.Reports row
  wanted : ∀ d ∈ w.dispatches, ∀ n r, d.message = .signal n r → Wanted d.prefs r
  daily : w.dispatches.Pairwise fun a b =>
    a.userId = b.userId → a.DailySummary → b.DailySummary → a.day ≠ b.day
  apart : w.scans.Pairwise fun a b => a.userId = b.userId → (a.startedAt : ℤ) + b.intervalHours * HOUR ≤ b.startedAt

/-- What a scan that starts has to meet. -/
structure Orderly (w : World) (v : Visit) : Prop where
  reported : ∀ n r, FoundAt v.prefs.minSignalScore v.items n r →
    (∀ item ∈ v.items, item.scanned ≠ .raised) ∧ v.prefs.hasWebhook = true ∧ v.send (.signal n r) = .delivered
  wanted : ∀ n r, FoundAt v.prefs.minSignalScore v.items n r →
    v.prefs.notifyOnPattern = true ∧ (v.prefs.notifyBearishOnly = true → r.direction = some .bearish)
  daily : ∀ d ∈ w.dispatches, d.userId = v.userId → d.DailySummary → d.day = v.finish w / DAY →
    v.prefs.sendDailySummary = true → (∃ n r, FoundAt v.prefs.minSignalScore v.items n r) →
      ∀ count strong medium, v.send (.dailySummary count strong medium) ≠ .delivered

/-- The user's last scans are as long ago as the interval asks, or less than the hour ago for which their lock, of the
same interval, is kept. -/
def Spaced (w : World) (v : Visit) : Prop :=
  ∀ s ∈ w.scans, s.userId = v.userId → (s.startedAt : ℤ) + v.prefs.scanIntervalHours * HOUR ≤ v.start w ∨
    s.intervalHours = v.prefs.scanIntervalHours ∧ v.start w < s.startedAt + LOCK_TTL

structure Meets (w : World) (v : Visit) : Prop where
  redis : v.redis = true
  spaced : Spaced w v
  orderly : acquireScanLock w.locks v.redis (lockKey v.userId v.prefs.scanIntervalHours) (v.start w) ≠ none → Orderly w v

/-- What the discipline needs to be kept: scans are numbered, and their locks are there. -/
structure Kept (w : World) : Prop where
  discipline : Discipline w
  row_scan : ∀ row ∈ w.log, row.scan < w.scans.length
  dispatch_scan : ∀ d ∈ w.dispatches, d.scan < w.scans.length
  locked : ∀ s ∈ w.scans, (lockKey s.userId s.intervalHours, s.startedAt + LOCK_TTL) ∈ w.locks

/-! ## One turn -/

section

variable {w : World} {v : Visit} {n : ℕ} {r : ScanResult}

theorem found_of_mem_pass (h : (n, r) ∈ (v.pass w).signals) : FoundAt v.prefs.minSignalScore v.items n r := by
  obtain ⟨n', hn, hfound⟩ := mem_signals_scanItems h
  have hn' : n' = n := by simpa using hn.symm
  rwa [hn'] at hfound

theorem Orderly.posted (h : Orderly w v) (hfound : FoundAt v.prefs.minSignalScore v.items n r) :
    .signal n r ∈ messagesOf v.prefs (v.pass w) v.send := by
  obtain ⟨hitems, hwebhook, -⟩ := h.reported n r hfound
  have hsent : ∀ m ∈ signalMessages (v.pass w), v.send m = .delivered := by
    intro m hm
    obtain ⟨x, hx, rfl⟩ := List.mem_map.mp hm
    exact (h.reported _ _ (found_of_mem_pass hx)).2.2
  have hmem : (0 + n, r) ∈ (v.pass w).signals := mem_signals_of_foundAt hitems hfound
  rw [Nat.zero_add] at hmem
  rw [messagesOf, if_pos ⟨finished_scanItems hitems, hwebhook⟩, postAll_append hsent]
  exact List.mem_append_left _ (List.mem_map_of_mem (f := fun x => Message.signal x.1 x.2) hmem)

variable {locks : List (String × ℕ)} {row : ScanLogRow} {d : Dispatch}

/-- The world after a scan that has started. -/
def scanned (w : World) (v : Visit) (locks : List (String × ℕ)) : World where
  clock := v.finish w
  locks := locks
  log := w.log ++ (v.pass w).rows
  dispatches := w.dispatches ++ (messagesOf v.prefs (v.pass w) v.send).map (v.dispatch w)
  scans := w.scans ++ [⟨v.userId, v.prefs.scanIntervalHours, v.start w⟩]

theorem visitUser_eq (w : World) (v : Visit) :
    visitUser w v = { w with clock := v.start w } ∨
      ∃ locks, acquireScanLock w.locks v.redis (lockKey v.userId v.prefs.scanIntervalHours) (v.start w) = some locks ∧
        visitUser w v = scanned w v locks := by
  unfold visitUser
  split
  · exact Or.inl rfl
  · rename_i locks hlocks
    exact Or.inr ⟨locks, hlocks, rfl⟩

theorem Kept.sent_iff (h : Kept w) (ho : Orderly w v) (hrow : row ∈ (scanned w v locks).log) :
    row.isSent = true ↔ ∃ d ∈ (scanned w v locks).dispatches, d.delivered = true ∧ d.Reports row := by
  rcases List.mem_append.mp hrow with hold | hnew
  · rw [h.discipline.sent_iff row hold]
    constructor
    · rintro ⟨d, hd, hreports⟩
      exact ⟨d, List.mem_append_left _ hd, hreports⟩
    · rintro ⟨d, hd, hdelivered, hreports⟩
      rcases List.mem_append.mp hd with hd | hd
      · exact ⟨d, hd, hdelivered, hreports⟩
      · obtain ⟨m, -, rfl⟩ := List.mem_map.mp hd
        exact absurd hreports.1.symm (h.row_scan row hold).ne
  · obtain ⟨hscan, n, hn, hcases⟩ := mem_rows_scanItems hnew
    rw [Nat.zero_add] at hn
    rcases hcases with ⟨r, hfound, hsent⟩ | ⟨hnone, hsent⟩
    · have hpost := List.mem_map_of_mem (f := v.dispatch w) (ho.posted hfound)
      refine iff_of_true hsent ⟨_, List.mem_append_right _ hpost, ?_, hscan.symm, r, by rw [hn]; rfl⟩
      exact decide_eq_true (ho.reported n r hfound).2.2
    · refine iff_of_false (by rw [hsent]; exact Bool.false_ne_true) ?_
      rintro ⟨d, hd, -, hdscan, r, hmessage⟩
      rcases List.mem_append.mp hd with hd | hd
      · exact absurd (hdscan.trans hscan) (h.dispatch_scan d hd).ne
      · obtain ⟨m, hm, rfl⟩ := List.mem_map.mp hd
        have hsignal : m = .signal n r := hmessage.trans (by rw [hn])
        exact hnone r (found_of_mem_pass (signal_of_mem_messagesOf (hsignal ▸ hm)))

theorem Kept.wanted (h : Kept w) (ho : Orderly w v) (hd : d ∈ (scanned w v locks).dispatches)
    (hmessage : d.message = .signal n r) : Wanted d.prefs r := by
  rcases List.mem_append.mp hd with hd | hd
  · exact h.discipline.wanted d hd n r hmessage
  · obtain ⟨m, hm, rfl⟩ := List.mem_map.mp hd
    have hsignal : m = .signal n r := hmessage
    have hfound := found_of_mem_pass (signal_of_mem_messagesOf (hsignal ▸ hm))
    exact ⟨hfound.qualifies.2, ho.wanted n r hfound⟩

theorem summary_of_dispatch {m : Message} (hm : m ∈ messagesOf v.prefs (v.pass w) v.send)
    (hsummary : (v.dispatch w m).DailySummary) :
    m ∈ summaryMessages v.prefs (v.pass w) ∧ v.send m = .delivered := by
  refine ⟨?_, of_decide_eq_true hsummary.delivered⟩
  rcases List.mem_append.mp (messagesOf_sublist.mem hm) with hsignal | hm
  · obtain ⟨count, strong, medium, heq⟩ := hsummary.message
    obtain ⟨x, -, rfl⟩ := List.mem_map.mp hsignal
    cases heq
  · exact hm

theorem Kept.daily (h : Kept w) (ho : Orderly w v) : (scanned w v locks).dispatches.Pairwise fun a b =>
    a.userId = b.userId → a.DailySummary → b.DailySummary → a.day ≠ b.day := by
  refine List.pairwise_append.mpr ⟨h.discipline.daily, ?_, ?_⟩
  · -- within one scan there is one summary
    rw [List.pairwise_map]
    have hone : (signalMessages (v.pass w) ++ summaryMessages v.prefs (v.pass w)).Pairwise fun a b =>
        ¬ ((v.dispatch w a).DailySummary ∧ (v.dispatch w b).DailySummary) := by
      refine List.pairwise_append.mpr ⟨?_, ?_, ?_⟩
      · rw [signalMessages, List.pairwise_map]
        refine List.pairwise_of_forall fun x y => ?_
        rintro ⟨⟨⟨_, _, _, heq⟩, -⟩, -⟩
        cases heq
      · unfold summaryMessages
        split_ifs
        · exact List.pairwise_singleton ..
        · exact List.Pairwise.nil
      · rintro a ha b - ⟨⟨⟨_, _, _, heq⟩, -⟩, -⟩
        obtain ⟨x, -, rfl⟩ := List.mem_map.mp ha
        cases heq
    exact (hone.sublist messagesOf_sublist).imp fun hnot _ ha hb => absurd ⟨ha, hb⟩ hnot
  · intro a ha b hb huser hasummary hbsummary hday
    obtain ⟨m, hm, rfl⟩ := List.mem_map.mp hb
    obtain ⟨hmem, hdelivered⟩ := summary_of_dispatch hm hbsummary
    obtain ⟨⟨count, strong, medium, rfl⟩, hsend, hsignals⟩ := mem_summaryMessages hmem
    obtain ⟨x, hx⟩ := List.exists_mem_of_ne_nil _ hsignals
    exact ho.daily a ha huser hasummary hday hsend ⟨x.1, x.2, found_of_mem_pass hx⟩ _ _ _ hdelivered

theorem Kept.apart (h : Kept w) (hm : Meets w v)
    (hlocks : acquireScanLock w.locks v.redis (lockKey v.userId v.prefs.scanIntervalHours) (v.start w) = some locks) :
    (scanned w v locks).scans.Pairwise fun a b =>
      a.userId = b.userId → (a.startedAt : ℤ) + b.intervalHours * HOUR ≤ b.startedAt := by
  refine List.pairwise_append.mpr ⟨h.discipline.apart, List.pairwise_singleton .., ?_⟩
  intro s hs b hb huser
  rw [List.mem_singleton] at hb
  subst hb
  have hsame : s.userId = v.userId := huser
  rcases hm.spaced s hs hsame with hlong | ⟨hinterval, hrecent⟩
  · exact hlong
  · rw [hm.redis] at hlocks
    have hexpired := (acquireScanLock_eq_some hlocks).1 (s.startedAt + LOCK_TTL) (by
      rw [← hsame, ← hinterval]
      exact h.locked s hs)
    omega

/-- One user's turn keeps the discipline. -/
theorem Kept.visitUser (h : Kept w) (hm : Meets w v) : Kept (visitUser w v) := by
  rcases visitUser_eq w v with hskip | ⟨locks, hlocks, hscan⟩
  · rw [hskip]
    exact ⟨⟨h.discipline.sent_iff, h.discipline.wanted, h.discipline.daily, h.discipline.apart⟩, h.row_scan,
      h.dispatch_scan, h.locked⟩
  · rw [hscan]
    have ho := hm.orderly (by rw [hlocks]; nofun)
    have hlen : (scanned w v locks).scans.length = w.scans.length + 1 := by simp [scanned]
    constructor
    case discipline =>
      exact ⟨fun row hrow => h.sent_iff ho hrow, fun d hd n r => h.wanted ho hd, h.daily ho, h.apart hm hlocks⟩
    case row_scan =>
      intro row hrow
      rw [hlen]
      rcases List.mem_append.mp hrow with hold | hnew
      · exact Nat.lt_succ_of_lt (h.row_scan row hold)
      · rw [(mem_rows_scanItems hnew).1]
        exact Nat.lt_succ_self _
    case dispatch_scan =>
      intro d hd
      rw [hlen]
      rcases List.mem_append.mp hd with hold | hnew
      · exact Nat.lt_succ_of_lt (h.dispatch_scan d hold)
      · obtain ⟨m, -, rfl⟩ := List.mem_map.mp hnew
        exact Nat.lt_succ_self _
    case locked =>
      rw [hm.redis] at hlocks
      intro s hs
      change _ ∈ locks
      rw [(acquireScanLock_eq_some hlocks).2]
      rcases List.mem_append.mp hs with hold | hnew
      · exact List.mem_cons_of_mem _ (h.locked s hold)
      · rw [List.mem_singleton] at hnew
        subst hnew
        exact List.mem_cons_self

theorem kept_start : Kept {} := by
  refine ⟨⟨?_, ?_, List.Pairwise.nil, List.Pairwise.nil⟩, ?_, ?_, ?_⟩ <;> simp

end

theorem run_scanAllUsers (w : World) (calls : List (List Visit)) :
    Steps.run scanAllUsers w calls = Steps.run visitUser w calls.flatten := by
  induction calls generalizing w with
  | nil => rfl
  | cons visits calls ih =>
      rw [Steps.run_cons, ih, List.flatten_cons]
      simp [Steps.run, scanAllUsers, List.foldl_append]

end CryptoAggHarmonic.Scan
