import Mathlib.Data.List.Chain
import CryptoAggHarmonic.FtStrategy.Runs

/-!
# The stored counter and the log of events

What a run has done to one strategy's counter is a list of beats: its events and its resets. The stored counter is a
fold of them, the count that the discipline reads a scan from the end.
-/

namespace CryptoAggHarmonic.FtStrategy

variable {db db' : Db} {c : Call} {h : History} {log : List Call} {strategyId : String} {b : Beat} {bs : List Beat}

inductive Beat
  | event (e : Event)
  | reset
  deriving DecidableEq

def beatOf (strategyId : String) : Call → Option Beat
  | .recordEvent sid text _ _ _ _ => if sid = strategyId then (Event.ofText text).map Beat.event else none
  | .resetStagnation sid => if sid = strategyId then some .reset else none
  | _ => none

/-- The events and resets of a strategy, in the order of the calls. -/
def beats (strategyId : String) (log : List Call) : List Beat := log.filterMap (beatOf strategyId)

def Beat.event? : Beat → Option Event
  | .event e => some e
  | .reset => none

def Beat.count (n : ℕ) : Beat → ℕ
  | .event e => Db.stagnationAfter e n
  | .reset => 0

def counted (bs : List Beat) : ℕ := bs.foldl Beat.count 0

/-- The stable events at the end: since the last other event or reset. -/
def stableRun (bs : List Beat) : ℕ := (bs.reverse.takeWhile fun b => b = .event .stable).length

/-- The beats since the last event that is not stable. -/
def sinceNonStable (bs : List Beat) : List Beat :=
  (bs.reverse.takeWhile fun b => b = .event .stable || b = .reset).reverse

/-- An event that says nothing of the stagnation. -/
def Beat.Quiet (b : Beat) : Prop := b = .event .create ∨ b = .event .shadowStart ∨ b = .event .shadowEnd

/-- No quiet event comes right after a stable one. -/
def Steady (bs : List Beat) : Prop := bs.IsChain fun a b => a = .event .stable → ¬ b.Quiet

/-! ## Beats -/

theorem counted_snoc : counted (bs ++ [b]) = b.count (counted bs) := List.foldl_concat ..

theorem stableRun_snoc : stableRun (bs ++ [b]) = if b = .event .stable then stableRun bs + 1 else 0 := by
  unfold stableRun
  rw [List.reverse_append, List.reverse_singleton, List.singleton_append, List.takeWhile_cons]
  by_cases hb : b = .event .stable <;> simp [hb]

theorem sinceNonStable_snoc : sinceNonStable (bs ++ [b]) =
    if b = .event .stable ∨ b = .reset then sinceNonStable bs ++ [b] else [] := by
  unfold sinceNonStable
  rw [List.reverse_append, List.reverse_singleton, List.singleton_append, List.takeWhile_cons]
  by_cases hb : b = .event .stable ∨ b = .reset <;> simp [hb]

/-- The scan of the discipline: the stable events since the last that is not. -/
theorem scan_eq_count : ((bs.filterMap Beat.event?).reverse.takeWhile fun e => e = .stable).length =
    (sinceNonStable bs).count (.event .stable) := by
  induction bs using List.reverseRecOn with
  | nil => rfl
  | append_singleton bs b ih =>
      rw [List.filterMap_append, sinceNonStable_snoc]
      cases b with
      | reset => simpa [List.filterMap_cons, Beat.event?] using ih
      | event e => by_cases he : e = .stable <;> simp [Beat.event?, he, ih]

theorem counted_eq_stableRun (hsteady : Steady bs) : counted bs = stableRun bs := by
  induction bs using List.reverseRecOn with
  | nil => rfl
  | append_singleton bs b ih =>
      obtain ⟨hearlier, -, hlast⟩ := List.isChain_append.mp hsteady
      rw [counted_snoc, stableRun_snoc, ih hearlier]
      -- A quiet event finds the count at zero.
      have hzero : b.Quiet → stableRun bs = 0 := by
        intro hquiet
        cases bs using List.reverseRecOn with
        | nil => rfl
        | append_singleton bs a =>
            rw [stableRun_snoc, if_neg]
            intro ha
            exact hlast a (by simp) b (by simp) ha hquiet
      cases b with
      | reset => rfl
      | event e =>
          cases e with
          | stable => rfl
          | evolve => rfl
          | fork => rfl
          | kill => rfl
          | create => exact hzero (Or.inl rfl)
          | shadowStart => exact hzero (Or.inr (Or.inl rfl))
          | shadowEnd => exact hzero (Or.inr (Or.inr rfl))

/-- The two counts agree unless a reset has cut off stable events. -/
theorem stableRun_eq_count_iff : stableRun bs = (sinceNonStable bs).count (.event .stable) ↔
    (sinceNonStable bs).Pairwise fun a b => a = .event .stable → b ≠ .reset := by
  induction bs using List.reverseRecOn with
  | nil => simp [stableRun, sinceNonStable]
  | append_singleton bs b ih =>
      rw [stableRun_snoc, sinceNonStable_snoc]
      cases b with
      | reset =>
          simp only [reduceCtorEq, if_false, or_true, if_true, List.count_append, List.pairwise_append]
          constructor
          · intro hzero
            have hnone : ∀ a ∈ sinceNonStable bs, a ≠ .event .stable := by
              rintro _ ha rfl
              have := List.count_pos_iff.mpr ha
              omega
            refine ⟨?_, List.pairwise_singleton _ _, fun a ha _ _ hstable => absurd hstable (hnone a ha)⟩
            exact List.pairwise_of_forall_mem_list fun a ha _ _ hstable => absurd hstable (hnone a ha)
          · rintro ⟨-, -, hcross⟩
            have : (sinceNonStable bs).count (.event .stable) = 0 :=
              List.count_eq_zero.mpr fun hmem => hcross _ hmem .reset (by simp) rfl rfl
            rw [this]
            rfl
      | event e =>
          by_cases he : e = .stable
          · simp [he, List.pairwise_append, ih]
          · simp [he]

/-! ## The run -/

structure Counted (h : History) : Prop where
  counts : ∀ s ∈ h.db.strategies, s.stagnationCount = counted (beats s.id h.log)
  events : ∀ strategyId, h.db.eventsOf strategyId = (beats strategyId h.log).filterMap Beat.event?
  known : ∀ strategyId, h.db.hasStrategy strategyId = false → h.db.eventsOf strategyId = []

theorem beats_append : beats strategyId (log ++ [c]) = beats strategyId log ++ (beatOf strategyId c).toList := by
  unfold beats
  rw [List.filterMap_append]
  cases hc : beatOf strategyId c <;> simp [hc]

/-- A strategy nothing was recorded for can only have been reset. -/
theorem counted_of_no_event (hevents : bs.filterMap Beat.event? = []) : counted bs = 0 := by
  cases bs using List.reverseRecOn with
  | nil => rfl
  | append_singleton bs b =>
      rw [counted_snoc]
      cases b with
      | reset => rfl
      | event e => simp [Beat.event?] at hevents

theorem counted_start : Counted .start where
  counts := by simp [History.start, Db.empty]
  events := fun _ => rfl
  known := fun _ _ => rfl

/-- A call with no beat that changes no event and no counter. -/
theorem Counted.step_aside (hcounted : Counted h) (hbeat : ∀ strategyId, beatOf strategyId c = none)
    (hevents : db'.events = h.db.events)
    (hstrategies : ∀ s ∈ db'.strategies, ∃ t ∈ h.db.strategies, t.id = s.id ∧ t.stagnationCount = s.stagnationCount)
    (hknown : ∀ strategyId, db'.hasStrategy strategyId = false → h.db.hasStrategy strategyId = false) :
    Counted { db := db', log := h.log ++ [c] } := by
  have heventsOf : ∀ sid, db'.eventsOf sid = h.db.eventsOf sid := fun sid => by
    unfold Db.eventsOf
    rw [hevents]
  refine ⟨fun s hs => ?_, fun sid => ?_, fun sid hsid => ?_⟩
  · obtain ⟨t, ht, hid, hcount⟩ := hstrategies s hs
    rw [beats_append, hbeat, Option.toList_none, List.append_nil, ← hcount, ← hid]
    exact hcounted.counts t ht
  · rw [beats_append, hbeat, Option.toList_none, List.append_nil, ← hcounted.events sid]
    exact heventsOf sid
  · exact (heventsOf sid).trans (hcounted.known sid (hknown sid hsid))

theorem count_updateStrategy {s : Strategy} {set : Strategy → Strategy}
    (hs : s ∈ (db.updateStrategy strategyId set).strategies)
    (hset : ∀ s, (set s).id = s.id ∧ (set s).stagnationCount = s.stagnationCount) :
    ∃ t ∈ db.strategies, t.id = s.id ∧ t.stagnationCount = s.stagnationCount := by
  obtain ⟨t, ht, rfl⟩ := mem_updateStrategy.mp hs
  refine ⟨t, ht, ?_⟩
  split_ifs
  · exact ⟨(hset t).1.symm, (hset t).2.symm⟩
  · exact ⟨rfl, rfl⟩

theorem Call.Plain.no_beat (hplain : c.Plain) (strategyId : String) : beatOf strategyId c = none := by
  cases c <;> first | rfl | exact absurd hplain id

/-- **One call** keeps the counters in step with the beats. -/
theorem Counted.step (hcounted : Counted h) (heffect : Effect h.db c db') :
    Counted { db := db', log := h.log ++ [c] } := by
  cases heffect with
  | create s hnew hresult hcount =>
      refine ⟨fun t ht => ?_, fun sid => ?_, fun sid hsid => ?_⟩
      · rw [beats_append]
        rcases List.mem_append.mp ht with ht | ht
        · simpa [beatOf] using hcounted.counts t ht
        · rw [List.mem_singleton.mp ht, hcount]
          have hnone := (hcounted.events s.id).symm.trans (hcounted.known s.id hnew)
          simpa [beatOf] using (counted_of_no_event hnone).symm
      · rw [beats_append]
        simp only [beatOf, Option.toList_none, List.append_nil]
        exact hcounted.events sid
      · refine hcounted.known sid ?_
        simp only [Db.hasStrategy, List.any_append, Bool.or_eq_false_iff] at hsid
        exact hsid.1
  | metrics strategyId result =>
      exact hcounted.step_aside (fun _ => rfl) rfl (fun s hs => count_updateStrategy hs fun _ => ⟨rfl, rfl⟩)
        fun sid hsid => hasStrategy_of_update hsid fun _ => rfl
  | reset strategyId =>
      refine ⟨fun s hs => ?_, fun sid => ?_, fun sid hsid => ?_⟩
      · obtain ⟨t, ht, rfl⟩ := mem_updateStrategy.mp hs
        rw [beats_append]
        by_cases hid : t.id = strategyId
        · simp [hid, beatOf, counted_snoc, Beat.count]
        · simpa [hid, beatOf, Ne.symm hid] using hcounted.counts t ht
      · rw [beats_append, List.filterMap_append, ← hcounted.events sid]
        by_cases hid : strategyId = sid <;>
          simp [beatOf, hid, List.filterMap_cons, Beat.event?, Db.resetStagnation, Db.updateStrategy, Db.eventsOf]
      · exact hcounted.known sid (hasStrategy_of_update hsid fun _ => rfl)
  | report newId strategyId version finding r hdraft =>
      exact hcounted.step_aside (fun _ => rfl) rfl (fun s hs => ⟨s, hs, rfl, rfl⟩) fun _ hsid => hsid
  | publish reportId finding now hcheck =>
      exact hcounted.step_aside (fun _ => rfl) rfl (fun s hs => ⟨s, hs, rfl, rfl⟩) fun _ hsid => hsid
  | event text e htext hknown =>
      have heventsOf : ∀ sid, (Db.mirrorEvent { h.db with
          events := h.db.events ++ [e], nextEventId := h.db.nextEventId + 1 } e.strategyId e.event).eventsOf sid =
          h.db.eventsOf sid ++ if e.strategyId = sid then [e.event] else [] := by
        intro sid
        unfold Db.eventsOf
        by_cases hid : e.strategyId = sid <;> simp [Db.mirrorEvent, Db.updateStrategy, List.filter_append, hid]
      refine ⟨fun s hs => ?_, fun sid => ?_, fun sid hsid => ?_⟩
      · obtain ⟨t, ht, rfl⟩ := mem_updateStrategy.mp hs
        rw [beats_append]
        by_cases hid : t.id = e.strategyId
        · simp [hid, beatOf, htext, counted_snoc, Beat.count, ← hid ▸ hcounted.counts t ht]
        · simpa [hid, beatOf, Ne.symm hid] using hcounted.counts t ht
      · rw [beats_append]
        refine (heventsOf sid).trans ?_
        by_cases hid : e.strategyId = sid
        · simp [beatOf, hid, htext, Beat.event?, hcounted.events sid]
        · simp [beatOf, hid, hcounted.events sid]
      · have hold : h.db.hasStrategy sid = false := hasStrategy_of_update hsid fun _ => rfl
        refine (heventsOf sid).trans ?_
        rw [hcounted.known sid hold, if_neg]
        · rfl
        · rintro rfl
          rw [hknown] at hold
          cases hold
  | update c hplain strategyId set hset =>
      exact hcounted.step_aside hplain.no_beat rfl
        (fun s hs => count_updateStrategy hs fun s => ⟨(hset s).1, (hset s).2.2⟩)
        fun sid hsid => hasStrategy_of_update hsid fun s => (hset s).1
  | aside c hplain db' hstrategies hevents hreports =>
      refine hcounted.step_aside hplain.no_beat hevents (fun s hs => ⟨s, hstrategies ▸ hs, rfl, rfl⟩) fun sid hsid => ?_
      unfold Db.hasStrategy at hsid ⊢
      rwa [hstrategies] at hsid

theorem counted_run (calls : List Call) : Counted (.run calls) :=
  History.run_invariant counted_start (fun _ _ _ hcounted hexec => hcounted.step (exec_effect hexec)) calls

end CryptoAggHarmonic.FtStrategy

/-!
# Where the evidence of the gate comes from

Every piece of evidence in the tables was put there by a call of the run: the metrics of a strategy by the last
`update_latest_result` of it, a final report by its publication, an event by its `record_event`.
-/

namespace CryptoAggHarmonic.FtStrategy

variable {db db' : Db} {c : Call} {s : Strategy} {h : History} {log : List Call} {strategyId : String}
  {result : LatestResult}

/-- The call is the last one that set the metrics of the strategy. -/
def LastResult (log : List Call) (strategyId : String) (result : LatestResult) : Prop :=
  ∃ before after, log = before ++ .updateLatestResult strategyId result :: after ∧
    ∀ later, .updateLatestResult strategyId later ∉ after

def Published (log : List Call) (reportId : String) : Prop := ∃ finding now, .publishReport reportId finding now ∈ log

def EventRecorded (log : List Call) (e : EventRow) : Prop :=
  ∃ text, Event.ofText text = some e.event ∧ .recordEvent e.strategyId text e.version e.sharpe e.maxDd e.note ∈ log

structure Evidenced (h : History) : Prop where
  metrics : ∀ s ∈ h.db.strategies, ∀ result, s.latestResult = some result → LastResult h.log s.id result
  reports : ∀ r ∈ h.db.reports, r.authoringState = .final → Published h.log r.id
  events : ∀ e ∈ h.db.events, EventRecorded h.log e

theorem evidenced_start : Evidenced .start where
  metrics := by simp [History.start, Db.empty]
  reports := by simp [History.start, Db.empty]
  events := by simp [History.start, Db.empty]

theorem LastResult.append (hlast : LastResult log strategyId result)
    (hc : ∀ later, c ≠ .updateLatestResult strategyId later) : LastResult (log ++ [c]) strategyId result := by
  obtain ⟨before, after, rfl, hafter⟩ := hlast
  refine ⟨before, after ++ [c], by simp, fun later hmem => ?_⟩
  rcases List.mem_append.mp hmem with hmem | hmem
  · exact hafter later hmem
  · exact hc later (List.mem_singleton.mp hmem).symm

theorem lastResult_self : LastResult (log ++ [.updateLatestResult strategyId result]) strategyId result :=
  ⟨log, [], rfl, by simp⟩

theorem Published.append {reportId : String} (hp : Published log reportId) : Published (log ++ [c]) reportId := by
  obtain ⟨finding, now, hmem⟩ := hp
  exact ⟨finding, now, List.mem_append_left _ hmem⟩

theorem EventRecorded.append {e : EventRow} (he : EventRecorded log e) : EventRecorded (log ++ [c]) e := by
  obtain ⟨text, htext, hmem⟩ := he
  exact ⟨text, htext, List.mem_append_left _ hmem⟩

theorem Evidenced.metrics_of (h : History) (hev : Evidenced h) (hc : ∀ sid later, c ≠ .updateLatestResult sid later)
    (hdb : ∀ s ∈ db'.strategies, s.latestResult = none ∨
      ∃ t ∈ h.db.strategies, t.id = s.id ∧ t.latestResult = s.latestResult) :
    ∀ s ∈ db'.strategies, ∀ result, s.latestResult = some result → LastResult (h.log ++ [c]) s.id result := by
  intro s hs result hresult
  rcases hdb s hs with hnone | ⟨t, ht, hid, hsame⟩
  · rw [hnone] at hresult
    cases hresult
  · rw [← hid]
    exact (hev.metrics t ht result (hsame.trans hresult)).append (hc t.id)

theorem metrics_updateStrategy {set : Strategy → Strategy} (hs : s ∈ (db.updateStrategy strategyId set).strategies)
    (hset : ∀ s, (set s).id = s.id ∧ (set s).latestResult = s.latestResult) :
    ∃ t ∈ db.strategies, t.id = s.id ∧ t.latestResult = s.latestResult := by
  obtain ⟨t, ht, rfl⟩ := mem_updateStrategy.mp hs
  refine ⟨t, ht, ?_⟩
  split_ifs
  · exact ⟨(hset t).1.symm, (hset t).2.symm⟩
  · exact ⟨rfl, rfl⟩

theorem Call.Plain.ne_update (hplain : c.Plain) (sid : String) (later : LatestResult) :
    c ≠ .updateLatestResult sid later := by
  rintro rfl
  exact hplain

/-- **One call** keeps the evidence accounted for. -/
theorem Evidenced.step (hev : Evidenced h) (heffect : Effect h.db c db') :
    Evidenced { db := db', log := h.log ++ [c] } := by
  have hreports : ∀ r ∈ h.db.reports, r.authoringState = .final → Published (h.log ++ [c]) r.id :=
    fun r hr hfinal => (hev.reports r hr hfinal).append
  have hevents : ∀ e ∈ h.db.events, EventRecorded (h.log ++ [c]) e := fun e he => (hev.events e he).append
  cases heffect with
  | create s hnew hresult hcount =>
      refine ⟨hev.metrics_of h (by simp) fun t ht => ?_, hreports, hevents⟩
      rcases List.mem_append.mp ht with ht | ht
      · exact Or.inr ⟨t, ht, rfl, rfl⟩
      · rw [List.mem_singleton.mp ht]
        exact Or.inl hresult
  | metrics strategyId result =>
      refine ⟨fun s hs result' hresult => ?_, hreports, hevents⟩
      obtain ⟨t, ht, rfl⟩ := mem_updateStrategy.mp hs
      by_cases hid : t.id = strategyId
      · subst hid
        rw [if_pos rfl] at hresult ⊢
        cases hresult
        exact lastResult_self
      · rw [if_neg hid] at hresult ⊢
        refine (hev.metrics t ht result' hresult).append fun later => ?_
        rw [ne_eq, Call.updateLatestResult.injEq]
        exact fun heq => hid heq.1.symm
  | reset strategyId =>
      exact ⟨hev.metrics_of h (by simp) fun s hs => Or.inr (metrics_updateStrategy hs fun _ => ⟨rfl, rfl⟩),
        hreports, hevents⟩
  | report newId strategyId version finding r hdraft =>
      refine ⟨hev.metrics_of h (by simp) fun s hs => Or.inr ⟨s, hs, rfl, rfl⟩, fun r' hr' hfinal => ?_, hevents⟩
      rcases List.mem_append.mp hr' with hr' | hr'
      · exact hreports r' hr' hfinal
      · rw [List.mem_singleton.mp hr', hdraft] at hfinal
        cases hfinal
  | publish reportId finding now hcheck =>
      refine ⟨hev.metrics_of h (by simp) fun s hs => Or.inr ⟨s, hs, rfl, rfl⟩, fun r' hr' hfinal => ?_, hevents⟩
      obtain ⟨r, hr, rfl⟩ := List.mem_map.mp hr'
      by_cases hid : r.id = reportId
      · rw [if_pos hid]
        exact ⟨finding, now, by simp [hid]⟩
      · rw [if_neg hid] at hfinal ⊢
        exact hreports r hr hfinal
  | event text e htext hknown =>
      refine ⟨hev.metrics_of h (by simp) fun s hs => Or.inr ?_, hreports, fun e' he' => ?_⟩
      · exact metrics_updateStrategy hs fun _ => ⟨rfl, rfl⟩
      · rcases List.mem_append.mp he' with he' | he'
        · exact hevents e' he'
        · rw [List.mem_singleton.mp he']
          exact ⟨text, htext, by simp⟩
  | update c hplain strategyId set hset =>
      refine ⟨hev.metrics_of h hplain.ne_update fun s hs => Or.inr ?_, hreports, hevents⟩
      exact metrics_updateStrategy hs fun s => ⟨(hset s).1, (hset s).2.1⟩
  | aside c hplain db' hstrategies hevents' hreports' =>
      refine ⟨hev.metrics_of h hplain.ne_update fun s hs => Or.inr ⟨s, hstrategies ▸ hs, rfl, rfl⟩, ?_, ?_⟩
      · rw [hreports']
        exact hreports
      · rw [hevents']
        exact hevents

theorem evidenced_run (calls : List Call) : Evidenced (.run calls) :=
  History.run_invariant evidenced_start (fun _ _ _ hev hexec => hev.step (exec_effect hexec)) calls

end CryptoAggHarmonic.FtStrategy
