import CryptoAggHarmonic.Vibe.Events
import Mathlib.Data.List.Nodup

/-!
# Sequence numbers and positions

The cursor is a position, so it is right as long as every event has its position for a number and none is stored where
it is not read.
-/

namespace CryptoAggHarmonic.Vibe

open Interleave

section

variable {ι V D : Type} {P : Pydantic V D} {s : EventStore D} {b : Backend D} {v : VibeEvent D} {reach : Reach}
  {received es : List (VibeEvent D)} {offset limit : ℤ}

namespace EventStore

/-- Every event is where it is read, at the position of its number. -/
structure Ordered (s : EventStore D) : Prop where
  hidden : s.hidden = []
  numbered : Cursor.Numbered VibeEvent.seq s.visible

theorem ordered_empty (withRedis : Bool) : (EventStore.empty (D := D) withRedis).Ordered := by
  cases withRedis <;> exact ⟨rfl, Cursor.numbered_nil⟩

theorem visible_count : (s.command reach Backend.count).visible = s.visible := by
  rcases s with ⟨_ | b, m⟩ <;> cases reach <;> rfl

theorem hidden_count : (s.command reach Backend.count).hidden = s.hidden := by
  rcases s with ⟨_ | b, m⟩ <;> cases reach <;> rfl

theorem ordered_iff : s.Ordered ↔ s.hidden = [] ∧ Cursor.Numbered VibeEvent.seq s.visible :=
  ⟨fun h => ⟨h.hidden, h.numbered⟩, fun h => ⟨h.1, h.2⟩⟩

theorem ordered_count : (s.command reach Backend.count).Ordered ↔ s.Ordered := by
  rw [ordered_iff, ordered_iff, hidden_count, visible_count]

/-- An append keeps the order exactly when it goes where events are read, with the next position for a number. -/
theorem ordered_append : (s.command reach fun b => b.append v).Ordered ↔
    s.Ordered ∧ (s.redis = none ∨ reach = .answers) ∧ v.seq = some (s.visible.length : ℤ) := by
  have hnumbered : ∀ log : List (VibeEvent D), Cursor.Numbered VibeEvent.seq (log ++ [v]) ↔
      Cursor.Numbered VibeEvent.seq log ∧ v.seq = some (log.length : ℤ) := fun _ => Cursor.numbered_append
  rcases s with ⟨_ | b, m⟩
  · constructor
    · intro h
      have := (hnumbered m.events).mp (by cases reach <;> exact h.numbered)
      exact ⟨⟨rfl, this.1⟩, .inl rfl, this.2⟩
    · rintro ⟨h, -, hseq⟩
      have := (hnumbered m.events).mpr ⟨h.numbered, hseq⟩
      exact ⟨by cases reach <;> rfl, by cases reach <;> exact this⟩
  · cases reach with
    | answers =>
        constructor
        · intro h
          have := (hnumbered b.events).mp h.numbered
          exact ⟨⟨h.hidden, this.1⟩, .inr rfl, this.2⟩
        · rintro ⟨h, -, hseq⟩
          exact ⟨h.hidden, (hnumbered b.events).mpr ⟨h.numbered, hseq⟩⟩
    | lost => exact ⟨fun h => absurd h.hidden (by simp [command, EventStore.hidden, Backend.append]), by simp⟩
    | down => exact ⟨fun h => absurd h.hidden (by simp [command, EventStore.hidden, Backend.append]), by simp⟩

theorem visible_append_prefix : s.visible <+: (s.command reach fun b => b.append v).visible := by
  rcases s with ⟨_ | b, m⟩ <;> cases reach <;>
    first
      | exact List.prefix_append _ _
      | exact List.prefix_rfl

theorem commit_visible_prefix {e : Payload V} : s.visible <+: (s.commit P reach e).visible := by
  rw [commit]
  cases e.validate P with
  | none => exact List.prefix_rfl
  | some v => exact visible_append_prefix

/-! ## Pages -/

theorem fetchRange_eq (ho : 0 ≤ offset) (hn : 1 ≤ limit) :
    s.fetchRange .answers offset limit = (s.visible.drop offset.toNat).take limit.toNat := by
  rcases s with ⟨_ | b, m⟩
  · exact pySlice_eq ho hn
  · exact lrange_eq ho hn

theorem fetchRange_prefix (hs : s.hidden = []) (ho : 0 ≤ offset) :
    s.fetchRange reach offset limit <+: s.visible.drop offset.toNat := by
  rcases s with ⟨_ | b, m⟩
  · cases reach <;> exact pySlice_prefix ho _
  · have hm : m.events = [] := hs
    cases reach with
    | answers => exact lrange_prefix ho _
    | lost => simp [fetchRange, pySlice, hm]
    | down => simp [fetchRange, pySlice, hm]

end EventStore

theorem lastSeen_eq (h : Cursor.Numbered VibeEvent.seq received) : lastSeen received = (received.length : ℤ) - 1 := by
  rcases List.eq_nil_or_concat received with rfl | ⟨earlier, e, rfl⟩
  · rfl
  · rw [List.concat_eq_append] at h ⊢
    obtain ⟨-, he⟩ := Cursor.numbered_append.mp h
    simp [lastSeen, List.filterMap_append, he]

theorem EventStore.Ordered.lastSeen (h : s.Ordered) (hread : received <+: s.visible) :
    Vibe.lastSeen received = (received.length : ℤ) - 1 := by
  obtain ⟨rest, hrest⟩ := hread
  refine lastSeen_eq fun i e he => h.numbered i e ?_
  obtain ⟨hi, -⟩ := List.getElem?_eq_some_iff.mp he
  rw [← hrest, List.getElem?_append_left hi, he]

/-! ## Runs -/

variable [DecidableEq ι] {runId : String} {w : World ι (EventStore D) (Party V D)} {e : ι × Answer}

/-- An event is stored where events are read, with the next position for a number. -/
def InTurn (P : Pydantic V D) (w : World ι (EventStore D) (Party V D)) (e : ι × Answer) : Prop :=
  match w.procs e.1 with
  | .publisher (some p) _ => ∀ v, p.validate P = some v →
      (w.shared.redis = none ∨ e.2.reach = .answers) ∧ v.seq = some (w.shared.visible.length : ℤ)
  | _ => True

theorem ordered_step : (step (act P runId) w e).shared.Ordered ↔ w.shared.Ordered ∧ InTurn P w e := by
  rw [step_shared, InTurn]
  rcases w.procs e.1 with ⟨_ | p, _ | ⟨q, queue⟩⟩ | received
  · exact (and_iff_left trivial).symm
  · exact EventStore.ordered_count.trans (and_iff_left trivial).symm
  all_goals try exact (and_iff_left trivial).symm
  all_goals
    simp only [act, EventStore.commit]
    cases hv : p.validate P with
    | none => simp
    | some v => simp [EventStore.ordered_append]

theorem ordered_run {schedule : List (ι × Answer)} :
    (run (act P runId) w schedule).shared.Ordered ↔
      w.shared.Ordered ∧ Along (act P runId) (InTurn P) w schedule :=
  run_iff_along (P := fun w : World ι (EventStore D) (Party V D) => w.shared.Ordered) fun _ _ => ordered_step

/-- What a client has received is the beginning of what is stored. -/
def Party.Reads (s : EventStore D) : Party V D → Prop
  | .publisher .. => True
  | .client received => received <+: s.visible

theorem reads_step (h : Holds EventStore.Ordered Party.Reads w) (hok : InTurn P w e) :
    Holds EventStore.Ordered Party.Reads (Interleave.step (act P runId) w e) := by
  refine h.step ⟨ordered_step.mpr ⟨h.1, hok⟩, ?_⟩ ?_
  · have hown := h.2 e.1
    rcases hp : w.procs e.1 with ⟨_ | p, _ | ⟨q, queue⟩⟩ | received
    all_goals try trivial
    rw [hp] at hown
    have hseen := h.1.lastSeen hown
    have hpage : w.shared.getEvents e.2.reach none (some (lastSeen received)) none e.2.limit <+:
        w.shared.visible.drop received.length := by
      have : w.shared.fetchRange e.2.reach (lastSeen received + 1) e.2.limit <+:
          w.shared.visible.drop (lastSeen received + 1).toNat :=
        EventStore.fetchRange_prefix h.1.hidden (by omega)
      rwa [show (lastSeen received + 1).toNat = received.length by omega] at this
    obtain ⟨rest, hrest⟩ := hown
    have hdrop : w.shared.visible.drop received.length = rest := by rw [← hrest, List.drop_left]
    show received ++ _ <+: w.shared.visible
    rw [← hrest]
    exact (List.prefix_append_right_inj received).mpr (hdrop ▸ hpage)
  · intro c _ hc
    rcases hp : w.procs c with ⟨prepared, queue⟩ | received
    · trivial
    · rw [hp] at hc
      refine hc.trans ?_
      rcases w.procs e.1 with ⟨_ | p, _ | ⟨q, queue⟩⟩ | received
      all_goals first
        | exact EventStore.commit_visible_prefix
        | exact EventStore.visible_count ▸ List.prefix_rfl
        | exact List.prefix_rfl

end

end CryptoAggHarmonic.Vibe

/-!
# What a poll delivers

A poll with an id returns the last events after it, so it continues what the client has exactly when the page takes
all of them.
-/

namespace CryptoAggHarmonic.Vibe

section

variable {ι V D : Type} {P : Pydantic V D} {s : EventStore D} {v : VibeEvent D} {reach : Reach} {limit : ℤ}
  {received rest es : List (VibeEvent D)}

abbrev ids (es : List (VibeEvent D)) : List String := es.map VibeEvent.eventId

namespace EventStore

theorem backend_answers (h : s.redis = none ∨ reach = .answers) : s.backend reach = s.backend .answers := by
  rcases h with h | rfl
  · rcases s with ⟨_ | b, m⟩
    · cases reach <;> rfl
    · cases h
  · rfl

theorem fetchRange_answers {offset : ℤ} (h : s.redis = none ∨ reach = .answers) :
    s.fetchRange reach offset limit = s.fetchRange .answers offset limit := by
  rcases h with h | rfl
  · rcases s with ⟨_ | b, m⟩
    · cases reach <;> rfl
    · cases h
  · rfl

theorem append_visible (h : s.redis = none ∨ reach = .answers) :
    (s.command reach fun b => b.append v).visible = s.visible ++ [v] ∧
      (s.command reach fun b => b.append v).hidden = s.hidden := by
  rcases h with h | rfl
  · rcases s with ⟨_ | b, m⟩
    · cases reach <;> exact ⟨rfl, rfl⟩
    · cases h
  · rcases s with ⟨_ | b, m⟩ <;> exact ⟨rfl, rfl⟩

theorem publish_eq {reachAppend : Reach} {runId newId now : String} {e : Payload V} :
    s.publish P reach reachAppend runId newId now e =
      (s.command reach Backend.count).commit P reachAppend (s.prepare P reach runId newId now e).1 := rfl

theorem count_redis : (s.command reach Backend.count).redis = none ↔ s.redis = none := by
  rcases s with ⟨_ | b, m⟩ <;> cases reach <;> simp [command]

theorem mem_of_mem_afterId {id : String} (h : v ∈ afterId id es) : v ∈ es := by
  induction es with
  | nil => exact h
  | cons d es ih =>
      rw [afterId] at h
      split_ifs at h
      · exact List.mem_cons_of_mem _ h
      · exact List.mem_cons_of_mem _ (ih h)

theorem afterId_append {e : VibeEvent D} (h : e.eventId ∉ ids es) : afterId e.eventId (es ++ e :: rest) = rest := by
  induction es with
  | nil => simp [afterId]
  | cons d es ih =>
      simp only [ids, List.map_cons, List.mem_cons, not_or] at h
      rw [List.cons_append, afterId, if_neg (Ne.symm h.1), ih h.2]

end EventStore

/-- The last entries of what is left continue what has been read exactly when they are all of it. -/
theorem append_last_prefix {k : ℕ} (hk : 1 ≤ k) (hnodup : rest.Nodup) :
    received ++ rest.drop (rest.length - k) <+: received ++ rest ↔ rest.length ≤ k := by
  rw [List.prefix_append_right_inj]
  constructor
  · intro h
    by_contra hlong
    have hlt : rest.length - k < rest.length := by omega
    obtain ⟨tail, htail⟩ := h
    rw [List.drop_eq_getElem_cons hlt, List.cons_append] at htail
    have hfirst : rest[rest.length - k]? = rest[0]? := by
      rw [List.getElem?_eq_getElem hlt]
      exact congrArg (·[0]?) htail
    have := (List.getElem?_inj hlt hnodup).mp hfirst
    omega
  · intro h
    exact ⟨[], by rw [Nat.sub_eq_zero_of_le h, List.drop_zero, List.append_nil]⟩

/-! ## One move -/

variable {st : Session ι D} {m : Move ι V}

/-- Events go where they are read, each with an id of its own, and polls get there, for one event at least. -/
def Regular (P : Pydantic V D) (st : Session ι D) : Move ι V → Prop
  | .publish reach reachAppend runId newId now e =>
      ∀ v ∈ (st.store.prepare P reach runId newId now e).1.validate P,
        (st.store.redis = none ∨ reachAppend = .answers) ∧ v.eventId ∉ ids st.store.visible
  | .finish => True
  | .poll _ reach limit => (st.store.redis = none ∨ reach = .answers) ∧ 1 ≤ limit

instance : (m : Move ι V) → Decidable (Regular P st m)
  | .publish reach _ runId newId now e =>
      inferInstanceAs (Decidable (∀ v ∈ (st.store.prepare P reach runId newId now e).1.validate P, _))
  | .finish => inferInstanceAs (Decidable True)
  | .poll _ _ _ => inferInstanceAs (Decidable (_ ∧ _))

/-- A poll with an id takes all that is new to the client. -/
def Fits (st : Session ι D) : Move ι V → Prop
  | .poll c _ limit => (st.clients c).stopped = true ∨ (st.clients c).received = [] ∨
      (st.store.visible.length : ℤ) ≤ (st.clients c).received.length + min limit 200
  | _ => True

instance : (m : Move ι V) → Decidable (Fits st m)
  | .publish .. => inferInstanceAs (Decidable True)
  | .finish => inferInstanceAs (Decidable True)
  | .poll _ _ _ => inferInstanceAs (Decidable (_ ∨ _))

structure Session.Sound (st : Session ι D) : Prop where
  hidden : st.store.hidden = []
  nodup : (ids st.store.visible).Nodup
  known : ∀ c, ∀ e ∈ (st.clients c).received, e ∈ st.store.visible
  ended : ∀ c, (st.clients c).stopped = true → st.ended = true

/-- The client has the events up to some point, and all of them when it has stopped. -/
structure Client.Delivered (store : EventStore D) (c : Client D) : Prop where
  begins : c.received <+: store.stored
  complete : c.stopped = true → c.received = store.stored

def Session.Delivered (st : Session ι D) : Prop := ∀ c, (st.clients c).Delivered st.store

theorem Session.Sound.stored (h : st.Sound) : st.store.stored = st.store.visible := by
  rw [EventStore.stored, h.hidden, List.append_nil]

/-- The store after a publish: what it was, or one event more. -/
theorem publish_cases {reach reachAppend : Reach} {runId newId now : String} {e : Payload V} {store : EventStore D}
    (h : ∀ v ∈ (store.prepare P reach runId newId now e).1.validate P,
      (store.redis = none ∨ reachAppend = .answers) ∧ v.eventId ∉ ids store.visible) :
    let store' := store.publish P reach reachAppend runId newId now e
    store'.hidden = store.hidden ∧ (store'.visible = store.visible ∨
      ∃ v, store'.visible = store.visible ++ [v] ∧ v.eventId ∉ ids store.visible) := by
  rw [EventStore.publish_eq, EventStore.commit]
  cases hv : (store.prepare P reach runId newId now e).1.validate P with
  | none => exact ⟨EventStore.hidden_count, .inl EventStore.visible_count⟩
  | some v =>
      obtain ⟨hreach, hfresh⟩ := h v hv
      have happend := EventStore.append_visible (s := store.command reach Backend.count) (v := v)
        (hreach.imp_left EventStore.count_redis.mpr)
      have hvisible : (store.command reach Backend.count).visible = store.visible := EventStore.visible_count
      rw [hvisible] at happend
      exact ⟨happend.2.trans EventStore.hidden_count, .inr ⟨v, happend.1, hfresh⟩⟩

theorem Session.Sound.publish {reach reachAppend : Reach} {runId newId now : String} {e : Payload V} (h : st.Sound)
    (hended : st.ended = false) (hok : Regular P st (.publish reach reachAppend runId newId now e)) :
    let store' := st.store.publish P reach reachAppend runId newId now e
    Session.Sound { st with store := store' } ∧
      (Session.Delivered { st with store := store' } ↔ st.Delivered) := by
  intro store'
  have hrunning : ∀ c, (st.clients c).stopped = false := fun c => by
    by_contra hstopped
    rw [h.ended c (by simpa using hstopped)] at hended
    cases hended
  obtain ⟨hhidden, hsame | ⟨v, hvisible, hfresh⟩⟩ := publish_cases hok
  · refine ⟨⟨hhidden.trans h.hidden, hsame ▸ h.nodup, fun c e he => hsame ▸ h.known c e he, h.ended⟩, ?_⟩
    have hstored : store'.stored = st.store.stored := by rw [EventStore.stored, EventStore.stored, hsame, hhidden]
    exact forall_congr' fun c =>
      ⟨fun hd => ⟨hstored ▸ hd.begins, fun hc => hstored ▸ hd.complete hc⟩,
        fun hd => ⟨hstored ▸ hd.begins, fun hc => hstored ▸ hd.complete hc⟩⟩
  · have hstored : store'.stored = st.store.stored ++ [v] := by
      rw [EventStore.stored, hvisible, hhidden, h.hidden, List.append_nil, h.stored]
    refine ⟨⟨hhidden.trans h.hidden, ?_, fun c e he => ?_, h.ended⟩,
      forall_congr' fun c => ⟨fun hd => ?_, fun hd => ?_⟩⟩
    · show (ids store'.visible).Nodup
      rw [hvisible, ids, List.map_append, List.map_singleton]
      exact List.nodup_append.mpr ⟨h.nodup, List.nodup_singleton _, fun a ha b hb hab => hfresh (by simp_all)⟩
    · show e ∈ store'.visible
      rw [hvisible]
      exact List.mem_append_left _ (h.known c e he)
    · refine ⟨?_, fun hc => by simp [hrunning c] at hc⟩
      have hbegins : (st.clients c).received <+: st.store.stored ++ [v] := hstored ▸ hd.begins
      refine (List.prefix_concat_iff.mp hbegins).resolve_left fun heq => hfresh ?_
      exact List.mem_map_of_mem (h.known c v (by rw [heq]; exact List.mem_append_right _ List.mem_cons_self))
    · refine ⟨?_, fun hc => by simp [hrunning c] at hc⟩
      show (st.clients c).received <+: store'.stored
      rw [hstored]
      exact hd.begins.trans (List.prefix_append _ _)

/-- What is left to a client that has read from the beginning, by the id of its last event. -/
theorem afterId_received {store : EventStore D} (hnodup : (ids store.visible).Nodup)
    (h : received ++ rest = store.visible)
    {last : VibeEvent D} (hlast : received.getLast? = some last) :
    EventStore.afterId last.eventId store.visible = rest := by
  obtain ⟨earlier, rfl⟩ := List.getLast?_eq_some_iff.mp hlast
  rw [← h, List.append_assoc, List.singleton_append]
  refine EventStore.afterId_append fun hmem => ?_
  rw [← h, ids, List.map_append, List.map_append, List.append_assoc] at hnodup
  exact (List.nodup_append.mp hnodup).2.2 _ hmem _ (by simp) rfl

variable {c : ι}

/-- A poll goes on where the client is exactly when it fits, and returns nothing exactly when nothing is left. -/
theorem page_iff (h : st.Sound) (hok : Regular P st (.poll c reach limit))
    (hstopped : (st.clients c).stopped = false) (hreceived : (st.clients c).received ++ rest = st.store.visible) :
    ((st.clients c).received ++ st.page c reach limit <+: st.store.visible ↔ Fits (V := V) st (.poll c reach limit)) ∧
      (st.page c reach limit = [] ↔ rest = []) := by
  obtain ⟨hreach, hlimit⟩ := hok
  have hn : 1 ≤ min limit 200 := by omega
  have hnodup : rest.Nodup := by
    have := List.Nodup.of_map _ h.nodup
    rw [← hreceived] at this
    exact (List.nodup_append.mp this).2.1
  cases hlast : (st.clients c).received.getLast? with
  | none =>
      have hnil : (st.clients c).received = [] := List.getLast?_eq_none_iff.mp hlast
      have hpage : st.page c reach limit = rest.take (min limit 200).toNat := by
        rw [hnil, List.nil_append] at hreceived
        rw [Session.page, hlast, hreceived]
        exact (EventStore.fetchRange_answers hreach).trans (EventStore.fetchRange_eq (le_refl 0) hn)
      rw [hpage]
      refine ⟨iff_of_true ?_ (.inr (.inl hnil)), ?_⟩
      · rw [← hreceived]
        exact (List.prefix_append_right_inj _).mpr (List.take_prefix _ _)
      · rw [List.take_eq_nil_iff]
        constructor
        · rintro (h0 | hrest)
          · omega
          · exact hrest
        · exact .inr
  | some last =>
      have hpage : st.page c reach limit = rest.drop (rest.length - (min limit 200).toNat) := by
        have hall : st.store.fetchAll reach = st.store.visible :=
          congrArg Backend.events (EventStore.backend_answers hreach)
        have hk : min limit 200 = ((min limit 200).toNat : ℤ) := by omega
        rw [Session.page, hlast, Option.map_some, getRunEvents, EventStore.getEvents, hall,
          afterId_received h.nodup hreceived hlast, Option.getD_some]
        conv_lhs => rw [hk]
        exact pySlice_last (by omega)
      rw [hpage, ← hreceived, append_last_prefix (by omega) hnodup]
      constructor
      · have hlength := congrArg List.length hreceived
        rw [List.length_append] at hlength
        have hsome : (st.clients c).received ≠ [] := fun hnil => by simp [hnil] at hlast
        simp only [Fits, hstopped, Bool.false_eq_true, hsome, false_or]
        omega
      · rw [List.drop_eq_nil_iff, List.eq_nil_iff_length_eq_zero]
        omega

/-- What a poll returns is stored. -/
theorem page_known (h : st.Sound) (hok : Regular P st (.poll c reach limit)) :
    ∀ e ∈ st.page c reach limit, e ∈ st.store.visible := by
  intro e he
  obtain ⟨hreach, hlimit⟩ := hok
  cases hlast : (st.clients c).received.getLast? with
  | none =>
      rw [Session.page, hlast] at he
      have := (EventStore.fetchRange_prefix h.hidden (le_refl 0)).subset he
      exact List.mem_of_mem_drop this
  | some last =>
      rw [Session.page, hlast] at he
      have hall : st.store.fetchAll reach = st.store.visible :=
        congrArg Backend.events (EventStore.backend_answers hreach)
      have := List.mem_of_mem_take (List.mem_of_mem_drop he)
      rw [hall] at this
      exact EventStore.mem_of_mem_afterId this

variable [DecidableEq ι]

theorem poll_clients (reach : Reach) (limit : ℤ) (hstopped : (st.clients c).stopped = false) (d : ι) :
    (st.poll c reach limit).clients d = if d = c then
      ⟨(st.clients c).received ++ st.page c reach limit, st.ended && (st.page c reach limit).isEmpty⟩
    else st.clients d := by
  rw [Session.poll, if_neg (by simp [hstopped])]
  exact Function.update_apply ..

theorem poll_store (st : Session ι D) (c : ι) (reach : Reach) (limit : ℤ) :
    (st.poll c reach limit).store = st.store ∧ (st.poll c reach limit).ended = st.ended := by
  rw [Session.poll]
  split_ifs <;> exact ⟨rfl, rfl⟩

theorem poll_stopped (hstopped : (st.clients c).stopped = true) : st.poll c reach limit = st := if_pos hstopped

theorem Session.Sound.poll (h : st.Sound) (hok : Regular P st (.poll c reach limit)) :
    (st.poll c reach limit).Sound ∧
      ((st.poll c reach limit).Delivered ↔ st.Delivered ∧ Fits (V := V) st (.poll c reach limit)) := by
  cases hstopped : (st.clients c).stopped with
  | true =>
      rw [poll_stopped hstopped]
      exact ⟨h, (and_iff_left (.inl hstopped)).symm⟩
  | false =>
      have hclients := poll_clients reach limit hstopped
      obtain ⟨hstore, hended⟩ := poll_store st c reach limit
      constructor
      · refine ⟨hstore ▸ h.hidden, hstore ▸ h.nodup, fun d e he => ?_, fun d hd => ?_⟩
        · rw [hclients] at he
          rw [hstore]
          split_ifs at he
          · exact (List.mem_append.mp he).elim (h.known c e) (page_known h hok e)
          · exact h.known d e he
        · rw [hclients] at hd
          rw [hended]
          split_ifs at hd
          · exact ((Bool.and_eq_true _ _).mp hd).1
          · exact h.ended d hd
      · constructor
        · intro hd
          have hc := hd c
          rw [hclients, if_pos rfl, hstore] at hc
          have hbegins := (List.prefix_append _ _).trans hc.begins
          refine ⟨fun d => ?_, ?_⟩
          · by_cases hdc : d = c
            · subst hdc
              exact ⟨hbegins, fun h' => by simp [hstopped] at h'⟩
            · have := hd d
              rwa [hclients, if_neg hdc, hstore] at this
          · obtain ⟨rest, hrest⟩ := hbegins
            rw [h.stored] at hrest
            exact (page_iff h hok hstopped hrest).1.mp (h.stored ▸ hc.begins)
        · rintro ⟨hd, hfits⟩ d
          rw [hclients, hstore]
          split_ifs with hdc
          · obtain ⟨rest, hrest⟩ := (hd c).begins
            rw [h.stored] at hrest
            obtain ⟨hgoes, hnothing⟩ := page_iff h hok hstopped hrest
            refine ⟨h.stored ▸ hgoes.mpr hfits, fun hstop => ?_⟩
            have hpage := List.isEmpty_iff.mp ((Bool.and_eq_true _ _).mp hstop).2
            rw [hnothing.mp hpage, List.append_nil] at hrest
            show (st.clients c).received ++ st.page c reach limit = st.store.stored
            rw [hpage, List.append_nil, hrest, h.stored]
          · exact hd d

theorem Session.Sound.step (h : st.Sound) (hok : Regular P st m) :
    (st.step P m).Sound ∧ ((st.step P m).Delivered ↔ st.Delivered ∧ Fits st m) := by
  cases m with
  | publish reach reachAppend runId newId now e =>
      rw [Session.step]
      split_ifs with hended
      · exact ⟨h, (and_iff_left trivial).symm⟩
      · obtain ⟨hsound, hiff⟩ := h.publish (by simpa using hended) hok
        exact ⟨hsound, hiff.trans (and_iff_left trivial).symm⟩
  | finish =>
      exact ⟨⟨h.hidden, h.nodup, h.known, fun _ _ => rfl⟩, (and_iff_left trivial).symm⟩
  | poll c reach limit => exact h.poll hok

end

end CryptoAggHarmonic.Vibe
