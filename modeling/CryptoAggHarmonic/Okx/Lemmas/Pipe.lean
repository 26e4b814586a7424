import Mathlib.Data.List.Induction
import CryptoAggHarmonic.Okx.Client

/-!
# The lines that wait

What one call takes from the lines that wait, and from it what every prefix of the calls leaves.
-/

namespace CryptoAggHarmonic.Okx

variable {uuid : ℕ → String} {s : Pipe} {t : Turn} {turns : List Turn} {m : Message}

/-- A condition on every element and what precedes it, put of the last element and the rest. -/
theorem forall_splits_concat {α : Type} {Q : List α → α → Prop} {xs : List α} {x : α} :
    (∀ before y after, xs ++ [x] = before ++ y :: after → Q before y) ↔
      (∀ before y after, xs = before ++ y :: after → Q before y) ∧ Q xs x := by
  constructor
  · intro h
    refine ⟨fun before y after hsplit => h before y (after ++ [x]) ?_, h xs x [] rfl⟩
    rw [hsplit, List.append_assoc, List.cons_append]
  · rintro ⟨hxs, hx⟩ before y after hsplit
    rcases List.eq_nil_or_concat after with rfl | ⟨after, z, rfl⟩
    · obtain ⟨rfl, hy⟩ := List.append_inj' hsplit rfl
      cases hy
      exact hx
    · rw [List.concat_eq_append, ← List.cons_append, ← List.append_assoc] at hsplit
      obtain ⟨rfl, -⟩ := List.append_inj' hsplit rfl
      exact hxs before y after rfl

/-! ## One call -/

/-- The lines that have arrived and have not been read. -/
def Pipe.waiting (s : Pipe) : List Message := s.buffered ++ s.unread

/-- **One call** takes the first line that waits, when there is something to read, and leaves the others. -/
theorem receive_spec (s : Pipe) (t : Turn) :
    (s.ready t ∧ ∃ m, (s.receive t).2 = .message m ∧ s.waiting ++ t.arrived = m :: (s.receive t).1.waiting) ∨
      (¬ s.ready t ∧ (∀ m, (s.receive t).2 ≠ .message m) ∧ s.waiting ++ t.arrived = (s.receive t).1.waiting) := by
  simp only [Pipe.receive, Pipe.ready, Pipe.waiting]
  cases hbroken : t.broken with
  | true => exact Or.inr ⟨by simp, by simp, by simp⟩
  | false =>
      simp only [Bool.false_eq_true, if_false, true_and]
      cases hunread : s.unread ++ t.arrived with
      | nil =>
          cases hended : t.ended with
          | false => exact Or.inr ⟨by simp, by simp, by simpa using hunread⟩
          | true =>
              cases hbuffered : s.buffered with
              | nil => exact Or.inr ⟨by simp, by simp [Pipe.readline], by simpa [Pipe.readline] using hunread⟩
              | cons m buffered =>
                  refine Or.inl ⟨by simp, m, by simp [Pipe.readline], ?_⟩
                  simpa [Pipe.readline] using hunread
      | cons m unread =>
          cases hbuffered : s.buffered with
          | nil =>
              refine Or.inl ⟨by simp, m, by simp [Pipe.readline], ?_⟩
              simpa [Pipe.readline] using hunread
          | cons m' buffered =>
              refine Or.inl ⟨by simp, m', by simp [Pipe.readline], ?_⟩
              simpa [Pipe.readline] using hunread

theorem receive_message_iff : (∃ m, (s.receive t).2 = .message m) ↔ s.ready t := by
  rcases receive_spec s t with ⟨hready, m, hm, -⟩ | ⟨hready, hnone, -⟩
  · exact ⟨fun _ => hready, fun _ => ⟨m, hm⟩⟩
  · exact ⟨fun ⟨m, hm⟩ => absurd hm (hnone m), fun h => absurd h hready⟩

theorem received_concat (turns : List Turn) (t : Turn) : received (turns ++ [t]) = (received turns).step t := by
  simp [received, Steps.run, List.foldl_append]

/-- What waits has arrived in one of the turns. -/
theorem waiting_arrived (h : m ∈ (received turns).waiting) : ∃ t ∈ turns, m ∈ t.arrived := by
  induction turns using List.reverseRecOn with
  | nil => simp [received, Pipe.waiting] at h
  | append_singleton turns t ih =>
      rw [received_concat] at h
      have hmem : m ∈ (received turns).waiting ++ t.arrived := by
        rcases receive_spec (received turns) t with ⟨-, first, -, hsplit⟩ | ⟨-, -, hsplit⟩
        · rw [hsplit]
          exact List.mem_cons_of_mem _ h
        · rw [hsplit]
          exact h
      rcases List.mem_append.mp hmem with hwaiting | harrived
      · obtain ⟨u, hu, hm⟩ := ih hwaiting
        exact ⟨u, List.mem_append_left _ hu, hm⟩
      · exact ⟨t, by simp, harrived⟩

/-! ## Runs of calls -/

theorem AnswersRequests.concat (h : AnswersRequests (turns ++ [t])) :
    AnswersRequests turns ∧ ∀ id payload, .response id payload ∈ t.arrived →
      ∃ earlier u later, turns ++ [t] = earlier ++ u :: later ∧ earlier.length = id ∧ u.broken = false :=
  forall_splits_concat.mp h

/-- The request that a line answers is not after the call during which the line arrives. -/
theorem AnswersRequests.id_le {before after : List Turn} {id : ℕ} {payload : Except Json Json}
    (h : AnswersRequests (before ++ t :: after)) (hmem : .response id payload ∈ t.arrived) : id ≤ before.length := by
  obtain ⟨earlier, u, later, hsplit, rfl, -⟩ := h before t after rfl id payload hmem
  have := congrArg List.length hsplit
  simp at this
  omega

/-- A call that is answered has been written. -/
theorem AnswersRequests.unbroken {before after : List Turn} {payload : Except Json Json}
    (h : AnswersRequests (before ++ t :: after)) (hmem : .response before.length payload ∈ t.arrived) :
    t.broken = false := by
  obtain ⟨earlier, u, later, hsplit, hlength, hu⟩ := h before t after rfl _ payload hmem
  obtain ⟨rfl, htail⟩ := List.append_inj hsplit hlength.symm
  cases htail
  exact hu

/-- After calls that were answered punctually nothing waits. -/
theorem Punctual.waiting (hanswers : AnswersRequests turns) (h : Punctual turns) : (received turns).waiting = [] := by
  induction turns using List.reverseRecOn with
  | nil => rfl
  | append_singleton turns t ih =>
      obtain ⟨hturns, ht⟩ := forall_splits_concat.mp h
      have hempty := ih hanswers.concat.1 hturns
      rw [received_concat]
      rcases ht with hnone | ⟨payload, hone⟩
      · rcases receive_spec (received turns) t with ⟨-, m, -, hsplit⟩ | ⟨-, -, hsplit⟩
        · rw [hempty, hnone] at hsplit
          cases hsplit
        · rw [hempty, hnone] at hsplit
          exact hsplit.symm
      · have hmem : .response turns.length payload ∈ t.arrived := by rw [hone]; exact List.mem_singleton_self _
        have hunbroken : t.broken = false := AnswersRequests.unbroken (t := t) hanswers hmem
        rcases receive_spec (received turns) t with ⟨-, m, -, hsplit⟩ | ⟨hready, -, -⟩
        · rw [hempty, hone] at hsplit
          exact (List.cons.inj hsplit).2.symm
        · exact absurd ⟨hunbroken, Or.inl (by simp [hone])⟩ hready

/-- A line that answers the next call cannot have been waiting before it. -/
theorem waiting_eq_nil {arrived rest : List Message} (hanswers : AnswersRequests turns)
    (hid : m.id? = some turns.length) (hsplit : (received turns).waiting ++ arrived = m :: rest) :
    (received turns).waiting = [] := by
  cases hw : (received turns).waiting with
  | nil => rfl
  | cons first others =>
      rw [hw, List.cons_append] at hsplit
      obtain ⟨rfl, -⟩ := List.cons.inj hsplit
      obtain ⟨u, hu, harrived⟩ := waiting_arrived (hw ▸ List.mem_cons_self : first ∈ (received turns).waiting)
      obtain ⟨before, after, rfl⟩ := List.append_of_mem hu
      cases first with
      | notification method => cases hid
      | response id payload =>
          rw [Message.id?, Option.some.injEq] at hid
          have hle := hanswers.id_le harrived
          simp at hid
          omega

/-- Calls that each read their own response, with nothing left waiting, were answered punctually. -/
theorem Correlated.punctual (hanswers : AnswersRequests turns) (h : Correlated uuid turns)
    (hempty : (received turns).waiting = []) : Punctual turns := by
  induction turns using List.reverseRecOn with
  | nil =>
      intro before t after hsplit
      simp at hsplit
  | append_singleton turns t ih =>
      obtain ⟨hturns, hown, -⟩ := forall_splits_concat.mp h
      rw [received_concat] at hempty
      refine forall_splits_concat.mpr ?_
      rcases receive_spec (received turns) t with ⟨-, m, hm, hsplit⟩ | ⟨-, -, hsplit⟩
      · change (received turns).waiting ++ t.arrived = m :: ((received turns).step t).waiting at hsplit
        have hwaiting := waiting_eq_nil hanswers.concat.1 (hown m hm) hsplit
        rw [hempty, hwaiting, List.nil_append] at hsplit
        refine ⟨ih hanswers.concat.1 hturns hwaiting, Or.inr ?_⟩
        cases m with
        | notification method => cases hown _ hm
        | response id payload =>
            have hid := Option.some.inj (hown _ hm)
            exact ⟨payload, by rw [hsplit, hid]⟩
      · change (received turns).waiting ++ t.arrived = ((received turns).step t).waiting at hsplit
        rw [hempty, List.append_eq_nil_iff] at hsplit
        exact ⟨ih hanswers.concat.1 hturns hsplit.1, Or.inl hsplit.2⟩

/-- A request is answered once, so two of its responses are one. -/
theorem WellFormed.payload_unique {id : ℕ} {payload payload' : Except Json Json} {rest : List Message}
    (h : WellFormed turns) (ht : t ∈ turns) (harrived : t.arrived = .response id payload' :: rest)
    (hmem : .response id payload ∈ t.arrived) : payload = payload' := by
  have hsub : (t.arrived.filterMap Message.id?).Nodup := by
    obtain ⟨before, after, rfl⟩ := List.append_of_mem ht
    have honce := h.once
    simp only [List.flatMap_append, List.flatMap_cons, List.filterMap_append] at honce
    exact (List.nodup_append.mp (List.nodup_append.mp honce).2.1).1
  rw [harrived] at hsub hmem
  rcases List.mem_cons.mp hmem with heq | hrest
  · exact (Message.response.inj heq).2
  · have hnot : id ∉ rest.filterMap Message.id? := (List.nodup_cons.mp hsub).1
    exact absurd (List.mem_filterMap.mpr ⟨.response id payload, hrest, rfl⟩ : id ∈ rest.filterMap Message.id?) hnot

/-- The value of the caller is what the line carries. -/
theorem result_response (uuid : ℕ → String) (id : ℕ) (payload : Except Json Json) :
    ((Answer.message (.response id payload)).reading uuid).result = payloadResult payload := by
  cases payload with
  | ok result => rfl
  | error err => rfl

end CryptoAggHarmonic.Okx
