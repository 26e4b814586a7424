import CryptoAggHarmonic.LoopTools.Lemmas.Durable
import CryptoAggHarmonic.LoopTools.Gate
import CryptoAggHarmonic.LoopTools.Lemmas.Scratch

/-!
# The tools of the loops
-/

namespace CryptoAggHarmonic.LoopTools

open PyOs

/-! ## The gate -/

/-- What the gate keeps for a path, `root` being where the repository lies. -/
structure Guarded (hasApp : Bool) (root : List Text) (gate : GateFile) (path : Text) : Prop where
  /-- The live module under every spelling none of whose last three parts goes up. -/
  live : ∀ cfg, loadGateConfig gate = .ok cfg → hasApp = true → below root path = some liveParts →
    dotdot ∉ (parts path).rtake liveParts.length → Denies (checkPath hasApp gate path)
  /-- A pattern takes the text as it is spelled, one that opens with a star also whatever ends in the place denoted. -/
  patterns : ∀ (cfg : Config) (always deny : List Text), loadGateConfig gate = .ok cfg →
    cfg.get "always_exclude" (.seq []) = .seq (always.map .str) →
    cfg.get "denylist" (.seq []) = .seq (deny.map .str) → ∀ pattern ∈ always ++ deny,
      (Fnmatch.fnmatch path pattern → Denies (checkPath hasApp gate path)) ∧
      ∀ names, below root path = some names → Fnmatch.fnmatch (['/'].intercalate names) pattern →
        pattern.head? = some '*' → ['/'].intercalate names <:+ path → Denies (checkPath hasApp gate path)
  paused : ∀ cfg, loadGateConfig gate = .ok cfg → (cfg.get "loop_paused" .null).truthy →
    Denies (checkPath hasApp gate path) ∧ ∃ reason, checkKillSwitch gate = .ok (false, reason)
  /-- The defaults stand in for a text that is no YAML. -/
  notYaml : gate = .notYaml → checkKillSwitch gate = .ok (true, .str "ok".toList) ∧
    (¬Allows (checkPath hasApp gate path) ↔ hasApp = true ∧ liveParts <:+ parts path)
  /-- A list that cannot be gone through, or that holds something else than texts, lets no path through. -/
  illTyped : ∀ cfg label, loadGateConfig gate = .ok cfg → label ∈ ["always_exclude", "denylist"] →
    (∀ xs, (cfg.get label (.seq [])).iter? = some xs → ∃ x ∈ xs, ∀ pattern, x ≠ .str pattern) →
    ¬Allows (checkPath hasApp gate path)
  /-- Nor does a document that is no mapping. -/
  unloaded : ∀ e, loadGateConfig gate = .error e →
    ¬Allows (checkPath hasApp gate path) ∧ ∀ answer, checkKillSwitch gate ≠ .ok answer

def repository : List Text := ["srv".toList, "repo".toList]

/-- In every run whose steps are apart nothing is lost, in any state it reaches. -/
theorem scratch_nothingLost {ι : Type} [DecidableEq ι] (lower : Text → Text) (file : Option (List (Option ℚ)))
    (schedule : List (ι × Input)) (h : Interleave.Along (act lower) Apart (start file) schedule) :
    NothingLost (Interleave.run (act lower) (start file) schedule) :=
  Inv.nothingLost (Interleave.run_invariant (fun _ _ => Inv.step) (inv_start file) h)

/-- What a step finds at a time, with no gate file. -/
def atTime (now : ℚ) (call : Call) : Input :=
  { call, clock := now, clockFor := fun _ => now, gateFor := fun _ => .missing }

def longValue : Text := List.replicate 256 'v'

def otherValue : Text := List.replicate 256 'w'

/-- A value is put and, a day and an hour later, promoted. -/
def aloneSchedule : List (Bool × Input) :=
  (false, atTime 0 (.scratchPut ['k'] longValue)) :: List.replicate 8 (false, atTime 90000 .promoteAll)

theorem alone_nothingLost :
    NothingLost (Interleave.run (act id) (start none) aloneSchedule) ∧
      (Interleave.run (act id) (start none) aloneSchedule).shared.file =
        some [.record { ts := 90000, key := ['k'], value := longValue, put := 0 }] := by
  constructor
  · refine scratch_nothingLost id none aloneSchedule (along_of_alone (c := false) (fun _ _ => ⟨rfl, rfl⟩) ?_)
    intro ev hev
    have hgate : TextDenylist .missing := by
      rintro cfg ⟨⟩
      exact ⟨[], rfl, by simp⟩
    rcases List.mem_cons.mp hev with rfl | hev
    · exact ⟨rfl, fun _ => hgate⟩
    · rw [List.eq_of_mem_replicate hev]
      exact ⟨rfl, fun _ => hgate⟩
  · decide +kernel

def steps (c : Bool) (n : ℕ) : List (Bool × Input) := List.replicate n (c, atTime 90000 .promoteAll)

/-- Both threads collect the key and look at the entry before one of them deletes it. -/
def twoPromoters : List (Bool × Input) :=
  (false, atTime 0 (.scratchPut ['k'] longValue)) :: steps false 5 ++ steps true 4 ++ steps false 2 ++ steps true 2

/-- The key is put again between the record of the first value and the deletion. -/
def putBeforeDelete : List (Bool × Input) :=
  (false, atTime 0 (.scratchPut ['k'] longValue)) :: steps false 6 ++
    [(true, atTime 90000 (.scratchPut ['k'] otherValue))] ++ steps false 1

/-- The record is appended between the look of `hygiene` at the file and its rewrite. -/
def appendBeforeRewrite : List (Bool × Input) :=
  [(true, atTime 0 .hygiene)] ++ steps true 5 ++ [(false, atTime 0 (.scratchPut ['k'] longValue))] ++ steps false 6 ++
    steps true 1

theorem overlaps_lose :
    (Interleave.run (act id) (start none) twoPromoters).procs true = .raised .key ∧
      (Interleave.run (act id) (start none) twoPromoters).shared.trail.appended = [0, 0] ∧
      ¬NothingLost (Interleave.run (act id) (start none) putBeforeDelete) ∧
      ¬NothingLost (Interleave.run (act id) (start none) appendBeforeRewrite) := by
  refine ⟨by decide +kernel, by decide +kernel, ?_, ?_⟩
  · exact not_nothingLost (e := ⟨['k'], otherValue, 90000, 1⟩) (by decide +kernel) (by decide +kernel)
      (by decide +kernel) (by decide +kernel) (by decide +kernel)
  · exact not_nothingLost (e := ⟨['k'], longValue, 0, 0⟩) (by decide +kernel) (by decide +kernel)
      (by decide +kernel) (by decide) (by decide +kernel)

/-! ## Durable facts -/

/-- **Supersession is exact** in a run whose promotions all find the current fact of their key, and no other. -/
theorem supersession_exact (t : Template) (start : Option Text) (calls : List Promotion) (hstart : Starts t start)
    (hmeets : ∀ before p after, calls = before ++ p :: after → Meets t (factsOf before) p.episodicKey) :
    (calls ≠ [] → promoteAll start calls = some (t.document (factsOf calls))) ∧
      (factsOf calls).map (·.promotion) = calls ∧
      (∀ before p after, calls = before ++ p :: after → (factsOf calls)[before.length]? =
        some ⟨p, (after.find? fun q => q.episodicKey = p.episodicKey).map (·.uuid)⟩) ∧
      ∀ key, (∃ p ∈ calls, p.episodicKey = key) →
        ((factsOf calls).countP fun f => decide (f.IsCurrent key)) = 1 := by
  refine ⟨fun hne => promoteAll_document hstart hne hmeets, promotion_factsOf calls, ?_, ?_⟩
  · rintro before p after rfl
    exact getElem?_factsOf before after p
  · intro key hkey
    rw [countP_current, if_pos hkey]

def promotion (key summary content : String) (uuid : ShortUuid) : Promotion where
  episodicKey := key.toList
  durableSummary := summary.toList
  source := "1e36b71".toList
  content := content.toList
  uuid := uuid
  now := "2026-08-09T10:00:00+00:00".toList

def firstUuid : ShortUuid := ⟨List.replicate 8 '1', rfl, by simp⟩

def secondUuid : ShortUuid := ⟨List.replicate 8 '2', rfl, by simp⟩

theorem short_plain : (("## Entries".toList ++ (marker ++ ['\n'])).all fun c => !isLineBreak c || c == '\n') = true := by
  decide +kernel

def shortTemplate : Template where
  header := "## Entries".toList
  tail := marker ++ ['\n']
  header_last := by simp [pyIsSpace]
  tail_marker := List.prefix_append _ _
  tail_last := newline_last marker
  plain := plain_of_all short_plain

/-- The key of the two stands in the text of the first. -/
theorem feeTier_exact : promoteAll (some (shortTemplate.document []))
    [promotion "fee" "Fee" "fee 0.1%" firstUuid, promotion "fee" "Fee" "fee 0.2%" secondUuid] =
      some (shortTemplate.document
        (factsOf [promotion "fee" "Fee" "fee 0.1%" firstUuid, promotion "fee" "Fee" "fee 0.2%" secondUuid])) := by
  refine (supersession_exact shortTemplate _ _ (Or.inl rfl) ?_).1 (by simp)
  intro before p after hcalls
  match before, hcalls with
  | [], hcalls =>
      cases hcalls
      exact ⟨plain_of_all (by decide +kernel), by decide +kernel, by decide +kernel⟩
  | [_], hcalls =>
      cases hcalls
      exact ⟨plain_of_all (by decide +kernel), by decide +kernel, by decide +kernel⟩
  | _ :: _ :: before, hcalls => simp at hcalls

/-- A key that stands nowhere in its fact: after its second promotion both facts are current. -/
theorem unnamed_twoCurrent :
    (promoteAll none [promotion "regime" "Bull market" "EMA200 holds" firstUuid,
      promotion "regime" "Bear market" "EMA200 lost" secondUuid]).map (fun text => (splitlines text).countP isNoneLine) =
        some 2 ∧
    ¬∀ calls, calls ≠ [] → promoteAll none calls = some (defaultTemplate.document (factsOf calls)) := by
  have hheader : defaultHeader = _ := congrArg₂ (· ++ ·) String.toList_ofList String.toList_ofList
  have htail : defaultTail = _ := congrArg₂ (· ++ ·)
    (congrArg₂ (· ++ ·) (congrArg₂ (· ++ ·) String.toList_ofList String.toList_ofList) String.toList_ofList)
    String.toList_ofList
  have hmarker : marker = _ := String.toList_ofList
  have hprefix : supersededPrefix = _ := String.toList_ofList
  have hnone : noneText = _ := String.toList_ofList
  have htwo : (promoteAll none [promotion "regime" "Bull market" "EMA200 holds" firstUuid,
      promotion "regime" "Bear market" "EMA200 lost" secondUuid]).map (fun text => (splitlines text).countP isNoneLine) =
        some 2 := by
    simp only [promoteAll, List.foldl_cons, List.foldl_nil, promoteEpisodicToDurable, markSuperseded, Option.map_none,
      Option.map_some, hheader, htail, hmarker]
    decide +kernel
  refine ⟨htwo, fun h => ?_⟩
  rw [h _ (by simp)] at htwo
  rw [Template.document, Template.body, defaultTemplate_header, defaultTemplate_tail, hheader, htail] at htwo
  revert htwo
  decide +kernel

end CryptoAggHarmonic.LoopTools
