import CryptoAggHarmonic.FtStrategy.DeployGate
import CryptoAggHarmonic.FtStrategy.Lemmas.Gate

/-!
# When the deploy route answers, and when it lets a strategy through
-/

namespace CryptoAggHarmonic.FtStrategy

variable {parseFloat : String → Option PyFloat} {value entry stored : PyValue} {entries : List PyValue} {key : String}
  {rows : List PerTimerangeResult} {x : PyFloat} {db : Db} {s : Strategy} {c : StoredCandidate}

/-! ## Single values -/

theorem compared_spec (value : PyValue) :
    (value.number? = none ∧ compared value = .error .typeError) ∨
      ∃ x, value.number? = some x ∧ compared value = .ok x := by
  unfold compared
  cases value.number? with
  | none => simp
  | some x => simp

/-- The floats under the key in the rows. -/
def column (parseFloat : String → Option PyFloat) (key : String) (stored : PyValue) : List PyFloat :=
  ((stored.getD "per_timerange" .none).entries?.getD []).filterMap fun entry =>
    (floatOf parseFloat entry key).toOption

/-! ## The rows -/

/-- An entry that is a dict is a row. -/
def EntryReadable (parseFloat : String → Option PyFloat) (entry : PyValue) : Prop :=
  ∀ items, entry = .dict items → (entry.get? "regime").isSome ∧
    ∀ key ∈ ["sharpe", "max_dd", "calmar"], ∃ x, floatOf parseFloat entry key = .ok x

theorem floatOf_not_dict (h : ∀ items, entry ≠ .dict items) :
    floatOf parseFloat entry key = .error (.keyError key) := by
  cases entry with
  | dict items => exact absurd rfl (h items)
  | _ => rfl

theorem coerceEntry_spec (parseFloat : String → Option PyFloat) (entry : PyValue) :
    (¬ EntryReadable parseFloat entry ∧ ∃ e, coerceEntry parseFloat entry = .error e) ∨
      ∃ rows, coerceEntry parseFloat entry = .ok rows ∧ EntryReadable parseFloat entry ∧
        rows.map PerTimerangeResult.sharpe = (floatOf parseFloat entry "sharpe").toOption.toList ∧
        rows.map PerTimerangeResult.calmar = (floatOf parseFloat entry "calmar").toOption.toList := by
  cases entry with
  | dict items =>
      have hread : EntryReadable parseFloat (.dict items) ↔ ((PyValue.dict items).get? "regime").isSome ∧
          ∀ key ∈ ["sharpe", "max_dd", "calmar"], ∃ x, floatOf parseFloat (.dict items) key = .ok x := by
        simp [EntryReadable]
      simp only [hread, coerceEntry, List.forall_mem_cons, List.not_mem_nil, false_implies, implies_true, and_true]
      cases hregime : (PyValue.dict items).get? "regime" with
      | none => simp [subscript, hregime, bind, Except.bind]
      | some regime =>
          cases hsharpe : floatOf parseFloat (.dict items) "sharpe" with
          | error e => simp [subscript, hregime, bind, Except.bind]
          | ok sharpe =>
              cases hdd : floatOf parseFloat (.dict items) "max_dd" with
              | error e => simp [subscript, hregime, bind, Except.bind]
              | ok maxDd =>
                  cases hcalmar : floatOf parseFloat (.dict items) "calmar" with
                  | error e => simp [subscript, hregime, bind, Except.bind]
                  | ok calmar => simp [subscript, hregime, bind, Except.bind, pure, Except.pure, Except.toOption]
  | _ => exact Or.inr ⟨[], rfl, by simp [EntryReadable], rfl, rfl⟩

theorem coerceEntries_spec (parseFloat : String → Option PyFloat) (entries : List PyValue) :
    (¬ (∀ entry ∈ entries, EntryReadable parseFloat entry) ∧ ∃ e, coerceEntries parseFloat entries = .error e) ∨
      ∃ rows, coerceEntries parseFloat entries = .ok rows ∧ (∀ entry ∈ entries, EntryReadable parseFloat entry) ∧
        rows.map PerTimerangeResult.sharpe =
          entries.filterMap (fun entry => (floatOf parseFloat entry "sharpe").toOption) ∧
        rows.map PerTimerangeResult.calmar =
          entries.filterMap (fun entry => (floatOf parseFloat entry "calmar").toOption) := by
  induction entries with
  | nil => exact Or.inr ⟨[], rfl, by simp, rfl, rfl⟩
  | cons entry entries ih =>
      simp only [coerceEntries, List.forall_mem_cons]
      obtain ⟨hbad, e, he⟩ | ⟨rows, hrows, hread, hsharpe, hcalmar⟩ := coerceEntry_spec parseFloat entry
      · exact Or.inl ⟨fun h => hbad h.1, e, by rw [he]; rfl⟩
      · rw [hrows]
        obtain ⟨hbad, e, he⟩ | ⟨more, hmore, hreads, hsharpes, hcalmars⟩ := ih
        · exact Or.inl ⟨fun h => hbad h.2, e, by rw [he]; rfl⟩
        · refine Or.inr ⟨rows ++ more, by rw [hmore]; rfl, ⟨hread, hreads⟩, ?_, ?_⟩
          · rw [List.map_append, hsharpe, hsharpes, List.filterMap_cons]
            cases (floatOf parseFloat entry "sharpe").toOption <;> rfl
          · rw [List.map_append, hcalmar, hcalmars, List.filterMap_cons]
            cases (floatOf parseFloat entry "calmar").toOption <;> rfl

/-- The rows of the stored result can be gone through and every dict among them is a row. -/
def RowsReadable (parseFloat : String → Option PyFloat) (stored : PyValue) : Prop :=
  ∀ value, stored.get? "per_timerange" = some value → value.truthy →
    ∃ entries, value.entries? = some entries ∧ ∀ entry ∈ entries, EntryReadable parseFloat entry

theorem entries_of_not_truthy (h : value.truthy = false) : value.entries?.getD [] = [] := by
  cases value with
  | str s =>
      have hs : s = "" := by simpa [PyValue.truthy] using h
      subst hs
      rfl
  | list xs => simpa [PyValue.truthy, PyValue.entries?] using h
  | dict items => simpa [PyValue.truthy, PyValue.entries?] using h
  | _ => rfl

theorem coercePerTimerange_spec (parseFloat : String → Option PyFloat) (stored : PyValue) :
    (¬ RowsReadable parseFloat stored ∧ ∃ e, coercePerTimerange parseFloat
        ((stored.getD "per_timerange" (.list [])).orElse (.list [])) = .error e) ∨
      ∃ rows, coercePerTimerange parseFloat ((stored.getD "per_timerange" (.list [])).orElse (.list [])) = .ok rows ∧
        RowsReadable parseFloat stored ∧ rows.map PerTimerangeResult.sharpe = column parseFloat "sharpe" stored ∧
        rows.map PerTimerangeResult.calmar = column parseFloat "calmar" stored := by
  unfold RowsReadable column
  cases hget : stored.get? "per_timerange" with
  | none =>
      refine Or.inr ⟨[], ?_, by simp, ?_, ?_⟩
      all_goals simp only [PyValue.getD, hget, Option.getD_none]
      all_goals rfl
  | some value =>
      simp only [PyValue.getD, hget, Option.getD_some, Option.some.injEq, forall_eq']
      cases htruthy : value.truthy with
      | false =>
          rw [entries_of_not_truthy htruthy]
          exact Or.inr ⟨[], by simp [PyValue.orElse, htruthy]; rfl, by simp, rfl, rfl⟩
      | true =>
          simp only [PyValue.orElse, htruthy, if_true, true_implies, coercePerTimerange]
          cases hentries : value.entries? with
          | none => exact Or.inl ⟨by simp, _, rfl⟩
          | some entries =>
              simpa using coerceEntries_spec parseFloat entries

/-! ## The candidate -/

/-- Nothing that the route reads of the stored result makes it raise. -/
structure Readable (parseFloat : String → Option PyFloat) (stored : PyValue) : Prop where
  dict : stored.truthy → ∃ items, stored = .dict items
  numbers : ∀ key ∈ ["max_dd", "profit_pct", "trades"], ∀ value, stored.get? key = some value → value.number?.isSome
  trades : ∀ n, stored.get? "trades" = some (.int n) → n.natAbs < floatOverflow
  rows : RowsReadable parseFloat stored

theorem get?_orElse (h : stored.truthy → ∃ items, stored = .dict items) :
    ∃ items, stored.orElse (.dict []) = .dict items ∧
      ∀ key, (PyValue.dict items).get? key = stored.get? key := by
  unfold PyValue.orElse
  cases htruthy : stored.truthy with
  | true =>
      obtain ⟨items, rfl⟩ := h htruthy
      exact ⟨items, by simp, fun _ => rfl⟩
  | false =>
      refine ⟨[], by simp, fun key => ?_⟩
      cases stored with
      | dict items =>
          have hitems : items = [] := by simpa [PyValue.truthy] using htruthy
          rw [hitems]
      | _ => rfl

theorem getD_eq {items : List (String × PyValue)} (h : (PyValue.dict items).get? key = stored.get? key)
    (default : PyValue) : (PyValue.dict items).getD key default = stored.getD key default := by
  rw [PyValue.getD, PyValue.getD, h]

/-- The candidate of a dict with these rows. -/
def StoredCandidate.ofRows (db : Db) (s : Strategy) (stored : PyValue) (rows : List PerTimerangeResult) :
    StoredCandidate where
  strategyId := s.id
  version := s.currentVersion
  sharpe := stored.getD "sharpe" (.float (.finite 0))
  maxDd := stored.getD "max_dd" (.float (.finite 0))
  calmar := stored.getD "calmar" (.float (.finite 0))
  winRate := stored.getD "win_rate" (.float (.finite 0))
  profitPct := stored.getD "profit_pct" (.float (.finite 0))
  trades := stored.getD "trades" (.int 0)
  perTimerange := rows
  hasFinalReport := db.hasFinalReport s.id
  openCrashInWindowDays := db.listOpenCrashes s.id
  shadowObserved := db.hasShadowObservation s.id

theorem storedCandidateOf_eq (parseFloat : String → Option PyFloat) (db : Db) (s : Strategy)
    (h : stored.truthy → ∃ items, stored = .dict items) :
    storedCandidateOf parseFloat db s stored =
      (coercePerTimerange parseFloat ((stored.getD "per_timerange" (.list [])).orElse (.list []))).map
        (StoredCandidate.ofRows db s stored) := by
  obtain ⟨items, hitems, hget⟩ := get?_orElse h
  simp only [storedCandidateOf, hitems, latestGet, getD_eq (hget _), bind, Except.bind]
  cases coercePerTimerange parseFloat ((stored.getD "per_timerange" (.list [])).orElse (.list [])) <;> rfl

theorem storedCandidateOf_not_dict (parseFloat : String → Option PyFloat) (db : Db) (s : Strategy)
    (h : ¬ (stored.truthy → ∃ items, stored = .dict items)) :
    storedCandidateOf parseFloat db s stored = .error .attributeError := by
  obtain ⟨htruthy, hdict⟩ := Classical.not_imp.mp h
  have hstored : stored.orElse (.dict []) = stored := by simp [PyValue.orElse, htruthy]
  simp only [storedCandidateOf, hstored]
  cases stored with
  | dict items => exact absurd ⟨items, rfl⟩ hdict
  | _ => rfl

/-! ## The gate without a context -/

theorem checkStored_raises (h : ∀ maxDd profitPct trades observed, ¬ (c.maxDd.number? = some maxDd ∧
    c.profitPct.number? = some profitPct ∧ c.trades.number? = some trades ∧
    toFloat parseFloat c.trades = .ok observed)) : ∃ e, checkStored parseFloat c .default = .error e := by
  unfold checkStored
  obtain ⟨-, he⟩ | ⟨maxDd, hdd, hok⟩ := compared_spec c.maxDd
  · exact ⟨_, by rw [he]; rfl⟩
  obtain ⟨-, he⟩ | ⟨profitPct, hprofit, hok'⟩ := compared_spec c.profitPct
  · exact ⟨_, by rw [hok, he]; rfl⟩
  obtain ⟨-, he⟩ | ⟨trades, htrades, hok''⟩ := compared_spec c.trades
  · exact ⟨_, by rw [hok, hok', he]; rfl⟩
  cases hobserved : toFloat parseFloat c.trades with
  | error e => exact ⟨e, by rw [hok, hok', hok'']; rfl⟩
  | ok observed => exact absurd ⟨hdd, hprofit, htrades, hobserved⟩ (h maxDd profitPct trades observed)

theorem checkStored_answers {maxDd profitPct trades observed : PyFloat} (hdd : c.maxDd.number? = some maxDd)
    (hprofit : c.profitPct.number? = some profitPct) (htrades : c.trades.number? = some trades)
    (hobserved : toFloat parseFloat c.trades = .ok observed) :
    ∃ result, checkStored parseFloat c .default = .ok result ∧ (result.ok ↔
      Clears (c.perTimerange.map PerTimerangeResult.sharpe) 0 ∧
      Clears (c.perTimerange.map PerTimerangeResult.calmar) 1 ∧ (PyFloat.finite (2 * (156 / 1000))).ge maxDd ∧
      profitPct.ge (.finite (5 / 100)) ∧ trades.ge (.finite 30) ∧ c.shadowObserved ∧ c.hasFinalReport ∧
      c.openCrashInWindowDays = 0) := by
  have hcompared : ∀ {value : PyValue} {x : PyFloat}, value.number? = some x → compared value = .ok x := by
    intro value x h
    rw [compared, h]
    rfl
  simp only [checkStored, hcompared hdd, hcompared hprofit, hcompared htrades, hobserved]
  refine ⟨_, rfl, ?_⟩
  simp only [List.isEmpty_iff, List.filter_eq_nil_iff, List.forall_mem_cons, List.not_mem_nil, false_implies,
    implies_true, and_true, Bool.not_eq_true', Bool.not_eq_false, robustSharpeItem, robustCalmarItem, robustMin_passed,
    maxDrawdownItem, profitFloorItem, shadowObservedItem, reportReferencedItem, noOpenCrashItem,
    decide_eq_true_eq]
  simp only [StoredCandidate.known, PromotionContext.default, drawdownMultiplier, true_and, Int.cast_ofNat]

/-! ## The route -/

/-- What of the stored result and of the tables the gate is content with. -/
structure Met (parseFloat : String → Option PyFloat) (db : Db) (strategyId : String) (stored : PyValue) : Prop where
  sharpe : Clears (column parseFloat "sharpe" stored) 0
  calmar : Clears (column parseFloat "calmar" stored) 1
  maxDd : ∀ x, (stored.get? "max_dd").bind PyValue.number? = some x → (PyFloat.finite (2 * (156 / 1000))).ge x
  profit : ∃ x, (stored.get? "profit_pct").bind PyValue.number? = some x ∧ x.ge (.finite (5 / 100))
  trades : ∃ x, (stored.get? "trades").bind PyValue.number? = some x ∧ x.ge (.finite 30)
  shadow : db.hasShadowObservation strategyId
  report : db.hasFinalReport strategyId
  crash : db.listOpenCrashes strategyId = 0

theorem getD_number (default : PyValue) {d : PyFloat} (hdefault : default.number? = some d)
    (h : ∀ value, stored.get? key = some value → value.number?.isSome) :
    ∃ x, (stored.getD key default).number? = some x ∧
      (((stored.get? key).bind PyValue.number? = none ∧ x = d) ∨ (stored.get? key).bind PyValue.number? = some x) := by
  unfold PyValue.getD
  cases hget : stored.get? key with
  | none => exact ⟨d, hdefault, Or.inl ⟨rfl, rfl⟩⟩
  | some value =>
      obtain ⟨x, hx⟩ := Option.isSome_iff_exists.mp (h value hget)
      exact ⟨x, hx, Or.inr hx⟩

/-- A default of nothing is under every floor and no ceiling asks for more. -/
theorem ge_floor_iff {read : Option PyFloat} {floor : ℚ} (hfloor : 0 < floor)
    (h : (read = none ∧ x = .finite 0) ∨ read = some x) :
    x.ge (.finite floor) ↔ ∃ y, read = some y ∧ y.ge (.finite floor) := by
  rcases h with ⟨rfl, rfl⟩ | rfl
  · simp [PyFloat.ge, hfloor]
  · simp

theorem ceiling_ge_iff {read : Option PyFloat} {ceiling : ℚ} (hceiling : 0 ≤ ceiling)
    (h : (read = none ∧ x = .finite 0) ∨ read = some x) :
    (PyFloat.finite ceiling).ge x ↔ ∀ y, read = some y → (PyFloat.finite ceiling).ge y := by
  rcases h with ⟨rfl, rfl⟩ | rfl
  · simp [PyFloat.ge, hceiling]
  · simp

theorem floatOverflow_pos : 0 < floatOverflow := by
  have hlt : ∀ m n : ℕ, m < n → 0 < 2 ^ n - 2 ^ m := fun m n h =>
    Nat.sub_pos_of_lt (Nat.pow_lt_pow_right one_lt_two h)
  exact hlt 970 1024 (by decide)

theorem toFloat_of_number (h : value.number? = some x) (hsmall : ∀ n, value = .int n → n.natAbs < floatOverflow) :
    toFloat parseFloat value = .ok x := by
  cases value with
  | bool b =>
      cases h
      rfl
  | int n =>
      cases h
      simp [toFloat, hsmall n rfl]
  | float y =>
      cases h
      rfl
  | _ => cases h

/-- The gate on what is stored: it raises where the result cannot be read, and otherwise decides what is met. -/
theorem judged_spec (parseFloat : String → Option PyFloat) (db : Db) (s : Strategy) (stored : PyValue) :
    (¬ Readable parseFloat stored ∧ ∃ e, ((storedCandidateOf parseFloat db s stored).bind fun c =>
        checkStored parseFloat c .default) = .error e) ∨
      ∃ result, ((storedCandidateOf parseFloat db s stored).bind fun c => checkStored parseFloat c .default) =
        .ok result ∧ Readable parseFloat stored ∧ (result.ok ↔ Met parseFloat db s.id stored) := by
  by_cases hdict : stored.truthy → ∃ items, stored = .dict items
  · rw [storedCandidateOf_eq parseFloat db s hdict]
    obtain ⟨hrows, e, he⟩ | ⟨rows, hok, hrows, hsharpe, hcalmar⟩ := coercePerTimerange_spec parseFloat stored
    · exact Or.inl ⟨fun h => hrows h.rows, e, by rw [he]; rfl⟩
    · rw [hok]
      simp only [Except.map, Except.bind]
      by_cases hread : Readable parseFloat stored
      · obtain ⟨maxDd, hdd, hdd'⟩ := getD_number (.float (.finite 0)) rfl (hread.numbers "max_dd" (by simp))
        obtain ⟨profitPct, hprofit, hprofit'⟩ := getD_number (.float (.finite 0)) rfl
          (hread.numbers "profit_pct" (by simp))
        obtain ⟨trades, htrades, htrades'⟩ := getD_number (.int 0) (d := .finite 0) (by simp [PyValue.number?])
          (hread.numbers "trades" (by simp))
        have hobserved : toFloat parseFloat (stored.getD "trades" (.int 0)) = .ok trades := by
          refine toFloat_of_number htrades fun n hn => ?_
          unfold PyValue.getD at hn
          cases hget : stored.get? "trades" with
          | none =>
              rw [hget] at hn
              cases hn
              exact floatOverflow_pos
          | some value =>
              rw [hget] at hn
              cases hn
              exact hread.trades n hget
        obtain ⟨result, hresult, hiff⟩ := checkStored_answers (c := .ofRows db s stored rows) hdd hprofit htrades
          hobserved
        refine Or.inr ⟨result, hresult, hread, hiff.trans ?_⟩
        have hrowsEq : (StoredCandidate.ofRows db s stored rows).perTimerange = rows := rfl
        rw [hrowsEq, hsharpe, hcalmar, ceiling_ge_iff (by norm_num) hdd', ge_floor_iff (by norm_num) hprofit',
          ge_floor_iff (by norm_num) htrades']
        constructor
        · rintro ⟨hs, hc, hd, hp, ht, hshadow, hreport, hcrash⟩
          exact ⟨hs, hc, hd, hp, ht, hshadow, hreport, hcrash⟩
        · rintro ⟨hs, hc, hd, hp, ht, hshadow, hreport, hcrash⟩
          exact ⟨hs, hc, hd, hp, ht, hshadow, hreport, hcrash⟩
      · refine Or.inl ⟨hread, checkStored_raises fun maxDd profitPct trades observed hall => hread ?_⟩
        obtain ⟨hdd, hprofit, htrades, hobserved⟩ := hall
        have hnumber : ∀ {key : String} {default : PyValue} {x : PyFloat},
            (stored.getD key default).number? = some x → ∀ value, stored.get? key = some value →
              value.number?.isSome := by
          intro key default x hx value hvalue
          rw [PyValue.getD, hvalue] at hx
          exact Option.isSome_iff_exists.mpr ⟨x, hx⟩
        refine ⟨hdict, ?_, ?_, hrows⟩
        · simp only [List.forall_mem_cons, List.not_mem_nil, false_implies, implies_true, and_true]
          exact ⟨hnumber hdd, hnumber hprofit, hnumber htrades⟩
        · intro n hn
          by_contra hlarge
          have hvalue : (StoredCandidate.ofRows db s stored rows).trades = .int n := by
            show stored.getD "trades" (.int 0) = .int n
            rw [PyValue.getD, hn]
            rfl
          rw [hvalue] at hobserved
          simp [toFloat, hlarge] at hobserved
  · refine Or.inl ⟨fun h => hdict h.dict, .attributeError, ?_⟩
    rw [storedCandidateOf_not_dict parseFloat db s hdict]
    rfl

theorem loadOwnedStrategy_error {user : Option String} {strategyId : String} {response : DeployResponse}
    (h : loadOwnedStrategy db user strategyId = .error response) : response = .unauthorized ∨ response = .notFound := by
  unfold loadOwnedStrategy at h
  split at h
  · cases h
    exact Or.inl rfl
  · split at h
    · cases h
      exact Or.inr rfl
    · split_ifs at h
      cases h
      exact Or.inr rfl

theorem loadOwnedStrategy_id {user : Option String} {strategyId : String}
    (h : loadOwnedStrategy db user strategyId = .ok s) : s.id = strategyId := by
  unfold loadOwnedStrategy at h
  split at h
  · cases h
  · split at h
    · cases h
    · rename_i hfound
      split_ifs at h
      cases h
      simpa using List.find?_some hfound

/-! ## Results of the expected types -/

def encodeRow (row : PerTimerangeResult) : PyValue :=
  .dict [("regime", .str row.regime), ("sharpe", .float row.sharpe), ("max_dd", .float row.maxDd),
    ("calmar", .float row.calmar)]

/-- A field that is there or left out. -/
def field (key : String) (value : Option PyValue) : List (String × PyValue) := value.toList.map (Prod.mk key)

def encode : Option LatestResult → PyValue
  | none => .none
  | some r => .dict (field "sharpe" (r.sharpe.map .float) ++ (field "max_dd" (r.maxDd.map .float) ++
      (field "calmar" (r.calmar.map .float) ++ (field "win_rate" (r.winRate.map .float) ++
      (field "profit_pct" (r.profitPct.map .float) ++ (field "trades" (r.trades.map .int) ++
      [("per_timerange", .list (r.perTimerange.map encodeRow))]))))))

theorem lookup_field (key key' : String) (value : Option PyValue) (rest : List (String × PyValue)) :
    (field key value ++ rest).lookup key' =
      if key' = key then value.or (rest.lookup key') else rest.lookup key' := by
  cases value with
  | none => simp [field]
  | some value =>
      by_cases h : key' = key
      · simp [field, h]
      · have hne : (key' == key) = false := by simpa using h
        simp [field, h, List.lookup_cons, hne]

theorem coerceEntries_encode (parseFloat : String → Option PyFloat) (rows : List PerTimerangeResult) :
    coerceEntries parseFloat (rows.map encodeRow) = .ok rows := by
  induction rows with
  | nil => rfl
  | cons row rows ih =>
      have hrow : coerceEntry parseFloat (encodeRow row) = .ok [row] := rfl
      rw [List.map_cons, coerceEntries, hrow, ih]
      rfl

theorem storedCandidateOf_encode (parseFloat : String → Option PyFloat) (db : Db) (s : Strategy) :
    storedCandidateOf parseFloat db s (encode s.latestResult) = .ok {
      strategyId := s.id
      version := s.currentVersion
      sharpe := .float (candidateOf db s).sharpe
      maxDd := .float (candidateOf db s).maxDd
      calmar := .float (candidateOf db s).calmar
      winRate := .float (candidateOf db s).winRate
      profitPct := .float (candidateOf db s).profitPct
      trades := .int (candidateOf db s).trades
      perTimerange := (candidateOf db s).perTimerange
      hasFinalReport := db.hasFinalReport s.id
      openCrashInWindowDays := db.listOpenCrashes s.id
      shadowObserved := db.hasShadowObservation s.id } := by
  have hdict : (encode s.latestResult).truthy → ∃ items, encode s.latestResult = .dict items := by
    cases s.latestResult with
    | none => simp [encode, PyValue.truthy]
    | some r => exact fun _ => ⟨_, rfl⟩
  rw [storedCandidateOf_eq parseFloat db s hdict]
  cases hresult : s.latestResult with
  | none => simp [encode, StoredCandidate.ofRows, candidateOf, hresult, PyValue.getD, PyValue.get?, PyValue.orElse,
      PyValue.truthy, coercePerTimerange, PyValue.entries?, coerceEntries, Except.map]
  | some r =>
      have hrows : (PyValue.list (r.perTimerange.map encodeRow)).orElse (.list []) =
          .list (r.perTimerange.map encodeRow) := by
        cases r.perTimerange <;> rfl
      have hfloat : ∀ x : Option PyFloat, (x.map PyValue.float).getD (.float (.finite 0)) =
          .float (x.getD (.finite 0)) := by
        intro x
        cases x <;> rfl
      have hint : ∀ n : Option ℤ, (n.map PyValue.int).getD (.int 0) = .int (n.getD 0) := by
        intro n
        cases n <;> rfl
      simp [encode, StoredCandidate.ofRows, candidateOf, hresult, PyValue.getD, PyValue.get?, lookup_field,
        List.lookup_cons, hrows, coercePerTimerange, PyValue.entries?, coerceEntries_encode, Except.map, hfloat, hint]

/-- On a result of the expected types the route does what `deploy_one` is modelled to do, unless the trades are no
float. -/
theorem deployStored_encode (parseFloat : String → Option PyFloat) {user : Option String} {strategyId : String}
    (hload : loadOwnedStrategy db user strategyId = .ok s)
    (htrades : (candidateOf db s).trades.natAbs < floatOverflow) :
    deployStored parseFloat db (encode s.latestResult) user strategyId =
      (.ok (deployOne db user strategyId).1, (deployOne db user strategyId).2) := by
  have hcheck : ((storedCandidateOf parseFloat db s (encode s.latestResult)).bind fun c =>
      checkStored parseFloat c .default) = .ok (checkPromotionV3 (candidateOf db s) .default) := by
    have hge : ∀ n : ℤ, (PyFloat.finite n).ge (.finite (30 : ℤ)) = decide (n ≥ 30) := by
      intro n
      simp only [PyFloat.ge, ge_iff_le, Int.cast_le]
    have hfloat : toFloat parseFloat (.int (candidateOf db s).trades) = .ok (.finite (candidateOf db s).trades) := by
      rw [toFloat, if_pos htrades]
    have hnumber : ∀ (value : PyValue) (x : PyFloat), value.number? = some x → compared value = .ok x := by
      intro value x h
      rw [compared, h]
      rfl
    rw [storedCandidateOf_encode, Except.bind]
    simp only [checkStored, hfloat, hnumber _ _ (rfl : (PyValue.float _).number? = some _),
      hnumber _ _ (rfl : (PyValue.int _).number? = some _), PromotionContext.default,
      paretoDominatedValues, bind, Except.bind, hge]
    rfl
  simp only [deployStored, deployOne, hload, hcheck]
  split <;> rfl

/-! ## Complete results -/

/-- A number of JSON under the key. -/
def metric? (value : PyValue) (key : String) : Option PyFloat :=
  match value.get? key with
  | some (.int n) => some (.finite n)
  | some (.float x) => some x
  | _ => none

/-- (sharpe, calmar, max_dd, win_rate), as a context has them. -/
def shapeOf (stored : PyValue) : Option (PyFloat × PyFloat × PyFloat × PyFloat) := do
  return (← metric? stored "sharpe", ← metric? stored "calmar", ← metric? stored "max_dd", ← metric? stored "win_rate")

/-- At least as good on all four, with a lower drawdown the better one, and better on one. -/
def Better (keep shape : PyFloat × PyFloat × PyFloat × PyFloat) : Prop :=
  (keep.1.ge shape.1 ∧ keep.2.1.ge shape.2.1 ∧ shape.2.2.1.ge keep.2.2.1 ∧ keep.2.2.2.ge shape.2.2.2) ∧
    (keep.1.gt shape.1 ∨ keep.2.1.gt shape.2.1 ∨ shape.2.2.1.gt keep.2.2.1 ∨ keep.2.2.2.gt shape.2.2.2)

/-- Every metric is there and meets what is asked of it, and so does what the tables hold. -/
structure Complete (db : Db) (strategyId : String) (stored : PyValue) : Prop where
  rows : ∃ entries, stored.get? "per_timerange" = some (.list entries) ∧ entries ≠ [] ∧ ∀ entry ∈ entries,
    (∃ x, metric? entry "sharpe" = some x ∧ x.ge (.finite 0)) ∧ ∃ x, metric? entry "calmar" = some x ∧ x.ge (.finite 1)
  maxDd : ∃ x, metric? stored "max_dd" = some x ∧ (PyFloat.finite (2 * (156 / 1000))).ge x
  profit : ∃ x, metric? stored "profit_pct" = some x ∧ x.ge (.finite (5 / 100))
  trades : ∃ x, metric? stored "trades" = some x ∧ x.ge (.finite 30)
  shape : (shapeOf stored).isSome
  shadow : ∃ e ∈ db.events, e.strategyId = strategyId ∧ e.event = .shadowEnd
  report : ∃ r ∈ db.reports, r.strategyId = strategyId ∧ r.authoringState = .final
  crash : ∀ e ∈ db.experiments, e.strategyId = strategyId → e.verdict = .crash → e.decidedBy ≠ none

/-- What the gate does not ask of a result it is content with. -/
structure NoGap (stored : PyValue) (keeps : List (PyFloat × PyFloat × PyFloat × PyFloat)) : Prop where
  shape : ∀ key ∈ ["sharpe", "calmar", "max_dd", "win_rate"], (metric? stored key).isSome
  profit : ∀ b, stored.get? "profit_pct" ≠ some (.bool b)
  rows : ∀ entries, stored.get? "per_timerange" = some (.list entries) → ∀ entry ∈ entries,
    ∀ key ∈ ["sharpe", "calmar"], ∃ x, metric? entry key = some x ∧ x ≠ .nan
  undominated : ∀ keep ∈ keeps, ∀ shape, shapeOf stored = some shape → ¬ Better keep shape

theorem number_of_metric (h : metric? stored key = some x) : (stored.get? key).bind PyValue.number? = some x := by
  unfold metric? at h
  split at h
  · rename_i hget
    cases h
    rw [hget]
    rfl
  · rename_i hget
    cases h
    rw [hget]
    rfl
  · cases h

theorem metric_of_number (h : (stored.get? key).bind PyValue.number? = some x)
    (hbool : ∀ b, stored.get? key ≠ some (.bool b)) : metric? stored key = some x := by
  obtain ⟨value, hget, hnumber⟩ := Option.bind_eq_some_iff.mp h
  rw [metric?, hget]
  cases value with
  | bool b => exact absurd hget (hbool b)
  | int n => exact hnumber
  | float y => exact hnumber
  | _ => cases hnumber

theorem shapeOf_isSome : (shapeOf stored).isSome ↔
    ∀ key ∈ ["sharpe", "calmar", "max_dd", "win_rate"], (metric? stored key).isSome := by
  simp only [shapeOf, List.forall_mem_cons, List.not_mem_nil, false_implies, implies_true, and_true]
  cases metric? stored "sharpe" <;> cases metric? stored "calmar" <;> cases metric? stored "max_dd" <;>
    cases metric? stored "win_rate" <;> simp [bind, Option.bind, pure]

/-- The float of an entry is the number it has. -/
theorem floatOf_of_metric {y : PyFloat} (h : metric? entry key = some x)
    (hread : floatOf parseFloat entry key = .ok y) : y = x := by
  unfold metric? at h
  unfold floatOf subscript at hread
  split at h
  · rename_i n hget
    cases h
    rw [hget] at hread
    simp only [Option.elim, bind, Except.bind, toFloat] at hread
    split at hread
    · cases hread
      rfl
    · cases hread
  · rename_i z hget
    cases h
    rw [hget] at hread
    cases hread
    rfl
  · cases h

theorem column_of_list (h : stored.get? "per_timerange" = some (.list entries)) :
    column parseFloat key stored = entries.filterMap fun entry => (floatOf parseFloat entry key).toOption := by
  simp [column, PyValue.getD, h, PyValue.entries?]

/-- Only a list has rows. -/
theorem list_of_column (h : column parseFloat key stored ≠ []) :
    ∃ entries, stored.get? "per_timerange" = some (.list entries) ∧ entries ≠ [] := by
  have htexts : ∀ texts : List String, (texts.map PyValue.str).filterMap (fun entry =>
      (floatOf parseFloat entry key).toOption) = [] := by
    intro texts
    simp only [List.filterMap_eq_nil_iff, List.mem_map]
    rintro _ ⟨text, -, rfl⟩
    rw [floatOf_not_dict (by simp)]
    rfl
  unfold column PyValue.getD at h
  cases hget : stored.get? "per_timerange" with
  | none =>
      rw [hget] at h
      exact absurd rfl h
  | some value =>
      rw [hget] at h
      cases value with
      | list entries =>
          refine ⟨entries, rfl, ?_⟩
          rintro rfl
          exact h rfl
      | dict items => exact absurd (by simpa [PyValue.entries?] using htexts (items.map Prod.fst)) h
      | str text => exact absurd (by simpa [PyValue.entries?] using htexts (text.toList.map String.singleton)) h
      | _ => exact absurd rfl h

/-- A row of numbers that are not NaN clears what the column clears. -/
theorem ge_of_clears {floor : ℚ} (hlist : stored.get? "per_timerange" = some (.list entries)) (hentry : entry ∈ entries)
    (hread : ∃ y, floatOf parseFloat entry key = .ok y) (hclears : Clears (column parseFloat key stored) floor)
    (hmetric : metric? entry key = some x) (hnan : x ≠ .nan) : x.ge (.finite floor) := by
  obtain ⟨y, hy⟩ := hread
  have hyx := floatOf_of_metric hmetric hy
  subst hyx
  rw [column_of_list hlist] at hclears
  have hmem : y ∈ entries.filterMap fun entry => (floatOf parseFloat entry key).toOption :=
    List.mem_filterMap.mpr ⟨entry, hentry, by rw [hy]; rfl⟩
  exact (hclears.2 y hmem).resolve_left hnan

theorem dict_of_metric (h : metric? entry key = some x) : ∃ items, entry = .dict items := by
  cases entry with
  | dict items => exact ⟨items, rfl⟩
  | _ => cases h

theorem ne_nan_of_ge {y : PyFloat} (h : x.ge y) : x ≠ .nan := by
  rintro rfl
  cases h

/-- What the gate is content with is complete, and no given keep is better, exactly when there is no gap. -/
theorem complete_iff {keeps : List (PyFloat × PyFloat × PyFloat × PyFloat)} {strategyId : String}
    (hread : Readable parseFloat stored) (hmet : Met parseFloat db strategyId stored) :
    (Complete db strategyId stored ∧ ∀ keep ∈ keeps, ∀ shape, shapeOf stored = some shape → ¬ Better keep shape) ↔
      NoGap stored keeps := by
  constructor
  · rintro ⟨hcomplete, hkeeps⟩
    refine ⟨shapeOf_isSome.mp hcomplete.shape, ?_, ?_, hkeeps⟩
    · intro b hb
      obtain ⟨x, hx, -⟩ := hcomplete.profit
      simp [metric?, hb] at hx
    · intro entries hlist entry hentry
      obtain ⟨entries', hlist', -, hall⟩ := hcomplete.rows
      rw [hlist] at hlist'
      cases hlist'
      obtain ⟨⟨x, hx, hxge⟩, y, hy, hyge⟩ := hall entry hentry
      simp only [List.forall_mem_cons, List.not_mem_nil, false_implies, implies_true, and_true]
      exact ⟨⟨x, hx, ne_nan_of_ge hxge⟩, y, hy, ne_nan_of_ge hyge⟩
  · intro hgap
    refine ⟨⟨?_, ?_, ?_, ?_, shapeOf_isSome.mpr hgap.shape, ?_, ?_, ?_⟩, hgap.undominated⟩
    · have hnonempty : column parseFloat "sharpe" stored ≠ [] := by
        intro hnil
        have := hmet.sharpe.1
        simp [hnil] at this
      obtain ⟨entries, hlist, hne⟩ := list_of_column hnonempty
      refine ⟨entries, hlist, hne, fun entry hentry => ?_⟩
      obtain ⟨x, hx, hxnan⟩ := hgap.rows entries hlist entry hentry "sharpe" (by simp)
      obtain ⟨y, hy, hynan⟩ := hgap.rows entries hlist entry hentry "calmar" (by simp)
      have htruthy : (PyValue.list entries).truthy = true := by simpa [PyValue.truthy] using hne
      obtain ⟨entries', hentries', hreads⟩ := hread.rows _ hlist htruthy
      cases hentries'
      obtain ⟨items, hitems⟩ := dict_of_metric hx
      have hfloats := (hreads entry hentry items hitems).2
      exact ⟨⟨x, hx, ge_of_clears hlist hentry (hfloats "sharpe" (by simp)) hmet.sharpe hx hxnan⟩,
        y, hy, ge_of_clears hlist hentry (hfloats "calmar" (by simp)) hmet.calmar hy hynan⟩
    · obtain ⟨x, hx⟩ := Option.isSome_iff_exists.mp (hgap.shape "max_dd" (by simp))
      exact ⟨x, hx, hmet.maxDd x (number_of_metric hx)⟩
    · obtain ⟨x, hx, hge⟩ := hmet.profit
      exact ⟨x, metric_of_number hx hgap.profit, hge⟩
    · obtain ⟨x, hx, hge⟩ := hmet.trades
      refine ⟨x, metric_of_number hx fun b hb => ?_, hge⟩
      rw [hb] at hx
      cases hx
      cases b <;> norm_num [PyFloat.ge] at hge
    · simpa [Db.hasShadowObservation] using hmet.shadow
    · simpa [Db.hasFinalReport] using hmet.report
    · simpa [Db.listOpenCrashes, List.filter_eq_nil_iff] using hmet.crash

end CryptoAggHarmonic.FtStrategy
