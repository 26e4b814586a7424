import CryptoAggHarmonic.Capital.Calculator
import CryptoAggHarmonic.Lib.Steps

/-!
# The sessions of the position page

`hooks/use-position.ts` over `lib/position/db.ts`: the page of one browser, its effects and what it leaves in
`localStorage`, over any number of visits of any users.
-/

namespace CryptoAggHarmonic.Capital.Sessions

structure LongTermHolding where
  id : String
  symbol : String
  entryPrice : Option ℚ
  positionWu : ℚ
  exitCondition : Option String
  reviewDate : Option String
  createdAt : String

/-- `Partial<Omit<LongTermHolding, "id" | "createdAt">>` -/
structure HoldingPatch where
  symbol : Option String
  entryPrice : Option (Option ℚ)
  positionWu : Option ℚ
  exitCondition : Option (Option String)
  reviewDate : Option (Option String)

/-- `{ ...holding, ...patch }` -/
def LongTermHolding.patch (h : LongTermHolding) (p : HoldingPatch) : LongTermHolding :=
  { h with symbol := p.symbol.getD h.symbol, entryPrice := p.entryPrice.getD h.entryPrice,
           positionWu := p.positionWu.getD h.positionWu, exitCondition := p.exitCondition.getD h.exitCondition,
           reviewDate := p.reviewDate.getD h.reviewDate }

@[simp] theorem LongTermHolding.patch_id (h : LongTermHolding) (p : HoldingPatch) : (h.patch p).id = h.id := rfl

/-! ## The database -/

inductive Value
  | config (config : PositionConfig)
  | balance (balance : PositionBalance)
  | holdings (list : List LongTermHolding)

abbrev LocalStorage := String → Option Value

def k (userId suffix : String) : String := "position:" ++ userId ++ ":" ++ suffix

namespace LocalStorage

variable (s : LocalStorage)

def writeJson (key : String) (value : Value) : LocalStorage := Function.update s key (some value)

def loadConfig (userId : String) : Option PositionConfig :=
  match s (k userId "config") with
  | some (.config config) => some config
  | _ => none

def saveConfig (userId : String) (config : PositionConfig) : LocalStorage :=
  s.writeJson (k userId "config") (.config config)

def loadBalance (userId : String) : Option PositionBalance :=
  match s (k userId "balance") with
  | some (.balance balance) => some balance
  | _ => none

def saveBalance (userId : String) (balance : PositionBalance) : LocalStorage :=
  s.writeJson (k userId "balance") (.balance balance)

def listHoldings (userId : String) : List LongTermHolding :=
  match s (k userId "holdings") with
  | some (.holdings list) => list
  | _ => []

def saveHoldings (userId : String) (list : List LongTermHolding) : LocalStorage :=
  s.writeJson (k userId "holdings") (.holdings list)

def createHolding (userId : String) (created : LongTermHolding) : LocalStorage :=
  s.saveHoldings userId (created :: s.listHoldings userId)

/-- `list[idx] = { ...list[idx], ...patch }` at the first index of the id. -/
def patchFirst (id : String) (p : HoldingPatch) : List LongTermHolding → Option (LongTermHolding × List LongTermHolding)
  | [] => none
  | h :: hs =>
      if h.id = id then some (h.patch p, h.patch p :: hs)
      else (patchFirst id p hs).map fun (updated, hs) => (updated, h :: hs)

/-- Throws when the holding is not found. -/
def updateHolding (userId id : String) (p : HoldingPatch) : Option (LongTermHolding × LocalStorage) :=
  (patchFirst id p (s.listHoldings userId)).map fun (updated, list) => (updated, s.saveHoldings userId list)

def deleteHolding (userId id : String) : LocalStorage :=
  s.saveHoldings userId ((s.listHoldings userId).filter fun h => h.id ≠ id)

end LocalStorage

/-! ## The hook -/

/-- The states of the hook; `config` and `balance` are null until the page is there. -/
structure Page where
  userId : Option String
  config : Option PositionConfig
  balance : Option PositionBalance
  actualTrade : ℚ
  holdings : List LongTermHolding

structure World where
  storage : LocalStorage
  page : Page

/-- The effect of a new `config` or `userId`. -/
def World.recompute (w : World) : World :=
  match w.page.config with
  | none => w
  | some config =>
      let nextBalance := createDefaultBalance config
      { storage :=
          match w.page.userId with
          | none => w.storage
          | some userId => (w.storage.saveConfig userId config).saveBalance userId nextBalance
        page := { w.page with balance := some nextBalance } }

/-- The effects of a new `userId`. -/
def World.signIn (w : World) : Option String → World
  | none =>
      World.recompute { w with page := { w.page with
        userId := none, config := some defaultConfig, balance := some (createDefaultBalance defaultConfig),
        holdings := [] } }
  | some userId =>
      -- read before the effect of the new id saves the config of before under it
      let savedConfig := w.storage.loadConfig userId
      let savedBalance := w.storage.loadBalance userId
      let data := w.storage.listHoldings userId
      let saved := World.recompute { w with page := { w.page with userId := some userId } }
      let nextConfig := savedConfig.getD defaultConfig
      World.recompute { saved with page := { saved.page with
        config := some nextConfig, balance := some (savedBalance.getD (createDefaultBalance nextConfig)),
        holdings := data } }

inductive Event
  /-- The page is opened; nobody is signed in yet. -/
  | visit (initialPlannedTrade : ℚ)
  | signIn (userId : Option String)
  | updateConfig (updater : PositionConfig → PositionConfig)
  | updateBalance (nextBalance : PositionBalance)
  | setActualTrade (t : ℚ)
  | archiveWhatIf
  | addHolding (created : LongTermHolding)
  | updateHolding (id : String) (p : HoldingPatch)
  | deleteHolding (id : String)

def World.updateBalance (w : World) (nextBalance : PositionBalance) : World where
  storage :=
    match w.page.userId with
    | none => w.storage
    | some userId => w.storage.saveBalance userId nextBalance
  page := { w.page with balance := some nextBalance }

/-- The balance that is left of the simulated trade. -/
def remainingBalance (config : PositionConfig) (balance : PositionBalance) (t : ℚ) : PositionBalance :=
  let whatIf := simulateWhatIf config balance t
  { emergencyWu := whatIf.remaining .emergency
    btcWu := whatIf.remaining .btc
    midWu := whatIf.remaining .mid
    smallTradableWu := whatIf.remaining .smallTradable
    smallReserveWu := whatIf.remaining .smallReserve
    cutPositionWu := balance.cutPositionWu }

def World.step (w : World) : Event → World
  | .visit initialPlannedTrade =>
      World.signIn { w with page := { userId := none, config := none, balance := none,
                                      actualTrade := initialPlannedTrade, holdings := [] } } none
  | .signIn userId => if userId = w.page.userId then w else w.signIn userId
  | .updateConfig updater =>
      match w.page.config with
      | none => w
      | some config => World.recompute { w with page := { w.page with config := some (updater config) } }
  | .updateBalance nextBalance => w.updateBalance nextBalance
  | .setActualTrade t => { w with page := { w.page with actualTrade := t } }
  | .archiveWhatIf =>
      match w.page.config, w.page.balance with
      | some config, some balance =>
          if (simulateWhatIf config balance w.page.actualTrade).touchesEmergency then w
          else w.updateBalance (remainingBalance config balance w.page.actualTrade)
      | _, _ => w
  | .addHolding created =>
      match w.page.userId with
      | none => w
      | some userId =>
          { storage := w.storage.createHolding userId created
            page := { w.page with holdings := created :: w.page.holdings } }
  | .updateHolding id p =>
      match w.page.userId with
      | none => w
      | some userId =>
          match w.storage.updateHolding userId id p with
          | none => w
          | some (updated, storage) =>
              { storage, page := { w.page with
                  holdings := w.page.holdings.map fun h => if h.id = id then updated else h } }
  | .deleteHolding id =>
      match w.page.userId with
      | none => w
      | some userId =>
          { storage := w.storage.deleteHolding userId id
            page := { w.page with holdings := w.page.holdings.filter fun h => h.id ≠ id } }

/-- A browser that has never seen the page, at its first visit. -/
def firstVisit : World :=
  World.step { storage := fun _ => none
               page := { userId := none, config := none, balance := none, actualTrade := 0, holdings := [] } }
    (.visit 0)

/-! ## What the page is for -/

structure Account where
  config : PositionConfig
  balance : PositionBalance
  holdings : List LongTermHolding

def Account.new : Account where
  config := defaultConfig
  balance := createDefaultBalance defaultConfig
  holdings := []

/-- An account for every user, and one for the page without a user. -/
structure Accounts where
  of : Option String → Account
  current : Option String
  actualTrade : ℚ

namespace Accounts

def shown (a : Accounts) : Account := a.of a.current

def modify (a : Accounts) (f : Account → Account) : Accounts :=
  { a with of := Function.update a.of a.current (f a.shown) }

/-- Whoever comes finds an own balance forgotten; without a user all of the account is new. -/
def enter (a : Accounts) (userId : Option String) : Accounts :=
  { a with
    current := userId
    of := Function.update a.of userId
      (match userId with
      | none => .new
      | some _ => { a.of userId with balance := createDefaultBalance (a.of userId).config }) }

def step (a : Accounts) : Event → Accounts
  | .visit initialPlannedTrade => { a.enter none with actualTrade := initialPlannedTrade }
  | .signIn userId => if userId = a.current then a else a.enter userId
  | .updateConfig updater => a.modify fun account =>
      { account with config := updater account.config, balance := createDefaultBalance (updater account.config) }
  | .updateBalance nextBalance => a.modify fun account => { account with balance := nextBalance }
  | .setActualTrade t => { a with actualTrade := t }
  | .archiveWhatIf =>
      if (simulateWhatIf a.shown.config a.shown.balance a.actualTrade).touchesEmergency then a
      else a.modify fun account =>
        { account with balance := remainingBalance account.config account.balance a.actualTrade }
  | .addHolding created =>
      if a.current.isSome then a.modify fun account => { account with holdings := created :: account.holdings } else a
  | .updateHolding id p => a.modify fun account =>
      { account with holdings := account.holdings.map fun h => if h.id = id then h.patch p else h }
  | .deleteHolding id => a.modify fun account =>
      { account with holdings := account.holdings.filter fun h => h.id ≠ id }

def start : Accounts where
  of := fun _ => .new
  current := none
  actualTrade := 0

end Accounts

/-! ## The keys of the users -/

theorem k_inj {u v s t : String} (hs : ':' ∉ s.toList) (ht : ':' ∉ t.toList) (h : k u s = k v t) : u = v ∧ s = t := by
  have hlist : u.toList ++ ':' :: s.toList = v.toList ++ ':' :: t.toList := by
    have := congrArg String.toList h
    simpa [k] using this
  rcases List.append_eq_append_iff.mp hlist with ⟨mid, hv, htail⟩ | ⟨mid, hu, htail⟩
  · cases mid with
    | nil =>
        simp only [List.append_nil, List.nil_append, List.cons.injEq, true_and] at hv htail
        exact ⟨String.toList_inj.mp hv.symm, String.toList_inj.mp htail⟩
    | cons c mid =>
        simp only [List.cons_append, List.cons.injEq] at htail
        exact absurd (htail.2 ▸ by simp) hs
  · cases mid with
    | nil =>
        simp only [List.append_nil, List.nil_append, List.cons.injEq, true_and] at hu htail
        exact ⟨String.toList_inj.mp hu, String.toList_inj.mp htail.symm⟩
    | cons c mid =>
        simp only [List.cons_append, List.cons.injEq] at htail
        exact absurd (htail.2 ▸ by simp) ht

theorem k_config_ne_balance (u v : String) : k u "config" ≠ k v "balance" := fun h =>
  absurd (k_inj (by decide) (by decide) h).2 (by decide)

theorem k_config_ne_holdings (u v : String) : k u "config" ≠ k v "holdings" := fun h =>
  absurd (k_inj (by decide) (by decide) h).2 (by decide)

theorem k_balance_ne_holdings (u v : String) : k u "balance" ≠ k v "holdings" := fun h =>
  absurd (k_inj (by decide) (by decide) h).2 (by decide)

@[simp] theorem k_config_inj {u v : String} : k u "config" = k v "config" ↔ u = v :=
  ⟨fun h => (k_inj (by decide) (by decide) h).1, congrArg (k · "config")⟩

@[simp] theorem k_balance_inj {u v : String} : k u "balance" = k v "balance" ↔ u = v :=
  ⟨fun h => (k_inj (by decide) (by decide) h).1, congrArg (k · "balance")⟩

@[simp] theorem k_holdings_inj {u v : String} : k u "holdings" = k v "holdings" ↔ u = v :=
  ⟨fun h => (k_inj (by decide) (by decide) h).1, congrArg (k · "holdings")⟩

namespace LocalStorage

variable {s : LocalStorage} {u v : String} {config : PositionConfig} {balance : PositionBalance}
  {list : List LongTermHolding}

/-- What the page finds of a user. -/
def account (s : LocalStorage) (userId : String) : Account where
  config := (s.loadConfig userId).getD defaultConfig
  balance := (s.loadBalance userId).getD (createDefaultBalance ((s.loadConfig userId).getD defaultConfig))
  holdings := s.listHoldings userId

theorem account_saveConfig_saveBalance : ((s.saveConfig v config).saveBalance v balance).account u =
    if u = v then { config, balance, holdings := s.listHoldings v } else s.account u := by
  by_cases h : u = v
  · subst h
    simp [account, saveConfig, saveBalance, loadConfig, loadBalance, listHoldings, writeJson,
      k_config_ne_balance, (k_config_ne_holdings _ _).symm, (k_balance_ne_holdings _ _).symm]
  · simp [account, saveConfig, saveBalance, loadConfig, loadBalance, listHoldings, writeJson, h,
      k_config_ne_balance, (k_config_ne_balance _ _).symm, (k_config_ne_holdings _ _).symm,
      (k_balance_ne_holdings _ _).symm]

theorem account_saveBalance : (s.saveBalance v balance).account u =
    if u = v then { s.account v with balance } else s.account u := by
  by_cases h : u = v
  · subst h
    simp [account, saveBalance, loadConfig, loadBalance, listHoldings, writeJson,
      k_config_ne_balance, (k_balance_ne_holdings _ _).symm]
  · simp [account, saveBalance, loadConfig, loadBalance, listHoldings, writeJson, h,
      k_config_ne_balance, (k_balance_ne_holdings _ _).symm]

theorem account_saveHoldings : (s.saveHoldings v list).account u =
    if u = v then { s.account v with holdings := list } else s.account u := by
  by_cases h : u = v
  · subst h
    simp [account, saveHoldings, loadConfig, loadBalance, listHoldings, writeJson,
      k_config_ne_holdings, k_balance_ne_holdings]
  · simp [account, saveHoldings, loadConfig, loadBalance, listHoldings, writeJson, h,
      k_config_ne_holdings, k_balance_ne_holdings]

/-- With distinct ids the first holding of an id is the only one. -/
theorem eq_of_find? {id : String} {x y : LongTermHolding} (h : (list.map LongTermHolding.id).Nodup)
    (hfound : list.find? (fun h => h.id = id) = some x) (hy : y ∈ list) (hid : y.id = id) : y = x :=
  List.inj_on_of_nodup_map h hy (List.mem_of_find?_eq_some hfound)
    (hid.trans (of_decide_eq_true (List.find?_some (p := fun h : LongTermHolding => decide (h.id = id)) hfound)).symm)

theorem patchFirst_eq (id : String) (p : HoldingPatch) (h : (list.map LongTermHolding.id).Nodup) :
    patchFirst id p list = (list.find? fun x => x.id = id).map fun x =>
      (x.patch p, list.map fun y => if y.id = id then y.patch p else y) := by
  induction list with
  | nil => rfl
  | cons x xs ih =>
      obtain ⟨hx, hxs⟩ := List.nodup_cons.mp h
      unfold patchFirst
      split_ifs with hid
      · have hsame : xs.map (fun y => if y.id = id then y.patch p else y) = xs :=
          (List.map_congr_left fun y hy => if_neg fun hyid =>
            hx (List.mem_map.mpr ⟨y, hy, hyid.trans hid.symm⟩)).trans (List.map_id' xs)
        simp [hid, hsame]
      · simp [hid, ih hxs, Function.comp_def]

end LocalStorage

/-! ## The page shows the accounts -/

/-- The page shows the account of who is signed in, and the storage has those of all. -/
structure Shows (w : World) (a : Accounts) : Prop where
  current : w.page.userId = a.current
  config : w.page.config = some a.shown.config
  balance : w.page.balance = some a.shown.balance
  holdings : w.page.holdings = a.shown.holdings
  actualTrade : w.page.actualTrade = a.actualTrade
  stored : ∀ userId, w.storage.account userId = a.of (some userId)
  distinct : ∀ userId, ((a.of userId).holdings.map LongTermHolding.id).Nodup
  guest : (a.of none).holdings = []

/-- A new holding has an id that none of the account has. -/
def NewId (a : Accounts) : Event → Prop
  | .addHolding created => ∀ h ∈ a.shown.holdings, h.id ≠ created.id
  | _ => True

variable {w w' : World} {a : Accounts} {f : Account → Account}

/-- A step on the account shown. -/
theorem Shows.modify (h : Shows w a) (hcurrent : w'.page.userId = w.page.userId)
    (hactual : w'.page.actualTrade = w.page.actualTrade) (hconfig : w'.page.config = some (f a.shown).config)
    (hbalance : w'.page.balance = some (f a.shown).balance) (hholdings : w'.page.holdings = (f a.shown).holdings)
    (hstored : ∀ userId, w'.storage.account userId =
      if a.current = some userId then f a.shown else w.storage.account userId)
    (hdistinct : ((f a.shown).holdings.map LongTermHolding.id).Nodup)
    (hguest : a.current = none → (f a.shown).holdings = []) : Shows w' (a.modify f) where
  current := hcurrent.trans h.current
  config := by simp [Accounts.shown, Accounts.modify, hconfig]
  balance := by simp [Accounts.shown, Accounts.modify, hbalance]
  holdings := by simp [Accounts.shown, Accounts.modify, hholdings]
  actualTrade := hactual.trans h.actualTrade
  stored := fun userId => by
    rw [hstored, h.stored]
    simp [Accounts.modify, Function.update_apply, eq_comm]
  distinct := fun userId => by
    simp only [Accounts.modify, Function.update_apply]
    split_ifs
    · exact hdistinct
    · exact h.distinct userId
  guest := by
    simp only [Accounts.modify, Function.update_apply]
    split_ifs with hnone
    · exact hguest hnone.symm
    · exact h.guest

theorem Shows.shown_stored (h : Shows w a) {userId : String} (hcurrent : a.current = some userId) :
    w.storage.account userId = a.shown := by
  rw [h.stored, Accounts.shown, hcurrent]

/-- A new balance, saved where somebody is signed in. -/
theorem Shows.updateBalance (h : Shows w a) (nextBalance : PositionBalance) :
    Shows (w.updateBalance nextBalance) (a.modify fun account => { account with balance := nextBalance }) := by
  refine h.modify rfl rfl h.config rfl h.holdings (fun userId => ?_) (h.distinct a.current) (fun hnone => ?_)
  · unfold World.updateBalance
    rw [h.current]
    cases hcurrent : a.current with
    | none => simp
    | some other =>
        rw [← h.shown_stored hcurrent]
        simp [LocalStorage.account_saveBalance, eq_comm]
  · rw [Accounts.shown, hnone, h.guest]

/-- The effect of a new config on the page of the account shown. -/
theorem Shows.recompute (h : Shows w a) (config : PositionConfig) :
    Shows (World.recompute { w with page := { w.page with config := some config } })
      (a.modify fun account => { account with config, balance := createDefaultBalance config }) := by
  refine h.modify rfl rfl rfl rfl h.holdings (fun userId => ?_) (h.distinct a.current) (fun hnone => ?_)
  · simp only [World.recompute, h.current]
    cases hcurrent : a.current with
    | none => simp
    | some other =>
        have hlist : w.storage.listHoldings other = a.shown.holdings := by
          rw [← h.shown_stored hcurrent]
          rfl
        simp [LocalStorage.account_saveConfig_saveBalance, eq_comm, hlist]
  · rw [Accounts.shown, hnone, h.guest]

/-- The page without a user is new, whatever it showed before. -/
theorem shows_guest (hstored : ∀ userId, w.storage.account userId = a.of (some userId))
    (hdistinct : ∀ userId, ((a.of userId).holdings.map LongTermHolding.id).Nodup) :
    Shows (w.signIn none) { a.enter none with actualTrade := w.page.actualTrade } where
  current := rfl
  config := by simp [World.signIn, World.recompute, Accounts.enter, Accounts.shown, Account.new]
  balance := by simp [World.signIn, World.recompute, Accounts.enter, Accounts.shown, Account.new]
  holdings := by simp [World.signIn, World.recompute, Accounts.enter, Accounts.shown, Account.new]
  actualTrade := rfl
  stored := fun userId => by simp [World.signIn, World.recompute, Accounts.enter, hstored]
  distinct := fun userId => by
    simp only [Accounts.enter, Function.update_apply]
    split_ifs
    · simp [Account.new]
    · exact hdistinct userId
  guest := by simp [Accounts.enter, Account.new]

/-- Who signs in finds the own config and holdings, and the balance of that config. -/
theorem Shows.signIn (h : Shows w a) (userId : Option String) : Shows (w.signIn userId) (a.enter userId) := by
  cases userId with
  | none =>
      have hguest := shows_guest h.stored h.distinct
      rw [h.actualTrade] at hguest
      exact hguest
  | some userId =>
      have hconfig : (w.storage.loadConfig userId).getD defaultConfig = (a.of (some userId)).config := by
        rw [← h.stored]
        rfl
      have hlist : w.storage.listHoldings userId = (a.of (some userId)).holdings := by
        rw [← h.stored]
        rfl
      -- the effect of the new id saves no holdings
      have hkept : ∀ config balance, ((w.storage.saveConfig userId config).saveBalance userId balance).listHoldings
          userId = (a.of (some userId)).holdings := by
        intro config balance
        have hsaved : (((w.storage.saveConfig userId config).saveBalance userId balance).account userId).holdings =
            w.storage.listHoldings userId := by
          rw [LocalStorage.account_saveConfig_saveBalance, if_pos rfl]
        exact hsaved.trans hlist
      refine ⟨?_, ?_, ?_, ?_, ?_, fun other => ?_, fun other => ?_, ?_⟩
      · simp [World.signIn, World.recompute, Accounts.enter, h.config]
      · simp [World.signIn, World.recompute, Accounts.enter, Accounts.shown, h.config, hconfig]
      · simp [World.signIn, World.recompute, Accounts.enter, Accounts.shown, h.config, hconfig]
      · simp [World.signIn, World.recompute, Accounts.enter, Accounts.shown, h.config, hlist]
      · simp [World.signIn, World.recompute, Accounts.enter, h.config, h.actualTrade]
      · simp only [World.signIn, World.recompute, h.config, LocalStorage.account_saveConfig_saveBalance, hkept, hconfig,
          Accounts.enter, Function.update_apply, Option.some.injEq]
        split_ifs with hother
        · rfl
        · exact h.stored other
      · simp only [Accounts.enter, Function.update_apply]
        split_ifs
        · exact h.distinct (some userId)
        · exact h.distinct other
      · simp [Accounts.enter, h.guest]

theorem filter_distinct {list : List LongTermHolding} (h : (list.map LongTermHolding.id).Nodup)
    (p : LongTermHolding → Bool) : ((list.filter p).map LongTermHolding.id).Nodup :=
  h.sublist (List.filter_sublist.map _)

theorem map_patch_ids (list : List LongTermHolding) (id : String) (p : HoldingPatch) :
    (list.map fun x => if x.id = id then x.patch p else x).map LongTermHolding.id =
      list.map LongTermHolding.id := by
  rw [List.map_map]
  refine List.map_congr_left fun x _ => ?_
  dsimp only [Function.comp]
  split_ifs <;> rfl

/-- New holdings of the account shown, saved where somebody is signed in. -/
theorem Shows.saveHoldings (h : Shows w a) {userId : String} (hcurrent : a.current = some userId)
    (set : List LongTermHolding → List LongTermHolding)
    (hdistinct : ((set a.shown.holdings).map LongTermHolding.id).Nodup) :
    Shows { storage := w.storage.saveHoldings userId (set a.shown.holdings),
            page := { w.page with holdings := set a.shown.holdings } }
      (a.modify fun account => { account with holdings := set account.holdings }) := by
  refine h.modify rfl rfl h.config h.balance rfl (fun other => ?_) hdistinct (fun hnone => ?_)
  · rw [LocalStorage.account_saveHoldings, h.shown_stored hcurrent, hcurrent]
    simp [eq_comm]
  · rw [hnone] at hcurrent
    cases hcurrent

/-- Without a user nothing is held. -/
theorem Shows.nothing_held (h : Shows w a) (hcurrent : a.current = none) : a.shown.holdings = [] := by
  rw [Accounts.shown, hcurrent, h.guest]

theorem modify_holdings {set : List LongTermHolding → List LongTermHolding}
    (hset : set a.shown.holdings = a.shown.holdings) :
    a.modify (fun account => { account with holdings := set account.holdings }) = a := by
  have hsame : (⟨a.shown.config, a.shown.balance, set a.shown.holdings⟩ : Account) = a.shown :=
    congrArg (Account.mk _ _) hset
  dsimp only [Accounts.modify]
  rw [hsame, Accounts.shown, Function.update_eq_self]

/-- **One step** of the page is one of the accounts. -/
theorem Shows.step (h : Shows w a) {e : Event} (hnew : NewId a e) : Shows (w.step e) (a.step e) := by
  have huser : ∀ userId, a.current = some userId → w.page.userId = some userId := fun _ hcurrent =>
    h.current.trans hcurrent
  have hlist : ∀ userId, a.current = some userId → w.storage.listHoldings userId = a.shown.holdings := by
    intro userId hcurrent
    rw [← h.shown_stored hcurrent]
    rfl
  cases e with
  | visit initialPlannedTrade => exact shows_guest h.stored h.distinct
  | signIn userId =>
      simp only [World.step, Accounts.step, h.current]
      split_ifs
      · exact h
      · exact h.signIn userId
  | updateConfig updater =>
      simp only [World.step, h.config]
      exact h.recompute (updater a.shown.config)
  | updateBalance nextBalance => exact h.updateBalance nextBalance
  | setActualTrade t => exact ⟨h.current, h.config, h.balance, h.holdings, rfl, h.stored, h.distinct, h.guest⟩
  | archiveWhatIf =>
      simp only [World.step, Accounts.step, h.config, h.balance, h.actualTrade]
      split_ifs
      · exact h
      · exact h.updateBalance (remainingBalance a.shown.config a.shown.balance a.actualTrade)
  | addHolding created =>
      cases hcurrent : a.current with
      | none =>
          simp only [World.step, Accounts.step, h.current, hcurrent]
          exact h
      | some userId =>
          have hdistinct : ((created :: a.shown.holdings).map LongTermHolding.id).Nodup := by
            refine List.nodup_cons.mpr ⟨fun hmem => ?_, h.distinct a.current⟩
            obtain ⟨x, hx, hid⟩ := List.mem_map.mp hmem
            exact hnew x hx hid
          have hstep : w.step (.addHolding created) =
              { storage := w.storage.saveHoldings userId (created :: a.shown.holdings)
                page := { w.page with holdings := created :: a.shown.holdings } } := by
            simp only [World.step, huser userId hcurrent, LocalStorage.createHolding, hlist userId hcurrent, h.holdings]
          have haccounts : a.step (.addHolding created) =
              a.modify fun account => { account with holdings := created :: account.holdings } :=
            if_pos (by simp [hcurrent])
          rw [hstep, haccounts]
          exact h.saveHoldings hcurrent (created :: ·) hdistinct
  | updateHolding id p =>
      cases hcurrent : a.current with
      | none =>
          simp only [World.step, Accounts.step, h.current, hcurrent]
          rw [modify_holdings (by rw [h.nothing_held hcurrent]; rfl)]
          exact h
      | some userId =>
          have hdistinct : (a.shown.holdings.map LongTermHolding.id).Nodup := h.distinct a.current
          have hfirst := LocalStorage.patchFirst_eq id p hdistinct
          cases hfound : a.shown.holdings.find? fun x => x.id = id with
          | none =>
              have hsame : (a.shown.holdings.map fun x => if x.id = id then x.patch p else x) = a.shown.holdings :=
                (List.map_congr_left fun x hx =>
                  if_neg (of_decide_eq_false (by simpa using List.find?_eq_none.mp hfound x hx))).trans (List.map_id' _)
              have hstep : w.step (.updateHolding id p) = w := by
                simp only [World.step, huser userId hcurrent, LocalStorage.updateHolding, hlist userId hcurrent]
                rw [hfirst, hfound]
                rfl
              rw [hstep, Accounts.step, modify_holdings hsame]
              exact h
          | some x =>
              have hmap : (a.shown.holdings.map fun y => if y.id = id then x.patch p else y) =
                  a.shown.holdings.map fun y => if y.id = id then y.patch p else y := by
                refine List.map_congr_left fun y hy => ?_
                split_ifs with hid
                · rw [LocalStorage.eq_of_find? hdistinct hfound hy hid]
                · rfl
              have hstep : w.step (.updateHolding id p) =
                  { storage := w.storage.saveHoldings userId
                      (a.shown.holdings.map fun y => if y.id = id then y.patch p else y)
                    page := { w.page with
                      holdings := a.shown.holdings.map fun y => if y.id = id then y.patch p else y } } := by
                simp only [World.step, huser userId hcurrent, LocalStorage.updateHolding, hlist userId hcurrent]
                rw [hfirst, hfound]
                simp only [Option.map_some, h.holdings, hmap]
              rw [hstep]
              exact h.saveHoldings hcurrent (List.map fun y => if y.id = id then y.patch p else y)
                (by rw [map_patch_ids]; exact hdistinct)
  | deleteHolding id =>
      cases hcurrent : a.current with
      | none =>
          simp only [World.step, Accounts.step, h.current, hcurrent]
          rw [modify_holdings (by rw [h.nothing_held hcurrent]; rfl)]
          exact h
      | some userId =>
          have hstep : w.step (.deleteHolding id) =
              { storage := w.storage.saveHoldings userId (a.shown.holdings.filter fun x => x.id ≠ id)
                page := { w.page with holdings := a.shown.holdings.filter fun x => x.id ≠ id } } := by
            simp only [World.step, huser userId hcurrent, LocalStorage.deleteHolding, hlist userId hcurrent, h.holdings]
          rw [hstep]
          exact h.saveHoldings hcurrent (List.filter fun x => x.id ≠ id) (filter_distinct (h.distinct a.current) _)

theorem Shows.run (h : Shows w a) {events : List Event} (hnew : Steps.Along Accounts.step NewId a events) :
    Shows (Steps.run World.step w events) (Steps.run Accounts.step a events) := by
  induction events generalizing w a with
  | nil => exact h
  | cons e events ih => exact ih (h.step hnew.1) hnew.2

theorem shows_start : Shows firstVisit Accounts.start := by
  have hguest : Shows firstVisit { Accounts.start.enter none with actualTrade := 0 } :=
    shows_guest (fun _ => rfl) fun _ => List.nodup_nil
  have hsame : { Accounts.start.enter none with actualTrade := 0 } = Accounts.start := by
    simp [Accounts.enter, Accounts.start]
  exact hsame ▸ hguest

/-- **The page keeps one account for every user.** Over any visits, sign-ins and edits the page shows the account of
who is signed in, with all of the own edits and none of another user's, except the balance: who signs in finds that of
the config. -/
theorem page_shows_accounts (events : List Event)
    (hnew : Steps.Along Accounts.step NewId Accounts.start events) :
    Shows (Steps.run World.step firstVisit events) (Steps.run Accounts.step Accounts.start events) :=
  shows_start.run hnew

/-- **A visit later.** Who comes back finds the config and the holdings as they were; the balance is that of the
config again, whatever trades were archived. -/
theorem next_visit (events : List Event) (hnew : Steps.Along Accounts.step NewId Accounts.start events)
    (userId : String) (huser : (Steps.run World.step firstVisit events).page.userId = some userId) (t : ℚ) :
    let before := (Steps.run World.step firstVisit events).page
    let after := (Steps.run World.step firstVisit (events ++ [.visit t, .signIn (some userId)])).page
    after.userId = some userId ∧ after.config = before.config ∧ after.holdings = before.holdings ∧
      after.balance = before.config.map createDefaultBalance := by
  intro before after
  have hshows := shows_start.run hnew
  have hafter : after = (Steps.run World.step (Steps.run World.step firstVisit events)
      [.visit t, .signIn (some userId)]).page := congrArg World.page (List.foldl_append ..)
  have hback : Shows _ (Steps.run Accounts.step (Steps.run Accounts.step Accounts.start events)
      [.visit t, .signIn (some userId)]) := hshows.run ⟨trivial, trivial, trivial⟩
  generalize Steps.run Accounts.step Accounts.start events = a at hshows hback
  have hcurrent : a.current = some userId := hshows.current.symm.trans huser
  have hshown : (Steps.run Accounts.step a [.visit t, .signIn (some userId)]).shown =
      { a.shown with balance := createDefaultBalance a.shown.config } := by
    simp [Accounts.step, Accounts.enter, Accounts.shown, hcurrent]
  have hconfig : before.config = some a.shown.config := hshows.config
  rw [hafter, hconfig]
  refine ⟨hback.current, ?_, ?_, ?_⟩
  · rw [hback.config, hshown]
  · rw [hback.holdings, hshown, ← hshows.holdings]
  · rw [hback.balance, hshown, Option.map_some]

/-- Signs in and archives a trade. -/
def archived : List Event := [.signIn (some "u1"), .setActualTrade (1 / 10), .archiveWhatIf]

theorem archived_shown : Shows (Steps.run World.step firstVisit archived)
    (Steps.run Accounts.step Accounts.start archived) :=
  page_shows_accounts archived ⟨trivial, trivial, trivial, trivial⟩

/-- The archived trade is on the page, and is gone at the next visit. -/
theorem archived_forgotten :
    ((Steps.run World.step firstVisit archived).page.balance.map PositionBalance.smallTradableWu = some (699 / 10)) ∧
    let after := (Steps.run World.step firstVisit (archived ++ [.visit 0, .signIn (some "u1")])).page
    after.userId = some "u1" ∧ after.config = (Steps.run World.step firstVisit archived).page.config ∧
      after.holdings = (Steps.run World.step firstVisit archived).page.holdings ∧
      after.balance = (Steps.run World.step firstVisit archived).page.config.map createDefaultBalance :=
  ⟨by decide +kernel, next_visit archived ⟨trivial, trivial, trivial, trivial⟩ "u1" (by decide +kernel) 0⟩

end CryptoAggHarmonic.Capital.Sessions
