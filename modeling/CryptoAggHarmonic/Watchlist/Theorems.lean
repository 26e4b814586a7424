import CryptoAggHarmonic.Watchlist.Lemmas.Steps
import CryptoAggHarmonic.Watchlist.Lemmas.Workers
import CryptoAggHarmonic.Watchlist.Lemmas.Reorder
import CryptoAggHarmonic.Lib.Steps

/-!
# The backends refine one specification

Over all calls of a user, in any order, from an empty watchlist. Then calls that overlap, of several workers that share
the data in Redis.
-/

namespace CryptoAggHarmonic.Watchlist

/-- The answers of the specification, and never more items than the limit. -/
def Refines (cfg : Config) (b : Backend) (calls : List (Op × Env)) : Prop :=
  Steps.outputs (Store.step cfg) b.start calls = Steps.outputs (UserItems.step cfg) .empty calls ∧
    Steps.Always (fun s call => (Store.step cfg s call).1) (fun s => s.items.length ≤ maxItemsPerUser) b.start calls

/-- **The refinement.** -/
theorem backends_refine {cfg : Config} (hcfg : cfg.Orders) (b : Backend) {calls : List (Op × Env)}
    (h : Steps.Along (fun w call => (UserItems.step cfg w call).1) (Clear cfg b) .empty calls) :
    Refines cfg b calls := by
  have hstep : ∀ s w call, b.Agrees s w → Clear cfg b w call →
      b.Agrees (Store.step cfg s call).1 (UserItems.step cfg w call).1 ∧
        (Store.step cfg s call).2 = (UserItems.step cfg w call).2 :=
    fun _ _ _ hagrees hclear => hagrees.step hcfg hclear
  obtain ⟨houtputs, halways⟩ := Steps.outputs_simulates hstep agrees_start h
  exact ⟨houtputs, halways.imp fun _ ⟨_, hagrees⟩ => hagrees.length_le⟩

def sortedConfig : Config := ⟨none, sortItems⟩

def coin (n : ℕ) : SymbolMeta := ⟨toString n ++ "USDT", toString n, "USDT", "PERPETUAL", some "COIN", [], 2, 3, false⟩

def rowId (n : ℕ) : String := toString (10 + n) ++ "000000-0000-4000-8000-000000000000"

def env (n : ℕ) : Env := ⟨rowId n, n, fun _ => .answers⟩

/-- Two coins, the second twice, the order turned round, a note, and the first one deleted. -/
def twoCoins : List (Op × Env) :=
  [(.create "futures" (coin 0) "", env 0), (.create "futures" (coin 1) "", env 1),
    (.create "futures" (coin 1) "", env 2), (.reorder "futures" [rowId 1, rowId 0], env 3),
    (.update (rowId 1) ⟨some "first", none⟩, env 4), (.delete (rowId 0), env 5), (.list "futures", env 6)]

theorem sortedConfig_orders : sortedConfig.Orders := fun _ =>
  ⟨List.perm_insertionSort .., List.pairwise_insertionSort ..⟩

theorem twoCoins_refine : Refines sortedConfig (.supabase true) twoCoins := by
  refine backends_refine sortedConfig_orders _ ?_
  refine ⟨⟨⟨fun _ => rfl, trivial⟩, ?_⟩, ⟨⟨fun _ => rfl, trivial⟩, ?_⟩, ⟨⟨fun _ => rfl, trivial⟩, ?_⟩,
    ⟨⟨fun _ => rfl, by decide⟩, fun _ => False.elim⟩,
    ⟨⟨fun _ => rfl, Or.inl (by decide), by decide⟩, fun _ => False.elim⟩,
    ⟨⟨fun _ => rfl, Or.inl (by decide +kernel)⟩, fun _ => False.elim⟩,
    ⟨⟨fun _ => rfl, by decide⟩, fun _ => False.elim⟩, trivial⟩
  · rintro i ⟨-, -, rfl⟩
    decide
  · rintro i ⟨-, -, rfl⟩
    decide
  · rintro i ⟨-, -, rfl⟩
    decide

/-- A table that answers has no limit: it takes the row, or has its pair or its id. -/
theorem table_unlimited {s : Store} {t : Rows} {e : Env} {i : Item} (ht : s.table = some t)
    (hreply : e.reply 1 = .answers) (hid : CanonicalId i.id) (hstorable : i.Storable) :
    (s.createRow e i).2 = .ok i ∨ (s.createRow e i).2 = .error (.duplicate i.symbol i.market) := by
  have hinsert : (t.insert i (e.reply 1)).2 = .ok i ∨ (t.insert i (e.reply 1)).2 = .error .uniqueViolation := by
    unfold Rows.insert
    rw [hreply, hid]
    dsimp only [Rows.replied]
    rw [if_neg (not_not.mpr hstorable)]
    split_ifs
    · exact Or.inr rfl
    · split
      · exact Or.inr rfl
      · exact Or.inl rfl
  unfold Store.createRow
  rw [ht]
  dsimp only
  rcases hresult : t.insert i (e.reply 1) with ⟨t', result⟩
  rw [hresult] at hinsert
  rcases hinsert with rfl | rfl
  · exact Or.inl rfl
  · exact Or.inr rfl

/-- Fifty coins in one market and one in another. -/
def twoMarkets : List (Op × Env) :=
  (List.range 50).map (fun n => (.create "futures" (coin n) "", env n)) ++ [(.create "spot" (coin 50) "", env 50)]

theorem redis_unlimited : ¬ ∀ b calls, Refines sortedConfig b calls := by
  intro h
  have hlimit := (h .redis twoMarkets).2.run
  exact absurd hlimit (by decide +kernel)

/-! ## Several workers -/

/-- What was acknowledged is reflected in the data. -/
structure Reflected {ι : Type} (t₀ : Table Item.id) (w : Workers ι) : Prop where
  logged : ∀ c change response, (w.procs c).phase = .acknowledged change response → change ∈ w.shared.acks
  shows : w.shared.data.Shows (w.shared.expected t₀)
  created : ∀ payload, .create payload ∈ w.shared.acks → .delete payload.id ∉ w.shared.acks →
    ∃ r ∈ w.shared.data.rowsOf payload.market, r.identity = payload.identity
  deleted : ∀ id, .delete id ∈ w.shared.acks → ∀ market, ∀ r ∈ w.shared.data.rowsOf market, r.id ≠ id
  symbols : w.shared.data.SymbolsUnique

/-- **No acknowledged change is lost** in a run whose saves are each made on the data that their own call has loaded. -/
theorem acknowledged_reflected {ι : Type} [DecidableEq ι] (cfg : Config) {data : RedisData} {t₀ : Table Item.id}
    {calls : ι → Op × Env} (hshows : data.Shows t₀) (hsymbols : data.SymbolsUnique) (hnew : NewIds t₀ calls)
    (schedule : List (ι × Unit)) :
    (Interleave.run (callStep cfg) (Workers.start data calls) schedule).shared.data.SymbolsUnique ∧
    (Interleave.Along (callStep cfg) SavesOnLoaded (Workers.start data calls) schedule →
      Reflected t₀ (Interleave.run (callStep cfg) (Workers.start data calls) schedule)) := by
  have hunique : Interleave.Holds (fun s : Shared => s.data.SymbolsUnique) (fun _ => Call.CopiesUnique)
      (Interleave.run (callStep cfg) (Workers.start data calls) schedule) :=
    Interleave.run_kept (fun _ _ h => symbolsUnique_step h) ⟨hsymbols, fun c _ _ hphase => by cases hphase⟩
  refine ⟨hunique.1, fun halong => ?_⟩
  have hkept := Interleave.run_invariant (fun _ _ h hok => Kept.step h hnew hok) (kept_start hshows) halong
  constructor
  · exact hkept.logged
  · exact hkept.shows
  · intro payload hcreated hpresent
    obtain ⟨r, hr, hidentity⟩ := hkept.created payload hcreated hpresent
    exact ⟨r, hkept.shows.mem_rowsOf.mpr ⟨hr, congrArg (·.2.1) hidentity⟩, hidentity⟩
  · intro id hdeleted market r hr
    exact (hkept.deleted id hdeleted).2 r (hkept.shows.mem_rowsOf.mp hr).1
  · exact hunique.1

/-- Two workers, each of which adds a coin. -/
def twoCreates (c : Bool) : Op × Env :=
  (.create "futures" (coin c.toNat) "", env c.toNat)

theorem twoCreates_new : NewIds (Table.empty : Table Item.id) twoCreates where
  unused _ _ hr := by cases hr
  distinct := by decide

theorem empty_shows : RedisData.Shows Table.empty (Table.empty : Table Item.id) := fun _ => rfl

theorem empty_symbols : RedisData.SymbolsUnique Table.empty := fun _ => List.nodup_nil

/-- One after the other. -/
theorem twoCreates_reflected : Reflected Table.empty (Interleave.run (callStep sortedConfig)
    (Workers.start Table.empty twoCreates) [(false, ()), (false, ()), (false, ()), (true, ()), (true, ()), (true, ())]) := by
  refine (acknowledged_reflected sortedConfig empty_shows empty_symbols twoCreates_new _).2 ?_
  refine ⟨?_, ?_, ?_, ?_, ?_, ?_, trivial⟩ <;> rintro _ _ _ ⟨⟩ - <;> rfl

/-- Both load before either saves. -/
theorem overlapping_creates_lost : ¬ ∀ schedule, Reflected Table.empty
    (Interleave.run (callStep sortedConfig) (Workers.start Table.empty twoCreates) schedule) := by
  intro h
  have hfirst := (h [(false, ()), (true, ()), (false, ()), (true, ()), (false, ()), (true, ())]).created
    (payload (env 0) "futures" (coin 0) "" 0) (by decide) (by decide)
  exact absurd hfirst (by decide)

/-! ## A reorder among failures -/

/-- **When a reorder is all or nothing.** -/
theorem reorder_exact_iff {cfg : Config} (hcfg : cfg.Orders) {s : Store} (hs : s.Formed) (c : Course) {market : String}
    (htext : IsText market) (ids : List String) :
    Exact cfg s c market ids ↔ (s.Accepts cfg c market ids → Harmless cfg s c market ids) := by
  by_cases haccepts : s.Accepts cfg c market ids
  · rw [imp_iff_right haccepts]
    obtain ⟨_ | t, data | rows⟩ := s
    · obtain ⟨t, hshows⟩ := hs.alone data rfl rfl
      exact redis_exact hshows haccepts
    · exact memory_exact haccepts
    · exact table_exact hcfg htext (hs.served t rfl).1 (hs.served t rfl).2 haccepts
    · exact table_exact hcfg htext (hs.served t rfl).1 (hs.served t rfl).2 haccepts
  · exact iff_of_true (exact_of_refused haccepts) fun h => absurd h haccepts

def twoAdded : List (Op × Env) :=
  [(.create "futures" (coin 0) "", env 0), (.create "futures" (coin 1) "", env 1)]

/-- A user with two coins. -/
def twoRows : Store :=
  Steps.run (fun s call => (Store.step sortedConfig s call).1) (Backend.start (.supabase true)) twoAdded

theorem twoAdded_draws : Steps.Along (fun s call => (Store.step sortedConfig s call).1) DrawsId
    (Backend.start (.supabase true)) twoAdded := by
  have hfirst : ∀ r ∈ (Backend.start (.supabase true)).fallback.rows, r.id ≠ rowId 0 := fun _ hr => by cases hr
  have hsecond : ∀ r ∈ (Store.step sortedConfig (Backend.start (.supabase true))
      (.create "futures" (coin 0) "", env 0)).1.fallback.rows, r.id ≠ rowId 1 := by decide
  have hid : CanonicalId (rowId 0) ∧ CanonicalId (rowId 1) := by decide
  exact ⟨⟨hid.1, hfirst⟩, ⟨hid.2, hsecond⟩, trivial⟩

theorem twoRows_formed : twoRows.Formed := (formed_run _ twoAdded_draws).run

theorem twoRows_exact : Exact sortedConfig twoRows (.alone fun _ => .answers) "futures" [rowId 1, rowId 0] := by
  refine (reorder_exact_iff sortedConfig_orders twoRows_formed _ (by decide) _).mpr fun _ => ?_
  exact Or.inl rfl

/-- The second `UPDATE` raises. -/
theorem halfway_not_exact : ¬ ∀ c, Exact sortedConfig twoRows c "futures" [rowId 1, rowId 0] := by
  intro h
  have hshown := (h (.alone fun n => if n = 2 then .raises else .answers)).sublist
  exact absurd hshown (by decide)

end CryptoAggHarmonic.Watchlist
