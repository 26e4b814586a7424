import CryptoAggHarmonic.Python.Float

/-!
# What a worker returns

The metrics blob of the backtest harness and the result of one candidate.
-/

namespace CryptoAggHarmonic.Loop

/-- A regime of `by_regime`. -/
structure Regime where
  n : Option ℤ
  sharpe : Option PyFloat
  deriving DecidableEq

structure Metrics where
  sharpe : Option PyFloat
  calmar : Option PyFloat
  profitFactor : Option PyFloat
  tradesCount : Option ℤ
  fitness : Option PyFloat
  /-- `by_regime`, in the order of the dict. -/
  byRegime : List (String × Regime)
  deriving DecidableEq

/-- The metrics of a worker that ran no backtest. -/
def Metrics.empty : Metrics where
  sharpe := none
  calmar := none
  profitFactor := none
  tradesCount := none
  fitness := none
  byRegime := []

inductive Decision
  | accepted
  | rejected
  | duplicate
  | error
  deriving DecidableEq, Repr

structure CandidateResult where
  candidateId : String
  paramsSha : String
  decision : Decision
  rejectionReason : Option String
  metrics : Metrics
  fitness : Option PyFloat
  runDir : String
  error : Option String
  deriving DecidableEq

/-- `r.fitness or 0`. -/
def CandidateResult.fitnessOrZero (r : CandidateResult) : PyFloat := r.fitness.getD (.finite 0)

/-!
# The Pareto front

The objectives of a point, dominance, and the set that keeps the points nobody dominates.
-/

structure ParetoPoint where
  paramsSha : String
  gen : ℤ
  cluster : String
  runDir : String
  sharpe : Option PyFloat
  calmar : Option PyFloat
  profitFactor : Option PyFloat
  worstRegimeSharpe : Option PyFloat
  tradeCount : ℤ
  fitness : PyFloat
  deriving DecidableEq

/-- `_safe`: a missing metric counts as the worst case. -/
def safe (x : Option PyFloat) (default : ℚ) : PyFloat := x.getD (.finite default)

/-- All four are maximised. -/
def objectives (p : ParetoPoint) : PyFloat × PyFloat × PyFloat × PyFloat :=
  (safe p.sharpe (-10), safe p.calmar (-10), safe p.profitFactor 0, safe p.worstRegimeSharpe (-10))

def allGe : PyFloat × PyFloat × PyFloat × PyFloat → PyFloat × PyFloat × PyFloat × PyFloat → Bool
  | (a, b, c, d), (a', b', c', d') => a.ge a' && b.ge b' && c.ge c' && d.ge d'

def anyGt : PyFloat × PyFloat × PyFloat × PyFloat → PyFloat × PyFloat × PyFloat × PyFloat → Bool
  | (a, b, c, d), (a', b', c', d') => a.gt a' || b.gt b' || c.gt c' || d.gt d'

def dominates (a b : ParetoPoint) : Bool :=
  allGe (objectives a) (objectives b) && anyGt (objectives a) (objectives b)

structure ParetoSet where
  points : List ParetoPoint
  deriving DecidableEq

def ParetoSet.empty : ParetoSet where
  points := []

/-- Whether the front moved, and the set afterwards. -/
def ParetoSet.add (s : ParetoSet) (p : ParetoPoint) : Bool × ParetoSet :=
  -- The same sha is the same experiment.
  if s.points.any fun q => q.paramsSha = p.paramsSha then (false, s)
  else
    let newPoints := s.points.filter fun q => !dominates p q
    if newPoints.any fun q => dominates q p then (false, s)
    else (true, { points := newPoints ++ [p] })

def ParetoSet.addAll (s : ParetoSet) (ps : List ParetoPoint) : ParetoSet := ps.foldl (fun s p => (s.add p).2) s

def worstRegimeSharpe (metrics : Metrics) : Option PyFloat :=
  pyMin ((metrics.byRegime.map Prod.snd).filterMap fun b => if b.n.getD 0 ≥ 3 then b.sharpe else none)

def fromMetrics (metrics : Metrics) (paramsSha : String) (gen : ℤ) (cluster runDir : String) (fitness : PyFloat) :
    ParetoPoint where
  paramsSha := paramsSha
  gen := gen
  cluster := cluster
  runDir := runDir
  sharpe := metrics.sharpe
  calmar := metrics.calmar
  profitFactor := metrics.profitFactor
  worstRegimeSharpe := worstRegimeSharpe metrics
  tradeCount := metrics.tradesCount.getD 0
  fitness := fitness

end CryptoAggHarmonic.Loop
