import SphereFx.Base.Streak
import SphereFx.Backtester.Simulator

/-!
# The streak counters

`metrics.go` counts the winning and the losing trades in a row, and `risk.go` the losing ones once more.
Neither count depends on the direction in which the trades are read.
-/

namespace SphereFx.Backtester

/-- `t.RRAchieved > 0`. -/
def Trade.wins (t : Trade) : Bool := 0 < t.rrAchieved

/-- `t.RRAchieved <= 0`; a NaN is neither this nor a win. -/
def Trade.loses (t : Trade) : Bool := t.rrAchieved ≤ 0

/-! ### `metrics.go` -/

def calculateConsecutiveWins (trades : List Trade) : ℕ := longestStreak Trade.wins trades

def calculateConsecutiveLosses (trades : List Trade) : ℕ := longestStreak Trade.loses trades

/-! ### `risk.go` -/

def calculateMaxConsecutiveLosses (trades : List Trade) : ℕ := longestStreak Trade.loses trades

/-- What a streak counter of some kind of trade satisfies on a list. -/
structure StreakLaws (kind : Trade → Bool) (counter : List Trade → ℕ) (trades : List Trade) : Prop where
  longest : IsGreatest (Streaks kind trades) (counter trades)
  reversed : counter trades.reverse = counter trades
  appended : ∀ more, counter trades ≤ counter (trades ++ more)

theorem streakLaws_longestStreak (kind : Trade → Bool) (trades : List Trade) :
    StreakLaws kind (longestStreak kind) trades where
  longest := isGreatest_longestStreak kind trades
  reversed := longestStreak_reverse kind trades
  appended := longestStreak_le_append kind trades

/-- The counters return the length of the longest block of winning or of losing trades. -/
theorem streaks_longest (trades : List Trade) :
    StreakLaws Trade.wins calculateConsecutiveWins trades ∧
      StreakLaws Trade.loses calculateConsecutiveLosses trades ∧
      StreakLaws Trade.loses calculateMaxConsecutiveLosses trades :=
  ⟨streakLaws_longestStreak _ trades, streakLaws_longestStreak _ trades,
    streakLaws_longestStreak _ trades⟩

end SphereFx.Backtester
