import MarketSignals.Decision.Basic

/-!
# Deciding by rules

A majority vote of three rules over the readings: relative strength, the sign of the averages'
difference, and the order of the short and the long mean. It never fails, and answers whenever no
other source does.

## Main results

* `outcome_hold_iff` — a vote decides to hold exactly on a tie.
* `tally_add_tally` — every vote is for one side or the other.
-/

namespace MarketSignals.Rules

/-- The side a rule votes for. -/
inductive Side where
  | bullish
  | bearish
deriving DecidableEq

/-- A vote with its reason. -/
structure Vote where
  /-- The side voted for. -/
  side : Side
  /-- The reason given. -/
  reason : String
deriving DecidableEq

/-- Below this, relative strength speaks for buying. -/
def oversold : Float := 30

/-- Above this, relative strength speaks for selling. -/
def overbought : Float := 70

/-- The confidence of a majority. -/
def majorityConfidence : Float := 0.6

/-- The confidence of a tie. -/
def tieConfidence : Float := 0.5

/-- The reason that stands first in every answer. -/
def narrative : String :=
  "Remote decision service unavailable, using rule-based analysis"

/-- The votes for some readings. Relative strength may abstain; what is no number counts against
buying. -/
def votes (r : Readings) : List Vote :=
  (if r.rsi < oversold then [⟨.bullish, "RSI oversold"⟩]
    else if overbought < r.rsi then [⟨.bearish, "RSI overbought"⟩]
    else []) ++
  [if 0 < r.macd.line then ⟨.bullish, "MACD positive"⟩ else ⟨.bearish, "MACD negative"⟩,
    if r.smaLong < r.smaShort then ⟨.bullish, "SMA20 > SMA50"⟩ else ⟨.bearish, "SMA20 <= SMA50"⟩]

/-- How many votes a side has. -/
def tally (side : Side) (votes : List Vote) : Nat :=
  votes.countP (·.side = side)

/-- What a vote decides, and with which confidence. -/
def outcome (votes : List Vote) : Action × Float :=
  if tally .bearish votes < tally .bullish votes then (.buy, majorityConfidence)
  else if tally .bullish votes < tally .bearish votes then (.sell, majorityConfidence)
  else (.hold, tieConfidence)

/-- The decision of the rules at a time. -/
def decide (request : DecisionRequest) (now : Timestamp) : Decision :=
  let votes := votes request.indicators.readings
  { symbol := request.symbol
    action := (outcome votes).1
    confidence := (outcome votes).2
    reasons := narrative :: votes.map Vote.reason
    source := .rule
    producedAt := now }

/-- Every vote is for one side or the other. -/
theorem tally_add_tally (votes : List Vote) :
    tally .bullish votes + tally .bearish votes = votes.length := by
  induction votes with
  | nil => rfl
  | cons vote rest ih =>
    obtain ⟨side, reason⟩ := vote
    cases side <;> simp [tally] at * <;> omega

/-- A vote decides to hold exactly on a tie. -/
theorem outcome_hold_iff {votes : List Vote} :
    (outcome votes).1 = .hold ↔ tally .bullish votes = tally .bearish votes := by
  unfold outcome
  split
  · simp; omega
  · split
    · simp; omega
    · simp; omega

end MarketSignals.Rules
