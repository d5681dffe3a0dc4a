import Mathlib.Algebra.Group.Nat.Defs
import MarketSignals.Database.Session

/-!
# Bars in rows

A bar that was written to the database and read back. Times are kept in whole microseconds without
leap seconds, counts below 2^63; every other column keeps what was written.

## Main results

* `Timestamp.ofMicros?_micros_iff`: exactly the times of whole microseconds come back.
* `Row.countOf_toInt64`, `Row.countOf_toInt64_iff`: exactly the counts below 2^63 come back, and
  zero comes back of all others.
* `Row.bar_barColumns_iff`: exactly the storable bars come back as they were.
* `Database.mapM_bar_barColumns`: what is read from the rows of storable bars.
-/

namespace MarketSignals

/-! ### Times and counts -/

/-- Whether a point in time is a whole number of microseconds and in no leap second. -/
def Timestamp.InMicros (t : Timestamp) : Prop :=
  t.nano < nanosPerSecond ∧ 1000 ∣ t.nano

instance (t : Timestamp) : Decidable t.InMicros :=
  inferInstanceAs (Decidable (_ ∧ _))

/-- The microseconds of a time that has no smaller part make its nanoseconds. -/
theorem Timestamp.micros_mul {t : Timestamp} (h : 1000 ∣ t.nano) : t.micros * 1000 = t.nanos := by
  have hdvd : (1000 : Int) ∣ t.nanos - databaseEpoch * nanosPerSecond := by
    simp only [nanos, databaseEpoch, nanosPerSecond]
    omega
  rw [micros, Int.add_mul, Int.tdiv_mul_cancel hdvd]
  simp only [databaseEpoch, nanosPerSecond]
  omega

/-- Exactly the times of whole microseconds come back from the database. -/
theorem Timestamp.ofMicros?_micros_iff {t : Timestamp} :
    ofMicros? t.micros = some t ↔ t.InMicros := by
  constructor
  · intro h
    simp only [ofMicros?, ofNanos?, of?, Option.dite_none_right_eq_some, Option.some.injEq] at h
    obtain ⟨_, h⟩ := h
    have hnano := congrArg Timestamp.nano h
    simp only [InMicros, nanosPerSecond] at hnano ⊢
    omega
  · intro h
    have hpoint := t.isPoint
    have hsecond : t.nanos / nanosPerSecond = t.second := by
      simp only [nanos, InMicros, nanosPerSecond] at h ⊢
      omega
    have hnano : (t.nanos % nanosPerSecond).toNat = t.nano := by
      simp only [nanos, InMicros, nanosPerSecond] at h ⊢
      omega
    rw [ofMicros?, micros_mul h.2, ofNanos?, hsecond, hnano, of?, dif_pos hpoint]

/-- A count is negative as a signed number exactly from 2^63 on. -/
theorem Row.toInt64_neg_iff {count : UInt64} : count.toInt64 < 0 ↔ 2 ^ 63 ≤ count.toNat := by
  have hbound := count.toNat_lt
  have hint : count.toInt64.toInt = (count.toNat : Int).bmod Int64.size := by
    rw [← Int64.toInt_ofNat', ← UInt64.toInt64_ofNat', UInt64.ofNat_toNat]
  rw [Int64.lt_iff_toInt_lt, hint, Int64.toInt_zero, Int.bmod_def, Int64.size]
  omega

/-- What comes back of a count: nothing is left of one that is negative as a signed number. -/
theorem Row.countOf_toInt64 (count : UInt64) :
    countOf count.toInt64 = if count.toNat < 2 ^ 63 then count else 0 := by
  simp only [countOf, toInt64_neg_iff, UInt64.toUInt64_toInt64, ← Nat.not_lt, ite_not]

/-- Exactly the counts below 2^63 come back from the database. -/
theorem Row.countOf_toInt64_iff {count : UInt64} :
    countOf count.toInt64 = count ↔ count.toNat < 2 ^ 63 := by
  rw [countOf_toInt64]
  split
  · rename_i h
    exact iff_of_true rfl h
  · rename_i h
    rw [← UInt64.toNat_inj, UInt64.toNat_zero]
    omega

/-! ### Bars -/

/-- Whether the database keeps all of a bar. -/
structure Bar.Storable (bar : Bar) : Prop where
  time : bar.time.InMicros
  volume : bar.volume.toNat < 2 ^ 63
  tradeAmount : bar.tradeAmount.toNat < 2 ^ 63

instance (bar : Bar) : Decidable bar.Storable :=
  decidable_of_iff (bar.time.InMicros ∧ bar.volume.toNat < 2 ^ 63 ∧
      bar.tradeAmount.toNat < 2 ^ 63)
    ⟨fun ⟨time, volume, tradeAmount⟩ => ⟨time, volume, tradeAmount⟩,
      fun ⟨time, volume, tradeAmount⟩ => ⟨time, volume, tradeAmount⟩⟩

/-- What comes back of a bar: its counts as far as they can be signed, and the time in its row. -/
theorem Row.bar_barColumns (bar : Bar) :
    Row.bar (Database.barColumns bar) =
      (Row.timestamp (Database.barColumns bar) 0).map fun time =>
        { bar with
          volume := countOf bar.volume.toInt64
          tradeAmount := countOf bar.tradeAmount.toInt64
          time } := by
  rw [Row.bar]
  cases Row.timestamp (Database.barColumns bar) 0 <;> rfl

/-- The time in a row that begins with one. -/
theorem Row.timestamp_cons_iff {micros : Int} {rest : Row} {time : Timestamp} :
    Row.timestamp (.timestamp micros :: rest) 0 = .ok time ↔
      Timestamp.ofMicros? micros = some time := by
  simp only [Row.timestamp, Row.column, List.getElem?_cons_zero, Option.bind_some]
  cases Timestamp.ofMicros? micros <;> simp

theorem Row.timestamp_barColumns_iff {bar : Bar} {time : Timestamp} :
    Row.timestamp (Database.barColumns bar) 0 = .ok time ↔
      Timestamp.ofMicros? bar.time.micros = some time :=
  timestamp_cons_iff

/-- Exactly the storable bars come back as they were. -/
theorem Row.bar_barColumns_iff {bar : Bar} :
    Row.bar (Database.barColumns bar) = .ok bar ↔ bar.Storable := by
  rw [bar_barColumns]
  constructor
  · intro h
    cases htime : Row.timestamp (Database.barColumns bar) 0 with
    | error e => simp [htime, Except.map] at h
    | ok time =>
        simp only [htime, Except.map, Except.ok.injEq] at h
        have hback : time = bar.time := congrArg Bar.time h
        rw [hback, timestamp_barColumns_iff, Timestamp.ofMicros?_micros_iff] at htime
        exact ⟨htime, countOf_toInt64_iff.mp (congrArg Bar.volume h),
          countOf_toInt64_iff.mp (congrArg Bar.tradeAmount h)⟩
  · intro h
    rw [timestamp_barColumns_iff.mpr (Timestamp.ofMicros?_micros_iff.mpr h.time)]
    simp only [Except.map, countOf_toInt64_iff.mpr h.volume, countOf_toInt64_iff.mpr h.tradeAmount]

namespace Database

/-- Where something is read from the columns of each value, it is read from all of them. -/
theorem mapM_map_eq_ok_map {α β : Type} {columns : α → Row} {read : Row → Except StoreError β}
    {kept : α → β} {values : List α}
    (h : ∀ value ∈ values, read (columns value) = .ok (kept value)) :
    (values.map columns).mapM read = .ok (values.map kept) := by
  induction values with
  | nil => rfl
  | cons value rest ih =>
      obtain ⟨hvalue, hrest⟩ := List.forall_mem_cons.mp h
      rw [List.map_cons, List.mapM_cons, hvalue, ih hrest]
      rfl

/-- Where each value is read from its columns, all are. -/
theorem mapM_map_eq_ok {α : Type} {columns : α → Row} {read : Row → Except StoreError α}
    {values : List α} (h : ∀ value ∈ values, read (columns value) = .ok value) :
    (values.map columns).mapM read = .ok values := by
  have hread : (values.map columns).mapM read = .ok (values.map id) := mapM_map_eq_ok_map h
  rwa [List.map_id] at hread

/-- Storable bars are read from their rows. -/
theorem mapM_bar_barColumns {bars : List Bar} (h : ∀ bar ∈ bars, bar.Storable) :
    (bars.map barColumns).mapM Row.bar = .ok bars :=
  mapM_map_eq_ok fun bar hbar => Row.bar_barColumns_iff.mpr (h bar hbar)

/-- Rows that values were written to are the columns of some of those values. -/
theorem exists_written {α : Type} {columns : α → Row} {history : List α} {rows : List Row}
    (h : ∀ row ∈ rows, row ∈ history.map columns) :
    ∃ values : List α, rows = values.map columns ∧ ∀ value ∈ values, value ∈ history := by
  induction rows with
  | nil => exact ⟨[], rfl, by simp⟩
  | cons row rest ih =>
      obtain ⟨hrow, hrest⟩ := List.forall_mem_cons.mp h
      obtain ⟨values, rfl, hvalues⟩ := ih hrest
      obtain ⟨value, hvalue, rfl⟩ := List.mem_map.mp hrow
      exact ⟨value :: values, List.map_cons.symm, List.forall_mem_cons.mpr ⟨hvalue, hvalues⟩⟩

/-- What is answered to the newest bars of a symbol, from the rows of storable bars. -/
theorem answerOf_recentPrices {bars : List Bar} (h : ∀ bar ∈ bars, bar.Storable) (symbol : String)
    (limit : Nat) :
    answerOf (bars.map barColumns) (.recentPrices symbol limit) =
      .ok (Series.trailing limit (collapseByTime bars.reverse)) := by
  show recentPrices limit (bars.map barColumns) = _
  rw [recentPrices, mapM_bar_barColumns h]
  rfl

/-- What is answered to the newest bar of a symbol, from the rows of storable bars. -/
theorem answerOf_latestPrice {bars : List Bar} (h : ∀ bar ∈ bars, bar.Storable) (symbol : String) :
    answerOf (bars.map barColumns) (.latestPrice symbol) =
      .ok (Series.trailing 1 (collapseByTime bars.reverse)).getLast? := by
  have hrecent := answerOf_recentPrices h symbol 1
  simp only [answerOf] at hrecent ⊢
  rw [hrecent]
  rfl

end Database

end MarketSignals
