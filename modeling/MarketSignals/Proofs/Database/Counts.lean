import MarketSignals.Proofs.Database.Listing

/-!
# Counts in rows

The counts of a bar have no sign, their columns do. A count from 2^63 on is sent as the negative
number of the same 64 bits, and a negative number is read as zero: the two directions do not cancel,
and the count is lost. Whatever else was written to the row comes back, down to the bits of a number
that is none.

## Main results

* `Row.bar_barColumns_of_inMicros`: what comes back of a bar of a storable time.
* `Database.prices_read_back`: a bar comes back as it was exactly where both counts are below 2^63.
* `Database.largeCounts_lost`: counts from 2^63 on come back as zero.
-/

namespace MarketSignals

/-- What the database keeps of a count: nothing where it is no signed number of 64 bits. -/
def keptCount (count : UInt64) : UInt64 :=
  if count.toNat < 2 ^ 63 then count else 0

theorem keptCount_eq_iff {count : UInt64} : keptCount count = count ↔ count.toNat < 2 ^ 63 := by
  rw [← Row.countOf_toInt64_iff, Row.countOf_toInt64, keptCount]

/-- What the database keeps of a bar. -/
def Bar.kept (bar : Bar) : Bar :=
  { bar with volume := keptCount bar.volume, tradeAmount := keptCount bar.tradeAmount }

/-- All of a bar is kept exactly where both counts are. -/
theorem Bar.kept_eq_iff {bar : Bar} :
    bar.kept = bar ↔ bar.volume.toNat < 2 ^ 63 ∧ bar.tradeAmount.toNat < 2 ^ 63 := by
  rw [← keptCount_eq_iff, ← keptCount_eq_iff]
  constructor
  · intro h
    exact ⟨congrArg Bar.volume h, congrArg Bar.tradeAmount h⟩
  · rintro ⟨hvolume, hamount⟩
    rw [kept, hvolume, hamount]

/-- What comes back of a bar of a storable time. -/
theorem Row.bar_barColumns_of_inMicros {bar : Bar} (h : bar.time.InMicros) :
    Row.bar (Database.barColumns bar) = .ok bar.kept := by
  have htime : Row.timestamp (Database.barColumns bar) 0 = .ok bar.time :=
    timestamp_barColumns_iff.mpr (Timestamp.ofMicros?_micros_iff.mpr h)
  rw [bar_barColumns, htime, countOf_toInt64, countOf_toInt64]
  rfl

namespace Database

/-- **A bar that is read from its row is the bar that was written where its counts can be signed.**
Of every bar whose time is a whole number of microseconds and in no leap second, whatever its texts
and its numbers are, everything comes back but a count from 2^63 on, of which zero comes back; so the
bar comes back as it was exactly where both counts are smaller. A query of recent prices that
returns the rows of such bars, in whatever order, is answered with what comes back of them. -/
theorem prices_read_back (now : Timestamp) :
    (∀ bar : Bar, bar.time.InMicros →
      (priceRows now [bar]).map Row.bar = [.ok bar.kept] ∧
      ((priceRows now [bar]).map Row.bar = [.ok bar] ↔
        bar.volume.toNat < 2 ^ 63 ∧ bar.tradeAmount.toNat < 2 ^ 63)) ∧
    ∀ bars : List Bar, (∀ bar ∈ bars, bar.time.InMicros) → ∀ later symbol limit,
      (perform true 0 later (priceRows now bars) (.recentPrices symbol limit)).2 =
        .ok (Series.trailing limit (collapseByTime (bars.map Bar.kept).reverse)) := by
  refine ⟨fun bar hbar => ?_, fun bars hbars later symbol limit => ?_⟩
  · have hread : (priceRows now [bar]).map Row.bar = [.ok bar.kept] := by
      rw [priceRows_eq, List.map_singleton, List.map_singleton,
        Row.bar_barColumns_of_inMicros hbar]
    refine ⟨hread, ?_⟩
    rw [hread, ← Bar.kept_eq_iff, List.singleton_inj, Except.ok.injEq]
  · rw [perform_eq, priceRows_eq]
    show recentPrices limit (bars.map barColumns) = _
    have hread : ∀ bar ∈ bars, Row.bar (barColumns bar) = .ok bar.kept := fun bar hbar =>
      Row.bar_barColumns_of_inMicros (hbars bar hbar)
    rw [recentPrices, mapM_map_eq_ok_map hread]
    rfl

/-- A bar with the largest counts that can be signed, prices that are no numbers, and the last
microsecond before a leap second. -/
def largestBar : Bar :=
  ⟨"AA\"PL", "", 0 / 0, 1 / 0, -0.0, 0.1, 9223372036854775807, 9223372036854775807,
    ⟨1435708799, 999999000, by decide⟩⟩

/-- All of it comes back. -/
theorem prices_read_back_largest :
    largestBar.time.InMicros ∧ (priceRows .epoch [largestBar]).map Row.bar = [.ok largestBar] ∧
      (perform true 0 .epoch (priceRows .epoch [largestBar])
        (.recentPrices largestBar.symbol 1)).2 = .ok [largestBar] := by
  have htime : largestBar.time.InMicros := by decide
  have hkept : largestBar.kept = largestBar := Bar.kept_eq_iff.mpr (by decide +kernel)
  obtain ⟨hone, hquery⟩ := prices_read_back .epoch
  refine ⟨htime, (hone largestBar htime).2.mpr (Bar.kept_eq_iff.mp hkept), ?_⟩
  rw [hquery [largestBar] (List.forall_mem_singleton.mpr htime), List.map_singleton, hkept]
  rfl

/-- A bar with counts beyond the signed ones. -/
def largeBar : Bar :=
  ⟨"AAPL", "NASDAQ", 100, 101, 99, 100, 18446744073709551615, 9223372036854775809,
    ⟨1704153600, 0, by decide⟩⟩

/-- Nothing is left of its counts, though its time is one that the database keeps. -/
theorem largeCounts_lost : largeBar.time.InMicros ∧
    (priceRows .epoch [largeBar]).map Row.bar =
      [.ok { largeBar with volume := 0, tradeAmount := 0 }] ∧
    (priceRows .epoch [largeBar]).map Row.bar ≠ [.ok largeBar] := by
  have hlost : (priceRows .epoch [largeBar]).map Row.bar =
      [.ok { largeBar with volume := 0, tradeAmount := 0 }] := by
    decide +kernel
  exact ⟨by decide, hlost, by rw [hlost]; decide +kernel⟩

end Database

end MarketSignals
