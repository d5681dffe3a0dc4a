import MarketSignals.Proofs.Indicator.FullHistory
import MarketSignals.Proofs.Indicator.Ranges
import MarketSignals.Proofs.Json.Magnitude
import MarketSignals.Proofs.Wire.RoundTrip

/-!
# Snapshots on the queue

What is published for a snapshot is read by the next stage. A reading that is no finite number is
written as `null`, and then nothing is read. Finite prices are not enough against that: a sum of
prices may overflow, a band at very many deviations may, and so may the place of a close that is far
outside of a tiny range. With bounds on all three every reading is finite and small enough to be
printed as a numeral that denotes a float.

The bounds hold for every period that a word holds. They leave the square of a price in range, times
as many prices as a sum can count, and a band around such prices.

## Main results

* `Lookbacks.snapshot_published`: the readings are finite, and both documents of the request for a
  decision are read.
* `Lookbacks.overflow_without_bounds`: what happens without each of the bounds.
-/

namespace MarketSignals

open Binary64 Json

/-- A float that is not too large is printed so that a float is read. -/
theorem Json.readable_of_atMost {x : Float} (h : AtMost 1018 x) : Readable x := by
  obtain ⟨n, y, hwritten, hdenotes⟩ := Numeral.exists_float?_ofFloat? h
  have hdocument : ofFloat x = .number n := by rw [ofFloat, hwritten]
  exact ⟨by rw [hdocument]; exact Option.isSome_iff_exists.mpr ⟨y, hdenotes⟩⟩

/-- A power of ten as a bound. -/
theorem Binary64.atMost_of_abs_le_powerOfTen {x : Float} {n k : ℕ} (hfinite : x.isFinite = true)
    (hle : x.abs ≤ powerOfTen n) (hn : n ≤ 308) (hpower : 10 ^ n ≤ 2 ^ k) : AtMost k x := by
  have hrounded : rnd (10 ^ n) ≤ 2 ^ k :=
    rnd_le (representable_two_pow k) (by exact_mod_cast hpower)
  refine atMost_of_abs_le hfinite ⟨_, denotes_powerOfTen hn, ?_⟩ hle
  rwa [abs_of_nonneg (rnd_nonneg (by positivity))]

/-- The prices of a bar that indicators read are at most `1e145`, on either side of zero. -/
def Bar.Modest (bar : Bar) : Prop :=
  ∀ price ∈ [bar.high, bar.low, bar.close], price.abs ≤ 1e145

instance (bar : Bar) : Decidable bar.Modest :=
  inferInstanceAs (Decidable (∀ price ∈ [bar.high, bar.low, bar.close], price.abs ≤ 1e145))

theorem Bar.Modest.sized {bar : Bar} (h : bar.Modest) (hfinite : bar.isFinite = true) :
    bar.Sized 482 := by
  obtain ⟨⟨⟨-, hhigh⟩, hlow⟩, hclose⟩ := by simpa [Bar.isFinite] using hfinite
  obtain ⟨mhigh, mlow, mclose, -⟩ := by simpa only [Modest, List.forall_mem_cons] using h
  have hpower : 10 ^ 145 ≤ 2 ^ 482 := by decide +kernel
  have hbound : ∀ {price : Float}, price.isFinite = true → price.abs ≤ 1e145 → AtMost 482 price :=
    fun hprice hle => atMost_of_abs_le_powerOfTen hprice hle (by norm_num) hpower
  exact ⟨hbound hhigh mhigh, hbound hlow mlow, hbound hclose mclose⟩

namespace Lookbacks

section

variable {l : Lookbacks} {symbol : String} {bars : List Bar} {snapshot : Snapshot}

/-- The readings of modest prices that close in their own ranges are finite and small enough to be
printed. -/
theorem readings_atMost (hdeviations : l.bollingerDeviations.isFinite = true)
    (hmany : l.bollingerDeviations.abs ≤ 1e160) (hmodest : ∀ bar ∈ bars, bar.Modest)
    (hordered : ∀ bar ∈ bars, bar.Ordered) (hlength : bars.length < 2 ^ 64)
    (hsignal : l.macdSignal < 2 ^ 64) (h : l.compute symbol bars = .ok snapshot) :
    ∀ entry ∈ snapshot.readings.flat, AtMost 1018 entry.2 := by
  obtain ⟨henough, hfinite, newest, -, rfl⟩ := compute_eq_ok h
  obtain ⟨-, -, -, hfast, hslow, -⟩ := l.requiredBars_covers
  have hmem : ∀ bar ∈ sortByTime bars, bar ∈ bars :=
    fun bar hbar => (sortByTime_perm bars).mem_iff.mp hbar
  have hpower : 10 ^ 160 ≤ 2 ^ 532 := by decide +kernel
  have hbound : AtMost 532 l.bollingerDeviations :=
    atMost_of_abs_le_powerOfTen hdeviations hmany (by norm_num) hpower
  have hsized : ∀ bar ∈ sortByTime bars, bar.Sized 482 := fun bar hbar =>
    (hmodest bar (hmem bar hbar)).sized (hfinite bar (hmem bar hbar))
  have hbars : (sortByTime bars).length < 2 ^ 64 := (length_sortByTime bars).trans_lt hlength
  exact readings_sized hsized (fun bar hbar => hordered bar (hmem bar hbar)) hbound (by norm_num)
    (by norm_num) hbars ((hfast.trans henough).trans_lt hlength)
    ((hslow.trans henough).trans_lt hlength) hsignal (by norm_num) (by norm_num)

/-- The time of a snapshot is that of a bar, so clocks have it where they have those of the bars. -/
theorem settled_of_compute (h : l.compute symbol bars = .ok snapshot)
    (htimes : ∀ bar ∈ bars, bar.time.OnClock) : snapshot.settled = snapshot := by
  obtain ⟨-, -, newest, hnewest, rfl⟩ := compute_eq_ok h
  have hmem := (sortByTime_perm bars).mem_iff.mp (List.mem_of_getLast? hnewest)
  exact Snapshot.settled_of_onClock (htimes newest hmem)

/-- **Modest prices have readings that reach the next stage.** Where the prices and the number of
deviations are bounded and every bar closes between its own low and high, all readings of a snapshot
are finite, and both documents of the request for a decision on it are read as the request, with the
floats that are read for the readings. Its time is the one that its text names, which is the same
where clocks have the times of the bars. -/
theorem snapshot_published (hdeviations : l.bollingerDeviations.isFinite = true)
    (hmany : l.bollingerDeviations.abs ≤ 1e160) (hmodest : ∀ bar ∈ bars, bar.Modest)
    (hordered : ∀ bar ∈ bars, bar.Ordered) (hlength : bars.length < 2 ^ 64)
    (hsignal : l.macdSignal < 2 ^ 64) (h : l.compute symbol bars = .ok snapshot) :
    snapshot.readings.Finite ∧
      ((∀ bar ∈ bars, bar.time.OnClock) → snapshot.settled = snapshot) ∧
      ∀ name market : String,
      let decoded := Event.decisionRequested name market
        { snapshot.settled with readings := snapshot.readings.map reread }
      (read? (Event.decisionRequested name market snapshot).toJson.render).bind Event.ofJson? =
        some decoded ∧
      (Job.ofEvent (.decisionRequested name market snapshot)).event? = some decoded := by
  have hbounded := readings_atMost hdeviations hmany hmodest hordered hlength hsignal h
  refine ⟨fun entry hentry => (hbounded entry hentry).finite, settled_of_compute h,
    fun name market => ?_⟩
  have hreadable : ∀ x ∈ snapshot.readings.floats, Readable x :=
    List.forall_mem_map.mpr fun entry hentry => readable_of_atMost (hbounded entry hentry)
  have hcount : snapshot.dataPoints < 2 ^ 64 := by
    obtain ⟨-, -, newest, -, rfl⟩ := compute_eq_ok h
    exact hlength
  have hcomposed := Snapshot.composedIn_of_readable hreadable hcount
  have hread := Event.readAs_decisionRequested name market hcomposed
    (Snapshot.ofJson?_of_readable hreadable hcount)
  exact ⟨hread.read?_toJson, hread.event?_ofEvent⟩

end

/-- Fifty days that close in their own ranges. -/
theorem snapshot_published_fiftyDays : ∃ snapshot,
    ({} : Lookbacks).compute "AAPL" fiftyDays = .ok snapshot ∧ snapshot.readings.Finite ∧
      (Job.ofEvent (.decisionRequested "AAPL" "NASDAQ" snapshot)).event? =
        some (.decisionRequested "AAPL" "NASDAQ"
          { snapshot with readings := snapshot.readings.map reread }) := by
  obtain ⟨snapshot, hcompute⟩ := exists_compute_fiftyDays
  obtain ⟨hreadings, hsettled, hread⟩ := snapshot_published (by decide +kernel)
    (by decide +kernel) (by decide +kernel) (by decide +kernel) (by decide +kernel)
    (by decide +kernel) hcompute
  rw [hsettled (by decide +kernel)] at hread
  exact ⟨_, hcompute, hreadings, (hread "AAPL" "NASDAQ").2⟩

/-! ### Without the bounds -/

end Lookbacks

/-! ### Readings that cannot be read -/

/-- The document of readings is read, whatever the readings are. -/
theorem Readings.readsFront (r : Readings) : ReadsFront r.toJson := by
  have hmacd : ReadsFront r.macd.toJson := .ofFields (by simp) (by simp [readsFront_ofFloat])
  have hbands : ReadsFront r.bollinger.toJson := .ofFields (by simp) (by simp [readsFront_ofFloat])
  have hstochastic : ReadsFront r.stochastic.toJson :=
    .ofFields (by simp) (by simp [readsFront_ofFloat])
  exact .ofFields (by simp) (by simp [readsFront_ofFloat, hmacd, hbands, hstochastic])

theorem Snapshot.readsFront (s : Snapshot) : ReadsFront s.toJson :=
  .ofFields (by simp) (by
    simp [readsFront_ofText, readsFront_ofNat, s.readings.readsFront, Timestamp.toJson])

theorem Macd.finite_of_ofJson? {m decoded : Macd} (h : ofJson? m.toJson = some decoded) :
    m.line.isFinite = true ∧ m.signal.isFinite = true ∧ m.histogram.isFinite = true := by
  simp only [ofJson?_eq, Option.bind_eq_bind, Option.bind_eq_some_iff] at h
  obtain ⟨_, hline, _, hsignal, _, hhistogram, -⟩ := h
  exact ⟨isFinite_of_float? hline, isFinite_of_float? hsignal, isFinite_of_float? hhistogram⟩

theorem Bands.finite_of_ofJson? {b decoded : Bands} (h : ofJson? b.toJson = some decoded) :
    b.upper.isFinite = true ∧ b.middle.isFinite = true ∧ b.lower.isFinite = true := by
  simp only [ofJson?_eq, Option.bind_eq_bind, Option.bind_eq_some_iff] at h
  obtain ⟨_, hupper, _, hmiddle, _, hlower, -⟩ := h
  exact ⟨isFinite_of_float? hupper, isFinite_of_float? hmiddle, isFinite_of_float? hlower⟩

theorem Stochastic.finite_of_ofJson? {s decoded : Stochastic}
    (h : ofJson? s.toJson = some decoded) : s.k.isFinite = true ∧ s.d.isFinite = true := by
  simp only [ofJson?_eq, Option.bind_eq_bind, Option.bind_eq_some_iff] at h
  obtain ⟨_, hk, _, hd, -⟩ := h
  exact ⟨isFinite_of_float? hk, isFinite_of_float? hd⟩

/-- Only readings that are all finite are read. -/
theorem Readings.finite_of_ofJson? {r decoded : Readings} (h : ofJson? r.toJson = some decoded) :
    r.Finite := by
  simp only [ofJson?_eq, Option.bind_eq_bind, Option.bind_eq_some_iff] at h
  obtain ⟨_, hrsi, _, hmacd, _, hshort, _, hlong, _, hfast, _, hslow, _, hbands, _, hstochastic,
    _, hwilliams, _, hatr, _, hobv, -⟩ := h
  obtain ⟨hline, hsignal, hhistogram⟩ := Macd.finite_of_ofJson? hmacd
  obtain ⟨hupper, hmiddle, hlower⟩ := Bands.finite_of_ofJson? hbands
  obtain ⟨hk, hd⟩ := Stochastic.finite_of_ofJson? hstochastic
  simp only [Finite, flat, List.forall_mem_cons]
  exact ⟨isFinite_of_float? hatr, hlower, hmiddle, hupper, isFinite_of_float? hfast,
    isFinite_of_float? hslow, hline, hhistogram, hsignal, isFinite_of_float? hobv,
    isFinite_of_float? hrsi, isFinite_of_float? hshort, isFinite_of_float? hlong, hd, hk,
    isFinite_of_float? hwilliams, List.forall_mem_nil _⟩

theorem Snapshot.finite_of_ofJson? {s decoded : Snapshot} (h : ofJson? s.toJson = some decoded) :
    s.readings.Finite := by
  have hfields : s.toJson.fields? ["symbol", "values", "data_points", "computed_at"] = some _ :=
    fields?_ofFields rfl (by decide)
  simp only [ofJson?, hfields, Option.bind_eq_bind, Option.bind_some, required_self, ne_eq,
    String.reduceEq, not_false_eq_true, required_of_ne, Option.bind_eq_some_iff] at h
  obtain ⟨_, -, _, hreadings, -⟩ := h
  exact Readings.finite_of_ofJson? hreadings

/-- **A request with a reading that is no finite number is never read.** -/
theorem Job.event?_eq_none {s : Snapshot} (name market : String) (h : ¬ s.readings.Finite) :
    (Job.ofEvent (.decisionRequested name market s)).event? = none := by
  have hfront : ReadsFront (Event.decisionRequested name market s).toJob :=
    .ofFields (by simp [Event.fields]) (by simp [Event.fields, readsFront_ofText, s.readsFront])
  have hfields : (Event.decisionRequested name market s).toJob.fields?
    ["symbol", "market", "indicators"] = some _ := fields?_ofFields rfl (by decide)
  have hunread : Snapshot.ofJson? s.toJson = none := by
    cases hread : Snapshot.ofJson? s.toJson with
    | none => rfl
    | some decoded => exact absurd (Snapshot.finite_of_ofJson? hread) h
  show (read? (Event.decisionRequested name market s).toJob.render).bind
    (Event.ofJob? .decisionRequested) = none
  rw [hfront.read?_render]
  simp [Event.ofJob?, hfields, Event.fields, hunread]

namespace Lookbacks

/-- Fifty days with one range, whose closes alternate. -/
def alternating (high low even odd : Float) : List Bar :=
  (List.range 50).map fun day =>
    ⟨"AAPL", "NASDAQ", low, high, low, if day % 2 = 0 then even else odd, 1000, 0,
      (Timestamp.of? (day * secondsPerDay) 0).getD .epoch⟩

/-- All numbers that a snapshot is computed from are finite, and yet it has a reading that is not, so
that the request for a decision on it is published and cannot be read. -/
def PublishesUnread (l : Lookbacks) (bars : List Bar) : Prop :=
  (l.bollingerDeviations.isFinite = true ∧ ∀ bar ∈ bars, bar.isFinite = true) ∧
    ∃ snapshot, l.compute "AAPL" bars = .ok snapshot ∧ ¬ snapshot.readings.Finite ∧
      (Job.ofEvent (.decisionRequested "AAPL" "NASDAQ" snapshot)).event? = none

theorem publishesUnread_of_not_finite {l : Lookbacks} {bars : List Bar}
    (hdeviations : l.bollingerDeviations.isFinite = true) (hlong : l.requiredBars ≤ bars.length)
    (hfinite : ∀ bar ∈ bars, bar.isFinite = true) (hordered : bars.Pairwise (·.time ≤ ·.time))
    (h : ¬ (l.readings bars).Finite) : l.PublishesUnread bars := by
  obtain ⟨newest, -, hcompute⟩ := compute_of_sorted "AAPL" hlong hfinite hordered
  exact ⟨⟨hdeviations, hfinite⟩, _, hcompute, h, Job.event?_eq_none "AAPL" "NASDAQ" h⟩

/-- **Finite prices are not enough.** Each of these lacks one of the bounds. -/
theorem overflow_without_bounds :
    -- Prices of `1e308`.
    ({} : Lookbacks).PublishesUnread (alternating 1e308 1e308 1e308 1e308) ∧
    -- Bands at `1e308` deviations.
    ({ bollingerDeviations := 1e308 } : Lookbacks).PublishesUnread (alternating 20 0 0 20) ∧
    -- A close of one in a range from zero to the least positive number.
    ({} : Lookbacks).PublishesUnread (alternating 5e-324 0 1 1) := by
  refine ⟨publishesUnread_of_not_finite ?_ ?_ ?_ ?_ ?_,
    publishesUnread_of_not_finite ?_ ?_ ?_ ?_ ?_,
    publishesUnread_of_not_finite ?_ ?_ ?_ ?_ ?_⟩ <;> decide +kernel

end Lookbacks

end MarketSignals
