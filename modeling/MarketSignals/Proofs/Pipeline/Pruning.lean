import MarketSignals.Proofs.Pipeline.Sweep
import MarketSignals.Proofs.Store.FirstWrite
import MarketSignals.Proofs.Time.DaysBefore

/-!
# Pruning

What dropping old history comes to. The cutoff is the point that lies the retention time before
now; what is from before it goes, all else stays where it was. Where the retention time reaches past
the first point in time, nothing can be old enough and nothing is done.

## Main results

* `Store.prune_later`, `Store.prune_earlier`: of two cutoffs the later one decides, in either order.
* `Store.ordered_carryOut`: after any queries no series has two bars of one time.
* `Pipeline.after_pruneHistory_none`, `Pipeline.after_pruneHistory_some`: what a prune comes to.
* `Pipeline.retention_exact`: history is dropped exactly where it is older than the retention time.
-/

namespace MarketSignals

/-! ### The store -/

/-- Mapping twice is mapping once. -/
theorem Keyed.mapValues_mapValues {α β γ : Type} (m : Keyed α) (f : α → β) (g : β → γ) :
    (m.mapValues f).mapValues g = m.mapValues fun value => g (f value) := by
  simp [mapValues]

/-- Of two cutoffs the later one decides what is kept of a log, in either order. -/
theorem filter_since_since {α : Type} (time : α → Timestamp) {earlier later : Timestamp}
    (h : earlier ≤ later) (log : List α) :
    (log.filter (earlier ≤ time ·)).filter (later ≤ time ·) = log.filter (later ≤ time ·) ∧
      (log.filter (later ≤ time ·)).filter (earlier ≤ time ·) = log.filter (later ≤ time ·) := by
  have himp : ∀ a, later ≤ time a → earlier ≤ time a := fun a => Timestamp.le_trans h
  simp only [List.filter_filter]
  constructor
  all_goals
    refine List.filter_congr fun a _ => ?_
    by_cases ha : later ≤ time a <;> simp [ha, himp]

namespace Store

/-- What a store keeps of another one when history from before a cutoff is dropped: what is not
from before it, in its order, and all signals and instruments. -/
structure KeepsSince (cutoff : Timestamp) (s kept : Store) : Prop where
  bars : ∀ symbol, kept.bars symbol = (s.bars symbol).filter (cutoff ≤ ·.time)
  snapshots : kept.snapshots = s.snapshots.filter (cutoff ≤ ·.computedAt)
  signals : kept.signals = s.signals
  instruments : kept.instruments = s.instruments

/-- Whether every series is in the order of time and has one bar of a time. -/
def Ordered (s : Store) : Prop :=
  ∀ symbol, (s.bars symbol).Pairwise (·.time < ·.time)

variable {s kept : Store} {earlier later cutoff : Timestamp}

theorem keepsSince_prune (s : Store) (cutoff : Timestamp) : s.KeepsSince cutoff (s.prune cutoff) :=
  ⟨s.bars_prune cutoff, rfl, rfl, rfl⟩

/-- What is kept of an ordered store is ordered. -/
theorem KeepsSince.ordered (h : s.KeepsSince cutoff kept) (hordered : s.Ordered) :
    kept.Ordered := by
  intro symbol
  rw [h.bars]
  exact (hordered symbol).filter _

/-- After any queries the store is ordered. -/
theorem ordered_carryOut (queries : List Query) : (({} : Store).carryOut queries).Ordered :=
  fun symbol => (PriceMap.lists_carryOut queries symbol).ordered

/-- A prune with a later cutoff leaves nothing of one before it. -/
theorem prune_later (s : Store) (h : earlier ≤ later) :
    (s.prune earlier).prune later = s.prune later := by
  simp only [prune, Keyed.mapValues_mapValues, (filter_since_since _ h _).1]

/-- A prune with an earlier cutoff finds nothing to drop. -/
theorem prune_earlier (s : Store) (h : earlier ≤ later) :
    (s.prune later).prune earlier = s.prune later := by
  simp only [prune, Keyed.mapValues_mapValues, (filter_since_since _ h _).2]

end Store

namespace Pipeline

variable {config : Config} {now cutoff : Timestamp} {w : World}

/-! ### The prune -/

/-- Without a cutoff a prune does nothing. -/
theorem after_pruneHistory_none (w : World) (h : now.daysBefore? config.retentionDays = none) :
    w.after (pruneHistory config now).run = (.ok none, w) := by
  rw [pruneHistory, h]
  rfl

/-- With a cutoff a prune asks the store to drop what is from before it. -/
theorem after_pruneHistory_some (hserves : w.Serves .prune)
    (h : now.daysBefore? config.retentionDays = some cutoff) :
    w.after (pruneHistory config now).run =
      (.ok (some cutoff), { w.served .prune with store := w.store.prune cutoff }) := by
  have hasked := World.after_store_of_serves (.prune cutoff) hserves
  rw [pruneHistory, h]
  exact (World.after_bind_ok hasked _).trans (World.after_pure _ _)

/-- **Retention drops exactly the old history.** Where the retention time before now reaches past
the first point in time, a prune changes nothing at all. Otherwise its result is the point that lies
that long before now; every series and the log of snapshots keep what is not from before it, in
their order, and all else stays as it was. Of two cutoffs the later one decides, in whichever order
they come; and what any queries leave is in the order of time without two bars of one time, and
still is when it is pruned. -/
theorem retention_exact (config : Config) (now : Timestamp) :
    (now.nanos - config.retentionDays * nanosPerDay < Timestamp.first.nanos →
        ∀ w : World, w.after (pruneHistory config now).run = (.ok none, w)) ∧
      (Timestamp.first.nanos ≤ now.nanos - config.retentionDays * nanosPerDay →
        ∃ cutoff, now.IsDaysBefore config.retentionDays cutoff ∧
          ∀ w : World, w.Serves .prune → ∃ w' : World,
            w.after (pruneHistory config now).run = (.ok (some cutoff), w') ∧
              w.store.KeepsSince cutoff w'.store ∧ w'.cache = w.cache ∧ w'.log = w.log ∧
              (w.store.Ordered → w'.store.Ordered)) ∧
      (∀ (s : Store) (earlier later : Timestamp), earlier ≤ later →
        (s.prune earlier).prune later = s.prune later ∧
          (s.prune later).prune earlier = s.prune later) ∧
      ∀ queries, (({} : Store).carryOut queries).Ordered := by
  refine ⟨?_, ?_, ?_, Store.ordered_carryOut⟩
  · intro hpast w
    exact after_pruneHistory_none w (Timestamp.daysBefore?_eq_none_iff_nanos.mpr hpast)
  · intro hreached
    obtain ⟨cutoff, hcutoff⟩ : ∃ cutoff, now.daysBefore? config.retentionDays = some cutoff := by
      refine Option.ne_none_iff_exists'.mp fun hnone => ?_
      have hpast := Timestamp.daysBefore?_eq_none_iff_nanos.mp hnone
      omega
    refine ⟨cutoff, Timestamp.daysBefore?_eq_some_iff.mp hcutoff, ?_⟩
    intro w hserves
    have hkeeps := w.store.keepsSince_prune cutoff
    exact ⟨_, after_pruneHistory_some hserves hcutoff, hkeeps, rfl, rfl, hkeeps.ordered⟩
  · intro s earlier later h
    exact ⟨s.prune_later h, s.prune_earlier h⟩

/-- One day before a leap second begins with the second that has its place on the line; a bar of
that very time is kept. The longest retention time reaches past the first point. -/
theorem retention_exact_leapSecond :
    let now : Timestamp := ⟨1483228799, 1500000000, by decide⟩
    let cutoff : Timestamp := ⟨1483142400, 500000000, by decide⟩
    let old := flatBar 100 ⟨1483142400, 499999999, by decide⟩
    let young := flatBar 101 cutoff
    let queries := [young, old].map Store.Query.appendPrice
    let w : World :=
      { store := ({} : Store).carryOut queries, clock := { readings := fun _ => now } }
    (∃ w' : World,
        w.after (pruneHistory { retentionDays := 1 } now).run = (.ok (some cutoff), w') ∧
          w'.store.bars "AAPL" = [young] ∧ w'.store.Ordered) ∧
      (w.store.prune cutoff).prune old.time = w.store.prune cutoff ∧
      w.after (pruneHistory { retentionDays := 4294967295 } now).run = (.ok none, w) := by
  intro now cutoff old young queries w
  obtain ⟨-, hreached, hcutoffs, hordered⟩ := retention_exact { retentionDays := 1 } now
  obtain ⟨found, hfound, hprunes⟩ := hreached (by decide)
  obtain rfl : found = cutoff :=
    hfound.unique (Timestamp.daysBefore?_eq_some_iff.mp (by decide))
  obtain ⟨w', hpruned, hkeeps, -, -, hstays⟩ := hprunes w rfl
  refine ⟨⟨w', hpruned, ?_, hstays (hordered queries)⟩, ?_, ?_⟩
  · rw [hkeeps.bars]
    decide +kernel
  · exact (hcutoffs w.store old.time cutoff (by decide)).2
  · exact (retention_exact { retentionDays := 4294967295 } now).1 (by decide) w

end Pipeline

end MarketSignals
