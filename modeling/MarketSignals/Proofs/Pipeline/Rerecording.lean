import MarketSignals.Proofs.Pipeline.AppendOnly

/-!
# Recording a price again

Recording a price takes a look-up, an append and a publication, each of which may fail. A failed
attempt may have stored its price without announcing it, so nobody who tries again knows which. That
does no harm: whoever tries and however often, each attempt that succeeds announces the price once,
and a time takes the first price that the store accepted for it, be it from an attempt that failed
afterwards.

## Main results

* `insertBar_eq_placed`: a bar of a new time goes between the earlier bars and the later ones.
* `path_recordPrice`: what one attempt writes and publishes, by its result.
* `path_recordEach`: what attempts in turn write and publish.
* `recordEach_settles`: the log and the series after any attempts in a world with any failures.
-/

open scoped List

namespace MarketSignals

/-! ### Places in a series -/

/-- A series with a bar between what is earlier and what is later. -/
def placed (bar : Bar) (series : List Bar) : List Bar :=
  series.filter (·.time < bar.time) ++ bar :: series.filter (bar.time < ·.time)

/-- Insertion puts a bar of a new time in its place. -/
theorem insertBar_eq_placed {bar : Bar} {series : List Bar}
    (hordered : series.Pairwise (·.time < ·.time)) (hnew : ∀ b ∈ series, b.time ≠ bar.time) :
    insertBar bar series = placed bar series := by
  induction series with
  | nil => rfl
  | cons first rest ih =>
      obtain ⟨hfirst, hrest⟩ := List.pairwise_cons.mp hordered
      obtain ⟨hother, hnewer⟩ := List.forall_mem_cons.mp hnew
      rw [insertBar, placed]
      split_ifs with hbefore hsame
      · have hafter : ∀ b ∈ first :: rest, bar.time < b.time :=
          List.forall_mem_cons.mpr ⟨hbefore, fun b hb => Timestamp.lt_trans hbefore (hfirst b hb)⟩
        rw [List.filter_eq_nil_iff.mpr fun b hb => by simp [Timestamp.lt_asymm (hafter b hb)],
          List.filter_eq_self.mpr fun b hb => by simp [hafter b hb], List.nil_append]
      · exact absurd hsame.symm hother
      · have hafter : first.time < bar.time := by
          rcases Timestamp.lt_trichotomy first.time bar.time with hlt | heq | hlt
          · exact hlt
          · exact absurd heq hother
          · exact absurd hlt hbefore
        rw [ih hrest hnewer, placed, List.filter_cons_of_pos (by simp [hafter]),
          List.filter_cons_of_neg (by simp [Timestamp.lt_asymm hafter]), List.cons_append]

section

variable {series bars : List Bar} {time : Timestamp}

/-- Where the time is known, no bar of it is taken. -/
theorem foldl_insertBar_of_known (hordered : series.Pairwise (·.time < ·.time))
    (hknown : ∃ b ∈ series, b.time = time) (hbars : ∀ bar ∈ bars, bar.time = time) :
    bars.foldl (fun series bar => insertBar bar series) series = series := by
  induction bars with
  | nil => rfl
  | cons bar rest ih =>
      obtain ⟨hbar, hrest⟩ := List.forall_mem_cons.mp hbars
      rw [List.foldl_cons, insertBar_of_mem hordered (hbar ▸ hknown), ih hrest]

/-- Where the time is new, the first bar of it is taken and no other. -/
theorem foldl_insertBar_of_new (hordered : series.Pairwise (·.time < ·.time))
    (hnew : ∀ b ∈ series, b.time ≠ time) (hbars : ∀ bar ∈ bars, bar.time = time) :
    bars.foldl (fun series bar => insertBar bar series) series = match bars.head? with
      | none => series
      | some bar => placed bar series := by
  cases bars with
  | nil => rfl
  | cons bar rest =>
      obtain ⟨rfl, hrest⟩ := List.forall_mem_cons.mp hbars
      have htaken : ∃ b ∈ insertBar bar series, b.time = bar.time :=
        ⟨bar, (mem_insertBar_iff hnew).mpr (.inl rfl), rfl⟩
      rw [List.foldl_cons, foldl_insertBar_of_known (ordered_insertBar hordered) htaken hrest,
        insertBar_eq_placed hordered hnew]
      rfl

end

/-! ### Accepted prices -/

/-- The bar that a query appends. -/
def Store.Query.bar? : Store.Query → Option Bar
  | .appendPrice bar => some bar
  | _ => none

/-- The bars whose appends the store carried out, the first first. -/
def accepted (history : List Exchange) : List Bar :=
  (writes history).filterMap Store.Query.bar?

@[simp] theorem accepted_append (t u : List Exchange) :
    accepted (t ++ u) = accepted t ++ accepted u := by
  simp [accepted]

theorem accepted_of_writes {history : List Exchange} (bars : List Bar)
    (h : writes history = bars.map .appendPrice) : accepted history = bars := by
  rw [accepted, h, List.filterMap_map]
  exact List.filterMap_some

namespace Pipeline

/-! ### One attempt -/

/-- What an attempt to record a price wrote and published, by its result. -/
inductive Recorded (bar : Bar) (t : List Exchange) : Except PipelineError Unit → Prop
  /-- The price was refused, or not stored. -/
  | refused (e : PipelineError) (writes_eq : writes t = []) (published_eq : published t = []) :
      Recorded bar t (.error e)
  /-- The price was stored and not announced. -/
  | unannounced (e : PipelineError) (writes_eq : writes t = [.appendPrice bar])
      (published_eq : published t = []) : Recorded bar t (.error e)
  /-- The price was stored and announced. -/
  | announced (writes_eq : writes t = [.appendPrice bar])
      (published_eq : published t = [.priceIngested bar.symbol bar.market]) :
      Recorded bar t (.ok ())

/-- What follows validation: the price is stored and then announced. -/
theorem path_append_announce {bar : Bar} {t : List Exchange} {r : Except PipelineError Unit}
    (h : Process.Path (Attempt.store (.appendPrice bar) >>= fun _ =>
      Attempt.publish (.priceIngested bar.symbol bar.market)).run t (.done r)) :
    Recorded bar t r := by
  rcases Attempt.path_bind h with ⟨p, hp, hfailed⟩ | ⟨t₁, t₂, stored, rfl, hp, hrest⟩
  · obtain ⟨e, rfl, rfl⟩ := hfailed r rfl
    obtain ⟨answer, rfl, hanswer⟩ := Attempt.path_call hp
    cases answer with
    | error reason => exact .refused e rfl rfl
    | ok stored => cases hanswer
  · obtain rfl := Attempt.path_store_ok hp
    obtain ⟨answer, rfl, rfl⟩ := Attempt.path_call hrest
    cases answer with
    | error reason => exact .unannounced _ rfl rfl
    | ok announced => exact .announced rfl rfl

/-- **An attempt that fails announces nothing, and one that succeeds has stored its price.** -/
theorem path_recordPrice {bar : Bar} {t : List Exchange} {r : Except PipelineError Unit}
    (h : Process.Path (recordPrice bar).run t (.done r)) : Recorded bar t r := by
  have hvalidated : ∀ {u q}, Process.Path (validate bar.symbol bar.market).run u q →
      writes u = [] ∧ published u = [] := fun hpath =>
    ⟨writes_eq_nil ((keeps_validate _ _).calls hpath),
      published_eq_nil ((quiet_validate _ _).calls hpath)⟩
  rcases Attempt.path_bind h with ⟨p, hp, hfailed⟩ | ⟨t₁, t₂, instrument, rfl, hp, hrest⟩
  · obtain ⟨e, rfl, -⟩ := hfailed r rfl
    exact .refused e (hvalidated hp).1 (hvalidated hp).2
  · obtain ⟨hwrites, hpublished⟩ := hvalidated hp
    cases path_append_announce hrest with
    | refused e hw hp => exact .refused e (by simp [hwrites, hw]) (by simp [hpublished, hp])
    | unannounced e hw hp =>
        exact .unannounced e (by simp [hwrites, hw]) (by simp [hpublished, hp])
    | announced hw hp => exact .announced (by simp [hwrites, hw]) (by simp [hpublished, hp])

/-! ### Attempts in turn -/

/-- Records prices one after the other, whatever becomes of each. -/
def recordEach : List Bar → Process (List (Except PipelineError Unit))
  | [] => pure []
  | bar :: rest => do
    let result ← (recordPrice bar).run
    let results ← recordEach rest
    pure (result :: results)

/-- **Attempts in turn store some of the prices, in their order, and announce one price for each
success.** -/
theorem path_recordEach {symbol market : String} {bars : List Bar} {t : List Exchange}
    {results : List (Except PipelineError Unit)}
    (hbars : ∀ bar ∈ bars, bar.symbol = symbol ∧ bar.market = market)
    (h : Process.Path (recordEach bars) t (.done results)) :
    results.length = bars.length ∧
      published t = .replicate (results.countP Except.isOk) (.priceIngested symbol market) ∧
      writes t = (accepted t).map .appendPrice ∧ accepted t <+ bars := by
  induction bars generalizing t results with
  | nil =>
      obtain ⟨rfl, hdone⟩ := h.of_done
      obtain rfl := Process.done.inj hdone
      exact ⟨rfl, rfl, rfl, .refl _⟩
  | cons bar rest ih =>
      obtain ⟨⟨rfl, rfl⟩, hrest⟩ := List.forall_mem_cons.mp hbars
      obtain ⟨t₁, u, result, rfl, hfirst, hothers⟩ := Process.path_bind_done h
      obtain ⟨t₂, t₃, later, rfl, hlater, hend⟩ := Process.path_bind_done hothers
      obtain ⟨rfl, hdone⟩ := hend.of_done
      obtain rfl := Process.done.inj hdone
      obtain ⟨hlength, hpublished, hwrites, hsub⟩ := ih hrest hlater
      refine ⟨congrArg (· + 1) hlength, ?_⟩
      rw [List.append_nil, published_append, writes_append, accepted_append, hpublished, hwrites]
      cases path_recordPrice hfirst with
      | refused e hw hp =>
          rw [hw, hp, accepted_of_writes [] hw]
          exact ⟨rfl, rfl, hsub.cons bar⟩
      | unannounced e hw hp =>
          rw [hw, hp, accepted_of_writes [bar] hw]
          exact ⟨rfl, rfl, hsub.cons_cons bar⟩
      | announced hw hp =>
          rw [hw, hp, accepted_of_writes [bar] hw, List.countP_cons_of_pos rfl]
          exact ⟨rfl, rfl, hsub.cons_cons bar⟩

/-- **A price may be recorded again.** Take any store that was reached by queries, any failures that
lie ahead, and any attempts to record prices of one symbol, market and time, one after the other.
Each success announces the price once, and no failure does. Where the time was known, the series
stays as it was. Where it was new, the first price that the store accepted is in its place, or none
where the store accepted none. -/
theorem recordEach_settles {w : World} {queries : List Store.Query} {symbol market : String}
    {time : Timestamp} {bars : List Bar} (hstore : w.store = ({} : Store).carryOut queries)
    (hbars : ∀ bar ∈ bars, bar.symbol = symbol ∧ bar.market = market ∧ bar.time = time) :
    let results := (w.after (recordEach bars)).1
    let later := (w.after (recordEach bars)).2
    let taken := accepted (w.trace (recordEach bars))
    results.length = bars.length ∧
    later.log =
      w.log ++ .replicate (results.countP Except.isOk) (.priceIngested symbol market) ∧
    taken <+ bars ∧
    ((∃ bar ∈ w.store.bars symbol, bar.time = time) →
      later.store.bars symbol = w.store.bars symbol) ∧
    ((∀ bar ∈ w.store.bars symbol, bar.time ≠ time) →
      later.store.bars symbol = match taken.head? with
        | none => w.store.bars symbol
        | some bar => placed bar (w.store.bars symbol)) := by
  intro results later taken
  obtain ⟨hlength, hpublished, hwrites, hsub⟩ := path_recordEach
    (fun bar hbar => ⟨(hbars bar hbar).1, (hbars bar hbar).2.1⟩) (w.path_after (recordEach bars))
  have hordered : (w.store.bars symbol).Pairwise (·.time < ·.time) := by
    rw [hstore]
    exact (PriceMap.lists_carryOut queries symbol).ordered
  have hseries : later.store.bars symbol =
      taken.foldl (fun series bar => insertBar bar series) (w.store.bars symbol) := by
    rw [store_after_writes, hwrites]
    exact Store.bars_appends _ fun bar hbar => (hbars bar (hsub.subset hbar)).1
  have htimes : ∀ bar ∈ taken, bar.time = time := fun bar hbar =>
    (hbars bar (hsub.subset hbar)).2.2
  refine ⟨hlength, ?_, hsub, fun hknown => ?_, fun hnew => ?_⟩
  · rw [World.log_after, hpublished]
  · rw [hseries, foldl_insertBar_of_known hordered hknown htimes]
  · rw [hseries, foldl_insertBar_of_new hordered hnew htimes]

/-- Noon of the first day. -/
def noon : Timestamp := ⟨43200, 0, by decide⟩

/-- What a store was asked so far: an instrument and two prices, a day apart. -/
def gapQueries : List Store.Query :=
  [.addInstrument ⟨"AAPL", "NASDAQ", "", true⟩, .appendPrice (flatBar 100 .epoch),
    .appendPrice (flatBar 100 ⟨86400, 0, by decide⟩)]

/-- A world with a gap in a series, in which a look-up, an append and a publication will fail. -/
def flaky : World where
  store := ({} : Store).carryOut gapQueries
  faults :=
    { store := fun
        | .findInstrument => [some .notConnected]
        | .appendPrice => [some (.database "down")]
        | _ => []
      publish := [some "down"] }
  clock := { readings := fun _ => .epoch }

/-- Four attempts, of which the first three fail, each at another call: the time takes the price of
the third, and the fourth announces it. -/
theorem recordEach_settles_flaky :
    let attempts := [101, 102, 103, 104].map fun price => flatBar price noon
    (flaky.after (recordEach attempts)).1.map Except.isOk = [false, false, false, true] ∧
      (flaky.after (recordEach attempts)).2.log = [.priceIngested "AAPL" "NASDAQ"] ∧
      (flaky.after (recordEach attempts)).2.store.bars "AAPL" =
        [flatBar 100 .epoch, flatBar 103 noon, flatBar 100 ⟨86400, 0, by decide⟩] := by
  intro attempts
  obtain ⟨-, hlog, -, -, hnew⟩ := @recordEach_settles flaky gapQueries "AAPL" "NASDAQ" noon
    attempts rfl (by decide)
  have htaken : (accepted (flaky.trace (recordEach attempts))).head? =
      some (flatBar 103 noon) := by decide +kernel
  refine ⟨by decide +kernel, hlog.trans (by decide +kernel), ?_⟩
  rw [hnew (by decide +kernel), htaken]
  decide +kernel

end Pipeline

end MarketSignals
