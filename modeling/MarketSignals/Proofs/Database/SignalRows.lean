import MarketSignals.Proofs.Database.Listing
import MarketSignals.Proofs.Json.Documents

/-!
# Signals in rows

A signal that was written to the database and read back. Whatever its texts, its reasons and its
numbers are, each column is read as what was written to it, and the reasons come out of the document
in their column. Only the time may change, since the database counts microseconds and no leap
seconds. So the rows of written signals are never taken for rows that hold no signal.

## Main results

* `Row.reasonsOf_reasonsText`: reasons of any texts are read from their column.
* `Row.signal_signalColumns_iff`: exactly the signals of storable times come back as they were.
* `Database.signals_read_back`: what is read from any rows of written signals.
* `Database.leapSecond_moved`: a signal of a leap second comes back one of the next second.
-/

namespace MarketSignals

/-! ### Columns -/

namespace Row

/-- Reasons of any texts are read from their column. -/
theorem reasonsOf_reasonsText (reasons : List String) :
    reasonsOf (Database.reasonsText reasons) = .ok reasons := by
  have hcomposed : Json.Composed (Json.ofTexts reasons) :=
    (Json.ComposedIn.ofTexts (k := 0) reasons).composed
  rw [reasonsOf, Database.reasonsText, Json.text, String.toList_ofList, hcomposed.read?_render,
    Option.bind_some, Json.list?_ofTexts]

theorem actionOf_name (action : Action) : actionOf action.name = .ok action := by
  cases action <;> decide

theorem originOf_name (origin : Origin) : originOf origin.name = .ok origin := by
  rw [originOf, Origin.ofName?_name]

/-- What comes back of a signal: everything, and the time in its row. -/
theorem signal_signalColumns (s : Signal) :
    signal (Database.signalColumns s) =
      (timestamp (Database.signalColumns s) 0).map fun time => { s with producedAt := time } := by
  have htexts : text (Database.signalColumns s) 1 = .ok s.symbol ∧
      text (Database.signalColumns s) 2 = .ok s.market ∧
      text (Database.signalColumns s) 3 = .ok s.action.name ∧
      text (Database.signalColumns s) 6 = .ok s.source.name ∧
      text (Database.signalColumns s) 7 = .ok (Database.reasonsText s.reasons) :=
    ⟨rfl, rfl, rfl, rfl, rfl⟩
  have hnumbers : double (Database.signalColumns s) 4 = .ok s.strength ∧
      double (Database.signalColumns s) 5 = .ok s.confidence := ⟨rfl, rfl⟩
  obtain ⟨hsymbol, hmarket, haction, hsource, hreasons⟩ := htexts
  rw [signal, hsymbol, hmarket, haction, hsource, hreasons, hnumbers.1, hnumbers.2]
  cases timestamp (Database.signalColumns s) 0 with
  | error e => rfl
  | ok time =>
      simp only [bind, Except.bind, actionOf_name, originOf_name, reasonsOf_reasonsText]
      rfl

/-- Exactly the signals whose time the database keeps come back as they were. -/
theorem signal_signalColumns_iff {s : Signal} :
    signal (Database.signalColumns s) = .ok s ↔ s.producedAt.InMicros := by
  rw [signal_signalColumns, ← Timestamp.ofMicros?_micros_iff]
  constructor
  · intro h
    cases htime : timestamp (Database.signalColumns s) 0 with
    | error e =>
        rw [htime] at h
        cases h
    | ok time =>
        rw [htime] at h
        have hback : time = s.producedAt := congrArg Signal.producedAt (Except.ok.inj h)
        exact timestamp_cons_iff.mp (hback ▸ htime)
  · intro h
    have htime : timestamp (Database.signalColumns s) 0 = .ok s.producedAt :=
      timestamp_cons_iff.mpr h
    rw [htime]
    rfl

/-- The only thing that can be wrong with a written signal is that its time is out of range. -/
theorem signal_signalColumns_error {s : Signal} {e : StoreError}
    (h : signal (Database.signalColumns s) = .error e) : ∃ detail, e = .database detail := by
  have htime : timestamp (Database.signalColumns s) 0 = .error e := by
    rw [signal_signalColumns] at h
    cases htime : timestamp (Database.signalColumns s) 0 with
    | error e' =>
        rw [htime] at h
        exact congrArg Except.error (Except.error.inj h)
    | ok time =>
        rw [htime] at h
        cases h
  rw [timestamp, column] at htime
  split at htime
  · cases htime
  · exact ⟨_, (Except.error.inj htime).symm⟩

end Row

/-! ### Rows -/

namespace Database

/-- The rows that signals are written to at some time. -/
def signalRows (now : Timestamp) (signals : List Signal) : List Row :=
  (signals.flatMap fun s => statements now (.appendSignal s)).filterMap Statement.params

/-- What is inserted are the columns of the signals. -/
theorem signalRows_eq (now : Timestamp) (signals : List Signal) :
    signalRows now signals = signals.map signalColumns := by
  induction signals with
  | nil => rfl
  | cons s rest ih =>
      rw [List.map_cons, ← ih]
      rfl

/-- Where reading rows fails, it fails at one of them. -/
theorem exists_of_mapM_error {α : Type} {read : Row → Except StoreError α} {rows : List Row}
    {e : StoreError} (h : rows.mapM read = .error e) : ∃ row ∈ rows, read row = .error e := by
  induction rows with
  | nil => cases h
  | cons row rest ih =>
      rw [List.mapM_cons] at h
      cases hrow : read row with
      | error e' =>
          rw [hrow] at h
          exact ⟨row, List.mem_cons_self, hrow.trans (congrArg _ (Except.error.inj h))⟩
      | ok value =>
          rw [hrow] at h
          cases hrest : rest.mapM read with
          | error e' =>
              obtain rfl : e' = e := by
                simp only [hrest] at h
                exact Except.error.inj h
              obtain ⟨bad, hbad, herror⟩ := ih hrest
              exact ⟨bad, List.mem_cons_of_mem _ hbad, herror⟩
          | ok values =>
              simp only [hrest] at h
              cases h

/-- A query of rows of written signals is refused by the database only. -/
theorem recentSignals_error {now later : Timestamp} {signals : List Signal} {isOpen : Bool}
    {refused limit : ℕ} {symbol : String} {e : StoreError}
    (h : (perform isOpen refused later (signalRows now signals) (.recentSignals symbol limit)).2 =
      .error e) : ∃ detail, e = .database detail := by
  rw [perform, signalRows_eq] at h
  split at h
  · dsimp only at h
    split at h
    · obtain ⟨row, hrow, herror⟩ := exists_of_mapM_error h
      obtain ⟨s, -, rfl⟩ := List.mem_map.mp hrow
      exact Row.signal_signalColumns_error herror
    · exact ⟨_, (Except.error.inj h).symm⟩
  · exact ⟨_, (Except.error.inj h).symm⟩

/-- **A signal that is read from its row is the signal that was written**, where its time is a whole
number of microseconds and in no leap second, and only there. A query of recent signals that returns
the rows of any written signals is never refused for a row that holds no signal or for a document
that cannot be read, whatever their times; and where all times are such, it is answered with the
signals. -/
theorem signals_read_back (now : Timestamp) :
    (∀ s : Signal, (signalRows now [s]).map Row.signal = [.ok s] ↔ s.producedAt.InMicros) ∧
    ∀ signals : List Signal,
      (∀ isOpen refused later symbol limit detail,
        (perform isOpen refused later (signalRows now signals) (.recentSignals symbol limit)).2 ≠
            .error (.invalidRow detail) ∧
          (perform isOpen refused later (signalRows now signals) (.recentSignals symbol limit)).2 ≠
            .error (.serialization detail)) ∧
      ((∀ s ∈ signals, s.producedAt.InMicros) → ∀ later symbol limit,
        (perform true 0 later (signalRows now signals) (.recentSignals symbol limit)).2 =
          .ok signals) := by
  refine ⟨fun s => ?_, fun signals => ⟨fun isOpen refused later symbol limit detail => ?_, ?_⟩⟩
  · rw [signalRows_eq, ← Row.signal_signalColumns_iff]
    exact List.singleton_inj
  · constructor
    · intro h
      obtain ⟨_, hdatabase⟩ := recentSignals_error h
      cases hdatabase
    · intro h
      obtain ⟨_, hdatabase⟩ := recentSignals_error h
      cases hdatabase
  · intro htimes later symbol limit
    rw [perform_eq, signalRows_eq]
    exact mapM_map_eq_ok fun s hs => Row.signal_signalColumns_iff.mpr (htimes s hs)

/-- A signal with reasons that a document has to quote. -/
def quotedSignal : Signal :=
  ⟨"AAPL", "NASDAQ", .buy, 0.5, 0.25, ["a \"quoted\" reason", "", "\x00\t\\"], .remote,
    ⟨1483228799, 999999000, by decide⟩⟩

/-- Such reasons come back, from the last microsecond before a leap second. -/
theorem signals_read_back_quoted :
    (perform true 0 .epoch (signalRows .epoch [quotedSignal]) (.recentSignals "AAPL" 1)).2 =
      .ok [quotedSignal] :=
  ((signals_read_back .epoch).2 [quotedSignal]).2 (by decide) .epoch "AAPL" 1

/-- A signal of the leap second at the end of 2016. -/
def leapSignal : Signal :=
  ⟨"AAPL", "NASDAQ", .hold, 0.5, 0.5, [], .rule, ⟨1483228799, 1000000000, by decide⟩⟩

/-- The time of the signal is a whole number of microseconds, but comes back as the next second: the
column has no leap seconds. -/
theorem leapSecond_moved : 1000 ∣ leapSignal.producedAt.nano ∧
    (signalRows .epoch [leapSignal]).map Row.signal =
      [.ok { leapSignal with producedAt := ⟨1483228800, 0, by decide⟩ }] ∧
    (signalRows .epoch [leapSignal]).map Row.signal ≠ [.ok leapSignal] := by
  have hmoved : (signalRows .epoch [leapSignal]).map Row.signal =
      [.ok { leapSignal with producedAt := ⟨1483228800, 0, by decide⟩ }] := by
    decide +kernel
  exact ⟨by decide, hmoved, by rw [hmoved]; decide⟩

end Database

end MarketSignals
