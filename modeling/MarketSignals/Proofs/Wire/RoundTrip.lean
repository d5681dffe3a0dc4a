import MarketSignals.Broker
import MarketSignals.Proofs.Json.Documents
import MarketSignals.Proofs.Time.Reading
import MarketSignals.Redis.Command

/-!
# Events and cached values survive their documents

Every event, in both of its documents, and every bar, snapshot and list of signals that is cached is
read back as it was written. Texts may hold any characters, counts may take all of 64 bits, and
times may lie in any year and in any leap second that clocks have. The text of a time in another
leap second is one of the next second, so what carries such a time is not read back.

About floats one thing is assumed, of the floats of the value alone: each is finite and is read back
from what is printed for it. Not every float is, as `Json.ReadsBack` says.

There is one pair of lemmas for each record: its document is composed, and it denotes the record.
Everything about texts follows from the first, everything about values from the second. For
snapshots the pair assumes less: where some float is read for each float, the document denotes the
snapshot with the floats that are read.

## Main results

* `Event.split?_toJson`: the tag of an event is told from its fields.
* `Event.ReadAs.read?_toJson`, `Event.ReadAs.event?_ofEvent`: an event is read alike from both of
  its documents.
* `documents_survive`: the texts of events and cached values are read as what they were written for,
  so different events have different texts.
* `shared_text`: two events of one text, and a bar that is read back as another one.
-/

namespace MarketSignals

open Json

/-! ### What a value holds -/

/-- The floats of a bar. -/
def Bar.floats (b : Bar) : List Float :=
  [b.opening, b.high, b.low, b.close]

/-- The floats of readings. -/
def Readings.floats (r : Readings) : List Float :=
  r.flat.map (·.2)

/-- The floats of a signal. -/
def Signal.floats (s : Signal) : List Float :=
  [s.strength, s.confidence]

namespace Event

/-- The floats of an event. -/
def floats : Event → List Float
  | .priceIngested .. | .indicatorRequested .. => []
  | .decisionRequested _ _ indicators => indicators.readings.floats
  | .signalGenerated _ _ signal => signal.floats

/-- The counts of an event that have no bound of their own. -/
def counts : Event → List Nat
  | .decisionRequested _ _ indicators => [indicators.dataPoints]
  | .priceIngested .. | .indicatorRequested .. | .signalGenerated .. => []

/-- The times of an event. -/
def times : Event → List Timestamp
  | .priceIngested .. | .indicatorRequested .. => []
  | .decisionRequested _ _ indicators => [indicators.computedAt]
  | .signalGenerated _ _ signal => [signal.producedAt]

end Event

/-! ### What its text names -/

/-- A bar at the time that its text names. -/
def Bar.settled (b : Bar) : Bar :=
  { b with time := b.time.settled }

/-- A snapshot at the time that its text names. -/
def Snapshot.settled (s : Snapshot) : Snapshot :=
  { s with computedAt := s.computedAt.settled }

/-- A signal at the time that its text names. -/
def Signal.settled (s : Signal) : Signal :=
  { s with producedAt := s.producedAt.settled }

/-- An event at the time that its text names. -/
def Event.settled : Event → Event
  | .priceIngested symbol market => .priceIngested symbol market
  | .indicatorRequested symbol market => .indicatorRequested symbol market
  | .decisionRequested symbol market indicators =>
    .decisionRequested symbol market indicators.settled
  | .signalGenerated symbol market signal => .signalGenerated symbol market signal.settled

theorem Bar.settled_of_onClock {b : Bar} (h : b.time.OnClock) : b.settled = b := by
  rw [settled, Timestamp.settled_of_onClock h]

theorem Snapshot.settled_of_onClock {s : Snapshot} (h : s.computedAt.OnClock) : s.settled = s := by
  rw [settled, Timestamp.settled_of_onClock h]

theorem Signal.settled_of_onClock {s : Signal} (h : s.producedAt.OnClock) : s.settled = s := by
  rw [settled, Timestamp.settled_of_onClock h]

theorem Event.settled_of_onClock {e : Event} (h : ∀ time ∈ e.times, time.OnClock) :
    e.settled = e := by
  cases e with
  | priceIngested | indicatorRequested => rfl
  | decisionRequested symbol market indicators =>
      rw [settled, Snapshot.settled_of_onClock (h _ List.mem_cons_self)]
  | signalGenerated symbol market signal =>
      rw [settled, Signal.settled_of_onClock (h _ List.mem_cons_self)]

theorem Timestamp.toJson_settled (t : Timestamp) : t.settled.toJson = t.toJson := by
  rw [toJson, toJson, written_settled]

/-- An event has the text of the event at the time that the text names. -/
theorem Event.toJson_settled (e : Event) : e.settled.toJson = e.toJson := by
  cases e with
  | priceIngested | indicatorRequested => rfl
  | decisionRequested symbol market indicators =>
      simp only [settled, Event.toJson, Event.fields, Event.stage, Snapshot.toJson,
        Snapshot.settled, Timestamp.toJson_settled]
  | signalGenerated symbol market signal =>
      simp only [settled, Event.toJson, Event.fields, Event.stage, Signal.toJson, Signal.settled,
        Timestamp.toJson_settled]

/-! ### What a document asks -/

/-- What a document asks of the numbers of a value: its floats are finite and printed so that they
are read back, its counts fit 64 bits, and its times are in no leap second that clocks do not
have. -/
structure Legible (floats : List Float) (counts : List Nat) (times : List Timestamp) : Prop where
  /-- No float is an infinity or no number. -/
  isFinite : ∀ x ∈ floats, x.isFinite = true
  /-- A finite float is read back from what is printed for it. -/
  readsBack : ∀ x ∈ floats, x.isFinite = true → ReadsBack x
  /-- A count fits 64 bits. -/
  count_lt : ∀ count ∈ counts, count < 2 ^ 64
  /-- A leap second lies behind the second 59 of a minute. -/
  onClock : ∀ time ∈ times, time.OnClock

instance (floats : List Float) (counts : List Nat) (times : List Timestamp) :
    Decidable (Legible floats counts times) :=
  decidable_of_iff
    ((∀ x ∈ floats, x.isFinite = true) ∧ (∀ x ∈ floats, x.isFinite = true → ReadsBack x) ∧
      (∀ count ∈ counts, count < 2 ^ 64) ∧ ∀ time ∈ times, time.OnClock)
    ⟨fun ⟨hfinite, hread, hcount, htime⟩ => ⟨hfinite, hread, hcount, htime⟩,
      fun h => ⟨h.1, h.2, h.3, h.4⟩⟩

theorem Legible.float {floats : List Float} {counts : List Nat} {times : List Timestamp}
    (h : Legible floats counts times) : ∀ x ∈ floats, ReadsBack x :=
  fun x hx => h.readsBack x hx (h.isFinite x hx)

/-! ### Leaves -/

@[simp] theorem Timestamp.ofJson?_toJson (t : Timestamp) :
    Timestamp.ofJson? t.toJson = some t.settled := by
  simp [Timestamp.ofJson?, Timestamp.toJson, Timestamp.read?_written]

@[simp] theorem countOfJson?_countJson (count : UInt64) :
    countOfJson? (countJson count) = some count := by
  rw [countOfJson?, countJson, count?_ofNat count.toNat_lt, Option.map_some, UInt64.ofNat_toNat]

@[simp] theorem Action.ofJson?_ofText (action : Action) :
    Action.ofJson? (.ofText action.name) = some action := by
  simp [Action.ofJson?]

@[simp] theorem Origin.ofJson?_ofText (origin : Origin) :
    Origin.ofJson? (.ofText origin.name) = some origin := by
  simp [Origin.ofJson?]

theorem composedIn_countJson (count : UInt64) (k : Nat) : ComposedIn k (countJson count) :=
  ComposedIn.ofNat count.toNat_lt

theorem Timestamp.composedIn (t : Timestamp) (k : Nat) : ComposedIn k t.toJson :=
  ComposedIn.ofText _

/-! ### Bars -/

theorem Bar.composedIn {b : Bar} (hb : ∀ x ∈ b.floats, ReadsBack x) : ComposedIn 1 b.toJson := by
  simp only [Bar.floats, List.forall_mem_cons] at hb
  obtain ⟨hopening, hhigh, hlow, hclose, -⟩ := hb
  refine ComposedIn.ofFields (by simp) ?_
  simp [ComposedIn.ofText, hopening.composedIn, hhigh.composedIn, hlow.composedIn,
    hclose.composedIn, composedIn_countJson, Timestamp.composedIn]

theorem Bar.ofJson?_toJson {b : Bar} (hb : ∀ x ∈ b.floats, ReadsBack x) :
    Bar.ofJson? b.toJson = some b.settled := by
  simp only [Bar.floats, List.forall_mem_cons] at hb
  obtain ⟨hopening, hhigh, hlow, hclose, -⟩ := hb
  have hfields : b.toJson.fields? Bar.fieldNames = some _ := fields?_ofFields rfl (by decide)
  simp [Bar.ofJson?, hfields, hopening.float?, hhigh.float?, hlow.float?, hclose.float?, settled]

/-! ### Snapshots -/

/-- Every field of a place is looked for once, and found. -/
theorem Stochastic.ofJson?_eq (s : Stochastic) : ofJson? s.toJson = (do
    let k ← (ofFloat s.k).float?
    let d ← (ofFloat s.d).float?
    some ⟨k, d⟩) := by
  have hfields : s.toJson.fields? ["k", "d"] = some _ := fields?_ofFields rfl (by decide)
  rw [ofJson?, hfields]
  rfl

theorem Macd.ofJson?_eq (m : Macd) : ofJson? m.toJson = (do
    let line ← (ofFloat m.line).float?
    let signal ← (ofFloat m.signal).float?
    let histogram ← (ofFloat m.histogram).float?
    some ⟨line, signal, histogram⟩) := by
  have hfields : m.toJson.fields? ["macd", "signal", "histogram"] = some _ :=
    fields?_ofFields rfl (by decide)
  rw [ofJson?, hfields]
  rfl

theorem Bands.ofJson?_eq (b : Bands) : ofJson? b.toJson = (do
    let upper ← (ofFloat b.upper).float?
    let middle ← (ofFloat b.middle).float?
    let lower ← (ofFloat b.lower).float?
    some ⟨upper, middle, lower⟩) := by
  have hfields : b.toJson.fields? ["upper", "middle", "lower"] = some _ :=
    fields?_ofFields rfl (by decide)
  rw [ofJson?, hfields]
  rfl

theorem Readings.ofJson?_eq (r : Readings) : ofJson? r.toJson = (do
    let rsi ← (ofFloat r.rsi).float?
    let macd ← Macd.ofJson? r.macd.toJson
    let smaShort ← (ofFloat r.smaShort).float?
    let smaLong ← (ofFloat r.smaLong).float?
    let emaFast ← (ofFloat r.emaFast).float?
    let emaSlow ← (ofFloat r.emaSlow).float?
    let bollinger ← Bands.ofJson? r.bollinger.toJson
    let stochastic ← Stochastic.ofJson? r.stochastic.toJson
    let williamsR ← (ofFloat r.williamsR).float?
    let atr ← (ofFloat r.atr).float?
    let obv ← (ofFloat r.obv).float?
    some ⟨rsi, macd, smaShort, smaLong, emaFast, emaSlow, bollinger, stochastic, williamsR, atr,
      obv⟩) := by
  have hfields : r.toJson.fields? Readings.fieldNames = some _ := fields?_ofFields rfl (by decide)
  rw [ofJson?, hfields]
  rfl

section

variable {x y z : Float} (hx : Readable x) (hy : Readable y) (hz : Readable z)
include hx hy

theorem Stochastic.composedIn : ComposedIn 1 (Stochastic.toJson ⟨x, y⟩) := by
  refine ComposedIn.ofFields (by simp) ?_
  simp [hx.composedIn, hy.composedIn]

theorem Stochastic.ofJson?_toJson :
    Stochastic.ofJson? (Stochastic.toJson ⟨x, y⟩) = some ⟨reread x, reread y⟩ := by
  simp [ofJson?_eq, hx.float?, hy.float?]

include hz

theorem Macd.composedIn : ComposedIn 1 (Macd.toJson ⟨x, y, z⟩) := by
  refine ComposedIn.ofFields (by simp) ?_
  simp [hx.composedIn, hy.composedIn, hz.composedIn]

theorem Macd.ofJson?_toJson :
    Macd.ofJson? (Macd.toJson ⟨x, y, z⟩) = some ⟨reread x, reread y, reread z⟩ := by
  simp [ofJson?_eq, hx.float?, hy.float?, hz.float?]

theorem Bands.composedIn : ComposedIn 1 (Bands.toJson ⟨x, y, z⟩) := by
  refine ComposedIn.ofFields (by simp) ?_
  simp [hx.composedIn, hy.composedIn, hz.composedIn]

theorem Bands.ofJson?_toJson :
    Bands.ofJson? (Bands.toJson ⟨x, y, z⟩) = some ⟨reread x, reread y, reread z⟩ := by
  simp [ofJson?_eq, hx.float?, hy.float?, hz.float?]

end

namespace Readings

variable {r : Readings}

/-- Readings with something done to each float. -/
def map (f : Float → Float) (r : Readings) : Readings where
  rsi := f r.rsi
  macd := ⟨f r.macd.line, f r.macd.signal, f r.macd.histogram⟩
  smaShort := f r.smaShort
  smaLong := f r.smaLong
  emaFast := f r.emaFast
  emaSlow := f r.emaSlow
  bollinger := ⟨f r.bollinger.upper, f r.bollinger.middle, f r.bollinger.lower⟩
  stochastic := ⟨f r.stochastic.k, f r.stochastic.d⟩
  williamsR := f r.williamsR
  atr := f r.atr
  obv := f r.obv

/-- What changes no float changes nothing. -/
theorem map_eq_self {f : Float → Float} (h : ∀ x ∈ r.floats, f x = x) : r.map f = r := by
  simp only [floats, flat, List.map_cons, List.map_nil, List.forall_mem_cons] at h
  obtain ⟨hatr, hlower, hmiddle, hupper, hfast, hslow, hline, hhistogram, hsignal, hobv, hrsi,
    hshort, hlong, hd, hk, hwilliams, -⟩ := h
  simp only [map, hatr, hlower, hmiddle, hupper, hfast, hslow, hline, hhistogram, hsignal, hobv,
    hrsi, hshort, hlong, hd, hk, hwilliams]

theorem composedIn (hr : ∀ x ∈ r.floats, Readable x) : ComposedIn 2 r.toJson := by
  simp only [floats, flat, List.map_cons, List.map_nil, List.forall_mem_cons] at hr
  obtain ⟨hatr, hlower, hmiddle, hupper, hfast, hslow, hline, hhistogram, hsignal, hobv, hrsi,
    hshort, hlong, hd, hk, hwilliams, -⟩ := hr
  have hmacd := Macd.composedIn hline hsignal hhistogram
  have hbands := Bands.composedIn hupper hmiddle hlower
  have hstochastic := Stochastic.composedIn hk hd
  refine ComposedIn.ofFields (by simp) ?_
  simp [hatr.composedIn, hfast.composedIn, hslow.composedIn, hobv.composedIn, hrsi.composedIn,
    hshort.composedIn, hlong.composedIn, hwilliams.composedIn, hmacd, hbands, hstochastic]

theorem ofJson?_toJson (hr : ∀ x ∈ r.floats, Readable x) :
    Readings.ofJson? r.toJson = some (r.map reread) := by
  simp only [floats, flat, List.map_cons, List.map_nil, List.forall_mem_cons] at hr
  obtain ⟨hatr, hlower, hmiddle, hupper, hfast, hslow, hline, hhistogram, hsignal, hobv, hrsi,
    hshort, hlong, hd, hk, hwilliams, -⟩ := hr
  have hmacd := Macd.ofJson?_toJson hline hsignal hhistogram
  have hbands := Bands.ofJson?_toJson hupper hmiddle hlower
  have hstochastic := Stochastic.ofJson?_toJson hk hd
  simp [ofJson?_eq, map, hatr.float?, hfast.float?, hslow.float?, hobv.float?, hrsi.float?,
    hshort.float?, hlong.float?, hwilliams.float?, hmacd, hbands, hstochastic]

end Readings

namespace Snapshot

variable {s : Snapshot}

section

variable (hs : ∀ x ∈ s.readings.floats, Readable x) (hcount : s.dataPoints < 2 ^ 64)
include hs hcount

theorem composedIn_of_readable : ComposedIn 3 s.toJson := by
  refine ComposedIn.ofFields (by simp) ?_
  simp [ComposedIn.ofText, Readings.composedIn hs, ComposedIn.ofNat hcount, Timestamp.composedIn]

theorem ofJson?_of_readable :
    Snapshot.ofJson? s.toJson =
      some { s.settled with readings := s.readings.map reread } := by
  have hfields : s.toJson.fields? ["symbol", "values", "data_points", "computed_at"] = some _ :=
    fields?_ofFields rfl (by decide)
  simp [Snapshot.ofJson?, hfields, Readings.ofJson?_toJson hs, count?_ofNat hcount, settled]

end

section

variable (hs : ∀ x ∈ s.readings.floats, ReadsBack x) (hcount : s.dataPoints < 2 ^ 64)
include hs hcount

theorem composedIn : ComposedIn 3 s.toJson :=
  composedIn_of_readable (fun x hx => (hs x hx).readable) hcount

theorem ofJson?_toJson : Snapshot.ofJson? s.toJson = some s.settled := by
  have hsame := Readings.map_eq_self fun x hx => (hs x hx).reread_eq
  rw [ofJson?_of_readable (fun x hx => (hs x hx).readable) hcount, hsame]
  rfl

end

end Snapshot

/-! ### Signals -/

section

variable {s : Signal} (hs : ∀ x ∈ s.floats, ReadsBack x)
include hs

theorem Signal.composedIn : ComposedIn 2 s.toJson := by
  simp only [Signal.floats, List.forall_mem_cons] at hs
  obtain ⟨hstrength, hconfidence, -⟩ := hs
  refine ComposedIn.ofFields (by simp) ?_
  simp [ComposedIn.ofText, hstrength.composedIn, hconfidence.composedIn, ComposedIn.ofTexts,
    Timestamp.composedIn]

theorem Signal.ofJson?_toJson : Signal.ofJson? s.toJson = some s.settled := by
  simp only [Signal.floats, List.forall_mem_cons] at hs
  obtain ⟨hstrength, hconfidence, -⟩ := hs
  have hfields : s.toJson.fields? Signal.fieldNames = some _ := fields?_ofFields rfl (by decide)
  simp [Signal.ofJson?, hfields, hstrength.float?, hconfidence.float?, settled]

end

/-- The floats of signals, one signal after the other. -/
def signalFloats (signals : List Signal) : List Float :=
  signals.flatMap Signal.floats

section

variable {signals : List Signal} (hsignals : ∀ x ∈ signalFloats signals, ReadsBack x)
include hsignals

theorem readsBack_of_mem {s : Signal} (hs : s ∈ signals) : ∀ x ∈ s.floats, ReadsBack x :=
  fun x hx => hsignals x (List.mem_flatMap_of_mem hs hx)

theorem composedIn_signalsJson : ComposedIn 3 (signalsJson signals) :=
  ComposedIn.ofItems fun item hitem => by
    obtain ⟨s, hs, rfl⟩ := List.mem_map.mp hitem
    exact Signal.composedIn (readsBack_of_mem hsignals hs)

theorem signalsOfJson?_signalsJson (htimes : ∀ s ∈ signals, s.producedAt.OnClock) :
    signalsOfJson? (signalsJson signals) = some signals :=
  list?_map fun s hs => by
    rw [Signal.ofJson?_toJson (readsBack_of_mem hsignals hs),
      Signal.settled_of_onClock (htimes s hs)]

end

/-! ### Events -/

namespace Event

/-- The documents of an event are composed, and the one on its stage's queue denotes an event. -/
structure ReadAs (e decoded : Event) : Prop where
  /-- The fields of the event are composed documents. -/
  fields : ∀ field ∈ e.fields, ComposedIn 3 field.2
  /-- What the event is read as. -/
  job : ofJob? e.stage e.toJob = some decoded

/-- A request for a decision is read with the snapshot that its document denotes. -/
theorem readAs_decisionRequested (symbol market : String) {s decoded : Snapshot}
    (hcomposed : ComposedIn 3 s.toJson) (hread : Snapshot.ofJson? s.toJson = some decoded) :
    (decisionRequested symbol market s).ReadAs (.decisionRequested symbol market decoded) where
  fields := by simp [Event.fields, ComposedIn.ofText, hcomposed]
  job := by
    have hfields : (toJob (.decisionRequested symbol market s)).fields?
      ["symbol", "market", "indicators"] = some _ := fields?_ofFields rfl (by decide)
    simp [stage, ofJob?, hfields, Event.fields, hread]

/-- An event whose numbers are read back is read as the event at the time that its text names. -/
theorem readAs_settled {e : Event} (hfloats : ∀ x ∈ e.floats, ReadsBack x)
    (hcounts : ∀ count ∈ e.counts, count < 2 ^ 64) : e.ReadAs e.settled := by
  cases e with
  | priceIngested symbol market =>
      have hfields : (toJob (.priceIngested symbol market)).fields? ["symbol", "market"] = some _ :=
        fields?_ofFields rfl (by decide)
      exact ⟨by simp [fields, ComposedIn.ofText],
        by simp [stage, ofJob?, hfields, fields, settled]⟩
  | indicatorRequested symbol market =>
      have hfields : (toJob (.indicatorRequested symbol market)).fields? ["symbol", "market"] =
        some _ := fields?_ofFields rfl (by decide)
      exact ⟨by simp [fields, ComposedIn.ofText],
        by simp [stage, ofJob?, hfields, fields, settled]⟩
  | decisionRequested symbol market indicators =>
      have hcount := hcounts _ List.mem_cons_self
      exact readAs_decisionRequested symbol market (Snapshot.composedIn hfloats hcount)
        (Snapshot.ofJson?_toJson hfloats hcount)
  | signalGenerated symbol market signal =>
      have hfields : (toJob (.signalGenerated symbol market signal)).fields?
        ["symbol", "market", "signal"] = some _ := fields?_ofFields rfl (by decide)
      have hcomposed := (Signal.composedIn hfloats).mono (Nat.le_succ 2)
      exact ⟨by simp [fields, ComposedIn.ofText, hcomposed],
        by simp [stage, ofJob?, hfields, fields, Signal.ofJson?_toJson hfloats, settled]⟩

/-- An event that can be read back is read as it was. -/
theorem readAs_self {e : Event} (he : Legible e.floats e.counts e.times) : e.ReadAs e := by
  have hread := readAs_settled he.float he.count_lt
  rwa [settled_of_onClock he.onClock] at hread

theorem isTag_writtenMember (field : String × Json) :
    isTag (writtenMember field) = (field.1 == "type") := by
  rw [isTag, writtenMember, bodyText?_escape, Option.some_beq_some]

/-- The tag is told from fields of other names. -/
theorem split?_ofFields {others : List (String × Json)} (tag : Json)
    (hothers : ∀ field ∈ others, field.1 ≠ "type") :
    split? (.ofFields (("type", tag) :: others)) = (stage? tag).map (·, .ofFields others) := by
  have htold : ∀ member ∈ others.map writtenMember, isTag member = false := by
    intro member hmem
    obtain ⟨field, hfield, rfl⟩ := List.mem_map.mp hmem
    rw [isTag_writtenMember, beq_eq_false_iff_ne]
    exact hothers field hfield
  have htag : isTag (writtenMember ("type", tag)) = true := isTag_writtenMember ("type", tag)
  have hkept := List.filter_eq_self.mpr fun member hmem => congrArg Bool.not (htold member hmem)
  have hnoTag := List.filter_eq_nil_iff.mpr fun member hmem =>
    Bool.eq_false_iff.mp (htold member hmem)
  simp only [split?, ofFields_eq, List.map_cons, List.filter_cons, htag, if_true, hnoTag,
    Bool.not_true, Bool.false_eq_true, if_false]
  rw [hkept]
  rfl

theorem split?_toJson (e : Event) : split? e.toJson = some (e.stage, e.toJob) := by
  rw [toJson, split?_ofFields _ (by cases e <;> simp [fields])]
  simp [stage?, toJob]

namespace ReadAs

variable {e decoded : Event} (h : e.ReadAs decoded)
include h

theorem composedIn_toJob : ComposedIn 4 e.toJob :=
  ComposedIn.ofFields (by cases e <;> simp [Event.fields]) h.fields

theorem composedIn_toJson : ComposedIn 4 e.toJson :=
  ComposedIn.ofFields (List.cons_ne_nil _ _)
    (List.forall_mem_cons.mpr ⟨ComposedIn.ofText _, h.fields⟩)

/-- An event is read alike from the document that names its stage. -/
theorem ofJson?_toJson : ofJson? e.toJson = some decoded := by
  obtain ⟨hcomposed, hdepth⟩ := h.composedIn_toJson
  have hwhole : (e.toJson.isMeaningful && e.toJson.depth ≤ maxDepth) = true := by
    rw [hcomposed.isMeaningful, Bool.true_and, decide_eq_true_eq]
    exact hdepth.trans (by decide)
  rw [ofJson?, if_pos hwhole, split?_toJson]
  show ofJob? e.stage e.toJob.emptyAsNull = some decoded
  rw [h.composedIn_toJob.composed.emptyAsNull, h.job]

/-- The text of an event that names its stage is read as the event. -/
theorem read?_toJson : (read? e.toJson.render).bind Event.ofJson? = some decoded := by
  rw [h.composedIn_toJson.composed.read?_render]
  exact h.ofJson?_toJson

/-- A job is read as the event that its document denotes. -/
theorem event?_ofEvent : (Job.ofEvent e).event? = some decoded := by
  show (read? e.toJob.render).bind (Event.ofJob? e.stage) = some decoded
  rw [h.composedIn_toJob.composed.read?_render]
  exact h.job

end ReadAs

end Event

/-! ### Texts -/

/-- The text of an event that names its stage is read as the event. -/
theorem Event.read?_toJson {e : Event} (he : Legible e.floats e.counts e.times) :
    (read? e.toJson.render).bind Event.ofJson? = some e :=
  (readAs_self he).read?_toJson

/-- A job is read as the event it was made of. -/
theorem Job.event?_ofEvent {e : Event} (he : Legible e.floats e.counts e.times) :
    (Job.ofEvent e).event? = some e :=
  (Event.readAs_self he).event?_ofEvent

/-- What is cached as the text of a document is what the document denotes. -/
theorem Redis.valueOf_text {α : Type} {read : Json → Option α} {d : Json} {value : α} {k : Nat}
    (hd : ComposedIn k d) (hread : read d = some value) :
    Redis.valueOf read (.text (some d.text)) = some value := by
  show (read? (String.ofList d.render).toList).bind read = some value
  rw [String.toList_ofList, hd.composed.read?_render]
  exact hread

/-- A cached bar is read as it was. -/
theorem Bar.valueOf_text {b : Bar} (hb : Legible b.floats [] [b.time]) :
    Redis.valueOf Bar.ofJson? (.text (some b.toJson.text)) = some b := by
  have hread := Bar.ofJson?_toJson hb.float
  rw [settled_of_onClock (hb.onClock _ List.mem_cons_self)] at hread
  exact Redis.valueOf_text (Bar.composedIn hb.float) hread

/-- A cached snapshot is read as it was. -/
theorem Snapshot.valueOf_text {s : Snapshot}
    (hs : Legible s.readings.floats [s.dataPoints] [s.computedAt]) :
    Redis.valueOf Snapshot.ofJson? (.text (some s.toJson.text)) = some s := by
  have hcount := hs.count_lt _ List.mem_cons_self
  have hread := Snapshot.ofJson?_toJson hs.float hcount
  rw [settled_of_onClock (hs.onClock _ List.mem_cons_self)] at hread
  exact Redis.valueOf_text (Snapshot.composedIn hs.float hcount) hread

/-- The times of signals. -/
def signalTimes (signals : List Signal) : List Timestamp :=
  signals.map Signal.producedAt

/-- Cached signals are read as they were. -/
theorem valueOf_signalsText {signals : List Signal}
    (h : Legible (signalFloats signals) [] (signalTimes signals)) :
    Redis.valueOf signalsOfJson? (.text (some (signalsJson signals).text)) = some signals :=
  Redis.valueOf_text (composedIn_signalsJson h.float)
    (signalsOfJson?_signalsJson h.float (List.forall_mem_map.mp h.onClock))

/-- **Queued events and cached values survive their documents.** The text of an event is read as the
event, with the tag of its stage and on its stage's queue; the texts of a bar, of a snapshot and of
signals are read as what was cached. So two events never have one text, and what is read has the
stage, the symbol and the market that were written. All floats are finite; and but for the last
statement a time in a leap second is one that clocks have, behind the second 59 of a minute. -/
theorem documents_survive :
    (∀ e : Event, Legible e.floats e.counts e.times →
      (read? e.toJson.render).bind Event.ofJson? = some e ∧ (Job.ofEvent e).event? = some e) ∧
    (∀ bar : Bar, Legible bar.floats [] [bar.time] →
      Redis.valueOf Bar.ofJson? (.text (some bar.toJson.text)) = some bar) ∧
    (∀ snapshot : Snapshot,
      Legible snapshot.readings.floats [snapshot.dataPoints] [snapshot.computedAt] →
      Redis.valueOf Snapshot.ofJson? (.text (some snapshot.toJson.text)) = some snapshot) ∧
    (∀ signals : List Signal, Legible (signalFloats signals) [] (signalTimes signals) →
      Redis.valueOf signalsOfJson? (.text (some (signalsJson signals).text)) = some signals) ∧
    (∀ e e' : Event, Legible e.floats e.counts e.times → Legible e'.floats e'.counts e'.times →
      e ≠ e' → e.toJson.render ≠ e'.toJson.render ∧ Job.ofEvent e ≠ Job.ofEvent e') ∧
    (∀ e decoded : Event, Legible e.floats e.counts [] →
      (read? e.toJson.render).bind Event.ofJson? = some decoded →
        decoded.stage = e.stage ∧ decoded.symbol = e.symbol ∧ decoded.market = e.market) := by
  refine ⟨fun e he => ⟨Event.read?_toJson he, Job.event?_ofEvent he⟩,
    fun bar hbar => Bar.valueOf_text hbar, fun snapshot hsnapshot => Snapshot.valueOf_text hsnapshot,
    fun signals hsignals => valueOf_signalsText hsignals, fun e e' he he' hne => ⟨?_, ?_⟩,
    fun e decoded he hdecoded => ?_⟩
  · intro hsame
    have hread := Event.read?_toJson he
    rw [hsame, Event.read?_toJson he'] at hread
    exact hne (Option.some.inj hread).symm
  · intro hsame
    have hread := Job.event?_ofEvent he
    rw [hsame, Job.event?_ofEvent he'] at hread
    exact hne (Option.some.inj hread).symm
  · rw [(Event.readAs_settled he.float he.count_lt).read?_toJson] at hdecoded
    cases hdecoded
    cases e <;> exact ⟨rfl, rfl, rfl⟩

/-- A bar with escapes in its symbol and the largest count, observed in a leap second. -/
def leapSecondBar : Bar :=
  ⟨"\"\\\n\x01é", "NASDAQ", 0.1, 101.25, 1e-7, 1e21, 18446744073709551615, 0,
    ⟨1483228799, 1500000000, by decide⟩⟩

/-- A snapshot beyond the last year of four digits. -/
def distantSnapshot : Snapshot :=
  ⟨"AAPL", ⟨55.5, ⟨1.25, 0.1, -0.3⟩, 100, 99.5, 101, 100.25, ⟨110, 100, 90⟩, ⟨80, 75.5⟩, -20, 2.5,
    -0.0⟩, 200, ⟨253402300800, 1000, by decide⟩⟩

/-- A signal from before the first year. -/
def ancientSignal : Signal :=
  ⟨"AAPL", "NASDAQ", .buy, 0.6, 0.75, ["low", ""], .rule, ⟨-62200000000, 123456789, by decide⟩⟩

theorem documents_survive_far_away :
    (Legible distantSnapshot.readings.floats [distantSnapshot.dataPoints]
        [distantSnapshot.computedAt] ∧
      Legible ancientSignal.floats [] [ancientSignal.producedAt] ∧
      Legible (signalFloats [ancientSignal]) [] (signalTimes [ancientSignal]) ∧
      Legible leapSecondBar.floats [] [leapSecondBar.time]) ∧
    (read? (Event.decisionRequested "AAPL" "NASDAQ" distantSnapshot).toJson.render).bind
      Event.ofJson? = some (.decisionRequested "AAPL" "NASDAQ" distantSnapshot) ∧
    Redis.valueOf Bar.ofJson? (.text (some leapSecondBar.toJson.text)) = some leapSecondBar ∧
    Redis.valueOf Snapshot.ofJson? (.text (some distantSnapshot.toJson.text)) =
      some distantSnapshot ∧
    Redis.valueOf signalsOfJson? (.text (some (signalsJson [ancientSignal]).text)) =
      some [ancientSignal] ∧
    Job.ofEvent (.decisionRequested "AAPL" "NASDAQ" distantSnapshot) ≠
      Job.ofEvent (.signalGenerated "AAPL" "NASDAQ" ancientSignal) := by
  have hsnapshot : Legible distantSnapshot.readings.floats [distantSnapshot.dataPoints]
      [distantSnapshot.computedAt] := by
    decide +kernel
  have hsignal : Legible ancientSignal.floats [] [ancientSignal.producedAt] := by decide +kernel
  have hsignals : Legible (signalFloats [ancientSignal]) [] (signalTimes [ancientSignal]) := by
    decide +kernel
  have hbar : Legible leapSecondBar.floats [] [leapSecondBar.time] := by decide +kernel
  obtain ⟨hevents, hbars, hsnapshots, hlists, hdistinct, -⟩ := documents_survive
  exact ⟨⟨hsnapshot, hsignal, hsignals, hbar⟩,
    (hevents (.decisionRequested "AAPL" "NASDAQ" distantSnapshot) hsnapshot).1,
    hbars _ hbar, hsnapshots _ hsnapshot, hlists _ hsignals,
    (hdistinct (.decisionRequested "AAPL" "NASDAQ" distantSnapshot)
      (.signalGenerated "AAPL" "NASDAQ" ancientSignal) hsnapshot hsignal (by simp)).2⟩

/-- A signal in a leap second that clocks do not have, behind a second 4 and a third. -/
def straySignal : Signal :=
  ⟨"AAPL", "NASDAQ", .buy, 0.6, 0.75, ["low", ""], .rule, ⟨86164, 1333333333, by decide⟩⟩

/-- **Two events may have one text**, where the time of one is in a leap second that clocks do not
have. All their floats are finite and read back, and both texts are read as the event of the next
second. -/
theorem shared_text :
    let stray : Event := .signalGenerated "AAPL" "NASDAQ" straySignal
    let next : Event := .signalGenerated "AAPL" "NASDAQ"
      { straySignal with producedAt := ⟨86165, 333333333, by decide⟩ }
    (Legible stray.floats stray.counts [] ∧ Legible next.floats next.counts []) ∧ stray ≠ next ∧
      stray.toJson.render = next.toJson.render ∧
      (read? stray.toJson.render).bind Event.ofJson? = some next ∧
      (Job.ofEvent stray).event? = some next := by
  intro stray next
  have hlegible : Legible stray.floats stray.counts [] := by decide +kernel
  have hsettled : stray.settled = next := by decide +kernel
  have hdistinct : stray ≠ next := by decide +kernel
  have hread := Event.readAs_settled hlegible.float hlegible.count_lt
  have htext := stray.toJson_settled
  rw [hsettled] at hread htext
  exact ⟨⟨hlegible, hlegible⟩, hdistinct, by rw [htext], hread.read?_toJson,
    hread.event?_ofEvent⟩

end MarketSignals
