import MarketSignals.Config.Environment
import MarketSignals.Proofs.Text.Trimmed
import MarketSignals.Proofs.Time.Reading

/-!
# Settings from any environment

Whatever its variables hold, an environment gives settings that the pipeline can run with. Each
variable is read on its own. One that is unset, is no text, or holds a text that its setting cannot
be read from leaves the default of that one setting, and nothing else.

The texts that a number is read from are given as a grammar: blanks around an optional plus sign,
zeros and the digits of the number. What the reader makes of a text, digit by digit and with a limit
at the end, is shown to be exactly that (`count?_trim_eq_some_iff`). A number that reaches the limit
of its setting is not cut down to it, it counts as unreadable.

## Main results

* `Text.WritesNumber`, `Text.writesNumber_iff`, `Text.count?_trim_eq_some_iff`: the texts that
  numbers are read from.
* `Environment.TakenFrom`: a value is the one that a variable gives, or a default.
* `Environment.ReadFrom`, `Environment.ReadFrom.unique`: the one configuration that an environment
  gives, each setting by its own variable.
* `Environment.config_of_any_environment`: that configuration is the one in use, and the pipeline
  can run with it.
-/

namespace MarketSignals

/-! ### Written numbers -/

namespace Text

/-- Whether a text writes a number: a plus sign or none, zeros or none, and the digits of the
number, with blanks around them. -/
def WritesNumber (text : List Char) (n : Nat) : Prop :=
  ∃ front sign back zeros, text = front ++ (sign ++ List.replicate zeros '0' ++ digits n) ++ back ∧
    (sign = [] ∨ sign = ['+']) ∧ (∀ c ∈ front, isBlank c = true) ∧ ∀ c ∈ back, isBlank c = true

/-- A text writes the number that its digits denote, whichever they are. -/
theorem writesNumber_iff {text : List Char} {n : Nat} : WritesNumber text n ↔
    ∃ front sign ds back, text = front ++ (sign ++ ds) ++ back ∧ AreDigits ds ∧ value ds = n ∧
      (sign = [] ∨ sign = ['+']) ∧ (∀ c ∈ front, isBlank c = true) ∧ ∀ c ∈ back, isBlank c = true := by
  constructor
  · rintro ⟨front, sign, back, zeros, rfl, hsign, hfront, hback⟩
    have hpadded : List.replicate zeros '0' ++ digits n = padded (zeros + (digits n).length) n := by
      rw [padded, Nat.add_sub_cancel]
    rw [List.append_assoc sign, hpadded]
    exact ⟨front, sign, _, back, rfl, areDigits_padded _ n, value_padded _ n, hsign, hfront, hback⟩
  · rintro ⟨front, sign, ds, back, rfl, hds, rfl, hsign, hfront, hback⟩
    obtain ⟨zeros, hzeros⟩ := exists_zeros hds
    refine ⟨front, sign, back, zeros, ?_, hsign, hfront, hback⟩
    rw [List.append_assoc sign, ← hzeros]

/-- A text without its plus sign is what follows a plus sign or none. -/
theorem dropPlus_append {sign ds : List Char} (hsign : sign = [] ∨ sign = ['+'])
    (hds : AreDigits ds) : dropPlus (sign ++ ds) = ds := by
  obtain ⟨c, rest, rfl, hc⟩ := hds.exists_cons
  have hplus : c ≠ '+' := ne_of_isDigit hc (by decide)
  rcases hsign with rfl | rfl
  · rw [List.nil_append, dropPlus]
    intro rest' h
    exact hplus (List.cons.inj h).1
  · rfl

/-- A text is a plus sign or none and what is left without it. -/
theorem exists_sign (text : List Char) :
    ∃ sign, text = sign ++ dropPlus text ∧ (sign = [] ∨ sign = ['+']) := by
  fun_cases dropPlus text with
  | case1 rest => exact ⟨['+'], rfl, .inr rfl⟩
  | case2 hother => exact ⟨[], rfl, .inl rfl⟩

/-- There are no blanks in digits behind a plus sign or none. -/
theorem isBlank_of_mem_signed {sign ds : List Char} (hsign : sign = [] ∨ sign = ['+'])
    (hds : AreDigits ds) {c : Char} (hc : c ∈ sign ++ ds) : isBlank c = false := by
  rcases List.mem_append.mp hc with hmem | hmem
  · rcases hsign with rfl | rfl
    · cases hmem
    · obtain rfl := List.mem_singleton.mp hmem
      rfl
  · exact Timestamp.isBlank_of_isDigit (hds.2 c hmem)

/-- **The texts that a number is read from.** -/
theorem count?_trim_eq_some_iff {limit n : Nat} {text : List Char} :
    count? limit (trim text) = some n ↔ WritesNumber text n ∧ n < limit := by
  rw [count?_eq_some_iff, writesNumber_iff]
  constructor
  · rintro ⟨hsome, hall, hvalue, hlimit⟩
    obtain ⟨front, back, htext, hfront, hback⟩ := exists_trim text
    obtain ⟨sign, htrim, hsign⟩ := exists_sign (trim text)
    rw [htrim] at htext
    exact ⟨⟨front, sign, _, back, htext, ⟨hsome, hall⟩, hvalue, hsign, hfront, hback⟩, hlimit⟩
  · rintro ⟨⟨front, sign, ds, back, rfl, hds, hvalue, hsign, hfront, hback⟩, hlimit⟩
    have hbody : ∀ c ∈ sign ++ ds, isBlank c = false := fun _ => isBlank_of_mem_signed hsign hds
    rw [trim_append hfront hbody hback, dropPlus_append hsign hds]
    exact ⟨hds.1, hds.2, hvalue, hlimit⟩

/-- Whether a text has a body: the blanks around it are taken away, and something is left. -/
def HasBody (text body : String) : Prop :=
  body ≠ "" ∧ NoBlankEnds body.toList ∧ ∃ front back,
    text.toList = front ++ body.toList ++ back ∧ (∀ c ∈ front, isBlank c = true) ∧
      ∀ c ∈ back, isBlank c = true

/-- A text with a body is what trimming leaves something of. -/
theorem hasBody_iff {text body : String} :
    HasBody text body ↔ body ≠ "" ∧ trim text.toList = body.toList :=
  and_congr_right fun _ => trim_eq_iff.symm

/-- A text has one body. -/
theorem HasBody.unique {text body body' : String} (h : HasBody text body)
    (h' : HasBody text body') : body = body' :=
  String.toList_inj.mp ((hasBody_iff.mp h).2.symm.trans (hasBody_iff.mp h').2)

end Text

/-! ### Named signal lines -/

namespace SignalLine

/-- The name of a signal line. -/
def name : SignalLine → String
  | .average => "ema"
  | .scaled => "scaled"

/-- Whether a text spells the name of a signal line, in any case of its letters and with blanks
around it. -/
def SpelledBy (line : SignalLine) (text : String) : Prop :=
  ∃ front core back, text.toList = front ++ core ++ back ∧
    (∀ c ∈ front, Text.isBlank c = true) ∧ (∀ c ∈ back, Text.isBlank c = true) ∧
    Text.lowerCase core = Text.lowerCase line.name.toList

/-- A signal line is found under its name only. -/
theorem ofText_eq_ok_iff {text : String} {line : SignalLine} :
    ofText text = .ok line ↔ Text.lowerCase (Text.trim text.toList) = line.name.toList := by
  rw [← String.ofList_inj, String.ofList_toList, ofText]
  generalize String.ofList (Text.lowerCase (Text.trim text.toList)) = word
  constructor
  · intro h
    split at h <;> cases h <;> rfl
  · rintro rfl
    cases line <;> rfl

/-- A text spells a signal line where it is the name once it is trimmed and in lower case. -/
theorem spelledBy_iff {line : SignalLine} {text : String} :
    line.SpelledBy text ↔ Text.lowerCase (Text.trim text.toList) = line.name.toList := by
  have hlower : Text.lowerCase line.name.toList = line.name.toList := by
    cases line <;> decide
  have hall : (Text.upperCase line.name.toList).all (fun c => !Text.isBlank c) = true := by
    cases line <;> decide
  have hname : ∀ c ∈ Text.upperCase line.name.toList, Text.isBlank c = false := by
    simpa using hall
  rw [SpelledBy, Text.spells_iff hname, hlower]

/-- A text spells one signal line. -/
theorem SpelledBy.unique {line line' : SignalLine} {text : String} (h : line.SpelledBy text)
    (h' : line'.SpelledBy text) : line = line' := by
  have hname : line.name.toList = line'.name.toList :=
    (spelledBy_iff.mp h).symm.trans (spelledBy_iff.mp h')
  revert hname
  cases line <;> cases line' <;> decide

end SignalLine

/-! ### Settings -/

/-- The settings that are numbers. -/
inductive Count where
  | decisionTimeout
  | priceWindow
  | recentSignals
  | workerConcurrency
  | maxAttempts
  | priceTtl
  | snapshotTtl
  | signalsTtl
  | sweepInterval
  | retentionDays
deriving DecidableEq

namespace Count

/-- The variable that a number is read from. -/
def key : Count → String
  | .decisionTimeout => "DECISION_TIMEOUT_SECONDS"
  | .priceWindow => "PRICE_WINDOW"
  | .recentSignals => "RECENT_SIGNALS"
  | .workerConcurrency => "WORKER_CONCURRENCY"
  | .maxAttempts => "MAX_ATTEMPTS"
  | .priceTtl => "CACHE_PRICE_TTL_SECONDS"
  | .snapshotTtl => "CACHE_INDICATORS_TTL_SECONDS"
  | .signalsTtl => "CACHE_SIGNALS_TTL_SECONDS"
  | .sweepInterval => "SWEEP_INTERVAL_SECONDS"
  | .retentionDays => "RETENTION_DAYS"

/-- The first number that is too large. -/
def limit : Count → Nat
  | .retentionDays => 4294967296
  | _ => 18446744073709551616

/-- The least number that a setting is raised to. -/
def floor : Count → Nat
  | .priceWindow => 50
  | .recentSignals => 1
  | .workerConcurrency => 1
  | .maxAttempts => 1
  | _ => 0

/-- The number without a variable. -/
def absent : Count → Nat
  | .decisionTimeout => 30
  | .priceWindow => 100
  | .recentSignals => 20
  | .workerConcurrency => 4
  | .maxAttempts => 3
  | .priceTtl => 60
  | .snapshotTtl => 600
  | .signalsTtl => 900
  | .sweepInterval => 0
  | .retentionDays => 730

/-- Whether a setting is a number; a length of time, whether it is that many seconds. -/
def Is (config : Config) (n : Nat) : Count → Prop
  | .decisionTimeout => config.decisionTimeout = .ofSeconds n
  | .priceWindow => config.priceWindow = n
  | .recentSignals => config.recentSignals = n
  | .workerConcurrency => config.workerConcurrency = n
  | .maxAttempts => config.maxAttempts = n
  | .priceTtl => config.cacheTtl.price = .ofSeconds n
  | .snapshotTtl => config.cacheTtl.snapshot = .ofSeconds n
  | .signalsTtl => config.cacheTtl.signals = .ofSeconds n
  | .sweepInterval => config.sweepIntervalSeconds = n
  | .retentionDays => config.retentionDays = n

/-- Whether a text gives a number for a setting. -/
def Gives (count : Count) (text : String) (n : Nat) : Prop :=
  Text.WritesNumber text.toList n ∧ n < count.limit

/-- A text gives one number. -/
theorem Gives.unique {count : Count} {text : String} {n m : Nat} (h : count.Gives text n)
    (h' : count.Gives text m) : n = m :=
  Option.some.inj
    ((Text.count?_trim_eq_some_iff.mpr h).symm.trans (Text.count?_trim_eq_some_iff.mpr h'))

/-- The defaults are those of the settings. -/
theorem is_absent (count : Count) : count.Is {} count.absent := by
  cases count <;> rfl

/-- No default is below what its setting is raised to, or too large. -/
theorem floor_le_absent (count : Count) :
    count.floor ≤ count.absent ∧ count.absent < count.limit := by
  cases count <;> decide

end Count

/-- The settings that the environment decides on. -/
inductive Setting where
  | count (count : Count)
  | decisionServiceUrl
  | signalLine
  | workerName
deriving DecidableEq

namespace Setting

/-- The variable that a setting is read from. -/
def key : Setting → String
  | .count c => c.key
  | .decisionServiceUrl => "DECISION_SERVICE_URL"
  | .signalLine => "MACD_SIGNAL_METHOD"
  | .workerName => "WORKER_NAME"

/-- Whether two configurations have the same setting. -/
def Agrees (a b : Config) : Setting → Prop
  | .count c => ∃ n, c.Is a n ∧ c.Is b n
  | .decisionServiceUrl => a.decisionServiceUrl = b.decisionServiceUrl
  | .signalLine => a.lookbacks.signalLine = b.lookbacks.signalLine
  | .workerName => a.workerName = b.workerName

/-- All settings. -/
def all : List Setting :=
  [.count .decisionTimeout, .count .priceWindow, .count .recentSignals, .count .workerConcurrency,
    .count .maxAttempts, .count .priceTtl, .count .snapshotTtl, .count .signalsTtl,
    .count .sweepInterval, .count .retentionDays, .decisionServiceUrl, .signalLine, .workerName]

theorem mem_all (s : Setting) : s ∈ all := by
  cases s with
  | count c => cases c <;> decide
  | decisionServiceUrl => decide
  | signalLine => decide
  | workerName => decide

/-- No two settings are read from one variable. -/
theorem key_injective : Function.Injective key := by
  have hall : ∀ a ∈ all, ∀ b ∈ all, a.key = b.key → a = b := by decide +kernel
  exact fun a b => hall a (mem_all a) b (mem_all b)

end Setting

/-- Whether the pipeline can run with a configuration. -/
structure Config.Usable (config : Config) : Prop where
  price_window : 50 ≤ config.priceWindow
  recent_signals : 1 ≤ config.recentSignals
  worker_concurrency : 1 ≤ config.workerConcurrency
  max_attempts : 1 ≤ config.maxAttempts
  worker_name : ∃ c ∈ config.workerName.toList, Text.isBlank c = false
  decision_service_url : ∀ url, config.decisionServiceUrl = some url →
    url ≠ "" ∧ Text.NoBlankEnds url.toList

attribute [ext] CacheTtl Config

/-- The settings are all there is to a configuration with the default lookbacks. -/
theorem Config.eq_of_agrees {a b : Config} (h : ∀ s : Setting, s.Agrees a b)
    (ha : a.lookbacks = { signalLine := a.lookbacks.signalLine })
    (hb : b.lookbacks = { signalLine := b.lookbacks.signalLine }) : a = b := by
  have same : ∀ {α : Type} {f : Nat → α} {x y : α}, (∃ n, x = f n ∧ y = f n) → x = y := by
    rintro α f x y ⟨n, hx, hy⟩
    rw [hx, hy]
  have httl : a.cacheTtl = b.cacheTtl :=
    CacheTtl.ext (same (h (.count .priceTtl))) (same (h (.count .snapshotTtl)))
      (same (h (.count .signalsTtl)))
  have hline : a.lookbacks.signalLine = b.lookbacks.signalLine := h .signalLine
  have hlookbacks : a.lookbacks = b.lookbacks := by
    rw [ha, hb, hline]
  exact Config.ext (h .decisionServiceUrl) (same (h (.count .decisionTimeout)))
    (same (h (.count .priceWindow))) (same (h (.count .recentSignals)))
    (same (h (.count .workerConcurrency))) (same (h (.count .maxAttempts))) httl
    (same (h (.count .sweepInterval))) (same (h (.count .retentionDays))) hlookbacks (h .workerName)

namespace Environment

variable {α : Type}

/-- Whether a value is the one that the text of a variable gives; or the default where there is no
variable, no text in it, or none that gives a value. -/
def TakenFrom (bytes : Option ByteArray) (gives : String → α → Prop) (absent a : α) : Prop :=
  (∃ text : String, bytes = some text.toUTF8 ∧ gives text a) ∨
    (∀ text : String, bytes = some text.toUTF8 → ∀ b, ¬ gives text b) ∧ a = absent

/-- The text of a variable is what its bytes encode. -/
theorem text?_eq_some_iff {env : Environment} {name text : String} :
    env.text? name = some text ↔ env.get? name = some text.toUTF8 := by
  rw [text?, Option.bind_eq_some_iff]
  constructor
  · rintro ⟨bytes, hbytes, htext⟩
    rw [String.fromUTF8?] at htext
    split at htext
    · cases htext
      exact hbytes
    · cases htext
  · intro h
    refine ⟨_, h, ?_⟩
    exact dif_pos text.isValidUTF8

/-- There is only one value to be taken where no text gives two. -/
theorem TakenFrom.unique {bytes bytes' : Option ByteArray} {gives : String → α → Prop}
    {absent a b : α} (ha : TakenFrom bytes gives absent a) (hb : TakenFrom bytes' gives absent b)
    (hbytes : bytes = bytes') (hone : ∀ text a b, gives text a → gives text b → a = b) :
    a = b := by
  subst hbytes
  rcases ha with ⟨text, htext, hgives⟩ | ⟨hnone, rfl⟩ <;>
    rcases hb with ⟨text', htext', hgives'⟩ | ⟨hnone', rfl⟩
  · have hsame : text.toUTF8 = text'.toUTF8 := Option.some.inj (htext.symm.trans htext')
    obtain rfl : text = text' := String.toByteArray_inj.mp hsame
    exact hone text a b hgives hgives'
  · exact absurd hgives (hnone' text htext a)
  · exact absurd hgives' (hnone text' htext' b)
  · rfl

/-- What a reader makes of the text of a variable, or a default, is taken from the variable. -/
theorem takenFrom_getD {gives : String → α → Prop} {read : String → Option α}
    (hread : ∀ text a, read text = some a ↔ gives text a) (env : Environment) (name : String)
    (absent : α) :
    TakenFrom (env.get? name) gives absent (((env.text? name).bind read).getD absent) := by
  cases hvalue : (env.text? name).bind read with
  | some a =>
      obtain ⟨text, htext, ha⟩ := Option.bind_eq_some_iff.mp hvalue
      exact .inl ⟨text, text?_eq_some_iff.mp htext, (hread text a).mp ha⟩
  | none =>
      refine .inr ⟨fun text htext b hb => ?_, rfl⟩
      have hsome : (env.text? name).bind read = some b :=
        Option.bind_eq_some_iff.mpr ⟨text, text?_eq_some_iff.mpr htext, (hread text b).mpr hb⟩
      exact Option.some_ne_none b (hsome.symm.trans hvalue)

/-- A number of the configuration is what its variable gives, raised where it is too low. -/
theorem is_config (env : Environment) (count : Count) :
    count.Is env.config (max (env.countOr count.limit count.key count.absent) count.floor) := by
  cases count <;> simp only [Count.Is, Count.floor, Nat.max_zero] <;> rfl

/-- The number of a setting is taken from its variable. -/
theorem takenFrom_countOr (env : Environment) (count : Count) :
    TakenFrom (env.get? count.key) count.Gives count.absent
      (env.countOr count.limit count.key count.absent) :=
  takenFrom_getD (fun _ _ => Text.count?_trim_eq_some_iff) env count.key count.absent

/-- The signal line is taken from its variable. -/
theorem takenFrom_signalLine (env : Environment) :
    TakenFrom (env.get? "MACD_SIGNAL_METHOD") (fun text line => line.SpelledBy text) .average
      env.signalLine := by
  have hread : ∀ text line, (SignalLine.ofText text).toOption = some line ↔ line.SpelledBy text := by
    intro text line
    rw [SignalLine.spelledBy_iff, ← SignalLine.ofText_eq_ok_iff]
    cases SignalLine.ofText text <;> simp [Except.toOption]
  have hline : env.signalLine = ((env.text? "MACD_SIGNAL_METHOD").bind fun text =>
      (SignalLine.ofText text).toOption).getD .average := by
    rw [signalLine]
    cases env.text? "MACD_SIGNAL_METHOD" with
    | none => rfl
    | some text =>
        rw [Option.map_some, Option.bind_some]
        cases SignalLine.ofText text <;> rfl
  rw [hline]
  exact takenFrom_getD hread env _ _

/-- What trimming leaves of a text, if anything. -/
def body? (text : String) : Option String :=
  (some (String.ofList (Text.trim text.toList))).filter (· ≠ "")

theorem body?_eq_some_iff {text body : String} : body? text = some body ↔ Text.HasBody text body := by
  rw [Text.hasBody_iff, body?, Option.filter_eq_some_iff, Option.some.injEq, ← String.ofList_inj,
    String.ofList_toList]
  simp [and_comm]

theorem trimmed?_eq (env : Environment) (name : String) :
    env.trimmed? name = (env.text? name).bind body? := by
  rw [trimmed?]
  cases env.text? name <;> rfl

/-- The service is found where the body of its variable says. -/
theorem decisionServiceUrl_eq_some_iff (env : Environment) (url : String) :
    env.config.decisionServiceUrl = some url ↔ ∃ text : String,
      env.get? "DECISION_SERVICE_URL" = some text.toUTF8 ∧ Text.HasBody text url := by
  have hurl : env.config.decisionServiceUrl = (env.text? "DECISION_SERVICE_URL").bind body? :=
    env.trimmed?_eq _
  simp only [hurl, Option.bind_eq_some_iff, text?_eq_some_iff, body?_eq_some_iff]

/-- The worker's name is taken from its variable. -/
theorem takenFrom_workerName (env : Environment) :
    TakenFrom (env.get? "WORKER_NAME") Text.HasBody "tickerwise-worker" env.config.workerName := by
  have hname : env.config.workerName =
      ((env.text? "WORKER_NAME").bind body?).getD "tickerwise-worker" := by
    rw [← trimmed?_eq]
    rfl
  rw [hname]
  exact takenFrom_getD (fun _ _ => body?_eq_some_iff) env _ _

/-- The pipeline can run with the settings of any environment. -/
theorem usable_config (env : Environment) : env.config.Usable where
  price_window := Nat.le_max_right _ _
  recent_signals := Nat.le_max_right _ _
  worker_concurrency := Nat.le_max_right _ _
  max_attempts := Nat.le_max_right _ _
  worker_name := by
    rcases env.takenFrom_workerName with ⟨text, -, hsome, hends, -⟩ | ⟨-, hdefault⟩
    · obtain ⟨c, rest, hname⟩ := List.exists_cons_of_ne_nil (mt String.toList_eq_nil_iff.mp hsome)
      refine ⟨c, ?_, hends.first c ?_⟩
      · rw [hname]
        exact List.mem_cons_self
      · rw [hname]
        rfl
    · rw [hdefault]
      exact ⟨'t', by decide, by decide⟩
  decision_service_url url hurl := by
    obtain ⟨text, -, hsome, hends, -⟩ := (env.decisionServiceUrl_eq_some_iff url).mp hurl
    exact ⟨hsome, hends⟩

/-- Whether a configuration is what an environment gives, each setting by its own variable. -/
structure ReadFrom (env : Environment) (config : Config) : Prop where
  number : ∀ count : Count, ∃ n, count.Is config (max n count.floor) ∧
    TakenFrom (env.get? count.key) count.Gives count.absent n
  lookbacks : config.lookbacks = { signalLine := config.lookbacks.signalLine }
  signal_line : TakenFrom (env.get? "MACD_SIGNAL_METHOD") (fun text line => line.SpelledBy text)
    .average config.lookbacks.signalLine
  decision_service_url : ∀ url, config.decisionServiceUrl = some url ↔ ∃ text : String,
    env.get? "DECISION_SERVICE_URL" = some text.toUTF8 ∧ Text.HasBody text url
  worker_name : TakenFrom (env.get? "WORKER_NAME") Text.HasBody "tickerwise-worker"
    config.workerName

/-- The configuration in use is what the environment gives. -/
theorem readFrom_config (env : Environment) : env.ReadFrom env.config where
  number count := ⟨_, env.is_config count, env.takenFrom_countOr count⟩
  lookbacks := rfl
  signal_line := env.takenFrom_signalLine
  decision_service_url := env.decisionServiceUrl_eq_some_iff
  worker_name := env.takenFrom_workerName

namespace ReadFrom

variable {env env' : Environment} {config config' : Config}

/-- A setting depends on its own variable alone. -/
theorem agrees {s : Setting} (h : env.ReadFrom config) (h' : env'.ReadFrom config')
    (hkey : env.get? s.key = env'.get? s.key) : s.Agrees config config' := by
  cases s with
  | count c =>
      obtain ⟨n, hn, htaken⟩ := h.number c
      obtain ⟨m, hm, htaken'⟩ := h'.number c
      obtain rfl : n = m := htaken.unique htaken' hkey fun _ _ _ => Count.Gives.unique
      exact ⟨_, hn, hm⟩
  | decisionServiceUrl =>
      have hbytes : env.get? "DECISION_SERVICE_URL" = env'.get? "DECISION_SERVICE_URL" := hkey
      refine Option.ext fun url => ?_
      rw [h.decision_service_url, h'.decision_service_url, hbytes]
  | signalLine =>
      exact h.signal_line.unique h'.signal_line hkey fun _ _ _ => SignalLine.SpelledBy.unique
  | workerName =>
      exact h.worker_name.unique h'.worker_name hkey fun _ _ _ => Text.HasBody.unique

/-- An environment gives one configuration. -/
theorem unique (h : env.ReadFrom config) (h' : env.ReadFrom config') : config = config' :=
  Config.eq_of_agrees (fun _ => h.agrees h' rfl) h.lookbacks h'.lookbacks

end ReadFrom

/-- Without variables all settings are the defaults. -/
theorem readFrom_empty : ReadFrom .empty {} where
  number count := by
    refine ⟨count.absent, ?_, .inr ⟨fun _ h => absurd h (by simp), rfl⟩⟩
    rw [Nat.max_eq_left count.floor_le_absent.1]
    exact count.is_absent
  lookbacks := rfl
  signal_line := .inr ⟨fun _ h => absurd h (by simp), rfl⟩
  decision_service_url url := by simp
  worker_name := .inr ⟨fun _ h => absurd h (by simp), rfl⟩

theorem config_empty : config .empty = {} :=
  (readFrom_config .empty).unique readFrom_empty

/-- **The settings of any environment.** The pipeline can run with them. Each number is the one that
its own variable writes, below the limit of the setting, or else its default, and is then raised
where it is too low. The signal line is the one that its variable spells, or else the average. The
service and the name of the worker are what is left of their variables without the blanks around
them, if anything. A setting depends on its own variable alone, so that whatever one variable holds
leaves all other settings as they are. -/
theorem config_of_any_environment (env : Environment) :
    env.config.Usable ∧ (∀ config, env.ReadFrom config ↔ config = env.config) ∧
      ∀ env' : Environment,
        (∀ s : Setting, env.get? s.key = env'.get? s.key → s.Agrees env.config env'.config) ∧
        (∀ s : Setting, (∀ name, name ≠ s.key → env.get? name = env'.get? name) →
          ∀ other, other ≠ s → other.Agrees env.config env'.config) ∧
        ((∀ s : Setting, env.get? s.key = env'.get? s.key) → env.config = env'.config) := by
  have hread := env.readFrom_config
  refine ⟨env.usable_config, fun config => ⟨fun h => h.unique hread, ?_⟩, fun env' => ?_⟩
  · rintro rfl
    exact hread
  have hread' := env'.readFrom_config
  refine ⟨fun s => hread.agrees hread', fun s hrest other hother => ?_, fun hall => ?_⟩
  · exact hread.agrees hread' (hrest other.key fun hkey => hother (Setting.key_injective hkey))
  · exact Config.eq_of_agrees (fun s => hread.agrees hread' (hall s)) hread.lookbacks hread'.lookbacks

/-- A retention time that is one day too long for its setting counts as none; it does not spoil
a window that is read from behind a plus sign and zeros and raised. -/
theorem config_of_any_environment_tooLong :
    let env : Environment := (Keyed.empty.insert "PRICE_WINDOW" "\t+0020 ".toUTF8).insert
      "RETENTION_DAYS" "4294967296".toUTF8
    let env' : Environment := env.insert "RETENTION_DAYS" "4294967295".toUTF8
    env.config.priceWindow = 50 ∧ env.config.retentionDays = 730 ∧
      env'.config.retentionDays = 4294967295 ∧
      ∀ other : Setting, other ≠ .count .retentionDays → other.Agrees env.config env'.config := by
  intro env env'
  obtain ⟨-, -, hothers⟩ := config_of_any_environment env
  refine ⟨by decide +kernel, by decide +kernel, by decide +kernel, (hothers env').2.1 _ ?_⟩
  intro name hname
  exact (if_neg fun h => hname h.symm).symm.trans (Keyed.get?_insert _ _ _ _).symm

end Environment

end MarketSignals
