import Mathlib.Logic.Function.Basic
import MarketSignals.Proofs.Pipeline.Calm

/-!
# Stages that overlap

Stages that run side by side in one world mix their calls in any way. A decision adds its signal to
the store, reads the recent signals back and caches what it read: three calls, and another decision
may add its signal between the last two. What is cached then lacks that signal until the next
decision or price, or until it expires.

What the cache holds is therefore not always what the store holds. It is what the decision that
cached last had read back: the recent signals of an earlier moment, at which this decision had added
its own signal.

## Main results

* `Overlap`: stages under way in one world, with everything they did, each call with its stage.
* `Overlap.path`, `Overlap.past`: each stage follows a path of its own; every beginning of the
  history is that of an earlier moment.
* `decision_path`: the calls of a decision that touch signals are three, in their order.
* `overlapping_decisions_cached`: what is cached once overlapping decisions are done.
* `racing_decisions_cached`: two decisions of which the one that began first caches last.
-/

namespace MarketSignals

/-! ### Where something occurs -/

/-- Something has a last occurrence. -/
theorem exists_last {β : Type} {p : β → Prop} {l : List β} (h : ∃ x ∈ l, p x) :
    ∃ early x late, l = early ++ x :: late ∧ p x ∧ ∀ y ∈ late, ¬ p y := by
  induction l with
  | nil => simp at h
  | cons a rest ih =>
      by_cases hrest : ∃ x ∈ rest, p x
      · obtain ⟨early, x, late, rfl, hx, hlate⟩ := ih hrest
        exact ⟨a :: early, x, late, rfl, hx, hlate⟩
      · have ha : p a := by
          obtain ⟨x, hx, hpx⟩ := h
          rcases List.mem_cons.mp hx with rfl | hx
          · exact hpx
          · exact absurd ⟨x, hx, hpx⟩ hrest
        exact ⟨[], a, rest, rfl, ha, fun y hy hpy => hrest ⟨y, hy, hpy⟩⟩

/-- What occurs once in a list splits it in one way. -/
theorem eq_of_split_once {β : Type} {p : β → Prop} {t t' u u' : List β} {x x' : β}
    (h : t ++ x :: u = t' ++ x' :: u') (hx : p x) (ht : ∀ y ∈ t', ¬ p y) (hu : ∀ y ∈ u', ¬ p y) :
    t = t' ∧ x = x' ∧ u = u' := by
  rcases List.append_eq_append_iff.mp h with ⟨m, rfl, hm⟩ | ⟨m, rfl, hm⟩
  · cases m with
    | nil => simpa using hm
    | cons y rest =>
        obtain ⟨rfl, -⟩ := List.cons.inj hm
        exact absurd hx (ht x (by simp))
  · cases m with
    | nil => simpa [eq_comm] using hm
    | cons y rest =>
        obtain ⟨-, rfl⟩ := List.cons.inj hm
        exact absurd hx (hu x (by simp))

/-- What comes somewhere in a list with one more element is that element, or comes before it. -/
theorem split_of_snoc_eq {β : Type} {l early late : List β} {x y : β}
    (h : l ++ [y] = early ++ x :: late) :
    (l = early ∧ y = x ∧ late = []) ∨ ∃ late', late = late' ++ [y] ∧ l = early ++ x :: late' := by
  rcases List.eq_nil_or_concat late with rfl | ⟨late', z, rfl⟩
  · obtain ⟨hl, hx⟩ := List.append_inj' h rfl
    exact .inl ⟨hl, List.singleton_inj.mp hx, rfl⟩
  · rw [List.concat_eq_append] at h ⊢
    rw [← List.cons_append, ← List.append_assoc] at h
    obtain ⟨hl, hz⟩ := List.append_inj' h rfl
    exact .inr ⟨late', by rw [List.singleton_inj.mp hz], hl⟩

/-! ### Histories of many processes -/

variable {ι α : Type}

/-- The signals that a history adds. -/
def signalsIn (history : List (ι × Exchange)) : List Signal :=
  (stored (history.map Prod.snd)).filterMap Store.Query.signal?

theorem signalsIn_append (t u : List (ι × Exchange)) :
    signalsIn (t ++ u) = signalsIn t ++ signalsIn u := by
  simp [signalsIn]

variable [DecidableEq ι]

/-! ### Side by side -/

/-- `Overlap w start w' history rest`: from the world `w` the processes `start`, each making its
calls in its own order, come to be `rest` and leave the world `w'`. The history lists their calls,
the first first, each with the name of its process. Time may pass at any moment. -/
inductive Overlap (w : World) (start : ι → Process α) :
    World → List (ι × Exchange) → (ι → Process α) → Prop
  | start : Overlap w start w [] start
  | proceed {w' : World} {history : List (ι × Exchange)} {rest : ι → Process α} (i : ι)
      {call : Call} {next : call.Answer → Process α} (hnext : rest i = .call call next)
      (h : Overlap w start w' history rest) :
      Overlap w start (w'.answer call).2 (history ++ [(i, ⟨call, (w'.answer call).1⟩)])
        (Function.update rest i (next (w'.answer call).1))
  | pass {w' : World} {history : List (ι × Exchange)} {rest : ι → Process α} (clock : Clock)
      (h : Overlap w start w' history rest) : Overlap w start { w' with clock } history rest

/-- What one process did. -/
def exchangesOf (i : ι) (history : List (ι × Exchange)) : List Exchange :=
  history.filterMap fun x => if x.1 = i then some x.2 else none

@[simp] theorem exchangesOf_append (i : ι) (t u : List (ι × Exchange)) :
    exchangesOf i (t ++ u) = exchangesOf i t ++ exchangesOf i u :=
  List.filterMap_append

@[simp] theorem exchangesOf_cons_self (i : ι) (x : Exchange) (t : List (ι × Exchange)) :
    exchangesOf i ((i, x) :: t) = x :: exchangesOf i t := by
  simp [exchangesOf]

theorem exchangesOf_singleton_of_ne {i j : ι} (h : j ≠ i) (x : Exchange) :
    exchangesOf i [(j, x)] = [] := by
  simp [exchangesOf, h]

/-- What a process did is in the history. -/
theorem mem_exchangesOf_iff {i : ι} {x : Exchange} {history : List (ι × Exchange)} :
    x ∈ exchangesOf i history ↔ (i, x) ∈ history := by
  simp only [exchangesOf, List.mem_filterMap, Option.ite_none_right_eq_some, Option.some.injEq]
  constructor
  · rintro ⟨⟨j, y⟩, hmem, rfl, rfl⟩
    exact hmem
  · exact fun hmem => ⟨(i, x), hmem, rfl, rfl⟩

/-- Where something of a process comes in its past is where it comes in the history. -/
theorem exists_of_exchangesOf_eq {i : ι} {x : Exchange} {t u : List Exchange}
    {history : List (ι × Exchange)} (h : exchangesOf i history = t ++ x :: u) :
    ∃ early late, history = early ++ (i, x) :: late ∧ exchangesOf i early = t ∧
      exchangesOf i late = u := by
  obtain ⟨early, rest, rfl, hearly, hrest⟩ := List.filterMap_eq_append_iff.mp h
  obtain ⟨others, ⟨j, y⟩, late, rfl, hothers, hx, hlate⟩ := List.filterMap_eq_cons_iff.mp hrest
  obtain ⟨rfl, rfl⟩ : j = i ∧ y = x := by simpa using hx
  refine ⟨early ++ others, late, by simp, ?_, hlate⟩
  rw [exchangesOf_append, show exchangesOf j others = [] from
    List.filterMap_eq_nil_iff.mpr hothers, List.append_nil]
  exact hearly

namespace Overlap

variable {w w' : World} {start rest : ι → Process α} {history : List (ι × Exchange)}

/-- By what it did a process came to where it is. -/
theorem path (h : Overlap w start w' history rest) (i : ι) :
    (start i).Path (exchangesOf i history) (rest i) := by
  induction h with
  | start => exact .refl _
  | @proceed w' history rest j call next hnext _ ih =>
      by_cases hsame : j = i
      · subst hsame
        rw [exchangesOf_append, Function.update_self, exchangesOf_cons_self]
        exact (hnext ▸ ih).snoc _
      · rw [exchangesOf_append, Function.update_of_ne (Ne.symm hsame),
          exchangesOf_singleton_of_ne hsame, List.append_nil]
        exact ih
  | pass _ _ ih => exact ih

/-- The store carries out what the processes ask. -/
theorem store (h : Overlap w start w' history rest) :
    w'.store = w.store.carryOut (stored (history.map Prod.snd)) := by
  induction h with
  | start => rfl
  | proceed _ _ _ ih =>
      rw [World.store_answer, ih, ← Store.carryOut_append, ← stored_append, List.map_append]
      rfl
  | pass _ _ ih => exact ih

/-- Every beginning of a history is that of an earlier moment, and what comes next in it was
answered then. -/
theorem past (h : Overlap w start w' history rest) {early late : List (ι × Exchange)}
    {x : ι × Exchange} (hsplit : history = early ++ x :: late) : ∃ v between,
      Overlap w start v early between ∧ x.2 = ⟨x.2.call, (v.answer x.2.call).1⟩ := by
  induction h generalizing late with
  | start => simp at hsplit
  | @proceed w' history rest i call next hnext hpast ih =>
      rcases split_of_snoc_eq hsplit with ⟨rfl, rfl, -⟩ | ⟨late, -, hsplit⟩
      · exact ⟨w', rest, hpast, rfl⟩
      · exact ih hsplit
  | pass _ _ ih => exact ih hsplit

end Overlap

/-- One of the processes makes its next call, if it has one. -/
def turn (w : World) (rest : ι → Process α) (i : ι) : World × (ι → Process α) :=
  match rest i with
  | .done _ => (w, rest)
  | .call call next =>
    ((w.answer call).2, Function.update rest i (next (w.answer call).1))

/-- The processes take turns in a given order. -/
def takeTurns (w : World) (rest : ι → Process α) (order : List ι) : World × (ι → Process α) :=
  order.foldl (fun s i => turn s.1 s.2 i) (w, rest)

namespace Overlap

variable {w w' : World} {start rest : ι → Process α} {history : List (ι × Exchange)}

theorem turn (h : Overlap w start w' history rest) (i : ι) :
    ∃ history', Overlap w start (turn w' rest i).1 history' (turn w' rest i).2 := by
  unfold MarketSignals.turn
  split
  · exact ⟨history, h⟩
  · rename_i call next hnext
    exact ⟨_, h.proceed i hnext⟩

/-- Processes that take turns overlap. -/
theorem takeTurns (h : Overlap w start w' history rest) (order : List ι) :
    ∃ history', Overlap w start (takeTurns w' rest order).1 history'
      (takeTurns w' rest order).2 := by
  induction order generalizing w' history rest with
  | nil => exact ⟨history, h⟩
  | cons i order ih =>
      obtain ⟨history', hnext⟩ := h.turn i
      exact ih hnext

end Overlap

/-! ### Calls and what is cached -/

/-- A call that neither adds a signal nor changes the cached ones. -/
def Call.KeepsSignals : Call → Prop
  | .store (.appendSignal _) | .cache (.setSignals _ _) | .cache (.invalidate _) => False
  | _ => True

/-- A call that changes the cached signals of a symbol. -/
def Call.SetsSignals (symbol : String) : Call → Prop
  | .cache (.setSignals name _) | .cache (.invalidate name) => name = symbol
  | _ => False

namespace World

theorem calm_answer {w : World} (h : w.Calm) (call : Call) : (w.answer call).2.Calm := by
  cases call with
  | store query => rw [answer, askStore_of_calm h]; exact h
  | cache query => rw [answer, askCache_of_calm h]; exact h
  | publish event => rw [answer, publish_of_calm h]; exact h
  | consult request =>
      rw [answer, consult]
      split <;> exact h
  | now => exact h
  | record observation => exact h

/-- Only the calls that set them change the cached signals of a symbol. -/
theorem cachedSignals_answer {w : World} (h : w.Calm) {symbol : String} {call : Call}
    (hkeeps : ¬ call.SetsSignals symbol) (instant : Nat) :
    (w.answer call).2.cache.signals.get? instant symbol =
      w.cache.signals.get? instant symbol := by
  cases call with
  | store query => rw [answer, askStore_of_calm h]
  | cache query =>
      rw [answer, askCache_of_calm h]
      cases query with
      | setSignals name signals => exact (Slots.get?_put ..).trans (if_neg hkeeps)
      | invalidate name => exact (Slots.get?_drop ..).trans (if_neg hkeeps)
      | price | snapshot | signals | setPrice | setSnapshot => rfl
  | publish event => rw [answer, publish_of_calm h]
  | consult request =>
      rw [answer, consult]
      split <;> rfl
  | now => rfl
  | record observation => rfl

end World

namespace Overlap

variable {w w' : World} {start rest : ι → Process α} {history : List (ι × Exchange)}

theorem calm (h : Overlap w start w' history rest) (hcalm : w.Calm) : w'.Calm := by
  induction h with
  | start => exact hcalm
  | proceed _ _ _ ih => exact World.calm_answer ih _
  | pass _ _ ih => exact ih

/-- The store answers by what it was asked before. -/
theorem recentSignals_read (h : Overlap w start w' history rest) (hcalm : w.Calm)
    {early late : List (ι × Exchange)} {i : ι} {symbol : String} {limit : Nat}
    {recent : List Signal}
    (hsplit : history = early ++ (i, ⟨.store (.recentSignals symbol limit), .ok recent⟩) :: late) :
    recent =
      (w.store.carryOut (stored (early.map Prod.snd))).recentSignals symbol limit := by
  obtain ⟨v, between, hearly, hx⟩ := h.past hsplit
  simp only [World.answer, World.askStore_of_calm (hearly.calm hcalm), Exchange.mk.injEq, heq_eq_eq,
    Except.ok.injEq, true_and] at hx
  rw [hx, ← hearly.store]
  rfl

/-- What is cached of the signals of a symbol is what was cached last. -/
theorem cachedSignals_eq (h : Overlap w start w' history rest) (hcalm : w.Calm)
    {early late : List (ι × Exchange)} {i : ι} {symbol : String} {signals : List Signal}
    {answer : Except CacheError Unit}
    (hsplit : history = early ++ (i, ⟨.cache (.setSignals symbol signals), answer⟩) :: late)
    (hlast : ∀ x ∈ late, ¬ x.2.call.SetsSignals symbol) {instant : Nat} {cached : List Signal}
    (hcached : w'.cache.signals.get? instant symbol = some cached) : cached = signals := by
  induction h generalizing late with
  | start => simp at hsplit
  | @proceed w' history rest j call next hnext hpast ih =>
      have hcalm' := hpast.calm hcalm
      rcases split_of_snoc_eq hsplit with ⟨rfl, hx, -⟩ | ⟨late, rfl, hbefore⟩
      · obtain rfl : call = .cache (.setSignals symbol signals) :=
          congrArg (fun x : ι × Exchange => x.2.call) hx
        rw [World.answer, World.askCache_of_calm hcalm'] at hcached
        replace hcached := (Slots.get?_put ..).symm.trans hcached
        rw [if_pos rfl] at hcached
        split at hcached <;> cases hcached
        rfl
      · rw [List.forall_mem_append, List.forall_mem_singleton] at hlast
        rw [World.cachedSignals_answer hcalm' hlast.2] at hcached
        exact ih hbefore hlast.1 hcached
  | pass _ _ ih => exact ih hsplit hlast hcached

end Overlap

/-! ### Decisions side by side -/

namespace Pipeline

variable {config : Config} {symbol market : String}

theorem keepsSignals_record (observation : Observation) :
    Attempt.Only Call.KeepsSignals (Attempt.record observation) :=
  Attempt.only_record trivial

theorem keepsSignals_validate : Attempt.Only Call.KeepsSignals (validate symbol market) :=
  only_validate trivial

theorem keepsSignals_latestPrice : Attempt.Only Call.KeepsSignals (latestPrice symbol) :=
  only_latestPrice trivial trivial fun _ => trivial

theorem keepsSignals_decide (request : DecisionRequest) :
    Attempt.Only Call.KeepsSignals (ExceptT.lift (decide request)) :=
  Attempt.only_lift (only_decide trivial trivial fun _ => trivial)

/-- The calls of a decision that touch signals are three: its signal is added, the recent signals
are read back, and what was read is cached. -/
theorem decision_path {indicators : Snapshot} {t : List Exchange} {outcome : Outcome}
    (h : Process.Path (handle config (.decisionRequested symbol market indicators)).run t
      (.done (.ok outcome))) : ∃ signal recent before after,
    t = (before ++ [⟨.store (.appendSignal signal), .ok ()⟩,
        ⟨.store (.recentSignals symbol config.recentSignals), .ok recent⟩]) ++
      ⟨.cache (.setSignals symbol recent), .ok ()⟩ :: after ∧
    (∀ x ∈ before, x.call.KeepsSignals) ∧ ∀ x ∈ after, x.call.KeepsSignals := by
  obtain ⟨t₁, _, _, rfl, hcounted, hstage⟩ := Attempt.path_bind_ok h
  obtain ⟨t₂, _, _, rfl, hvalid, hbranch⟩ := Attempt.path_bind_ok hstage
  by_cases hsymbol : indicators.symbol = symbol
  case neg =>
    rw [if_neg hsymbol] at hbranch
    cases hbranch.of_done.2
  rw [if_pos hsymbol] at hbranch
  obtain ⟨t₃, _, price, rfl, hprice, hpriced⟩ := Attempt.path_bind_ok hbranch
  cases price with
  | none => cases hpriced.of_done.2
  | some price =>
      obtain ⟨t₄, _, decision, rfl, hdecision, hdecided⟩ := Attempt.path_bind_ok hpriced
      obtain ⟨t₅, _, _, rfl, happend, hadded⟩ := Attempt.path_bind_ok hdecided
      obtain ⟨t₆, _, recent, rfl, hread, hknown⟩ := Attempt.path_bind_ok hadded
      obtain ⟨t₇, after, _, rfl, hset, hcached⟩ := Attempt.path_bind_ok hknown
      obtain rfl := Attempt.path_store_ok happend
      obtain rfl := Attempt.path_store_ok hread
      obtain rfl := Attempt.path_cache_ok hset
      refine ⟨Signal.ofDecision decision market (decision.strength indicators.readings), recent,
        t₁ ++ t₂ ++ t₃ ++ t₄, after, by simp, ?_, ?_⟩
      · simp only [List.forall_mem_append]
        refine ⟨⟨⟨?_, ?_⟩, ?_⟩, ?_⟩
        · exact Process.Only.calls (keepsSignals_record _) hcounted
        · exact Process.Only.calls keepsSignals_validate hvalid
        · exact Process.Only.calls keepsSignals_latestPrice hprice
        · exact Process.Only.calls (keepsSignals_decide _) hdecision
      · refine Process.Only.calls (Attempt.only_bind (keepsSignals_record _) fun _ => ?_) hcached
        exact Attempt.only_bind (Attempt.only_publish trivial) fun _ => trivial

/-- A call that keeps the signals does not set the cached ones. -/
theorem not_setsSignals_of_keeps {call : Call} (h : call.KeepsSignals) :
    ¬ call.SetsSignals symbol := by
  unfold Call.KeepsSignals at h
  unfold Call.SetsSignals
  split at h <;> simp_all

/-- By this history a decision on a symbol, having added its signal, read the recent signals back,
between `early` and `late`, and then was the last to cache them. -/
structure LastRefresh (config : Config) (symbol : String) (history : List (ι × Exchange)) (i : ι)
    (early late : List (ι × Exchange)) (recent : List Signal) : Prop where
  read : history =
    early ++ (i, ⟨.store (.recentSignals symbol config.recentSignals), .ok recent⟩) :: late
  added : ∃ signal, (i, ⟨.store (.appendSignal signal), .ok ()⟩) ∈ early
  cached : ∃ between after,
    late = between ++ (i, ⟨.cache (.setSignals symbol recent), .ok ()⟩) :: after ∧
      ∀ x ∈ after, ¬ x.2.call.SetsSignals symbol

/-- Where decisions are done, one of them was the last to cache the recent signals. -/
theorem exists_lastRefresh [Nonempty ι] {history : List (ι × Exchange)}
    (hpaths : ∀ i, ∃ market indicators outcome,
      Process.Path (handle config (.decisionRequested symbol market indicators)).run
        (exchangesOf i history) (.done (.ok outcome))) :
    ∃ i early late recent, LastRefresh config symbol history i early late recent := by
  have hsome : ∃ x ∈ history, x.2.call.SetsSignals symbol := by
    obtain ⟨i⟩ := ‹Nonempty ι›
    obtain ⟨market, indicators, outcome, hpath⟩ := hpaths i
    obtain ⟨signal, recent, before, after, hcalls, -, -⟩ := decision_path hpath
    exact ⟨(i, ⟨.cache (.setSignals symbol recent), .ok ()⟩),
      mem_exchangesOf_iff.mp (hcalls ▸ List.mem_append_right _ List.mem_cons_self), rfl⟩
  obtain ⟨front, ⟨i, x⟩, after, rfl, hx, hlast⟩ := exists_last hsome
  obtain ⟨market, indicators, outcome, hpath⟩ := hpaths i
  obtain ⟨signal, recent, before, others, hcalls, hbefore, hothers⟩ := decision_path hpath
  rw [exchangesOf_append, exchangesOf_cons_self] at hcalls
  obtain ⟨hfront, rfl, -⟩ := eq_of_split_once (p := fun y => y.call.SetsSignals symbol) hcalls hx
    (by
      simp only [List.forall_mem_append, List.forall_mem_cons]
      exact ⟨fun y hy => not_setsSignals_of_keeps (hbefore y hy), id, id, by simp⟩)
    fun y hy => not_setsSignals_of_keeps (hothers y hy)
  rw [← List.singleton_append, ← List.append_assoc] at hfront
  obtain ⟨early, between, rfl, hearly, -⟩ := exists_of_exchangesOf_eq hfront
  refine ⟨i, early, between ++ (i, _) :: after, recent, ⟨by simp, ⟨signal, ?_⟩, between, after, rfl,
    hlast⟩⟩
  exact mem_exchangesOf_iff.mp (hearly ▸ List.mem_append_right _ List.mem_cons_self)

/-- The recent signals are read off the signals alone. -/
theorem recentSignals_congr {s s' : Store} (h : s.signals = s'.signals) (limit : Nat) :
    s.recentSignals symbol limit = s'.recentSignals symbol limit := by
  rw [Store.recentSignals, Store.recentSignals, Store.signalsOf, Store.signalsOf, h]

/-- **What is cached was read back by a decision that had added its own signal.** Decisions on a
symbol that overlap in any way, once all of them have advanced, leave this in the cache for as long
as it is there: the recent signals that the decision which cached last had read back. These are the
recent ones of the signals that were stored at that reading. Signals that were added later are
missing; where there is none, what is cached is what the store holds. -/
theorem overlapping_decisions_cached [Nonempty ι] (config : Config) {symbol : String}
    {markets : ι → String} {indicators : ι → Snapshot} {w w' : World}
    {history : List (ι × Exchange)} {rest : ι → Process (Except PipelineError Outcome)}
    (hcalm : w.faults = Faults.none)
    (hrun : Overlap w (fun i =>
      (handle config (.decisionRequested symbol (markets i) (indicators i))).run) w' history rest)
    (hdone : ∀ i, rest i = .done (.ok .advanced)) :
    ∃ i early late recent, LastRefresh config symbol history i early late recent ∧
      (∀ instant cached, w'.cache.signals.get? instant symbol = some cached → cached = recent) ∧
      recent = Store.recentSignals { w.store with signals := w.store.signals ++ signalsIn early }
        symbol config.recentSignals ∧
      w'.store.signals = w.store.signals ++ signalsIn early ++ signalsIn late ∧
      (signalsIn late = [] → recent = w'.store.recentSignals symbol config.recentSignals) := by
  obtain ⟨i, early, late, recent, hlast⟩ :=
    exists_lastRefresh fun i => ⟨_, _, _, hdone i ▸ hrun.path i⟩
  obtain ⟨between, after, hlate, hafter⟩ := hlast.cached
  have hsplit : history = (early ++
      (i, ⟨.store (.recentSignals symbol config.recentSignals), .ok recent⟩) :: between) ++
        (i, ⟨.cache (.setSignals symbol recent), .ok ()⟩) :: after := by
    rw [hlast.read, hlate]
    simp
  have hread : recent =
      Store.recentSignals { w.store with signals := w.store.signals ++ signalsIn early }
        symbol config.recentSignals :=
    (hrun.recentSignals_read hcalm hlast.read).trans
      (recentSignals_congr (Store.signals_carryOut ..) _)
  have hstored : w'.store.signals = w.store.signals ++ signalsIn early ++ signalsIn late := by
    rw [hrun.store, Store.signals_carryOut, List.append_assoc, ← signalsIn_append, hlast.read]
    show _ ++ signalsIn _ = _
    rw [signalsIn_append, signalsIn_append]
    rfl
  refine ⟨i, early, late, recent, hlast, fun instant cached => hrun.cachedSignals_eq hcalm hsplit
    hafter, hread, hstored, fun hnone => ?_⟩
  rw [hread]
  refine recentSignals_congr ?_ _
  rw [hstored, hnone, List.append_nil]

/-- A world with one priced instrument, in which the rules decide. -/
def racing : World where
  store := (Store.addInstrument {} ⟨"AAPL", "NASDAQ", "", true⟩).appendPrice
    ⟨"AAPL", "NASDAQ", 10, 11, 9, 10, 1000, 0, .epoch⟩
  clock := { readings := fun _ => .epoch }

/-- Two decisions on that instrument. -/
def racers (_ : Bool) : Process (Except PipelineError Outcome) :=
  (handle {} (.decisionRequested "AAPL" "NASDAQ"
    ⟨"AAPL", ⟨50, ⟨0, 0, 0⟩, 10, 10, 10, 10, ⟨10, 10, 10⟩, ⟨50, 50⟩, -50, 0, 0⟩, 50, .epoch⟩)).run

/-- What they come to if the second is handled between the reading and the caching of the first. -/
def raced : World × (Bool → Process (Except PipelineError Outcome)) :=
  takeTurns racing racers
    (List.replicate 9 false ++ List.replicate 10 true ++ List.replicate 3 false)

theorem raced_advanced (i : Bool) : raced.2 i = .done (.ok .advanced) := by
  cases i <;> rfl

theorem raced_overlap : ∃ history, Overlap racing racers raced.1 history raced.2 :=
  have hstart : Overlap racing racers racing [] racers := .start
  hstart.takeTurns _

/-- One signal is cached, and two are stored. -/
theorem raced_counts :
    (raced.1.cache.signals.get? raced.1.clock.instant "AAPL").map List.length = some 1 ∧
      (raced.1.store.recentSignals "AAPL" ({} : Config).recentSignals).length = 2 := by
  constructor
  · decide +kernel
  · rw [Store.recentSignals, List.length_take, List.length_mergeSort]
    decide +kernel

/-- Two decisions overlap so that the cache lacks a signal once both have advanced. -/
theorem racing_decisions_cached : ∃ w' history rest, Overlap racing racers w' history rest ∧
    (∀ i, rest i = .done (.ok .advanced)) ∧
    ∃ cached, w'.cache.signals.get? w'.clock.instant "AAPL" = some cached ∧
      cached ≠ w'.store.recentSignals "AAPL" ({} : Config).recentSignals := by
  obtain ⟨history, hrun⟩ := raced_overlap
  obtain ⟨hcached, hstored⟩ := raced_counts
  obtain ⟨cached, hsome, hlength⟩ := Option.map_eq_some_iff.mp hcached
  refine ⟨raced.1, history, raced.2, hrun, raced_advanced, cached, hsome, fun hsame => ?_⟩
  rw [hsame, hstored] at hlength
  cases hlength

/-- In the same race the cache holds what was read back before the second signal was added. -/
theorem overlapping_decisions_cached_behind : ∃ w' history rest,
    Overlap racing racers w' history rest ∧ ∃ i early late recent,
      LastRefresh {} "AAPL" history i early late recent ∧
      w'.cache.signals.get? w'.clock.instant "AAPL" = some recent ∧ signalsIn late ≠ [] := by
  obtain ⟨history, hrun⟩ := raced_overlap
  obtain ⟨hcached, hstored⟩ := raced_counts
  obtain ⟨cached, hsome, hlength⟩ := Option.map_eq_some_iff.mp hcached
  obtain ⟨i, early, late, recent, hlast, hcache, -, -, hcurrent⟩ :=
    overlapping_decisions_cached {} rfl hrun raced_advanced
  obtain rfl := hcache _ _ hsome
  refine ⟨_, history, _, hrun, i, early, late, cached, hlast, hsome, fun hnone => ?_⟩
  rw [hcurrent hnone] at hlength
  exact absurd (hlength.symm.trans hstored) (by decide)

end Pipeline

end MarketSignals
