import Mathlib.Data.List.Basic
import MarketSignals.Pipeline.Delivery
import MarketSignals.Pipeline.Upkeep
import MarketSignals.Proofs.Pipeline.History

/-!
# Pipelines at work

Many operations of a pipeline run in one world at once: each makes its calls in its own order, and
the calls of different operations mix in any way. Failures may be injected and time may pass at any
moment. The history lists every call that was made with its answer.

## Main results

* `Reachable.sound`: the history is a shuffle of the paths of the operations, and the log and the
  store are what the history makes of them.
* `Reachable.past_of_history`: every beginning of a history is the history of an earlier moment.
* `Reachable.perform`: an operation may also run alone, from its first call to its last.
-/

open scoped List

namespace MarketSignals

namespace Pipeline

/-- What may be asked of a pipeline. -/
inductive Operation where
  /-- Record a price. -/
  | record (bar : Bar)
  /-- Run the stage of an event. -/
  | handle (event : Event)
  /-- Run the stage of an event for the queue that delivered it. -/
  | deliver (event : Event)
  /-- Ask for the indicators of every active instrument. -/
  | refresh
  /-- Look up the latest price of a symbol. -/
  | latestPrice (symbol : String)
  /-- Look up the recent signals of a symbol. -/
  | recentSignals (symbol : String)
  /-- Drop history from before the retention time, counted back from a time. -/
  | prune (now : Timestamp)

/-- The process of an operation; its result is left out. -/
def Operation.process (config : Config) : Operation → Process Unit
  | .record bar => do let _ ← (recordPrice bar).run; pure ()
  | .handle event => do let _ ← (Pipeline.handle config event).run; pure ()
  | .deliver event => do let _ ← Pipeline.deliver config event; pure ()
  | .refresh => do let _ ← refreshActive.run; pure ()
  | .latestPrice symbol => do let _ ← (Pipeline.latestPrice symbol).run; pure ()
  | .recentSignals symbol => do let _ ← (Pipeline.recentSignals config symbol).run; pure ()
  | .prune now => do let _ ← (pruneHistory config now).run; pure ()

/-- An operation under way: what it did so far, and what is left. -/
structure Thread where
  /-- The exchanges it made, the first first. -/
  past : List Exchange
  /-- What is left to do. -/
  rest : Process Unit

/-- A pipeline at work. -/
structure Running where
  /-- The surroundings. -/
  world : World
  /-- The operations that were begun, those that are done included. -/
  threads : List Thread
  /-- Every exchange that was made, the first first. -/
  history : List Exchange

namespace Running

/-- A pipeline before its first operation. -/
def start (w : World) : Running :=
  ⟨w, [], []⟩

/-- One step of a pipeline at work. -/
inductive Step (config : Config) : Running → Running → Prop
  /-- An operation is begun. -/
  | begin (r : Running) (operation : Operation) :
      Step config r { r with threads := r.threads ++ [⟨[], operation.process config⟩] }
  /-- One of the operations makes its next call. -/
  | proceed (w : World) (before after : List Thread) (past history : List Exchange) (call : Call)
      (next : call.Answer → Process Unit) :
      Step config ⟨w, before ++ ⟨past, .call call next⟩ :: after, history⟩
        ⟨(w.answer call).2,
          before ++ ⟨past ++ [⟨call, (w.answer call).1⟩], next (w.answer call).1⟩ :: after,
          history ++ [⟨call, (w.answer call).1⟩]⟩
  /-- Failures are injected, and time passes. -/
  | disturb (r : Running) (faults : Faults) (clock : Clock) :
      Step config r { r with world := { r.world with faults, clock } }

/-- The states that a pipeline comes to from a world. -/
inductive Reachable (config : Config) (w : World) : Running → Prop
  | start : Reachable config w (start w)
  | next {r r' : Running} : Reachable config w r → Step config r r' → Reachable config w r'

/-- What the history of a pipeline at work tells about it. -/
structure Sound (config : Config) (w : World) (r : Running) : Prop where
  /-- The log is what was published. -/
  log : r.world.log = w.log ++ published r.history
  /-- The store is what the queries made of it. -/
  store : r.world.store = w.store.carryOut (stored r.history)
  /-- The history is a shuffle of what the operations did. -/
  shuffle : r.history.Perm (r.threads.flatMap Thread.past)
  /-- Every operation came to where it is by what it did. -/
  paths : ∀ thread ∈ r.threads, ∃ operation : Operation,
    Process.Path (operation.process config) thread.past thread.rest

variable {config : Config} {w : World} {r r' : Running}

/-- What one thread does next goes to the end of the shuffle. -/
theorem shuffle_snoc {history before past after : List Exchange} (x : Exchange)
    (h : history.Perm (before ++ (past ++ after))) :
    (history ++ [x]).Perm (before ++ (past ++ [x] ++ after)) := by
  have hmove : (after ++ [x]).Perm ([x] ++ after) := List.perm_append_comm
  calc history ++ [x]
      _ ~ before ++ (past ++ after) ++ [x] := h.append_right [x]
      _ ~ before ++ (past ++ ([x] ++ after)) := by
        simpa only [List.append_assoc] using (hmove.append_left past).append_left before
      _ ~ before ++ (past ++ [x] ++ after) := by rw [List.append_assoc]

/-- A step keeps the history true. -/
theorem Sound.step (h : Sound config w r) (hstep : Step config r r') : Sound config w r' := by
  cases hstep with
  | begin _ operation =>
      refine ⟨h.log, h.store, by simpa using h.shuffle, fun thread hthread => ?_⟩
      rcases List.mem_append.mp hthread with hold | hnew
      · exact h.paths thread hold
      · obtain rfl := List.mem_singleton.mp hnew
        exact ⟨operation, .refl _⟩
  | proceed v before after past history call next =>
      refine ⟨?_, ?_, ?_, fun thread hthread => ?_⟩
      · rw [World.log_answer, h.log, published_append, List.append_assoc]
      · rw [World.store_answer, h.store, stored_append, Store.carryOut_append]
      · have hshuffle : history.Perm (before.flatMap Thread.past ++
            (past ++ after.flatMap Thread.past)) := by simpa using h.shuffle
        simpa using shuffle_snoc ⟨call, (v.answer call).1⟩ hshuffle
      · obtain ⟨operation, hpath⟩ := h.paths ⟨past, .call call next⟩ (by simp)
        rcases List.mem_append.mp hthread with hold | hnew
        · exact h.paths thread (by simp [hold])
        · rcases List.mem_cons.mp hnew with rfl | hold
          · exact ⟨operation, hpath.snoc _⟩
          · exact h.paths thread (by simp [hold])
  | disturb => exact ⟨h.log, h.store, h.shuffle, h.paths⟩

theorem Reachable.sound (h : Reachable config w r) : Sound config w r := by
  induction h with
  | start => exact ⟨(List.append_nil _).symm, rfl, .nil, fun _ hthread => nomatch hthread⟩
  | next _ hstep ih => exact ih.step hstep

/-- Every beginning of a history is the history of an earlier moment. -/
theorem Reachable.past_of_history (h : Reachable config w r) {before : List Exchange}
    (hbefore : before <+: r.history) : ∃ earlier, Reachable config w earlier ∧
      earlier.history = before := by
  induction h with
  | start => exact ⟨_, .start, (List.prefix_nil.mp hbefore).symm⟩
  | @next r r' hr hstep ih =>
      by_cases hwhole : before = r'.history
      · exact ⟨r', hr.next hstep, hwhole.symm⟩
      · cases hstep with
        | begin _ | disturb _ _ => exact ih hbefore
        | proceed =>
            refine ih ((List.prefix_concat_iff.mp hbefore).resolve_left hwhole)

/-- The newest operation may go on alone to its end. -/
theorem Reachable.finish {v : World} {threads : List Thread} {past history : List Exchange}
    {p : Process Unit} (h : Reachable config w ⟨v, threads ++ [⟨past, p⟩], history⟩) :
    Reachable config w ⟨(v.after p).2, threads ++ [⟨past ++ v.trace p, .done (v.after p).1⟩],
      history ++ v.trace p⟩ := by
  induction p generalizing v past history with
  | done a => simpa [World.after, World.trace, Process.run, Process.trace] using h
  | call call next ih =>
      have hfinish := ih _ (h.next (.proceed v threads [] past history call next))
      simpa [World.after, World.trace, Process.run, Process.trace] using hfinish

/-- An operation may run alone, from its first call to its last. -/
theorem Reachable.perform (h : Reachable config w r) (operation : Operation) :
    Reachable config w
      ⟨(r.world.after (operation.process config)).2,
        r.threads ++ [⟨r.world.trace (operation.process config), .done ()⟩],
        r.history ++ r.world.trace (operation.process config)⟩ := by
  simpa using (h.next (.begin r operation)).finish

end Running

end Pipeline

end MarketSignals
