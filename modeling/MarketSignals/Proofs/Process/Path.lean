import MarketSignals.Pipeline.Process

/-!
# Paths of a process

A process unfolds into the calls it makes and the answers it gets. A path is a finite stretch of
that unfolding, whoever answers: every run of a process, alone or among others, complete or cut
short, follows one. What is proved of all paths of a process therefore holds wherever it runs.

## Main results

* `path_bind`: a path of two processes in turn stays in the first or passes through its result.
* `Attempt.path_bind`: the same for attempts, where a failure of the first ends both.
* `path_run`: a process that runs alone follows the path it traces; `trace_bind`.
* `view_run`: what one call does to a view of the surroundings, the run does along its trace;
  `view_run_of_calls`: what no call changes, the run does not change.
* `Only.calls`: the calls that a process may make are the ones it makes on its paths.
-/

namespace MarketSignals

/-- A call together with the answer it got. -/
structure Exchange where
  /-- The call. -/
  call : Call
  /-- Its answer. -/
  answer : call.Answer

namespace Process

variable {α β σ : Type}

/-- `p.Path t q`: by the exchanges `t`, in this order, the process `p` comes to be `q`. -/
inductive Path : Process α → List Exchange → Process α → Prop
  | refl (p : Process α) : Path p [] p
  | step {c : Call} {next : c.Answer → Process α} {answer : c.Answer} {t : List Exchange}
      {q : Process α} : Path (next answer) t q → Path (.call c next) (⟨c, answer⟩ :: t) q

/-- A process that is done goes nowhere. -/
theorem Path.of_done {a : α} {t : List Exchange} {q : Process α} (h : Path (.done a) t q) :
    t = [] ∧ q = .done a := by
  cases h with
  | refl => exact ⟨rfl, rfl⟩

/-- Paths can be joined. -/
theorem Path.trans {p q r : Process α} {t u : List Exchange} (hpq : Path p t q)
    (hqr : Path q u r) : Path p (t ++ u) r := by
  induction hpq with
  | refl => exact hqr
  | step _ ih => exact .step (ih hqr)

/-- A path that has come to a call goes on with each answer to it. -/
theorem Path.snoc {p : Process α} {c : Call} {next : c.Answer → Process α} {t : List Exchange}
    (h : Path p t (.call c next)) (answer : c.Answer) :
    Path p (t ++ [⟨c, answer⟩]) (next answer) :=
  h.trans (.step (.refl _))

/-- Every exchange of a path is a call the process had come to, with the answer it went on with. -/
theorem Path.split {p q : Process α} {before after : List Exchange} {x : Exchange}
    (h : Path p (before ++ x :: after) q) :
    ∃ next, Path p before (.call x.call next) ∧ Path (next x.answer) after q := by
  induction before generalizing p with
  | nil =>
      cases h with
      | step hrest => exact ⟨_, .refl _, hrest⟩
  | cons y before ih =>
      cases h with
      | step hrest =>
          obtain ⟨next, hbefore, hafter⟩ := ih hrest
          exact ⟨next, .step hbefore, hafter⟩

/-- A path of two processes in turn stays in the first or passes through its result. -/
theorem path_bind {p : Process α} {f : α → Process β} {t : List Exchange} {q : Process β}
    (h : Path (p >>= f) t q) :
    (∃ p', Path p t p' ∧ q = (p' >>= f)) ∨
      ∃ t₁ t₂ a, t = t₁ ++ t₂ ∧ Path p t₁ (.done a) ∧ Path (f a) t₂ q := by
  induction p generalizing t with
  | done a => exact .inr ⟨[], t, a, rfl, .refl _, h⟩
  | call c next ih =>
      rw [call_bind] at h
      cases h with
      | refl => exact .inl ⟨_, .refl _, rfl⟩
      | step hrest =>
          rcases ih _ hrest with ⟨p', hp, rfl⟩ | ⟨t₁, t₂, a, rfl, hp, hf⟩
          · exact .inl ⟨p', .step hp, rfl⟩
          · exact .inr ⟨_ :: t₁, t₂, a, rfl, .step hp, hf⟩

/-- Two processes in turn come to a result through one of the first. -/
theorem path_bind_done {p : Process α} {f : α → Process β} {t : List Exchange} {b : β}
    (h : Path (p >>= f) t (.done b)) :
    ∃ t₁ t₂ a, t = t₁ ++ t₂ ∧ Path p t₁ (.done a) ∧ Path (f a) t₂ (.done b) := by
  rcases path_bind h with ⟨p', hp, hdone⟩ | hpassed
  · cases p' with
    | call c next => cases hdone
    | done a => exact ⟨t, [], a, (List.append_nil t).symm, hp, hdone ▸ .refl _⟩
  · exact hpassed

/-! ### Running alone -/

/-- The exchanges of a process that runs alone. -/
def trace (answer : σ → (call : Call) → call.Answer × σ) : Process α → σ → List Exchange
  | .done _, _ => []
  | .call c next, s => ⟨c, (answer s c).1⟩ :: (next (answer s c).1).trace answer (answer s c).2

/-- A process that runs alone follows the path it traces. -/
theorem path_run (answer : σ → (call : Call) → call.Answer × σ) (p : Process α) (s : σ) :
    Path p (p.trace answer s) (.done (p.run answer s).1) := by
  induction p generalizing s with
  | done a => exact .refl _
  | call c next ih => exact .step (ih _ _)

/-- The trace of two processes in turn is that of the first and then that of the second. -/
theorem trace_bind (answer : σ → (call : Call) → call.Answer × σ) (p : Process α)
    (f : α → Process β) (s : σ) :
    (p >>= f).trace answer s =
      p.trace answer s ++ (f (p.run answer s).1).trace answer (p.run answer s).2 := by
  induction p generalizing s with
  | done a => rfl
  | call c next ih => exact congrArg (_ :: ·) (ih _ _)

/-- What one call does to a view of the surroundings, the run does along its trace. -/
theorem view_run {ω : Type} (answer : σ → (call : Call) → call.Answer × σ) (view : σ → ω)
    (update : ω → List Exchange → ω) (hnil : ∀ v, update v [] = v)
    (hcons : ∀ v x t, update v (x :: t) = update (update v [x]) t)
    (hcall : ∀ s c, view (answer s c).2 = update (view s) [⟨c, (answer s c).1⟩])
    (p : Process α) (s : σ) :
    view (p.run answer s).2 = update (view s) (p.trace answer s) := by
  induction p generalizing s with
  | done a => exact (hnil _).symm
  | call c next ih =>
      rw [run, trace, hcons, ← hcall]
      exact ih _ _

/-- A view that none of the calls of a run changes is the same after the run. -/
theorem view_run_of_calls {ω : Type} (answer : σ → (call : Call) → call.Answer × σ) (view : σ → ω)
    {allowed : Call → Prop} (hkeep : ∀ s c, allowed c → view (answer s c).2 = view s)
    (p : Process α) (s : σ) (h : ∀ x ∈ p.trace answer s, allowed x.call) :
    view (p.run answer s).2 = view s := by
  induction p generalizing s with
  | done a => rfl
  | call c next ih =>
      rw [trace, List.forall_mem_cons] at h
      rw [run, ih _ _ h.2, hkeep s c h.1]

/-! ### Calls that a process may make -/

/-- Whatever it is answered, a process makes only calls of some kind. -/
def Only (allowed : Call → Prop) : Process α → Prop
  | .done _ => True
  | .call c next => allowed c ∧ ∀ answer, (next answer).Only allowed

theorem Only.bind {allowed : Call → Prop} {p : Process α} {f : α → Process β}
    (hp : p.Only allowed) (hf : ∀ a, (f a).Only allowed) : (p >>= f).Only allowed := by
  induction p with
  | done a => exact hf a
  | call c next ih => exact ⟨hp.1, fun answer => ih answer (hp.2 answer)⟩

theorem only_perform {allowed : Call → Prop} {c : Call} (hc : allowed c) :
    (perform c).Only allowed :=
  ⟨hc, fun _ => trivial⟩

/-- Wherever a process comes, it goes on to make only calls of its kind. -/
theorem Only.path {allowed : Call → Prop} {p q : Process α} {t : List Exchange}
    (hp : p.Only allowed) (h : Path p t q) : q.Only allowed := by
  induction h with
  | refl => exact hp
  | step _ ih => exact ih (hp.2 _)

/-- The calls that a process may make are the ones it makes on its paths. -/
theorem Only.calls {allowed : Call → Prop} {p q : Process α} {t : List Exchange}
    (hp : p.Only allowed) (h : Path p t q) : ∀ x ∈ t, allowed x.call := by
  induction h with
  | refl => simp
  | step _ ih =>
      rintro x (_ | ⟨_, hx⟩)
      · exact hp.1
      · exact ih (hp.2 _) x hx

end Process

namespace Attempt

variable {α β : Type}

/-- A path of two attempts in turn passes through a success of the first; or it stays in the first,
and if it ends there, it ends with the failure of the first. -/
theorem path_bind {x : Attempt α} {f : α → Attempt β} {t : List Exchange}
    {q : Process (Except PipelineError β)} (h : Process.Path (x >>= f).run t q) :
    (∃ p, Process.Path x.run t p ∧ ∀ r, q = .done r → ∃ e, r = .error e ∧ p = .done (.error e)) ∨
      ∃ t₁ t₂ a, t = t₁ ++ t₂ ∧ Process.Path x.run t₁ (.done (.ok a)) ∧
        Process.Path (f a).run t₂ q := by
  rcases Process.path_bind h with ⟨p, hp, rfl⟩ | ⟨t₁, t₂, r, rfl, hx, hf⟩
  · cases p with
    | call c next => exact .inl ⟨_, hp, fun r hr => by cases hr⟩
    | done r =>
        cases r with
        | error e => exact .inl ⟨_, hp, fun r hr => ⟨e, by cases hr; rfl, rfl⟩⟩
        | ok a => exact .inr ⟨t, [], a, by simp, hp, .refl _⟩
  · cases r with
    | ok a => exact .inr ⟨t₁, t₂, a, rfl, hx, hf⟩
    | error e =>
        obtain ⟨rfl, rfl⟩ := hf.of_done
        rw [List.append_nil]
        exact .inl ⟨_, hx, fun r hr => ⟨e, by cases hr; rfl, rfl⟩⟩

/-- Two attempts in turn succeed by a success of the first and then one of the second. -/
theorem path_bind_ok {x : Attempt α} {f : α → Attempt β} {t : List Exchange} {b : β}
    (h : Process.Path (x >>= f).run t (.done (.ok b))) :
    ∃ t₁ t₂ a, t = t₁ ++ t₂ ∧ Process.Path x.run t₁ (.done (.ok a)) ∧
      Process.Path (f a).run t₂ (.done (.ok b)) := by
  rcases path_bind h with ⟨p, -, hfailed⟩ | hpassed
  · obtain ⟨e, he, -⟩ := hfailed _ rfl
    cases he
  · exact hpassed

/-- A path of one call to a result is that call, with an answer that makes the result. -/
theorem path_call {c : Call} {g : c.Answer → Except PipelineError α} {t : List Exchange}
    {r : Except PipelineError α}
    (h : Process.Path (Process.perform c >>= fun answer => .done (g answer)) t (.done r)) :
    ∃ answer, t = [⟨c, answer⟩] ∧ g answer = r := by
  cases h with
  | @step _ _ answer _ _ hrest =>
      obtain ⟨rfl, hresult⟩ := hrest.of_done
      exact ⟨answer, rfl, (Process.done.inj hresult).symm⟩

/-- What is told to the metrics first is told on every path that comes to a result. -/
theorem path_record_bind {observation : Observation} {f : Unit → Attempt α} {t : List Exchange}
    {r : Except PipelineError α}
    (h : Process.Path (record observation >>= f).run t (.done r)) :
    ∃ rest, t = [⟨.record observation, ()⟩] ++ rest ∧ Process.Path (f ()).run rest (.done r) := by
  cases h with
  | step hrest => exact ⟨_, rfl, hrest⟩

/-- The store is asked with success by the one call, answered with success. -/
theorem path_store_ok {query : Store.Query} {t : List Exchange} {a : query.Answer}
    (h : Process.Path (store query).run t (.done (.ok a))) : t = [⟨.store query, .ok a⟩] := by
  obtain ⟨answer, rfl, hresult⟩ := path_call h
  cases answer with
  | error e => cases hresult
  | ok b =>
      cases hresult
      rfl

/-- The cache is asked with success by the one call, answered with success. -/
theorem path_cache_ok {query : Cache.Query} {t : List Exchange} {a : query.Answer}
    (h : Process.Path (cache query).run t (.done (.ok a))) : t = [⟨.cache query, .ok a⟩] := by
  obtain ⟨answer, rfl, hresult⟩ := path_call h
  cases answer with
  | error e => cases hresult
  | ok b =>
      cases hresult
      rfl

/-- Whatever it is answered, an attempt makes only calls of some kind. -/
abbrev Only (allowed : Call → Prop) (x : Attempt α) : Prop :=
  Process.Only allowed x.run

variable {allowed : Call → Prop}

theorem only_bind {x : Attempt α} {f : α → Attempt β} (hx : Only allowed x)
    (hf : ∀ a, Only allowed (f a)) : Only allowed (x >>= f) := by
  refine Process.Only.bind hx fun r => ?_
  cases r with
  | ok a => exact hf a
  | error e => trivial

theorem only_pure (a : α) : Only allowed (pure a : Attempt α) :=
  trivial

theorem only_refuse (cause : Malformed) : Only allowed (refuse cause : Attempt α) :=
  trivial

theorem only_lift {p : Process α} (hp : p.Only allowed) : Only allowed (ExceptT.lift p) :=
  hp.bind fun _ => trivial

theorem only_store {query : Store.Query} (h : allowed (.store query)) :
    Only allowed (store query) :=
  (Process.only_perform h).bind fun _ => trivial

theorem only_cache {query : Cache.Query} (h : allowed (.cache query)) :
    Only allowed (cache query) :=
  (Process.only_perform h).bind fun _ => trivial

theorem only_publish {event : Event} (h : allowed (.publish event)) :
    Only allowed (publish event) :=
  (Process.only_perform h).bind fun _ => trivial

theorem only_record {observation : Observation} (h : allowed (.record observation)) :
    Only allowed (record observation) :=
  only_lift (Process.only_perform h)

theorem only_cachedPrice {symbol : String} (h : allowed (.cache (.price symbol))) :
    Only allowed (cachedPrice symbol) :=
  only_lift ((Process.only_perform h).bind fun _ => trivial)

theorem only_cachedSignals {symbol : String} (h : allowed (.cache (.signals symbol))) :
    Only allowed (cachedSignals symbol) :=
  only_lift ((Process.only_perform h).bind fun _ => trivial)

end Attempt

end MarketSignals
