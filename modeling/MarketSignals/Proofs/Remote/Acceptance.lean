import MarketSignals.Proofs.Indicator.UnitInterval
import MarketSignals.Proofs.Pipeline.Calm
import MarketSignals.Proofs.Text.Trimmed
import MarketSignals.Remote.Service

/-!
# Which replies are accepted

A decision of the remote service is taken over from a reply that is valid in every respect, and from
no other: it arrived as a whole with a status of success, it can be read, it is about the instrument
that was asked about, it spells an action, and its confidence is a number from zero to one. Whatever
else an exchange ends with is an error of the source, and the rules decide.

## Main results

* `Action.ofText_eq_ok_iff`: which texts stand for an action.
* `ServiceReply.decide_eq_ok_iff`: which replies are decisions on a request.
* `RemoteService.decision_eq_ok_iff`: which exchanges end with a decision.
* `remote_accepted_iff`: where the decision of the remote service is taken over, and which one is
  made elsewhere.
-/

namespace MarketSignals

open Series (InUnit)

/-! ### Texts that spell an action -/

/-- A text spells an action: the name of the action in any ASCII case, with blanks around it. -/
def Action.SpelledBy (action : Action) (text : String) : Prop :=
  ∃ front core back, text.toList = front ++ core ++ back ∧
    (∀ c ∈ front, Text.isBlank c = true) ∧ (∀ c ∈ back, Text.isBlank c = true) ∧
    Text.lowerCase core = Text.lowerCase action.name.toList

namespace Action

theorem upperCase_name (action : Action) :
    Text.upperCase action.name.toList = action.name.toList := by
  cases action <;> decide

theorem isBlank_eq_false_of_mem_name (action : Action) :
    ∀ c ∈ action.name.toList, Text.isBlank c = false := by
  have hname : action.name.toList.all (fun c => !Text.isBlank c) = true := by
    cases action <;> decide
  simpa using hname

theorem ofName?_eq_some_iff {text : String} {action : Action} :
    ofName? text = some action ↔ text = action.name := by
  constructor
  · intro h
    unfold ofName? at h
    split at h <;> cases h <;> rfl
  · rintro rfl
    exact ofName?_name action

/-- A text spells an action where it is the action's name once it is trimmed and in upper case. -/
theorem spelledBy_iff {action : Action} {text : String} :
    action.SpelledBy text ↔ Text.upperCase (Text.trim text.toList) = action.name.toList := by
  have hname : ∀ c ∈ Text.upperCase action.name.toList, Text.isBlank c = false := by
    rw [upperCase_name]
    exact isBlank_eq_false_of_mem_name action
  rw [SpelledBy, Text.spells_iff hname, ← Text.upperCase_eq_iff, upperCase_name]

/-- A text stands for an action exactly where it spells it. -/
theorem ofText_eq_ok_iff {text : String} {action : Action} :
    ofText text = .ok action ↔ action.SpelledBy text := by
  rw [spelledBy_iff, ← String.ofList_inj, String.ofList_toList, ← ofName?_eq_some_iff, ofText]
  cases ofName? (String.ofList (Text.upperCase (Text.trim text.toList))) with
  | none => simp
  | some found => simp

end Action

/-! ### Replies -/

namespace ServiceReply

/-- A reply is a decision on a request: it is about the instrument of the request, it spells the
action, and its confidence is a number from zero to one. -/
structure Valid (reply : ServiceReply) (request : DecisionRequest) (action : Action) : Prop where
  symbol : reply.symbol = request.symbol
  action : action.SpelledBy reply.decision
  confidence : InUnit reply.confidence

/-- The decision of the service that a reply with an action makes on a request. -/
def accepted (reply : ServiceReply) (request : DecisionRequest) (action : Action)
    (now : Timestamp) : Decision :=
  ⟨request.symbol, action, reply.confidence, reply.reasoning, .remote, now⟩

/-- A reply makes a decision on a request exactly where it is valid. -/
theorem decide_eq_ok_iff {reply : ServiceReply} {request : DecisionRequest} {now : Timestamp}
    {d : Decision} : reply.decide request now = .ok d ↔
      ∃ action, reply.Valid request action ∧ d = reply.accepted request action now := by
  constructor
  · intro h
    unfold decide at h
    split at h
    · cases h
    · rename_i hsymbol
      cases haction : Action.ofText reply.decision with
      | error name =>
          rw [haction] at h
          cases h
      | ok action =>
          rw [haction] at h
          dsimp only at h
          split at h
          · rename_i hconfidence
            cases h
            exact ⟨action, ⟨not_not.mp hsymbol, Action.ofText_eq_ok_iff.mp haction, hconfidence⟩,
              rfl⟩
          · cases h
  · rintro ⟨action, hvalid, rfl⟩
    rw [decide, if_neg (not_not.mpr hvalid.symbol), Action.ofText_eq_ok_iff.mpr hvalid.action]
    exact if_pos hvalid.confidence

end ServiceReply

/-! ### Exchanges -/

/-- An exchange ended with a reply: it arrived as a whole, with a status of success, and its body
denotes the reply. -/
def HttpOutcome.Replies (outcome : HttpOutcome) (reply : ServiceReply) : Prop :=
  ∃ status bytes, outcome = .replied status (.complete bytes) ∧ 200 ≤ status.code ∧
    status.code < 300 ∧
    (Json.readBytes? (RemoteService.bodyBytes status bytes)).bind ServiceReply.ofJson? = some reply

namespace RemoteService

variable {service : RemoteService} {unreadable : String} {request : DecisionRequest}
  {now : Timestamp} {outcome : HttpOutcome} {reply : ServiceReply}

/-- Where an exchange ended with a reply, the reply decides. -/
theorem decision_of_replies (h : outcome.Replies reply) :
    service.decision unreadable request now outcome = reply.decide request now := by
  obtain ⟨status, bytes, rfl, hlow, hhigh, hread⟩ := h
  have hsuccess : status.isSuccess = true := by simp [HttpStatus.isSuccess, hlow, hhigh]
  simp only [decision, hsuccess, Bool.not_true, Bool.false_eq_true, if_false, hread]

/-- Where it did not, there is an error. -/
theorem decision_of_no_reply (h : ∀ reply, ¬ outcome.Replies reply) :
    ∃ e, service.decision unreadable request now outcome = .error e := by
  cases outcome with
  | failed reason => exact ⟨_, rfl⟩
  | timedOut => exact ⟨_, rfl⟩
  | replied status body =>
      cases hsuccess : status.isSuccess with
      | false =>
          simp only [decision, hsuccess, Bool.not_false, if_true]
          exact ⟨_, rfl⟩
      | true =>
          have hcode : 200 ≤ status.code ∧ status.code < 300 := by
            simpa [HttpStatus.isSuccess] using hsuccess
          simp only [decision, hsuccess, Bool.not_true, Bool.false_eq_true, if_false]
          cases body with
          | unfinished => exact ⟨_, rfl⟩
          | complete bytes =>
              dsimp only
              cases hread : (Json.readBytes? (bodyBytes status bytes)).bind
                  ServiceReply.ofJson? with
              | none => exact ⟨_, rfl⟩
              | some reply =>
                  exact absurd ⟨status, bytes, rfl, hcode.1, hcode.2, hread⟩ (h reply)

/-- An exchange ends with a decision exactly where it ends with a valid reply. -/
theorem decision_eq_ok_iff {d : Decision} :
    service.decision unreadable request now outcome = .ok d ↔
      ∃ reply action, outcome.Replies reply ∧ reply.Valid request action ∧
        d = reply.accepted request action now := by
  constructor
  · intro h
    by_cases hreply : ∃ reply, outcome.Replies reply
    · obtain ⟨reply, hreply⟩ := hreply
      rw [decision_of_replies hreply] at h
      obtain ⟨action, hvalid, rfl⟩ := ServiceReply.decide_eq_ok_iff.mp h
      exact ⟨reply, action, hreply, hvalid, rfl⟩
    · obtain ⟨e, he⟩ : ∃ e, service.decision unreadable request now outcome = .error e :=
        decision_of_no_reply (not_exists.mp hreply)
      rw [h] at he
      cases he
  · rintro ⟨reply, action, hreply, hvalid, rfl⟩
    rw [decision_of_replies hreply]
    exact ServiceReply.decide_eq_ok_iff.mpr ⟨action, hvalid, rfl⟩

/-- The time that the service gives does not matter. -/
theorem decision_of_other_timestamp {outcome' : HttpOutcome} (timestamp : Option String)
    (h : outcome.Replies reply) (h' : outcome'.Replies { reply with timestamp }) :
    service.decision unreadable request now outcome' =
      service.decision unreadable request now outcome := by
  rw [decision_of_replies h, decision_of_replies h']
  rfl

end RemoteService

/-! ### Decisions -/

namespace Pipeline

/-- What a source decides is taken over, under the origin of the source. -/
theorem after_decide_of_ok {w : World} {source : DecisionSource} {request : DecisionRequest}
    {d : Decision} (hprimary : w.primary = some source)
    (h : (source.answer w.asked w.clock.now request).result = .ok d) :
    (w.after (decide request)).1 = { d with source := source.origin } := by
  obtain ⟨metrics, read, hdecide⟩ := after_decide w request
  simp only [hdecide, World.decisionOn, hprimary, h]

/-- Where a source fails, the rules decide. -/
theorem after_decide_of_error {w : World} {source : DecisionSource} {request : DecisionRequest}
    {e : DecisionError} (hprimary : w.primary = some source)
    (h : (source.answer w.asked w.clock.now request).result = .error e) :
    (w.after (decide request)).1 = Rules.decide request w.clock.tick.now := by
  obtain ⟨metrics, read, hdecide⟩ := after_decide w request
  simp only [hdecide, World.decisionOn, hprimary, h]

/-- **Only a valid reply makes a decision of the remote service.** Take the service as the primary
source, whatever its exchanges end with: no reply, time that is up, or any status with any body. The
decision on a request is one of the service exactly where the exchange ends with a reply that is
valid. It is about the request's instrument then, with the action that the reply spells, and with
its confidence and its reasons, and it is made at the local time; the time that the service gives
makes no difference. In every other case the source fails and the rules decide. -/
theorem remote_accepted_iff (service : RemoteService) (unreadable : String)
    (exchange : List DecisionRequest → DecisionRequest → HttpOutcome × Float) (w : World)
    (request : DecisionRequest) :
    let source := service.source unreadable exchange
    let outcome := (exchange w.asked request).1
    let decided := (World.after { w with primary := some source } (decide request)).1
    (decided.source = .remote ↔
      ∃ reply action, outcome.Replies reply ∧ reply.Valid request action) ∧
    (∀ reply action, outcome.Replies reply → reply.Valid request action →
      service.decision unreadable request w.clock.now outcome =
        .ok (reply.accepted request action w.clock.now) ∧
      decided = reply.accepted request action w.clock.now) ∧
    ((¬ ∃ reply action, outcome.Replies reply ∧ reply.Valid request action) →
      (∃ e, service.decision unreadable request w.clock.now outcome = .error e) ∧
      decided = Rules.decide request w.clock.tick.now) ∧
    ∀ reply timestamp outcome', outcome.Replies reply →
      outcome'.Replies { reply with timestamp } →
      service.decision unreadable request w.clock.now outcome' =
        service.decision unreadable request w.clock.now outcome := by
  intro source outcome decided
  let w' : World := { w with primary := some source }
  have hprimary : w'.primary = some source := rfl
  have hanswer : (source.answer w'.asked w'.clock.now request).result =
      service.decision unreadable request w.clock.now outcome := rfl
  have hvalid : ∀ reply action, outcome.Replies reply → reply.Valid request action →
      service.decision unreadable request w.clock.now outcome =
        .ok (reply.accepted request action w.clock.now) ∧
      decided = reply.accepted request action w.clock.now := by
    intro reply action hreply hvalid
    have hok : service.decision unreadable request w.clock.now outcome =
        .ok (reply.accepted request action w.clock.now) :=
      RemoteService.decision_eq_ok_iff.mpr ⟨reply, action, hreply, hvalid, rfl⟩
    exact ⟨hok, after_decide_of_ok hprimary (hanswer.trans hok)⟩
  have hother : (¬ ∃ reply action, outcome.Replies reply ∧ reply.Valid request action) →
      (∃ e, service.decision unreadable request w.clock.now outcome = .error e) ∧
      decided = Rules.decide request w.clock.tick.now := by
    intro hnone
    cases hresult : service.decision unreadable request w.clock.now outcome with
    | ok d =>
        obtain ⟨reply, action, hreply, hvalid, -⟩ := RemoteService.decision_eq_ok_iff.mp hresult
        exact absurd ⟨reply, action, hreply, hvalid⟩ hnone
    | error e => exact ⟨⟨e, rfl⟩, after_decide_of_error hprimary (hanswer.trans hresult)⟩
  refine ⟨⟨fun hremote => ?_, ?_⟩, hvalid, hother, fun _ timestamp _ =>
    RemoteService.decision_of_other_timestamp timestamp⟩
  · by_contra hnone
    rw [(hother hnone).2] at hremote
    cases hremote
  · rintro ⟨reply, action, hreply, haccepted⟩
    rw [(hvalid reply action hreply haccepted).2]
    rfl

/-- A reply without reasons, whose action is in mixed case and between blanks. -/
def mixedCaseReply : ServiceReply :=
  ⟨"AAPL", "\u00a0bUy\n", 1, [], some "never"⟩

/-- The document of the reply. -/
def mixedCaseDocument : Json :=
  .ofFields [("symbol", .ofText "AAPL"), ("decision", .ofText "\u00a0bUy\n"),
    ("confidence", .ofNat 1), ("timestamp", .ofText "never")]

/-- An exchange that ends with the reply. -/
def mixedCaseOutcome : HttpOutcome :=
  .replied ⟨200⟩ (.complete mixedCaseDocument.text.toUTF8)

/-- A request about the instrument of the reply. -/
def neutralQuestion : DecisionRequest :=
  .ofBar ⟨"AAPL", "NASDAQ", 10, 11, 9, 10, 1000, 0, .epoch⟩
    ⟨"AAPL", ⟨50, ⟨0, 0, 0⟩, 10, 10, 10, 10, ⟨10, 10, 10⟩, ⟨50, 50⟩, -50, 0, 0⟩, 50, .epoch⟩

/-- The reply is valid and makes a decision of the service. -/
theorem remote_accepted_iff_mixed_case :
    let source := RemoteService.source ⟨"decisions", .ofSeconds 30⟩ ""
      fun _ _ => (mixedCaseOutcome, 0.1)
    let w : World := { primary := some source, clock := { readings := fun _ => .epoch } }
    mixedCaseOutcome.Replies mixedCaseReply ∧ mixedCaseReply.Valid neutralQuestion .buy ∧
      (w.after (decide neutralQuestion)).1 = ⟨"AAPL", .buy, 1, [], .remote, .epoch⟩ := by
  intro source w
  have hreplies : mixedCaseOutcome.Replies mixedCaseReply :=
    ⟨⟨200⟩, _, rfl, by decide, by decide, by decide +kernel⟩
  have hvalid : mixedCaseReply.Valid neutralQuestion .buy :=
    ⟨rfl, Action.spelledBy_iff.mpr (by decide +kernel), by decide +kernel⟩
  have haccepted := (remote_accepted_iff ⟨"decisions", .ofSeconds 30⟩ ""
    (fun _ _ => (mixedCaseOutcome, 0.1)) w neutralQuestion).2.1 mixedCaseReply .buy hreplies hvalid
  exact ⟨hreplies, hvalid, haccepted.2⟩

end Pipeline

end MarketSignals
