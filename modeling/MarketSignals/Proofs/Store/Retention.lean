import MarketSignals.Proofs.Store.Queries

/-!
# What a store keeps

Queries never alter what a store holds. Signals stay for good; a bar stays in its series, and a
snapshot in its log, until a prune whose cutoff is later than its time; and what stays keeps its
order.

## Main results

* `Store.signalsOf_prefix`: the signals of a symbol only grow at the end.
* `Store.bars_sublist`: the bars that no prune reached are still in their series, in their order.
* `Store.snapshots_carryOut`: the snapshots that no prune reached, then those that were added.
-/

namespace MarketSignals

/-- An insertion leaves the bars that are there in their places. -/
theorem sublist_insertBar (bar : Bar) (bars : List Bar) : bars.Sublist (insertBar bar bars) := by
  induction bars with
  | nil => exact List.nil_sublist _
  | cons first rest ih =>
      rw [insertBar]
      split
      · exact List.sublist_cons_self _ _
      · split
        · exact List.Sublist.refl _
        · exact ih.cons_cons first

namespace Store

/-- Whether a query keeps what is of some time: a prune drops it where its cutoff is later. -/
def Query.spares (time : Timestamp) : Query → Bool
  | .prune cutoff => cutoff ≤ time
  | _ => true

/-- Whether queries all keep what is of some time. -/
def spared (queries : List Query) (time : Timestamp) : Bool :=
  queries.all (·.spares time)

/-- What is of some time is kept exactly where no prune has a later cutoff. -/
theorem spared_eq_false_iff {queries : List Query} {time : Timestamp} :
    spared queries time = false ↔ ∃ cutoff, .prune cutoff ∈ queries ∧ time < cutoff := by
  rw [spared, List.all_eq_false]
  constructor
  · rintro ⟨query, hquery, hlost⟩
    cases query with
    | prune cutoff => exact ⟨cutoff, hquery, by simpa [Query.spares, Timestamp.not_le] using hlost⟩
    | _ => simp [Query.spares] at hlost
  · rintro ⟨cutoff, hquery, hlost⟩
    exact ⟨_, hquery, by simpa [Query.spares, Timestamp.not_le] using hlost⟩

/-- The signals of a symbol only grow at the end. -/
theorem signalsOf_prefix (s : Store) (queries : List Query) (symbol : String) :
    s.signalsOf symbol <+: (s.carryOut queries).signalsOf symbol := by
  rw [signalsOf, signalsOf, signals_carryOut, List.filter_append]
  exact List.prefix_append _ _

/-- What one query leaves of a series is still there, in its order. -/
theorem bars_sublist_ask (s : Store) (query : Query) (symbol : String) :
    ((s.bars symbol).filter fun bar => query.spares bar.time).Sublist
      ((s.ask query).2.bars symbol) := by
  cases query with
  | appendPrice bar =>
      refine List.filter_sublist.trans ?_
      show (s.bars symbol).Sublist ((s.appendPrice bar).bars symbol)
      rw [bars_appendPrice]
      split
      · exact sublist_insertBar _ _
      · exact List.Sublist.refl _
  | prune cutoff =>
      show List.Sublist _ ((s.prune cutoff).bars symbol)
      rw [bars_prune]
      exact List.Sublist.refl _
  | _ => exact List.filter_sublist

/-- The bars that no prune reached are still in their series, in their order. -/
theorem bars_sublist (s : Store) (queries : List Query) (symbol : String) :
    ((s.bars symbol).filter fun bar => spared queries bar.time).Sublist
      ((s.carryOut queries).bars symbol) := by
  induction queries generalizing s with
  | nil => exact List.filter_sublist
  | cons query rest ih =>
      have hfirst := (bars_sublist_ask s query symbol).filter fun bar => spared rest bar.time
      rw [List.filter_filter] at hfirst
      refine List.Sublist.trans ?_ (ih (s.ask query).2)
      simpa only [spared, List.all_cons, Bool.and_comm] using hfirst

/-- The snapshot that a query adds. -/
def Query.snapshot? : Query → Option Snapshot
  | .appendSnapshot snapshot => some snapshot
  | _ => none

/-- One query drops snapshots or adds one at the end. -/
theorem snapshots_ask (s : Store) (query : Query) :
    (s.ask query).2.snapshots =
      (s.snapshots.filter fun snapshot => query.spares snapshot.computedAt) ++
        query.snapshot?.toList := by
  have hall : s.snapshots.filter (fun _ => true) = s.snapshots :=
    List.filter_eq_self.mpr fun _ _ => rfl
  cases query <;> simp [ask, Query.spares, Query.snapshot?, addInstrument, appendPrice,
    appendSnapshot, appendSignal, prune, hall]

/-- The log holds the snapshots that no prune reached, then snapshots that were added. -/
theorem snapshots_carryOut (s : Store) (queries : List Query) :
    ∃ added, (s.carryOut queries).snapshots =
        (s.snapshots.filter fun snapshot => spared queries snapshot.computedAt) ++ added ∧
      added.Sublist (queries.filterMap Query.snapshot?) := by
  induction queries generalizing s with
  | nil =>
      refine ⟨[], ?_, List.nil_sublist _⟩
      rw [List.append_nil]
      exact (List.filter_eq_self.mpr fun _ _ => rfl).symm
  | cons query rest ih =>
      obtain ⟨added, hadded, hsublist⟩ := ih (s.ask query).2
      let kept := query.snapshot?.toList.filter fun snapshot => spared rest snapshot.computedAt
      refine ⟨kept ++ added, ?_, ?_⟩
      · rw [carryOut_cons, hadded, snapshots_ask, List.filter_append, List.filter_filter,
          List.append_assoc]
        simp only [spared, List.all_cons, Bool.and_comm, kept]
      · have hkept : kept.Sublist query.snapshot?.toList := List.filter_sublist
        have hsplit : (query :: rest).filterMap Query.snapshot? =
            query.snapshot?.toList ++ rest.filterMap Query.snapshot? := by
          cases hquery : query.snapshot? <;> simp [hquery]
        rw [hsplit]
        exact hkept.append hsublist

end Store

end MarketSignals
