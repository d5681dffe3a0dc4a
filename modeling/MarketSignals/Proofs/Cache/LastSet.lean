import Mathlib.Data.Set.Card
import MarketSignals.Proofs.Cache.Kept

/-!
# The last value set

A cache answers by the last value that was set for a kind and a symbol, as long as that value lives
and its symbol was not invalidated since. Here this is said of the uses themselves, by what comes
after what in their list, and not by what the cache stores: an earlier value is of no account once a
later one was set, also where the later one has expired first.

The number of live entries goes over three maps of entries, each with names of its own. It is the
number of places whose query would be answered with a value.

## Main results

* `Cache.kept_eq_some_iff`: what is kept at a place is the last value set there.
* `Cache.encard_answered`: as many places are answered as the size of the cache says.
* `Cache.last_set_answered`: what every query is answered with after any uses.
-/

namespace MarketSignals

/-! ### The live entries of one kind -/

namespace Slots

variable {α : Type} {slots : Slots α} {instant : Nat}

/-- The symbols whose value is there at an instant. -/
def liveNames (slots : Slots α) (instant : Nat) : List String :=
  (slots.entries.filter fun entry => entry.2.isLive instant).map (·.1)

theorem nodup_liveNames : (slots.liveNames instant).Nodup :=
  slots.names_nodup.sublist (List.filter_sublist.map _)

theorem length_liveNames : (slots.liveNames instant).length = slots.size instant := by
  rw [liveNames, size, Keyed.values, List.length_map, List.countP_map, List.countP_eq_length_filter]
  rfl

/-- A value is there for exactly the live names. -/
theorem isSome_get?_iff {symbol : String} :
    (slots.get? instant symbol).isSome ↔ symbol ∈ slots.liveNames instant := by
  have hmem : symbol ∈ slots.liveNames instant ↔
      ∃ entry, Keyed.get? slots symbol = some entry ∧ entry.isLive instant := by
    simp [liveNames, Keyed.mem_entries_iff]
  rw [hmem, get?]
  cases Keyed.get? slots symbol with
  | none => simp
  | some entry => by_cases hlive : entry.isLive instant <;> simp [hlive]

end Slots

namespace Cache

/-! ### Answers -/

/-- What the query for an entry is answered with. -/
def look (c : Cache) (now : Nat) (symbol : String) : (kind : Kind) → Option kind.Value
  | .price => (c.ask now (.price symbol)).1
  | .snapshot => (c.ask now (.snapshot symbol)).1
  | .signals => (c.ask now (.signals symbol)).1

theorem look_eq (c : Cache) (now : Nat) (symbol : String) (kind : Kind) :
    c.look now symbol kind = (kind.slots c).get? now symbol := by
  cases kind <;> rfl

/-- The places of a kind that are answered with a value. -/
def livePlaces (c : Cache) (now : Nat) (kind : Kind) : List (Kind × String) :=
  ((kind.slots c).liveNames now).map (kind, ·)

theorem mem_livePlaces_iff {c : Cache} {now : Nat} {kind : Kind} {place : Kind × String} :
    place ∈ c.livePlaces now kind ↔
      place.1 = kind ∧ (c.look now place.2 place.1).isSome := by
  obtain ⟨kind', symbol⟩ := place
  rw [look_eq, Slots.isSome_get?_iff, livePlaces, List.mem_map]
  constructor
  · rintro ⟨_, hmem, heq⟩
    cases heq
    exact ⟨rfl, hmem⟩
  · rintro ⟨rfl, hmem⟩
    exact ⟨symbol, hmem, rfl⟩

/-- As many places are answered with a value as the size of the cache says. -/
theorem encard_answered (c : Cache) (now : Nat) :
    {place : Kind × String | (c.look now place.2 place.1).isSome}.encard = c.size now := by
  let places := c.livePlaces now .price ++ c.livePlaces now .snapshot ++ c.livePlaces now .signals
  have hset : {place : Kind × String | (c.look now place.2 place.1).isSome} =
      (places.toFinset : Set (Kind × String)) := by
    ext ⟨kind, symbol⟩
    cases kind <;> simp [places, mem_livePlaces_iff]
  have hone : ∀ kind, (c.livePlaces now kind).Nodup := fun kind =>
    Slots.nodup_liveNames.map fun _ _ => by simp
  have hnodup : places.Nodup := by
    simp only [places, List.nodup_append, hone, List.mem_append, mem_livePlaces_iff]
    grind
  have hlength : places.length = c.size now := by
    simp only [places, livePlaces, List.length_append, List.length_map, Slots.length_liveNames]
    rfl
  rw [hset, Set.encard_coe_eq_coe_finsetCard, List.toFinset_card_of_nodup hnodup, hlength]

/-! ### Values that are set -/

/-- A query sets a value for a symbol and a kind. -/
inductive Query.Sets (symbol : String) : Query → (kind : Kind) → kind.Value → Prop
  | price (bar : Bar) : bar.symbol = symbol → Sets symbol (.setPrice bar) .price bar
  | snapshot (s : Snapshot) : s.symbol = symbol → Sets symbol (.setSnapshot s) .snapshot s
  | signals (recent : List Signal) : Sets symbol (.setSignals symbol recent) .signals recent

/-- What is put under a condition is put where the condition holds. -/
theorem Effect.ite_eq_put_iff {α : Type} {p : Prop} [Decidable p] {value other : α} :
    (if p then .put value else .keep) = Effect.put other ↔ p ∧ value = other := by
  split <;> simp [*]

/-- Values are put at a place by setting them. -/
theorem Query.effect_eq_put_iff {query : Query} {symbol : String} {kind : Kind}
    {value : kind.Value} :
    query.effect symbol kind = .put value ↔ query.Sets symbol kind value := by
  constructor
  · intro h
    cases query with
    | price | snapshot | signals => cases kind <;> cases h
    | setPrice bar =>
        cases kind with
        | price =>
            obtain ⟨hsymbol, rfl⟩ := Effect.ite_eq_put_iff.mp h
            exact .price bar hsymbol
        | snapshot | signals => cases h
    | setSnapshot s =>
        cases kind with
        | snapshot =>
            obtain ⟨hsymbol, rfl⟩ := Effect.ite_eq_put_iff.mp h
            exact .snapshot s hsymbol
        | price | signals => cases h
    | setSignals name recent =>
        cases kind with
        | signals =>
            obtain ⟨rfl, rfl⟩ := Effect.ite_eq_put_iff.mp h
            exact .signals recent
        | price | snapshot => cases h
    | invalidate name => cases kind <;> simp only [effect] at h <;> split at h <;> cases h
  · rintro (⟨bar, hsymbol⟩ | ⟨s, hsymbol⟩ | recent) <;> simp [effect, *]

/-- A place is dropped by invalidating its symbol. -/
theorem Query.effect_eq_drop_iff {query : Query} {symbol : String} {kind : Kind} :
    query.effect symbol kind = .drop ↔ query = .invalidate symbol := by
  cases query <;> cases kind <;> simp [effect] <;> split <;> simp_all

/-- Queries that do not concern a place neither invalidate its symbol nor set a value there. -/
theorem Query.concerns_eq_false_iff {query : Query} {kind : Kind} {symbol : String} :
    query.concerns kind symbol = false ↔
      query ≠ .invalidate symbol ∧ ∀ value, ¬ query.Sets symbol kind value := by
  have hdrop : query ≠ .invalidate symbol ↔ query.effect symbol kind ≠ .drop :=
    not_congr effect_eq_drop_iff.symm
  rw [hdrop, concerns]
  simp only [← effect_eq_put_iff]
  cases query.effect symbol kind <;> simp

/-- A value was set at an instant, and since then neither was its symbol invalidated nor another
value set. -/
def LastSet (uses : List (Nat × Query)) (kind : Kind) (symbol : String) (start : Nat)
    (value : kind.Value) : Prop :=
  ∃ before query after, uses = before ++ (start, query) :: after ∧ query.Sets symbol kind value ∧
    ∀ use ∈ after, use.2 ≠ .invalidate symbol ∧ ∀ newer, ¬ use.2.Sets symbol kind newer

variable {uses : List (Nat × Query)} {kind : Kind} {symbol : String} {start : Nat}
  {value : kind.Value}

/-- The last value set is set by the last use, or was set before and outlasts it. -/
theorem lastSet_append_iff {use : Nat × Query} :
    LastSet (uses ++ [use]) kind symbol start value ↔
      use.1 = start ∧ use.2.Sets symbol kind value ∨
        LastSet uses kind symbol start value ∧ use.2 ≠ .invalidate symbol ∧
          ∀ newer, ¬ use.2.Sets symbol kind newer := by
  constructor
  · rintro ⟨before, query, after, huses, hsets, hafter⟩
    rcases List.eq_nil_or_concat after with rfl | ⟨front, last, rfl⟩
    · obtain ⟨-, hlast⟩ := List.append_inj' huses rfl
      cases hlast
      exact .inl ⟨rfl, hsets⟩
    · rw [List.concat_eq_append, ← List.cons_append, ← List.append_assoc] at huses
      obtain ⟨hfront, hlast⟩ := List.append_inj' huses rfl
      cases hlast
      rw [List.concat_eq_append, List.forall_mem_append] at hafter
      exact .inr ⟨⟨before, query, front, hfront, hsets, hafter.1⟩, hafter.2 _ (by simp)⟩
  · rintro (⟨rfl, hsets⟩ | ⟨⟨before, query, after, rfl, hsets, hafter⟩, hlast⟩)
    · exact ⟨uses, use.2, [], rfl, hsets, by simp⟩
    · refine ⟨before, query, after ++ [use], by simp, hsets, ?_⟩
      rw [List.forall_mem_append]
      exact ⟨hafter, by simpa using hlast⟩

/-- Uses that set nothing leave no other value the last one set. -/
theorem LastSet.of_append {more : List (Nat × Query)}
    (hmore : ∀ use ∈ more, ∀ value, ¬ use.2.Sets symbol kind value)
    (h : LastSet (uses ++ more) kind symbol start value) :
    LastSet uses kind symbol start value := by
  induction more using List.reverseRecOn with
  | nil => rwa [List.append_nil] at h
  | append_singleton more use ih =>
      rw [List.forall_mem_append] at hmore
      rw [← List.append_assoc, lastSet_append_iff] at h
      rcases h with ⟨-, hsets⟩ | ⟨hbefore, -⟩
      · exact absurd hsets (hmore.2 use (by simp) value)
      · exact ih hmore.1 hbefore

/-! ### What the last value set is good for -/

/-- What is kept at a place is the last value set there. -/
theorem kept_eq_some_iff :
    kept kind symbol uses = some (start, value) ↔ LastSet uses kind symbol start value := by
  induction uses using List.reverseRecOn with
  | nil => simp [LastSet]
  | append_singleton uses use ih =>
      rw [kept_append, lastSet_append_iff, ← ih, ← Query.concerns_eq_false_iff,
        ← Query.effect_eq_put_iff, Query.concerns]
      cases use.2.effect symbol kind <;> simp [Effect.on]

/-- A value is there as long as its lifetime is not over. -/
theorem liveOf_eq_some_iff {α : Type} {lifetime : Span} {now : Nat} {held : Option (Nat × α)}
    {value : α} : liveOf lifetime now held = some value ↔
      ∃ start, held = some (start, value) ∧ now < start + lifetime.nanos := by
  cases held with
  | none => simp [liveOf]
  | some entry =>
      simp only [liveOf]
      grind

/-- What a place is answered with after uses of a cache that was empty. -/
theorem look_carryOut_eq_some_iff {ttl : CacheTtl} {now : Nat} :
    (({ ttl } : Cache).carryOut uses).look now symbol kind = some value ↔
      ∃ start, LastSet uses kind symbol start value ∧
        now < start + (kind.lifetime ttl).nanos := by
  simp only [look_eq, get?_carryOut, liveOf_eq_some_iff, kept_eq_some_iff]

/-- **Every query is answered with the last value set.** After any uses of a cache with any
lifetimes, a query for a kind and a symbol is answered with a value exactly where that value was set
for them at some instant, no other value was set for them and the symbol was not invalidated since,
and the lifetime of the kind is not over. What is no longer there does not come back, nor does an
earlier value: nothing is answered before the next value is set, whatever else is done. And the size
of the cache is the number of kinds and symbols whose query is answered with a value. -/
theorem last_set_answered (ttl : CacheTtl) (uses : List (Nat × Query)) :
    let c := ({ ttl } : Cache).carryOut uses
    (∀ now symbol (kind : Kind) value, c.look now symbol kind = some value ↔
      ∃ start, LastSet uses kind symbol start value ∧
        now < start + (kind.lifetime ttl).nanos) ∧
    (∀ now symbol (kind : Kind), c.look now symbol kind = none → ∀ more later, now ≤ later →
      (∀ use ∈ more, ∀ value, ¬ use.2.Sets symbol kind value) →
      (c.carryOut more).look later symbol kind = none) ∧
    ∀ now, {place : Kind × String | (c.look now place.2 place.1).isSome}.encard = c.size now := by
  intro c
  refine ⟨fun now symbol kind value => look_carryOut_eq_some_iff, ?_, encard_answered c⟩
  intro now symbol kind hnone more later hlater hmore
  have hjoined : c.carryOut more = ({ ttl } : Cache).carryOut (uses ++ more) :=
    List.foldl_append.symm
  rw [Option.eq_none_iff_forall_ne_some]
  intro value hvalue
  rw [hjoined, look_carryOut_eq_some_iff] at hvalue
  obtain ⟨start, hset, hlive⟩ := hvalue
  have hstill : c.look now symbol kind = some value :=
    look_carryOut_eq_some_iff.mpr ⟨start, hset.of_append hmore, Nat.lt_of_le_of_lt hlater hlive⟩
  rw [hnone] at hstill
  cases hstill

/-- A bar of a symbol. -/
def olderBar : Bar :=
  ⟨"AAPL", "NASDAQ", 10, 11, 9, 10, 1000, 0, .epoch⟩

/-- Another bar of the symbol. -/
def newerBar : Bar :=
  { olderBar with close := 11 }

/-- The newer bar replaces the older one; what follows is about other places. -/
def overwritingUses : List (Nat × Query) :=
  [(0, .setPrice olderBar), (5, .setPrice newerBar), (6, .setSignals "AAPL" []),
    (7, .setSignals "MSFT" []), (8, .invalidate "MSFT")]

/-- The newer bar is there up to the end of its minute, then nothing is, and nothing will be until
the next bar is set; the signals of the symbol are the one entry that is left. -/
theorem last_set_answered_overwritten :
    let c := ({} : Cache).carryOut overwritingUses
    let more := [(60000000006, Query.setSignals "AAPL" []), (60000000007, .price "AAPL")]
    c.look 60000000004 "AAPL" .price = some newerBar ∧
      c.look 60000000005 "AAPL" .price = none ∧
      (c.carryOut more).look 60000000008 "AAPL" .price = none ∧
      {place : Kind × String | (c.look 60000000005 place.2 place.1).isSome}.encard = 1 := by
  intro c more
  obtain ⟨hanswered, hgone, hsize⟩ := last_set_answered {} overwritingUses
  have hset : LastSet overwritingUses .price "AAPL" 5 newerBar := by
    have hafter : ∀ use ∈ overwritingUses.drop 2, use.2.concerns .price "AAPL" = false := by
      decide +kernel
    exact ⟨[(0, .setPrice olderBar)], .setPrice newerBar, overwritingUses.drop 2, rfl,
      .price _ rfl, fun use huse => Query.concerns_eq_false_iff.mp (hafter use huse)⟩
  have hnone : c.look 60000000005 "AAPL" .price = none := by decide +kernel
  have hone : c.size 60000000005 = 1 := by decide +kernel
  have hmore : ∀ use ∈ more, ∀ value, ¬ use.2.Sets "AAPL" .price value := by
    have hleft : ∀ use ∈ more, use.2.concerns .price "AAPL" = false := by decide +kernel
    exact fun use huse => (Query.concerns_eq_false_iff.mp (hleft use huse)).2
  refine ⟨(hanswered _ _ _ _).mpr ⟨5, hset, by decide⟩, hnone, ?_, ?_⟩
  · exact hgone _ _ _ hnone more _ (by decide) hmore
  · rw [hsize, hone, Nat.cast_one]

end Cache

end MarketSignals
