import MarketSignals.Database.Row

/-!
# Sessions with the database

Sending statements over a connection: in order, until one is refused. A connection first makes the
tables.
-/

namespace MarketSignals.Database

/-- A statement that was sent, and whether it was carried out. -/
structure Sent where
  /-- The statement. -/
  statement : Statement
  /-- Whether it was carried out. -/
  succeeded : Bool
deriving DecidableEq

/-- Sends statements in order until one is refused: the one of the given number, counted from one.
-/
def send (refused : Nat) : List Statement → List Sent
  | [] => []
  | statement :: rest =>
    if refused = 1 then [⟨statement, false⟩]
    else ⟨statement, true⟩ :: send (refused - 1) rest

/-- Whether all statements were carried out. -/
def allSucceeded (sent : List Sent) : Bool :=
  sent.all Sent.succeeded

/-- Why a statement is refused. -/
def refusal : StoreError :=
  .database "statement refused"

/-- What comes of making the tables, by the number of the statement that is refused, if any. -/
def connect (refused : Nat) : List Sent × Except StoreError Unit :=
  let sent := send refused schema
  (sent, if allSucceeded sent then .ok () else .error refusal)

/-- What comes of a query at a time over a connection, by the number of the statement that is
refused, if any, and by the rows that are returned. -/
def perform (isOpen : Bool) (refused : Nat) (now : Timestamp) (rows : List Row)
    (query : Store.Query) : List Sent × Except StoreError query.Answer :=
  if isOpen then
    let sent := send refused (statements now query)
    (sent, if allSucceeded sent then answerOf rows query else .error refusal)
  else ([], .error (.database "connection closed"))

end MarketSignals.Database
