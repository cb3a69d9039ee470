import StreamQuery.Query.Basic
import Std.Data.HashSet

/-!
# Output of rows

A row that a query produces leaves at once, or is kept: one row per group, or all rows until they
are sorted. On their way out rows pass a window that skips some and ends at a limit.
-/

namespace StreamQuery

/-- A row with its ordering values and the key of its group. -/
structure OutputRecord where
  values : List Value
  sortKeys : List Value
  groupKey : String

/-! ### Ordering -/

/-- The order of two values under a key: null has its own place, whatever the direction. -/
def OrderKey.order (key : OrderKey) (a b : Value) : Ordering :=
  let nullBefore := if key.nullsFirst then Ordering.lt else .gt
  match a.isNull, b.isNull with
  | true, true => .eq
  | true, false => nullBefore
  | false, true => nullBefore.swap
  | false, false => if key.descending then (a.order b).swap else a.order b

/-- Whether one record may stand before another under the key with an index. -/
def OrderKey.admits (key : OrderKey) (index : Nat) (a b : OutputRecord) : Bool :=
  key.order ((a.sortKeys[index]?).getD .null) ((b.sortKeys[index]?).getD .null) != .gt

/-- Records sorted by the keys from an index on: stably by each key, the last one first. -/
def sortFrom (index : Nat) (keys : List OrderKey) (records : List OutputRecord) :
    List OutputRecord :=
  match keys with
  | [] => records
  | key :: rest => (sortFrom (index + 1) rest records).mergeSort (key.admits index)

/-- Records sorted by keys; equal ones keep their order. -/
def sortRecords (keys : List OrderKey) (records : List OutputRecord) : List OutputRecord :=
  sortFrom 0 keys records

/-! ### The window -/

/-- How many rows are still to be skipped, how many were written, and how many may be. -/
structure Window where
  limit : Option Nat
  toSkip : Nat
  written : Nat := 0
  deriving DecidableEq, Repr

namespace Window

/-- Whether the limit is reached. -/
def isDone (window : Window) : Bool :=
  window.limit.any (· ≤ window.written)

/-- A row that passes the window, if it is not skipped. -/
def pass (values : List Value) (window : Window) : List (List Value) × Window :=
  match window.toSkip with
  | skip + 1 => ([], { window with toSkip := skip })
  | 0 => ([values], { window with written := window.written + 1 })

/-- The rows that pass the window until the limit is reached. -/
def drain (window : Window) : List OutputRecord → List (List Value) × Window
  | [] => ([], window)
  | record :: rest =>
    if window.isDone then ([], window)
    else
      let (first, window) := window.pass record.values
      let (others, window) := window.drain rest
      (first ++ others, window)

end Window

/-! ### Strategies -/

/-- What is kept of the rows so far. -/
inductive Kept where
  /-- Rows leave at once. -/
  | nothing
  /-- Rows leave at once when they are new. -/
  | keys (seen : Std.HashSet String)
  /-- All rows, or all new rows, the latest first. -/
  | rows (seen : Option (Std.HashSet String)) (latest : List OutputRecord)
  /-- The latest row of every group. -/
  | groups (records : List (String × OutputRecord))

/-- The output of a query so far. -/
structure Output where
  window : Window
  orderBy : List OrderKey
  kept : Kept

namespace Output

/-- The output of a query before its first row. -/
def ofQuery (query : Query) : Output :=
  { window := { limit := query.limit, toSkip := query.offset }
    orderBy := query.orderBy
    kept :=
      if query.groups && !query.selection.partials then .groups []
      else if !query.orderBy.isEmpty then
        .rows (if query.selection.distinct then some {} else none) []
      else if query.selection.distinct then .keys {}
      else .nothing }

/-- A row that leaves through the window. -/
def release (output : Output) (kept : Kept) (record : OutputRecord) :
    List (List Value) × Output :=
  let (rows, window) := output.window.pass record.values
  (rows, { output with window := window, kept := kept })

/-- Takes a row; the rows to write because of it. -/
def handle (record : OutputRecord) (output : Output) : List (List Value) × Output :=
  let key := tupleKey record.values
  match output.kept with
  | .nothing => output.release .nothing record
  | .keys seen =>
    if seen.contains key then ([], output) else output.release (.keys (seen.insert key)) record
  | .rows none latest => ([], { output with kept := .rows none (record :: latest) })
  | .rows (some seen) latest =>
    if seen.contains key then ([], output)
    else ([], { output with kept := .rows (some (seen.insert key)) (record :: latest) })
  | .groups records =>
    ([], { output with kept := .groups (insertEntry record.groupKey record records) })

/-- Whether the limit is reached. -/
def isDone (output : Output) : Bool :=
  output.window.isDone

/-- Whether no more rows are wanted: rows that are kept might still come first. -/
def isFull (output : Output) : Bool :=
  match output.kept with
  | .nothing => output.isDone
  | .keys _ => output.isDone
  | .rows _ _ => false
  | .groups _ => false

/-- The records that were kept, in order. -/
def records (output : Output) : List OutputRecord :=
  match output.kept with
  | .nothing => []
  | .keys _ => []
  | .rows _ latest => sortRecords output.orderBy latest.reverse
  | .groups records => sortRecords output.orderBy (records.map (·.2))

/-- Ends the output; the rows to write. -/
def finish (output : Output) : List (List Value) × Output :=
  let (rows, window) := output.window.drain output.records
  (rows, { output with window := window })

end Output

end StreamQuery
