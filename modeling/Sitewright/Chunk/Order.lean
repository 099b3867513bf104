import Sitewright.Fault

/-!
# Orders under links

Items that name the items they follow are put into an order one by one: of the items whose
predecessors are all placed, the first in the list comes next. Each item counts its links to items
that are not placed yet, and it is ready when none is left. If the placing ends early, the unplaced
items that lie on a circle are found by dropping, over and over, those that no other unplaced item
follows.
-/

namespace Sitewright.LinkOrder

/-- The position of the last item with a name. -/
def position? (names : List String) (name : String) : Option Nat :=
  (names.zipIdx.reverse.find? fun e => e.1 = name).map (·.2)

def target (fileType : FileType) (names : List String) (name link : String) : Outcome Nat :=
  match position? names link with
  | some p => .ok p
  | none => .error (.unresolvedLink name link fileType)

def predecessors (fileType : FileType) (items : List (String × List String)) :
    Outcome (List (List Nat)) :=
  items.mapM fun item => item.2.mapM (target fileType (items.map (·.1)) item.1)

def before (preds : List (List Nat)) (i : Nat) : List Nat := preds.getD i []

/-- The items that follow an item, each as often as it names it. -/
def followers (preds : List (List Nat)) (i : Nat) : List Nat :=
  (List.range preds.length).flatMap fun j => List.replicate ((before preds j).count i) j

structure Placing where
  /-- For each item, the number of its links to items that are not placed yet. -/
  pending : List Nat
  /-- The unplaced items that have no such link. -/
  ready : List Nat
  order : List Nat
  deriving Repr, DecidableEq, Inhabited

namespace Placing

def start (preds : List (List Nat)) : Placing :=
  let pending := preds.map (·.length)
  { pending
    ready := (List.range preds.length).filter fun i => pending.getD i 0 = 0
    order := [] }

/-- Settle one pending link of an item, which becomes ready with its last one. -/
def settle (s : Placing) (i : Nat) : Placing :=
  let left := s.pending.getD i 0 - 1
  { s with pending := s.pending.set i left, ready := if left = 0 then i :: s.ready else s.ready }

def take (s : Placing) (i : Nat) : Placing :=
  { s with ready := s.ready.erase i, order := s.order ++ [i] }

/-- Place a ready item, and settle the links to it. -/
def place (preds : List (List Nat)) (s : Placing) (i : Nat) : Placing :=
  (followers preds i).foldl settle (s.take i)

/-- Place up to `count` more items, each time the first of those that are ready. -/
def run (preds : List (List Nat)) : Nat → Placing → Placing
  | 0, s => s
  | count + 1, s =>
    match s.ready.min? with
    | none => s
    | some i => run preds count (s.place preds i)

end Placing

/-- The state in which no more items can be placed. No item is placed twice, so there are no more
steps than items. -/
def placing (preds : List (List Nat)) : Placing :=
  Placing.run preds preds.length (Placing.start preds)

def withFollowers (preds : List (List Nat)) (remaining : List Nat) : List Nat :=
  remaining.filter fun i => remaining.any fun j => (before preds j).contains i

/-- Drop items without followers `count` times. -/
def prune (preds : List (List Nat)) : Nat → List Nat → List Nat
  | 0, remaining => remaining
  | count + 1, remaining => prune preds count (withFollowers preds remaining)

def onCircle (preds : List (List Nat)) : List Nat :=
  prune preds preds.length
    ((List.range preds.length).filter fun i => 0 < (placing preds).pending.getD i 0)

/-- The positions of the items in an order in which each follows the items it names. -/
def resolve (fileType : FileType) (items : List (String × List String)) : Outcome (List Nat) := do
  let preds ← predecessors fileType items
  let order := (placing preds).order
  if order.length < items.length then
    .error (.linkCycle fileType ((onCircle preds).filterMap fun i => (items[i]?).map (·.1)))
  else .ok order

end Sitewright.LinkOrder
