import ManeuverRanking.Bisection
import ManeuverRanking.Fault

/-!
A window over the recent records of one stream, in the order of their time stamps. Stamps are kept
beside the records, and both ends of a query are found by halving.
-/

namespace ManeuverRanking

structure Stamped (β : Type) where
  stamp : Int
  value : β

structure Window (α β : Type) where
  key : β → Except (Fault α) Int
  /-- Nanoseconds the records must exceed to be ready. -/
  span : Nat
  stamps : Array Int
  records : Array (Stamped β)

namespace Window

variable {α β : Type}

def empty (key : β → Except (Fault α) Int) (span : Nat) : Window α β :=
  ⟨key, span, #[], #[]⟩

def create (key : β → Except (Fault α) Int) (span : Int) : Except (Fault α) (Window α β) :=
  if span < 0 then .error .windowSpan else .ok (empty key span.toNat)

def size (window : Window α β) : Nat :=
  window.records.size

def toList (window : Window α β) : List (Stamped β) :=
  window.records.toList

def mayFollow (window : Window α β) (stamp : Int) : Except (Fault α) Unit :=
  match window.stamps.back? with
  | some newest => if stamp < newest then .error (.outOfOrder stamp newest) else .ok ()
  | none => .ok ()

/-- Adds a value at the new end. Equal stamps keep the order of arrival. -/
def append (window : Window α β) (value : β) :
    Except (Fault α) (Window α β × Stamped β) := do
  let stamp ← window.key value
  window.mayFollow stamp
  let record : Stamped β := ⟨stamp, value⟩
  return ({ window with
    stamps := window.stamps.push stamp
    records := window.records.push record }, record)

def countEarly (window : Window α β) (early : Int → Bool) : Nat :=
  partitionPoint (fun position => window.stamps[position]?.any early) 0 window.stamps.size

def evictWhere (window : Window α β) (early : Int → Bool) : Window α β × Nat :=
  let count := window.countEarly early
  ({ window with
    stamps := window.stamps.extract count
    records := window.records.extract count }, count)

def evict (window : Window α β) (now : Int) : Window α β × Nat :=
  window.evictWhere fun stamp => decide (stamp < now)

def firstFrom (window : Window α β) (early : Int → Bool) : Option (Stamped β) :=
  window.records[window.countEarly early]?

def queryAfter (window : Window α β) (time : Int) : Option (Stamped β) :=
  window.firstFrom fun stamp => !decide (time < stamp)

def front (window : Window α β) : Except (Fault α) (Stamped β) :=
  match window.records[0]? with
  | some record => .ok record
  | none => .error .emptyWindow

def isReady (window : Window α β) : Bool :=
  -- Records that span exactly as much are not enough.
  match window.stamps[0]?, window.stamps.back? with
  | some oldest, some newest => decide ((window.span : Int) < newest - oldest)
  | _, _ => false

end Window

end ManeuverRanking
