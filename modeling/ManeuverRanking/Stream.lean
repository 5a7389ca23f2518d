/-!
The six input streams of a drive, and one value for each of them.
-/

namespace ManeuverRanking

inductive Stream where
  | transforms
  | odometry
  | objects
  | acceleration
  | steering
  | plan
  deriving DecidableEq, Repr

namespace Stream

def all : List Stream :=
  [transforms, odometry, objects, acceleration, steering, plan]

def name : Stream → String
  | transforms => "tf"
  | odometry => "odometry"
  | objects => "objects"
  | acceleration => "acceleration"
  | steering => "steering"
  | plan => "trajectory"

def ofName? (text : String) : Option Stream :=
  all.find? fun stream => stream.name = text

theorem mem_all (stream : Stream) : stream ∈ all := by
  cases stream <;> simp [all]

end Stream

structure PerStream (family : Stream → Type) where
  transforms : family .transforms
  odometry : family .odometry
  objects : family .objects
  acceleration : family .acceleration
  steering : family .steering
  plan : family .plan

namespace PerStream

variable {family target : Stream → Type}

def get (values : PerStream family) : (stream : Stream) → family stream
  | .transforms => values.transforms
  | .odometry => values.odometry
  | .objects => values.objects
  | .acceleration => values.acceleration
  | .steering => values.steering
  | .plan => values.plan

def ofFn (value : (stream : Stream) → family stream) : PerStream family :=
  ⟨value .transforms, value .odometry, value .objects, value .acceleration, value .steering,
    value .plan⟩

def set (values : PerStream family) : (stream : Stream) → family stream → PerStream family
  | .transforms, value => { values with transforms := value }
  | .odometry, value => { values with odometry := value }
  | .objects, value => { values with objects := value }
  | .acceleration, value => { values with acceleration := value }
  | .steering, value => { values with steering := value }
  | .plan, value => { values with plan := value }

def map (change : (stream : Stream) → family stream → target stream)
    (values : PerStream family) : PerStream target :=
  ofFn fun stream => change stream (values.get stream)

def toList {β : Type} (read : (stream : Stream) → family stream → β)
    (values : PerStream family) : List β :=
  Stream.all.map fun stream => read stream (values.get stream)

@[simp] theorem get_ofFn (value : (stream : Stream) → family stream) (stream : Stream) :
    (ofFn value).get stream = value stream := by
  cases stream <;> rfl

@[simp] theorem get_map (change : (stream : Stream) → family stream → target stream)
    (values : PerStream family) (stream : Stream) :
    (values.map change).get stream = change stream (values.get stream) := by
  simp [map]

@[simp] theorem get_set_same (values : PerStream family) (stream : Stream)
    (value : family stream) : (values.set stream value).get stream = value := by
  cases stream <;> rfl

theorem get_set_other (values : PerStream family) {stream other : Stream}
    (value : family stream) (distinct : other ≠ stream) :
    (values.set stream value).get other = values.get other := by
  cases stream <;> cases other <;> simp_all [get, set]

@[ext] theorem ext_get {left right : PerStream family}
    (agree : ∀ stream, left.get stream = right.get stream) : left = right := by
  have transforms := agree .transforms
  have odometry := agree .odometry
  have objects := agree .objects
  have acceleration := agree .acceleration
  have steering := agree .steering
  have plan := agree .plan
  cases left
  cases right
  simp_all [get]

end PerStream

end ManeuverRanking
