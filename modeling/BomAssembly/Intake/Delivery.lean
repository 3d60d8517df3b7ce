import BomAssembly.Failure
import BomAssembly.Intake.NewRequest

/-!
# Delivery of messages

What happens to a message: it is taken, or it is refused and may come again. A message that is not
for this system is taken and forgotten; one that cannot be read, or whose request cannot be stored,
is refused. Two counters say how many messages came and how many of those that are for this system
were taken.
-/

namespace BomAssembly.Intake

/-- Why a message is refused. -/
inductive Refusal where
  | unreadable
  | notStored (failure : Failure)
  deriving DecidableEq, Inhabited

/-- The refusal in words; what the reader of the payload said is left out. -/
def Refusal.message : Refusal → String
  | unreadable => "malformed payload"
  | notStored f => f.message

/-- What becomes of a message. -/
inductive Delivery where
  | taken
  | refused (why : Refusal)
  deriving DecidableEq, Inhabited

/-- A message as it arrives. -/
structure Message where
  type : Option String
  payload : String
  deriving DecidableEq, Inhabited

/-- How many messages there were. -/
structure Counters where
  received : Nat := 0
  processed : Nat := 0
  deriving DecidableEq, Inhabited

variable {σ : Type}

/-- What a readable notification comes to, given how a request is stored. -/
def settle (store : Request → σ → σ × Except Failure Unit) (request : Option Request) (s : σ) :
    σ × Delivery :=
  match request with
  | none => (s, .taken)
  | some r =>
    match store r s with
    | (s, .ok ()) => (s, .taken)
    | (s, .error e) => (s, .refused (.notStored e))

/-- Take or refuse a message. -/
def deliver (trigger : Trigger) (store : Request → σ → σ × Except Failure Unit) (draw : Draw)
    (m : Message) (s : σ) : σ × Delivery :=
  if Notification.Consumes m.type then
    match Notification.parse? m.type m.payload with
    | none => (s, .refused .unreadable)
    | some n => settle store (request? trigger draw n) s
  else (s, .taken)

/-- Count a message and what became of it. -/
def Counters.count (m : Message) (d : Delivery) (c : Counters) : Counters where
  received := c.received + 1
  processed :=
    if Notification.Consumes m.type ∧ d = .taken then c.processed + 1 else c.processed

end BomAssembly.Intake
