import ProcessTest.Run.Backend
import ProcessTest.Store

/-!
# A simulated system

The store behind calls that take time.  Time is virtual: it passes only in waits and calls, and
jumps to their ends; what the store sees nothing of takes no time.  A call that is abandoned at a
deadline takes effect at its own time, while the run goes on.  Mishaps can be scheduled, and answers
to requests.

* `Simulation.backend`, `Simulation.timed` — the simulated system as a run sees it.
* `Simulation.settle` — lets all abandoned calls take effect.
-/

set_option autoImplicit false

namespace ProcessTest

/-- What happens to a call instead of its effect. -/
inductive Mishap where
  | refuse (message : String)
  /-- The call breaks off without an answer. -/
  | abort
  deriving DecidableEq

/-- An abandoned call and the time at which it takes effect. -/
structure LateCall where
  time : Nat
  operation : Operation
  deriving DecidableEq

/-- The state of a simulated system. -/
structure Simulation where
  store : Store
  now : Nat
  /-- Milliseconds that every call takes. -/
  latency : Nat
  /-- Abandoned calls in the order in which they take effect. -/
  late : List LateCall
  /-- For each kind of call, what happens to the next ones; `none` lets a call through. -/
  mishaps : List (String × List (Option Mishap))
  /-- The answers to the next requests. -/
  answers : List Value

namespace Simulation

/-- An empty store behind calls of the given latency. -/
def ofLatency (latency : Nat) : Simulation := ⟨.empty, 0, latency, [], [], []⟩

/-- The name under which mishaps of an operation are scheduled. -/
def callName (o : Operation) : String :=
  match o with
  | .request _ => "call_api"
  | _ => o.kind

/-- Takes what is scheduled for the next call of a kind. -/
def takeMishap (name : String) :
    List (String × List (Option Mishap)) →
      Option Mishap × List (String × List (Option Mishap))
  | [] => (none, [])
  | (k, queue) :: rest =>
    if k = name then
      match queue with
      | [] => (none, (k, []) :: rest)
      | next :: more => (next, (k, more) :: rest)
    else
      let (next, rest) := takeMishap name rest
      (next, (k, queue) :: rest)

/-- The next mishap of a kind of call, and the system without it. -/
def nextMishap (name : String) (s : Simulation) : Option Mishap × Simulation :=
  let (mishap, mishaps) := takeMishap name s.mishaps
  (mishap, { s with mishaps })

/-- Applies the late calls that are due. -/
def applyDue (time : Nat) : List LateCall → Store → Store × List LateCall
  | [], store => (store, [])
  | call :: rest, store =>
    if call.time ≤ time then applyDue time rest (store.apply call.operation).2
    else (store, call :: rest)

/-- Lets time pass up to the given moment. -/
def advance (time : Nat) (s : Simulation) : Simulation :=
  let (store, late) := applyDue time s.late s.store
  { s with store, late, now := time }

/-- Lets all abandoned calls take effect. -/
def settle (s : Simulation) : Simulation :=
  let time := s.late.foldl (fun t call => max t call.time) s.now
  s.advance time

/-- The reply of the store to an operation. -/
def reply (o : Operation) (s : Simulation) : Reply × Simulation :=
  let (answer, store) := s.store.apply o
  (match answer with
    | .ok record => .record (.map record)
    | .error cause => .refused cause.message, { s with store })

/-- Makes an organization the scope. -/
def enter (organization : String) (s : Simulation) : Simulation :=
  { s with store := s.store.enter organization }

/-- The end of a span of time that begins now, unless a deadline comes first. -/
def endOf (milliseconds : Nat) (deadline : Option Nat) (s : Simulation) : Except Nat Nat :=
  let time := s.now + milliseconds
  match deadline with
  | some d => if d < time then .error d else .ok time
  | none => .ok time

/-- Answers a request at once. -/
def answer (o : Operation) (s : Simulation) : Reply × Simulation :=
  match s.answers with
  | v :: rest => (.record v, { s with answers := rest })
  | [] => s.reply o

/-- Carries an operation out before a deadline. -/
def call (o : Operation) (deadline : Option Nat) (s : Simulation) : Reply × Simulation :=
  match s.nextMishap (callName o) with
  | (some (.refuse message), s) => (.refused message, s)
  | (some .abort, s) => (.lost, s)
  | (none, s) =>
    match o with
    | .request _ => s.answer o
    | _ =>
      match s.endOf s.latency deadline with
      | .ok time => (s.advance time).reply o
      | .error d =>
        let late : LateCall := ⟨s.now + s.latency, o⟩
        (.late, { s with late := s.late ++ [late] }.advance d)

/-- Lets milliseconds pass; false if the deadline comes before their end. -/
def pause (milliseconds : Nat) (deadline : Option Nat) (s : Simulation) : Bool × Simulation :=
  match s.endOf milliseconds deadline with
  | .ok time => (true, s.advance time)
  | .error d => (false, s.advance d)

/-- The records of a table that meet conditions. -/
def query (table : String) (conditions : Entries) (s : Simulation) :
    Except String (List Value) × Simulation :=
  match s.nextMishap "query" with
  | (some (.refuse message), s) => (.error message, s)
  | (some .abort, s) => (.error "backend call aborted before completing", s)
  | (none, s) =>
    let s := s.advance (s.now + s.latency)
    (match s.store.query table conditions with
      | .ok records => .ok (records.map .map)
      | .error cause => .error cause.message, s)

/-- The simulated system; simulated time does not count towards the ceiling of a run. -/
def backend : Backend Simulation where
  now := Simulation.now
  spent := fun _ => 0
  tick := id
  enter := enter
  call := call
  pause := pause
  query := query

/-- The simulated system with the simulated time as the only one: it counts towards the ceiling of
a run. -/
def timed : Backend Simulation := { backend with spent := now }

end Simulation

end ProcessTest
