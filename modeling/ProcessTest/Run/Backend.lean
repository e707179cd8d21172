import ProcessTest.Definition

/-!
# Systems under test

The narrow interface through which a run reaches a system.  The state of the system, its clocks
and whatever else goes on in it are of any type.
-/

set_option autoImplicit false

namespace ProcessTest

/-- What becomes of an operation. -/
inductive Reply where
  | record (v : Value)
  | refused (message : String)
  /-- No answer will ever come. -/
  | lost
  /-- The deadline came before the answer; the operation may still take effect. -/
  | late
  deriving DecidableEq

/-- A system with states of type `σ`. -/
structure Backend (σ : Type) where
  /-- Milliseconds on the clock of calls and waits, to which deadlines refer. -/
  now : σ → Nat
  /-- Milliseconds on the clock to which the ceiling of a run refers. -/
  spent : σ → Nat
  /-- Lets the time pass that an action takes of which the system sees nothing. -/
  tick : σ → σ
  /-- Makes an organization the scope of all further operations. -/
  enter : String → σ → σ
  /-- Carries an operation out before a deadline, if there is one. -/
  call : Operation → Option Nat → σ → Reply × σ
  /-- Lets milliseconds pass; false if the deadline comes before their end. -/
  pause : Nat → Option Nat → σ → Bool × σ
  /-- The records of a table that meet conditions. -/
  query : String → Entries → σ → Except String (List Value) × σ

end ProcessTest
