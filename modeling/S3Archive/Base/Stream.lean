/-!
# Unbounded streams with one consumer

`StreamSemantics` is what a producer relies on in a stream: elements come out in the order in
which they went in, none is lost, and the end comes after the last one. What the consumer does
between two elements, such as to register and to be woken, is the stream's own (`Delivery`).
-/

namespace S3Archive

/-- What one step of the consumer brings. -/
inductive Delivery (α : Type) where
  | element (a : α)
  /-- The end of the stream. -/
  | done
  /-- Nothing yet. -/
  | pending

/-- A stream with states `κ`. -/
structure StreamSemantics (κ α : Type) where
  empty : κ
  yield : κ → α → κ
  finish : κ → κ
  /-- A step of the consumer. -/
  Next : κ → Delivery α → κ → Prop
  /-- What has been yielded and not delivered. -/
  contents : κ → List α
  finished : κ → Prop
  Ok : κ → Prop
  ok_empty : Ok empty
  ok_yield : ∀ k a, Ok k → ¬ finished k → Ok (yield k a)
  ok_finish : ∀ k, Ok k → ¬ finished k → Ok (finish k)
  ok_next : ∀ k d k', Ok k → Next k d k' → Ok k'
  contents_empty : contents empty = []
  not_finished_empty : ¬ finished empty
  contents_yield : ∀ k a, Ok k → ¬ finished k → contents (yield k a) = contents k ++ [a]
  finished_yield : ∀ k a, finished (yield k a) ↔ finished k
  contents_finish : ∀ k, Ok k → contents (finish k) = contents k
  finished_finish : ∀ k, finished (finish k)
  next_element : ∀ k a k', Ok k → Next k (.element a) k' → contents k = a :: contents k'
  next_done : ∀ k k', Ok k → Next k .done k' → contents k = [] ∧ contents k' = [] ∧ finished k
  next_pending : ∀ k k', Ok k → Next k .pending k' → contents k' = contents k
  finished_next : ∀ k d k', Next k d k' → (finished k' ↔ finished k)
  /-- The consumer does not wait while there is something for it. -/
  progress : ∀ k, Ok k → contents k ≠ [] ∨ finished k → ∃ d k', Next k d k'
  /-- How many of the consumer's steps can bring nothing before the next one that does. -/
  effort : κ → Nat
  effort_le : ∀ k, effort k ≤ 1
  effort_yield : ∀ k a, effort (yield k a) ≤ effort k
  effort_finish : ∀ k, effort (finish k) ≤ effort k
  effort_pending : ∀ k k', Next k .pending k' → effort k' < effort k

end S3Archive
