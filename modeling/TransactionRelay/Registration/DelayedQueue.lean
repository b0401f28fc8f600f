import TransactionRelay.Event

namespace TransactionRelay

structure DelayedEvent where
  due : UInt64
  event : EventRecord
  deriving DecidableEq, Repr

structure DelayedQueue where
  waiting : List DelayedEvent := []
  deriving DecidableEq, Repr

namespace DelayedQueue

def holds (queue : DelayedQueue) (key : EventKey) : Bool :=
  queue.waiting.any fun delayed => delayed.event.key == key

-- One log waits at most once.
def push (queue : DelayedQueue) (due : UInt64) (event : EventRecord) : DelayedQueue :=
  if queue.holds event.key then queue else ⟨queue.waiting ++ [⟨due, event⟩]⟩

def due (queue : DelayedQueue) (block : UInt64) : List EventRecord :=
  (queue.waiting.filter fun delayed => delayed.due ≤ block).map (·.event)

def withoutDue (queue : DelayedQueue) (block : UInt64) : DelayedQueue :=
  ⟨queue.waiting.filter fun delayed => !decide (delayed.due ≤ block)⟩

end DelayedQueue
end TransactionRelay
