import Mathlib.Logic.Function.Basic
import Mathlib.Data.List.Basic

/-!
# Subscriptions of the event bus

Handlers are subscribed under an event name and kept in the order of
subscription. Every handler gets a key, derived from the name of its class;
handlers without such a name share one key.
-/

namespace Ascendance.Outbox

/-- What the bus can observe of a subscribed handler. -/
inductive HandlerShape
  /-- An object, with its constructor's name where that is a string. -/
  | object (constructorName : Option String)
  /-- A function or any other value that is not an object. -/
  | other
  deriving DecidableEq, Repr

/-- A handler given to the bus. Different objects have different identities. -/
structure EventHandler where
  /-- Object identity. -/
  identity : Nat
  shape : HandlerShape
  deriving DecidableEq, Repr

/-- The key under which a handler is checkpointed. -/
def resolveHandlerKey (handler : EventHandler) : String :=
  match handler.shape with
  | .object (some name) => if name ≠ "Object" then name else "anonymous-handler"
  | .object none | .other => "anonymous-handler"

/-- A subscription: the handler with its key. -/
structure RegisteredEventHandler where
  key : String
  handler : EventHandler
  deriving DecidableEq, Repr

/-- An event class: its static type and its constructor's name. -/
structure EventClass where
  type : Option String
  name : Option String

/-- The static type of an event class, else its name; neither may be empty. -/
def resolveEventType (eventType : EventClass) : Option String :=
  match eventType.type.filter (· ≠ ""), eventType.name.filter (· ≠ "") with
  | some t, _ => some t
  | none, some n => some n
  | none, none => none

/-- The subscriptions of every event name. -/
abbrev EventBus := String → List RegisteredEventHandler

/-- A bus without subscriptions. -/
def EventBus.empty : EventBus := fun _ => []

/-- Subscribe a handler; an event class without a name is an error. -/
def EventBus.subscribe (bus : EventBus) (eventType : EventClass) (handler : EventHandler) :
    Option EventBus :=
  (resolveEventType eventType).map fun eventName =>
    Function.update bus eventName (bus eventName ++ [⟨resolveHandlerKey handler, handler⟩])

/-- The handlers of an event name in the order of subscription. -/
def getRegisteredHandlers (bus : EventBus) (eventType : String) : List RegisteredEventHandler :=
  bus eventType

/-- Subscribe a list of handlers one after another. -/
def EventBus.subscribeAll (bus : EventBus) (eventType : EventClass) (handlers : List EventHandler) :
    Option EventBus :=
  handlers.foldlM (fun b h => b.subscribe eventType h) bus

/-- Subscribing keeps every handler, in order, with the key of its class. -/
theorem getRegisteredHandlers_subscribeAll {bus bus' : EventBus} {eventType : EventClass}
    {eventName : String} (ht : resolveEventType eventType = some eventName)
    {handlers : List EventHandler} (h : bus.subscribeAll eventType handlers = some bus') :
    getRegisteredHandlers bus' eventName = getRegisteredHandlers bus eventName ++
      handlers.map fun x => ⟨resolveHandlerKey x, x⟩ := by
  induction handlers generalizing bus with
  | nil =>
    obtain rfl : bus = bus' := by simpa [EventBus.subscribeAll] using h
    simp
  | cons x xs ih =>
    have hx : EventBus.subscribeAll (Function.update bus eventName
        (bus eventName ++ [⟨resolveHandlerKey x, x⟩])) eventType xs = some bus' := by
      simpa [EventBus.subscribeAll, EventBus.subscribe, ht] using h
    rw [ih hx]
    simp [getRegisteredHandlers]

end Ascendance.Outbox
