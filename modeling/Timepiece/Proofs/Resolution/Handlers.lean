import Mathlib
import Timepiece.WatchSet.Resolution

/-!
# Handlers event by event

A choice around the handlers of several events says of every event what one action would say of it
as well: the choice between what its options say of that event.  The compiler does not go this way.
It writes the single instruction of such a handler down by itself, and only the handlers that stand
outside the choice are lists of actions to it.  Both ways come to the same.

## Main definitions

* `HandlerChoice.actionsFor` — the actions that a choice prescribes for an event.
* `Handlers.byEvent` — the actions of every event, those of the choice first.

## Main results

* `Handlers.resolveChoice_eq` — **the handlers of a choice are those of the actions that it
  prescribes**.
* `Handlers.resolve_byEvent` — handlers are compiled event by event.
-/

namespace Timepiece

open Compiling

/-- The actions that a choice prescribes for an event: the same choice between what its options say
of the event. -/
def HandlerChoice.actionsFor (choice : HandlerChoice) (event : String) : List Action :=
  [.choose choice.on (choice.optionsFor event)]

namespace Handlers

/-- The actions of every event, those of the choice first. -/
def byEvent (handlers : Handlers) : List (String × List Action) :=
  (match handlers.choose with
    | none => []
    | some choice => choice.events.map fun event => (event, choice.actionsFor event)) ++
  handlers.events

variable (around : Surroundings) (model : Model)

/-- A list of one action is never too long. -/
theorem resolveList_singleton (action : Action) :
    Action.resolveList around model [action] =
      (do
        let instruction ← action.resolve around model
        pure [instruction]) := by
  have hcount : countFits .actions [action].length = pure () := rfl
  rw [Action.resolveList, hcount, pure_bind]
  simp only [Action.resolveAll, pure_bind]

/-- **The handlers of a choice are those of the actions that it prescribes.** -/
theorem resolveChoice_eq (choice : HandlerChoice) (events : List String)
    (done : List Program.Handler) :
    resolveChoice around model choice done events =
      resolveInto around model done (events.map fun event => (event, choice.actionsFor event)) := by
  induction events generalizing done with
  | nil => rfl
  | cons event rest ih =>
    rw [List.map_cons, resolveChoice, resolveInto]
    have hbody : Action.resolveList around model (choice.actionsFor event) = _ :=
      resolveList_singleton around model (.choose choice.on (choice.optionsFor event))
    simp only [hbody, bind_assoc, pure_bind, ih]

/-- Events may be taken in two parts. -/
theorem resolveInto_append (first second : List (String × List Action))
    (done : List Program.Handler) :
    resolveInto around model done (first ++ second) =
      (do
        let chosen ← resolveInto around model done first
        resolveInto around model chosen second) := by
  induction first generalizing done with
  | nil => exact (pure_bind done fun chosen => resolveInto around model chosen second).symm
  | cons head rest ih =>
    obtain ⟨event, actions⟩ := head
    rw [List.cons_append, resolveInto, resolveInto]
    simp only [bind_assoc, ih]

/-- Handlers are compiled event by event. -/
theorem resolve_byEvent (handlers : Handlers) :
    handlers.resolve around model =
      (do
        let resolved ← resolveInto around model [] handlers.byEvent
        ensure (placesFit 0 resolved) .handlersTooLarge
        pure resolved) := by
  obtain ⟨choose, events⟩ := handlers
  cases choose with
  | none =>
    have hnone : byEvent ⟨none, events⟩ = events := rfl
    rw [resolve, hnone]
    simp only [pure_bind]
  | some choice =>
    rw [resolve, byEvent, resolveInto_append]
    simp only [resolveChoice_eq, bind_assoc]

end Handlers

end Timepiece
