import Mathlib
import Timepiece.Proofs.Resolution.Tabulation

/-!
# Choices around handlers, written out

A choice around the handlers of several events is a short way to write: it stands for one handler
for every event that it mentions, in the order in which the events are first mentioned, and the only
action of such a handler is the choice between what the options say of its event.  Whoever writes
the handlers out gets the same program and the same tables, and where one way of writing is refused,
so is the other, for the same reason.  The handlers that stand beside the choice may be for other
events only.

## Main definitions

* `HandlerChoice.mentions` — the events that the options of a choice mention.
* `HandlerChoice.expansion` — the handlers for which a choice stands.

## Main results

* `HandlerChoice.events_eq` — the events of a choice are those that are mentioned, each at its first
  place.
* `Handlers.nodup_of_resolve` — handlers that compile name every event once.
* `Handlers.choice_expanded` — **a choice around handlers may be written out**, and the handlers
  beside it have to be for other events.
-/

namespace Timepiece

open Compiling

/-! ### The events of a choice -/

namespace HandlerChoice

variable {choice : HandlerChoice}

/-- The events that the options of a choice mention, one option after the other. -/
def mentions (choice : HandlerChoice) : List String :=
  choice.options.flatMap fun option => option.2.names

/-- The handlers for which a choice stands: for every event that is mentioned, each at its first
place, the choice between what the options say of it. -/
def expansion (choice : HandlerChoice) : Members (List Action) :=
  choice.mentions.eraseDups.map fun event => (event, [.choose choice.on (choice.optionsFor event)])

/-- Whoever adds what is new to a list has what is new in the order of its first places. -/
theorem foldl_new (later seen : List String) :
    later.foldl (fun seen event => if seen.contains event then seen else seen ++ [event]) seen =
      seen ++ (later.filter (· ∉ seen)).eraseDups := by
  induction later generalizing seen with
  | nil => simp
  | cons first later ih =>
    have hfirst : (if seen.contains first then seen else seen ++ [first]) =
        if first ∈ seen then seen else seen ++ [first] := by
      by_cases h : first ∈ seen <;> simp [h]
    rw [List.foldl_cons, hfirst, ih, Tables.append_eraseDups_cons]

/-- The events of a choice are those that are mentioned, each at its first place. -/
theorem events_eq (choice : HandlerChoice) : choice.events = choice.mentions.eraseDups := by
  have hnew := foldl_new choice.mentions []
  rw [events, ← mentions, hnew]
  simp

/-- What stands in a list more than once is left with its first place only. -/
theorem nodup_eraseDups : ∀ names : List String, names.eraseDups.Nodup
  | [] => .nil
  | name :: rest => by
    rw [List.eraseDups_cons]
    refine List.nodup_cons.2 ⟨?_, nodup_eraseDups (rest.filter fun other => !other == name)⟩
    intro hmem
    have hother := (List.mem_filter.1 (List.mem_eraseDups.1 hmem)).2
    simp at hother
termination_by names => names.length
decreasing_by
  have hle := List.length_filter_le (fun other => !other == name) rest
  simp only [List.length_cons]
  omega

/-- A choice stands for one handler for every event that is mentioned. -/
theorem names_expansion (choice : HandlerChoice) :
    choice.expansion.names = choice.mentions.eraseDups := by
  simp [expansion, Members.names, Function.comp_def]

end HandlerChoice

/-! ### Handlers that compile -/

namespace Handlers

variable {around : Surroundings} {model : Model} {l l' : Ledger}

/-- Handlers that compile name every event once. -/
theorem nodup_of_resolve {handlers : Handlers} {out : List Program.Handler}
    (h : Yields (handlers.resolve around model) l out l') :
    (handlers.byEvent.map Prod.fst).Nodup :=
  (nodup_keys h).of_map _

/-! ### Writing a choice out -/

/-- The handlers of a choice, event by event, are those for which it stands. -/
theorem byEvent_choice (choice : HandlerChoice) (events : Members (List Action)) :
    byEvent ⟨some choice, events⟩ = choice.expansion ++ events := by
  have hchosen : choice.events.map (fun event => (event, choice.actionsFor event)) =
      choice.expansion := by
    rw [HandlerChoice.events_eq]
    rfl
  exact congrArg (· ++ events) hchosen

/-- **A choice around handlers may be written out.**  With whatever tables one begins, the handlers
for which it stands, followed by those beside it, compile to the same handlers and leave the same
tables, or are refused for the same reason.  If those beside it are for events of their own, the
handlers that are written out name every event once.  If one of them is for an event that the choice
mentions, nothing compiles. -/
theorem choice_expanded (around : Surroundings) (model : Model) (choice : HandlerChoice)
    (events : Members (List Action)) :
    resolve around model ⟨some choice, events⟩ =
        resolve around model ⟨none, choice.expansion ++ events⟩ ∧
      (events.names.Nodup → (∀ name ∈ events.names, name ∉ choice.mentions) →
        (choice.expansion ++ events).names.Nodup) ∧
      ((∃ name ∈ events.names, name ∈ choice.mentions) →
        ∀ l, ∃ refusal, resolve around model ⟨some choice, events⟩ l = .error refusal) := by
  refine ⟨?_, ?_, ?_⟩
  · have hplain : byEvent ⟨none, choice.expansion ++ events⟩ = choice.expansion ++ events := rfl
    rw [resolve_byEvent, resolve_byEvent, byEvent_choice, hplain]
  · intro hnodup hapart
    have hnames : (choice.expansion ++ events).names = choice.expansion.names ++ events.names :=
      List.map_append
    rw [hnames, HandlerChoice.names_expansion]
    refine List.Nodup.append (HandlerChoice.nodup_eraseDups _) hnodup ?_
    intro name hmentioned hname
    exact hapart name hname (List.mem_eraseDups.1 hmentioned)
  · rintro ⟨name, hname, hmentioned⟩ l
    cases hresolve : resolve around model ⟨some choice, events⟩ l with
    | error refusal => exact ⟨refusal, rfl⟩
    | ok result =>
      obtain ⟨out, ledger⟩ := result
      have hnodup := nodup_of_resolve hresolve
      rw [byEvent_choice, List.map_append] at hnodup
      -- the event is named by the choice and beside it
      have hchosen : name ∈ choice.expansion.names := by
        rw [HandlerChoice.names_expansion]
        exact List.mem_eraseDups.2 hmentioned
      exact absurd hname (List.disjoint_of_nodup_append hnodup hchosen)

/-- A choice by the mode of a screen around the handlers of two buttons, which the options mention
in different orders. -/
def buttons : HandlerChoice where
  on := .plain (.model "mode") none
  options :=
    [("day", [("buttons.up.short", [.call .toggleColors]), ("buttons.down.short", [.call .close])]),
      ("night", [("buttons.down.short", []), ("buttons.up.short", [.call .toggleBacklight])])]

/-- The mode of the screen is its only field. -/
def mode : Model := [("mode", ⟨0, .ofSymbols ["day", "night"]⟩)]

/-- A button that shows the settings. -/
def settingsButton (event : String) : Members (List Action) := [(event, [.call .settings])]

/-- Beside the choice a handler of a third button is compiled, and one of a button that the choice
mentions is refused. -/
theorem choice_expanded_buttons :
    (resolve ⟨[], [], none⟩ mode
        ⟨none, buttons.expansion ++ settingsButton "buttons.back.short"⟩ ⟨[], [], .empty⟩).isOk =
          true ∧
      (buttons.expansion ++ settingsButton "buttons.back.short").names.Nodup ∧
      ∃ refusal, resolve ⟨[], [], none⟩ mode
        ⟨some buttons, settingsButton "buttons.down.short"⟩ ⟨[], [], .empty⟩ =
          .error refusal := by
  obtain ⟨hsame, hnodup, -⟩ :=
    choice_expanded ⟨[], [], none⟩ mode buttons (settingsButton "buttons.back.short")
  obtain ⟨-, -, hrefused⟩ :=
    choice_expanded ⟨[], [], none⟩ mode buttons (settingsButton "buttons.down.short")
  refine ⟨?_, hnodup (by decide +kernel) (by decide +kernel), hrefused ?_ _⟩
  · rw [← hsame]
    decide +kernel
  · exact ⟨"buttons.down.short", by decide +kernel, by decide +kernel⟩

end Handlers

end Timepiece
