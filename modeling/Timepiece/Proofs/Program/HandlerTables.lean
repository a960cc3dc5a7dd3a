import Mathlib
import Timepiece.Proofs.Program.Decoding
import Timepiece.Proofs.Program.OffsetTables
import Timepiece.Proofs.Resolution.Expansion
import Timepiece.Proofs.Resolution.Fitting

/-!
# Tables of handlers

Handlers are compiled in the order of the document and stand in the program in the order of their
events, so that the place of a list of actions in the table tells nothing about when it was
compiled.  Whoever reads the table back finds every event once and with its own list of actions,
and the lists fill what stands behind the index.  An event may be spelled in two ways, but it is
handled once: handlers that spell one event in both ways are refused.

## Main definitions

* `Program.readHandlerTable` — the events of a table, each with the bytes of its actions.
* `Handlers.ListedEntry`, `Handlers.ChosenEntry` — what the table has for an event that stands by
  itself, and for an event of a choice.
* `Handlers.Tabled` — what the table of handlers says.
* `Handlers.Doubled` — one event is spelled in two ways.

## Main results

* `Program.readHandlerTable_handlersBytes` — a table whose places fit comes back from its bytes.
* `Handlers.table_read_back` — **a table of handlers can be read back**, and one event is never
  handled in two spellings.
-/

namespace Timepiece

namespace Program

open Reader

/-! ### Tables of handlers -/

/-- An event and the place of its actions. -/
def readPlacedEvent : Reader (UInt8 × Nat) := do
  let event ← byte
  let place ← number 2
  pure (event, place)

/-- The events of a table of handlers, each with the bytes of its actions. -/
def readHandlerTable (bytes : Bytes) : Option (List (UInt8 × Bytes)) :=
  (counted readPlacedEvent bytes).bind fun read =>
    (cut? 0 (read.1.map Prod.snd) read.2).map ((read.1.map Prod.fst).zip ·)

/-- The bytes of an event and the place of its actions. -/
def placedEventBytes (entry : UInt8 × Nat) : Bytes := entry.1 :: bigEndian 2 entry.2

/-- The events of handlers and the places of their actions. -/
def placedEvents (start : Nat) (handlers : List Handler) : List (UInt8 × Nat) :=
  (handlers.map Handler.event).zip (placesFrom start (handlers.map Handler.bytes))

theorem handlerIndex_eq (start : Nat) (handlers : List Handler) :
    handlerIndex start handlers = (placedEvents start handlers).flatMap placedEventBytes := by
  induction handlers generalizing start with
  | nil => rfl
  | cons handler rest ih =>
    rw [handlerIndex, ih]
    rfl

theorem map_fst_placedEvents (start : Nat) (handlers : List Handler) :
    (placedEvents start handlers).map Prod.fst = handlers.map Handler.event :=
  List.map_fst_zip (by simp)

theorem map_snd_placedEvents (start : Nat) (handlers : List Handler) :
    (placedEvents start handlers).map Prod.snd = placesFrom start (handlers.map Handler.bytes) :=
  List.map_snd_zip (by simp)

theorem placesFit_iff {start : Nat} {handlers : List Handler} :
    Handlers.placesFit start handlers = true ↔
      ∀ place ∈ placesFrom start (handlers.map Handler.bytes), place ≤ maxLength := by
  induction handlers generalizing start with
  | nil => simp [Handlers.placesFit, placesFrom]
  | cons handler rest ih => simp [Handlers.placesFit, placesFrom, ih]

theorem takes_readPlacedEvent {entry : UInt8 × Nat} (h : entry.2 ≤ maxLength) :
    Takes readPlacedEvent (placedEventBytes entry) entry :=
  takes_byte_bind (takes_number 2 (Nat.lt_succ_of_le h)).bind_pure

/-- A table of handlers comes back from its bytes if it can be counted and its places fit. -/
theorem readHandlerTable_handlersBytes {handlers : List Handler}
    (hcount : handlers.length ≤ maxCount) (hplaces : Handlers.placesFit 0 handlers = true) :
    readHandlerTable (handlersBytes handlers) =
      some (handlers.map fun handler => (handler.event, handler.bytes)) := by
  have hlength : (placedEvents 0 handlers).length = handlers.length := by simp [placedEvents]
  have hindex : Takes (counted readPlacedEvent)
      (countByte handlers.length :: handlerIndex 0 handlers) (placedEvents 0 handlers) := by
    rw [handlerIndex_eq, ← hlength]
    refine takes_counted (hlength ▸ hcount) fun entry hmem => takes_readPlacedEvent ?_
    have hplace := List.mem_map_of_mem (f := Prod.snd) hmem
    rw [map_snd_placedEvents] at hplace
    exact placesFit_iff.1 hplaces _ hplace
  rw [readHandlerTable, handlersBytes, hindex, Option.bind_some, map_fst_placedEvents,
    map_snd_placedEvents, List.flatMap_def, cut?_placesFrom, Option.map_some, List.zip_map']

end Program

open Compiling

namespace Handlers

variable {around : Surroundings} {model : Model} {handlers : Handlers} {l l' : Ledger}

/-! ### What the table says -/

/-- What a table has for an event that stands by itself: its byte, and its list of actions. -/
def ListedEntry (around : Surroundings) (model : Model) (event : String × List Action) (l : Ledger)
    (entry : UInt8 × Bytes) (l' : Ledger) : Prop :=
  Symbols.key? Symbols.event event.1 = some entry.1 ∧
    ∃ body, Yields (Action.resolveList around model event.2) l body l' ∧
      entry.2 = Program.instructionsBytes body

/-- What a table has for an event of a choice: its byte, and the choice between what the options say
of the event, as a list of one instruction. -/
def ChosenEntry (around : Surroundings) (model : Model) (choice : HandlerChoice) (event : String)
    (l : Ledger) (entry : UInt8 × Bytes) (l' : Ledger) : Prop :=
  Symbols.key? Symbols.event event = some entry.1 ∧
    ∃ instruction,
      Yields (Action.resolve around model (.choose choice.on (choice.optionsFor event))) l
        instruction l' ∧
      entry.2 = 1 :: instruction.bytes

/-- What a table has for the events of a choice, if there is one. -/
def ChosenEntries (around : Surroundings) (model : Model) (l : Ledger)
    (entries : List (UInt8 × Bytes)) (l' : Ledger) : Option HandlerChoice → Prop
  | none => entries = [] ∧ l' = l
  | some choice =>
    Threaded (ChosenEntry around model choice) choice.mentions.eraseDups l entries l'

/-- What a table of handlers says: no event stands in it twice, and it has what was compiled for
every event, first for those of the choice and then for those beside it. -/
structure Tabled (around : Surroundings) (model : Model) (handlers : Handlers) (l : Ledger)
    (table : List (UInt8 × Bytes)) (l' : Ledger) : Prop where
  increasing : (table.map Prod.fst).Pairwise (· < ·)
  entries : ∃ chosen listed mid, table.Perm (chosen ++ listed) ∧
    ChosenEntries around model l chosen mid handlers.choose ∧
    Threaded (ListedEntry around model) handlers.events mid listed l'

/-- One event is spelled in two ways, or stands both in the choice and beside it. -/
inductive Doubled (handlers : Handlers) : Prop
  | chosen {choice : HandlerChoice} {first second : String} : handlers.choose = some choice →
    first ∈ choice.mentions → second ∈ choice.mentions → first ≠ second →
    Symbols.key? Symbols.event first = Symbols.key? Symbols.event second → Doubled handlers
  | listed {first second : String} : first ∈ handlers.events.names →
    second ∈ handlers.events.names → first ≠ second →
    Symbols.key? Symbols.event first = Symbols.key? Symbols.event second → Doubled handlers
  | across {choice : HandlerChoice} {first second : String} : handlers.choose = some choice →
    first ∈ choice.mentions → second ∈ handlers.events.names →
    Symbols.key? Symbols.event first = Symbols.key? Symbols.event second → Doubled handlers

/-! ### What is compiled -/

/-- An entry of a table of handlers. -/
def entry (handler : Program.Handler) : UInt8 × Bytes := (handler.event, handler.bytes)

theorem HandlerOf.listedEntry {event : String × List Action} {handler : Program.Handler}
    (h : HandlerOf around model event l handler l') :
    ListedEntry around model event l (entry handler) l' :=
  ⟨h.1, handler.body, h.2, rfl⟩

/-- The list of actions that a choice prescribes for an event has one instruction. -/
theorem HandlerOf.chosenEntry {choice : HandlerChoice} {event : String} {handler : Program.Handler}
    (h : HandlerOf around model (event, choice.actionsFor event) l handler l') :
    ChosenEntry around model choice event l (entry handler) l' := by
  obtain ⟨hkey, hbody⟩ := h
  have hbody : Yields (Action.resolveList around model
      [.choose choice.on (choice.optionsFor event)]) l handler.body l' := hbody
  rw [resolveList_singleton, yields_bind_iff] at hbody
  obtain ⟨instruction, mid, hinstruction, hpure⟩ := hbody
  obtain ⟨hsingle, rfl⟩ := yields_pure_iff.1 hpure
  refine ⟨hkey, instruction, hinstruction, ?_⟩
  rw [entry, Program.Handler.bytes, hsingle, Program.instructionsBytes_eq, List.flatMap_singleton]
  rfl

/-- The entries of a table are those of the choice and those beside it. -/
theorem entries_of_threaded {compiled : List Program.Handler}
    (h : Threaded (HandlerOf around model) handlers.byEvent l compiled l') :
    ∃ chosen listed mid, compiled.map entry = chosen ++ listed ∧
      ChosenEntries around model l chosen mid handlers.choose ∧
      Threaded (ListedEntry around model) handlers.events mid listed l' := by
  obtain ⟨choose, events⟩ := handlers
  obtain ⟨first, second, mid, rfl, hfirst, hsecond⟩ := h.append_inv
  refine ⟨first.map entry, second.map entry, mid, List.map_append, ?_, ?_⟩
  · cases choose with
    | none =>
      obtain ⟨rfl, rfl⟩ := Threaded.nil_iff.1 hfirst
      exact ⟨rfl, rfl⟩
    | some choice =>
      rw [ChosenEntries, ← HandlerChoice.events_eq]
      exact hfirst.of_map fun event => HandlerOf.chosenEntry
  · rw [← events.map_id] at hsecond
    exact hsecond.of_map fun event => HandlerOf.listedEntry

/-! ### Events in two spellings -/

/-- The events of handlers are those that the choice mentions, and those beside it. -/
theorem map_fst_byEvent (handlers : Handlers) :
    handlers.byEvent.map Prod.fst =
      (handlers.choose.elim [] fun choice => choice.mentions.eraseDups) ++
        handlers.events.names := by
  obtain ⟨choose, events⟩ := handlers
  cases choose with
  | none => rfl
  | some choice =>
    rw [byEvent_choice, List.map_append]
    exact congrArg (· ++ events.names) choice.names_expansion

/-- An event in two spellings has its byte twice. -/
theorem Doubled.not_nodup (h : Doubled handlers) :
    ¬ ((handlers.byEvent.map Prod.fst).map (Symbols.key? Symbols.event)).Nodup := by
  intro hnodup
  -- names with one byte are one name
  have hsame : ∀ first ∈ handlers.byEvent.map Prod.fst, ∀ second ∈ handlers.byEvent.map Prod.fst,
      Symbols.key? Symbols.event first = Symbols.key? Symbols.event second → first = second :=
    fun first hfirst second hsecond => List.inj_on_of_nodup_map hnodup hfirst hsecond
  rw [map_fst_byEvent] at hsame hnodup
  cases h with
  | @chosen choice first second hchoose hfirst hsecond hne hkey =>
    rw [hchoose] at hsame
    exact hne (hsame first (List.mem_append_left _ (List.mem_eraseDups.2 hfirst)) second
      (List.mem_append_left _ (List.mem_eraseDups.2 hsecond)) hkey)
  | @listed first second hfirst hsecond hne hkey =>
    exact hne (hsame first (List.mem_append_right _ hfirst) second
      (List.mem_append_right _ hsecond) hkey)
  | @across choice first second hchoose hfirst hsecond hkey =>
    rw [hchoose, List.map_append] at hnodup
    refine List.disjoint_of_nodup_append hnodup
      (List.mem_map_of_mem (List.mem_eraseDups.2 hfirst)) ?_
    rw [hkey]
    exact List.mem_map_of_mem hsecond

/-! ### Reading tables back -/

/-- **A table of handlers can be read back.**  Of handlers that compile, in whatever surroundings
and with whatever tables one begins, the events stand in the table in increasing order, each once;
their places cut the bytes behind the index into the lists of actions, so that nothing is left over;
and every event has the list that was compiled for it, in the order of the document: those of the
choice have the choice as their only action.  Handlers that spell one event in two ways are
refused. -/
theorem table_read_back (around : Surroundings) (model : Model) (handlers : Handlers) (l : Ledger) :
    (∀ out l', Yields (handlers.resolve around model) l out l' →
      ∃ table, Program.readHandlerTable (Program.handlersBytes out) = some table ∧
        Tabled around model handlers l table l') ∧
      (Doubled handlers → ∃ refusal, handlers.resolve around model l = .error refusal) := by
  refine ⟨fun out l' hyields => ?_, fun hdoubled => ?_⟩
  · obtain ⟨hinto, hplaces⟩ := yields_resolve_iff.1 hyields
    obtain ⟨compiled, hcompiled, hperm, hsorted⟩ := threaded_of_resolveInto hinto
    obtain ⟨chosen, listed, mid, hentries, hchosen, hlisted⟩ := entries_of_threaded hcompiled
    have hsorted := hsorted .nil
    have hcount := length_le_of_pairwise hsorted fun handler hmem =>
      (fit_of_resolveInto hinto handler hmem).2
    refine ⟨out.map entry, Program.readHandlerTable_handlersBytes hcount hplaces, ?_,
      chosen, listed, mid, ?_, hchosen, hlisted⟩
    · rw [List.map_map, List.pairwise_map]
      exact hsorted
    · rw [← hentries]
      exact hperm.map entry
  · cases hresolve : handlers.resolve around model l with
    | error refusal => exact ⟨refusal, rfl⟩
    | ok result =>
      have hyields : Yields (handlers.resolve around model) l result.1 result.2 := hresolve
      exact absurd (nodup_keys hyields) hdoubled.not_nodup

/-- The handlers of three buttons: two in a choice, and one beside it. -/
def threeButtons : Handlers := ⟨some buttons, settingsButton "buttons.back.short"⟩

/-- The table for them: the first two choose between what is done by day and by night. -/
def threeButtonsTable : List (UInt8 × Bytes) :=
  [(0x01, [1, 0x50, 4, 0, 2, 0, 0, 2, 1, 0x02, 1, 0, 2, 1, 0x01]),
    (0x02, [1, 0x50, 4, 0, 2, 0, 0, 2, 1, 0x12, 1, 0, 1, 0]), (0x04, [1, 0x11])]

theorem read_threeButtons :
    (threeButtons.resolve ⟨[], [], none⟩ mode ⟨[], [], .empty⟩).map
        (fun result => Program.readHandlerTable (Program.handlersBytes result.1)) =
      .ok (some threeButtonsTable) := by
  decide +kernel

/-- The table has the choice for two of the buttons.  If the button beside the choice is one of them
in another spelling, nothing is compiled. -/
theorem table_read_back_buttons :
    (∃ l', Tabled ⟨[], [], none⟩ mode threeButtons ⟨[], [], .empty⟩ threeButtonsTable l') ∧
      ∃ refusal, resolve ⟨[], [], none⟩ mode ⟨some buttons, settingsButton "button_down_short"⟩
        ⟨[], [], .empty⟩ = .error refusal := by
  refine ⟨?_, (table_read_back _ _ _ _).2 ?_⟩
  · obtain ⟨⟨out, l'⟩, hyields, hread⟩ := map_eq_ok_iff.1 read_threeButtons
    obtain ⟨table, htable, htabled⟩ := (table_read_back _ _ _ _).1 out l' hyields
    obtain rfl : table = threeButtonsTable := Option.some.inj (htable.symm.trans hread)
    exact ⟨l', htabled⟩
  · exact @Doubled.across _ buttons "buttons.down.short" "button_down_short" rfl
      (by decide +kernel) (by decide +kernel) (by decide +kernel)

end Handlers

end Timepiece
