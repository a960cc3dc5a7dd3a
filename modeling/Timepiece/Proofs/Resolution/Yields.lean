import Mathlib
import Timepiece.WatchSet.Resolution

/-!
# Compilations that succeed

A computation that extends the tables either refuses the document or yields a value
and the tables after it.  That it yields something is a relation between what was
there before and what is there after, and every construct of computations has its
own rule for it.  The rules say all that a successful computation has done.

## Main definitions

* `Compiling.Yields` — the relation.
* `Threaded` — lists whose items are taken one after the other, from state to state.

## Main results

* `Compiling.yields_bind_iff` — one computation after the other.
* `Compiling.yields_property_iff`, `Compiling.yields_function_iff`,
  `Compiling.yields_allocate_iff` — the computations that change the tables.
* `Threaded.relation`, `Threaded.forall₂` — what is true of every
  item is true of the list.
-/

namespace Timepiece

/-! ### Results -/

section Results

variable {ε α β : Type}

theorem bind_eq_ok_iff {x : Except ε α} {f : α → Except ε β} {b : β} :
    (x >>= f) = .ok b ↔ ∃ a, x = .ok a ∧ f a = .ok b := by
  cases x with
  | error e => simp [bind, Except.bind]
  | ok a => simp [bind, Except.bind]

theorem bind_eq_error_iff {x : Except ε α} {f : α → Except ε β} {e : ε} :
    (x >>= f) = .error e ↔ x = .error e ∨ ∃ a, x = .ok a ∧ f a = .error e := by
  cases x with
  | error e => simp [bind, Except.bind]
  | ok a => simp [bind, Except.bind]

theorem map_eq_ok_iff {x : Except ε α} {g : α → β} {b : β} :
    x.map g = .ok b ↔ ∃ a, x = .ok a ∧ g a = b := by
  cases x with
  | error e => simp [Except.map]
  | ok a => simp [Except.map]

end Results

/-! ### One item after the other -/

/-- The items of the first list are taken to those of the second, each step going on
from the state that the one before has left. -/
inductive Threaded {σ α β : Type} (step : α → σ → β → σ → Prop) : List α → σ → List β → σ → Prop
  | nil {s : σ} : Threaded step [] s [] s
  | cons {a : α} {items : List α} {b : β} {results : List β} {s s' s'' : σ} :
    step a s b s' → Threaded step items s' results s'' →
    Threaded step (a :: items) s (b :: results) s''

namespace Threaded

variable {σ τ α β : Type} {step : α → σ → β → σ → Prop} {items : List α} {results : List β}
  {s s' s'' : σ} {a : α}

theorem nil_iff : Threaded step [] s results s' ↔ results = [] ∧ s' = s := by
  constructor
  · rintro ⟨⟩
    exact ⟨rfl, rfl⟩
  · rintro ⟨rfl, rfl⟩
    exact nil

theorem cons_iff :
    Threaded step (a :: items) s results s'' ↔
      ∃ b rest s', results = b :: rest ∧ step a s b s' ∧ Threaded step items s' rest s'' := by
  constructor
  · rintro (_ | ⟨hstep, hrest⟩)
    exact ⟨_, _, _, rfl, hstep, hrest⟩
  · rintro ⟨b, rest, s', rfl, hstep, hrest⟩
    exact cons hstep hrest

theorem length_eq (h : Threaded step items s results s') : results.length = items.length := by
  induction h with
  | nil => rfl
  | cons _ _ ih => rw [List.length_cons, List.length_cons, ih]

theorem append_inv {first second : List α} (h : Threaded step (first ++ second) s results s') :
    ∃ before after mid, results = before ++ after ∧ Threaded step first s before mid ∧
      Threaded step second mid after s' := by
  induction first generalizing s results with
  | nil => exact ⟨[], results, s, rfl, .nil, h⟩
  | cons item rest ih =>
    obtain ⟨b, others, mid, rfl, hstep, hothers⟩ := cons_iff.1 h
    obtain ⟨before, after, last, rfl, hbefore, hafter⟩ := ih hothers
    exact ⟨b :: before, after, last, rfl, .cons hstep hbefore, hafter⟩

/-- Items and results may be seen as something else, if the steps are. -/
theorem of_map {γ δ : Type} {step' : γ → σ → δ → σ → Prop} {f : γ → α} {g : β → δ}
    {items : List γ} (h : Threaded step (items.map f) s results s')
    (hstep : ∀ c {s b s'}, step (f c) s b s' → step' c s (g b) s') :
    Threaded step' items s (results.map g) s' := by
  induction items generalizing s results with
  | nil =>
    obtain ⟨rfl, rfl⟩ := nil_iff.1 h
    exact .nil
  | cons item rest ih =>
    obtain ⟨b, others, mid, rfl, hfirst, hothers⟩ := cons_iff.1 h
    exact .cons (hstep item hfirst) (ih hothers)

/-- Every result comes from an item. -/
theorem exists_of_mem (h : Threaded step items s results s') {b : β} (hb : b ∈ results) :
    ∃ a ∈ items, ∃ s s', step a s b s' := by
  induction h with
  | nil => exact absurd hb List.not_mem_nil
  | cons hstep _ ih =>
    rcases List.mem_cons.1 hb with rfl | hb
    · exact ⟨_, List.mem_cons_self, _, _, hstep⟩
    · obtain ⟨a, ha, h⟩ := ih hb
      exact ⟨a, List.mem_cons_of_mem _ ha, h⟩

/-- Every item has its step. -/
theorem exists_step (h : Threaded step items s results s') {a : α} (ha : a ∈ items) :
    ∃ s b s', step a s b s' := by
  induction h with
  | nil => exact absurd ha List.not_mem_nil
  | cons hstep _ ih =>
    rcases List.mem_cons.1 ha with rfl | ha
    · exact ⟨_, _, _, hstep⟩
    · exact ih ha

/-- What every step keeps to, from the state before it to the one after it, all
steps keep to together. -/
theorem relation {R : σ → σ → Prop} (hrefl : ∀ s, R s s)
    (htrans : ∀ {s s' s''}, R s s' → R s' s'' → R s s'') (h : Threaded step items s results s')
    (hstep : ∀ a ∈ items, ∀ b ∈ results, ∀ {s s'}, step a s b s' → R s s') : R s s' := by
  induction h with
  | nil => exact hrefl _
  | cons hfirst _ ih =>
    -- the first step, then the steps of the others
    refine htrans (hstep _ List.mem_cons_self _ List.mem_cons_self hfirst) (ih fun a ha b hb => ?_)
    exact hstep a (List.mem_cons_of_mem _ ha) b (List.mem_cons_of_mem _ hb)

/-- Items and results correspond, each by its own step.  What is true of the last state,
and true before a step if it is after it, may be used for every step. -/
theorem forall₂ {P : σ → Prop} {Q : α → β → Prop} (h : Threaded step items s results s')
    (hlast : P s') (hback : ∀ a ∈ items, ∀ {s b s'}, step a s b s' → P s' → P s)
    (hstep : ∀ a ∈ items, ∀ {s b s'}, step a s b s' → P s' → Q a b) :
    P s ∧ List.Forall₂ Q items results := by
  induction h with
  | nil => exact ⟨hlast, .nil⟩
  | cons hfirst _ ih =>
    obtain ⟨hback, hbacks⟩ := List.forall_mem_cons.1 hback
    obtain ⟨hstep, hsteps⟩ := List.forall_mem_cons.1 hstep
    obtain ⟨hmid, hrest⟩ := ih hlast hbacks hsteps
    exact ⟨hback hfirst hmid, .cons (hstep hfirst hmid) hrest⟩

/-- Each step is one on states of another kind too. -/
theorem map {P : σ → Prop} {f : σ → τ} {g : α → τ → β → τ → Prop}
    (h : Threaded step items s results s') (hlast : P s')
    (hback : ∀ a ∈ items, ∀ {s b s'}, step a s b s' → P s' → P s)
    (hstep : ∀ a ∈ items, ∀ {s b s'}, step a s b s' → P s' → g a (f s) b (f s')) :
    P s ∧ Threaded g items (f s) results (f s') := by
  induction h with
  | nil => exact ⟨hlast, .nil⟩
  | cons hfirst _ ih =>
    obtain ⟨hback, hbacks⟩ := List.forall_mem_cons.1 hback
    obtain ⟨hstep, hsteps⟩ := List.forall_mem_cons.1 hstep
    obtain ⟨hmid, hrest⟩ := ih hlast hbacks hsteps
    exact ⟨hback hfirst hmid, .cons (hstep hfirst hmid) hrest⟩

end Threaded

/-! ### Compilations -/

/-- The tables after a piece of scratch memory has been handed out. -/
def Ledger.allocated (l : Ledger) (length : Nat) : Ledger :=
  { l with scratch := ⟨l.scratch.size + length⟩ }

namespace Compiling

variable {α β : Type}

/-- The computation succeeds with the value and takes the first tables to the
second. -/
def Yields (m : Compiling α) (before : Ledger) (value : α) (after : Ledger) : Prop :=
  m before = .ok (value, after)

variable {m : Compiling α} {f : α → Compiling β} {l l' l'' : Ledger} {a a' : α} {b : β}

/-! ### Rules of computations -/

@[simp] theorem yields_pure_iff : Yields (pure a) l a' l' ↔ a' = a ∧ l' = l := by
  show Except.ok (a, l) = Except.ok (a', l') ↔ _
  rw [Except.ok.injEq, Prod.mk.injEq, eq_comm, eq_comm (a := l)]

/-- What two computations yield one after the other, the first one yields first. -/
@[simp] theorem yields_bind_iff :
    Yields (m >>= f) l b l'' ↔ ∃ a l', Yields m l a l' ∧ Yields (f a) l' b l'' := by
  -- a computation is a function of the tables, so both sides look at its result there
  show (m l >>= fun r => f r.1 r.2) = .ok (b, l'') ↔ _
  unfold Yields
  cases m l with
  | error refusal =>
    constructor
    · intro h
      nomatch h
    · rintro ⟨a, l', h, -⟩
      nomatch h
  | ok r =>
    constructor
    · intro h
      exact ⟨r.1, r.2, rfl, h⟩
    · rintro ⟨a, l', h, hf⟩
      cases h
      exact hf

@[simp] theorem yields_map_iff {g : α → β} :
    Yields (g <$> m) l b l' ↔ ∃ a, Yields m l a l' ∧ b = g a := by
  rw [← bind_pure_comp, yields_bind_iff]
  constructor
  · rintro ⟨a, l', h, hpure⟩
    obtain ⟨rfl, rfl⟩ := yields_pure_iff.1 hpure
    exact ⟨a, h, rfl⟩
  · rintro ⟨a, h, rfl⟩
    exact ⟨a, l', h, yields_pure_iff.2 ⟨rfl, rfl⟩⟩

@[simp] theorem yields_lift_iff {result : Except Refusal α} :
    Yields (lift result) l a l' ↔ result = .ok a ∧ l' = l := by
  unfold Yields lift
  cases result with
  | error refusal => simp
  | ok value => simp [eq_comm]

@[simp] theorem not_yields_refuse {refusal : Refusal} : ¬ Yields (refuse refusal) l a l' :=
  fun h => nomatch h

@[simp] theorem yields_ensure_iff {condition : Bool} {refusal : Refusal} {u : Unit} :
    Yields (ensure condition refusal) l u l' ↔ condition = true ∧ l' = l := by
  cases condition with
  | false => simp [ensure]
  | true => simp [ensure]

@[simp] theorem yields_get_iff {value : Ledger} :
    Yields get l value l' ↔ value = l ∧ l' = l := by
  show Except.ok (l, l) = Except.ok (value, l') ↔ _
  rw [Except.ok.injEq, Prod.mk.injEq, eq_comm, eq_comm (a := l)]

@[simp] theorem yields_modify_iff {change : Ledger → Ledger} {u : PUnit} :
    Yields (modify change) l u l' ↔ l' = change l := by
  show Except.ok (PUnit.unit, change l) = Except.ok (u, l') ↔ _
  rw [Except.ok.injEq, Prod.mk.injEq, eq_comm (a := change l)]
  exact and_iff_right rfl

@[simp] theorem yields_countFits_iff {what : Counted} {count : Nat} {u : Unit} :
    Yields (countFits what count) l u l' ↔ count ≤ maxCount ∧ l' = l := by
  rw [countFits, yields_ensure_iff, decide_eq_true_iff]

@[simp] theorem yields_lengthFits_iff {what : Measured} {length : Nat} {u : Unit} :
    Yields (lengthFits what length) l u l' ↔ length ≤ maxLength ∧ l' = l := by
  rw [lengthFits, yields_ensure_iff, decide_eq_true_iff]

/-! ### Rules of the tables -/

@[simp] theorem yields_allocate_iff {length : Nat} {offset : UInt16} :
    Yields (allocate length) l offset l' ↔
      l.scratch.size + length ≤ maxLength ∧ offset = UInt16.ofNat l.scratch.size ∧
        l' = l.allocated length := by
  unfold Yields allocate Scratch.allocate Ledger.allocated
  by_cases h : maxLength < l.scratch.size + length
  · rw [if_pos h]
    simp [h]
  · rw [if_neg h]
    simp [Nat.not_lt.1 h, eq_comm]

theorem yields_property_iff {around : Surroundings} {reference : Property} {index : UInt8} :
    Yields (property around reference) l index l' ↔
      around.allows reference.extension = true ∧
        ∃ place table, enterProperty l.properties reference = .ok (place, table) ∧
          place < maxCount ∧ index = UInt8.ofNat place ∧ l' = { l with properties := table } := by
  unfold Yields property
  by_cases hallows : around.allows reference.extension = true
  · rw [if_pos hallows]
    cases henter : enterProperty l.properties reference with
    | error refusal => simp
    | ok result =>
      obtain ⟨place, table⟩ := result
      by_cases hplace : place < maxCount
      · simp [hallows, hplace, eq_comm]
      · simp [hplace]
  · rw [if_neg hallows]
    simp [hallows]

theorem yields_function_iff {reference : Function} {index : UInt16} :
    Yields (function reference) l index l' ↔
      (enterFunction l.functions reference).1 ≤ maxLength ∧
        index = UInt16.ofNat (enterFunction l.functions reference).1 ∧
        l' = { l with functions := (enterFunction l.functions reference).2 } := by
  unfold Yields function
  by_cases h : (enterFunction l.functions reference).1 ≤ maxLength
  · simp [h, eq_comm]
  · simp [h]

end Compiling

end Timepiece
