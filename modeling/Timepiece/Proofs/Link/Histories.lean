import Mathlib

/-!
# What is true throughout a history

A machine takes one input after the other.  What is asked of an input often depends on those
before it: that the pause which ends was begun, that the link is still up.

## Main definitions

* `Throughout` — every input of a sequence is as it should be after those before it.

## Main results

* `throughout_cons`, `throughout_concat` — of the first input, and of the last one.
* `Throughout.induct` — **what every input keeps, every sequence of inputs keeps**.
-/

namespace Timepiece

variable {α : Type} {Q : List α → α → Prop} {inputs past rest : List α} {input : α}

/-- Every input of a sequence is as it should be after those before it. -/
def Throughout (Q : List α → α → Prop) (inputs : List α) : Prop :=
  ∀ past input, past ++ [input] <+: inputs → Q past input

theorem throughout_nil : Throughout Q [] := by
  intro past input hinit
  exact absurd (List.prefix_nil.1 hinit) (by simp)

theorem throughout_concat :
    Throughout Q (inputs ++ [input]) ↔ Throughout Q inputs ∧ Q inputs input := by
  constructor
  · intro h
    refine ⟨fun past other hinit => h past other ?_, h inputs input (List.prefix_refl _)⟩
    exact hinit.trans (List.prefix_append inputs [input])
  · rintro ⟨hinputs, hinput⟩ past other hinit
    rcases List.prefix_concat_iff.1 hinit with heq | hinit
    · obtain ⟨rfl, hother⟩ := List.append_inj' heq rfl
      exact List.singleton_inj.1 hother ▸ hinput
    · exact hinputs past other hinit

theorem throughout_cons :
    Throughout Q (input :: rest) ↔
      Q [] input ∧ Throughout (fun past => Q (input :: past)) rest := by
  constructor
  · intro h
    refine ⟨h [] input ⟨rest, rfl⟩, fun past other hinit => h (input :: past) other ?_⟩
    exact List.cons_prefix_cons.2 ⟨rfl, hinit⟩
  · rintro ⟨hinput, hrest⟩ past other hinit
    cases past with
    | nil => exact (List.cons_prefix_cons.1 hinit).1 ▸ hinput
    | cons first past =>
      rw [List.cons_append, List.cons_prefix_cons] at hinit
      obtain ⟨rfl, hinit⟩ := hinit
      exact hrest past other hinit

/-- What can be decided of every input can be decided throughout a sequence. -/
instance decidableThroughout (Q : List α → α → Prop) [∀ past input, Decidable (Q past input)]
    (inputs : List α) : Decidable (Throughout Q inputs) :=
  match inputs with
  | [] => .isTrue throughout_nil
  | input :: rest =>
    have := decidableThroughout (fun past => Q (input :: past)) rest
    decidable_of_iff _ throughout_cons.symm

/-- What is true throughout a sequence is true throughout the later part of it, of the
inputs after the earlier part. -/
theorem Throughout.later (h : Throughout Q (past ++ rest)) :
    Throughout (fun before => Q (past ++ before)) rest := by
  intro before input hinit
  refine h (past ++ before) input ?_
  rw [List.append_assoc]
  exact (List.prefix_append_right_inj past).2 hinit

theorem Throughout.earlier (h : Throughout Q inputs) (hpast : past <+: inputs) :
    Throughout Q past := fun before input hinit => h before input (hinit.trans hpast)

theorem Throughout.and {R : List α → α → Prop} (h : Throughout Q inputs)
    (h' : Throughout R inputs) :
    Throughout (fun past input => Q past input ∧ R past input) inputs :=
  fun past input hinit => ⟨h past input hinit, h' past input hinit⟩

/-- What is true at first and kept by every input that is as it should be, is true after a
sequence of such inputs. -/
theorem Throughout.induct {P : List α → Prop} (h : Throughout Q inputs) (hstart : P [])
    (hstep : ∀ past input, Q past input → P past → P (past ++ [input])) : P inputs := by
  -- from the last input back
  induction inputs using List.reverseRecOn with
  | nil => exact hstart
  | append_singleton past input ih =>
    obtain ⟨hpast, hinput⟩ := throughout_concat.1 h
    exact hstep past input hinput (ih hpast)

end Timepiece
