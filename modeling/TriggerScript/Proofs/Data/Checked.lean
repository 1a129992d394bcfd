import Mathlib

/-!
Computations that may fail.

A sequence of computations succeeds exactly if each of them does, and a list is computed entry by
entry.
-/

namespace TriggerScript

open List

variable {ε α β : Type} {result : β} {compute : α → Except ε β} {entries : List α}
  {results : List β}

/-- What depends on a key only is a function of the key. -/
theorem exists_determined {γ : Type} [Nonempty γ] {key : α → β} {value : α → γ}
    (uniform : ∀ first ∈ entries, ∀ second ∈ entries, key first = key second →
      value first = value second) :
    ∃ determined : β → γ, ∀ entry ∈ entries, determined (key entry) = value entry := by
  have factors : Function.FactorsThrough (fun entry : {entry // entry ∈ entries} => value entry.1)
      fun entry => key entry.1 := fun first second => uniform first first.2 second second.2
  obtain ⟨determined, same⟩ := (Function.factorsThrough_iff _).mp factors
  exact ⟨determined, fun entry member => (congrFun same ⟨entry, member⟩).symm⟩

theorem bind_eq_ok {next : α → Except ε β} :
    first >>= next = .ok result ↔ ∃ value, first = .ok value ∧ next value = .ok result := by
  cases first with
  | error fault | ok value => simp [bind, Except.bind]

section

variable (computed : entries.mapM compute = .ok results)

include computed

theorem forall₂_of_mapM :
    Forall₂ (fun entry result => compute entry = .ok result) entries results := by
  induction entries generalizing results with
  | nil =>
    cases computed
    exact .nil
  | cons entry rest ih =>
    rw [mapM_cons, bind_eq_ok] at computed
    obtain ⟨first, here, later⟩ := computed
    rw [bind_eq_ok] at later
    obtain ⟨others, there, joined⟩ := later
    cases joined
    exact .cons here (ih there)

theorem exists_of_getElem?_mapM {index : Nat} (there : results[index]? = some result) :
    ∃ entry, entries[index]? = some entry ∧ compute entry = .ok result := by
  have belong := forall₂_of_mapM computed
  clear computed
  induction belong generalizing index with
  | nil => cases there
  | cons here _ ih =>
    cases index with
    | zero =>
      cases there
      exact ⟨_, rfl, here⟩
    | succ index => exact ih there

theorem exists_of_mem_mapM (member : result ∈ results) :
    ∃ entry ∈ entries, compute entry = .ok result := by
  obtain ⟨index, there⟩ := mem_iff_getElem?.mp member
  obtain ⟨entry, listed, here⟩ := exists_of_getElem?_mapM computed there
  exact ⟨entry, mem_of_getElem? listed, here⟩

end

theorem forall_of_forM {check : α → Except ε Unit} (checked : entries.forM check = .ok ()) :
    ∀ entry ∈ entries, check entry = .ok () := by
  induction entries with
  | nil => exact forall_mem_nil _
  | cons entry rest ih =>
    rw [forM_eq_forM, forM_cons, bind_eq_ok] at checked
    obtain ⟨_, here, later⟩ := checked
    exact forall_mem_cons.mpr ⟨here, ih later⟩

theorem exists_mapM
    (computes : ∀ entry ∈ entries, ∃ result, compute entry = .ok result ∧ holds entry result) :
    ∃ results, entries.mapM compute = .ok results ∧ Forall₂ holds entries results := by
  induction entries with
  | nil => exact ⟨[], rfl, .nil⟩
  | cons entry rest ih =>
    rw [forall_mem_cons] at computes
    obtain ⟨result, here, first⟩ := computes.1
    obtain ⟨results, there, others⟩ := ih computes.2
    refine ⟨result :: results, ?_, .cons first others⟩
    rw [mapM_cons, here, there]
    rfl

theorem mem_mapM (computed : entries.mapM compute = .ok results) (member : entry ∈ entries) :
    ∃ result ∈ results, compute entry = .ok result := by
  have belong := forall₂_of_mapM computed
  clear computed
  induction belong with
  | nil => cases member
  | cons here _ ih =>
    rcases mem_cons.mp member with rfl | behind
    · exact ⟨_, mem_cons_self, here⟩
    · obtain ⟨result, listed, there⟩ := ih behind
      exact ⟨result, mem_cons_of_mem _ listed, there⟩

theorem exists_mapM_iff : (∃ results, entries.mapM compute = .ok results) ↔
      ∀ entry ∈ entries, ∃ result, compute entry = .ok result := by
  constructor
  · rintro ⟨results, computed⟩ entry member
    obtain ⟨result, _, here⟩ := mem_mapM computed member
    exact ⟨result, here⟩
  · intro computes
    have both : ∀ entry ∈ entries, ∃ result, compute entry = .ok result ∧ True :=
      fun entry member => (computes entry member).imp fun _ here => ⟨here, trivial⟩
    obtain ⟨results, computed, _⟩ := exists_mapM both
    exact ⟨results, computed⟩

/-- What holds at first, and after each step if it held before, holds in the end. -/
theorem holds_of_foldlM (holds : β → Prop) {step : β → α → Except ε β}
    (computed : entries.foldlM step start = .ok final) (here : holds start)
    (keeps : ∀ entry ∈ entries, ∀ state next, holds state → step state entry = .ok next →
      holds next) :
    holds final := by
  induction entries generalizing start with
  | nil =>
    cases computed
    exact here
  | cons entry rest ih =>
    rw [foldlM_cons, bind_eq_ok] at computed
    obtain ⟨next, stepped, later⟩ := computed
    rw [forall_mem_cons] at keeps
    exact ih later (keeps.1 start next here stepped) keeps.2

end TriggerScript
