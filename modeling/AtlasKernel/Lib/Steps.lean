import Mathlib.Data.List.Basic

/-! Machines that take one event after another. A step also says what it put out, and the
output of a run is that of its steps. An event that does not apply leaves the state as it
is. -/
namespace AtlasKernel.Lib
variable {σ α β : Type*} {step : σ → α → σ × List β} {Ok : σ → α → Prop}

def run (step : σ → α → σ × List β) (s : σ) : List α → σ × List β
  | [] => (s, [])
  | a :: as => ((run step (step s a).1 as).1, (step s a).2 ++ (run step (step s a).1 as).2)

/-- Every event meets `Ok` in the state it comes to. -/
def Meets (step : σ → α → σ × List β) (Ok : σ → α → Prop) (s : σ) : List α → Prop
  | [] => True
  | a :: as => Ok s a ∧ Meets step Ok (step s a).1 as

instance Meets.decide (step : σ → α → σ × List β) (Ok : σ → α → Prop)
    [∀ s a, Decidable (Ok s a)] (s : σ) : (as : List α) → Decidable (Meets step Ok s as)
  | [] => .isTrue trivial
  | a :: as => @instDecidableAnd _ _ _ (Meets.decide step Ok (step s a).1 as)

theorem run_append (s : σ) (as bs : List α) :
    run step s (as ++ bs) =
      ((run step (run step s as).1 bs).1,
        (run step s as).2 ++ (run step (run step s as).1 bs).2) := by
  induction as generalizing s with
  | nil => rfl
  | cons a as ih => simp only [List.cons_append, run, ih, List.append_assoc]

theorem meets_append {s : σ} {as bs : List α} :
    Meets step Ok s (as ++ bs) ↔ Meets step Ok s as ∧ Meets step Ok (run step s as).1 bs := by
  induction as generalizing s with
  | nil => simp [Meets, run]
  | cons a as ih => simp only [List.cons_append, Meets, run, ih, and_assoc]

theorem meets_of_forall {as : List α} (h : ∀ a ∈ as, ∀ s, Ok s a) (s : σ) :
    Meets step Ok s as := by
  induction as generalizing s with
  | nil => trivial
  | cons a as ih =>
    obtain ⟨ha,has⟩ := List.forall_mem_cons.mp h
    exact ⟨ha s, ih has _⟩

/-- In the states that the steps can lead to, two conditions that agree are met together. -/
theorem meets_congr {Ok' : σ → α → Prop} {I : σ → Prop} (hstep : ∀ s a, I s → I (step s a).1)
    (h : ∀ s a, I s → (Ok s a ↔ Ok' s a)) {s : σ} (hs : I s) (as : List α) :
    Meets step Ok s as ↔ Meets step Ok' s as := by
  induction as generalizing s with
  | nil => rfl
  | cons a as ih => exact and_congr (h s a hs) (ih (hstep s a hs))

/-- What every step keeps, a run keeps. -/
theorem run_invariant (I : σ → List β → Prop)
    (hstep : ∀ s log a, I s log → Ok s a → I (step s a).1 (log ++ (step s a).2))
    {s : σ} {log : List β} (h : I s log) (as : List α) (hm : Meets step Ok s as) :
    I (run step s as).1 (log ++ (run step s as).2) := by
  induction as generalizing s log with
  | nil =>
    rw [run, List.append_nil]
    exact h
  | cons a as ih =>
    rw [run, ← List.append_assoc]
    exact ih (hstep s log a h hm.1) hm.2

end AtlasKernel.Lib
