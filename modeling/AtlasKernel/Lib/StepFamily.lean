import AtlasKernel.Lib.Steps
import Mathlib.Logic.Function.Basic

/-! Machines side by side, each under its key. An event goes to the machine of its key, and what the
machines of other keys do in between makes no difference. -/
namespace AtlasKernel.Lib
variable {κ σ α β : Type*} [DecidableEq κ] (step : σ → α → σ × List β) (key : α → κ)

def family (s : κ → σ) (a : α) : (κ → σ) × List β :=
  let r := step (s (key a)) a
  (Function.update s (key a) r.1, r.2)

theorem family_self (s : κ → σ) (a : α) :
    (family step key s a).1 (key a) = (step (s (key a)) a).1 := Function.update_self ..

theorem family_of_ne {a : α} {k : κ} (h : key a ≠ k) (s : κ → σ) :
    (family step key s a).1 k = s k := Function.update_of_ne (Ne.symm h) ..

theorem family_keeps {I : κ → σ → Prop} {s : κ → σ} (hs : ∀ k, I k (s k)) {a : α}
    (h : I (key a) (step (s (key a)) a).1) (k : κ) : I k ((family step key s a).1 k) := by
  by_cases hk : key a = k
  · subst hk
    rw [family_self]
    exact h
  · rw [family_of_ne step key hk]
    exact hs k

/-- What is put out under one key is what its machine puts out, as long as the machines put out
under their own keys. -/
theorem run_family_output (okey : β → κ) {I : κ → σ → Prop} {as : List α}
    (hstep : ∀ s, ∀ a ∈ as, I (key a) s →
      I (key a) (step s a).1 ∧ ∀ b ∈ (step s a).2, okey b = key a)
    {s : κ → σ} (hs : ∀ k, I k (s k)) (k : κ) :
    (run (family step key) s as).2.filter (okey · = k) =
      (run step (s k) (as.filter (key · = k))).2 := by
  induction as generalizing s with
  | nil => rfl
  | cons a as ih =>
    obtain ⟨hnext,hkey⟩ := hstep (s (key a)) a List.mem_cons_self (hs _)
    have hout : (family step key s a).2 = (step (s (key a)) a).2 := rfl
    rw [run, List.filter_append, ih (fun s b hb => hstep s b (List.mem_cons_of_mem a hb))
      (family_keeps step key hs hnext)]
    by_cases hk : key a = k
    · subst hk
      have hall : ∀ b ∈ (step (s (key a)) a).2, decide (okey b = key a) = true := fun b hb =>
        decide_eq_true (hkey b hb)
      rw [List.filter_cons_of_pos (by simp), run, family_self, hout, List.filter_eq_self.mpr hall]
    · have hnone : ∀ b ∈ (step (s (key a)) a).2, ¬ decide (okey b = k) = true := fun b hb hb' =>
        hk ((hkey b hb).symm.trans (of_decide_eq_true hb'))
      rw [List.filter_cons_of_neg (by simpa using hk), family_of_ne step key hk, hout,
        List.filter_eq_nil_iff.mpr hnone, List.nil_append]

/-- What every machine keeps, all of them keep together. -/
theorem run_family_invariant {I : κ → σ → Prop} {P : β → Prop} {as : List α}
    (hstep : ∀ s, ∀ a ∈ as, I (key a) s → I (key a) (step s a).1 ∧ ∀ b ∈ (step s a).2, P b)
    {s : κ → σ} (hs : ∀ k, I k (s k)) :
    (∀ k, I k ((run (family step key) s as).1 k)) ∧ ∀ b ∈ (run (family step key) s as).2, P b := by
  induction as generalizing s with
  | nil => exact ⟨hs,nofun⟩
  | cons a as ih =>
    obtain ⟨hnext,hout⟩ := hstep (s (key a)) a List.mem_cons_self (hs _)
    obtain ⟨hstate,houts⟩ := ih (fun s b hb => hstep s b (List.mem_cons_of_mem a hb))
      (family_keeps step key hs hnext)
    rw [run]
    exact ⟨hstate,fun b hb => (List.mem_append.mp hb).elim (hout b) (houts b)⟩

end AtlasKernel.Lib
