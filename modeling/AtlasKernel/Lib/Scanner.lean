import Mathlib.Data.List.Basic

/-! Incremental decoders. A scanner takes one unit after another from the front of its
buffer and waits when the buffer does not hold a whole unit. Since a unit that is
there is not changed by what comes after it, the cuts between two pieces of input
make no difference. -/
namespace AtlasKernel.Lib
variable {σ α β : Type*}

/-- `step` takes one unit: the next state, the rest of the buffer, and the output. Every
unit shortens the buffer, or lowers the weight of the state. -/
structure Scanner (σ α β : Type*) where
  step : σ → List α → Option (σ × List α × List β)
  weight : σ → Nat
  decreasing : ∀ {s buf s' rest out}, step s buf = some (s', rest, out) →
    weight s' + rest.length < weight s + buf.length
  stable : ∀ {s buf s' rest out}, step s buf = some (s', rest, out) →
    ∀ more, step s (buf ++ more) = some (s', rest ++ more, out)

namespace Scanner

/-- All units the buffer holds. -/
def run (c : Scanner σ α β) (s : σ) (buf : List α) : σ × List α × List β :=
  match _h : c.step s buf with
  | none => (s, buf, [])
  | some (s', rest, out) =>
    let r := run c s' rest
    (r.1, r.2.1, out ++ r.2.2)
termination_by c.weight s + buf.length
decreasing_by exact c.decreasing _h

variable {c : Scanner σ α β} {s s' : σ} {buf rest : List α} {out : List β}

theorem run_wait (h : c.step s buf = none) : c.run s buf = (s, buf, []) := by
  rw [run]; split <;> simp_all

theorem run_unit (h : c.step s buf = some (s', rest, out)) :
    c.run s buf = ((c.run s' rest).1, (c.run s' rest).2.1, out ++ (c.run s' rest).2.2) := by
  rw [run]; split <;> simp_all

/-- The buffer that is left holds no whole unit. -/
theorem run_settled (c : Scanner σ α β) (s : σ) (buf : List α) :
    c.step (c.run s buf).1 (c.run s buf).2.1 = none := by
  induction s, buf using run.induct c with
  | case1 s buf h => rw [run_wait h]; exact h
  | case2 s buf s' rest out h ih => rw [run_unit h]; exact ih

theorem run_append (c : Scanner σ α β) (s : σ) (buf more : List α) :
    c.run s (buf ++ more) =
      let r := c.run s buf
      let r' := c.run r.1 (r.2.1 ++ more)
      (r'.1, r'.2.1, r.2.2 ++ r'.2.2) := by
  induction s, buf using run.induct c with
  | case1 s buf h => simp [run_wait h]
  | case2 s buf s' rest out h ih =>
    rw [run_unit h, run_unit (c.stable h more), ih]
    simp

/-- One push: what was pending, and the new input behind it. -/
def push (c : Scanner σ α β) (st : σ × List α) (data : List α) : (σ × List α) × List β :=
  let r := c.run st.1 (st.2 ++ data)
  ((r.1, r.2.1), r.2.2)

def pushAll (c : Scanner σ α β) (st : σ × List α) : List (List α) → (σ × List α) × List β
  | [] => (st, [])
  | data :: more =>
    let r := c.push st data
    let r' := pushAll c r.1 more
    (r'.1, r.2 ++ r'.2)

/-- However the input is cut, pushing the pieces is pushing the whole. -/
theorem pushAll_flatten (c : Scanner σ α β) (st : σ × List α) (hst : c.step st.1 st.2 = none)
    (pieces : List (List α)) : c.pushAll st pieces = c.push st pieces.flatten := by
  induction pieces generalizing st with
  | nil => simp [pushAll, push, run_wait hst]
  | cons data more ih =>
    have hnext := c.run_settled st.1 (st.2 ++ data)
    have happ := c.run_append st.1 (st.2 ++ data) more.flatten
    simp only [pushAll, push]
    rw [ih _ hnext, List.flatten_cons, ← List.append_assoc, happ]
    rfl

end Scanner
end AtlasKernel.Lib
