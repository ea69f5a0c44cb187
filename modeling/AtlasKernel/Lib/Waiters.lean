import Mathlib.Data.List.Perm.Basic
import Mathlib.Data.List.Induction
import Mathlib.Algebra.Order.Group.Multiset
import Mathlib.Tactic.Abel

/-! Waiters in the order of their registration. A waiter leaves by being removed, or by
being completed with a result: the oldest one with some key, the oldest one of all, or
all of them. A run keeps the books: whoever was registered is still live, was removed, or
was completed. -/
namespace AtlasKernel.Lib

structure Waiter (κ ι σ : Type*) where
  key : κ
  id : ι
  sender : σ
deriving DecidableEq, Repr

inductive WaiterOp (κ ι σ ρ : Type*) where
  | register (w : Waiter κ ι σ)
  | removeById (key : κ) (id : ι)
  | deliver (key : κ) (result : ρ)
  | deliverNext (result : ρ)
  | failAll (result : ρ)
deriving DecidableEq, Repr

namespace Waiters
variable {κ ι σ ρ : Type*} [DecidableEq κ] [DecidableEq ι]

def named (key : κ) (id : ι) (w : Waiter κ ι σ) : Bool := w.key = key ∧ w.id = id

/-- Who is live afterwards, and who is completed. -/
def step (live : List (Waiter κ ι σ)) :
    WaiterOp κ ι σ ρ → List (Waiter κ ι σ) × List (Waiter κ ι σ × ρ)
  | .register w => (live ++ [w], [])
  | .removeById key id => (live.filter (!named key id ·), [])
  | .deliver key result =>
    (live.eraseP (·.key = key), ((live.find? (·.key = key)).map (·, result)).toList)
  | .deliverNext result => (live.tail, (live.head?.map (·, result)).toList)
  | .failAll result => ([], live.map (·, result))

def registered : WaiterOp κ ι σ ρ → List (Waiter κ ι σ)
  | .register w => [w]
  | _ => []

def removed (live : List (Waiter κ ι σ)) : WaiterOp κ ι σ ρ → List (Waiter κ ι σ)
  | .removeById key id => live.filter (named key id)
  | _ => []

/-- The books of a run; `outcomes` has what each operation completed. -/
structure Books (κ ι σ ρ : Type*) where
  live : List (Waiter κ ι σ)
  registered : List (Waiter κ ι σ)
  removed : List (Waiter κ ι σ)
  outcomes : List (List (Waiter κ ι σ × ρ))
deriving DecidableEq, Repr

def Books.completed (b : Books κ ι σ ρ) : List (Waiter κ ι σ) := b.outcomes.flatten.map (·.1)

def Books.enter (b : Books κ ι σ ρ) (op : WaiterOp κ ι σ ρ) : Books κ ι σ ρ where
  live := (step b.live op).1
  registered := b.registered ++ Waiters.registered op
  removed := b.removed ++ Waiters.removed b.live op
  outcomes := b.outcomes ++ [(step b.live op).2]

def Books.start (live : List (Waiter κ ι σ)) : Books κ ι σ ρ := ⟨live, live, [], []⟩

def Books.play (b : Books κ ι σ ρ) (ops : List (WaiterOp κ ι σ ρ)) : Books κ ι σ ρ :=
  ops.foldl Books.enter b

def run (ops : List (WaiterOp κ ι σ ρ)) : Books κ ι σ ρ := (Books.start []).play ops

@[simp] theorem Books.play_append (b : Books κ ι σ ρ) (ops more : List (WaiterOp κ ι σ ρ)) :
    b.play (ops ++ more) = (b.play ops).play more := List.foldl_append

@[simp] theorem Books.play_singleton (b : Books κ ι σ ρ) (op : WaiterOp κ ι σ ρ) :
    b.play [op] = b.enter op := rfl

/-- What is live depends on what was live. -/
theorem Books.play_live {b c : Books κ ι σ ρ} (h : b.live = c.live)
    (ops : List (WaiterOp κ ι σ ρ)) : (b.play ops).live = (c.play ops).live := by
  induction ops generalizing b c with
  | nil => exact h
  | cons op ops ih => exact ih (congrArg (fun live => (step live op).1) h)

theorem Books.play_registered (b : Books κ ι σ ρ) (ops : List (WaiterOp κ ι σ ρ)) :
    (b.play ops).registered = b.registered ++ ops.flatMap Waiters.registered := by
  induction ops generalizing b with
  | nil => simp [Books.play]
  | cons op ops ih =>
    have hnext : b.play (op :: ops) = (b.enter op).play ops := rfl
    rw [hnext, ih]
    simp [Books.enter]

/-! ## Keeping the books -/

omit [DecidableEq ι] in
theorem oldest_split {key : κ} {before : List (Waiter κ ι σ)} (hbefore : ∀ v ∈ before, v.key ≠ key)
    {w : Waiter κ ι σ} (hkey : w.key = key) (after : List (Waiter κ ι σ)) :
    (before ++ w :: after).find? (·.key = key) = some w ∧
      (before ++ w :: after).eraseP (·.key = key) = before ++ after := by
  constructor
  · rw [List.find?_append, List.find?_eq_none.mpr (by simpa using hbefore),
      List.find?_cons_of_pos (by simpa using hkey)]
    rfl
  · rw [List.eraseP_append_right _ (by simpa using hbefore),
      List.eraseP_cons_of_pos (by simpa using hkey)]

omit [DecidableEq ι] in
/-- The oldest waiter with a key, and the others. -/
theorem find_oldest {live : List (Waiter κ ι σ)} {key : κ} {w : Waiter κ ι σ}
    (h : live.find? (·.key = key) = some w) :
    ∃ before after, live = before ++ w :: after ∧ w.key = key ∧ (∀ v ∈ before, v.key ≠ key) ∧
      live.eraseP (·.key = key) = before ++ after := by
  obtain ⟨hkey,before,after,hlive,hbefore⟩ := List.find?_eq_some_iff_append.mp h
  have hkey' : w.key = key := of_decide_eq_true hkey
  have hbefore' : ∀ v ∈ before, v.key ≠ key := by simpa using hbefore
  refine ⟨before,after,hlive,hkey',hbefore',?_⟩
  rw [hlive]
  exact (oldest_split hbefore' hkey' after).2

/-- One operation neither loses nor doubles a waiter. -/
theorem step_perm (live : List (Waiter κ ι σ)) (op : WaiterOp κ ι σ ρ) :
    (live ++ registered op).Perm
      ((step live op).1 ++ removed live op ++ (step live op).2.map (·.1)) := by
  cases op with
  | register w => simp [step, registered, removed]
  | removeById key id =>
    have hsplit := List.filter_append_perm (named key id) live
    simpa [step, registered, removed] using (List.perm_append_comm.trans hsplit).symm
  | deliver key result =>
    cases hfind : live.find? (·.key = key) with
    | none =>
      have herase : live.eraseP (·.key = key) = live :=
        List.eraseP_of_forall_not (by simpa using hfind)
      simp [step, registered, removed, hfind, herase]
    | some w =>
      obtain ⟨before,after,hlive,_,_,herase⟩ := find_oldest hfind
      simp only [step, registered, removed, hfind, herase, List.append_nil, Option.map_some,
        Option.toList_some, List.map_cons, List.map_nil]
      rw [hlive]
      exact List.perm_middle.trans (List.perm_append_singleton w (before ++ after)).symm
  | deliverNext result =>
    cases live with
    | nil => exact List.Perm.refl _
    | cons w live =>
      simpa [step, registered, removed] using (List.perm_append_singleton w live).symm
  | failAll result => simp [step, registered, removed, Function.comp_def]

theorem step_sublist (live : List (Waiter κ ι σ)) (op : WaiterOp κ ι σ ρ) :
    (step live op).1.Sublist (live ++ registered op) := by
  cases op with
  | register w => exact List.Sublist.refl _
  | removeById key id => simp [step, registered]
  | deliver key result => simpa [step, registered] using List.eraseP_sublist
  | deliverNext result => simpa [step, registered] using List.tail_sublist live
  | failAll result => simp [step, registered]

/-- What the books of every run show: the live waiters are in the order of their
registration, and every registered waiter is live, removed or completed. -/
structure Balanced (b : Books κ ι σ ρ) : Prop where
  order : b.live.Sublist b.registered
  account : b.registered.Perm (b.live ++ b.removed ++ b.completed)

theorem Balanced.enter {b : Books κ ι σ ρ} (hb : Balanced b) (op : WaiterOp κ ι σ ρ) :
    Balanced (b.enter op) := by
  refine ⟨(step_sublist b.live op).trans (hb.order.append_right _),?_⟩
  have hstep := step_perm b.live op
  have hcompleted : (b.enter op).completed = b.completed ++ (step b.live op).2.map (·.1) := by
    simp [Books.completed, Books.enter]
  rw [hcompleted]
  have haccount := Multiset.coe_eq_coe.mpr hb.account
  have hbalance := Multiset.coe_eq_coe.mpr hstep
  apply Multiset.coe_eq_coe.mp
  simp only [Books.enter, ← Multiset.coe_add] at haccount hbalance ⊢
  rw [haccount]
  calc (b.live + b.removed + b.completed + registered op : Multiset (Waiter κ ι σ))
      = b.live + registered op + b.removed + b.completed := by abel
    _ = (step b.live op).1 + removed b.live op + (step b.live op).2.map (·.1) +
          b.removed + b.completed := by rw [hbalance]
    _ = _ := by abel

omit [DecidableEq κ] [DecidableEq ι] in
theorem start_balanced (live : List (Waiter κ ι σ)) :
    Balanced (Books.start live : Books κ ι σ ρ) :=
  ⟨List.Sublist.refl _,by simp [Books.start, Books.completed]⟩

theorem Balanced.play {b : Books κ ι σ ρ} (hb : Balanced b) (ops : List (WaiterOp κ ι σ ρ)) :
    Balanced (b.play ops) := by
  induction ops generalizing b with
  | nil => exact hb
  | cons op ops ih => exact ih (hb.enter op)

omit [DecidableEq κ] [DecidableEq ι] in
/-- With distinct ids, a completed waiter is no longer live. -/
theorem Balanced.completed_gone {b : Books κ ι σ ρ} (hb : Balanced b)
    (hids : (b.registered.map (·.id)).Nodup) {v w : Waiter κ ι σ} (hv : v ∈ b.completed)
    (hw : w ∈ b.live) : w.id ≠ v.id := by
  have hperm := hb.account.map (·.id)
  rw [List.map_append, List.map_append] at hperm
  have hdisjoint := List.nodup_append.mp (hperm.nodup_iff.mp hids)
  exact hdisjoint.2.2 w.id (List.mem_append_left _ (List.mem_map_of_mem hw)) v.id
    (List.mem_map_of_mem hv)

omit [DecidableEq κ] [DecidableEq ι] in
/-- With distinct ids, no waiter is completed twice. -/
theorem Balanced.completed_once {b : Books κ ι σ ρ} (hb : Balanced b)
    (hids : (b.registered.map (·.id)).Nodup) : (b.completed.map (·.id)).Nodup := by
  have hperm := hb.account.map (·.id)
  rw [List.map_append] at hperm
  exact (hperm.nodup_iff.mp hids).of_append_right

/-! ## A waiter that is not completed leaves no trace -/

def without (id : ι) (live : List (Waiter κ ι σ)) : List (Waiter κ ι σ) :=
  live.filter (·.id ≠ id)

/-- The id an operation names. -/
def names : WaiterOp κ ι σ ρ → Option ι
  | .register w => some w.id
  | .removeById _ id => some id
  | _ => none

omit [DecidableEq κ] in
@[simp] theorem without_append (id : ι) (live more : List (Waiter κ ι σ)) :
    without id (live ++ more) = without id live ++ without id more := List.filter_append ..

omit [DecidableEq κ] in
theorem without_cons_of_ne {id : ι} {w : Waiter κ ι σ} (h : w.id ≠ id)
    (live : List (Waiter κ ι σ)) : without id (w :: live) = w :: without id live := by
  simp [without, h]

omit [DecidableEq κ] in
theorem without_eq_self {id : ι} {live : List (Waiter κ ι σ)} (h : ∀ w ∈ live, w.id ≠ id) :
    without id live = live := by
  simpa [without] using h

/-- An operation that neither names nor completes a waiter goes the same way without it. -/
theorem step_without {id : ι} {live : List (Waiter κ ι σ)} {op : WaiterOp κ ι σ ρ}
    (hname : names op ≠ some id) (hdone : ∀ c ∈ (step live op).2, c.1.id ≠ id) :
    step (without id live) op = (without id (step live op).1, (step live op).2) := by
  cases op with
  | register w =>
    have hw : w.id ≠ id := fun heq => hname (congrArg some heq)
    simp [step, without, hw]
  | removeById key id' => simp [step, without, List.filter_filter, Bool.and_comm]
  | deliver key result =>
    cases hfind : live.find? (·.key = key) with
    | none =>
      have hno : ∀ w ∈ live, w.key ≠ key := by simpa using hfind
      have hno' : ∀ w ∈ without id live, w.key ≠ key :=
        fun w hw => hno w (List.mem_of_mem_filter hw)
      have hfind' : (without id live).find? (·.key = key) = none := by simpa using hno'
      simp only [step, hfind, hfind']
      rw [List.eraseP_of_forall_not (by simpa using hno'),
        List.eraseP_of_forall_not (by simpa using hno)]
    | some w =>
      obtain ⟨before,after,rfl,rfl,hbefore,herase⟩ := find_oldest hfind
      have hw : w.id ≠ id := hdone (w,result) (by simp [step, hfind])
      have hbefore' : ∀ v ∈ without id before, v.key ≠ w.key :=
        fun v hv => hbefore v (List.mem_of_mem_filter hv)
      have hsplit : without id (before ++ w :: after) =
          without id before ++ w :: without id after := by
        rw [without_append, without_cons_of_ne hw]
      obtain ⟨hfind',herase'⟩ := oldest_split hbefore' rfl (without id after)
      simp only [step, hsplit, hfind, hfind', herase, herase', without_append]
  | deliverNext result =>
    cases live with
    | nil => rfl
    | cons w live =>
      have hw : w.id ≠ id := hdone (w,result) (by simp [step])
      simp only [step, without_cons_of_ne hw, List.tail_cons, List.head?_cons]
  | failAll result =>
    have hall : ∀ w ∈ live, w.id ≠ id := by
      intro w hw
      exact hdone (w,result) (List.mem_map_of_mem hw)
    simp only [step, without_eq_self hall]
    rfl

end Waiters
end AtlasKernel.Lib
