import AtlasKernel.Lib.PollIo

/-! Where the reads of a source end. A reader with a buffer of a fixed size that reads until it
has enough has more than enough then, in general; how much is decided by the source alone. -/
namespace AtlasKernel.Lib
variable {α : Type*}

/-- No read of the source fails. -/
def Flawless (src : Source α) : Prop := ∀ err, .fail err ∉ src

theorem Flawless.read {room : Nat} {src src' : Source α} {r : Poll (IoResult (List α))}
    (h : Flawless src) (hr : pollRead room src = (r, src')) :
    Flawless src' ∧ ∀ err, r ≠ .ready (.error err) := by
  rcases pollRead_cases room src with ⟨rfl,hr'⟩ | ⟨es,rfl,hr'⟩ | ⟨e,es,rfl,hr'⟩ |
    ⟨b,bs,es,p,rest,rfl,hr',_⟩
  · rw [hr'] at hr
    cases hr
    exact ⟨h, fun err heq => by cases heq⟩
  · rw [hr'] at hr
    cases hr
    exact ⟨fun err hmem => h err (List.mem_cons_of_mem _ hmem), fun err heq => by cases heq⟩
  · exact absurd List.mem_cons_self (h e)
  · refine ⟨fun err hmem => ?_, fun err heq => ?_⟩
    · rw [pollRead.eq_def] at hr
      dsimp only at hr
      split at hr
      · cases hr
        exact h err (List.mem_cons_of_mem _ hmem)
      · cases hr
        cases List.mem_cons.mp hmem with
        | inl heq => cases heq
        | inr htail => exact h err (List.mem_cons_of_mem _ htail)
    · rw [hr'] at hr
      cases hr
      cases heq

theorem sourceSize_pending {src : Source α} : sourceSize src < sourceSize (.pending :: src) := by
  rw [sourceSize, sourceSize, List.length_cons, sourceBytes_pending]
  omega

/-- How much has been read when it is `enough` for the first time, by reads of at most `room`;
`n` has been read before. -/
def firstCut (room enough n : Nat) (src : Source α) : Option Nat :=
  match _h : pollRead room src with
  | (.pending, src') => firstCut room enough n src'
  | (.ready (.error _), _) => none
  | (.ready (.ok filled), src') =>
    if _hp : filled = [] then none
    else if enough ≤ n + filled.length then some (n + filled.length)
    else firstCut room enough (n + filled.length) src'
termination_by sourceSize src
decreasing_by
  · rw [pollRead_pending _h]
    exact sourceSize_pending
  · exact sourceSize_pollRead _h _hp

variable {room enough n : Nat} {src src' : Source α}

theorem firstCut_pending (h : pollRead room src = (.pending, src')) :
    firstCut room enough n src = firstCut room enough n src' := by
  rw [firstCut]
  split
  case h_1 heq => rw [Prod.mk.inj (h.symm.trans heq) |>.2]
  case h_2 heq | h_3 heq => cases h.symm.trans heq

theorem firstCut_end (h : pollRead room src = (.ready (.ok []), src')) :
    firstCut room enough n src = none := by
  rw [firstCut]
  split
  case h_1 heq => cases h.symm.trans heq
  case h_2 heq => cases h.symm.trans heq
  case h_3 heq =>
    cases h.symm.trans heq
    rfl

theorem firstCut_read {filled : List α} (h : pollRead room src = (.ready (.ok filled), src'))
    (hp : filled ≠ []) :
    firstCut room enough n src = if enough ≤ n + filled.length then some (n + filled.length)
      else firstCut room enough (n + filled.length) src' := by
  rw [firstCut]
  split
  case h_1 heq => cases h.symm.trans heq
  case h_2 heq => cases h.symm.trans heq
  case h_3 heq =>
    cases h.symm.trans heq
    rw [dif_neg hp]

theorem firstCut_bounds (room enough n : Nat) (src : Source α) :
    ∀ m ∈ firstCut room enough n src, enough ≤ m ∧ m ≤ n + (sourceBytes src).length := by
  fun_induction firstCut room enough n src with
  | case1 n src src' hr ih =>
    rw [pollRead_pending hr, sourceBytes_pending]
    exact ih
  | case2 => exact fun m hm => by cases hm
  | case3 => exact fun m hm => by cases hm
  | case4 n src filled src' hr hp hle =>
    rintro m hm
    cases hm
    rw [(pollRead_ok hr).1, List.length_append]
    omega
  | case5 n src filled src' hr hp hlt ih =>
    intro m hm
    have hrest := ih m hm
    rw [(pollRead_ok hr).1, List.length_append]
    omega

end AtlasKernel.Lib
