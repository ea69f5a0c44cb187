import Mathlib.Data.List.Basic

/-! A byte stream in the pieces it arrives in, read exactly. What is read depends on the
pieces put together, not on where they are cut. -/
namespace AtlasKernel.Lib
variable {α β γ ε : Type*}

/-- `read_exact` of one element; the stream ends with its last piece. -/
def readOne : List (List α) → Option (α × List (List α))
  | [] => none
  | [] :: stream => readOne stream
  | (a :: as) :: stream => some (a, as :: stream)

/-- `read_exact` of `n` elements. -/
def readExact : Nat → List (List α) → Option (List α × List (List α))
  | 0, stream => some ([], stream)
  | n+1, stream =>
    match readOne stream with
    | none => none
    | some (a, stream) => (readExact n stream).map fun r => (a :: r.1, r.2)

theorem readOne_flatten {stream rest : List (List α)} {a : α} (h : readOne stream = some (a, rest)) :
    stream.flatten = a :: rest.flatten := by
  induction stream with
  | nil => cases h
  | cons piece stream ih =>
    cases piece with
    | nil => exact ih h
    | cons b bs =>
      cases h
      rfl

theorem readOne_of_cons {stream : List (List α)} {a : α} {as : List α} (h : stream.flatten = a :: as) :
    ∃ rest, readOne stream = some (a, rest) ∧ rest.flatten = as := by
  induction stream with
  | nil => cases h
  | cons piece stream ih =>
    cases piece with
    | nil => exact ih h
    | cons b bs =>
      cases h
      exact ⟨bs :: stream, rfl, rfl⟩

theorem readExact_of_append {stream : List (List α)} {bs as : List α} (h : stream.flatten = bs ++ as) :
    ∃ rest, readExact bs.length stream = some (bs, rest) ∧ rest.flatten = as := by
  induction bs generalizing stream with
  | nil => exact ⟨stream, rfl, h⟩
  | cons b bs ih =>
    obtain ⟨next,hone,hnext⟩ := readOne_of_cons h
    obtain ⟨rest,hread,hrest⟩ := ih hnext
    refine ⟨rest, ?_, hrest⟩
    rw [List.length_cons, readExact, hone]
    change (readExact bs.length next).map _ = _
    rw [hread]
    rfl

theorem readExact_flatten {n : Nat} {stream rest : List (List α)} {bs : List α}
    (h : readExact n stream = some (bs, rest)) : stream.flatten = bs ++ rest.flatten ∧ bs.length = n := by
  induction n generalizing stream bs with
  | zero =>
    cases h
    exact ⟨rfl, rfl⟩
  | succ n ih =>
    rw [readExact] at h
    split at h
    case h_1 => cases h
    case h_2 a next hone =>
      obtain ⟨r,hread,heq⟩ := Option.map_eq_some_iff.mp h
      cases heq
      obtain ⟨hflat,hlen⟩ := ih hread
      refine ⟨?_, congrArg Nat.succ hlen⟩
      rw [readOne_flatten hone, hflat]
      rfl

/-- So many things, one behind the other. -/
def readMany (read : List (List α) → Except ε (β × List (List α))) :
    Nat → List (List α) → Except ε (List β × List (List α))
  | 0, stream => .ok ([], stream)
  | n+1, stream =>
    match read stream with
    | .error err => .error err
    | .ok (b, stream) => (readMany read n stream).map fun r => (b :: r.1, r.2)

/-- What is read back one at a time is read back in order. -/
theorem readMany_of_flatMap {read : List (List α) → Except ε (β × List (List α))}
    {bytes : γ → List α} {value : γ → β} {items : List γ}
    (hread : ∀ item ∈ items, ∀ stream more, stream.flatten = bytes item ++ more →
      ∃ rest, read stream = .ok (value item, rest) ∧ rest.flatten = more)
    {stream : List (List α)} {more : List α} (h : stream.flatten = items.flatMap bytes ++ more) :
    ∃ rest, readMany read items.length stream = .ok (items.map value, rest) ∧
      rest.flatten = more := by
  induction items generalizing stream with
  | nil => exact ⟨stream,rfl,h⟩
  | cons item items ih =>
    rw [List.flatMap_cons, List.append_assoc] at h
    obtain ⟨next,hone,hnext⟩ := hread item List.mem_cons_self stream _ h
    obtain ⟨rest,hmany,hrest⟩ := ih (fun i hi => hread i (List.mem_cons_of_mem _ hi)) hnext
    refine ⟨rest,?_,hrest⟩
    rw [List.length_cons, readMany, hone]
    simp only [hmany, Except.map, List.map_cons]

end AtlasKernel.Lib
