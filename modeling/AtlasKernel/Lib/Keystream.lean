import Mathlib.Data.List.Basic

/-! Byte-by-byte transducers: a stream cipher is a state that turns one symbol
into another and moves on. Only the order of the symbols matters, never how they
were cut into calls. -/
namespace AtlasKernel.Lib
variable {α κ : Type*}

structure Keystream (κ α : Type*) where
  step : κ → α → α × κ

def Keystream.apply (c : Keystream κ α) (k : κ) : List α → List α × κ
  | [] => ([], k)
  | a :: as =>
    let (b, k') := c.step k a
    let (bs, k'') := c.apply k' as
    (b :: bs, k'')

def Keystream.output (c : Keystream κ α) (k : κ) (as : List α) : List α := (c.apply k as).1
def Keystream.after (c : Keystream κ α) (k : κ) (as : List α) : κ := (c.apply k as).2

@[simp] theorem output_nil (c : Keystream κ α) (k : κ) : c.output k [] = [] := rfl

theorem output_length (c : Keystream κ α) (k : κ) (as : List α) :
    (c.output k as).length = as.length := by
  induction as generalizing k with
  | nil => rfl
  | cons a as ih => simpa [Keystream.output, Keystream.apply] using ih (c.step k a).2

theorem after_append (c : Keystream κ α) (k : κ) (as bs : List α) :
    c.after k (as ++ bs) = c.after (c.after k as) bs := by
  induction as generalizing k with
  | nil => rfl
  | cons a as ih => simpa [Keystream.after, Keystream.apply] using ih (c.step k a).2

theorem output_append (c : Keystream κ α) (k : κ) (as bs : List α) :
    c.output k (as ++ bs) = c.output k as ++ c.output (c.after k as) bs := by
  induction as generalizing k with
  | nil => rfl
  | cons a as ih =>
    simpa [Keystream.output, Keystream.after, Keystream.apply] using ih (c.step k a).2

/-- The outputs of one call after another. -/
def Keystream.calls (c : Keystream κ α) (k : κ) : List (List α) → List (List α)
  | [] => []
  | piece :: pieces => c.output k piece :: c.calls (c.after k piece) pieces

theorem calls_flatten (c : Keystream κ α) (k : κ) (pieces : List (List α)) :
    (c.calls k pieces).flatten = c.output k pieces.flatten := by
  induction pieces generalizing k with
  | nil => rfl
  | cons piece pieces ih =>
    rw [Keystream.calls, List.flatten_cons, List.flatten_cons, output_append, ih]

/-! ## XOR with a stream of bytes -/

/-- `gen` gives the next byte of the stream. -/
def Keystream.xor (gen : κ → UInt8 × κ) : Keystream κ UInt8 where
  step k a := (a ^^^ (gen k).1, (gen k).2)

/-- To combine twice with the same byte changes nothing. -/
theorem xor_xor_cancel (a k : UInt8) : a ^^^ k ^^^ k = a := by
  rw [UInt8.xor_assoc, UInt8.xor_self, UInt8.xor_zero]

theorem xor_output_output (gen : κ → UInt8 × κ) (k : κ) (as : List UInt8) :
    (Keystream.xor gen).output k ((Keystream.xor gen).output k as) = as := by
  induction as generalizing k with
  | nil => rfl
  | cons a as ih =>
    exact congrArg₂ List.cons (xor_xor_cancel a (gen k).1) (ih (gen k).2)

theorem xor_after_output (gen : κ → UInt8 × κ) (k : κ) (as : List UInt8) :
    (Keystream.xor gen).after k ((Keystream.xor gen).output k as) =
      (Keystream.xor gen).after k as := by
  induction as generalizing k with
  | nil => rfl
  | cons a as ih => exact ih (gen k).2

end AtlasKernel.Lib
