import AtlasKernel.Lib.Bytes
import Mathlib.Data.List.Infix

/-! A head read one symbol at a time, up to a marker. It ends with the first marker there is, and
what is behind it has not been touched. -/
namespace AtlasKernel.Lib
variable {α : Type*}

inductive HeadError where
  | unexpectedEof
  | tooLarge
deriving DecidableEq, Repr

/-- `while buffer.len() < limit { read_exact(&mut byte)?; buffer.push(byte); .. }` -/
def readHead [BEq α] (marker : List α) (limit : Nat) (buffer : List α) :
    List α → Except HeadError (List α × List α)
  | [] => .error (if buffer.length < limit then .unexpectedEof else .tooLarge)
  | a :: stream =>
    if buffer.length < limit then
      if marker.isSuffixOf (buffer ++ [a]) then .ok (buffer ++ [a], stream)
      else readHead marker limit (buffer ++ [a]) stream
    else .error .tooLarge

/-- `head` is more than `buffer`, and its first front of that kind with the marker at its end. -/
structure EndsFirst (marker buffer head : List α) : Prop where
  more : buffer.length < head.length
  ends : marker <:+ head
  first : ∀ front, front <+: head → buffer.length < front.length → marker <:+ front → front = head

variable {marker buffer stream head rest : List α} {limit : Nat}

theorem prefix_of_longer {front : List α} {a : α} (h : front <+: buffer ++ a :: stream)
    (hlen : buffer.length < front.length) : buffer ++ [a] <+: front := by
  have hwhole : buffer ++ [a] <+: buffer ++ a :: stream := ⟨stream,by simp⟩
  refine List.prefix_of_prefix_length_le hwhole h ?_
  rw [List.length_append]
  exact hlen

variable [BEq α] [LawfulBEq α]

theorem readHead_ok_iff :
    readHead marker limit buffer stream = .ok (head, rest) ↔
      buffer ++ stream = head ++ rest ∧ head.length ≤ limit ∧ EndsFirst marker buffer head := by
  induction stream generalizing buffer with
  | nil =>
    refine iff_of_false nofun ?_
    rintro ⟨hsplit,_,hfirst⟩
    have hlen := congrArg List.length hsplit
    rw [List.append_nil, List.length_append] at hlen
    have hmore := hfirst.more
    omega
  | cons a stream ih =>
    rw [readHead]
    by_cases hroom : buffer.length < limit
    · rw [if_pos hroom]
      by_cases hends : marker.isSuffixOf (buffer ++ [a]) = true
      · have hsuffix := List.isSuffixOf_iff_suffix.mp hends
        rw [if_pos hends]
        constructor
        · intro h
          cases h
          refine ⟨by simp,by simpa using Nat.succ_le_of_lt hroom,by simp,hsuffix,fun front hfront hlen _ => ?_⟩
          refine hfront.eq_of_length_le ?_
          rw [List.length_append]
          exact hlen
        · rintro ⟨hsplit,_,hmore,_,hfirst⟩
          have hfront : buffer ++ [a] <+: head := by
            have hhead : head <+: buffer ++ a :: stream := ⟨rest,hsplit.symm⟩
            exact prefix_of_longer hhead hmore
          obtain rfl := hfirst _ hfront (by simp) hsuffix
          have hrest : stream = rest := by simpa using hsplit
          rw [hrest]
      · have hnot : ¬ marker <:+ buffer ++ [a] := fun h => hends (List.isSuffixOf_iff_suffix.mpr h)
        rw [if_neg hends, ih, List.append_assoc]
        refine and_congr_right fun hsplit => and_congr_right fun _ => ?_
        constructor
        · rintro ⟨hmore,hsuffix,hfirst⟩
          refine ⟨by rw [List.length_append] at hmore; exact Nat.lt_of_succ_lt hmore,hsuffix,
            fun front hfront hlen hmarker => ?_⟩
          refine hfirst front hfront ?_ hmarker
          have hhead : head <+: buffer ++ a :: stream := ⟨rest,hsplit.symm⟩
          have hbuffer := prefix_of_longer (hfront.trans hhead) hlen
          refine Nat.lt_of_le_of_ne hbuffer.length_le fun heq => hnot ?_
          rw [hbuffer.eq_of_length heq]
          exact hmarker
        · rintro ⟨hmore,hsuffix,hfirst⟩
          have hhead : head <+: buffer ++ a :: stream := ⟨rest,hsplit.symm⟩
          have hbuffer := prefix_of_longer hhead hmore
          refine ⟨Nat.lt_of_le_of_ne hbuffer.length_le fun heq => hnot ?_,hsuffix,
            fun front hfront hlen => hfirst front hfront ?_⟩
          · rw [hbuffer.eq_of_length heq]
            exact hsuffix
          · rw [List.length_append] at hlen
            exact Nat.lt_of_succ_lt hlen
    · rw [if_neg hroom]
      refine iff_of_false nofun ?_
      rintro ⟨_,hlimit,hfirst⟩
      have hmore := hfirst.more
      omega

/-- What comes behind a head that can be read makes no difference to it. -/
theorem readHead_append (h : readHead marker limit buffer stream = .ok (head, rest))
    (more : List α) : readHead marker limit buffer (stream ++ more) = .ok (head, rest ++ more) := by
  obtain ⟨hsplit,hrest⟩ := readHead_ok_iff.mp h
  refine readHead_ok_iff.mpr ⟨?_,hrest⟩
  rw [← List.append_assoc, hsplit, List.append_assoc]

end AtlasKernel.Lib
