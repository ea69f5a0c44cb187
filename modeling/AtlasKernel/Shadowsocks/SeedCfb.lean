import AtlasKernel.Lib.Bytes
import AtlasKernel.Lib.CipherFeedback
import AtlasKernel.Lib.Keystream

/-! SEED-CFB, which takes its bytes one by one. The block function is any function.
Source: `SeedCfbCipher` in `shadowsocks/legacy.rs`. -/
namespace AtlasKernel.Shadowsocks
open AtlasKernel.Lib

abbrev Block := Vector UInt8 16

structure SeedCfbCipher where
  encrypt : Bool
  feedback : Block
  keystream : Block
  pos : Nat
  pos_le : pos ≤ 16

namespace SeedCfbCipher
variable (encryptBlock : Block → Block)

def new (iv : Bytes) (encrypt : Bool) : Except String SeedCfbCipher :=
  if h : iv.length = 16 then
    .ok {
      encrypt := encrypt
      feedback := ⟨iv.toArray, h⟩
      keystream := Vector.replicate 16 0
      pos := 16
      pos_le := Nat.le_refl 16 }
  else .error "SEED-CFB requires a 16-byte IV"

/-- At the end of a block the feedback is encrypted, and collected anew. -/
def refill (s : SeedCfbCipher) : SeedCfbCipher :=
  if s.pos = 16 then
    { s with
      keystream := encryptBlock s.feedback
      feedback := Vector.replicate 16 0
      pos := 0
      pos_le := Nat.zero_le 16 }
  else s

/-- One byte within a block. -/
def mix (s : SeedCfbCipher) (h : s.pos < 16) (input : UInt8) : UInt8 × SeedCfbCipher :=
  let output := input ^^^ s.keystream[s.pos]
  (output,
    { s with
      feedback := s.feedback.set s.pos (if s.encrypt then output else input)
      pos := s.pos + 1
      pos_le := h })

theorem refill_lt (s : SeedCfbCipher) : (s.refill encryptBlock).pos < 16 := by
  have hle := s.pos_le
  rw [refill]
  split
  · exact Nat.zero_lt_succ 15
  · omega

/-- `apply`, byte by byte. -/
def cipher : Keystream SeedCfbCipher UInt8 where
  step s byte := (s.refill encryptBlock).mix (s.refill_lt encryptBlock) byte

variable {encryptBlock : Block → Block} {s : SeedCfbCipher}

/-! ## Within a block -/

theorem refill_within (h : s.pos < 16) : s.refill encryptBlock = s := if_neg (Nat.ne_of_lt h)

/-- What goes into the feedback: the ciphertext. -/
def ciphertext (encrypt : Bool) (input output : Bytes) : Bytes := if encrypt then output else input

theorem ciphertext_cons (encrypt : Bool) (byte out : UInt8) (input output : Bytes) :
    ciphertext encrypt (byte :: input) (out :: output) =
      (if encrypt then out else byte) :: ciphertext encrypt input output := by
  cases encrypt <;> rfl

theorem mix_congr {t : SeedCfbCipher} (heq : t = s) (ht : t.pos < 16) (h : s.pos < 16) (byte : UInt8) :
    t.mix ht byte = s.mix h byte := by
  subst heq
  rfl

theorem step_within (h : s.pos < 16) (byte : UInt8) :
    (cipher encryptBlock).step s byte = s.mix h byte := mix_congr (refill_within h) _ h byte

theorem take_set (feedback : Block) {pos : Nat} (h : pos < 16) (b : UInt8) :
    (feedback.set pos b).toList.take (pos + 1) = feedback.toList.take pos ++ [b] := by
  have hlen : pos < feedback.toList.length := by rwa [Vector.length_toList]
  have htake : (feedback.toList.take pos ++ [b]).length = pos + 1 := by
    rw [List.length_append, List.length_take_of_le (Nat.le_of_lt hlen), List.length_singleton]
  rw [Vector.toList_set, List.set_eq_take_append_cons_drop, if_pos hlen, ← List.singleton_append,
    ← List.append_assoc, List.take_left' htake]

/-- Bytes that do not go beyond the block are mixed with what is left of the key stream, and
the feedback collects their ciphertext. -/
theorem within_block (data : Bytes) (h : s.pos + data.length ≤ 16) :
    (cipher encryptBlock).output s data = List.zipWith (· ^^^ ·) data (s.keystream.toList.drop s.pos) ∧
      ((cipher encryptBlock).after s data).encrypt = s.encrypt ∧
      ((cipher encryptBlock).after s data).pos = s.pos + data.length ∧
      ((cipher encryptBlock).after s data).feedback.toList.take (s.pos + data.length) =
        s.feedback.toList.take s.pos ++
          ciphertext s.encrypt data ((cipher encryptBlock).output s data) := by
  induction data generalizing s with
  | nil =>
    refine ⟨rfl,rfl,rfl,?_⟩
    rw [ciphertext, output_nil, ite_self, List.append_nil]
    rfl
  | cons byte data ih =>
    rw [List.length_cons] at h
    have hpos : s.pos < 16 := by omega
    have hnext : (s.mix hpos byte).2.pos + data.length ≤ 16 := by
      change s.pos + 1 + data.length ≤ 16
      omega
    obtain ⟨hout,henc,hcount,hfeedback⟩ := ih hnext
    have hstep : (cipher encryptBlock).apply s (byte :: data) =
        ((s.mix hpos byte).1 :: (cipher encryptBlock).output (s.mix hpos byte).2 data,
          (cipher encryptBlock).after (s.mix hpos byte).2 data) := by
      rw [Keystream.apply, step_within hpos]
      rfl
    have hkey : s.keystream.toList.drop s.pos =
        s.keystream[s.pos] :: s.keystream.toList.drop (s.pos + 1) := by
      rw [List.drop_eq_getElem_cons (by rwa [Vector.length_toList])]
      rfl
    have hafter : (s.mix hpos byte).2.pos + data.length = s.pos + (data.length + 1) := by
      change s.pos + 1 + data.length = _
      omega
    rw [Keystream.output, Keystream.after, hstep]
    refine ⟨?_,henc,hcount.trans hafter,?_⟩
    · rw [hkey, List.zipWith_cons_cons, hout]
      rfl
    · rw [List.length_cons, ← hafter, hfeedback]
      change (s.feedback.set s.pos _).toList.take (s.pos + 1) ++ _ = _
      rw [take_set, List.append_assoc, ciphertext_cons]
      rfl

/-! ## Block by block -/

/-- At the end of a block, the next byte finds the cipher refilled. -/
theorem apply_refill {data : Bytes} (hne : data ≠ []) :
    (cipher encryptBlock).apply s data = (cipher encryptBlock).apply (s.refill encryptBlock) data := by
  cases data with
  | nil => exact absurd rfl hne
  | cons byte data =>
    have hstep : (cipher encryptBlock).step (s.refill encryptBlock) byte =
        (cipher encryptBlock).step s byte :=
      mix_congr (refill_within (s.refill_lt encryptBlock)) _ _ byte
    rw [Keystream.apply, Keystream.apply, hstep]

theorem refill_end (h : s.pos = 16) : s.refill encryptBlock =
    { s with
      keystream := encryptBlock s.feedback
      feedback := Vector.replicate 16 0
      pos := 0
      pos_le := Nat.zero_le 16 } := if_pos h

/-- Up to a block behind the end of a block. -/
theorem up_to_block (h : s.pos = 16) {data : Bytes} (hle : data.length ≤ 16) (hne : data ≠ []) :
    (cipher encryptBlock).output s data = List.zipWith (· ^^^ ·) data (encryptBlock s.feedback).toList ∧
      ((cipher encryptBlock).after s data).encrypt = s.encrypt ∧
      ((cipher encryptBlock).after s data).pos = data.length ∧
      ((cipher encryptBlock).after s data).feedback.toList.take data.length =
        ciphertext s.encrypt data ((cipher encryptBlock).output s data) := by
  have hwithin := @within_block encryptBlock (s.refill encryptBlock) data (by
    rw [refill_end h, Nat.zero_add]
    exact hle)
  rw [Keystream.output, Keystream.after, apply_refill hne]
  rw [Keystream.output, Keystream.after, refill_end h] at hwithin
  rw [refill_end h]
  simpa using hwithin

theorem output_eq (data : Bytes) (h : s.pos = 16) :
    (cipher encryptBlock).output s data =
      cipherFeedback (· ^^^ ·) encryptBlock s.encrypt s.feedback data := by
  induction hlength : data.length using Nat.strongRecOn generalizing s data with
  | ind length ih =>
    by_cases hlong : 16 ≤ data.length
    · obtain ⟨input,rest,rfl⟩ : ∃ (input : Block) (rest : Bytes), data = input.toList ++ rest :=
        ⟨firstBlock data hlong,data.drop 16,(List.take_append_drop 16 data).symm⟩
      have hlen : input.toList.length = 16 := Vector.length_toList
      have hne : input.toList ≠ [] := List.ne_nil_of_length_pos (by rw [hlen]; decide)
      obtain ⟨hout,henc,hpos,hfed⟩ :=
        @up_to_block encryptBlock s h input.toList (Nat.le_of_eq hlen) hne
      rw [← Vector.toList_zipWith] at hout
      -- the feedback is the block of ciphertext again
      have hfeedback : ((cipher encryptBlock).after s input.toList).feedback =
          if s.encrypt then Vector.zipWith (· ^^^ ·) input (encryptBlock s.feedback) else input := by
        refine Vector.toList_inj.mp ?_
        rw [hlen, List.take_of_length_le (Nat.le_of_eq Vector.length_toList), hout, ciphertext] at hfed
        rw [hfed]
        split <;> rfl
      have hshorter : rest.length < length := by
        rw [← hlength, List.length_append, hlen]
        omega
      rw [output_append, hout, ih _ hshorter rest (hpos.trans hlen) rfl, henc, hfeedback,
        cipherFeedback_block (by decide)]
    · have hshort := Nat.not_le.mp hlong
      rw [cipherFeedback_short _ _ hshort]
      by_cases hne : data = []
      · subst hne
        rfl
      · exact (up_to_block h (Nat.le_of_lt hshort) hne).1

theorem new_ok (iv : Block) (encrypt : Bool) :
    ∃ s, new iv.toList encrypt = .ok s ∧ s.encrypt = encrypt ∧ s.feedback = iv ∧ s.pos = 16 := by
  have hlen : iv.toList.length = 16 := Vector.length_toList
  exact ⟨_,dif_pos hlen,rfl,Vector.toList_inj.mp rfl,rfl⟩

/-- However the bytes are split into calls, the encrypting cipher puts out their cipher
feedback, and however that is split the decrypting one gets the bytes back. -/
theorem seed_cfb_streams (encryptBlock : Block → Block) (iv : Block) (data : Bytes) :
    ∃ enc dec, new iv.toList true = .ok enc ∧ new iv.toList false = .ok dec ∧
      (∀ pieces, pieces.flatten = data →
        ((cipher encryptBlock).calls enc pieces).flatten =
          cipherFeedback (· ^^^ ·) encryptBlock true iv data) ∧
      ∀ pieces pieces', pieces.flatten = data →
        pieces'.flatten = ((cipher encryptBlock).calls enc pieces).flatten →
          ((cipher encryptBlock).calls dec pieces').flatten = data := by
  obtain ⟨enc,hnew,hencrypt,hiv,hpos⟩ := new_ok iv true
  obtain ⟨dec,hnew',hdecrypt,hiv',hpos'⟩ := new_ok iv false
  have hspec (pieces : List Bytes) (h : pieces.flatten = data) :
      ((cipher encryptBlock).calls enc pieces).flatten =
        cipherFeedback (· ^^^ ·) encryptBlock true iv data := by
    rw [calls_flatten, output_eq _ hpos, hencrypt, hiv, h]
  refine ⟨enc,dec,hnew,hnew',hspec,?_⟩
  intro pieces pieces' h h'
  rw [calls_flatten, output_eq _ hpos', hdecrypt, hiv', h', hspec pieces h]
  exact cipherFeedback_inverse (by decide) xor_xor_cancel iv data

end SeedCfbCipher

end AtlasKernel.Shadowsocks
