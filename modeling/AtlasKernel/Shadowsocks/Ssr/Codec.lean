import AtlasKernel.Shadowsocks.Ssr.AuthAes128
import AtlasKernel.Shadowsocks.Ssr.AuthChain

/-! All SSR stream decoders, and what they do after a failed call.
Source: `shadowsocks/ssr.rs`. -/
namespace AtlasKernel.Shadowsocks.Ssr
open AtlasKernel.Lib FrameDecoder
variable {ρ : Type}

/-- A decoder together with what a frame has to pass. -/
structure CheckedDecoder where
  State : Type
  Key : Type
  decoder : SsrDecoder State
  key : State → Key
  Checked : Key → Bytes → Bytes → Key → Prop
  checks : decoder.frames.Checks key Checked

/-- The variants of `SsrProtocolCodec`, with the three kinds of `EarlyAuthCodec` as one:
the kind is part of its state. -/
inductive SsrProtocolCodec where
  | verifySimple
  | verifySha1
  | earlyAuth
  | authSha1V4
  | authAes128
  | authChain
deriving DecidableEq, Repr

structure SsrCrypto (ρ : Type) extends ChainCrypto ρ where
  crc32 : Crc32
  hmacSha1 : HmacSha1

def SsrCrypto.macs (crypto : SsrCrypto ρ) : Macs := ⟨crypto.hmacMd5, crypto.hmacSha1⟩

def SsrProtocolCodec.checked (crypto : SsrCrypto ρ) : SsrProtocolCodec → CheckedDecoder
  | .verifySimple => ⟨_, _, VerifySimpleCodec.decoder, _, _, VerifySimpleCodec.checks⟩
  | .verifySha1 => ⟨_, _, VerifySha1Codec.decoder crypto.hmacSha1, _, _, VerifySha1Codec.checks⟩
  | .earlyAuth => ⟨_, _, EarlyAuthCodec.decoder, _, _, EarlyAuthCodec.checks⟩
  | .authSha1V4 => ⟨_, _, AuthSha1V4Codec.decoder crypto.crc32, _, _, AuthSha1V4Codec.checks⟩
  | .authAes128 => ⟨_, _, AuthAes128Codec.decoder crypto.macs, _, _, AuthAes128Codec.checks⟩
  | .authChain =>
    ⟨_, _, AuthChainCodec.decoder crypto.toChainCrypto, _, _, AuthChainCodec.checks⟩

/-- In every run of decode calls in which nothing acceptable is fed to a decoder after a
failed call, the decoder fails closed, and all it puts out is that of checked frames. -/
theorem ssr_decoders_fail_closed (crypto : SsrCrypto ρ) (codec : SsrProtocolCodec)
    (s : (codec.checked crypto).State) (recvBuffer : Bytes) (payloads : List Bytes)
    (hraw : (codec.checked crypto).decoder.rawRecv s = false)
    (h : (codec.checked crypto).decoder.ShutAfterFailure (codec.checked crypto).key
      (codec.checked crypto).Checked false s recvBuffer payloads) :
    SsrDecoder.FailsClosed ((codec.checked crypto).decoder.calls s recvBuffer payloads) ∧
      SsrDecoder.OnlyChecked (codec.checked crypto).Checked ((codec.checked crypto).key s)
        (recvBuffer ++ payloads.flatten)
        (((codec.checked crypto).decoder.calls s recvBuffer payloads).map Prod.fst).flatten :=
  SsrDecoder.calls_failClosed (codec.checked crypto).checks payloads hraw h

def plainSsrCrypto : SsrCrypto Unit :=
  { AuthChainCodec.plainCrypto with
    crc32 := fun _ => 0, hmacSha1 := fun _ _ => Vector.replicate 20 0 }

/-- A frame of verify_simple, a length out of range, and nothing more. -/
theorem ssr_decoders_fail_closed_verify_simple :
    SsrDecoder.FailsClosed (VerifySimpleCodec.decoder.calls .new []
        [[0, 7, 65, 73, 0, 82, 0], [0, 0, 0], []]) ∧
      SsrDecoder.OnlyChecked VerifySimpleCodec.Checked (id .new)
        ([] ++ [[0, 7, 65, 73, 0, 82, 0], [0, 0, 0], []].flatten)
        ((VerifySimpleCodec.decoder.calls .new [] [[0, 7, 65, 73, 0, 82, 0], [0, 0, 0], []]).map
          Prod.fst).flatten := by
  refine ssr_decoders_fail_closed plainSsrCrypto .verifySimple VerifySimpleCodec.new [] _ rfl
    ⟨nofun, ?_, ?_, trivial⟩
  · intro h
    exact absurd h (by decide +kernel)
  · intro _
    exact (if_pos (by decide +kernel)).mpr rfl

/-- A length out of range, and then a byte: it is passed on as it is. -/
theorem ssr_decoder_turns_permissive :
    ¬ SsrDecoder.FailsClosed (VerifySimpleCodec.decoder.calls .new [] [[0, 0, 0], [65]]) := by
  rw [SsrDecoder.FailsClosed]
  decide +kernel

end AtlasKernel.Shadowsocks.Ssr
