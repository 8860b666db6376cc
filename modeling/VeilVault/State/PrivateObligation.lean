/-
# VeilVault.State.PrivateObligation — the encrypted shadow of an obligation.

A transcription of `state/private_obligation.rs`.  The two ciphertexts are opaque here; the nonce
they were made with is stored beside them, in the clear, and is passed to every computation on them.
-/
import VeilVault.State.Basic

namespace VeilVault

/-- `[[u8; 32]; 2]`: the ciphertexts of the collateral and of the debt. -/
structure EncState where
  collateralTokens : BitVec 256
  borrowTokens : BitVec 256
  deriving DecidableEq, Repr

instance : Inhabited EncState := ⟨⟨0, 0⟩⟩

structure PrivateObligation where
  encState : EncState
  /-- Rotated by the MXE on every state update. -/
  nonce : U128
  owner : Pubkey
  lendingMarket : Pubkey
  /-- Reserve whose cTokens back the collateral side. -/
  collateralReserve : Pubkey
  /-- Reserve from which tokens were borrowed. -/
  borrowReserve : Pubkey
  isLiquidatable : Bool
  isInitialized : Bool
  deriving DecidableEq, Repr

/-- A zeroed account, as `init_if_needed` creates it. -/
instance : Inhabited PrivateObligation :=
  ⟨⟨default, 0, default, default, default, default, false, false⟩⟩

end VeilVault
