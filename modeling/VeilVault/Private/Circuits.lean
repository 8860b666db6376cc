/-
# VeilVault.Private.Circuits — what runs inside the MXE.

The circuits of `encrypted-ixs/src/lib.rs`, on plaintexts; their `u64` arithmetic is taken modulo
`2 ^ 64`.  The program queues all of them but the two that remove.  `Mxe` is the cluster that runs
them: a cipher under its own key, indexed by nonces, and the opening of what clients encrypt for it.
All the program relies on is that a ciphertext opens under its own nonce, and to something else
under any other.
-/
import VeilVault.State.PrivateObligation

namespace VeilVault

/-- Collateral and debt, in whole tokens. -/
structure PrivatePosition where
  collateralTokens : U64
  borrowTokens : U64
  deriving DecidableEq, Repr

namespace Circuits

def initPositionV2 : PrivatePosition := ⟨0, 0⟩

def addCollateralV2 (amount : U64) (state : PrivatePosition) : PrivatePosition :=
  { state with collateralTokens := state.collateralTokens + amount }

/-- Stops at zero instead of underflowing. -/
def removeCollateral2 (amount : U64) (state : PrivatePosition) : PrivatePosition :=
  let decreased := if state.collateralTokens ≥ amount then state.collateralTokens - amount else 0
  { state with collateralTokens := decreased }

def addBorrowV2 (amount : U64) (state : PrivatePosition) : PrivatePosition :=
  { state with borrowTokens := state.borrowTokens + amount }

/-- Stops at zero, as above. -/
def removeBorrow2 (amount : U64) (state : PrivatePosition) : PrivatePosition :=
  let decreased := if state.borrowTokens ≥ amount then state.borrowTokens - amount else 0
  { state with borrowTokens := decreased }

/-- Collateral value against borrow value; the two basis-point factors are divided away before the
price multiplies. -/
def checkHealthV2 (state : PrivatePosition)
    (exchangeRateBps collateralPriceCents borrowPriceCents ltvBps : U64) : Bool :=
  let collAdj := state.collateralTokens * exchangeRateBps * ltvBps / 100000000
  let collValue := collAdj * collateralPriceCents
  let borrValue := state.borrowTokens * borrowPriceCents
  collValue ≥ borrValue

end Circuits

/-- A client's encrypted amount: its ephemeral public key, its nonce and the ciphertext. -/
structure SharedAmount where
  encryptionPubkey : BitVec 256
  encryptionNonce : U128
  encryptedAmount : BitVec 256
  deriving DecidableEq, Repr

/-- The cluster's keys: its own cipher, and the secrets it shares with clients. -/
structure Mxe where
  encrypt : U128 → PrivatePosition → EncState
  decrypt : U128 → EncState → PrivatePosition
  openShared : SharedAmount → U64
  decrypt_encrypt : ∀ nonce p, decrypt nonce (encrypt nonce p) = p
  decrypt_wrong_nonce : ∀ nonce nonce' p, nonce' ≠ nonce → decrypt nonce' (encrypt nonce p) ≠ p

/-- A toy cluster: the nonce stands beside the collateral amount, and a wrong nonce shifts it. -/
def plainMxe : Mxe where
  encrypt nonce p :=
    ⟨BitVec.ofNat 256 (nonce.toNat * 2 ^ 64 + p.collateralTokens.toNat),
      BitVec.ofNat 256 p.borrowTokens.toNat⟩
  decrypt nonce e :=
    let collateral := BitVec.ofNat 64 e.collateralTokens.toNat
    ⟨if e.collateralTokens.toNat / 2 ^ 64 = nonce.toNat then collateral else collateral + 1,
      BitVec.ofNat 64 e.borrowTokens.toNat⟩
  openShared a := a.encryptedAmount.setWidth 64
  decrypt_encrypt nonce p := by
    obtain ⟨c, b⟩ := p
    have hn := nonce.isLt
    have hc := c.isLt
    have hb := b.isLt
    simp only [BitVec.toNat_ofNat, PrivatePosition.mk.injEq]
    rw [Nat.mod_eq_of_lt (by omega), Nat.mod_eq_of_lt (by omega), if_pos (by omega)]
    constructor
    · apply BitVec.eq_of_toNat_eq
      rw [BitVec.toNat_ofNat]
      omega
    · apply BitVec.eq_of_toNat_eq
      rw [BitVec.toNat_ofNat]
      omega
  decrypt_wrong_nonce nonce nonce' p hne := by
    obtain ⟨c, b⟩ := p
    have hn := nonce.isLt
    have hc := c.isLt
    have hne' : nonce.toNat ≠ nonce'.toNat := fun he => hne (BitVec.eq_of_toNat_eq he.symm)
    simp only [BitVec.toNat_ofNat, ne_eq, PrivatePosition.mk.injEq, not_and]
    rw [Nat.mod_eq_of_lt (by omega), if_neg (by omega)]
    intro hcon
    have hval := congrArg BitVec.toNat hcon
    rw [BitVec.toNat_add, BitVec.toNat_ofNat] at hval
    have hone : (1 : U64).toNat = 1 := rfl
    omega

/-- An amount as its client would encrypt it. -/
def plainAmount (n : U64) : SharedAmount := ⟨0, 0, n.setWidth 256⟩

end VeilVault
