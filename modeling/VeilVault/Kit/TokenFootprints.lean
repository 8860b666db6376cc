/-
# Kit.TokenFootprints — what the token operations look at, and what they change.

A key is a location: the account and the mint there.  An operation writes the accounts and mints it
is given, save that a transfer only reads the mint, and looks at nothing else.
-/
import VeilVault.Kit.Footprint
import VeilVault.Kit.TokenLedger

namespace Kit

namespace TokenLedger

variable {κ : Type}

instance located : Located (TokenLedger κ) κ where
  same k t u := t.accounts k = u.accounts k ∧ t.mints k = u.mints k
  equivalence _ :=
    ⟨fun _ => ⟨rfl, rfl⟩, fun h => ⟨h.1.symm, h.2.symm⟩,
      fun h h' => ⟨h.1.trans h'.1, h.2.trans h'.2⟩⟩
  ext t u h := by
    obtain ⟨accounts, mints⟩ := t
    obtain ⟨accounts', mints'⟩ := u
    obtain rfl : accounts = accounts' := funext fun k => (h k).1
    obtain rfl : mints = mints' := funext fun k => (h k).2
    rfl

variable [DecidableEq κ] {R W : Set κ} {t u t' u' : TokenLedger κ}
  {k source destination mint authority : κ} {amount : BitVec 64}

/-! ## Writing a record -/

theorem tandem_putAccount (h : Tandem R W t u t' u') (hk : k ∈ W) (a : TokenAccount κ) :
    Tandem R W t u (t'.putAccount k a) (u'.putAccount k a) where
  agree x hx := by
    obtain ⟨haccounts, hmints⟩ := h.agree x hx
    refine ⟨?_, hmints⟩
    show (if x = k then some a else t'.accounts x) = if x = k then some a else u'.accounts x
    rw [haccounts]
  left x hx := by
    obtain ⟨haccounts, hmints⟩ := h.left x hx
    have hne : x ≠ k := fun he => hx (he ▸ hk)
    exact ⟨(if_neg hne).trans haccounts, hmints⟩
  right x hx := by
    obtain ⟨haccounts, hmints⟩ := h.right x hx
    have hne : x ≠ k := fun he => hx (he ▸ hk)
    exact ⟨(if_neg hne).trans haccounts, hmints⟩

theorem tandem_putMint (h : Tandem R W t u t' u') (hk : k ∈ W) (m : TokenMint κ) :
    Tandem R W t u (t'.putMint k m) (u'.putMint k m) where
  agree x hx := by
    obtain ⟨haccounts, hmints⟩ := h.agree x hx
    refine ⟨haccounts, ?_⟩
    show (if x = k then some m else t'.mints x) = if x = k then some m else u'.mints x
    rw [hmints]
  left x hx := by
    obtain ⟨haccounts, hmints⟩ := h.left x hx
    have hne : x ≠ k := fun he => hx (he ▸ hk)
    exact ⟨haccounts, (if_neg hne).trans hmints⟩
  right x hx := by
    obtain ⟨haccounts, hmints⟩ := h.right x hx
    have hne : x ≠ k := fun he => hx (he ▸ hk)
    exact ⟨haccounts, (if_neg hne).trans hmints⟩

/-! ## Operations -/

theorem lockstep_openAccount (h : Tandem R W t u t' u') (hW : W ⊆ R) (hk : k ∈ W)
    (hmint : mint ∈ R) : Lockstep (Tandem R W t u) (t'.openAccount k mint authority)
      (u'.openAccount k mint authority) := by
  have hfree := (h.agree k (hW hk)).1
  have hm := (h.agree mint hmint).2
  unfold openAccount
  refine .bind_same (by rw [hfree]) fun _ => ?_
  refine .bind_same (by rw [hm]) fun _ => ?_
  exact .ok (tandem_putAccount h hk _)

theorem lockstep_openMint (h : Tandem R W t u t' u') (hW : W ⊆ R) (hk : k ∈ W) :
    Lockstep (Tandem R W t u) (t'.openMint k authority) (u'.openMint k authority) := by
  have hfree := (h.agree k (hW hk)).2
  unfold openMint
  refine .bind_same (by rw [hfree]) fun _ => ?_
  exact .ok (tandem_putMint h hk _)

theorem lockstep_transfer (h : Tandem R W t u t' u') (hW : W ⊆ R) (hsource : source ∈ W)
    (hdestination : destination ∈ W) (hmint : mint ∈ R) :
    Lockstep (Tandem R W t u) (t'.transfer source mint destination authority amount)
      (u'.transfer source mint destination authority amount) := by
  have hs := (h.agree source (hW hsource)).1
  have hd := (h.agree destination (hW hdestination)).1
  have hm := (h.agree mint hmint).2
  unfold transfer
  refine .bind_same (by rw [hs]) fun s => ?_
  refine .bind_same (by rw [hd]) fun d => ?_
  refine .bind_same (by rw [hm]) fun _ => ?_
  refine .bind_same rfl fun _ => ?_
  refine .bind_same rfl fun _ => ?_
  refine .bind_same rfl fun left => ?_
  split
  case isTrue => exact .ok h
  case isFalse =>
    refine .bind_same rfl fun received => ?_
    exact .ok (tandem_putAccount (tandem_putAccount h hsource _) hdestination _)

theorem lockstep_mintTo (h : Tandem R W t u t' u') (hW : W ⊆ R) (hmint : mint ∈ W)
    (hdestination : destination ∈ W) :
    Lockstep (Tandem R W t u) (t'.mintTo mint destination authority amount)
      (u'.mintTo mint destination authority amount) := by
  have hd := (h.agree destination (hW hdestination)).1
  have hm := (h.agree mint (hW hmint)).2
  unfold mintTo
  refine .bind_same (by rw [hd]) fun d => ?_
  refine .bind_same (by rw [hm]) fun m => ?_
  refine .bind_same rfl fun _ => ?_
  refine .bind_same rfl fun _ => ?_
  refine .bind_same rfl fun received => ?_
  refine .bind_same rfl fun issued => ?_
  exact .ok (tandem_putMint (tandem_putAccount h hdestination _) hmint _)

theorem lockstep_burn (h : Tandem R W t u t' u') (hW : W ⊆ R) (hmint : mint ∈ W)
    (hsource : source ∈ W) :
    Lockstep (Tandem R W t u) (t'.burn mint source authority amount)
      (u'.burn mint source authority amount) := by
  have hs := (h.agree source (hW hsource)).1
  have hm := (h.agree mint (hW hmint)).2
  unfold burn
  refine .bind_same (by rw [hs]) fun s => ?_
  refine .bind_same (by rw [hm]) fun m => ?_
  refine .bind_same rfl fun _ => ?_
  refine .bind_same rfl fun _ => ?_
  refine .bind_same rfl fun left => ?_
  refine .bind_same rfl fun remaining => ?_
  exact .ok (tandem_putMint (tandem_putAccount h hsource _) hmint _)

end TokenLedger

end Kit
