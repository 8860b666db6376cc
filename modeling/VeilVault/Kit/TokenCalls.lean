/-
# Kit.TokenCalls — token calls in a row, and whose authority they carry.

A program's effect on a token ledger is a list of calls, each with the authority of somebody who
signed.  Two things follow whatever the calls are.  What nobody signed for is safe: an account keeps
its mint and its authority, and loses nothing unless its authority signed (`Calls.spared`).  And
tokens are conserved: no set of accounts of one mint holds more than the mint has issued
(`Conserved`), so a transfer of funds that are there never overflows its destination
(`Conserved.exists_transfer`).
-/
import Mathlib.Logic.Relation
import VeilVault.Kit.Covers
import VeilVault.Kit.TokenLedger

namespace Kit

namespace TokenLedger

variable {κ : Type}

/-- The mint of an account's tokens. -/
def mintOf (t : TokenLedger κ) (k : κ) : Option κ := (t.accounts k).map (·.mint)

/-- The tokens of one mint in an account. -/
def held [DecidableEq κ] (t : TokenLedger κ) (m k : κ) : ℕ :=
  if t.mintOf k = some m then t.balance k else 0

variable {t t' t'' : TokenLedger κ} {k x m source destination mint authority : κ}
  {a s d : TokenAccount κ} {c : TokenMint κ} {amount : BitVec 64}

theorem mintOf_of (h : t.accounts k = some a) : t.mintOf k = some a.mint := by
  rw [mintOf, h, Option.map_some]

/-- Every account is still there, with at most another amount. -/
def KeepsAccounts (t t' : TokenLedger κ) : Prop :=
  ∀ x a, t.accounts x = some a → ∃ n, t'.accounts x = some { a with amount := n }

/-- Every mint is still there, with at most another supply. -/
def KeepsMints (t t' : TokenLedger κ) : Prop :=
  ∀ m c, t.mints m = some c → ∃ n, t'.mints m = some { c with supply := n }

theorem KeepsAccounts.refl (t : TokenLedger κ) : KeepsAccounts t t := fun _ a h => ⟨a.amount, h⟩

theorem KeepsMints.refl (t : TokenLedger κ) : KeepsMints t t := fun _ c h => ⟨c.supply, h⟩

theorem KeepsAccounts.trans {t'' : TokenLedger κ} (h : KeepsAccounts t t')
    (h' : KeepsAccounts t' t'') : KeepsAccounts t t'' := by
  intro x a ha
  obtain ⟨n, hn⟩ := h x a ha
  exact h' x { a with amount := n } hn

theorem KeepsMints.trans {t'' : TokenLedger κ} (h : KeepsMints t t') (h' : KeepsMints t' t'') :
    KeepsMints t t'' := by
  intro m c hc
  obtain ⟨n, hn⟩ := h m c hc
  exact h' m { c with supply := n } hn

theorem KeepsAccounts.authorityOf (h : KeepsAccounts t t') {u : κ}
    (hu : t.authorityOf x = some u) : t'.authorityOf x = some u := by
  obtain ⟨a, ha, rfl⟩ := Option.map_eq_some_iff.mp hu
  obtain ⟨n, hn⟩ := h x a ha
  exact authorityOf_of (a := { a with amount := n }) hn

theorem KeepsAccounts.mintOf (h : KeepsAccounts t t') (hm : t.mintOf x = some m) :
    t'.mintOf x = some m := by
  obtain ⟨a, ha, rfl⟩ := Option.map_eq_some_iff.mp hm
  obtain ⟨n, hn⟩ := h x a ha
  exact mintOf_of (a := { a with amount := n }) hn

theorem KeepsMints.mintAuthority (h : KeepsMints t t') {u : κ}
    (hu : t.mintAuthority m = some u) : t'.mintAuthority m = some u := by
  obtain ⟨c, hc, rfl⟩ := Option.map_eq_some_iff.mp hu
  obtain ⟨n, hn⟩ := h m c hc
  exact mintAuthority_of (m := { c with supply := n }) hn

/-! ## What an authority keeps -/

/-- Nothing left the accounts of an authority, and nothing was issued by its mints. -/
structure Spared (t : TokenLedger κ) (authority : κ) (t' : TokenLedger κ) : Prop where
  accounts : ∀ x a, t.accounts x = some a → a.authority = authority →
    ∃ n, t'.accounts x = some { a with amount := n } ∧ a.amount.toNat ≤ n.toNat
  mints : ∀ m c, t.mints m = some c → c.authority = authority →
    ∃ n, t'.mints m = some { c with supply := n } ∧ n.toNat ≤ c.supply.toNat

theorem spared_refl (t : TokenLedger κ) (authority : κ) : t.Spared authority t where
  accounts _ a ha _ := ⟨a.amount, ha, Nat.le_refl _⟩
  mints _ c hc _ := ⟨c.supply, hc, Nat.le_refl _⟩

theorem Spared.trans (h : t.Spared authority t') (h' : t'.Spared authority t'') :
    t.Spared authority t'' where
  accounts x a ha hown := by
    obtain ⟨n, hn, hle⟩ := h.accounts x a ha hown
    obtain ⟨n', hn', hle'⟩ := h'.accounts x { a with amount := n } hn hown
    exact ⟨n', hn', hle.trans hle'⟩
  mints m c hc hown := by
    obtain ⟨n, hn, hle⟩ := h.mints m c hc hown
    obtain ⟨n', hn', hle'⟩ := h'.mints m { c with supply := n } hn hown
    exact ⟨n', hn', hle'.trans hle⟩

variable [DecidableEq κ]

/-! ## What one operation keeps -/

theorem keepsAccounts_setAmount (h : t.accounts k = some a) (n : BitVec 64) :
    KeepsAccounts t (t.putAccount k { a with amount := n }) := by
  intro x b hb
  by_cases hx : x = k
  · subst hx
    cases h.symm.trans hb
    exact ⟨n, if_pos rfl⟩
  · exact ⟨b.amount, (if_neg hx).trans hb⟩

theorem keepsMints_setSupply (h : t.mints k = some c) (n : BitVec 64) :
    KeepsMints t (t.putMint k { c with supply := n }) := by
  intro m b hb
  by_cases hm : m = k
  · subst hm
    cases h.symm.trans hb
    exact ⟨n, if_pos rfl⟩
  · exact ⟨b.supply, (if_neg hm).trans hb⟩

/-- The records a transfer finds, and those it leaves. -/
theorem transfer_records (h : t.transfer source mint destination authority amount = .ok t') :
    t.mintOf source = some mint ∧ t.mintOf destination = some mint ∧ KeepsAccounts t t' ∧
      t'.mints = t.mints := by
  simp only [transfer, bind_eq_ok, orFail_eq_ok, ensure_eq_ok, exists_const] at h
  obtain ⟨s, hs, d, hd, c, -, ⟨rfl, hdm⟩, -, left, -, h⟩ := h
  refine ⟨mintOf_of hs, hdm ▸ mintOf_of hd, ?_⟩
  by_cases hself : source = destination
  · rw [if_pos hself, pure_eq_ok] at h
    subst h
    exact ⟨.refl _, rfl⟩
  · simp only [if_neg hself, bind_eq_ok, orFail_eq_ok, pure_eq_ok] at h
    obtain ⟨received, -, rfl⟩ := h
    have hd' : (t.putAccount source { s with amount := left }).accounts destination = some d :=
      (if_neg (Ne.symm hself)).trans hd
    exact ⟨(keepsAccounts_setAmount hs left).trans (keepsAccounts_setAmount hd' received), rfl⟩

theorem mintTo_records (h : t.mintTo mint destination authority amount = .ok t') :
    t.mintOf destination = some mint ∧ KeepsAccounts t t' ∧ KeepsMints t t' := by
  simp only [mintTo, bind_eq_ok, orFail_eq_ok, ensure_eq_ok, exists_const, pure_eq_ok] at h
  obtain ⟨d, hd, c, hc, rfl, -, received, -, issued, -, rfl⟩ := h
  exact ⟨mintOf_of hd, keepsAccounts_setAmount hd received, keepsMints_setSupply hc issued⟩

theorem burn_records (h : t.burn mint source authority amount = .ok t') :
    t.mintOf source = some mint ∧ KeepsAccounts t t' ∧ KeepsMints t t' := by
  simp only [burn, bind_eq_ok, orFail_eq_ok, ensure_eq_ok, exists_const, pure_eq_ok] at h
  obtain ⟨s, hs, c, hc, rfl, -, left, -, remaining, -, rfl⟩ := h
  exact ⟨mintOf_of hs, keepsAccounts_setAmount hs left, keepsMints_setSupply hc remaining⟩

theorem openAccount_records (h : t.openAccount k mint authority = .ok t') :
    t.accounts k = none ∧ t' = t.putAccount k { mint, authority, amount := 0 } := by
  simp only [openAccount, bind_eq_ok, ensure_eq_ok, exists_const, pure_eq_ok,
    Option.isNone_iff_eq_none] at h
  obtain ⟨hfree, -, -, rfl⟩ := h
  exact ⟨hfree, rfl⟩

theorem openMint_records (h : t.openMint k authority = .ok t') :
    t.mints k = none ∧ t' = t.putMint k { authority, supply := 0 } := by
  simp only [openMint, bind_eq_ok, ensure_eq_ok, exists_const, pure_eq_ok,
    Option.isNone_iff_eq_none] at h
  obtain ⟨hfree, rfl⟩ := h
  exact ⟨hfree, rfl⟩

theorem account_openAccount (h : t.openAccount k mint authority = .ok t') :
    t'.accounts k = some { mint, authority, amount := 0 } := by
  rw [(openAccount_records h).2]
  exact if_pos rfl

theorem mint_openMint (h : t.openMint k authority = .ok t') :
    t'.mints k = some { authority, supply := 0 } := by
  rw [(openMint_records h).2]
  exact if_pos rfl

theorem keepsAccounts_openAccount (h : t.openAccount k mint authority = .ok t') :
    KeepsAccounts t t' := by
  obtain ⟨hfree, rfl⟩ := openAccount_records h
  intro x a ha
  have hx : x ≠ k := by
    rintro rfl
    cases hfree.symm.trans ha
  exact ⟨a.amount, (if_neg hx).trans ha⟩

theorem keepsMints_openMint (h : t.openMint k authority = .ok t') : KeepsMints t t' := by
  obtain ⟨hfree, rfl⟩ := openMint_records h
  intro m c hc
  have hm : m ≠ k := by
    rintro rfl
    cases hfree.symm.trans hc
  exact ⟨c.supply, (if_neg hm).trans hc⟩

/-! ## Calls -/

/-- One call; whoever gives up tokens or issues them has signed. -/
inductive Call (signed : κ → Prop) (t : TokenLedger κ) : TokenLedger κ → Prop
  | openAccount {key mint authority : κ} {t' : TokenLedger κ}
      (h : t.openAccount key mint authority = .ok t') : Call signed t t'
  | openMint {key authority : κ} {t' : TokenLedger κ} (h : t.openMint key authority = .ok t') :
      Call signed t t'
  | transfer {source mint destination authority : κ} {amount : BitVec 64} {t' : TokenLedger κ}
      (hsign : signed authority)
      (h : t.transfer source mint destination authority amount = .ok t') : Call signed t t'
  | mintTo {mint destination authority : κ} {amount : BitVec 64} {t' : TokenLedger κ}
      (hsign : signed authority) (h : t.mintTo mint destination authority amount = .ok t') :
      Call signed t t'
  | burn {mint source authority : κ} {amount : BitVec 64} {t' : TokenLedger κ}
      (hsign : signed authority) (h : t.burn mint source authority amount = .ok t') :
      Call signed t t'

/-- Any number of calls. -/
abbrev Calls (signed : κ → Prop) : TokenLedger κ → TokenLedger κ → Prop :=
  Relation.ReflTransGen (Call signed)

variable {signed : κ → Prop} {u : κ}

/-- What every call keeps, calls in a row keep. -/
theorem Calls.invariant {P : TokenLedger κ → Prop} (h : Calls signed t t')
    (hkeep : ∀ t t', P t → Call signed t t' → P t') (ht : P t) : P t' := by
  induction h with
  | refl => exact ht
  | tail _ hcall ih => exact hkeep _ _ ih hcall

theorem Call.keepsAccounts (h : Call signed t t') : KeepsAccounts t t' := by
  cases h with
  | openAccount h => exact keepsAccounts_openAccount h
  | openMint h =>
      obtain ⟨-, rfl⟩ := openMint_records h
      exact .refl t
  | transfer _ h => exact (transfer_records h).2.2.1
  | mintTo _ h => exact (mintTo_records h).2.1
  | burn _ h => exact (burn_records h).2.1

theorem Call.keepsMints (h : Call signed t t') : KeepsMints t t' := by
  cases h with
  | openAccount h =>
      obtain ⟨-, rfl⟩ := openAccount_records h
      exact .refl t
  | openMint h => exact keepsMints_openMint h
  | transfer _ h =>
      intro m c hc
      rw [(transfer_records h).2.2.2]
      exact ⟨c.supply, hc⟩
  | mintTo _ h => exact (mintTo_records h).2.2
  | burn _ h => exact (burn_records h).2.2

theorem Calls.keepsAccounts (h : Calls signed t t') : KeepsAccounts t t' := by
  induction h with
  | refl => exact .refl t
  | tail _ hcall ih => exact ih.trans hcall.keepsAccounts

theorem Calls.keepsMints (h : Calls signed t t') : KeepsMints t t' := by
  induction h with
  | refl => exact .refl t
  | tail _ hcall ih => exact ih.trans hcall.keepsMints

/-! ## Nobody loses who did not sign -/

omit [DecidableEq κ] in
theorem ne_of_unsigned (hx : t.authorityOf x = some u) (hu : ¬ signed u)
    (hauth : t.authorityOf source = some authority) (hsign : signed authority) : x ≠ source := by
  rintro rfl
  cases hx.symm.trans hauth
  exact hu hsign

theorem Call.balance_le (h : Call signed t t') (hx : t.authorityOf x = some u) (hu : ¬ signed u) :
    t.balance x ≤ t'.balance x := by
  cases h with
  | openAccount h => exact ((openAccount_ok h).2.2.2 x).ge
  | openMint h => exact ((openMint_ok h).2.2.2 x).ge
  | transfer hsign h =>
      obtain ⟨hauth, -, -, hbal⟩ := transfer_ok h
      have hmoved := hbal x
      rw [if_neg (ne_of_unsigned hx hu hauth hsign)] at hmoved
      omega
  | mintTo _ h =>
      have hissued := (mintTo_ok h).2.2.2 x
      omega
  | burn hsign h =>
      obtain ⟨hauth, -, -, hbal⟩ := burn_ok h
      have hburnt := hbal x
      rw [if_neg (ne_of_unsigned hx hu hauth hsign)] at hburnt
      omega

/-- An account loses nothing when its authority has not signed. -/
theorem Calls.balance_le (h : Calls signed t t') (hx : t.authorityOf x = some u)
    (hu : ¬ signed u) : t.balance x ≤ t'.balance x := by
  induction h with
  | refl => exact Nat.le_refl _
  | tail hcalls hcall ih =>
      have hx' := (Calls.keepsAccounts hcalls).authorityOf hx
      exact ih.trans (hcall.balance_le hx' hu)

theorem Call.supply_le (h : Call signed t t') (hm : t.mintAuthority m = some u) (hu : ¬ signed u) :
    t'.supply m ≤ t.supply m := by
  cases h with
  | openAccount h => exact ((openAccount_ok h).2.2.1 m).le
  | openMint h => exact ((openMint_ok h).2.2.1 m).le
  | transfer _ h => exact ((transfer_ok h).2.2.1 m).le
  | @mintTo mint _ _ _ _ hsign h =>
      obtain ⟨hauth, -, hsupply, -⟩ := mintTo_ok h
      have hne : m ≠ mint := by
        rintro rfl
        cases hm.symm.trans hauth
        exact hu hsign
      rw [hsupply m, if_neg hne]
      exact Nat.le_refl _
  | burn _ h =>
      have hburnt := (burn_ok h).2.2.1 m
      omega

/-- Nothing is issued when the mint's authority has not signed. -/
theorem Calls.supply_le (h : Calls signed t t') (hm : t.mintAuthority m = some u)
    (hu : ¬ signed u) : t'.supply m ≤ t.supply m := by
  induction h with
  | refl => exact Nat.le_refl _
  | tail hcalls hcall ih =>
      have hm' := (Calls.keepsMints hcalls).mintAuthority hm
      exact (hcall.supply_le hm' hu).trans ih

/-- An authority that has not signed is spared. -/
theorem Calls.spared (h : Calls signed t t') (hu : ¬ signed authority) :
    t.Spared authority t' where
  accounts x a ha hown := by
    subst hown
    obtain ⟨n, hn⟩ := h.keepsAccounts x a ha
    have hle := h.balance_le (authorityOf_of ha) hu
    rw [balance_of ha, balance_of hn] at hle
    exact ⟨n, hn, hle⟩
  mints m c hc hown := by
    subst hown
    obtain ⟨n, hn⟩ := h.keepsMints m c hc
    have hle := h.supply_le (mintAuthority_of hc) hu
    rw [supply_of hc, supply_of hn] at hle
    exact ⟨n, hn, hle⟩

/-! ## Conservation -/

/-- No accounts of a mint together hold more than it has issued. -/
def Conserved (t : TokenLedger κ) : Prop := ∀ m, Covers (t.held m) (t.supply m)

theorem conserved_empty : Conserved (empty : TokenLedger κ) := by
  intro m
  exact covers_zero fun x => rfl

theorem held_eq (h : t.mintOf x = some m) : t.held m x = t.balance x := if_pos h

theorem held_eq_zero (h : t.mintOf x ≠ some m) : t.held m x = 0 := if_neg h

omit [DecidableEq κ] in
/-- Where nobody's authority changed, no account is new, and every mint is as it was. -/
theorem mintOf_eq (h : KeepsAccounts t t') (hsame : SameAuthorities t t') (x : κ) :
    t'.mintOf x = t.mintOf x := by
  cases hx : t.accounts x with
  | some a =>
      rw [mintOf_of hx]
      exact h.mintOf (mintOf_of hx)
  | none =>
      have hnone : t'.authorityOf x = none := by
        rw [hsame.accounts x, authorityOf, hx]
        rfl
      rw [mintOf, mintOf, hx, Option.map_eq_none_iff.mp hnone]

/-- The tokens of a mint in an account change at most as the balance does. -/
theorem held_congr (hmint : t'.mintOf x = t.mintOf x)
    (hbal : t.mintOf x = some m → t'.balance x = t.balance x) : t'.held m x = t.held m x := by
  by_cases hx : t.mintOf x = some m
  · rw [held_eq hx, held_eq (hmint.trans hx), hbal hx]
  · rw [held_eq_zero hx, held_eq_zero (hmint ▸ hx)]

theorem Conserved.transfer (hc : t.Conserved)
    (h : t.transfer source mint destination authority amount = .ok t') : t'.Conserved := by
  obtain ⟨hs, hd, hkeep, -⟩ := transfer_records h
  obtain ⟨-, hsame, hsupply, hbal⟩ := transfer_ok h
  intro m
  rw [hsupply m]
  -- an account of another mint is neither end of the transfer
  have hends (x : κ) (hx : t.mintOf x ≠ some mint) : x ≠ source ∧ x ≠ destination :=
    ⟨fun he => hx (he ▸ hs), fun he => hx (he ▸ hd)⟩
  by_cases hm : m = mint
  · subst hm
    apply (hc m).move (a := source) (b := destination) (n := amount.toNat)
    intro x
    rw [held, held, mintOf_eq hkeep hsame x]
    by_cases hx : t.mintOf x = some m
    · rw [if_pos hx, if_pos hx]
      exact hbal x
    · rw [if_neg hx, if_neg hx, if_neg (hends x hx).1, if_neg (hends x hx).2]
  · have hsame' : t'.held m = t.held m := by
      funext x
      refine held_congr (mintOf_eq hkeep hsame x) fun hx => ?_
      have hends' := hends x fun he => hm (Option.some.inj (hx.symm.trans he))
      have hmoved := hbal x
      rwa [if_neg hends'.1, if_neg hends'.2] at hmoved
    rw [hsame']
    exact hc m

theorem Conserved.mintTo (hc : t.Conserved)
    (h : t.mintTo mint destination authority amount = .ok t') : t'.Conserved := by
  obtain ⟨hd, hkeep, -⟩ := mintTo_records h
  obtain ⟨-, hsame, hsupply, hbal⟩ := mintTo_ok h
  intro m
  refine (hc m).update (o := destination) (fun x hx => ?_) (Nat.zero_le _) ?_
  · refine held_congr (mintOf_eq hkeep hsame x) fun _ => ?_
    rw [hbal x, if_neg hx, Nat.add_zero]
  · rw [held, held, mintOf_eq hkeep hsame, hd, hbal, hsupply]
    by_cases hm : m = mint
    · rw [if_pos hm, if_pos rfl, if_pos (hm ▸ rfl), if_pos (hm ▸ rfl)]
      omega
    · have hne : ¬ some mint = some m := fun he => hm (Option.some.inj he).symm
      rw [if_neg hm, if_neg hne, if_neg hne]
      exact Nat.le_refl _

theorem Conserved.burn (hc : t.Conserved) (h : t.burn mint source authority amount = .ok t') :
    t'.Conserved := by
  obtain ⟨hs, hkeep, -⟩ := burn_records h
  obtain ⟨-, hsame, hsupply, hbal⟩ := burn_ok h
  intro m
  refine (hc m).update (o := source) (fun x hx => ?_) (Nat.zero_le _) ?_
  · refine held_congr (mintOf_eq hkeep hsame x) fun _ => ?_
    have hburnt := hbal x
    rwa [if_neg hx, Nat.add_zero] at hburnt
  · have hburnt := hbal source
    have hstruck := hsupply m
    rw [if_pos rfl] at hburnt
    rw [held, held, mintOf_eq hkeep hsame, hs]
    by_cases hm : m = mint
    · rw [if_pos hm] at hstruck
      rw [if_pos (hm ▸ rfl), if_pos (hm ▸ rfl)]
      omega
    · have hne : ¬ some mint = some m := fun he => hm (Option.some.inj he).symm
      rw [if_neg hm] at hstruck
      rw [if_neg hne, if_neg hne]
      omega

theorem Conserved.openAccount (hc : t.Conserved) (h : t.openAccount k mint authority = .ok t') :
    t'.Conserved := by
  obtain ⟨hfree, rfl⟩ := openAccount_records h
  intro m
  -- the new account is empty, and there was none before
  have hsame : (t.putAccount k { mint, authority, amount := 0 }).held m = t.held m := by
    funext x
    by_cases hx : x = k
    · subst hx
      have hnone : t.mintOf x ≠ some m := by
        rw [mintOf, hfree]
        exact nofun
      rw [held_eq_zero hnone, held, balance_putAccount, if_pos rfl]
      exact ite_self 0
    · rw [held, held, balance_putAccount, if_neg hx]
      have hmint : (t.putAccount k { mint, authority, amount := 0 }).mintOf x = t.mintOf x := by
        show ((if x = k then _ else t.accounts x).map _ : Option κ) = _
        rw [if_neg hx]
        rfl
      rw [hmint]
  rw [hsame]
  exact hc m

theorem Conserved.openMint (hc : t.Conserved) (h : t.openMint k authority = .ok t') :
    t'.Conserved := by
  obtain ⟨hfree, rfl⟩ := openMint_records h
  intro m
  have hsupply : (t.putMint k { authority, supply := 0 }).supply m = t.supply m := by
    rw [supply_putMint]
    by_cases hm : m = k
    · rw [if_pos hm, hm, supply, hfree]
      rfl
    · exact if_neg hm
  rw [hsupply]
  exact hc m

/-- Calls conserve tokens. -/
theorem Calls.conserved (h : Calls signed t t') (hc : t.Conserved) : t'.Conserved := by
  refine Calls.invariant h (fun t t' ht hcall => ?_) hc
  cases hcall with
  | openAccount h => exact ht.openAccount h
  | openMint h => exact ht.openMint h
  | transfer _ h => exact ht.transfer h
  | mintTo _ h => exact ht.mintTo h
  | burn _ h => exact ht.burn h

/-! ## Transfers that cannot fail -/

/-- Funds that are there can be moved: the destination has room, because all accounts of the mint
together hold no more than one word of tokens. -/
theorem Conserved.exists_transfer (hc : t.Conserved) (hs : t.accounts source = some s)
    (hd : t.accounts destination = some d) (hm : t.mints mint = some c) (hsm : s.mint = mint)
    (hdm : d.mint = mint) (hauth : s.authority = authority)
    (hfunds : amount.toNat ≤ t.balance source) :
    ∃ t', t.transfer source mint destination authority amount = .ok t' := by
  rw [balance_of hs] at hfunds
  obtain ⟨left, hleft⟩ : ∃ left, checkedSub s.amount amount = some left := by
    cases hsub : checkedSub s.amount amount with
    | some left => exact ⟨left, rfl⟩
    | none => exact absurd (checkedSub_eq_none.mp hsub) (Nat.not_lt.mpr hfunds)
  by_cases hself : source = destination
  · refine ⟨t, ?_⟩
    simp only [TokenLedger.transfer, bind_eq_ok, orFail_eq_ok, ensure_eq_ok, exists_const]
    refine ⟨s, hs, d, hd, c, hm, ⟨hsm, hdm⟩, hauth, left, hleft, ?_⟩
    rw [if_pos hself, pure_eq_ok]
  · have hroom : d.amount.toNat + amount.toNat < 2 ^ 64 := by
      have hsum := hc mint {source, destination}
      rw [Finset.sum_pair hself, held_eq (hsm ▸ mintOf_of hs), held_eq (hdm ▸ mintOf_of hd),
        balance_of hs, balance_of hd, supply_of hm] at hsum
      have hlt := c.supply.isLt
      omega
    obtain ⟨received, hreceived⟩ : ∃ received, checkedAdd d.amount amount = some received := by
      cases hadd : checkedAdd d.amount amount with
      | some received => exact ⟨received, rfl⟩
      | none => exact absurd (checkedAdd_eq_none.mp hadd) (Nat.not_le.mpr hroom)
    refine ⟨(t.putAccount source { s with amount := left }).putAccount destination
      { d with amount := received }, ?_⟩
    simp only [TokenLedger.transfer, bind_eq_ok, orFail_eq_ok, ensure_eq_ok, exists_const]
    refine ⟨s, hs, d, hd, c, hm, ⟨hsm, hdm⟩, hauth, left, hleft, ?_⟩
    simp only [if_neg hself, bind_eq_ok, orFail_eq_ok, pure_eq_ok]
    exact ⟨received, hreceived, rfl⟩

/-- Funds that are there can be destroyed: the mint has issued at least as much. -/
theorem Conserved.exists_burn (hc : t.Conserved) (hs : t.accounts source = some s)
    (hm : t.mints mint = some c) (hsm : s.mint = mint) (hauth : s.authority = authority)
    (hfunds : amount.toNat ≤ t.balance source) :
    ∃ t', t.burn mint source authority amount = .ok t' := by
  have hissued := (hc mint).le source
  rw [held_eq (hsm ▸ mintOf_of hs), supply_of hm] at hissued
  have hsupply : amount.toNat ≤ c.supply.toNat := hfunds.trans hissued
  rw [balance_of hs] at hfunds
  obtain ⟨left, hleft⟩ : ∃ left, checkedSub s.amount amount = some left := by
    cases hsub : checkedSub s.amount amount with
    | some left => exact ⟨left, rfl⟩
    | none => exact absurd (checkedSub_eq_none.mp hsub) (Nat.not_lt.mpr hfunds)
  obtain ⟨remaining, hremaining⟩ : ∃ remaining, checkedSub c.supply amount = some remaining := by
    cases hsub : checkedSub c.supply amount with
    | some remaining => exact ⟨remaining, rfl⟩
    | none => exact absurd (checkedSub_eq_none.mp hsub) (Nat.not_lt.mpr hsupply)
  refine ⟨(t.putAccount source { s with amount := left }).putMint mint
    { c with supply := remaining }, ?_⟩
  simp only [TokenLedger.burn, bind_eq_ok, orFail_eq_ok, ensure_eq_ok, exists_const, pure_eq_ok]
  exact ⟨s, hs, c, hm, hsm, hauth, left, hleft, remaining, hremaining, rfl⟩

/-- The destination's authority can send back what came in, and that undoes the transfer. -/
theorem transfer_back (hne : source ≠ destination) (hd : t.accounts destination = some d)
    (h : t.transfer source mint destination authority amount = .ok t') :
    t'.transfer destination mint source d.authority amount = .ok t := by
  simp only [TokenLedger.transfer, bind_eq_ok, orFail_eq_ok, ensure_eq_ok, exists_const,
    checkedSub_eq_some] at h
  obtain ⟨s, hs, d', hd', m, hm, ⟨hsm, hdm⟩, -, left, hleft, h⟩ := h
  cases hd.symm.trans hd'
  simp only [if_neg hne, bind_eq_ok, orFail_eq_ok, checkedAdd_eq_some, pure_eq_ok] at h
  obtain ⟨received, hreceived, rfl⟩ := h
  have hsource : ((t.putAccount source { s with amount := left }).putAccount destination
      { d with amount := received }).accounts source = some { s with amount := left } := by
    show (if source = destination then _ else if source = source then _ else _) = _
    rw [if_neg hne, if_pos rfl]
  have hdestination : ((t.putAccount source { s with amount := left }).putAccount destination
      { d with amount := received }).accounts destination = some { d with amount := received } :=
    if_pos rfl
  simp only [TokenLedger.transfer, bind_eq_ok, orFail_eq_ok, ensure_eq_ok, exists_const,
    checkedSub_eq_some]
  refine ⟨_, hdestination, _, hsource, m, hm, ⟨hdm, hsm⟩, rfl, d.amount, by simp only; omega, ?_⟩
  simp only [if_neg hne.symm, bind_eq_ok, orFail_eq_ok, checkedAdd_eq_some, pure_eq_ok]
  refine ⟨s.amount, by omega, ?_⟩
  -- both accounts hold again what they held
  have haccounts : (fun x => if x = source then some s else if x = destination then some d else
      if x = destination then some { d with amount := received } else
      if x = source then some { s with amount := left } else t.accounts x) = t.accounts := by
    funext x
    by_cases hxs : x = source
    · rw [if_pos hxs, hxs, hs]
    · by_cases hxd : x = destination
      · rw [if_neg hxs, if_pos hxd, hxd, hd]
      · rw [if_neg hxs, if_neg hxd, if_neg hxd, if_neg hxs]
  exact congrArg (fun accounts => TokenLedger.mk accounts t.mints) haccounts.symm

end TokenLedger

end Kit
