/-
# VeilVault.State.Market — the lending market account.

A transcription of `state/lending_market.rs`.  The market's address is derived from the owner it was
created by; the stored owner can change afterwards, the address cannot.
-/
import VeilVault.State.Basic

namespace VeilVault

open Kit

structure LendingMarket where
  owner : Pubkey
  emergencyPause : Bool
  protocolFeeBps : U16
  deriving DecidableEq, Repr

namespace LendingMarket

def init (owner : Pubkey) (protocolFeeBps : U16) : LendingMarket :=
  { owner, emergencyPause := false, protocolFeeBps }

def setEmergencyPause (m : LendingMarket) (emergencyPause : Bool) : LendingMarket :=
  { m with emergencyPause }

def isPaused (m : LendingMarket) : Bool := m.emergencyPause

end LendingMarket

end VeilVault
